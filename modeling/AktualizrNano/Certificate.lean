/-
AktualizrNano/Certificate.lean

The device certificate: it is read from the secure element through PKCS#11,
written as PEM text, and looked at to decide whether the device has one.

The calls of the token go through one result variable, and the status of the
search is replaced by that of its end.  `Searched` is the point up to which
every error is seen, and `prvGetCertificate_searched` says what follows from
there on.

What is encoded is never the value that was read: a NUL is stored behind it and
counted.  So success is right only where there is none, which is the condition
of `certificate_reported_iff`.  The NUL goes behind the end of the block that
was allocated for the value (`overrun_of_valueRead`).
-/
import AktualizrNano.Platform
import Mathlib.Logic.Function.Basic

namespace AktualizrNano

open CLib

/-! ### The token and the encoder -/

/-- `CK_RV`; a `CK_ULONG` has 32 bits. -/
abbrev CkRv := BitVec 32

abbrev ckrOk : CkRv := 0
abbrev ckrHostMemory : CkRv := 0x2
abbrev ckrCryptokiAlreadyInitialized : CkRv := 0x191

/-- How the PKCS#11 functions and the allocator behave, one call at a time.
Nothing is assumed of it. -/
structure Pkcs11 where
  cGetFunctionList : CkRv
  cInitialize : CkRv
  /-- the status, the slot and the number of slots -/
  cGetSlotList : CkRv × BitVec 32 × BitVec 32
  /-- the status and the session -/
  cOpenSession : (xSlotId : BitVec 32) → CkRv × BitVec 32
  cFindObjectsInit : (xSession : BitVec 32) → CkRv
  /-- the status, the handle if one is written, and the number of objects -/
  cFindObjects : (xSession : BitVec 32) → CkRv × Option (BitVec 32) × BitVec 32
  cFindObjectsFinal : (xSession : BitVec 32) → CkRv
  /-- `C_GetAttributeValue` without a buffer: the status and the length -/
  cGetAttributeLength : (xSession xHandle xCount : BitVec 32) → CkRv × BitVec 32
  /-- with a buffer: the status, the length, and the memory at the buffer -/
  cGetAttributeValue : (xSession xHandle xCount ulValueLen : BitVec 32) →
    CkRv × BitVec 32 × (Nat → Byte)
  /-- `pvPortMalloc` finds room -/
  pvPortMalloc : BitVec 32 → Bool

/-- `mbedtls_pem_write_buffer` with the lines of a certificate. -/
structure PemEncoder where
  /-- the PEM text of some data -/
  text : List Byte → List Byte
  clean : ∀ data, ∀ b ∈ text data, b ≠ 0
  injective : Function.Injective text
  /-- the status, and the buffer afterwards -/
  write : {n : Nat} → List Byte → CharArray n → Int × CharArray n
  /-- the status does not depend on what the buffer held -/
  status : ∀ {n : Nat} (data : List Byte) (dst dst' : CharArray n),
    (write data dst).1 = (write data dst').1
  writes : ∀ {n : Nat} (data : List Byte) (dst : CharArray n), (write data dst).1 = 0 →
    ∃ rest, (write data dst).2.bytes = text data ++ 0 :: rest

variable (f : Pkcs11) (enc : PemEncoder)

/-! ### The value in memory -/

/-- A block from `pvPortMalloc`, and what the memory holds from its start on. -/
structure HeapBlock where
  size : Nat
  mem : Nat → Byte

namespace HeapBlock

/-- A store may go beyond the block: to the neighbours of the block. -/
def store (block : HeapBlock) (i : Nat) (b : Byte) : HeapBlock :=
  { block with mem := Function.update block.mem i b }

/-- The first `n` bytes. -/
def bytes (block : HeapBlock) (n : Nat) : List Byte := (List.range n).map block.mem

@[simp] theorem bytes_length (block : HeapBlock) (n : Nat) : (block.bytes n).length = n := by
  rw [bytes, List.length_map, List.length_range]

/-- A byte behind the first `n`. -/
theorem store_bytes_succ (block : HeapBlock) (n : Nat) (b : Byte) :
    (block.store n b).bytes (n + 1) = block.bytes n ++ [b] := by
  rw [bytes, bytes, store, List.range_succ, List.map_append, List.map_singleton]
  dsimp only
  rw [Function.update_self]
  refine congrArg (· ++ [b]) (List.map_congr_left fun k hk => ?_)
  exact Function.update_of_ne (List.mem_range.mp hk).ne ..

end HeapBlock

/-! ### Reading the certificate -/

/-- The status and the handle.  What `C_FindObjects` returns is replaced by
what `C_FindObjectsFinal` returns, and its count is not looked at. -/
def prvGetCertificateHandle (xSession xHandle : BitVec 32) : CkRv × BitVec 32 :=
  let xResult := f.cFindObjectsInit xSession
  if xResult = 0 then
    let (_, handle, _) := f.cFindObjects xSession
    (f.cFindObjectsFinal xSession, handle.getD xHandle)
  else (xResult, xHandle)

/-- The part of `prvGetCertificate` that reads the value of the object.  The
block is as long as the first answer says, the value as the second does. -/
def getCertificateValue (xCount xSession xHandle : BitVec 32) :
    CkRv × Option HeapBlock × BitVec 32 :=
  let (xResult, ulValueLen) := f.cGetAttributeLength xSession xHandle xCount
  if xResult = ckrOk then
    if f.pvPortMalloc ulValueLen then
      let size := ulValueLen.toNat
      let (xResult, ulValueLen, mem) := f.cGetAttributeValue xSession xHandle xCount ulValueLen
      if xResult = ckrOk then (xResult, some ⟨size, mem⟩, ulValueLen) else (xResult, none, 0)
    else (ckrHostMemory, none, 0)
  else (xResult, none, 0)

/-- The status, `*ppucData` and `*pulDataSize`. -/
def prvGetCertificate : CkRv × Option HeapBlock × BitVec 32 :=
  let xResult := f.cGetFunctionList
  let xResult := if xResult = ckrOk then f.cInitialize else xResult
  let (xResult, xSlotId, xCount) :=
    if xResult = ckrOk ∨ xResult = ckrCryptokiAlreadyInitialized then f.cGetSlotList
    else (xResult, 0, 1)
  let (xResult, xSession) :=
    if xResult = ckrOk then f.cOpenSession xSlotId else (xResult, 0)
  let (xResult, xHandle) :=
    if xResult = ckrOk then prvGetCertificateHandle f xSession 0 else (xResult, 0)
  if xHandle ≠ 0 ∧ xResult = ckrOk then getCertificateValue f xCount xSession xHandle
  -- not found, with whatever status there is
  else (xResult, none, 0)

/-- What is encoded: a NUL is put behind the value, and counted. -/
def encodedData (certData : HeapBlock) (certSize : BitVec 32) : List Byte :=
  (certData.store certSize.toNat 0).bytes (certSize + 1).toNat

/-- What `aknano_read_device_certificate` comes to. -/
structure DeviceCertificate (n : Nat) where
  ret : Bool
  dst : CharArray n
  /-- the NUL was stored outside its block, which C leaves undefined -/
  overrun : Bool

def aknanoReadDeviceCertificate {n : Nat} (dst : CharArray n) : DeviceCertificate n :=
  let (ret, certData, certSize) := prvGetCertificate f
  if ret = ckrOk ∧ certSize ≠ 0 then
    let certData := certData.getD ⟨0, fun _ => 0⟩
    let (ret, dst) := enc.write (encodedData certData certSize) dst
    ⟨decide (ret = 0), dst, decide (certData.size ≤ certSize.toNat)⟩
  else ⟨decide (ret = ckrOk), dst, false⟩

/-! ### Is there one? -/

abbrev aknanoCertBufSize : Nat := 1024

def isCertificateValid (pem : CharArray aknanoCertBufSize) : Bool :=
  if pem.bytes.headD 0 ≠ 0x2D then false
  else
    let certLen := strnlen pem.bytes aknanoCertBufSize
    ¬ (certLen < 200 ∨ certLen ≥ aknanoCertBufSize)

/-- `deviceCertificate` is the local array as it comes from the stack.  The
result is also the new value of the cache. -/
def isValidCertificateAvailable_ (deviceCertificate : CharArray aknanoCertBufSize) : Bool :=
  let read := aknanoReadDeviceCertificate f enc deviceCertificate
  if ¬ read.ret then false else isCertificateValid read.dst

def isValidCertificateAvailable (isCertificateAvailableCache useCachedValue : Bool)
    (deviceCertificate : CharArray aknanoCertBufSize) : Bool :=
  if useCachedValue ∨ isCertificateAvailableCache then isCertificateAvailableCache
  else isValidCertificateAvailable_ f enc deviceCertificate

/-! ### What success means -/

variable {f enc}

/-- The last status in front of the search. -/
def startStatus (f : Pkcs11) : CkRv :=
  if f.cGetFunctionList = ckrOk then f.cInitialize else f.cGetFunctionList

/-- A session was opened, and a search begun and ended, without error. -/
structure Searched (f : Pkcs11) (xSlotId xCount xSession : BitVec 32) : Prop where
  started : startStatus f = ckrOk ∨ startStatus f = ckrCryptokiAlreadyInitialized
  slot : f.cGetSlotList = (ckrOk, xSlotId, xCount)
  session : f.cOpenSession xSlotId = (ckrOk, xSession)
  begun : f.cFindObjectsInit xSession = ckrOk
  ended : f.cFindObjectsFinal xSession = ckrOk

/-- The value of an object is read without error. -/
structure ValueRead (f : Pkcs11) (xCount xSession xHandle certSize : BitVec 32)
    (certData : HeapBlock) (ulValueLen : BitVec 32) : Prop where
  length : f.cGetAttributeLength xSession xHandle xCount = (ckrOk, ulValueLen)
  room : f.pvPortMalloc ulValueLen = true
  size : certData.size = ulValueLen.toNat
  value : f.cGetAttributeValue xSession xHandle xCount ulValueLen = (ckrOk, certSize, certData.mem)

theorem getCertificateValue_ok_iff {xCount xSession xHandle certSize : BitVec 32}
    {certData : Option HeapBlock} :
    getCertificateValue f xCount xSession xHandle = (ckrOk, certData, certSize) ↔
      ∃ value ulValueLen, certData = some value ∧
        ValueRead f xCount xSession xHandle certSize value ulValueLen := by
  constructor
  · intro h
    rcases hlength : f.cGetAttributeLength xSession xHandle xCount with ⟨status, ulValueLen⟩
    rcases hvalue : f.cGetAttributeValue xSession xHandle xCount ulValueLen with
      ⟨status', size, mem⟩
    simp only [getCertificateValue, hlength, hvalue] at h
    split at h
    · next hstatus =>
      split at h
      · next hroom =>
        split at h
        · next hstatus' =>
          simp only [Prod.mk.injEq] at h
          obtain ⟨-, rfl, rfl⟩ := h
          exact ⟨⟨_, mem⟩, ulValueLen, rfl, hstatus ▸ hlength, hroom, rfl, hstatus' ▸ hvalue⟩
        · next hstatus' => exact absurd (congrArg Prod.fst h) hstatus'
      · have hmemory : ckrHostMemory = ckrOk := congrArg Prod.fst h
        exact absurd hmemory (by decide)
    · next hstatus => exact absurd (congrArg Prod.fst h) hstatus
  · rintro ⟨⟨_, mem⟩, ulValueLen, rfl, hlength, hroom, rfl, hvalue⟩
    simp only [getCertificateValue, hlength, hroom, hvalue, if_true]

/-- After the search, everything depends on the handle. -/
theorem prvGetCertificate_searched {xSlotId xCount xSession : BitVec 32}
    (h : Searched f xSlotId xCount xSession) :
    prvGetCertificate f =
      if (f.cFindObjects xSession).2.1.getD 0 ≠ 0 then
        getCertificateValue f xCount xSession ((f.cFindObjects xSession).2.1.getD 0)
      else (ckrOk, none, 0) := by
  have hhandle : prvGetCertificateHandle f xSession 0
      = (ckrOk, (f.cFindObjects xSession).2.1.getD 0) := by
    rw [prvGetCertificateHandle, if_pos h.begun, h.ended]
  have hstarted := h.started
  unfold startStatus at hstarted
  rw [prvGetCertificate]
  dsimp only
  rw [if_pos hstarted, h.slot]
  dsimp only
  rw [if_pos rfl, h.session]
  dsimp only
  rw [if_pos rfl, hhandle]
  dsimp only
  exact if_congr (and_iff_left rfl) rfl rfl

/-- Without a search there is no success. -/
theorem searched_of_ok (h : (prvGetCertificate f).1 = ckrOk) :
    ∃ xSlotId xCount xSession, Searched f xSlotId xCount xSession := by
  rcases hslot : f.cGetSlotList with ⟨slotStatus, xSlotId, xCount⟩
  rcases hsession : f.cOpenSession xSlotId with ⟨sessionStatus, xSession⟩
  have hstarted : startStatus f = ckrOk ∨ startStatus f = ckrCryptokiAlreadyInitialized := by
    by_contra hstarted
    have hstatus : (prvGetCertificate f).1 = startStatus f := by
      have hne : startStatus f ≠ ckrOk := fun hok => hstarted (.inl hok)
      unfold startStatus at hstarted hne ⊢
      simp only [prvGetCertificate, if_neg hstarted, if_neg hne, ne_eq, not_true_eq_false,
        false_and, if_false]
    exact hstarted (.inl (hstatus.symm.trans h))
  have hstarted' := hstarted
  unfold startStatus at hstarted'
  simp only [prvGetCertificate, if_pos hstarted', hslot] at h
  by_cases hslotOk : slotStatus = ckrOk
  · simp only [if_pos hslotOk, hsession] at h
    by_cases hsessionOk : sessionStatus = ckrOk
    · simp only [if_pos hsessionOk, prvGetCertificateHandle] at h
      by_cases hbegun : f.cFindObjectsInit xSession = 0
      · simp only [if_pos hbegun] at h
        refine ⟨xSlotId, xCount, xSession, hstarted, hslotOk ▸ hslot, hsessionOk ▸ hsession,
          hbegun, ?_⟩
        by_contra hended
        simp only [hended, and_false, if_false] at h
      · simp only [if_neg hbegun, ne_eq, not_true_eq_false, false_and, if_false] at h
        exact absurd h hbegun
    · simp only [if_neg hsessionOk, ne_eq, not_true_eq_false, false_and, if_false] at h
      exact absurd h hsessionOk
  · simp only [if_neg hslotOk, ne_eq, not_true_eq_false, false_and, if_false] at h
    exact absurd h hslotOk

variable {n : Nat}

/-- A value that was read goes to the encoder. -/
theorem aknanoReadDeviceCertificate_read {certData : HeapBlock} {certSize : BitVec 32}
    (h : prvGetCertificate f = (ckrOk, some certData, certSize)) (hsize : certSize ≠ 0)
    (dst : CharArray n) :
    aknanoReadDeviceCertificate f enc dst =
      ⟨decide ((enc.write (encodedData certData certSize) dst).1 = 0),
        (enc.write (encodedData certData certSize) dst).2,
        decide (certData.size ≤ certSize.toNat)⟩ := by
  simp only [aknanoReadDeviceCertificate, h, ne_eq, hsize, not_false_eq_true, and_self, if_true,
    Option.getD_some]

/-- Success without a value, or with an empty one, leaves the buffer alone. -/
theorem aknanoReadDeviceCertificate_empty {certData : Option HeapBlock}
    (h : prvGetCertificate f = (ckrOk, certData, 0)) (dst : CharArray n) :
    aknanoReadDeviceCertificate f enc dst = ⟨true, dst, false⟩ := by
  simp only [aknanoReadDeviceCertificate, h, ne_eq, not_true_eq_false, and_false, if_false,
    decide_true]

theorem ok_of_aknanoReadDeviceCertificate {dst : CharArray n}
    (h : (aknanoReadDeviceCertificate f enc dst).ret = true) :
    (prvGetCertificate f).1 = ckrOk := by
  rcases hcert : prvGetCertificate f with ⟨ret, certData, certSize⟩
  simp only [aknanoReadDeviceCertificate, hcert] at h
  split at h
  · next hread => exact hread.1
  · exact of_decide_eq_true h

/-- The object that was found is the one that is read. -/
theorem prvGetCertificate_valueRead {xSlotId xCount xSession certSize ulValueLen : BitVec 32}
    {certData : HeapBlock} (h : Searched f xSlotId xCount xSession)
    (hfound : (f.cFindObjects xSession).2.1.getD 0 ≠ 0)
    (hread : ValueRead f xCount xSession ((f.cFindObjects xSession).2.1.getD 0) certSize certData
      ulValueLen) :
    prvGetCertificate f = (ckrOk, some certData, certSize) := by
  rw [prvGetCertificate_searched h, if_pos hfound]
  exact getCertificateValue_ok_iff.mpr ⟨certData, ulValueLen, rfl, hread⟩

/-- **The NUL is stored behind the block**, whenever a token gives the length of
the value the same both times. -/
theorem overrun_of_valueRead {xSlotId xCount xSession certSize : BitVec 32}
    {certData : HeapBlock} (h : Searched f xSlotId xCount xSession)
    (hfound : (f.cFindObjects xSession).2.1.getD 0 ≠ 0)
    (hread : ValueRead f xCount xSession ((f.cFindObjects xSession).2.1.getD 0) certSize certData
      certSize) (hsize : certSize ≠ 0) (dst : CharArray n) :
    (aknanoReadDeviceCertificate f enc dst).overrun = true := by
  rw [aknanoReadDeviceCertificate_read (prvGetCertificate_valueRead h hfound hread) hsize]
  exact decide_eq_true hread.size.le

/-! ### The encoded data -/

theorem toNat_succ_ne (certSize : BitVec 32) : (certSize + 1).toNat ≠ certSize.toNat := by
  have hlt := certSize.isLt
  show (certSize.toNat + 1) % 2 ^ 32 ≠ certSize.toNat
  omega

theorem encodedData_eq {certData : HeapBlock} {certSize : BitVec 32} (h : certSize ≠ -1) :
    encodedData certData certSize = certData.bytes certSize.toNat ++ [0] := by
  have hsucc : (certSize + 1).toNat = certSize.toNat + 1 := by
    have hne : certSize.toNat ≠ 2 ^ 32 - 1 := by
      intro heq
      have hmax : (-1 : BitVec 32).toNat = 2 ^ 32 - 1 := by decide
      exact h (BitVec.eq_of_toNat_eq (heq.trans hmax.symm))
    have hlt := certSize.isLt
    show (certSize.toNat + 1) % 2 ^ 32 = _
    exact Nat.mod_eq_of_lt (by omega)
  rw [encodedData, hsucc, HeapBlock.store_bytes_succ]

/-- **What is encoded is never the value**, also when the size wraps around. -/
theorem encodedData_ne (certData : HeapBlock) (certSize : BitVec 32) :
    encodedData certData certSize ≠ certData.bytes certSize.toNat := by
  intro h
  have hlength := congrArg List.length h
  rw [encodedData, HeapBlock.bytes_length, HeapBlock.bytes_length] at hlength
  exact toNat_succ_ne certSize hlength

/-! ### A certificate is reported only when one was read -/

/-- A certificate was found, its value read, and `dst` holds the text of it. -/
def CertificateRead (f : Pkcs11) (enc : PemEncoder) (dst : CharArray n) : Prop :=
  ∃ xSlotId xCount xSession xHandle ulCount certSize certData ulValueLen,
    Searched f xSlotId xCount xSession ∧
    f.cFindObjects xSession = (ckrOk, some xHandle, ulCount) ∧ xHandle ≠ 0 ∧ ulCount ≠ 0 ∧
    ValueRead f xCount xSession xHandle certSize certData ulValueLen ∧
    ∃ rest, dst.bytes = enc.text (certData.bytes certSize.toNat) ++ 0 :: rest

/-- The two things a caller relies on. -/
structure ReportsOnlyRead (f : Pkcs11) (enc : PemEncoder) : Prop where
  read : ∀ {n : Nat} (dst : CharArray n), (aknanoReadDeviceCertificate f enc dst).ret = true →
    CertificateRead f enc (aknanoReadDeviceCertificate f enc dst).dst
  independent : ∀ (isCertificateAvailableCache : Bool)
    (dst dst' : CharArray aknanoCertBufSize),
    isValidCertificateAvailable f enc isCertificateAvailableCache false dst
      = isValidCertificateAvailable f enc isCertificateAvailableCache false dst'

/-- A search that ends well has given a handle; and the value, if it can be
read, is not empty, and with its NUL too much for every buffer. -/
def ReportsNothing (f : Pkcs11) (enc : PemEncoder) : Prop :=
  ∀ xSlotId xCount xSession, Searched f xSlotId xCount xSession →
    (f.cFindObjects xSession).2.1.getD 0 ≠ 0 ∧
    ∀ certSize certData ulValueLen,
      ValueRead f xCount xSession ((f.cFindObjects xSession).2.1.getD 0) certSize certData
        ulValueLen →
      certSize ≠ 0 ∧
        ∀ {n : Nat} (dst : CharArray n), (enc.write (encodedData certData certSize) dst).1 ≠ 0

theorem Searched.unique {slot slot' count count' session session' : BitVec 32}
    (h : Searched f slot count session) (h' : Searched f slot' count' session') :
    slot = slot' ∧ count = count' ∧ session = session' := by
  obtain ⟨-, hslot⟩ := Prod.mk.inj (h.slot.symm.trans h'.slot)
  obtain ⟨rfl, rfl⟩ := Prod.mk.inj hslot
  exact ⟨rfl, rfl, (Prod.mk.inj (h.session.symm.trans h'.session)).2⟩

theorem ValueRead.unique {count session handle size size' len len' : BitVec 32}
    {certData certData' : HeapBlock} (h : ValueRead f count session handle size certData len)
    (h' : ValueRead f count session handle size' certData' len') :
    size = size' ∧ certData = certData' := by
  obtain ⟨-, rfl⟩ := Prod.mk.inj (h.length.symm.trans h'.length)
  obtain ⟨-, hvalue⟩ := Prod.mk.inj (h.value.symm.trans h'.value)
  obtain ⟨rfl, hmem⟩ := Prod.mk.inj hvalue
  obtain ⟨_, _⟩ := certData
  obtain ⟨_, _⟩ := certData'
  obtain rfl : _ = _ := h.size.trans h'.size.symm
  obtain rfl : _ = _ := hmem
  exact ⟨rfl, rfl⟩

/-- An array without room holds no text. -/
theorem not_certificateRead_zero : ¬ CertificateRead f enc (CharArray.zero 0) := by
  rintro ⟨_, _, _, _, _, _, _, _, -, -, -, -, -, rest, htext⟩
  have hlength := congrArg List.length htext
  rw [List.length_append, List.length_cons, CharArray.length_eq] at hlength
  omega

/-- Under that condition there is no success. -/
theorem ReportsNothing.ret (h : ReportsNothing f enc) (dst : CharArray n) :
    (aknanoReadDeviceCertificate f enc dst).ret = false := by
  rw [Bool.eq_false_iff]
  intro hret
  have hok := ok_of_aknanoReadDeviceCertificate hret
  obtain ⟨xSlotId, xCount, xSession, hsearched⟩ := searched_of_ok hok
  obtain ⟨hfound, hvalue⟩ := h xSlotId xCount xSession hsearched
  have hget := prvGetCertificate_searched hsearched
  rw [if_pos hfound] at hget
  rcases hcert : prvGetCertificate f with ⟨ret, certData, certSize⟩
  rw [hcert] at hok
  obtain rfl : ret = ckrOk := hok
  obtain ⟨value, ulValueLen, rfl, hread⟩ := getCertificateValue_ok_iff.mp (hget.symm.trans hcert)
  obtain ⟨hsize, hrefused⟩ := hvalue certSize value ulValueLen hread
  rw [aknanoReadDeviceCertificate_read hcert hsize] at hret
  exact hrefused dst (of_decide_eq_true hret)

/-- **Every success shows on some buffer**: without a value nothing is written,
and with one it is the text of something else. -/
theorem ReportsOnlyRead.reportsNothing (h : ReportsOnlyRead f enc) : ReportsNothing f enc := by
  -- success without a value would promise a text in a buffer that has no room
  have hnonempty : ∀ certData, prvGetCertificate f ≠ (ckrOk, certData, 0) := by
    intro certData hcert
    have hempty : aknanoReadDeviceCertificate f enc (CharArray.zero 0) = ⟨true, .zero 0, false⟩ :=
      aknanoReadDeviceCertificate_empty hcert _
    have hread := h.read (CharArray.zero 0)
    rw [hempty] at hread
    exact not_certificateRead_zero (hread rfl)
  intro xSlotId xCount xSession hsearched
  have hfound : (f.cFindObjects xSession).2.1.getD 0 ≠ 0 := by
    intro hzero
    have hget := prvGetCertificate_searched hsearched
    rw [if_neg (not_not_intro hzero)] at hget
    exact hnonempty none hget
  refine ⟨hfound, fun certSize certData ulValueLen hvalue => ?_⟩
  have hcert := prvGetCertificate_valueRead hsearched hfound hvalue
  have hsize : certSize ≠ 0 := by
    rintro rfl
    exact hnonempty _ hcert
  refine ⟨hsize, fun {n} dst hwrite => ?_⟩
  have hread := h.read dst
  rw [aknanoReadDeviceCertificate_read hcert hsize] at hread
  obtain ⟨slot', count', session', handle', _, size', value', _, hsearched', hfind, -, -,
    hvalue', rest, htext⟩ := hread (decide_eq_true hwrite)
  obtain ⟨rfl, rfl, rfl⟩ := hsearched.unique hsearched'
  rw [hfind] at hvalue
  obtain ⟨rfl, rfl⟩ := hvalue.unique hvalue'
  obtain ⟨rest', hwritten⟩ := enc.writes _ dst hwrite
  have htexts := congrArg (List.takeWhile (· ≠ 0)) (hwritten.symm.trans htext)
  rw [takeWhile_string (enc.clean _), takeWhile_string (enc.clean _)] at htexts
  exact encodedData_ne certData certSize (enc.injective htexts)

/-- **When a certificate is reported only if one was read**: exactly when none
is ever reported. -/
theorem certificate_reported_iff (f : Pkcs11) (enc : PemEncoder) :
    ReportsOnlyRead f enc ↔ ReportsNothing f enc := by
  constructor
  · exact ReportsOnlyRead.reportsNothing
  · intro h
    refine ⟨fun dst hret => ?_, fun isCertificateAvailableCache dst dst' => ?_⟩
    · rw [h.ret dst] at hret
      cases hret
    · have hfalse : ∀ dst, isValidCertificateAvailable_ f enc dst = false := by
        intro dst
        rw [isValidCertificateAvailable_, h.ret dst]
        rfl
      rw [isValidCertificateAvailable, isValidCertificateAvailable, hfalse dst, hfalse dst']

/-! ### A token without a certificate -/

/-- Every call succeeds, and there is nothing to be found. -/
def emptyToken : Pkcs11 where
  cGetFunctionList := ckrOk
  cInitialize := ckrOk
  cGetSlotList := (ckrOk, 1, 1)
  cOpenSession _ := (ckrOk, 1)
  cFindObjectsInit _ := ckrOk
  cFindObjects _ := (ckrOk, none, 0)
  cFindObjectsFinal _ := ckrOk
  cGetAttributeLength _ _ _ := (0x82, 0)
  cGetAttributeValue _ _ _ _ := (0x82, 0, fun _ => 0)
  pvPortMalloc _ := true

/-- A digit of `hex2` as a number. -/
theorem toNat_digit {m : Nat} (hm : m < 16) :
    (BitVec.ofNat 8 (if m < 10 then 0x30 + m else 0x57 + m)).toNat
      = if m < 10 then 0x30 + m else 0x57 + m := by
  rw [BitVec.toNat_ofNat]
  exact Nat.mod_eq_of_lt (by split <;> omega)

theorem digit_injective {m k : Nat} (hm : m < 16) (hk : k < 16)
    (h : BitVec.ofNat 8 (if m < 10 then 0x30 + m else 0x57 + m)
      = BitVec.ofNat 8 (if k < 10 then 0x30 + k else 0x57 + k)) : m = k := by
  have hnat := congrArg BitVec.toNat h
  rw [toNat_digit hm, toNat_digit hk] at hnat
  split at hnat <;> split at hnat <;> omega

theorem hex2_injective : Function.Injective hex2 := by
  intro b c h
  have hb := b.isLt
  have hc := c.isLt
  obtain ⟨hhi, hrest⟩ := List.cons.inj h
  have hhi := digit_injective (by omega) (by omega) hhi
  have hlo := digit_injective (by omega) (by omega) (List.cons.inj hrest).1
  exact BitVec.eq_of_toNat_eq (by omega)

theorem ne_zero_of_mem_hex2 {b c : Byte} (h : b ∈ hex2 c) : b ≠ 0 := by
  have hc := c.isLt
  have hdigit : ∀ m < 16, BitVec.ofNat 8 (if m < 10 then 0x30 + m else 0x57 + m) ≠ 0 := by
    intro m hm hzero
    have hnat := (toNat_digit hm).symm.trans (congrArg BitVec.toNat hzero)
    split at hnat <;> exact absurd hnat (Nat.ne_of_gt (by show 0 < _; omega))
  rcases List.mem_pair.mp h with rfl | rfl
  · exact hdigit _ (by omega)
  · exact hdigit _ (by omega)

theorem flatMap_hex2_injective : Function.Injective (List.flatMap hex2) := by
  intro data
  induction data with
  | nil =>
    intro data' h
    cases data' with
    | nil => rfl
    | cons c data' => exact absurd h (by simp [hex2])
  | cons b data ih =>
    intro data' h
    cases data' with
    | nil => exact absurd h (by simp [hex2])
    | cons c data' =>
      rw [List.flatMap_cons, List.flatMap_cons] at h
      obtain ⟨hbyte, htail⟩ := List.append_inj h rfl
      rw [hex2_injective hbyte, ih htail]

/-- An encoder that writes the digits of the data, if there is room. -/
def hexEncoder : PemEncoder where
  text := List.flatMap hex2
  clean data b hb := by
    obtain ⟨c, -, hc⟩ := List.mem_flatMap.mp hb
    exact ne_zero_of_mem_hex2 hc
  injective := flatMap_hex2_injective
  write {n} data dst :=
    if (data.flatMap hex2).length < n then (0, dst.store (data.flatMap hex2 ++ [0]))
    else (-0x2A, dst)
  status data dst dst' := by split <;> rfl
  writes {n} data dst h := by
    split at h
    · next hfits =>
      rw [if_pos hfits, CharArray.store_bytes_of_le (by rw [List.length_append]; exact hfits),
        List.append_assoc]
      exact ⟨_, rfl⟩
    · have hstatus : (-0x2A : Int) = 0 := h
      exact absurd hstatus (by decide)

/-- What an earlier call may have left on the stack. -/
def leftOver : CharArray aknanoCertBufSize :=
  (CharArray.zero aknanoCertBufSize).store (List.replicate 200 0x2D)

/-- The empty token has a certificate or not, as the stack will have it. -/
theorem certificate_from_the_stack :
    aknanoReadDeviceCertificate emptyToken hexEncoder leftOver = ⟨true, leftOver, false⟩ ∧
    isValidCertificateAvailable emptyToken hexEncoder false false leftOver = true ∧
    isValidCertificateAvailable emptyToken hexEncoder false false
      (CharArray.zero aknanoCertBufSize) = false ∧
    ¬ ReportsOnlyRead emptyToken hexEncoder := by
  have hread : ∀ dst : CharArray aknanoCertBufSize,
      aknanoReadDeviceCertificate emptyToken hexEncoder dst = ⟨true, dst, false⟩ :=
    aknanoReadDeviceCertificate_empty (by rfl)
  have hvalid : ∀ dst, isValidCertificateAvailable emptyToken hexEncoder false false dst
      = isCertificateValid dst := by
    intro dst
    show (if ¬ (aknanoReadDeviceCertificate emptyToken hexEncoder dst).ret then false
      else isCertificateValid (aknanoReadDeviceCertificate emptyToken hexEncoder dst).dst) = _
    rw [hread]
    rfl
  have hleftOver : isCertificateValid leftOver = true := by decide +kernel
  have hzero : isCertificateValid (CharArray.zero aknanoCertBufSize) = false := rfl
  refine ⟨hread leftOver, (hvalid _).trans hleftOver, (hvalid _).trans hzero, fun h => ?_⟩
  have hsame := h.independent false leftOver (CharArray.zero aknanoCertBufSize)
  rw [hvalid, hvalid, hleftOver, hzero] at hsame
  exact Bool.noConfusion hsame

end AktualizrNano
