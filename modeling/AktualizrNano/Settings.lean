/-
AktualizrNano/Settings.lean

The settings of the agent and their page in flash: `aknano_init_settings`
(`aknano.c`) and `aknano_update_settings_in_flash` (`aknano_flash_storage.c`).

The writer packs the fields one behind the other, the reader uses the offsets
of `aknano.h`.  The correlation id takes 102 bytes of the page and the header
allows it 100, so the reader finds the retry count and the retry time two bytes
too early.  `readStoredFields_spec` says what each field is read as, from the
bytes of the sector; `settingsSurvive_iff` says which settings come back.
-/
import AktualizrNano.FlashStorage
import AktualizrNano.Platform

namespace AktualizrNano

open CLib NorFlash Outcome

/-! ### The settings -/

/-- `struct aknano_settings`. -/
structure Settings where
  tag : CharArray aknanoMaxTagLength
  deviceName : CharArray aknanoMaxDeviceNameSize
  uuid : CharArray aknanoMaxUuidLength
  serial : CharArray aknanoMaxSerialLength
  runningVersion : BitVec 32
  lastAppliedVersion : BitVec 32
  lastConfirmedVersion : BitVec 32
  rollbackRetryCount : BitVec 32
  rollbackNextRetryTime : BitVec 64
  pollingInterval : BitVec 32
  ongoingUpdateCorrelationId : CharArray aknanoMaxUpdateCorrelationIdLength
  imagePosition : BitVec 8
  hwid : Option (List Byte)
  isRunningRolledBackImage : Bool
  applicationSelfTestOk : Bool
  isImagePermanent : Bool

/-- `memset(aknano_settings, 0, sizeof(*aknano_settings))`. -/
def Settings.zero : Settings :=
  ⟨.zero _, .zero _, .zero _, .zero _, 0, 0, 0, 0, 0, 0, .zero _, 0, none, false, false, false⟩

/-- The fields that `aknano_update_settings_in_flash` copies, in its order. -/
def storedBytes (s : Settings) : List Byte :=
  leBytes 4 s.lastAppliedVersion.toNat ++ leBytes 4 s.lastConfirmedVersion.toNat
    ++ s.ongoingUpdateCorrelationId.bytes ++ leBytes 4 s.rollbackRetryCount.toNat
    ++ leBytes 8 s.rollbackNextRetryTime.toNat

/-- The 256 bytes that it writes: the fields, and zeros behind them. -/
def flashPageBuffer (s : Settings) : List Byte :=
  storedBytes s ++ List.replicate (256 - (storedBytes s).length) 0

variable (p : Platform) (o : FlashFaults)

/-- The result of the write is dropped in the source; it is kept here for the
statements about it. -/
def aknanoUpdateSettingsInFlash (s : Settings) : FlashM Int :=
  aknanoWriteDataToStorage o aknanoFlashOffStateBase (flashPageBuffer s)

/-- Read an integer field in place. -/
def readScalar {w : Nat} (offset : Int) (value : BitVec w) : FlashM (Int × BitVec w) := do
  let (ret, bytes) ← aknanoReadFlashStorage o offset (leBytes (w / 8) value.toNat)
  pure (ret, BitVec.ofNat w (leNat bytes))

/-- Read a character array in place. -/
def readChars {n : Nat} (offset : Int) (value : CharArray n) : FlashM (Int × CharArray n) := do
  let (ret, bytes) ← aknanoReadFlashStorage o offset value.bytes
  pure (ret, value.store bytes)

/-- The fields that are kept in flash, as they are read. -/
structure StoredFields where
  serial : CharArray aknanoMaxSerialLength
  uuid : CharArray aknanoMaxUuidLength
  lastAppliedVersion : BitVec 32
  lastConfirmedVersion : BitVec 32
  ongoingUpdateCorrelationId : CharArray aknanoMaxUpdateCorrelationIdLength
  rollbackRetryCount : BitVec 32
  rollbackNextRetryTime : BitVec 64

/-- The reads of `aknano_init_settings`, into a structure that was cleared.
Whether all of them succeeded is not looked at in the source. -/
def readStoredFields : FlashM (Bool × StoredFields) := do
  let (r₁, serial) ← readChars o aknanoFlashOffDevSerial (.zero _)
  let (r₂, uuid) ← readChars o aknanoFlashOffDevUuid (.zero _)
  let (r₃, lastApplied) ← readScalar o aknanoFlashOffLastAppliedVersion 0
  let (r₄, lastConfirmed) ← readScalar o aknanoFlashOffLastConfirmedVersion 0
  let (r₅, correlationId) ← readChars o aknanoFlashOffOngoingUpdateCorId (.zero _)
  let (r₆, retryCount) ← readScalar o aknanoFlashOffRollbackRetryCount 0
  let (r₇, retryTime) ← readScalar o aknanoFlashOffRollbackNextRetryTime 0
  pure (r₁ = 0 ∧ r₂ = 0 ∧ r₃ = 0 ∧ r₄ = 0 ∧ r₅ = 0 ∧ r₆ = 0 ∧ r₇ = 0,
    ⟨serial, uuid, lastApplied, lastConfirmed, correlationId, retryCount, retryTime⟩)

/-- `if (s[0] < 0) s[0] = 0;` -/
def dropNegative {n : Nat} (s : CharArray n) : CharArray n :=
  if charNegative p (s.bytes.headD 0) then s.store [0] else s

/-- The check on the correlation id. -/
def dropInvalidId {n : Nat} (s : CharArray n) : CharArray n :=
  if charNegative p (s.bytes.headD 0) ∨ s.bytes.headD 0 > 122 then s.store [0] else s

/-- The checks of `aknano_init_settings` on what it reads. -/
def checkedFields (r : StoredFields) : StoredFields where
  serial := dropNegative p r.serial
  uuid := dropNegative p r.uuid
  lastAppliedVersion := if r.lastAppliedVersion > 999999999 then 0 else r.lastAppliedVersion
  lastConfirmedVersion := if r.lastConfirmedVersion > 999999999 then 0 else r.lastConfirmedVersion
  ongoingUpdateCorrelationId := dropInvalidId p r.ongoingUpdateCorrelationId
  rollbackRetryCount := if r.rollbackRetryCount.slt 0 then 0 else r.rollbackRetryCount
  rollbackNextRetryTime :=
    if r.rollbackNextRetryTime = 0xFFFFFFFF then 0 else r.rollbackNextRetryTime

/-- The settings made from them. -/
def settingsOf (imagePosition : BitVec 8) (buildNum : BitVec 32) (r : StoredFields) : Settings :=
  let runningVersion := if buildNum = 0xFFFFFFFF then 0 else buildNum
  { Settings.zero with
    tag := (CharArray.zero _).store (ascii "devel")
    pollingInterval := 15
    imagePosition := imagePosition
    runningVersion := runningVersion
    serial := r.serial
    uuid := r.uuid
    lastAppliedVersion := r.lastAppliedVersion
    lastConfirmedVersion := r.lastConfirmedVersion
    ongoingUpdateCorrelationId := r.ongoingUpdateCorrelationId
    rollbackRetryCount := r.rollbackRetryCount
    rollbackNextRetryTime := r.rollbackNextRetryTime
    deviceName := (CharArray.zero _).store (snprintf aknanoMaxDeviceNameSize
      (aknanoGetBoardName p ++ ascii "-" ++ r.serial.str))
    isRunningRolledBackImage := r.lastAppliedVersion ≠ 0 ∧ r.lastAppliedVersion ≠ runningVersion
      ∧ strnlen r.ongoingUpdateCorrelationId.bytes aknanoMaxUpdateCorrelationIdLength > 0
    hwid := some (aknanoGetBoardName p) }

/-- `imagePosition` and `buildNum` are what `aknano_get_image_position` and
`bl_get_image_build_num` deliver. -/
def aknanoInitSettings (imagePosition : BitVec 8) (buildNum : BitVec 32) :
    FlashM (Bool × Settings) := do
  let (readsOk, r) ← readStoredFields o
  pure (readsOk, settingsOf p imagePosition buildNum (checkedFields p r))

/-! ### What is read -/

variable {p o}

/-- The `n` bytes at an offset of the storage area. -/
def storageBytes (m : Mem) (offset n : Nat) : List Byte :=
  NorFlash.read m (aknanoStorageFlashOffset + offset) n

/-- A character array read from flash: whole words, and zeros behind them. -/
def storedChars (m : Mem) (offset n : Nat) : CharArray n :=
  (CharArray.zero n).store (storageBytes m offset (n / 4 * 4))

/-- The fields as the bytes of the storage area give them. -/
def storedFields (m : Mem) : StoredFields where
  serial := storedChars m aknanoFlashOffDevSerial _
  uuid := storedChars m aknanoFlashOffDevUuid _
  lastAppliedVersion := .ofNat 32 (leNat (storageBytes m aknanoFlashOffLastAppliedVersion 4))
  lastConfirmedVersion := .ofNat 32 (leNat (storageBytes m aknanoFlashOffLastConfirmedVersion 4))
  ongoingUpdateCorrelationId := storedChars m aknanoFlashOffOngoingUpdateCorId _
  rollbackRetryCount := .ofNat 32 (leNat (storageBytes m aknanoFlashOffRollbackRetryCount 4))
  rollbackNextRetryTime :=
    .ofNat 64 (leNat (storageBytes m aknanoFlashOffRollbackNextRetryTime 8))

/-- A read of the value `v` of the storage area. -/
def Reads {α : Type} (o : FlashFaults) (x : FlashM (Int × α)) (v : Mem → α) : Prop :=
  ∀ f, wp x
    (fun r f' => f'.mem = f.mem ∧ (r.1 = 0 ∧ r.2 = v f.mem ∨ r.1 ≠ 0 ∧ ¬ o.Reliable))
    (fun _ f' => f'.mem = f.mem ∧ ¬ o.Reliable) f

theorem readScalar_reads {w offset : Nat} (hw : w / 8 / 4 * 4 = w / 8) (value : BitVec w)
    (hfit : aknanoStorageFlashOffset + offset < 2147483648) :
    Reads o (readScalar o offset value) fun m =>
      .ofNat w (leNat (storageBytes m offset (w / 8))) := by
  intro f
  rw [readScalar, wp_bind]
  refine wp_mono (readFlashStorage_spec hfit f) ?_ fun _ _ hE => ⟨hE.1, hE.2.2⟩
  rintro r f' ⟨hmem, -, rfl | ⟨rfl, hrel⟩⟩
  · rw [leBytes_length, hw, List.drop_eq_nil_of_le (by rw [leBytes_length]), List.append_nil]
    exact (wp_pure _).mpr ⟨hmem, Or.inl ⟨rfl, rfl⟩⟩
  · exact (wp_pure _).mpr ⟨hmem, Or.inr ⟨show (-1 : Int) ≠ 0 by decide, hrel⟩⟩

theorem readChars_reads {n offset : Nat}
    (hfit : aknanoStorageFlashOffset + offset < 2147483648) :
    Reads o (readChars o offset (.zero n)) fun m => storedChars m offset n := by
  intro f
  rw [readChars, wp_bind]
  refine wp_mono (readFlashStorage_spec hfit f) ?_ fun _ _ hE => ⟨hE.1, hE.2.2⟩
  rintro r f' ⟨hmem, -, rfl | ⟨rfl, hrel⟩⟩
  · refine (wp_pure _).mpr ⟨hmem, Or.inl ⟨rfl, ?_⟩⟩
    rw [CharArray.length_eq]
    have hlen : (NorFlash.read f.mem (aknanoStorageFlashOffset + offset) (n / 4 * 4)).length
        = n / 4 * 4 := read_length ..
    have h := CharArray.store_append_drop (a := CharArray.zero n)
      (hlen.le.trans (Nat.div_mul_le_self n 4))
    rw [hlen] at h
    exact h
  · exact (wp_pure _).mpr ⟨hmem, Or.inr ⟨show (-1 : Int) ≠ 0 by decide, hrel⟩⟩

/-- One read of a sequence. -/
theorem Reads.bind {α β : Type} {x : FlashM (Int × α)} {v : Mem → α} (hx : Reads o x v)
    {k : Int × α → FlashM β} {Q : β → Flash → Prop} {m : Mem} {f : Flash} (hf : f.mem = m)
    (hk : ∀ r a f', f'.mem = m → (r = 0 ∧ a = v m ∨ r ≠ 0 ∧ ¬ o.Reliable) →
      wp (k (r, a)) Q (fun _ f' => f'.mem = m ∧ ¬ o.Reliable) f') :
    wp (x >>= k) Q (fun _ f' => f'.mem = m ∧ ¬ o.Reliable) f := by
  subst hf
  rw [wp_bind]
  refine wp_mono (hx f) ?_ fun _ _ hE => hE
  rintro ⟨r, a⟩ f' ⟨hmem, hr⟩
  exact hk r a f' hmem hr

/-- **Contract of the reads**: the device is not changed, and if every read
succeeded the fields are those of the storage area. -/
theorem readStoredFields_spec (f : Flash) :
    wp (readStoredFields o)
      (fun r f' => f'.mem = f.mem ∧ (r.1 = true → r.2 = storedFields f.mem) ∧
        (o.Reliable → r.1 = true))
      (fun _ f' => f'.mem = f.mem ∧ ¬ o.Reliable) f := by
  rw [readStoredFields]
  refine (readChars_reads (by decide)).bind rfl fun r₁ serial f₁ hf₁ h₁ => ?_
  refine (readChars_reads (by decide)).bind hf₁ fun r₂ uuid f₂ hf₂ h₂ => ?_
  refine (readScalar_reads (by decide) _ (by decide)).bind hf₂ fun r₃ applied f₃ hf₃ h₃ => ?_
  refine (readScalar_reads (by decide) _ (by decide)).bind hf₃ fun r₄ confirmed f₄ hf₄ h₄ => ?_
  refine (readChars_reads (by decide)).bind hf₄ fun r₅ correlationId f₅ hf₅ h₅ => ?_
  refine (readScalar_reads (by decide) _ (by decide)).bind hf₅ fun r₆ count f₆ hf₆ h₆ => ?_
  refine (readScalar_reads (by decide) _ (by decide)).bind hf₆ fun r₇ time f₇ hf₇ h₇ => ?_
  rw [wp_pure]
  refine ⟨hf₇, fun hall => ?_, fun hrel => ?_⟩
  · obtain ⟨e₁, e₂, e₃, e₄, e₅, e₆, e₇⟩ := of_decide_eq_true hall
    -- a read that reports success has delivered the value
    have value : ∀ {r : Int} {α : Type} {a b : α}, (r = 0 ∧ a = b ∨ r ≠ 0 ∧ ¬ o.Reliable) →
        r = 0 → a = b := fun h e => h.elim And.right fun h => absurd e h.1
    rw [value h₁ e₁, value h₂ e₂, value h₃ e₃, value h₄ e₄, value h₅ e₅, value h₆ e₆, value h₇ e₇]
    rfl
  · have zero : ∀ {r : Int} {q : Prop}, (r = 0 ∧ q ∨ r ≠ 0 ∧ ¬ o.Reliable) → r = 0 :=
      fun h => h.elim And.left fun h => absurd hrel h.2
    exact decide_eq_true ⟨zero h₁, zero h₂, zero h₃, zero h₄, zero h₅, zero h₆, zero h₇⟩

/-- **Contract of `aknano_init_settings`.** -/
theorem aknanoInitSettings_spec (imagePosition : BitVec 8) (buildNum : BitVec 32) (f : Flash) :
    wp (aknanoInitSettings p o imagePosition buildNum)
      (fun r f' => f'.mem = f.mem ∧ (∃ fields, r.2 = settingsOf p imagePosition buildNum
          (checkedFields p fields) ∧ (r.1 = true → fields = storedFields f.mem)) ∧
        (o.Reliable → r.1 = true))
      (fun _ f' => f'.mem = f.mem ∧ ¬ o.Reliable) f := by
  rw [aknanoInitSettings, wp_bind]
  refine wp_mono (readStoredFields_spec f) ?_ fun _ _ hE => hE
  rintro ⟨readsOk, fields⟩ f' ⟨hmem, hfields, hrel⟩
  exact (wp_pure _).mpr ⟨hmem, ⟨fields, rfl, hfields⟩, hrel⟩

/-! ### The settings sector -/

/-- Where the settings sector starts and ends. -/
abbrev stateLo : Nat := aknanoStorageFlashOffset + aknanoFlashOffStateBase
abbrev stateHi : Nat := stateLo + mflashSectorSize

@[simp] theorem storedBytes_length (s : Settings) : (storedBytes s).length = 122 := by
  simp only [storedBytes, List.length_append, leBytes_length, CharArray.length_eq]
  rfl

@[simp] theorem flashPageBuffer_length (s : Settings) : (flashPageBuffer s).length = 256 := by
  simp [flashPageBuffer]

/-- **Contract of `aknano_update_settings_in_flash`**: only the settings
sector is touched, and success means that the page is in place. -/
theorem updateSettings_spec (s : Settings) (f : Flash) :
    wp (aknanoUpdateSettingsInFlash o s)
      (fun r f' => SameOutside stateLo stateHi f.mem f'.mem ∧
        (r = 0 → f'.mem = written mflashSectorSize f.mem stateLo (flashPageBuffer s)) ∧
        (o.Reliable → r = 0))
      (fun _ f' => SameOutside stateLo stateHi f.mem f'.mem ∧ ¬ o.Reliable) f := by
  have haddr : int32 (((aknanoStorageFlashOffset : Nat) : Int) + (aknanoFlashOffStateBase : Nat))
      = (stateLo : Nat) := rfl
  have hround : roundUp mflashSectorSize (flashPageBuffer s).length = mflashSectorSize := by
    rw [flashPageBuffer_length]; rfl
  rw [aknanoUpdateSettingsInFlash, aknanoWriteDataToStorage, haddr]
  refine wp_mono (writeDataToFlash_spec (by rw [hround]; decide) f) ?_ ?_
  · rintro r f' ⟨ht, -, -, hok, hrel⟩
    exact ⟨ht.frame.mono le_rfl (by rw [hround]), fun h0 => (hok h0).1,
      fun ho => hrel ho (by decide)⟩
  · rintro e f' ⟨ht, -, hrel⟩
    exact ⟨ht.frame.mono le_rfl (by rw [hround]), hrel⟩

/-- The fields of the page, split where the reader splits it. -/
theorem flashPageBuffer_eq (s : Settings) :
    flashPageBuffer s =
      leBytes 4 s.lastAppliedVersion.toNat ++ (leBytes 4 s.lastConfirmedVersion.toNat ++
      (s.ongoingUpdateCorrelationId.bytes.take 100 ++
      ((s.ongoingUpdateCorrelationId.bytes.drop 100 ++ leBytes 2 s.rollbackRetryCount.toNat) ++
      ((leBytes 2 (s.rollbackRetryCount.toNat / 65536) ++
        leBytes 6 s.rollbackNextRetryTime.toNat) ++
      (leBytes 2 (s.rollbackNextRetryTime.toNat / 256 ^ 6) ++ List.replicate 134 0))))) := by
  have hcount : leBytes 4 s.rollbackRetryCount.toNat = leBytes 2 s.rollbackRetryCount.toNat
      ++ leBytes 2 (s.rollbackRetryCount.toNat / 65536) := leBytes_add 2 2 _
  have htime : leBytes 8 s.rollbackNextRetryTime.toNat = leBytes 6 s.rollbackNextRetryTime.toNat
      ++ leBytes 2 (s.rollbackNextRetryTime.toNat / 256 ^ 6) := leBytes_add 6 2 _
  rw [flashPageBuffer, storedBytes_length, storedBytes, hcount, htime]
  conv_lhs => rw [← List.take_append_drop 100 s.ongoingUpdateCorrelationId.bytes]
  simp only [List.append_assoc]

theorem drop_add_append {A B : List Byte} {k : Nat} (h : A.length = k) (j : Nat) :
    (A ++ B).drop (k + j) = B.drop j := by
  rw [← h, List.drop_append, List.drop_eq_nil_of_le (by omega), List.nil_append]
  congr 1
  omega

/-- What stands at the reader's offsets. -/
theorem flashPageBuffer_slices (s : Settings) :
    ((flashPageBuffer s).drop 0).take 4 = leBytes 4 s.lastAppliedVersion.toNat ∧
    ((flashPageBuffer s).drop 4).take 4 = leBytes 4 s.lastConfirmedVersion.toNat ∧
    ((flashPageBuffer s).drop 8).take 100 = s.ongoingUpdateCorrelationId.bytes.take 100 ∧
    ((flashPageBuffer s).drop 108).take 4
      = s.ongoingUpdateCorrelationId.bytes.drop 100 ++ leBytes 2 s.rollbackRetryCount.toNat ∧
    ((flashPageBuffer s).drop 112).take 8
      = leBytes 2 (s.rollbackRetryCount.toNat / 65536)
        ++ leBytes 6 s.rollbackNextRetryTime.toNat := by
  have hid : (s.ongoingUpdateCorrelationId.bytes.take 100).length = 100 := by
    rw [List.length_take, CharArray.length_eq]; rfl
  have htail : (s.ongoingUpdateCorrelationId.bytes.drop 100
      ++ leBytes 2 s.rollbackRetryCount.toNat).length = 4 := by
    rw [List.length_append, List.length_drop, CharArray.length_eq, leBytes_length]
    rfl
  have htime : (leBytes 2 (s.rollbackRetryCount.toNat / 65536)
      ++ leBytes 6 s.rollbackNextRetryTime.toNat).length = 8 := by simp
  rw [flashPageBuffer_eq]
  refine ⟨?_, ?_, ?_, ?_, ?_⟩
  · exact List.take_left' (leBytes_length ..)
  · rw [List.drop_left' (leBytes_length ..)]
    exact List.take_left' (leBytes_length ..)
  · rw [drop_add_append (leBytes_length ..) 4, List.drop_left' (leBytes_length ..)]
    exact List.take_left' hid
  · rw [drop_add_append (leBytes_length ..) 104, drop_add_append (leBytes_length ..) 100,
      List.drop_left' hid]
    exact List.take_left' htail
  · rw [drop_add_append (leBytes_length ..) 108, drop_add_append (leBytes_length ..) 104,
      drop_add_append hid 4, List.drop_left' htail]
    exact List.take_left' htime

/-- The two bytes of the correlation id that its 100 do not include. -/
def idTail (s : Settings) : Nat := leNat (s.ongoingUpdateCorrelationId.bytes.drop 100)

/-- **What the reader makes of a page**: versions and correlation id are what
was written; the retry count starts two bytes early, in the tail of the id,
and the retry time in the upper half of the count. -/
theorem storedFields_written (m : Mem) (s : Settings) :
    let r := storedFields (written mflashSectorSize m stateLo (flashPageBuffer s))
    r.lastAppliedVersion = s.lastAppliedVersion ∧
      r.lastConfirmedVersion = s.lastConfirmedVersion ∧
      r.ongoingUpdateCorrelationId.bytes = s.ongoingUpdateCorrelationId.bytes.take 100 ++ [0, 0] ∧
      r.rollbackRetryCount.toNat = idTail s + 65536 * (s.rollbackRetryCount.toNat % 65536) ∧
      r.rollbackNextRetryTime.toNat = s.rollbackRetryCount.toNat / 65536
        + 65536 * (s.rollbackNextRetryTime.toNat % 256 ^ 6) := by
  -- a field is read from the part of the page at its offset
  have hslice : ∀ off n, off + n ≤ 256 →
      storageBytes (written mflashSectorSize m stateLo (flashPageBuffer s))
        (aknanoFlashOffStateBase + off) n = ((flashPageBuffer s).drop off).take n := by
    intro off n h
    rw [storageBytes, ← Nat.add_assoc]
    exact read_written_slice m stateLo (by rw [flashPageBuffer_length]; exact h)
  obtain ⟨happlied, hconfirmed, hid, hcount, htime⟩ := flashPageBuffer_slices s
  have hword : ∀ v : BitVec 32, BitVec.ofNat 32 (leNat (leBytes 4 v.toNat)) = v := by
    intro v
    rw [leNat_leBytes, show 256 ^ 4 = 2 ^ 32 from rfl, Nat.mod_eq_of_lt v.isLt,
      BitVec.ofNat_toNat, BitVec.setWidth_eq]
  have htail : idTail s < 65536 := by
    have h := leNat_lt (s.ongoingUpdateCorrelationId.bytes.drop 100)
    rw [List.length_drop, CharArray.length_eq] at h
    exact h
  refine ⟨?_, ?_, ?_, ?_, ?_⟩
  · rw [storedFields, hslice 0 4 (by decide), happlied, hword]
  · rw [storedFields, hslice 4 4 (by decide), hconfirmed, hword]
  · simp only [storedFields, storedChars]
    rw [show aknanoMaxUpdateCorrelationIdLength / 4 * 4 = 100 from rfl,
      hslice 8 100 (by decide), hid, CharArray.store_bytes_of_le (by simp)]
    rw [List.length_take, CharArray.length_eq]
    rfl
  · have := s.rollbackRetryCount.isLt
    rw [storedFields, hslice 108 4 (by decide), hcount, leNat_append, leNat_leBytes,
      List.length_drop, CharArray.length_eq, BitVec.toNat_ofNat]
    change (idTail s + 65536 * (s.rollbackRetryCount.toNat % 65536)) % 4294967296 = _
    omega
  · have := s.rollbackRetryCount.isLt
    rw [storedFields, hslice 112 8 (by decide), htime, leNat_append, leNat_leBytes,
      leNat_leBytes, leBytes_length, BitVec.toNat_ofNat]
    omega

/-! ### Saving and loading -/

variable (p o) in
/-- Saving `s` and then loading into a fresh structure. -/
def saveAndLoad (s : Settings) (imagePosition : BitVec 8) (buildNum : BitVec 32) :
    FlashM (Int × Settings) := do
  let ret ← aknanoUpdateSettingsInFlash o s
  let (_, loaded) ← aknanoInitSettings p o imagePosition buildNum
  pure (ret, loaded)

/-- What is loaded on a device that works. -/
theorem saveAndLoad_spec (hrel : o.Reliable) (s : Settings) (imagePosition : BitVec 8)
    (buildNum : BitVec 32) (f : Flash) :
    wp (saveAndLoad p o s imagePosition buildNum)
      (fun r _ => r = (0, settingsOf p imagePosition buildNum (checkedFields p (storedFields
        (written mflashSectorSize f.mem stateLo (flashPageBuffer s))))))
      (fun _ _ => False) f := by
  rw [saveAndLoad, wp_bind]
  refine wp_mono (updateSettings_spec s f) ?_ fun _ _ hE => hE.2 hrel
  rintro ret f₁ ⟨-, hok, hret⟩
  have h0 := hret hrel
  rw [wp_bind]
  refine wp_mono (aknanoInitSettings_spec imagePosition buildNum f₁) ?_ fun _ _ hE => hE.2 hrel
  rintro ⟨readsOk, loaded⟩ f₂ ⟨-, ⟨fields, rfl, hfields⟩, hreads⟩
  rw [wp_pure, h0, hfields (hreads hrel), hok h0]

theorem takeWhile_take_append {α : Type} {q : α → Bool} {l t : List α} {k : Nat}
    (h : (l.takeWhile q).length < k) (hk : k ≤ l.length) :
    (l.take k ++ t).takeWhile q = l.takeWhile q := by
  have hshort : ((l.take k).takeWhile q).length ≠ (l.take k).length := by
    intro hfull
    have hl : (l.takeWhile q).length ≥ k := by
      conv_lhs => rw [← List.take_append_drop k l]
      rw [List.takeWhile_append, if_pos hfull, List.length_append, List.length_take]
      omega
    omega
  conv_rhs => rw [← List.take_append_drop k l]
  rw [List.takeWhile_append, List.takeWhile_append, if_neg hshort, if_neg hshort]

/-- A correlation id that passes the check of the reader comes back. -/
theorem correlationId_survives {m : Mem} {s : Settings}
    (hlen : s.ongoingUpdateCorrelationId.str.length < 100)
    (hfirst : s.ongoingUpdateCorrelationId.bytes.headD 0 ≤ 122) :
    (checkedFields p (storedFields (written mflashSectorSize m stateLo
      (flashPageBuffer s)))).ongoingUpdateCorrelationId.str
      = s.ongoingUpdateCorrelationId.str := by
  obtain ⟨-, -, hid, -, -⟩ := storedFields_written m s
  generalize storedFields (written mflashSectorSize m stateLo (flashPageBuffer s)) = r at hid ⊢
  have hhead : r.ongoingUpdateCorrelationId.bytes.headD 0
      = s.ongoingUpdateCorrelationId.bytes.headD 0 := by
    rw [hid]
    rcases hb : s.ongoingUpdateCorrelationId.bytes with - | ⟨b, bs⟩
    · have hlen := s.ongoingUpdateCorrelationId.length_eq
      rw [hb] at hlen
      exact absurd hlen (by decide)
    · rfl
  have hkept : dropInvalidId p r.ongoingUpdateCorrelationId = r.ongoingUpdateCorrelationId := by
    apply if_neg
    rw [hhead, charNegative]
    rintro (h | h)
    · simp only [Bool.and_eq_true, decide_eq_true_eq] at h
      exact absurd (BitVec.le_trans h.2 hfirst) (by decide)
    · exact BitVec.not_le.mpr h hfirst
  rw [checkedFields, hkept, CharArray.str, hid]
  exact takeWhile_take_append hlen (by rw [CharArray.length_eq]; decide)

variable (p o) in
/-- The stored fields of `s` are what a later boot loads. -/
def SettingsSurvive (s : Settings) (imagePosition : BitVec 8) (buildNum : BitVec 32)
    (f : Flash) : Prop :=
  wp (saveAndLoad p o s imagePosition buildNum)
    (fun (ret, loaded) _ => ret = 0 ∧
      loaded.lastAppliedVersion = s.lastAppliedVersion ∧
      loaded.lastConfirmedVersion = s.lastConfirmedVersion ∧
      loaded.ongoingUpdateCorrelationId.str = s.ongoingUpdateCorrelationId.str ∧
      loaded.rollbackRetryCount = s.rollbackRetryCount ∧
      loaded.rollbackNextRetryTime = s.rollbackNextRetryTime)
    (fun _ _ => False) f

/-- A count that overlaps itself by half. -/
theorem count_fixpoint_iff {k c : Nat} (hk : k < 65536) (hc : c < 4294967296) :
    k + 65536 * (c % 65536) = c ↔ c = k * 0x10001 := by
  omega

/-- A time that overlaps itself by three quarters. -/
theorem time_fixpoint_iff {h t : Nat} (hh : h < 65536) (ht : t < 18446744073709551616) :
    h + 65536 * (t % 256 ^ 6) = t ↔ t = h * 0x0001000100010001 := by
  constructor
  · intro heq
    -- each quarter of the time repeats the one below it
    have h0 : t % 65536 = h := by omega
    have h1 : t / 65536 % 65536 = h := by omega
    have h2 : t / 65536 / 65536 % 65536 = h := by omega
    omega
  · rintro rfl
    omega

/-- **Which settings survive.**  Versions and correlation id always come back.
Retry count and retry time do exactly when the number in the last two bytes of
the id array is also in both halves of the count and in all quarters of the
time. -/
theorem settingsSurvive_iff (hrel : o.Reliable) {s : Settings}
    (happlied : s.lastAppliedVersion ≤ 999999999) (hconfirmed : s.lastConfirmedVersion ≤ 999999999)
    (hlen : s.ongoingUpdateCorrelationId.str.length < 100)
    (hfirst : s.ongoingUpdateCorrelationId.bytes.headD 0 ≤ 122)
    (hcount : ¬ s.rollbackRetryCount.slt 0) (htime : s.rollbackNextRetryTime ≠ 0xFFFFFFFF)
    (imagePosition : BitVec 8) (buildNum : BitVec 32) (f : Flash) :
    SettingsSurvive p o s imagePosition buildNum f ↔
      s.rollbackRetryCount.toNat = idTail s * 0x10001 ∧
        s.rollbackNextRetryTime.toNat = idTail s * 0x0001000100010001 := by
  have hspec := saveAndLoad_spec (p := p) hrel s imagePosition buildNum f
  have hid := correlationId_survives (p := p) (m := f.mem) hlen hfirst
  obtain ⟨ha, hc, -, hn, ht⟩ := storedFields_written f.mem s
  generalize storedFields (written mflashSectorSize f.mem stateLo (flashPageBuffer s)) = r
    at hspec hid ha hc hn ht
  have htail : idTail s < 65536 := by
    have h := leNat_lt (s.ongoingUpdateCorrelationId.bytes.drop 100)
    rw [List.length_drop, CharArray.length_eq] at h
    exact h
  have hcountLt := s.rollbackRetryCount.isLt
  have htimeLt := s.rollbackNextRetryTime.isLt
  -- a number that the reader's check replaces by zero was not zero before either
  have hcount' : (checkedFields p r).rollbackRetryCount = s.rollbackRetryCount ↔
      r.rollbackRetryCount = s.rollbackRetryCount := by
    change (if r.rollbackRetryCount.slt 0 then 0 else r.rollbackRetryCount) = _ ↔ _
    split
    · next hneg =>
      constructor
      · intro h
        rw [← h] at hn
        apply absurd hneg
        have hsmall : r.rollbackRetryCount.toNat < 65536 := by
          rw [hn]; simpa using htail
        rw [BitVec.slt_eq_decide, decide_eq_true_eq, BitVec.toInt_eq_toNat_of_lt (by omega)]
        simp
      · intro h
        rw [h] at hneg
        exact absurd hneg hcount
    · rfl
  have htime' : r.rollbackRetryCount = s.rollbackRetryCount →
      ((checkedFields p r).rollbackNextRetryTime = s.rollbackNextRetryTime ↔
        r.rollbackNextRetryTime = s.rollbackNextRetryTime) := by
    intro _
    change (if r.rollbackNextRetryTime = 0xFFFFFFFF then 0 else r.rollbackNextRetryTime) = _ ↔ _
    split
    · next hmax =>
      constructor
      · intro h
        rw [← h] at ht
        rw [hmax] at ht
        simp at ht
        omega
      · intro h
        exact absurd (h.symm.trans hmax) htime
    · rfl
  have hiff : SettingsSurvive p o s imagePosition buildNum f ↔
      r.rollbackRetryCount = s.rollbackRetryCount ∧
        r.rollbackNextRetryTime = s.rollbackNextRetryTime := by
    -- the versions are in range, so the reader's check keeps them
    have hversions : (checkedFields p r).lastAppliedVersion = s.lastAppliedVersion ∧
        (checkedFields p r).lastConfirmedVersion = s.lastConfirmedVersion := by
      rw [checkedFields, ha, hc]
      exact ⟨if_neg (BitVec.not_lt.mpr happlied), if_neg (BitVec.not_lt.mpr hconfirmed)⟩
    constructor
    · intro h
      obtain ⟨res, f', hok⟩ := hspec.returns
      have hres := hspec.of_ok hok
      obtain ⟨-, -, -, -, h₁, h₂⟩ := h.of_ok hok
      rw [hres] at h₁ h₂
      have h₁' := hcount'.mp h₁
      exact ⟨h₁', (htime' h₁').mp h₂⟩
    · rintro ⟨h₁, h₂⟩
      refine wp_mono hspec ?_ fun _ _ hE => hE
      rintro res f' rfl
      exact ⟨rfl, hversions.1, hversions.2, hid, hcount'.mpr h₁, (htime' h₁).mpr h₂⟩
  have htailId : idTail s * 0x10001 / 65536 = idTail s := by omega
  rw [hiff, ← BitVec.toNat_inj, ← BitVec.toNat_inj, hn, ht, count_fixpoint_iff htail hcountLt]
  constructor
  · rintro ⟨h₁, h₂⟩
    rw [h₁, htailId] at h₂
    exact ⟨h₁, (time_fixpoint_iff htail htimeLt).mp h₂⟩
  · rintro ⟨h₁, h₂⟩
    rw [h₁, htailId]
    exact ⟨rfl, (time_fixpoint_iff htail htimeLt).mpr h₂⟩

/-- Versions 7 and 5 survive together with counters that are zero. -/
theorem settingsSurvive_versions :
    SettingsSurvive .sample .reliable
      { Settings.zero with lastAppliedVersion := 7, lastConfirmedVersion := 5 } 1 5 .erased :=
  (settingsSurvive_iff FlashFaults.reliable_spec (by decide) (by decide) (by decide) (by decide)
    (by decide) (by decide) 1 5 .erased).mpr ⟨by decide, by decide⟩

/-- A retry count of 1 is loaded as 65536. -/
theorem settingsSurvive_retryCount :
    ¬ SettingsSurvive .sample .reliable { Settings.zero with rollbackRetryCount := 1 } 1 5
      .erased := by
  intro h
  have hspec := saveAndLoad_spec (p := .sample) FlashFaults.reliable_spec
    { Settings.zero with rollbackRetryCount := 1 } 1 5 .erased
  obtain ⟨res, f', hok⟩ := hspec.returns
  obtain ⟨-, -, -, -, hcount, -⟩ := h.of_ok hok
  rw [hspec.of_ok hok] at hcount
  obtain ⟨-, -, -, hread, -⟩ := storedFields_written Flash.erased.mem
    { Settings.zero with rollbackRetryCount := 1 }
  generalize storedFields _ = r at hcount hread
  replace hread : r.rollbackRetryCount.toNat = 65536 := hread.trans (by decide)
  change (if r.rollbackRetryCount.slt 0 then 0 else r.rollbackRetryCount) = 1 at hcount
  split at hcount
  · cases hcount
  · rw [hcount] at hread
    exact absurd hread (by decide)

end AktualizrNano
