/-
AktualizrNano/Enrolment.lean

The first boots of a device that is provisioned without EdgeLock 2GO: it makes
up an identity, saves it in flash, has a certificate issued for it, and hands
that to the PKCS#11 token.  Power may be lost at any moment, and then the next boot has
to find out where to go on.

The order carries the argument.  The block of `aknano_init` runs again unless
serial and certificate are both there, and the certificate is written last; so
as long as there is no certificate the flash may hold anything, and once there
is one it was issued for what the flash holds: `Matched`.  A boot keeps that
(`provisionAtInit_agrees`), and what the agent does later changes neither side
(`AgentOp.deviceId_kept`).

The flash may be cut, but its calls do not fail: `aknano_clear_flash_sector`
and `aknano_write_flash_page` drop the status.  Of the libraries that are not
part of the repository, what is relied on is `Credentials.Works`.

Main results: `enrolment_agrees` and `enrolment_completes`.
-/
import AktualizrNano.Certificate
import AktualizrNano.AgentTask
import AktualizrNano.UpdateProgress

namespace AktualizrNano

open CLib NorFlash Outcome

/-! ### The libraries -/

/-- What has been put into the certificate that is to be written. -/
structure X509WriteCert (Key : Type) where
  subjectKey : Key
  issuerKey : Key
  issuerName : List Byte
  subjectName : List Byte
  serial : Nat
  notBefore : List Byte
  notAfter : List Byte

/-- How mbedTLS behaves in one run of the generator; the first component of a
result is the status. -/
structure MbedTls (Key : Type) where
  pkSetup : Int
  entropyAddSource : Int
  ctrDrbgSeed : (pers : List Byte) → Int
  ecpGenKey : Int × Key
  pkWriteKeyPem : Key → Int × CharArray aknanoCertBufSize
  pkParseKey : (key : List Byte) → Int × Key
  /-- the second component is the subject of the certificate -/
  x509CrtParse : (crt : List Byte) → Int × List Byte
  x509DnGets : (size : Nat) → (dn : List Byte) → Int × List Byte
  x509writeCrtSetSubjectName : List Byte → Int
  mpiReadString : (radix : Nat) → List Byte → Int × Nat
  x509writeCrtSetSerial : Nat → Int
  x509writeCrtSetValidity : (notBefore notAfter : List Byte) → Int
  x509writeCrtPem : X509WriteCert Key → Int × CharArray aknanoCertBufSize

/-- `aknano_provisioning_secret.h`, and whether `AKNANO_PRODUCTION_DEVICE` is
set. -/
structure ProvisioningSecret where
  factoryName : List Byte
  issuerKey : List Byte
  issuerCertificate : List Byte
  productionDevice : Bool

/-- `ProvisioningParams_t`; the lengths count the NUL. -/
structure ProvisioningParams where
  pucJITPCertificate : Option (List Byte)
  pucClientPrivateKey : Option (List Byte)
  pucClientCertificate : Option (List Byte)

/-- The token, and the libraries that fill and read it.  The first argument of
a function is the time of the call. -/
structure Credentials where
  Token : Type
  Key : Type
  /-- the value of the device certificate, if the token has one -/
  certificate : Token → Option (List Byte)
  pkcs11 : Nat → Token → Pkcs11
  encoder : PemEncoder
  mbedTls : Nat → MbedTls Key
  /-- whether power is lost in it, and what is in the token then -/
  vAlternateKeyProvisioning : Nat → ProvisioningParams → Token → Bool × Token
  /-- the value that is stored for a PEM text -/
  convertPemToDer : List Byte → List Byte
  secret : ProvisioningSecret
  /-- what an array on the stack holds before it is written -/
  stack : Nat → (size : Nat) → CharArray size

/-! ### Issuing a certificate -/

/-- `if ((ret = ...) != 0) goto exit`. -/
def exitUnlessZero (ret : Int) : Except Int Unit :=
  if ret ≠ 0 then throw ret else pure ()

/-- `if (ret < 0) goto exit`. -/
def exitIfNegative (ret : Int) : Except Int Unit :=
  if ret < 0 then throw ret else pure ()

/-- `sprintf(subject, "CN=%s,OU=%s%s", uuid, factory_name, production)`. -/
def subjectText (secret : ProvisioningSecret) (uuid : List Byte) : List Byte :=
  let production := if secret.productionDevice then ascii ",businessCategory=production" else []
  ascii "CN=" ++ uuid ++ ascii ",OU=" ++ secret.factoryName ++ production

/-- Returns `cert_buf` and `key_buf`; after an error nobody reads them. -/
def aknanoGenDeviceCertificateAndKey {Key : Type} (m : MbedTls Key) (secret : ProvisioningSecret)
    (uuid serialString : List Byte) :
    Except Int (CharArray aknanoCertBufSize × CharArray aknanoCertBufSize) := do
  let notBefore := ascii "20210101000000"
  let notAfter := ascii "20301231235959"
  let subject := subjectText secret uuid
  exitUnlessZero m.pkSetup
  exitUnlessZero m.entropyAddSource
  exitUnlessZero (m.ctrDrbgSeed uuid)
  let (ret, newDeviceKey) := m.ecpGenKey
  exitUnlessZero ret
  let (ret, keyBuf) := m.pkWriteKeyPem newDeviceKey
  exitUnlessZero ret
  let (ret, factoryKey) := m.pkParseKey (secret.issuerKey ++ [0])
  exitIfNegative ret
  let (ret, factorySubject) := m.x509CrtParse (secret.issuerCertificate ++ [0])
  exitUnlessZero ret
  let (ret, issuerSubject) := m.x509DnGets 200 factorySubject
  exitIfNegative ret
  exitUnlessZero (m.x509writeCrtSetSubjectName subject)
  let (ret, serial) := m.mpiReadString 16 serialString
  exitUnlessZero ret
  exitUnlessZero (m.x509writeCrtSetSerial serial)
  exitUnlessZero (m.x509writeCrtSetValidity notBefore notAfter)
  let (ret, certBuf) := m.x509writeCrtPem
    { subjectKey := newDeviceKey
      issuerKey := factoryKey
      issuerName := issuerSubject
      subjectName := subject
      serial := serial
      notBefore := notBefore
      notAfter := notAfter }
  exitUnlessZero ret
  pure (certBuf, keyBuf)

/-! ### The device and its token -/

/-- What survives a reset. -/
structure Board (Token : Type) where
  world : World
  token : Token

variable (p : Platform) (e : Env) (k : Credentials)

/-- A program of the agent that also uses the token. -/
abbrev BoardM := EStateM Halt (Board k.Token)

variable {k} in
def onWorld {α : Type} (x : M α) : BoardM k α :=
  zoom Board.world (fun w b => { b with world := w }) x

/-- An empty string is passed as a null pointer. -/
def provisioningString (text : List Byte) : Option (List Byte) :=
  if text = [] then none else some (text ++ [0])

def vDevModeKeyProvisioningAkNano (clientKey clientCertificate : List Byte) : BoardM k Unit := do
  let t ← onWorld (tick e)
  let b ← get
  let (cut, token) := k.vAlternateKeyProvisioning t
    { pucJITPCertificate := none
      pucClientPrivateKey := provisioningString clientKey
      pucClientCertificate := provisioningString clientCertificate } b.token
  modify fun b => { b with token := token }
  if cut then throw .powerCut

def aknanoProvisionDevice : BoardM k Int := do
  let (uuid, serial) ← onWorld (aknanoGenSerialAndUuid e)
  let uuid := (CharArray.zero aknanoMaxUuidLength).store uuid
  let serial := (CharArray.zero aknanoMaxSerialLength).store serial
  let t ← onWorld (tick e)
  let _ ← onWorld (onFlash (aknanoSaveUuidAndSerial e.faults (k.stack t _) uuid serial))
  let t ← onWorld (tick e)
  match aknanoGenDeviceCertificateAndKey (k.mbedTls t) k.secret uuid.str serial.str with
  | .error ret => pure ret
  | .ok (certBuf, keyBuf) => do
    vDevModeKeyProvisioningAkNano e k keyBuf.str certBuf.str
    onWorld (aknanoDelay e 5000)
    pure 0

/-! ### The block of `aknano_init` -/

/-- `serial` is the local array as it comes from the stack. -/
def isDeviceSerialSet (o : FlashFaults) (serial : CharArray aknanoMaxSerialLength) :
    FlashM Bool := do
  let (_, output) ← aknanoReadFlashStorage o aknanoFlashOffDevSerial serial.bytes
  -- a signed character is never `0xff`
  let output := if ¬ p.charSigned ∧ output.headD 0 = 0xFF then output.set 0 0 else output
  pure (decide (5 < strnlen output aknanoMaxSerialLength))

/-- `is_valid_certificate_available(false)`: the result is the new value of the
cache. -/
def checkCertificate (isCertificateAvailableCache : Bool) : BoardM k Bool := do
  let t ← onWorld (tick e)
  let b ← get
  pure (isValidCertificateAvailable (k.pkcs11 t b.token) k.encoder isCertificateAvailableCache
    false (k.stack t _))

/-- The operands of `||`: without a serial the token is not asked. -/
def certificateIfSerial (serialSet : Bool) : BoardM k Bool :=
  if serialSet then checkCertificate e k false else pure false

/-- The part of `aknano_init` that provisions the device. -/
def provisionAtInit : BoardM k Unit := do
  let t ← onWorld (tick e)
  let serialSet ← onWorld (onFlash (isDeviceSerialSet p e.faults (k.stack t _)))
  let cache ← certificateIfSerial e k serialSet
  if ¬ serialSet ∨ ¬ cache then
    let _ ← aknanoProvisionDevice e k
    onWorld (aknanoDelay e 1000)
    if ¬ (← checkCertificate e k cache) then
      onWorld (aknanoDelay e 120000)

/-! ### The flash, if it does not fail -/

/-- The driver reports no error; power may be lost in it. -/
def FlashFaults.NeverFails (o : FlashFaults) : Prop := ∀ n, o.fails n = false

/-- The same driver without loss of power. -/
def FlashFaults.uncut (o : FlashFaults) : FlashFaults := { o with cut := fun _ => false }

variable {p e k} {o : FlashFaults}

theorem FlashFaults.NeverFails.uncut (h : o.NeverFails) : o.uncut.Reliable := fun n => ⟨rfl, h n⟩

theorem completes_driverCall (call : FlashCall) (addr : Int) (unit : Nat)
    (effect : Mem → Nat → Mem) :
    Completes (driverCall o.uncut call addr unit effect) (driverCall o call addr unit effect) := by
  intro f r f' h
  unfold driverCall at h ⊢
  dsimp only [FlashFaults.uncut] at h ⊢
  cases hcut : o.cut f.clock with
  | false => rwa [hcut] at h
  | true =>
    rw [hcut] at h
    cases h

theorem completes_drvRead (addr : Int) (len : Nat) :
    Completes (mflashDrvRead o.uncut addr len) (mflashDrvRead o addr len) := by
  intro f r f' h
  unfold mflashDrvRead at h ⊢
  dsimp only [FlashFaults.uncut] at h ⊢
  cases hcut : o.cut f.clock with
  | false => rwa [hcut] at h
  | true =>
    rw [hcut] at h
    cases h

theorem completes_clearSectors (sectors offset : Nat) :
    Completes (clearSectors o.uncut sectors offset) (clearSectors o sectors offset) := by
  induction sectors generalizing offset with
  | zero => exact .refl _
  | succ sectors ih =>
    exact .bind (.bind (completes_driverCall _ _ _ _) fun _ => .refl _) fun _ => ih _

theorem completes_saveUuidAndSerial (uuidAndSerial : CharArray mflashPageSize)
    (uuid : CharArray aknanoMaxUuidLength) (serial : CharArray aknanoMaxSerialLength) :
    Completes (aknanoSaveUuidAndSerial o.uncut uuidAndSerial uuid serial)
      (aknanoSaveUuidAndSerial o uuidAndSerial uuid serial) :=
  .bind (.bind (completes_clearSectors _ _) fun _ => .refl _) fun _ =>
    .bind (.bind (completes_driverCall _ _ _ _) fun _ => .refl _) fun _ => .refl _

/-! ### An identity in flash -/

/-- What `aknano_gen_serial_and_uuid` makes, without the NULs. -/
structure DeviceIdentity where
  uuid : List Byte
  serial : List Byte
  uuid_length : uuid.length = 36
  serial_length : serial.length = 32
  uuid_chars : ∀ b ∈ uuid, 0x2D ≤ b ∧ b ≤ 0x46
  serial_chars : ∀ b ∈ serial, 0x2D ≤ b ∧ b ≤ 0x46

namespace DeviceIdentity

variable (d : DeviceIdentity)

/-- The two arrays that are saved. -/
def uuidArray : CharArray aknanoMaxUuidLength := (CharArray.zero _).store (d.uuid ++ [0])

def serialArray : CharArray aknanoMaxSerialLength := (CharArray.zero _).store (d.serial ++ [0])

/-- It is what the storage area holds. -/
structure StandsIn (m : Mem) : Prop where
  uuid : storageBytes m aknanoFlashOffDevUuid aknanoMaxUuidLength = d.uuidArray.bytes
  serial : storageBytes m aknanoFlashOffDevSerial aknanoMaxSerialLength = d.serialArray.bytes

variable {d}

theorem uuid_clean : ∀ b ∈ d.uuid, b ≠ 0 := by
  rintro b hb rfl
  exact absurd (d.uuid_chars 0 hb).1 (by decide)

theorem serial_clean : ∀ b ∈ d.serial, b ≠ 0 := by
  rintro b hb rfl
  exact absurd (d.serial_chars 0 hb).1 (by decide)

theorem uuidArray_str : d.uuidArray.str = d.uuid :=
  CharArray.str_store uuid_clean (by rw [d.uuid_length]; decide)

theorem serialArray_str : d.serialArray.str = d.serial :=
  CharArray.str_store serial_clean (by rw [d.serial_length]; decide)

theorem StandsIn.congr {m m' : Mem} (h : d.StandsIn m) (hsame : StorageItem.deviceId.Same m m') :
    d.StandsIn m' := by
  have hbytes : ∀ off n, off + n ≤ mflashSectorSize →
      storageBytes m' off n = storageBytes m off n := by
    intro off n hle
    have haddr : StorageItem.deviceId.addr = aknanoStorageFlashOffset := rfl
    have hsize : StorageItem.deviceId.size = mflashSectorSize := rfl
    exact read_congr fun i hi => hsame _ (by omega) (by omega)
  exact ⟨(hbytes _ _ (by decide)).trans h.uuid, (hbytes _ _ (by decide)).trans h.serial⟩

/-- Every boot whose reads succeed loads it. -/
theorem StandsIn.loaded {f f' : Flash} (h : d.StandsIn f.mem) {imagePosition : BitVec 8}
    {buildNum : Version} {s : Settings}
    (hrun : aknanoInitSettings p o imagePosition buildNum f = .ok (true, s) f') :
    s.uuid.str = d.uuid ∧ s.serial.str = d.serial := by
  obtain ⟨-, ⟨fields, hs, hfields⟩, -⟩ :=
    (aknanoInitSettings_spec imagePosition buildNum f).of_ok hrun
  dsimp only at hs
  rw [hs, hfields rfl]
  constructor
  · exact identifier_loaded (p := p) (n := aknanoMaxUuidLength)
      (List.ne_nil_of_length_pos (by rw [d.uuid_length]; decide)) d.uuid_chars
      (by rw [d.uuid_length]; decide) h.uuid
  · exact identifier_loaded (p := p) (n := aknanoMaxSerialLength)
      (List.ne_nil_of_length_pos (by rw [d.serial_length]; decide)) d.serial_chars
      (by rw [d.serial_length]; decide) h.serial

/-- The array that is read starts with the serial and its NUL. -/
theorem StandsIn.serial_read {m : Mem} (h : d.StandsIn m) :
    ∃ rest, storageBytes m aknanoFlashOffDevSerial (aknanoMaxSerialLength / 4 * 4)
      = d.serial ++ 0 :: rest := by
  have hlen : (d.serial ++ [0]).length = 33 := by
    rw [List.length_append, d.serial_length]
    rfl
  have hwords : storageBytes m aknanoFlashOffDevSerial (aknanoMaxSerialLength / 4 * 4)
      = d.serialArray.bytes.take (aknanoMaxSerialLength / 4 * 4) := by
    rw [← h.serial, storageBytes, storageBytes, read_take _ _ (by decide)]
  rw [hwords, serialArray, CharArray.store_bytes_of_le (by rw [hlen]; decide), hlen,
    List.take_append, List.take_of_length_le (by rw [hlen]; decide), List.append_assoc]
  exact ⟨_, rfl⟩

end DeviceIdentity

theorem isDeviceSerialSet_mem (serial : CharArray aknanoMaxSerialLength) :
    Keeps (fun f f' => f'.mem = f.mem) (isDeviceSerialSet p o serial) := by
  intro f
  rw [isDeviceSerialSet, wp_bind]
  refine wp_mono (readFlashStorage_spec (by decide) f) ?_ fun _ _ hE => hE.1
  exact fun r f' h => (wp_pure _).mpr h.1

theorem completes_isDeviceSerialSet (serial : CharArray aknanoMaxSerialLength) :
    Completes (isDeviceSerialSet p o.uncut serial) (isDeviceSerialSet p o serial) :=
  .bind (.bind (completes_drvRead _ _) fun _ => .refl _) fun _ => .refl _

/-- The serial of an identity is seen. -/
theorem isDeviceSerialSet_spec {d : DeviceIdentity} (hfails : o.NeverFails)
    (serial : CharArray aknanoMaxSerialLength) {f : Flash} (h : d.StandsIn f.mem) :
    wp (isDeviceSerialSet p o serial) (fun r _ => r = true) (fun _ _ => True) f := by
  apply (completes_isDeviceSerialSet serial).wp (E := fun _ _ => True)
  rw [isDeviceSerialSet, wp_bind]
  refine wp_mono (readFlashStorage_spec (by decide) f) ?_ fun _ _ _ => trivial
  rintro ⟨ret, output⟩ f' ⟨-, -, hread | ⟨-, hbad⟩⟩
  · obtain ⟨-, rfl⟩ := Prod.mk.inj hread
    obtain ⟨rest, hserial⟩ := h.serial_read
    obtain ⟨c, cs, hcons⟩ := List.exists_cons_of_length_eq_add_one d.serial_length
    have hplain : c ≠ 0xFF := by
      rintro rfl
      exact absurd (d.serial_chars 0xFF (hcons ▸ List.mem_cons_self)).2 (by decide)
    have hhead : ∀ tail, (d.serial ++ tail).headD 0 = c := fun tail => by
      rw [hcons]
      rfl
    rw [serial.length_eq]
    show wp (pure (decide _)) _ _ _
    rw [← storageBytes, hserial, List.append_assoc, List.cons_append, hhead,
      if_neg fun hcheck => hplain hcheck.2, strnlen_string DeviceIdentity.serial_clean,
      d.serial_length]
    exact (wp_pure _).mpr rfl
  · exact absurd hfails.uncut hbad

/-- What was saved without an error stands in flash. -/
theorem saveUuidAndSerial_stands (hfails : o.NeverFails) (uuidAndSerial : CharArray mflashPageSize)
    (d : DeviceIdentity) (f : Flash) :
    wp (aknanoSaveUuidAndSerial o uuidAndSerial d.uuidArray d.serialArray)
      (fun _ f' => d.StandsIn f'.mem) (fun _ _ => True) f :=
  (completes_saveUuidAndSerial uuidAndSerial d.uuidArray d.serialArray).wp <|
    wp_mono (saveUuidAndSerial_spec hfails.uncut uuidAndSerial d.uuidArray d.serialArray f)
      (fun _ _ h => ⟨h.1, h.2⟩) fun _ _ h => h

/-- What is generated is an identity. -/
theorem genSerialAndUuid_identity (w : World) :
    wp (aknanoGenSerialAndUuid e)
      (fun r _ => ∃ d : DeviceIdentity, r = (d.uuid ++ [0], d.serial ++ [0])) (fun _ _ => True)
      w := by
  refine wp_mono (genSerialAndUuid_text w) ?_ fun _ _ h => h
  rintro r w' ⟨uuid, serial, rfl, hulen, hslen, huuid, hserial⟩
  exact ⟨⟨uuid, serial, hulen, hslen, huuid,
    fun b hb => ⟨BitVec.le_trans (by decide) (hserial b hb).1, (hserial b hb).2⟩⟩, rfl⟩

/-! ### The certificate -/

theorem exitUnlessZero_bind {α : Type} {ret : Int} {x : Unit → Except Int α} {a : α} :
    (exitUnlessZero ret >>= x) = .ok a ↔ ret = 0 ∧ x () = .ok a := by
  unfold exitUnlessZero
  split
  · next hret => exact iff_of_false nofun fun h => hret h.1
  · next hret => exact (and_iff_right (not_not.mp hret)).symm

theorem exitIfNegative_bind {α : Type} {ret : Int} {x : Unit → Except Int α} {a : α} :
    (exitIfNegative ret >>= x) = .ok a ↔ 0 ≤ ret ∧ x () = .ok a := by
  unfold exitIfNegative
  split
  · next hret => exact iff_of_false nofun fun h => absurd h.1 (not_le.mpr hret)
  · next hret => exact (and_iff_right (not_lt.mp hret)).symm

/-- `crt` is for this identity, and `pem` is what mbedTLS has written for it. -/
structure Issues {Key : Type} (m : MbedTls Key) (secret : ProvisioningSecret)
    (uuid serialString : List Byte) (crt : X509WriteCert Key)
    (pem : CharArray aknanoCertBufSize) : Prop where
  key : m.ecpGenKey = (0, crt.subjectKey)
  subject : crt.subjectName = subjectText secret uuid
  serial : m.mpiReadString 16 serialString = (0, crt.serial)
  written : m.x509writeCrtPem crt = (0, pem)

/-- **The generator**: a certificate comes out of it only if each of its steps
succeeded, and it is one for this identity. -/
theorem genDeviceCertificateAndKey_ok {Key : Type} {m : MbedTls Key} {secret : ProvisioningSecret}
    {uuid serialString : List Byte} {certBuf keyBuf : CharArray aknanoCertBufSize}
    (h : aknanoGenDeviceCertificateAndKey m secret uuid serialString = .ok (certBuf, keyBuf)) :
    ∃ crt, Issues m secret uuid serialString crt certBuf := by
  rcases hkey : m.ecpGenKey with ⟨keyRet, newDeviceKey⟩
  rcases hserial : m.mpiReadString 16 serialString with ⟨serialRet, serial⟩
  simp only [aknanoGenDeviceCertificateAndKey, exitUnlessZero_bind, exitIfNegative_bind, hkey,
    hserial] at h
  obtain ⟨-, -, -, rfl, -, -, -, -, -, rfl, -, -, hwritten, h⟩ := h
  obtain ⟨rfl, -⟩ := Prod.mk.inj (Except.ok.inj h)
  exact ⟨_, hkey, rfl, hserial, Prod.ext hwritten rfl⟩

/-- The value was made from a certificate that was issued for this identity. -/
def IssuedFor (k : Credentials) (d : DeviceIdentity) (value : List Byte) : Prop :=
  ∃ t crt pem, Issues (k.mbedTls t) k.secret d.uuid d.serial crt pem ∧
    value = k.convertPemToDer (pem.str ++ [0])

/-- What the libraries are relied on for. -/
structure Credentials.Works (k : Credentials) : Prop where
  /-- there is the certificate of before, none, or the one that was passed -/
  provisions : ∀ t params token,
    k.certificate (k.vAlternateKeyProvisioning t params token).2 = k.certificate token ∨
      k.certificate (k.vAlternateKeyProvisioning t params token).2 = none ∨
      ∃ pem ∈ params.pucClientCertificate,
        k.certificate (k.vAlternateKeyProvisioning t params token).2 = some (k.convertPemToDer pem)
  /-- a certificate that is there can be read -/
  reads : ∀ t token value, k.certificate token = some value → ∃ certData certSize,
    prvGetCertificate (k.pkcs11 t token) = (ckrOk, some certData, certSize) ∧
      certData.bytes certSize.toNat = value
  /-- what mbedTLS has written to a buffer can be written to one again -/
  fits : ∀ t crt pem, (k.mbedTls t).x509writeCrtPem crt = (0, pem) →
    let value := k.convertPemToDer (pem.str ++ [0])
    value ≠ [] ∧ value.length < 4294967295 ∧
      (k.encoder.text (value ++ [0])).head? = some 0x2D ∧
      200 ≤ (k.encoder.text (value ++ [0])).length ∧
      ∀ dst : CharArray aknanoCertBufSize, (k.encoder.write (value ++ [0]) dst).1 = 0

/-- PEM text of the right length is taken for a certificate. -/
theorem isCertificateValid_text {pem : CharArray aknanoCertBufSize} {text rest : List Byte}
    (hclean : ∀ b ∈ text, b ≠ 0) (htext : pem.bytes = text ++ 0 :: rest)
    (hhead : text.head? = some 0x2D) (hlong : 200 ≤ text.length) :
    isCertificateValid pem = true := by
  have hsize : aknanoCertBufSize = 1024 := rfl
  have hbytes := congrArg List.length htext
  rw [pem.length_eq, List.length_append, List.length_cons] at hbytes
  have hfirst : (text ++ 0 :: rest).headD 0 = 0x2D := by
    rw [List.headD_eq_head?_getD, List.head?_append, hhead]
    rfl
  have hlen : strnlen (text ++ 0 :: rest) aknanoCertBufSize = text.length := by
    rw [strnlen_string hclean]
    omega
  rw [isCertificateValid, htext, hfirst, hlen, if_neg (not_not_intro rfl)]
  exact decide_eq_true (by omega)

/-- A certificate that was issued is seen. -/
theorem certificate_available (hworks : k.Works) {d : DeviceIdentity} {t : Nat} {token : k.Token}
    {value : List Byte} (hcert : k.certificate token = some value) (hissued : IssuedFor k d value)
    (deviceCertificate : CharArray aknanoCertBufSize) :
    isValidCertificateAvailable (k.pkcs11 t token) k.encoder false false deviceCertificate
      = true := by
  obtain ⟨t', crt, pem, hissues, hvalue⟩ := hissued
  obtain ⟨certData, certSize, hget, hdata⟩ := hworks.reads t token value hcert
  obtain ⟨hne, hshort, hhead, hlong, hstatus⟩ := hworks.fits t' crt pem hissues.written
  rw [← hvalue] at hne hshort hhead hlong hstatus
  have hlength : certSize.toNat = value.length := by
    rw [← hdata, HeapBlock.bytes_length]
  have hsize : certSize ≠ 0 := by
    rintro rfl
    exact hne (List.eq_nil_of_length_eq_zero hlength.symm)
  have hwrap : certSize ≠ -1 := by
    rintro rfl
    have hmax : (-1 : BitVec 32).toNat = 4294967295 := by decide
    rw [← hlength, hmax] at hshort
    exact lt_irrefl _ hshort
  have hencoded : encodedData certData certSize = value ++ [0] := by
    rw [encodedData_eq hwrap, hdata]
  obtain ⟨rest, htext⟩ := k.encoder.writes (value ++ [0]) deviceCertificate (hstatus _)
  have hread : aknanoReadDeviceCertificate (k.pkcs11 t token) k.encoder deviceCertificate = _ :=
    aknanoReadDeviceCertificate_read hget hsize deviceCertificate
  rw [hencoded, hstatus] at hread
  have hvalid := isCertificateValid_text (k.encoder.clean _) htext hhead hlong
  rw [isValidCertificateAvailable, if_neg (by decide), isValidCertificateAvailable_, hread]
  exact hvalid

/-! ### The invariant -/

/-- A certificate that the token has was issued for what the flash holds. -/
def Matched (k : Credentials) (b : Board k.Token) : Prop :=
  ∀ value, k.certificate b.token = some value → ∃ d : DeviceIdentity,
    d.StandsIn b.world.flash.mem ∧ IssuedFor k d value

/-- Neither side has changed. -/
structure Untampered (b b' : Board k.Token) : Prop where
  token : b'.token = b.token
  deviceId : StorageItem.deviceId.Same b.world.flash.mem b'.world.flash.mem

theorem Untampered.refl (b : Board k.Token) : Untampered b b :=
  ⟨rfl, StorageItem.Same.refl _ _⟩

instance : Trans (Untampered (k := k)) Untampered Untampered where
  trans h h' := ⟨h'.token.trans h.token, h.deviceId.trans h'.deviceId⟩

theorem Matched.untampered {b b' : Board k.Token} (h : Matched k b) (hsame : Untampered b b') :
    Matched k b' := by
  intro value hcert
  rw [hsame.token] at hcert
  obtain ⟨d, hstands, hissued⟩ := h value hcert
  exact ⟨d, hstands.congr hsame.deviceId, hissued⟩

/-- Without a certificate the flash may hold anything. -/
theorem Matched.of_none {b : Board k.Token} (h : k.certificate b.token = none) : Matched k b :=
  fun _ hcert => nomatch h.symm.trans hcert

theorem untampered_onWorld {α : Type} {x : M α} (hx : Keeps Still x) :
    Keeps (Untampered (k := k)) (onWorld x) := by
  have hstill : ∀ {b : Board k.Token} {w : World}, Still b.world w →
      Untampered b { b with world := w } := by
    intro b w h
    refine ⟨rfl, ?_⟩
    rw [h]
    exact StorageItem.Same.refl _ _
  intro b
  rw [onWorld, wp_zoom]
  exact wp_mono (hx b.world) (fun _ _ h => hstill h) fun _ _ h => hstill h

theorem untampered_checkCertificate (isCertificateAvailableCache : Bool) :
    Keeps Untampered (checkCertificate e k isCertificateAvailableCache) :=
  (untampered_onWorld still_tick).bind fun _ =>
    .bind (fun _ => wp_get.mpr (Untampered.refl _)) fun _ => .pure Untampered.refl _

theorem untampered_certificateIfSerial (serialSet : Bool) :
    Keeps Untampered (certificateIfSerial e k serialSet) := by
  unfold certificateIfSerial
  split
  · exact untampered_checkCertificate false
  · exact .pure Untampered.refl _

/-! ### One boot -/

theorem mem_provisioningString {text pem : List Byte} (h : pem ∈ provisioningString text) :
    pem = text ++ [0] := by
  unfold provisioningString at h
  split at h
  · cases h
  · exact (Option.some.inj h).symm

/-- Handing over a certificate that was issued for what the flash holds. -/
theorem devModeKeyProvisioning_agrees (hworks : k.Works) {d : DeviceIdentity} {t : Nat}
    {crt : X509WriteCert k.Key} {pem : CharArray aknanoCertBufSize} (clientKey : List Byte)
    (hissues : Issues (k.mbedTls t) k.secret d.uuid d.serial crt pem) {b : Board k.Token}
    (hnone : k.certificate b.token = none) (hstands : d.StandsIn b.world.flash.mem) :
    wp (vDevModeKeyProvisioningAkNano e k clientKey pem.str) (fun _ => Matched k)
      (fun _ => Matched k) b := by
  unfold vDevModeKeyProvisioningAkNano
  refine (untampered_onWorld still_tick).wp_bind (fun t' b₁ h₁ => ?_) fun _ b' h' =>
    (Matched.of_none hnone).untampered h'
  rw [wp_bind, wp_get]
  generalize hparams : ProvisioningParams.mk none (provisioningString clientKey)
    (provisioningString pem.str) = params
  have hprovisions := hworks.provisions t' params b₁.token
  generalize k.vAlternateKeyProvisioning t' params b₁.token = r at hprovisions
  obtain ⟨cut, token⟩ := r
  have hagrees : Matched k { b₁ with token := token } := by
    intro value hcert
    rcases hprovisions with hkept | hgone | ⟨pem', hpem, hnew⟩
    · rw [h₁.token, hnone] at hkept
      exact absurd (hkept.symm.trans hcert) nofun
    · exact absurd (hgone.symm.trans hcert) nofun
    · -- the certificate that was passed
      rw [← hparams] at hpem
      have hvalue := Option.some.inj (hcert.symm.trans hnew)
      rw [mem_provisioningString hpem] at hvalue
      exact ⟨d, hstands.congr h₁.deviceId, t, crt, pem, hissues, hvalue⟩
  dsimp only
  rw [wp_bind, wp_modify]
  cases cut with
  | false => exact (wp_pure _).mpr hagrees
  | true => exact (wp_throw _).mpr hagrees

/-- **Provisioning** a device whose token has no certificate. -/
theorem provisionDevice_agrees (hworks : k.Works) (hfails : e.faults.NeverFails)
    {b : Board k.Token} (hnone : k.certificate b.token = none) :
    wp (aknanoProvisionDevice e k) (fun _ => Matched k) (fun _ => Matched k) b := by
  have hearly : ∀ w : World, Matched k { b with world := w } := fun _ => .of_none hnone
  unfold aknanoProvisionDevice
  rw [wp_bind, onWorld, wp_zoom]
  refine wp_mono (genSerialAndUuid_identity b.world) ?_ fun _ _ _ => hearly _
  rintro r w₁ ⟨d, rfl⟩
  dsimp only
  rw [wp_bind, onWorld, wp_zoom]
  refine wp_mono wp_true ?_ fun _ _ _ => hearly _
  intro t w₂ _
  rw [wp_bind, onWorld, wp_zoom, onFlash, wp_zoom]
  refine wp_mono (saveUuidAndSerial_stands hfails (k.stack t _) d w₂.flash) ?_
    fun _ _ _ => hearly _
  intro ret f hstands
  rw [wp_bind]
  refine wp_mono (untampered_onWorld still_tick _) ?_ fun _ _ h => (hearly _).untampered h
  intro t' b₄ h₄
  have hstands₄ : d.StandsIn b₄.world.flash.mem := hstands.congr h₄.deviceId
  have hnone₄ : k.certificate b₄.token = none := by
    rw [h₄.token]
    exact hnone
  split
  · exact (wp_pure _).mpr (Matched.of_none hnone₄)
  · next certBuf keyBuf hgen =>
    have huuid : ((CharArray.zero aknanoMaxUuidLength).store (d.uuid ++ [0])).str = d.uuid :=
      d.uuidArray_str
    have hserial : ((CharArray.zero aknanoMaxSerialLength).store (d.serial ++ [0])).str
        = d.serial := d.serialArray_str
    rw [huuid, hserial] at hgen
    obtain ⟨crt, hissues⟩ := genDeviceCertificateAndKey_ok hgen
    rw [wp_bind]
    refine wp_mono (devModeKeyProvisioning_agrees hworks keyBuf.str hissues hnone₄ hstands₄) ?_
      fun _ _ h => h
    intro _ b₅ h₅
    refine (untampered_onWorld (still_delay _)).wp_bind (fun _ b₆ h₆ => ?_) fun _ _ h =>
      h₅.untampered h
    exact (wp_pure _).mpr (h₅.untampered h₆)

theorem untampered_isDeviceSerialSet (serial : CharArray aknanoMaxSerialLength) :
    Keeps (Untampered (k := k)) (onWorld (onFlash (isDeviceSerialSet p o serial))) := by
  have hkept : ∀ {b : Board k.Token} {f : Flash}, f.mem = b.world.flash.mem →
      Untampered b { b with world := { b.world with flash := f } } := fun h =>
    ⟨rfl, fun x _ _ => congrFun h x⟩
  intro b
  rw [onWorld, wp_zoom, onFlash, wp_zoom]
  exact wp_mono (isDeviceSerialSet_mem serial b.world.flash) (fun _ _ h => hkept h)
    fun _ _ h => hkept h

/-- What is certain of `provisionAtInit`. -/
structure Provisioned (k : Credentials) (b b' : Board k.Token) : Prop where
  agrees : Matched k b'
  once : k.certificate b.token ≠ none → Untampered b b'

/-- A device that has its certificate is left alone. -/
theorem provisionAtInit_done (hworks : k.Works) (hfails : e.faults.NeverFails)
    {b : Board k.Token} {d : DeviceIdentity} {value : List Byte}
    (hcert : k.certificate b.token = some value) (hstands : d.StandsIn b.world.flash.mem)
    (hissued : IssuedFor k d value) :
    wp (provisionAtInit p e k) (fun _ => Untampered b) (fun _ => Untampered b) b := by
  unfold provisionAtInit
  refine (untampered_onWorld still_tick).wp_bind (fun t b₁ h₁ => ?_) fun _ _ h => h
  rw [wp_bind]
  have hserial : wp (onWorld (k := k) (onFlash (isDeviceSerialSet p e.faults (k.stack t _))))
      (fun r _ => r = true) (fun _ _ => True) b₁ := by
    rw [onWorld, wp_zoom, onFlash, wp_zoom]
    exact isDeviceSerialSet_spec hfails _ (hstands.congr h₁.deviceId)
  refine wp_mono (wp_and hserial (untampered_isDeviceSerialSet _ b₁)) ?_ fun _ _ h =>
    Trans.trans h₁ h.2
  rintro serialSet b₂ ⟨rfl, h₂⟩
  have h₀₂ : Untampered b b₂ := Trans.trans h₁ h₂
  rw [wp_bind, certificateIfSerial, if_pos rfl, checkCertificate]
  refine (untampered_onWorld still_tick).wp_bind (fun t' b₃ h₃ => ?_) fun _ _ h =>
    Trans.trans h₀₂ h
  have h₀₃ : Untampered b b₃ := Trans.trans h₀₂ h₃
  have hcert₃ : k.certificate b₃.token = some value := by
    rw [h₀₃.token, hcert]
  rw [wp_bind, wp_get, wp_pure, certificate_available hworks hcert₃ hissued, if_neg (by decide),
    wp_pure]
  exact h₀₃

/-- A device without a certificate ends up in agreement. -/
theorem provisionAtInit_none (hworks : k.Works) (hfails : e.faults.NeverFails)
    {b : Board k.Token} (hnone : k.certificate b.token = none) :
    wp (provisionAtInit p e k) (fun _ => Matched k) (fun _ => Matched k) b := by
  have hearly : ∀ {b' : Board k.Token}, Untampered b b' → Matched k b' := fun h =>
    (Matched.of_none hnone).untampered h
  unfold provisionAtInit
  refine (untampered_onWorld still_tick).wp_bind (fun t b₁ h₁ => ?_) fun _ _ h => hearly h
  refine (untampered_isDeviceSerialSet _).wp_bind (fun serialSet b₂ h₂ => ?_) fun _ _ h =>
    hearly (Trans.trans h₁ h)
  refine (untampered_certificateIfSerial serialSet).wp_bind (fun cache b₃ h₃ => ?_) fun _ _ h =>
    hearly (Trans.trans (Trans.trans h₁ h₂ : Untampered _ _) h)
  have h₀₃ : Untampered b b₃ := Trans.trans (Trans.trans h₁ h₂ : Untampered _ _) h₃
  split
  · have hnone₃ : k.certificate b₃.token = none := by
      rw [h₀₃.token, hnone]
    rw [wp_bind]
    refine wp_mono (provisionDevice_agrees hworks hfails hnone₃) ?_ fun _ _ h => h
    intro ret b₄ h₄
    refine (untampered_onWorld (still_delay _)).wp_bind (fun _ b₅ h₅ => ?_) fun _ _ h =>
      h₄.untampered h
    refine (untampered_checkCertificate _).wp_bind (fun available b₆ h₆ => ?_) fun _ _ h =>
      (h₄.untampered h₅).untampered h
    have hagrees := (h₄.untampered h₅).untampered h₆
    split
    · exact wp_mono (untampered_onWorld (still_delay _) b₆)
        (fun _ _ h => hagrees.untampered h) fun _ _ h => hagrees.untampered h
    · exact (wp_pure _).mpr hagrees
  · exact (wp_pure _).mpr (hearly h₀₃)

/-- **The block of `aknano_init`** keeps the agreement, and provisions no device
twice. -/
theorem provisionAtInit_agrees (hworks : k.Works) (hfails : e.faults.NeverFails)
    {b : Board k.Token} (h : Matched k b) :
    wp (provisionAtInit p e k) (fun _ => Provisioned k b) (fun _ => Provisioned k b) b := by
  rcases hcert : k.certificate b.token with - | value
  · have hdone : ∀ {b' : Board k.Token}, Matched k b' → Provisioned k b b' := fun h' =>
      ⟨h', fun hthere => absurd hcert hthere⟩
    exact wp_mono (provisionAtInit_none hworks hfails hcert) (fun _ _ h' => hdone h')
      fun _ _ h' => hdone h'
  · obtain ⟨d, hstands, hissued⟩ := h value hcert
    have hdone : ∀ {b' : Board k.Token}, Untampered b b' → Provisioned k b b' := fun h' =>
      ⟨h.untampered h', fun _ => h'⟩
    exact wp_mono (provisionAtInit_done hworks hfails hcert hstands hissued)
      (fun _ _ h' => hdone h') fun _ _ h' => hdone h'

/-! ### A life -/

/-- What the agent does to the flash after `aknano_init`. -/
inductive AgentOp
  | storage (op : StorageOp)
  | provisionTufRoot (dataExceedsBufferSize : Int) (s : Settings)
      (ucUserBuffer : CharArray aknanoImageDownloadBufferLength)

namespace AgentOp

def run (p : Platform) (e : Env) : AgentOp → M Unit
  | .storage op => op.run p e
  | .provisionTufRoot dataExceedsBufferSize s ucUserBuffer => do
    let _ ← aknanoProvisionTufRoot p e dataExceedsBufferSize s ucUserBuffer

/-- Provisioning the root stays behind the identity, also where it leaves its
region. -/
theorem provisionTufRoot_deviceId (dataExceedsBufferSize : Int) (s : Settings)
    (ucUserBuffer : CharArray aknanoImageDownloadBufferLength) :
    Keeps (fun w w' => StorageItem.deviceId.Same w.flash.mem w'.flash.mem)
      (aknanoProvisionTufRoot p e dataExceedsBufferSize s ucUserBuffer) := by
  have hkept : ∀ {w w' : World}, w'.flash.mem = w.flash.mem →
      StorageItem.deviceId.Same w.flash.mem w'.flash.mem := fun h x _ _ => congrFun h x
  have hbehind : StorageItem.deviceId.addr + StorageItem.deviceId.size ≤ rootProvisioningAddr := by
    decide
  intro w
  unfold aknanoProvisionTufRoot
  rw [wp_bind, onFlash, wp_zoom]
  refine wp_mono (readLocalJsonFile_spec (by decide) w.flash) ?_ fun _ _ h => hkept h.1
  rintro file f ⟨hmem, -⟩
  split
  · exact (wp_pure _).mpr (hkept hmem)
  · rw [wp_bind]
    refine wp_mono (fetchRoot_spec s _ _) ?_ fun _ w' h =>
      hkept ((congrArg Flash.mem h.1).trans hmem)
    rintro r w₂ ⟨hflash, hbody, -⟩
    have hmem₂ : w₂.flash.mem = w.flash.mem := (congrArg Flash.mem hflash).trans hmem
    split
    · next targetBuffer =>
      split
      · exact (wp_pure _).mpr (hkept hmem₂)
      · have hlen : targetBuffer.length ≤ aknanoImageDownloadBufferLength :=
          hbody targetBuffer rfl ▸ Reply.bytes_length _
        have hsame : ∀ {f' : Flash}, SameOutside rootProvisioningAddr
            (rootProvisioningAddr + roundUp mflashSectorSize targetBuffer.length) w₂.flash.mem
              f'.mem → StorageItem.deviceId.Same w.flash.mem f'.mem := fun h =>
          hmem₂ ▸ StorageItem.same_of_sameOutside h (Or.inl hbehind)
        rw [onFlash, wp_zoom]
        exact wp_mono (writeRoot_spec hlen w₂.flash) (fun _ _ h => hsame h.1) fun _ _ h => hsame h.1
    · exact (wp_pure _).mpr (hkept hmem₂)
    · split <;> exact (wp_pure _).mpr (hkept hmem₂)
    · exact (wp_pure _).mpr (hkept hmem₂)

/-- None of it is about the identity. -/
theorem deviceId_kept (op : AgentOp) (w : World) :
    StorageItem.deviceId.Same w.flash.mem (final (op.run p e) w).flash.mem := by
  cases op with
  | storage op =>
    have hop : op.item ≠ some .deviceId := by
      cases op <;> exact nofun
    exact op.isolated w hop
  | provisionTufRoot dataExceedsBufferSize s ucUserBuffer =>
    have hkeeps : Keeps (fun w w' => StorageItem.deviceId.Same w.flash.mem w'.flash.mem)
        (run p e (.provisionTufRoot dataExceedsBufferSize s ucUserBuffer)) := fun w =>
      wp_bind.mpr <| wp_mono (provisionTufRoot_deviceId dataExceedsBufferSize s ucUserBuffer w)
        (fun _ _ h => (wp_pure _).mpr h) fun _ _ h => h
    exact hkeeps.final w

end AgentOp

variable (p e k) in
/-- A boot: the block, and what the agent does then.  Each part may be cut
short. -/
def enrolmentBoot (b : Board k.Token) (ops : List AgentOp) : Board k.Token :=
  let b := final (provisionAtInit p e k) b
  { b with world := ops.foldl (fun w op => final (op.run p e) w) b.world }

variable (p e k) in
def enrolmentLife (boots : List (List AgentOp)) (b : Board k.Token) : Board k.Token :=
  boots.foldl (enrolmentBoot p e k) b

theorem enrolmentLife_append (boots boots' : List (List AgentOp)) (b : Board k.Token) :
    enrolmentLife p e k (boots ++ boots') b
      = enrolmentLife p e k boots' (enrolmentLife p e k boots b) :=
  List.foldl_append

/-- What the agent does later changes neither side. -/
theorem untampered_ops (ops : List AgentOp) (b : Board k.Token) :
    Untampered b { b with world := ops.foldl (fun w op => final (op.run p e) w) b.world } := by
  refine ⟨rfl, ?_⟩
  dsimp only
  generalize b.world = w
  induction ops generalizing w with
  | nil => exact StorageItem.Same.refl _ _
  | cons op ops ih => exact (op.deviceId_kept w).trans (ih _)

/-- **Run lemma**: the agreement is kept, and once there is a certificate
neither side changes any more. -/
theorem enrolmentLife_provisioned (hworks : k.Works) (hfails : e.faults.NeverFails)
    (boots : List (List AgentOp)) {b : Board k.Token} (h : Matched k b) :
    Provisioned k b (enrolmentLife p e k boots b) := by
  induction boots generalizing b with
  | nil => exact ⟨h, fun _ => Untampered.refl b⟩
  | cons ops boots ih =>
    have hboot : Provisioned k b (final (provisionAtInit p e k) b) :=
      wp.final (P := Provisioned k b) (provisionAtInit_agrees hworks hfails h)
    have hops := untampered_ops (p := p) (e := e) ops (final (provisionAtInit p e k) b)
    have hrest := ih (hboot.agrees.untampered hops)
    refine ⟨hrest.agrees, fun hthere => ?_⟩
    have hsame : Untampered b (enrolmentBoot p e k b ops) := Trans.trans (hboot.once hthere) hops
    have hstill : k.certificate (enrolmentBoot p e k b ops).token ≠ none := by
      rwa [hsame.token]
    exact Trans.trans hsame (hrest.once hstill)

/-! ### An undisturbed boot -/

/-- Every step of the generator succeeds, and its text fits the buffer. -/
structure MbedTls.Succeeds {Key : Type} (m : MbedTls Key) (secret : ProvisioningSecret) :
    Prop where
  setup : m.pkSetup = 0
  entropy : m.entropyAddSource = 0
  seed : ∀ pers, m.ctrDrbgSeed pers = 0
  key : m.ecpGenKey.1 = 0
  keyPem : ∀ key, (m.pkWriteKeyPem key).1 = 0
  issuerKey : 0 ≤ (m.pkParseKey (secret.issuerKey ++ [0])).1
  issuer : (m.x509CrtParse (secret.issuerCertificate ++ [0])).1 = 0
  issuerName : ∀ size dn, 0 ≤ (m.x509DnGets size dn).1
  subjectName : ∀ subject, m.x509writeCrtSetSubjectName subject = 0
  number : ∀ radix text, (m.mpiReadString radix text).1 = 0
  serial : ∀ serial, m.x509writeCrtSetSerial serial = 0
  validity : ∀ notBefore notAfter, m.x509writeCrtSetValidity notBefore notAfter = 0
  pem : ∀ crt, (m.x509writeCrtPem crt).1 = 0
  text : ∀ crt, (m.x509writeCrtPem crt).2.str ≠ [] ∧
    (m.x509writeCrtPem crt).2.str.length < aknanoCertBufSize

/-- What it takes besides, for a device to get its certificate. -/
structure Credentials.Cooperates (k : Credentials) : Prop where
  generates : ∀ t, (k.mbedTls t).Succeeds k.secret
  /-- what is passed is stored -/
  stores : ∀ t params token, ∀ pem ∈ params.pucClientCertificate,
    pem.length ≤ aknanoCertBufSize →
      ∃ token', k.vAlternateKeyProvisioning t params token = (false, token') ∧
        k.certificate token' = some (k.convertPemToDer pem)
  /-- from a token without a certificate nothing is read -/
  empty : ∀ t token, k.certificate token = none → (prvGetCertificate (k.pkcs11 t token)).2.2 = 0
  /-- and there is none on the stack -/
  stack : ∀ t, isCertificateValid (k.stack t _) = false

theorem MbedTls.Succeeds.generates {Key : Type} {m : MbedTls Key} {secret : ProvisioningSecret}
    (h : m.Succeeds secret) (uuid serialString : List Byte) :
    ∃ certBuf keyBuf,
      aknanoGenDeviceCertificateAndKey m secret uuid serialString = .ok (certBuf, keyBuf) ∧
        certBuf.str ≠ [] ∧ certBuf.str.length < aknanoCertBufSize := by
  have hrun : aknanoGenDeviceCertificateAndKey m secret uuid serialString
      = .ok ((m.x509writeCrtPem
          { subjectKey := m.ecpGenKey.2
            issuerKey := (m.pkParseKey (secret.issuerKey ++ [0])).2
            issuerName := (m.x509DnGets 200 (m.x509CrtParse (secret.issuerCertificate ++ [0])).2).2
            subjectName := subjectText secret uuid
            serial := (m.mpiReadString 16 serialString).2
            notBefore := ascii "20210101000000"
            notAfter := ascii "20301231235959" }).2, (m.pkWriteKeyPem m.ecpGenKey.2).2) := by
    simp only [aknanoGenDeviceCertificateAndKey, exitUnlessZero_bind, exitIfNegative_bind, h.setup,
      h.entropy, h.seed, h.key, h.keyPem, h.issuerKey, h.issuer, h.issuerName, h.subjectName,
      h.number, h.serial, h.validity, h.pem, true_and]
    rfl
  exact ⟨_, _, hrun, h.text _⟩

/-- A token without a certificate is seen as one. -/
theorem certificate_unavailable (hcoop : k.Cooperates) (t t' : Nat) {token : k.Token}
    (hnone : k.certificate token = none) :
    isValidCertificateAvailable (k.pkcs11 t token) k.encoder false false (k.stack t' _)
      = false := by
  have hsize := hcoop.empty t token hnone
  rcases hget : prvGetCertificate (k.pkcs11 t token) with ⟨ret, certData, certSize⟩
  rw [hget] at hsize
  obtain rfl : certSize = 0 := hsize
  have hread : aknanoReadDeviceCertificate (k.pkcs11 t token) k.encoder (k.stack t' _)
      = ⟨decide (ret = ckrOk), k.stack t' aknanoCertBufSize, false⟩ := by
    simp only [aknanoReadDeviceCertificate, hget, ne_eq, not_true_eq_false, and_false, if_false]
  rw [isValidCertificateAvailable, if_neg (by decide), isValidCertificateAvailable_, hread]
  dsimp only
  split
  · rfl
  · exact hcoop.stack t'

/-- A call of the device returns, and leaves the token. -/
theorem returns_onWorld {α : Type} {x : M α} (hx : Finishes x) (b : Board k.Token) :
    wp (onWorld x) (fun _ b' => b'.token = b.token) (fun _ _ => False) b := by
  rw [onWorld, wp_zoom]
  exact wp_mono (hx b.world) (fun _ _ _ => rfl) fun _ _ h => h

theorem returns_saveUuidAndSerial (he : e.Works) (uuidAndSerial : CharArray mflashPageSize)
    (uuid : CharArray aknanoMaxUuidLength) (serial : CharArray aknanoMaxSerialLength) :
    Finishes (onFlash (aknanoSaveUuidAndSerial e.faults uuidAndSerial uuid serial)) :=
  Finishes.zoom fun f => wp_mono (saveUuidAndSerial_spec he.flash uuidAndSerial uuid serial f)
    (fun _ _ _ => trivial) fun _ _ h => h

theorem returns_isDeviceSerialSet (he : e.Works) (serial : CharArray aknanoMaxSerialLength) :
    Finishes (onFlash (isDeviceSerialSet p e.faults serial)) := by
  refine Finishes.zoom fun f => ?_
  rw [isDeviceSerialSet, wp_bind]
  refine wp_mono (readFlashStorage_spec (by decide) f) ?_ fun _ _ h => h.2.2 he.flash
  exact fun _ _ _ => (wp_pure _).mpr trivial

/-- Handing over a certificate puts one into the token. -/
theorem devModeKeyProvisioning_stores (he : e.Works) (hcoop : k.Cooperates)
    (clientKey : List Byte) {clientCertificate : List Byte} (hne : clientCertificate ≠ [])
    (hfits : clientCertificate.length < aknanoCertBufSize) (b : Board k.Token) :
    wp (vDevModeKeyProvisioningAkNano e k clientKey clientCertificate)
      (fun _ b' => k.certificate b'.token ≠ none) (fun _ _ => False) b := by
  unfold vDevModeKeyProvisioningAkNano
  rw [wp_bind]
  refine wp_mono (returns_onWorld he.returns_tick b) ?_ fun _ _ h => h
  intro t b₁ _
  obtain ⟨token', hstored, hcert⟩ := hcoop.stores t
    ⟨none, provisioningString clientKey, provisioningString clientCertificate⟩ b₁.token
    (clientCertificate ++ [0]) (if_neg hne) (by rwa [List.length_append])
  rw [wp_bind, wp_get, hstored]
  dsimp only
  rw [wp_bind, wp_modify, if_neg Bool.false_ne_true, wp_pure]
  dsimp only
  rw [hcert]
  exact nofun

theorem provisionDevice_stores (he : e.Works) (hcoop : k.Cooperates) (b : Board k.Token) :
    wp (aknanoProvisionDevice e k) (fun _ b' => k.certificate b'.token ≠ none)
      (fun _ _ => False) b := by
  unfold aknanoProvisionDevice
  rw [wp_bind]
  refine wp_mono (returns_onWorld he.returns_genSerialAndUuid b) ?_ fun _ _ h => h
  rintro ⟨uuid, serial⟩ b₁ -
  dsimp only
  rw [wp_bind]
  refine wp_mono (returns_onWorld he.returns_tick b₁) ?_ fun _ _ h => h
  intro t b₂ _
  rw [wp_bind]
  refine wp_mono (returns_onWorld (returns_saveUuidAndSerial he _ _ _) b₂) ?_ fun _ _ h => h
  intro ret b₃ _
  rw [wp_bind]
  refine wp_mono (returns_onWorld he.returns_tick b₃) ?_ fun _ _ h => h
  intro t' b₄ _
  obtain ⟨certBuf, keyBuf, hgen, hne, hfits⟩ := (hcoop.generates t').generates
    ((CharArray.zero aknanoMaxUuidLength).store uuid).str
    ((CharArray.zero aknanoMaxSerialLength).store serial).str
  rw [hgen]
  dsimp only
  rw [wp_bind]
  refine wp_mono (devModeKeyProvisioning_stores he hcoop keyBuf.str hne hfits b₄) ?_ fun _ _ h => h
  intro _ b₅ h₅
  rw [wp_bind]
  refine wp_mono (returns_onWorld (he.returns_delay _) b₅) ?_ fun _ _ h => h
  intro _ b₆ htoken
  rw [wp_pure, htoken]
  exact h₅

theorem returns_checkCertificate (he : e.Works) (isCertificateAvailableCache : Bool)
    (b : Board k.Token) :
    wp (checkCertificate e k isCertificateAvailableCache) (fun _ b' => b'.token = b.token)
      (fun _ _ => False) b := by
  unfold checkCertificate
  rw [wp_bind]
  refine wp_mono (returns_onWorld he.returns_tick b) ?_ fun _ _ h => h
  intro t b₁ htoken
  rw [wp_bind, wp_get, wp_pure]
  exact htoken

/-- Without a certificate nothing is found. -/
theorem certificateIfSerial_none (he : e.Works) (hcoop : k.Cooperates) (serialSet : Bool)
    {b : Board k.Token} (hnone : k.certificate b.token = none) :
    wp (certificateIfSerial e k serialSet) (fun r _ => r = false) (fun _ _ => False) b := by
  unfold certificateIfSerial
  split
  · rw [checkCertificate, wp_bind]
    refine wp_mono (returns_onWorld he.returns_tick b) ?_ fun _ _ h => h
    intro t b₁ htoken
    rw [wp_bind, wp_get, wp_pure]
    exact certificate_unavailable hcoop t t (htoken ▸ hnone)
  · exact (wp_pure _).mpr rfl

/-- **An undisturbed block** ends with a certificate in the token. -/
theorem provisionAtInit_stores (he : e.Works) (hcoop : k.Cooperates) {b : Board k.Token}
    (hnone : k.certificate b.token = none) :
    wp (provisionAtInit p e k) (fun _ b' => k.certificate b'.token ≠ none) (fun _ _ => False)
      b := by
  have hkept : ∀ {b₁ b₂ : Board k.Token}, k.certificate b₁.token ≠ none → b₂.token = b₁.token →
      k.certificate b₂.token ≠ none := by
    intro b₁ b₂ h htoken
    rwa [htoken]
  unfold provisionAtInit
  rw [wp_bind]
  refine wp_mono (returns_onWorld he.returns_tick b) ?_ fun _ _ h => h
  intro t b₁ htoken₁
  rw [wp_bind]
  refine wp_mono (returns_onWorld (returns_isDeviceSerialSet he _) b₁) ?_ fun _ _ h => h
  intro serialSet b₂ htoken₂
  have hnone₂ : k.certificate b₂.token = none := by
    rw [htoken₂, htoken₁, hnone]
  rw [wp_bind]
  refine wp_mono (certificateIfSerial_none he hcoop serialSet hnone₂) ?_ fun _ _ h => h
  rintro cache b₃ rfl
  rw [if_pos (Or.inr Bool.false_ne_true), wp_bind]
  refine wp_mono (provisionDevice_stores he hcoop b₃) ?_ fun _ _ h => h
  intro ret b₄ h₄
  rw [wp_bind]
  refine wp_mono (returns_onWorld (he.returns_delay _) b₄) ?_ fun _ _ h => h
  intro _ b₅ htoken₅
  rw [wp_bind]
  refine wp_mono (returns_checkCertificate he false b₅) ?_ fun _ _ h => h
  intro available b₆ htoken₆
  have h₆ : k.certificate b₆.token ≠ none := hkept (hkept h₄ htoken₅) htoken₆
  split
  · exact wp_mono (returns_onWorld (he.returns_delay _) b₆) (fun _ _ h => hkept h₆ h)
      fun _ _ h => h
  · exact (wp_pure _).mpr h₆

theorem enrolmentBoot_stores (he : e.Works) (hcoop : k.Cooperates) (ops : List AgentOp)
    {b : Board k.Token} (hnone : k.certificate b.token = none) :
    k.certificate (enrolmentBoot p e k b ops).token ≠ none :=
  wp.final (P := fun b' => k.certificate b'.token ≠ none) <|
    wp_mono (provisionAtInit_stores (p := p) he hcoop hnone) (fun _ _ h => h) fun _ _ h => h.elim

/-! ### A sample -/

/-- A token that finds and reads this value. -/
def holdingToken (value : List Byte) : Pkcs11 :=
  { emptyToken with
    cFindObjects := fun _ => (ckrOk, some 1, 1)
    cGetAttributeLength := fun _ _ _ => (ckrOk, BitVec.ofNat 32 value.length)
    cGetAttributeValue := fun _ _ _ _ =>
      (ckrOk, BitVec.ofNat 32 value.length, fun i => value.getD i 0) }

/-- The text that stands for a certificate: the digits of its subject. -/
def sampleText (subject : List Byte) : List Byte := 0x2B :: (subject.take 50).flatMap hex2

/-- mbedTLS, if nothing fails. -/
def MbedTls.sample : MbedTls Nat where
  pkSetup := 0
  entropyAddSource := 0
  ctrDrbgSeed _ := 0
  ecpGenKey := (0, 1)
  pkWriteKeyPem _ := (0, .zero _)
  pkParseKey _ := (0, 2)
  x509CrtParse _ := (0, ascii "CN=factory")
  x509DnGets _ dn := (0, dn)
  x509writeCrtSetSubjectName _ := 0
  mpiReadString _ text := (0, text.length)
  x509writeCrtSetSerial _ := 0
  x509writeCrtSetValidity _ _ := 0
  x509writeCrtPem crt := (0, (CharArray.zero _).store (sampleText crt.subjectName))

/-- A token with room for one certificate. -/
abbrev SampleToken : Type := Option { value : List Byte // value.length ≤ aknanoCertBufSize }

/-- What fits is stored. -/
def storeSample (token : SampleToken) : Option (List Byte) → SampleToken
  | none => token
  | some pem => if h : pem.length ≤ aknanoCertBufSize then some ⟨pem, h⟩ else token

def Credentials.sample : Credentials where
  Token := SampleToken
  Key := Nat
  certificate := Option.map Subtype.val
  pkcs11 _ token := token.elim emptyToken fun value => holdingToken value
  encoder := dashEncoder
  mbedTls _ := .sample
  vAlternateKeyProvisioning _ params token := (false, storeSample token params.pucClientCertificate)
  convertPemToDer := id
  secret := ⟨ascii "factory", [], [], false⟩
  stack _ _ := .zero _

theorem flatMap_hex2_length (data : List Byte) : (data.flatMap hex2).length = 2 * data.length := by
  induction data with
  | nil => rfl
  | cons b data ih =>
    rw [List.flatMap_cons, List.length_append, ih, List.length_cons, hex2]
    dsimp only [List.length_cons, List.length_nil]
    omega

theorem sampleText_length (subject : List Byte) :
    0 < (sampleText subject).length ∧ (sampleText subject).length ≤ 101 := by
  rw [sampleText, List.length_cons, flatMap_hex2_length, List.length_take]
  omega

theorem sampleText_str (subject : List Byte) :
    ((CharArray.zero aknanoCertBufSize).store (sampleText subject)).str = sampleText subject := by
  have hsize : aknanoCertBufSize = 1024 := rfl
  have hlen := sampleText_length subject
  refine CharArray.str_store_zero ?_ (by omega)
  intro b hb
  rcases List.mem_cons.mp hb with rfl | hb
  · decide
  · obtain ⟨c, -, hc⟩ := List.mem_flatMap.mp hb
    exact ne_zero_of_mem_hex2 hc

theorem storeSample_fits {pem : List Byte} (h : pem.length ≤ aknanoCertBufSize)
    (token : SampleToken) : (storeSample token (some pem)).map Subtype.val = some pem := by
  rw [storeSample, dif_pos h]
  rfl

theorem storeSample_long {pem : List Byte} (h : ¬ pem.length ≤ aknanoCertBufSize)
    (token : SampleToken) : storeSample token (some pem) = token := dif_neg h

theorem Credentials.sample_works : Credentials.sample.Works where
  provisions t params token := by
    show (storeSample token params.pucClientCertificate).map Subtype.val = token.map Subtype.val ∨
      (storeSample token params.pucClientCertificate).map Subtype.val = none ∨
      ∃ pem ∈ params.pucClientCertificate,
        (storeSample token params.pucClientCertificate).map Subtype.val = some pem
    rcases params.pucClientCertificate with - | pem
    · exact Or.inl rfl
    · by_cases hfits : pem.length ≤ aknanoCertBufSize
      · exact Or.inr (Or.inr ⟨pem, rfl, storeSample_fits hfits token⟩)
      · exact Or.inl (congrArg _ (storeSample_long hfits token))
  reads t token value hcert := by
    obtain ⟨⟨held, hlen⟩, rfl, rfl⟩ := Option.map_eq_some_iff.mp hcert
    have hsize : aknanoCertBufSize = 1024 := rfl
    have hcount : (BitVec.ofNat 32 held.length).toNat = held.length := by
      rw [BitVec.toNat_ofNat]
      exact Nat.mod_eq_of_lt (by omega)
    refine ⟨⟨(BitVec.ofNat 32 held.length).toNat, fun i => held.getD i 0⟩,
      BitVec.ofNat 32 held.length, rfl, ?_⟩
    rw [hcount, HeapBlock.bytes]
    refine List.ext_getElem (by simp) fun i _ hi => ?_
    rw [List.getElem_map, List.getElem_range]
    show held.getD i 0 = held[i]
    rw [List.getD_eq_getElem?_getD, List.getElem?_eq_getElem hi, Option.getD_some]
  fits t crt pem hwritten := by
    obtain rfl := (Prod.mk.inj hwritten).2
    have hlen := sampleText_length crt.subjectName
    have hsize : aknanoCertBufSize = 1024 := rfl
    rw [sampleText_str]
    show sampleText crt.subjectName ++ [0] ≠ [] ∧ _ < 4294967295 ∧ _ ∧ _ ∧ _
    refine ⟨List.append_ne_nil_of_right_ne_nil _ (List.cons_ne_nil 0 []), ?_, rfl, ?_, fun dst => ?_⟩
    · show (sampleText crt.subjectName ++ [0]).length < _
      rw [List.length_append, List.length_singleton]
      omega
    · show 200 ≤ (List.replicate 200 0x2D ++ _).length
      rw [List.length_append, List.length_replicate]
      exact Nat.le_add_right ..
    · have hfits : 200 + ((sampleText crt.subjectName ++ [0] ++ [0]).flatMap hex2).length
          < aknanoCertBufSize := by
        rw [flatMap_hex2_length, List.length_append, List.length_append, List.length_singleton]
        omega
      exact congrArg Prod.fst (if_pos hfits)

theorem Credentials.sample_cooperates : Credentials.sample.Cooperates where
  generates t :=
    { setup := rfl
      entropy := rfl
      seed := fun _ => rfl
      key := rfl
      keyPem := fun _ => rfl
      issuerKey := le_rfl
      issuer := rfl
      issuerName := fun _ _ => le_rfl
      subjectName := fun _ => rfl
      number := fun _ _ => rfl
      serial := fun _ => rfl
      validity := fun _ _ => rfl
      pem := fun _ => rfl
      text := fun crt => by
        have hlen := sampleText_length crt.subjectName
        have hsize : aknanoCertBufSize = 1024 := rfl
        have hstr : ((MbedTls.sample).x509writeCrtPem crt).2.str = sampleText crt.subjectName :=
          sampleText_str crt.subjectName
        show ((MbedTls.sample).x509writeCrtPem crt).2.str ≠ [] ∧
          ((MbedTls.sample).x509writeCrtPem crt).2.str.length < aknanoCertBufSize
        rw [hstr]
        exact ⟨List.ne_nil_of_length_pos hlen.1, by omega⟩ }
  stores t params token pem hpem hfits := by
    refine ⟨storeSample token params.pucClientCertificate, rfl, ?_⟩
    rw [hpem]
    exact storeSample_fits hfits token
  empty t token hnone := by
    obtain rfl : token = none := Option.map_eq_none_iff.mp hnone
    rfl
  stack t := by rfl

/-! ### Flash and token -/

/-- A boot from this flash whose reads succeed has this uuid and serial. -/
def Loads (p : Platform) (d : DeviceIdentity) (flash : Flash) : Prop :=
  ∀ (o : FlashFaults) (imagePosition : BitVec 8) (buildNum : Version) (s : Settings) (f : Flash),
    aknanoInitSettings p o imagePosition buildNum flash = .ok (true, s) f →
      s.uuid.str = d.uuid ∧ s.serial.str = d.serial

/-- Once there is a certificate, whatever boots follow leave it and the identity
it was issued for. -/
theorem enrolmentLife_settled (hworks : k.Works) (hfails : e.faults.NeverFails)
    {b : Board k.Token} (h : Matched k b) {value : List Byte}
    (hcert : k.certificate b.token = some value) :
    ∃ d : DeviceIdentity, IssuedFor k d value ∧ ∀ boots : List (List AgentOp),
      k.certificate (enrolmentLife p e k boots b).token = some value ∧
        Loads p d (enrolmentLife p e k boots b).world.flash := by
  have hthere : k.certificate b.token ≠ none := by
    rw [hcert]
    exact Option.some_ne_none value
  obtain ⟨d, hstands, hissued⟩ := h value hcert
  refine ⟨d, hissued, fun boots => ?_⟩
  have hsame := (enrolmentLife_provisioned (p := p) hworks hfails boots h).once hthere
  refine ⟨by rw [hsame.token, hcert], fun o imagePosition buildNum s f hrun => ?_⟩
  exact (hstands.congr hsame.deviceId).loaded hrun

/-- **Flash and token agree.**  On a device that starts without a certificate,
power may be lost at any moment of any boot.  From the moment the token holds a
certificate it keeps it, and every boot whose reads succeed loads the uuid and
the serial that it was issued for. -/
theorem enrolment_agrees (hworks : k.Works) (hfails : e.faults.NeverFails)
    (boots : List (List AgentOp)) {b : Board k.Token} (hnew : k.certificate b.token = none)
    {value : List Byte}
    (hcert : k.certificate (enrolmentLife p e k boots b).token = some value) :
    ∃ d : DeviceIdentity, IssuedFor k d value ∧ ∀ boots' : List (List AgentOp),
      k.certificate (enrolmentLife p e k (boots ++ boots') b).token = some value ∧
        Loads p d (enrolmentLife p e k (boots ++ boots') b).world.flash := by
  have hfirst := (enrolmentLife_provisioned (p := p) hworks hfails boots
    (Matched.of_none hnew)).agrees
  obtain ⟨d, hissued, hlater⟩ := enrolmentLife_settled (p := p) hworks hfails hfirst hcert
  refine ⟨d, hissued, fun boots' => ?_⟩
  rw [enrolmentLife_append]
  exact hlater boots'

/-- Provisioned in the first boot, and left alone in the second. -/
theorem enrolment_agrees_sample : ∃ value d, IssuedFor .sample d value ∧
    Credentials.sample.certificate
      (enrolmentLife .sample .sample .sample ([[]] ++ [[]]) ⟨.factory 5, none⟩).token
        = some value := by
  have he : Env.sample.Works := ⟨fun _ => rfl, FlashFaults.reliable_spec⟩
  obtain ⟨value, hvalue⟩ := Option.ne_none_iff_exists'.mp
    (enrolmentBoot_stores (p := .sample) he Credentials.sample_cooperates []
      (b := ⟨.factory 5, none⟩) rfl)
  obtain ⟨d, hissued, hlater⟩ := enrolment_agrees (p := .sample) Credentials.sample_works
    (fun n => (he.flash n).2) [[]] (b := ⟨.factory 5, none⟩) rfl hvalue
  exact ⟨value, d, hissued, (hlater [[]]).1⟩

/-- **One undisturbed boot is enough.**  Whatever earlier attempts have left in
the flash, a boot without a loss of power gives a device that has no certificate
one; it, and the identity it was issued for, are those of every later boot. -/
theorem enrolment_completes (he : e.Works) (hworks : k.Works) (hcoop : k.Cooperates)
    (ops : List AgentOp) {b : Board k.Token} (hnew : k.certificate b.token = none) :
    ∃ value d, IssuedFor k d value ∧ ∀ boots : List (List AgentOp),
      k.certificate (enrolmentLife p e k (ops :: boots) b).token = some value ∧
        Loads p d (enrolmentLife p e k (ops :: boots) b).world.flash := by
  have hfails : e.faults.NeverFails := fun n => (he.flash n).2
  have hboot : Matched k (enrolmentBoot p e k b ops) :=
    (enrolmentLife_provisioned hworks hfails [ops] (Matched.of_none hnew)).agrees
  obtain ⟨value, hcert⟩ :=
    Option.ne_none_iff_exists'.mp (enrolmentBoot_stores (p := p) he hcoop ops hnew)
  exact ⟨value, enrolmentLife_settled hworks hfails hboot hcert⟩

theorem enrolment_completes_sample : ∃ value d, IssuedFor .sample d value ∧
    ∀ boots, Credentials.sample.certificate
      (enrolmentLife .sample .sample .sample ([] :: boots) ⟨.factory 5, none⟩).token
        = some value := by
  have he : Env.sample.Works := ⟨fun _ => rfl, FlashFaults.reliable_spec⟩
  obtain ⟨value, d, hissued, hlater⟩ := enrolment_completes (p := .sample) he
    Credentials.sample_works Credentials.sample_cooperates [] (b := ⟨.factory 5, none⟩) rfl
  exact ⟨value, d, hissued, fun boots => (hlater boots).1⟩

end AktualizrNano
