/-
AktualizrNano/TrustAnchor.lean

The root of trust in flash: two copies of the TUF root, one provisioned and
never updated, one in the region of its role, which `tuf_refresh` advances.

`aknano_provision_tuf_root` fetches the first into its region.  What
`tuf_client_fetch_file` accepts is bounded by the buffer and not by the region,
and a file between the two sizes runs into the region behind it
(`provisionTufRoot_inRegion_iff`).

`tuf_client_read_local_file` falls back to the provisioned root when the
other cannot be read, and writes it over that one.  A read that fails looks to
it like a file that is not there (`readLocalFile_rootKept_iff`).
-/
import AktualizrNano.Checkin

namespace AktualizrNano

open CLib NorFlash Outcome

variable (p : Platform) (e : Env)

/-! ### Provisioning the root -/

/-- Where the provisioned root starts; the region of the role follows it. -/
abbrev rootProvisioningAddr : Nat := aknanoStorageFlashOffset + aknanoFlashOffTufRootProvisioning

theorem rootProvisioningAddr_add :
    rootProvisioningAddr + aknanoTufMetadataMaxSize = roleAddr .root := by decide

/-- `dataExceedsBufferSize` is the value of `TUF_ERROR_DATA_EXCEEDS_BUFFER_SIZE`.
An HTTP code of 0 reads as success, but then there is no file. -/
def aknanoProvisionTufRoot (dataExceedsBufferSize : Int) (s : Settings)
    (ucUserBuffer : CharArray aknanoImageDownloadBufferLength) : M Int := do
  let file ← onFlash (readLocalJsonFile e.faults aknanoFlashOffTufRootProvisioning
    ucUserBuffer.bytes 0)
  if file.ret = tufSuccess then pure tufSuccess
  else
    match ← tufClientFetchFile p e s (ascii "1.root.json") aknanoImageDownloadBufferLength with
    | .success targetBuffer =>
      if targetBuffer.head? ≠ some 0x7B ∨ targetBuffer.length < 100 then pure (-1)
      else
        onFlash (aknanoWriteDataToStorage e.faults aknanoFlashOffTufRootProvisioning targetBuffer)
    | .dataExceedsBufferSize => pure dataExceedsBufferSize
    | .httpCode code => if code = 0 then pure (-1) else pure (-code)
    | .failed => pure (-1)

/-- What `aknano_send_http_request` sends. -/
def gatewayRequest (method path body : List Byte) (s : Settings) : Request where
  hostname := aknanoDeviceGatewayEndpoint p
  method := method
  path := path
  body := body
  headers := [(ascii "x-ats-tags", s.tag.str),
    (ascii "x-ats-target", printed aknanoMaxTargetNameLength
      (s.hwidStr ++ ascii "-v" ++ signedDecimal s.runningVersion))]
  rangeStart := 0
  rangeEnd := 0

theorem aknanoSendHttpRequest_eq (method path body : List Byte) (s : Settings) :
    aknanoSendHttpRequest p e method path body s
      = aknanoMtlsSendHttpRequest e (gatewayRequest p method path body s) := rfl

/-- The request for the root. -/
def rootRequest (s : Settings) : Request :=
  gatewayRequest p (ascii "GET") (ascii "/repo/1.root.json") [] s

/-- A reply that `tuf_client_fetch_file` takes for the file. -/
structure Reply.Accepted (reply : Reply) (targetBufferLen : Nat) : Prop where
  passed : reply.passed = true
  code : reply.httpCode / 100 = 2
  fits : reply.bytes.length ≤ targetBufferLen

/-! ### Reads that may fail -/

variable {p e} {o : FlashFaults}

/-- The buffer after a read that succeeded. -/
def loaded (m : Mem) (offset : Nat) (buf : List Byte) : List Byte :=
  NorFlash.read m (aknanoStorageFlashOffset + offset) (buf.length / 4 * 4)
    ++ buf.drop (buf.length / 4 * 4)

theorem loaded_length (m : Mem) (offset : Nat) (buf : List Byte) :
    (loaded m offset buf).length = buf.length := by
  have := Nat.div_mul_le_self buf.length 4
  simp [loaded]
  omega

/-- What `read_local_json_file` makes of it. -/
def localRead (fileSize : Nat) (buf : List Byte) : LocalRead :=
  if buf.head? ≠ some 0x7B then ⟨-1, buf, fileSize⟩
  else ⟨tufSuccess, terminate buf, plainLength buf⟩

/-- As long as there is power, a read is decided by the driver's answer. -/
theorem readLocalJsonFile_run {offset : Nat} (buf : List Byte) (fileSize : Nat)
    (hfit : aknanoStorageFlashOffset + offset < 2147483648) {f : Flash}
    (hcut : o.cut f.clock = false) :
    readLocalJsonFile o offset buf fileSize f
      = .ok (if o.fails f.clock then ⟨-1, buf, fileSize⟩
          else localRead fileSize (loaded f.mem offset buf)) { f with clock := f.clock + 1 } := by
  have haddr := uint32_int32_add hfit
  have hread : aknanoReadFlashStorage o offset buf f
      = .ok (if o.fails f.clock then (-1, buf) else (0, loaded f.mem offset buf))
          { f with clock := f.clock + 1 } := by
    simp only [aknanoReadFlashStorage, mflashDrvRead, bind, EStateM.bind, hcut, haddr]
    rcases o.fails f.clock with - | - <;> rfl
  simp only [readLocalJsonFile, bind, EStateM.bind, hread]
  rcases o.fails f.clock with - | -
  · simp only [Bool.false_eq_true, if_false, localRead]
    rw [if_neg (by decide)]
    split
    · rfl
    · rw [terminate_length, strnlen_terminate]
      rfl
  · rfl

/-- A file is there. -/
theorem localRead_open {fileSize : Nat} {buf : List Byte} (h : buf.head? = some 0x7B) :
    localRead fileSize buf = ⟨tufSuccess, terminate buf, plainLength buf⟩ :=
  if_neg (not_not_intro h)

/-- No file is there. -/
theorem localRead_closed {fileSize : Nat} {buf : List Byte} (h : buf.head? ≠ some 0x7B) :
    localRead fileSize buf = ⟨-1, buf, fileSize⟩ :=
  if_pos h

/-! ### Reading the root -/

/-- The region of the root is byte for byte the same. -/
def RootKept (m m' : Mem) : Prop :=
  ∀ x, roleAddr .root ≤ x → x < roleAddr .root + aknanoTufMetadataMaxSize → m' x = m x

/-- The text that a fallback writes over the root. -/
def provisionedRoot (m : Mem) (targetBuffer : List Byte) : List Byte :=
  let buf := loaded m aknanoFlashOffTufRootProvisioning targetBuffer
  buf.take (plainLength buf)

/-- A write that no fault concerns. -/
theorem writeLocalFile_run {role : TufRole} (hknown : role ≠ .other) {data : List Byte}
    (hlen : data.length ≤ aknanoTufMetadataMaxSize) {f : Flash}
    (hfaults : ∀ n, f.clock ≤ n → o.cut n = false ∧ o.fails n = false) :
    ∃ r f', tufClientWriteLocalFile o role data f = .ok r f' ∧
      f'.mem = written mflashSectorSize f.mem (roleAddr role) data := by
  -- a driver that always works does the same
  let o' : FlashFaults := ⟨fun _ => false, fun _ => false, o.damage⟩
  have halike : AlikeFrom f.clock o o' := fun n hn => ⟨(hfaults n hn).1, (hfaults n hn).2, rfl⟩
  have hsame : tufClientWriteLocalFile o role data f = tufClientWriteLocalFile o' role data f :=
    (sameFrom_writeDataToFlash halike _ _ f le_rfl).1
  have hrel : o'.Reliable := fun _ => ⟨rfl, rfl⟩
  have hspec : wp (tufClientWriteLocalFile o' role data)
      (fun _ f' => f'.mem = written mflashSectorSize f.mem (roleAddr role) data)
      (fun _ _ => False) f :=
    wp_mono (writeLocalFile_spec role hlen f) (fun _ _ h => (h.2 hrel hknown).2)
      fun _ _ h => h.2 hrel
  obtain ⟨r, f', hrun⟩ := hspec.returns
  exact ⟨r, f', hsame.trans hrun, hspec.of_ok hrun⟩

/-- A buffer of whole words is filled. -/
theorem loaded_of_dvd (m : Mem) (offset : Nat) {buf : List Byte} (h : 4 ∣ buf.length) :
    loaded m offset buf = NorFlash.read m (aknanoStorageFlashOffset + offset) buf.length := by
  rw [loaded, Nat.div_mul_cancel h, List.drop_length, List.append_nil]

/-- A buffer too short for a word is left as it is. -/
theorem loaded_short (m : Mem) (offset : Nat) {buf : List Byte} (h : buf.length < 4) :
    loaded m offset buf = buf := by
  rw [loaded, Nat.div_eq_of_lt h]
  rfl

theorem loaded_head (m : Mem) (offset : Nat) {buf : List Byte} (h : 4 ≤ buf.length) :
    (loaded m offset buf).head? = some (m (aknanoStorageFlashOffset + offset)) := by
  obtain ⟨n, hn⟩ : ∃ n, buf.length / 4 * 4 = n + 1 := ⟨buf.length / 4 * 4 - 1, by omega⟩
  rw [loaded, hn, read_succ]
  rfl

theorem provisionedRoot_length_le {m : Mem} {buf : List Byte}
    (hlen : buf.length ≤ aknanoTufMetadataMaxSize) :
    (provisionedRoot m buf).length ≤ aknanoTufMetadataMaxSize := by
  have h := List.length_take_le' (plainLength (loaded m aknanoFlashOffTufRootProvisioning buf))
    (loaded m aknanoFlashOffTufRootProvisioning buf)
  rw [loaded_length] at h
  exact h.trans hlen

/-- The fallback of `tuf_client_read_local_file`. -/
theorem fallback_mem (buf : List Byte) (fileSize : Nat) {f : Flash}
    (hcut : o.cut f.clock = false)
    (hwrites : ∀ n, f.clock + 1 ≤ n → o.cut n = false ∧ o.fails n = false)
    (hlen : buf.length ≤ aknanoTufMetadataMaxSize) :
    (final (do
      let file ← readLocalJsonFile o aknanoFlashOffTufRootProvisioning buf fileSize
      if file.ret = tufSuccess then
        let _ ← tufClientWriteLocalFile o .root (file.targetBuffer.take file.fileSize)
        pure file
      else pure file) f).mem =
      if o.fails f.clock = false ∧
          (loaded f.mem aknanoFlashOffTufRootProvisioning buf).head? = some 0x7B
      then written mflashSectorSize f.mem (roleAddr .root) (provisionedRoot f.mem buf)
      else f.mem := by
  rw [final_bind (readLocalJsonFile_run buf fileSize (by decide) hcut)]
  cases hfails : o.fails f.clock with
  | true => rfl
  | false =>
    rw [if_neg Bool.false_ne_true]
    by_cases hopen : (loaded f.mem aknanoFlashOffTufRootProvisioning buf).head? = some 0x7B
    · rw [localRead_open hopen]
      dsimp only
      rw [if_pos rfl, if_pos ⟨rfl, hopen⟩, take_terminate]
      obtain ⟨r, f', hrun, hmem⟩ := writeLocalFile_run (o := o)
        (show TufRole.root ≠ .other by decide) (provisionedRoot_length_le hlen)
        (f := { f with clock := f.clock + 1 }) hwrites
      exact (congrArg Flash.mem (final_bind hrun)).trans hmem
    · rw [localRead_closed hopen]
      dsimp only
      rw [if_neg (by decide), if_neg fun h => hopen h.2]
      rfl

/-- The contents after the root was read: a failed first read followed by a
second one that finds a file is a write. -/
theorem readLocalFile_root_mem {buf : List Byte} (fileSize : Nat) {f : Flash}
    (hcut : ∀ n, o.cut n = false) (hwrites : ∀ n, f.clock + 2 ≤ n → o.fails n = false)
    (hlen : buf.length ≤ aknanoTufMetadataMaxSize) (hstored : f.mem (roleAddr .root) = 0x7B) :
    (final (tufClientReadLocalFile o .root buf fileSize) f).mem =
      if o.fails f.clock = true ∧ o.fails (f.clock + 1) = false ∧
          (loaded f.mem aknanoFlashOffTufRootProvisioning buf).head? = some 0x7B
      then written mflashSectorSize f.mem (roleAddr .root) (provisionedRoot f.mem buf)
      else f.mem := by
  have hfallback := fun buf' fileSize' => fallback_mem (o := o) buf' fileSize'
    (f := { f with clock := f.clock + 1 }) (hcut _) fun n hn => ⟨hcut n, hwrites n hn⟩
  have hroot : getFlashOffsetForRole .root = ((aknanoFlashOffTufRoleRoot : Nat) : Int) := rfl
  unfold tufClientReadLocalFile
  rw [if_neg (by decide), hroot,
    final_bind (readLocalJsonFile_run buf fileSize (by decide) (hcut f.clock))]
  cases hfails : o.fails f.clock with
  | true =>
    have hneg : (-1 : Int) < 0 := by decide
    rw [if_pos rfl]
    dsimp only
    rw [if_pos hneg, if_pos rfl]
    exact (hfallback buf fileSize hlen).trans (by simp only [true_and])
  | false =>
    rw [if_neg Bool.false_ne_true]
    refine Eq.trans ?_ (if_neg fun h => Bool.false_ne_true h.1).symm
    by_cases hopen : (loaded f.mem aknanoFlashOffTufRoleRoot buf).head? = some 0x7B
    · rw [localRead_open hopen]
      rfl
    · -- the root is there, so it is the buffer that has no room for it
      have hshort : buf.length < 4 := by
        by_contra h
        exact hopen ((loaded_head _ _ (by omega)).trans (congrArg some hstored))
      have hneg : (-1 : Int) < 0 := by decide
      rw [loaded_short _ _ hshort] at hopen ⊢
      rw [localRead_closed hopen]
      dsimp only
      rw [if_pos hneg, if_pos rfl]
      refine (hfallback buf fileSize hlen).trans (if_neg fun h => hopen ?_)
      exact loaded_short f.mem aknanoFlashOffTufRootProvisioning hshort ▸ h.2

/-- **When reading the root keeps it.**  With a root in its region, and reads
that may fail, the region stays as it is if and only if the first read
succeeds, or the second one fails too, or no root was provisioned, or the
region holds the provisioned one already. -/
theorem readLocalFile_rootKept_iff {buf : List Byte} (fileSize : Nat) {f : Flash}
    (hcut : ∀ n, o.cut n = false) (hwrites : ∀ n, f.clock + 2 ≤ n → o.fails n = false)
    (hlen : buf.length ≤ aknanoTufMetadataMaxSize) (hstored : f.mem (roleAddr .root) = 0x7B) :
    RootKept f.mem (final (tufClientReadLocalFile o .root buf fileSize) f).mem ↔
      o.fails f.clock = false ∨ o.fails (f.clock + 1) = true ∨
        (loaded f.mem aknanoFlashOffTufRootProvisioning buf).head? ≠ some 0x7B ∨
        Holds mflashSectorSize f.mem (roleAddr .root) (provisionedRoot f.mem buf) := by
  rw [readLocalFile_root_mem fileSize hcut hwrites hlen hstored]
  split
  · next hbad =>
    obtain ⟨hfirst, hsecond, hopen⟩ := hbad
    -- the write stays in the region, so to keep the region is to keep everything
    have hkept : RootKept f.mem (written mflashSectorSize f.mem (roleAddr .root)
          (provisionedRoot f.mem buf)) ↔
        written mflashSectorSize f.mem (roleAddr .root) (provisionedRoot f.mem buf) = f.mem := by
      have hround : roundUp mflashSectorSize (provisionedRoot f.mem buf).length
          ≤ aknanoTufMetadataMaxSize :=
        roundUp_le (by decide) (by decide) (provisionedRoot_length_le hlen)
      have hframe : SameOutside (roleAddr .root) (roleAddr .root + aknanoTufMetadataMaxSize) f.mem
          (written mflashSectorSize f.mem (roleAddr .root) (provisionedRoot f.mem buf)) :=
        .written (by decide) le_rfl (by omega)
      constructor
      · intro h
        funext x
        by_cases hx : roleAddr .root ≤ x ∧ x < roleAddr .root + aknanoTufMetadataMaxSize
        · exact h x hx.1 hx.2
        · exact hframe x (by omega)
      · intro h x _ _
        rw [h]
    rw [hkept, written_eq_self_iff]
    constructor
    · exact fun h => Or.inr (Or.inr (Or.inr h))
    · rintro (h | h | h | h)
      · rw [hfirst] at h
        cases h
      · rw [hsecond] at h
        cases h
      · exact absurd hopen h
      · exact h
  · next hgood =>
    refine ⟨fun _ => ?_, fun _ _ _ _ => rfl⟩
    by_contra h
    push Not at h
    obtain ⟨hfirst, hsecond, hopen, -⟩ := h
    exact hgood ⟨by simpa using hfirst, by simpa using hsecond, hopen⟩

/-- Two roots of two bytes: the provisioned one and the one of the role. -/
def Flash.twoRoots : Flash where
  mem x :=
    if x = rootProvisioningAddr ∨ x = roleAddr .root then 0x7B
    else if x = rootProvisioningAddr + 1 then 0x61
    else if x = roleAddr .root + 1 then 0x62
    else 0xFF
  calls := []
  clock := 0

/-- The calls of which this holds fail, with no damage to speak of. -/
def FlashFaults.failing (fails : Nat → Bool) : FlashFaults :=
  ⟨fun _ => false, fails, fun _ _ => 0xFF⟩

/-- Two failed reads do no harm. -/
theorem readLocalFile_rootKept_bothFail :
    RootKept Flash.twoRoots.mem
      (final (tufClientReadLocalFile (.failing fun n => n < 2) .root
        (List.replicate aknanoTufMetadataMaxSize 0) 0) .twoRoots).mem :=
  (readLocalFile_rootKept_iff 0 (fun _ => rfl) (fun n hn => decide_eq_false (Nat.not_lt.mpr hn))
    (by rw [List.length_replicate]) (by decide)).mpr (Or.inr (Or.inl rfl))

/-- One failed read replaces the root by the provisioned one. -/
theorem readLocalFile_rootLost :
    Flash.twoRoots.mem (roleAddr .root) = 0x7B ∧
      ¬ RootKept Flash.twoRoots.mem
        (final (tufClientReadLocalFile (.failing fun n => n = 0) .root
          (List.replicate aknanoTufMetadataMaxSize 0) 0) .twoRoots).mem := by
  have hstored : Flash.twoRoots.mem (roleAddr .root) = 0x7B := by decide
  have hwrites : ∀ n, Flash.twoRoots.clock + 2 ≤ n →
      (FlashFaults.failing fun n => n = 0).fails n = false := fun n hn =>
    decide_eq_false fun h => by
      rw [h] at hn
      exact absurd hn (by decide)
  have hlen : (List.replicate aknanoTufMetadataMaxSize (0 : Byte)).length
      = aknanoTufMetadataMaxSize := List.length_replicate ..
  -- the provisioned text is two bytes long
  have hloaded : loaded Flash.twoRoots.mem aknanoFlashOffTufRootProvisioning
      (List.replicate aknanoTufMetadataMaxSize 0)
      = [0x7B, 0x61] ++ NorFlash.read Flash.twoRoots.mem (rootProvisioningAddr + 2) 16382 := by
    have hdvd : 4 ∣ aknanoTufMetadataMaxSize := by decide
    rw [loaded_of_dvd _ _ (hlen.symm ▸ hdvd), hlen]
    exact read_add Flash.twoRoots.mem rootProvisioningAddr 2 16382
  have hplain : plainLength ([0x7B, 0x61] ++
      NorFlash.read Flash.twoRoots.mem (rootProvisioningAddr + 2) 16382) = 2 := by
    apply (plainLength_append_eq_iff (by decide) (by simp)).mpr
    exact ⟨_, _, read_succ _ _ 16381, fun _ => by decide⟩
  have htext : provisionedRoot Flash.twoRoots.mem (List.replicate aknanoTufMetadataMaxSize 0)
      = [0x7B, 0x61] := by
    rw [provisionedRoot, hloaded, hplain]
    rfl
  refine ⟨hstored, fun h => ?_⟩
  have hbyte := h (roleAddr .root + 1) (by omega) (by decide)
  rw [readLocalFile_root_mem 0 (fun _ => rfl) hwrites hlen.le hstored, htext, hloaded] at hbyte
  exact absurd hbyte (by decide)

/-! ### The region of the provisioned root -/

/-- Fetching the root: what is taken for it is the body of the reply. -/
theorem fetchRoot_spec (s : Settings) (n : Nat) (w : World) :
    wp (tufClientFetchFile p e s (ascii "1.root.json") n)
      (fun r w' => w'.flash = w.flash ∧
        (∀ body, r = .success body → body = (e.reply w.tick (rootRequest p s)).bytes) ∧
        ((e.reply w.tick (rootRequest p s)).Accepted n →
          r = .success (e.reply w.tick (rootRequest p s)).bytes))
      (fun _ w' => w'.flash = w.flash ∧ e.cut w.tick = true) w := by
  have hurl : printed 300 (ascii "/repo/" ++ ascii "1.root.json") = ascii "/repo/1.root.json" := by
    decide
  have hrequest : aknanoSendHttpRequest p e (ascii "GET") (ascii "/repo/1.root.json") [] s
      = aknanoMtlsSendHttpRequest e (rootRequest p s) := aknanoSendHttpRequest_eq ..
  rw [tufClientFetchFile, hurl, hrequest, wp_bind]
  refine wp_mono (mtlsSendHttpRequest_ascii rfl) ?_ fun _ w' hE => ⟨by rw [hE.2], hE.1⟩
  rintro reply w' ⟨rfl, hw'⟩
  rw [wp_pure, hw']
  refine ⟨rfl, fun body hbody => ?_, fun haccepted => ?_⟩
  · split at hbody
    · split at hbody
      · split at hbody
        · cases hbody
        · cases hbody
          rfl
      · cases hbody
    · cases hbody
  · rw [if_pos haccepted.passed, if_pos haccepted.code, if_neg (not_lt.mpr haccepted.fits)]

theorem final_onFlash {α : Type} {x : FlashM α} {w : World} :
    (final (onFlash x) w).flash = final x w.flash := by
  unfold final onFlash zoom
  rcases x w.flash with ⟨a, f⟩ | ⟨h, f⟩ <;> rfl

/-- Writing what was fetched to the region of the provisioned root. -/
theorem writeRoot_spec {data : List Byte} (hlen : data.length ≤ aknanoImageDownloadBufferLength)
    (f : Flash) :
    wp (aknanoWriteDataToStorage o aknanoFlashOffTufRootProvisioning data)
      (fun _ f' => SameOutside rootProvisioningAddr
          (rootProvisioningAddr + roundUp mflashSectorSize data.length) f.mem f'.mem ∧
        (o.Reliable → f'.mem = written mflashSectorSize f.mem rootProvisioningAddr data))
      (fun _ f' => SameOutside rootProvisioningAddr
          (rootProvisioningAddr + roundUp mflashSectorSize data.length) f.mem f'.mem ∧
        ¬ o.Reliable) f := by
  have hsec : mflashSectorSize = 4096 := rfl
  have haddr : int32 (((aknanoStorageFlashOffset : Nat) : Int)
      + (aknanoFlashOffTufRootProvisioning : Nat)) = (rootProvisioningAddr : Nat) := by decide
  have hbuf : aknanoImageDownloadBufferLength = 17408 := rfl
  have hlow : rootProvisioningAddr < 1073741824 := by decide
  have hround := roundUp_lt (show 0 < mflashSectorSize by decide) data.length
  rw [aknanoWriteDataToStorage, haddr]
  refine wp_mono (writeDataToFlash_spec (by omega) f) ?_ ?_
  · rintro r f' ⟨ht, -, -, hok, hrel⟩
    exact ⟨ht.frame, fun ho => (hok (hrel ho (by decide))).1⟩
  · rintro h f' ⟨ht, -, hrel⟩
    exact ⟨ht.frame, hrel⟩

/-- The contents after provisioning, on a device that works. -/
theorem provisionTufRoot_mem (hrel : e.faults.Reliable) (dataExceedsBufferSize : Int)
    (s : Settings) (ucUserBuffer : CharArray aknanoImageDownloadBufferLength) {w : World}
    (hcut : e.cut w.tick = false)
    (hreply : (e.reply w.tick (rootRequest p s)).Accepted aknanoImageDownloadBufferLength) :
    (final (aknanoProvisionTufRoot p e dataExceedsBufferSize s ucUserBuffer) w).flash.mem =
      let body := (e.reply w.tick (rootRequest p s)).bytes
      if w.flash.mem rootProvisioningAddr = 0x7B ∨ body.head? ≠ some 0x7B ∨ body.length < 100
      then w.flash.mem
      else written mflashSectorSize w.flash.mem rootProvisioningAddr body := by
  have hlen := ucUserBuffer.length_eq
  have hread : onFlash (readLocalJsonFile e.faults aknanoFlashOffTufRootProvisioning
      ucUserBuffer.bytes 0) w
      = .ok (localRead 0 (loaded w.flash.mem aknanoFlashOffTufRootProvisioning
          ucUserBuffer.bytes)) { w with flash := { w.flash with clock := w.flash.clock + 1 } } := by
    rw [onFlash, zoom, readLocalJsonFile_run _ _ (by decide) (hrel _).1, (hrel _).2]
    rfl
  have hhead := loaded_head w.flash.mem aknanoFlashOffTufRootProvisioning
    (show 4 ≤ ucUserBuffer.bytes.length by rw [hlen]; decide)
  unfold aknanoProvisionTufRoot
  rw [final_bind hread]
  by_cases hthere : w.flash.mem rootProvisioningAddr = 0x7B
  · rw [localRead_open (hhead.trans (congrArg some hthere)), if_pos rfl, if_pos (Or.inl hthere)]
    rfl
  · have hclosed : (loaded w.flash.mem aknanoFlashOffTufRootProvisioning
        ucUserBuffer.bytes).head? ≠ some 0x7B :=
      fun h => hthere (Option.some.inj (hhead.symm.trans h))
    have hspec := fetchRoot_spec (p := p) (e := e) s aknanoImageDownloadBufferLength
      { w with flash := { w.flash with clock := w.flash.clock + 1 } }
    obtain ⟨r, w', hfetch⟩ := (wp_mono hspec (fun _ _ h => h) fun _ _ hE =>
      Bool.false_ne_true (hcut.symm.trans hE.2)).returns
    obtain ⟨hflash, -, hsuccess⟩ := hspec.of_ok hfetch
    obtain rfl := hsuccess hreply
    have hfail : (-1 : Int) ≠ tufSuccess := by decide
    rw [localRead_closed hclosed]
    dsimp only at hfetch ⊢
    rw [if_neg hfail, final_bind hfetch]
    dsimp only
    have hfits := hreply.fits
    generalize (e.reply w.tick (rootRequest p s)).bytes = body at hfits ⊢
    by_cases hno : body.head? ≠ some 0x7B ∨ body.length < 100
    · rw [if_pos hno, if_pos (Or.inr hno), final_pure, hflash]
    · rw [if_neg hno, if_neg (fun h => h.elim hthere hno), final_onFlash, hflash]
      exact (wp_mono (writeRoot_spec hfits _) (fun _ _ h => h.2 hrel) fun _ _ hE =>
        absurd hrel hE.2 : wp _ (fun _ f' => f'.mem = _) (fun _ f' => f'.mem = _) _).final

/-- Of a longer file, what reaches into the next region stands there already. -/
theorem sameOutside_written_iff {m : Mem} {body : List Byte}
    (hlong : aknanoTufMetadataMaxSize < body.length) :
    SameOutside rootProvisioningAddr (roleAddr .root) m
        (written mflashSectorSize m rootProvisioningAddr body) ↔
      Holds mflashSectorSize m (roleAddr .root) (body.drop aknanoTufMetadataMaxSize) := by
  rw [← written_eq_self_iff, ← rootProvisioningAddr_add]
  have htail : ∀ x, rootProvisioningAddr + aknanoTufMetadataMaxSize ≤ x →
      written mflashSectorSize m rootProvisioningAddr body x
        = written mflashSectorSize m (rootProvisioningAddr + aknanoTufMetadataMaxSize)
            (body.drop aknanoTufMetadataMaxSize) x := fun x hx =>
    written_drop (by decide) (by decide) hlong.le hx
  constructor
  · intro h
    funext x
    by_cases hx : rootProvisioningAddr + aknanoTufMetadataMaxSize ≤ x
    · rw [← htail x hx]
      exact h x (Or.inr hx)
    · rw [written, if_neg (by omega), if_neg (by omega)]
  · rintro h x (hx | hx)
    · rw [written, if_neg (by omega), if_neg (by omega)]
    · rw [htail x hx, h]

/-- **When provisioning stays in its region.**  For every reply that is taken
for the root: on a device that works, if and only if a root is there already,
or the reply is none, or it is no longer than the region, or what is left of it
stands in the next region already.  A reply no longer than the region is safe
on any device. -/
theorem provisionTufRoot_inRegion_iff (dataExceedsBufferSize : Int) (s : Settings)
    (ucUserBuffer : CharArray aknanoImageDownloadBufferLength) (w : World)
    (hreply : (e.reply w.tick (rootRequest p s)).Accepted aknanoImageDownloadBufferLength) :
    let body := (e.reply w.tick (rootRequest p s)).bytes
    let after := final (aknanoProvisionTufRoot p e dataExceedsBufferSize s ucUserBuffer) w
    (e.faults.Reliable → e.cut w.tick = false →
      (SameOutside rootProvisioningAddr (roleAddr .root) w.flash.mem after.flash.mem ↔
        w.flash.mem rootProvisioningAddr = 0x7B ∨ body.head? ≠ some 0x7B ∨
          body.length ≤ aknanoTufMetadataMaxSize ∨
          Holds mflashSectorSize w.flash.mem (roleAddr .root)
            (body.drop aknanoTufMetadataMaxSize))) ∧
    (body.length ≤ aknanoTufMetadataMaxSize →
      SameOutside rootProvisioningAddr (roleAddr .root) w.flash.mem after.flash.mem) := by
  intro body after
  have hmax : aknanoTufMetadataMaxSize = 16384 := rfl
  refine ⟨fun hrel hcut => ?_, fun hshort => ?_⟩
  · have hmem : after.flash.mem =
        if w.flash.mem rootProvisioningAddr = 0x7B ∨ body.head? ≠ some 0x7B ∨ body.length < 100
        then w.flash.mem
        else written mflashSectorSize w.flash.mem rootProvisioningAddr body :=
      provisionTufRoot_mem hrel dataExceedsBufferSize s ucUserBuffer hcut hreply
    rw [hmem]
    split
    · next hno =>
      refine ⟨fun _ => ?_, fun _ => SameOutside.refl _⟩
      rcases hno with h | h | h
      · exact Or.inl h
      · exact Or.inr (Or.inl h)
      · exact Or.inr (Or.inr (Or.inl (by rw [hmax]; omega)))
    · next hwrite =>
      push Not at hwrite
      obtain ⟨hnone, hopen, -⟩ := hwrite
      by_cases hlong : aknanoTufMetadataMaxSize < body.length
      · rw [sameOutside_written_iff hlong]
        constructor
        · exact fun h => Or.inr (Or.inr (Or.inr h))
        · rintro (h | h | h | h)
          · exact absurd h hnone
          · exact absurd hopen h
          · omega
          · exact h
      · have hround := roundUp_le (show 0 < mflashSectorSize by decide)
          (b := aknanoTufMetadataMaxSize) (by decide) (not_lt.mp hlong)
        refine ⟨fun _ => Or.inr (Or.inr (Or.inl (not_lt.mp hlong))), fun _ => ?_⟩
        exact .written (by decide) le_rfl (by rw [← rootProvisioningAddr_add]; omega)
  · -- whatever fails, what is written is this reply, and it fits
    have hround := roundUp_le (show 0 < mflashSectorSize by decide)
      (b := aknanoTufMetadataMaxSize) (by decide) hshort
    have hregion : rootProvisioningAddr + roundUp mflashSectorSize body.length
        ≤ roleAddr .root := by
      rw [← rootProvisioningAddr_add]
      omega
    refine (?_ : wp (aknanoProvisionTufRoot p e dataExceedsBufferSize s ucUserBuffer)
      (fun _ w' => SameOutside rootProvisioningAddr (roleAddr .root) w.flash.mem w'.flash.mem)
      (fun _ w' => SameOutside rootProvisioningAddr (roleAddr .root) w.flash.mem w'.flash.mem)
      w).final
    have hsame : ∀ {w' : World}, w'.flash.mem = w.flash.mem →
        SameOutside rootProvisioningAddr (roleAddr .root) w.flash.mem w'.flash.mem := by
      intro w' h
      rw [h]
    rw [aknanoProvisionTufRoot, wp_bind, onFlash, wp_zoom]
    refine wp_mono (readLocalJsonFile_spec (by decide) w.flash) ?_ fun _ _ hE => hsame hE.1
    rintro file f₁ ⟨hmem₁, -⟩
    split
    · exact (wp_pure _).mpr (hsame hmem₁)
    · rw [wp_bind]
      refine wp_mono (fetchRoot_spec ..) ?_ fun _ w₂ hE =>
        hsame ((congrArg Flash.mem hE.1).trans hmem₁)
      rintro r w₂ ⟨hflash, hbody, -⟩
      have hmem₂ : w₂.flash.mem = w.flash.mem := (congrArg Flash.mem hflash).trans hmem₁
      split
      · obtain rfl := hbody _ rfl
        split
        · exact (wp_pure _).mpr (hsame hmem₂)
        · rw [onFlash, wp_zoom, ← hmem₂]
          refine wp_mono (writeRoot_spec hreply.fits w₂.flash) ?_ ?_
          · exact fun _ _ h => h.1.mono le_rfl hregion
          · exact fun _ _ h => h.1.mono le_rfl hregion
      · exact (wp_pure _).mpr (hsame hmem₂)
      · split
        · exact (wp_pure _).mpr (hsame hmem₂)
        · exact (wp_pure _).mpr (hsame hmem₂)
      · exact (wp_pure _).mpr (hsame hmem₂)

/-- A root of this many bytes. -/
def rootOfLength (n : Nat) (h : n < aknanoImageDownloadBufferLength) : Reply where
  passed := true
  httpCode := 200
  body := some (0x7B :: List.replicate n 0x61)
  fits := by
    rintro bytes h'
    obtain rfl := Option.mem_some.mp h'
    rw [List.length_cons, List.length_replicate]
    exact h

theorem rootOfLength_bytes {n : Nat} (h : n < aknanoImageDownloadBufferLength) :
    (rootOfLength n h).bytes = 0x7B :: List.replicate n 0x61 := rfl

theorem rootOfLength_length {n : Nat} (h : n < aknanoImageDownloadBufferLength) :
    (rootOfLength n h).bytes.length = n + 1 := by
  rw [rootOfLength_bytes, List.length_cons, List.length_replicate]

theorem rootOfLength_accepted {n : Nat} (h : n < aknanoImageDownloadBufferLength) :
    (rootOfLength n h).Accepted aknanoImageDownloadBufferLength :=
  ⟨rfl, show 200 / 100 = 2 by decide, (rootOfLength n h).bytes_length⟩

/-- A server that sends it. -/
def Env.servingRoot (n : Nat) (h : n < aknanoImageDownloadBufferLength) : Env :=
  { Env.sample with reply := fun _ _ => rootOfLength n h }

/-- A root of two hundred bytes stays in its region. -/
theorem provisionTufRoot_inRegion_short :
    SameOutside rootProvisioningAddr (roleAddr .root) (World.factory 5).flash.mem
      (final (aknanoProvisionTufRoot .sample (.servingRoot 199 (by decide)) (-10) .zero (.zero _))
        (.factory 5)).flash.mem :=
  (provisionTufRoot_inRegion_iff (p := .sample) (e := .servingRoot 199 (by decide)) (-10) .zero
    (.zero _) (.factory 5) (rootOfLength_accepted (by decide))).2
    ((rootOfLength_length (by decide)).le.trans (by decide))

/-- A root longer than the region starts the next one with a byte of its own. -/
theorem provisionTufRoot_overrun_of_length {n : Nat} (hlong : aknanoTufMetadataMaxSize ≤ n)
    (h : n < aknanoImageDownloadBufferLength) :
    (final (aknanoProvisionTufRoot .sample (.servingRoot n h) (-10) .zero (.zero _))
      (.factory 5)).flash.mem (roleAddr .root) = 0x61 := by
  have hmax : aknanoTufMetadataMaxSize = 16384 := rfl
  have hmem := provisionTufRoot_mem (p := .sample) (e := .servingRoot n h)
    FlashFaults.reliable_spec (-10) .zero (.zero _) (w := .factory 5) rfl (rootOfLength_accepted h)
  have hroot : ((Env.servingRoot n h).reply (World.factory 5).tick
      (rootRequest .sample .zero)).bytes = (rootOfLength n h).bytes := rfl
  have hlen := rootOfLength_length h
  dsimp only at hmem
  rw [hroot] at hmem
  -- it is written, as nothing was there
  have hwrite : ¬ ((World.factory 5).flash.mem rootProvisioningAddr = 0x7B ∨
      (rootOfLength n h).bytes.head? ≠ some 0x7B ∨ (rootOfLength n h).bytes.length < 100) := by
    rintro (h | h | h)
    · exact absurd h (by decide)
    · exact h rfl
    · omega
  rw [hmem, if_neg hwrite, ← rootProvisioningAddr_add, written, if_pos (by omega), hmax,
    Nat.add_sub_cancel_left, rootOfLength_bytes, List.getD_cons_succ]
  rw [List.getD_eq_getElem?_getD, List.getElem?_replicate, if_pos (by omega), Option.getD_some]

/-- One of 16385 bytes does not. -/
theorem provisionTufRoot_overrun :
    ¬ SameOutside rootProvisioningAddr (roleAddr .root) (World.factory 5).flash.mem
      (final (aknanoProvisionTufRoot .sample (.servingRoot 16384 (by decide)) (-10) .zero
        (.zero _)) (.factory 5)).flash.mem := by
  intro h
  have hbyte := h (roleAddr .root) (Or.inr le_rfl)
  rw [provisionTufRoot_overrun_of_length (by decide)] at hbyte
  exact absurd hbyte (by decide)

end AktualizrNano
