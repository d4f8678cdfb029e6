/-
AktualizrNano/TufClient.lean

The local store of TUF metadata, `aknano_tuf_client.c`: one region of four
sectors for each role, written by `tuf_client_write_local_file` and read by
`tuf_client_read_local_file`.

The length of a file is not stored.  The reader takes the file to end at the
first erased byte, and forces the last byte of its buffer to NUL.  A write
erases only the sectors it needs, so what follows a file that fills its last
sector is whatever an earlier, longer file of that role left there.

Main results: `writeLocalFile_spec` and `readLocalFile_spec` (the store touches
its own region only, whatever the device does), and
`tufClientReadLocalFile_readsBack_iff`, the exact condition under which a file
reads back as it was last written.
-/
import AktualizrNano.FlashStorage

namespace AktualizrNano

open CLib NorFlash Outcome

/-! ### The callbacks -/

/-- `enum tuf_role`; `other` is any value that has no region. -/
inductive TufRole
  | root
  | timestamp
  | snapshot
  | targets
  | other
  deriving DecidableEq

def getFlashOffsetForRole : TufRole → Int
  | .root => aknanoFlashOffTufRoleRoot
  | .timestamp => aknanoFlashOffTufRoleTimestamp
  | .snapshot => aknanoFlashOffTufRoleSnapshot
  | .targets => aknanoFlashOffTufRoleTargets
  | .other => -1

def tufSuccess : Int := 0

/-- What a reader leaves: its result, `target_buffer` and `*file_size`. -/
structure LocalRead where
  ret : Int
  targetBuffer : List Byte
  fileSize : Nat

/-- The first erased byte becomes a NUL. -/
def cutAtErased : List Byte → List Byte
  | [] => []
  | b :: bs => if b = 0xFF then 0 :: bs else b :: cutAtErased bs

/-- The buffer made a C string: cut at the first erased byte, or at its end. -/
def terminate (targetBuffer : List Byte) : List Byte :=
  (cutAtErased targetBuffer).set (targetBuffer.length - 1) 0

variable (o : FlashFaults)

def readLocalJsonFile (initialOffset : Int) (targetBuffer : List Byte) (fileSize : Nat) :
    FlashM LocalRead := do
  let (ret, targetBuffer) ← aknanoReadFlashStorage o initialOffset targetBuffer
  if ret < 0 then pure ⟨ret, targetBuffer, fileSize⟩
  else if targetBuffer.head? ≠ some 0x7B then pure ⟨-1, targetBuffer, fileSize⟩
  else
    let text := terminate targetBuffer
    pure ⟨tufSuccess, text, strnlen text text.length⟩

def tufClientWriteLocalFile (role : TufRole) (data : List Byte) : FlashM Int :=
  aknanoWriteDataToStorage o (getFlashOffsetForRole role) data

def tufClientReadLocalFile (role : TufRole) (targetBuffer : List Byte) (fileSize : Nat) :
    FlashM LocalRead := do
  let initialOffset := getFlashOffsetForRole role
  if initialOffset < 0 then pure ⟨-1, targetBuffer, fileSize⟩
  else
    let file ← readLocalJsonFile o initialOffset targetBuffer fileSize
    if file.ret < 0 then
      if role = .root then
        -- fall back to the provisioned root, and keep a copy of it
        let file ← readLocalJsonFile o aknanoFlashOffTufRootProvisioning
          file.targetBuffer file.fileSize
        if file.ret = tufSuccess then
          let _ ← tufClientWriteLocalFile o role (file.targetBuffer.take file.fileSize)
          pure file
        else pure file
      else pure { file with ret := -1 }
    else pure { file with ret := tufSuccess }

/-! ### The regions -/

/-- Where the file of a role starts. -/
def roleAddr (role : TufRole) : Nat :=
  uint32 (int32 (aknanoStorageFlashOffset + getFlashOffsetForRole role))

/-- The regions of the four roles lie in `[tufRolesLo, tufRolesHi)`. -/
abbrev tufRolesLo : Nat := aknanoStorageFlashOffset + aknanoFlashOffTufRoleRoot
abbrev tufRolesHi : Nat :=
  aknanoStorageFlashOffset + aknanoFlashOffTufRoleTargets + aknanoTufMetadataMaxSize

theorem int32_role (role : TufRole) :
    int32 (aknanoStorageFlashOffset + getFlashOffsetForRole role) = roleAddr role := by
  cases role <;> rfl

/-- A region starts at a sector boundary and lies within the store. -/
theorem roleAddr_region {role : TufRole} (h : role ≠ .other) :
    mflashSectorSize ∣ roleAddr role ∧ tufRolesLo ≤ roleAddr role ∧
      roleAddr role + aknanoTufMetadataMaxSize ≤ tufRolesHi := by
  cases role <;> first | exact absurd rfl h | decide

theorem roleAddr_other : ¬ mflashSectorSize ∣ roleAddr .other := by decide

/-- The regions of two roles are disjoint. -/
theorem roleAddr_disjoint {r s : TufRole} (hr : r ≠ .other) (hs : s ≠ .other) (h : r ≠ s) :
    roleAddr r + aknanoTufMetadataMaxSize ≤ roleAddr s ∨
      roleAddr s + aknanoTufMetadataMaxSize ≤ roleAddr r := by
  cases r <;> cases s <;> first | exact absurd rfl hr | exact absurd rfl hs
                                | exact absurd rfl h | decide

/-- Only the region of the role has changed, and nothing at all for a role that
has none. -/
structure InRegion (role : TufRole) (m m' : Mem) : Prop where
  frame : SameOutside (roleAddr role) (roleAddr role + aknanoTufMetadataMaxSize) m m'
  unknown : role = .other → m' = m

@[refl] theorem InRegion.refl (role : TufRole) (m : Mem) : InRegion role m m :=
  ⟨SameOutside.refl m, fun _ => rfl⟩

/-- The regions together. -/
theorem InRegion.roles {role : TufRole} {m m' : Mem} (h : InRegion role m m') :
    SameOutside tufRolesLo tufRolesHi m m' := by
  by_cases hother : role = .other
  · rw [h.unknown hother]
  · obtain ⟨-, hlo, hhi⟩ := roleAddr_region hother
    exact h.frame.mono hlo hhi

variable {o}

/-- Whatever the device does, a write stays in the region of its role. -/
theorem writeLocalFile_spec (role : TufRole) {data : List Byte}
    (hlen : data.length ≤ aknanoTufMetadataMaxSize) (f : Flash) :
    wp (tufClientWriteLocalFile o role data)
      (fun r f' => InRegion role f.mem f'.mem ∧
        (o.Reliable → role ≠ .other →
          r = 0 ∧ f'.mem = written mflashSectorSize f.mem (roleAddr role) data))
      (fun _ f' => InRegion role f.mem f'.mem ∧ ¬ o.Reliable) f := by
  have hround : roundUp mflashSectorSize data.length ≤ aknanoTufMetadataMaxSize :=
    roundUp_le (by decide) (by decide) hlen
  have hsmall : roleAddr role ≤ tufRolesHi := by
    cases role <;> decide
  -- either the touched sectors are the region's, or the address is misaligned
  have hstay : ∀ {f' : Flash}, Touched (roleAddr role) data.length f.mem f.calls f' →
      (¬ mflashSectorSize ∣ roleAddr role → f'.mem = f.mem) →
      InRegion role f.mem f'.mem := by
    intro f' ht hkept
    refine ⟨ht.frame.mono le_rfl (by omega), ?_⟩
    rintro rfl
    exact hkept roleAddr_other
  have hfit : roleAddr role + roundUp mflashSectorSize data.length < 2147483648 := by
    have : tufRolesHi + aknanoTufMetadataMaxSize < 2147483648 := by decide
    omega
  rw [tufClientWriteLocalFile, aknanoWriteDataToStorage, int32_role]
  refine wp_mono (writeDataToFlash_spec hfit f) ?_ ?_
  · rintro r f' ⟨ht, hkept, -, hok, hrel⟩
    refine ⟨hstay ht hkept, fun ho hr => ?_⟩
    have h0 := hrel ho (roleAddr_region hr).1
    exact ⟨h0, (hok h0).1⟩
  · rintro e f' ⟨ht, hkept, hrel⟩
    exact ⟨hstay ht hkept, hrel⟩

/-! ### Where a text ends -/

/-- A byte the reader takes for part of the text. -/
def isPlain (b : Byte) : Bool := b ≠ 0 && b ≠ 0xFF

theorem not_isPlain_iff {b : Byte} : ¬ isPlain b ↔ b = 0x00 ∨ b = 0xFF := by
  simp only [isPlain, Bool.and_eq_true, decide_eq_true_eq, ne_eq, not_and_or, not_not]

/-- The length of the text in a buffer: plain bytes, short of the last one. -/
def plainLength (buf : List Byte) : Nat :=
  ((buf.take (buf.length - 1)).takeWhile isPlain).length

@[simp] theorem cutAtErased_length (buf : List Byte) : (cutAtErased buf).length = buf.length := by
  induction buf with
  | nil => rfl
  | cons b bs ih =>
    rw [cutAtErased]
    split <;> simp [ih]

@[simp] theorem terminate_length (buf : List Byte) : (terminate buf).length = buf.length := by
  simp [terminate]

theorem plainLength_cons (b b' : Byte) (bs : List Byte) :
    plainLength (b :: b' :: bs) = if isPlain b then plainLength (b' :: bs) + 1 else 0 := by
  simp only [plainLength, List.length_cons, Nat.add_sub_cancel, List.take_succ_cons,
    List.takeWhile_cons]
  split <;> simp

theorem plainLength_le (buf : List Byte) : plainLength buf ≤ buf.length - 1 := by
  have h := (List.takeWhile_prefix (p := isPlain) (l := buf.take (buf.length - 1))).length_le
  rw [List.length_take] at h
  exact le_trans h (min_le_left ..)

theorem terminate_cons (b b' : Byte) (bs : List Byte) :
    terminate (b :: b' :: bs)
      = if b = 0xFF then 0 :: (b' :: bs).set bs.length 0 else b :: terminate (b' :: bs) := by
  rw [terminate, cutAtErased]
  split <;> rfl

/-- **The reader's idea of a text**: the size it reports is the number of
plain bytes at the front of its buffer. -/
theorem strnlen_terminate (buf : List Byte) :
    strnlen (terminate buf) buf.length = plainLength buf := by
  induction buf with
  | nil => rfl
  | cons b bs ih =>
    rcases bs with - | ⟨b', bs⟩
    · -- the only byte is overwritten
      rw [terminate, cutAtErased]
      split <;> rfl
    · rw [plainLength_cons, terminate_cons]
      by_cases hff : b = 0xFF
      · subst hff
        rfl
      · by_cases h0 : b = 0
        · subst h0
          rfl
        · have hplain : isPlain b = true := by simpa [isPlain] using And.intro h0 hff
          have hnul : decide (b ≠ 0) = true := decide_eq_true h0
          rw [if_neg hff, if_pos hplain, ← ih]
          simp only [strnlen, List.length_cons, List.take_succ_cons, List.takeWhile_cons, hnul,
            if_true]

/-- The bytes of the text are not changed. -/
theorem take_terminate (buf : List Byte) :
    (terminate buf).take (plainLength buf) = buf.take (plainLength buf) := by
  induction buf with
  | nil => rfl
  | cons b bs ih =>
    rcases bs with - | ⟨b', bs⟩
    · rfl
    · rw [plainLength_cons, terminate_cons]
      by_cases hplain : isPlain b = true
      · have hff : b ≠ 0xFF := by rintro rfl; exact absurd hplain (by decide)
        rw [if_pos hplain, if_neg hff, List.take_succ_cons, List.take_succ_cons, ih]
      · rw [if_neg hplain, List.take_zero, List.take_zero]

/-- A clean text at the front of a buffer is read as it is if and only if it
leaves room for the NUL and a byte that is not plain follows it, or the NUL
itself does. -/
theorem plainLength_append_eq_iff {text rest : List Byte} (hclean : ∀ b ∈ text, isPlain b)
    (hne : text ++ rest ≠ []) :
    plainLength (text ++ rest) = text.length ↔
      ∃ b bs, rest = b :: bs ∧ (bs ≠ [] → ¬ isPlain b) := by
  induction text with
  | nil =>
    rcases rest with - | ⟨b, - | ⟨b', bs⟩⟩
    · exact absurd rfl hne
    · simp [plainLength]
    · simp [plainLength_cons]
  | cons b text ih =>
    have hb : isPlain b = true := hclean b (List.mem_cons_self ..)
    rcases htail : text ++ rest with - | ⟨b', tail⟩
    · obtain ⟨rfl, rfl⟩ := List.append_eq_nil_iff.mp htail
      simp [plainLength]
    · rw [List.cons_append, htail, plainLength_cons, if_pos hb, ← htail, List.length_cons,
        Nat.add_right_cancel_iff]
      exact ih (fun c hc => hclean c (List.mem_cons_of_mem _ hc)) (by rw [htail]; simp)

/-! ### The reader's contract -/

/-- Reading a region: the device is not changed, and on a reliable device a
region that starts with a brace is delivered as a text. -/
theorem readLocalJsonFile_spec {offset : Nat} {buf : List Byte} {fileSize : Nat}
    (hfit : aknanoStorageFlashOffset + offset < 2147483648) (f : Flash) :
    wp (readLocalJsonFile o offset buf fileSize)
      (fun r f' => f'.mem = f.mem ∧ r.targetBuffer.length = buf.length ∧
        (r.ret = tufSuccess → r.fileSize ≤ buf.length) ∧
        (o.Reliable → 4 ∣ buf.length → buf ≠ [] →
          f.mem (aknanoStorageFlashOffset + offset) = 0x7B →
          r = ⟨tufSuccess,
            terminate (NorFlash.read f.mem (aknanoStorageFlashOffset + offset) buf.length),
            plainLength (NorFlash.read f.mem (aknanoStorageFlashOffset + offset) buf.length)⟩))
      (fun _ f' => f'.mem = f.mem ∧ ¬ o.Reliable) f := by
  rw [readLocalJsonFile, wp_bind]
  refine wp_mono (readFlashStorage_spec hfit f) ?_ fun _ _ hE => ⟨hE.1, hE.2.2⟩
  rintro ⟨ret, buf'⟩ f' ⟨hmem, -, h | ⟨h, hrel⟩⟩
  · obtain ⟨rfl, rfl⟩ := Prod.mk.inj h
    dsimp only
    have hlen : (NorFlash.read f.mem (aknanoStorageFlashOffset + offset) (buf.length / 4 * 4)
        ++ buf.drop (buf.length / 4 * 4)).length = buf.length := by
      have := Nat.div_mul_le_self buf.length 4
      simp; omega
    rw [if_neg (by decide)]
    split
    · -- no opening brace
      next hbrace =>
      rw [wp_pure]
      have hfail : (-1 : Int) ≠ tufSuccess := by decide
      refine ⟨hmem, hlen, fun h => absurd h hfail, fun hrel hdvd hne hopen => ?_⟩
      refine absurd ?_ hbrace
      obtain ⟨n, hn⟩ : ∃ n, buf.length / 4 * 4 = n + 1 := by
        apply Nat.exists_eq_add_one.mpr
        rw [Nat.div_mul_cancel hdvd]
        exact List.length_pos_iff.mpr hne
      rw [hn, NorFlash.read, List.range_succ_eq_map, List.map_cons, List.cons_append,
        List.head?_cons, Nat.add_zero, hopen]
    · rw [wp_pure]
      refine ⟨hmem, by rw [terminate_length, hlen], fun _ => ?_, fun _ hdvd _ _ => ?_⟩
      · rw [terminate_length, strnlen_terminate]
        exact le_trans (plainLength_le _) (by omega)
      · rw [terminate_length, strnlen_terminate, Nat.div_mul_cancel hdvd, List.drop_length,
          List.append_nil]
  · obtain ⟨rfl, rfl⟩ := Prod.mk.inj h
    have hfail : (-1 : Int) ≠ tufSuccess := by decide
    dsimp only
    rw [if_pos (by decide), wp_pure]
    exact ⟨hmem, rfl, fun h => absurd h hfail, fun h => absurd h hrel⟩

/-- Reading a role: only the copy of a provisioned root is ever written. -/
theorem readLocalFile_spec (role : TufRole) {buf : List Byte} {fileSize : Nat}
    (hlen : buf.length ≤ aknanoTufMetadataMaxSize) (f : Flash) :
    wp (tufClientReadLocalFile o role buf fileSize)
      (fun r f' => InRegion role f.mem f'.mem ∧
        (o.Reliable → role ≠ .other → 4 ∣ buf.length → buf ≠ [] → f.mem (roleAddr role) = 0x7B →
          r = ⟨tufSuccess, terminate (NorFlash.read f.mem (roleAddr role) buf.length),
            plainLength (NorFlash.read f.mem (roleAddr role) buf.length)⟩))
      (fun _ f' => InRegion role f.mem f'.mem ∧ ¬ o.Reliable) f := by
  rw [tufClientReadLocalFile]
  by_cases hother : role = .other
  · subst hother
    rw [if_pos (by decide), wp_pure]
    exact ⟨by rfl, fun _ h => absurd rfl h⟩
  obtain ⟨offset, hoffset, haddr, hfit⟩ : ∃ offset : Nat,
      getFlashOffsetForRole role = offset ∧ roleAddr role = aknanoStorageFlashOffset + offset ∧
      aknanoStorageFlashOffset + offset < 2147483648 := by
    cases role <;> first | exact absurd rfl hother | exact ⟨_, rfl, rfl, by decide⟩
  simp only [hoffset, haddr]
  rw [if_neg (by omega), wp_bind]
  refine wp_mono (readLocalJsonFile_spec hfit f) ?_ fun _ _ hE => ⟨by rw [hE.1], hE.2⟩
  rintro file f₁ ⟨hmem₁, hlen₁, -, hfile⟩
  by_cases hret : file.ret < 0
  · -- not there: `file` is not a text, so nothing is promised about it
    have hno : o.Reliable → 4 ∣ buf.length → buf ≠ [] →
        f.mem (aknanoStorageFlashOffset + offset) ≠ 0x7B := by
      intro hrel hdvd hne hopen
      rw [hfile hrel hdvd hne hopen] at hret
      exact absurd hret (show ¬ tufSuccess < 0 by decide)
    rw [if_pos hret]
    by_cases hroot : role = .root
    · rw [if_pos hroot, wp_bind]
      refine wp_mono (readLocalJsonFile_spec (by decide) f₁) ?_
        fun _ _ hE => ⟨by rw [hE.1, hmem₁], hE.2⟩
      rintro file₂ f₂ ⟨hmem₂, hlen₂, hsize₂, -⟩
      by_cases hret₂ : file₂.ret = tufSuccess
      · rw [if_pos hret₂, wp_bind]
        have hdata : (file₂.targetBuffer.take file₂.fileSize).length
            ≤ aknanoTufMetadataMaxSize := by
          rw [List.length_take, hlen₂, hlen₁]
          exact le_trans (min_le_right ..) hlen
        refine wp_mono (writeLocalFile_spec role hdata f₂) ?_ ?_
        · rintro r f₃ ⟨hout, -⟩
          rw [wp_pure, ← hmem₁, ← hmem₂]
          exact ⟨hout, fun hrel _ hdvd hne hopen => absurd (by rw [← hmem₁, ← hmem₂, hopen])
            (hno hrel hdvd hne)⟩
        · rintro e f₃ ⟨hout, hrel⟩
          rw [← hmem₁, ← hmem₂]
          exact ⟨hout, hrel⟩
      · rw [if_neg hret₂, wp_pure, hmem₂, hmem₁]
        exact ⟨by rfl, fun hrel _ hdvd hne hopen => absurd hopen (hno hrel hdvd hne)⟩
    · rw [if_neg hroot, wp_pure, hmem₁]
      exact ⟨by rfl, fun hrel _ hdvd hne hopen => absurd hopen (hno hrel hdvd hne)⟩
  · rw [if_neg hret, wp_pure, hmem₁]
    refine ⟨by rfl, fun hrel _ hdvd hne hopen => ?_⟩
    rw [hfile hrel hdvd hne hopen]

/-! ### Sequences of writes -/

/-- One call of `tuf_client_write_local_file` with a JSON text. -/
structure LocalWrite where
  role : TufRole
  known : role ≠ .other
  content : List Byte
  brace : content.head? = some 0x7B
  clean : ∀ b ∈ content, b ≠ 0x00 ∧ b ≠ 0xFF
  length_le : content.length ≤ aknanoTufMetadataMaxSize

namespace LocalWrite

theorem plain (w : LocalWrite) : ∀ b ∈ w.content, isPlain b := fun b hb => by
  simpa [isPlain] using w.clean b hb

theorem ne_nil (w : LocalWrite) : w.content ≠ [] := by
  intro h
  have := w.brace
  rw [h] at this
  cases this

/-- The sectors the write touches. -/
theorem roundUp_le (w : LocalWrite) :
    roundUp mflashSectorSize w.content.length ≤ aknanoTufMetadataMaxSize :=
  NorFlash.roundUp_le (by decide) (by decide) w.length_le

end LocalWrite

/-- The contents of the device after some writes. -/
def stored (m : Mem) (writes : List LocalWrite) : Mem :=
  writes.foldl (fun m w => written mflashSectorSize m (roleAddr w.role) w.content) m

@[simp] theorem stored_nil (m : Mem) : stored m [] = m := rfl

@[simp] theorem stored_cons (m : Mem) (w : LocalWrite) (ws : List LocalWrite) :
    stored m (w :: ws) = stored (written mflashSectorSize m (roleAddr w.role) w.content) ws := rfl

theorem stored_append (m : Mem) (ws ws' : List LocalWrite) :
    stored m (ws ++ ws') = stored (stored m ws) ws' := List.foldl_append

/-- A byte of a region changes only when a write of that role reaches it. -/
theorem stored_untouched {role : TufRole} (hrole : role ≠ .other) {i : Nat}
    (hi : i < aknanoTufMetadataMaxSize) (m : Mem) (ws : List LocalWrite)
    (h : ∀ w ∈ ws, w.role = role → roundUp mflashSectorSize w.content.length ≤ i) :
    stored m ws (roleAddr role + i) = m (roleAddr role + i) := by
  induction ws generalizing m with
  | nil => rfl
  | cons w ws ih =>
    rw [stored_cons, ih _ fun w' hw' => h w' (List.mem_cons_of_mem _ hw')]
    have hw := w.roundUp_le
    apply SameOutside.written (by decide) le_rfl le_rfl _
    by_cases hrole' : w.role = role
    · have := h w (List.mem_cons_self ..) hrole'
      rw [hrole']
      omega
    · have := roleAddr_disjoint w.known hrole hrole'
      omega

/-- A longer file leaves a plain byte at every sector boundary it covers. -/
theorem stored_leftover {role : TufRole} (hrole : role ≠ .other) {i : Nat}
    (hi : i < aknanoTufMetadataMaxSize) (hsector : mflashSectorSize ∣ i) (m : Mem)
    (ws : List LocalWrite) (h : ∃ w ∈ ws, w.role = role ∧ i < w.content.length) :
    isPlain (stored m ws (roleAddr role + i)) := by
  induction ws generalizing m with
  | nil => obtain ⟨w, hw, -⟩ := h; cases hw
  | cons w ws ih =>
    rw [stored_cons]
    by_cases htail : ∃ w ∈ ws, w.role = role ∧ i < w.content.length
    · exact ih _ htail
    · -- this is the last write that covers the byte
      obtain ⟨w', hw', hrole', hlen'⟩ := h
      rcases List.mem_cons.mp hw' with rfl | hw'
      · rw [stored_untouched hrole hi]
        · rw [written, hrole', if_pos (by omega), Nat.add_sub_cancel_left,
            List.getD_eq_getElem?_getD, List.getElem?_eq_getElem hlen', Option.getD_some]
          exact w'.plain _ (List.getElem_mem hlen')
        · intro v hv hrolev
          by_contra hlt
          refine htail ⟨v, hv, hrolev, ?_⟩
          by_contra hle
          exact hlt (NorFlash.roundUp_le (by decide) hsector (by omega))
      · exact absurd ⟨w', hw', hrole', hlen'⟩ htail

variable (o) in
/-- A sequence of calls. -/
def writeLocalFiles : List LocalWrite → FlashM Unit
  | [] => pure ()
  | w :: ws => do
    let _ ← tufClientWriteLocalFile o w.role w.content
    writeLocalFiles ws

theorem writeLocalFiles_spec (hrel : o.Reliable) (ws : List LocalWrite) (f : Flash) :
    wp (writeLocalFiles o ws) (fun _ f' => f'.mem = stored f.mem ws) (fun _ _ => False) f := by
  induction ws generalizing f with
  | nil => rw [writeLocalFiles, wp_pure, stored_nil]
  | cons w ws ih =>
    rw [writeLocalFiles, wp_bind]
    refine wp_mono (writeLocalFile_spec w.role w.length_le f) ?_ fun _ _ hE => hE.2 hrel
    rintro r f₁ ⟨-, hok⟩
    refine wp_mono (ih f₁) ?_ fun _ _ hE => hE
    intro _ f₂ hmem
    rw [hmem, (hok hrel w.known).2, stored_cons]

/-! ### Reading back -/

variable (o) in
/-- After the calls in `writes`, reading the role of `w` succeeds and delivers
the content of `w`. -/
def ReadsBack (writes : List LocalWrite) (w : LocalWrite) (targetBuffer : List Byte)
    (fileSize : Nat) (f : Flash) : Prop :=
  wp (do writeLocalFiles o writes; tufClientReadLocalFile o w.role targetBuffer fileSize)
    (fun r _ => r.ret = tufSuccess ∧ r.fileSize = w.content.length ∧
      r.targetBuffer.take w.content.length = w.content)
    (fun _ _ => False) f

/-- The region of a role after the last write to it: the content, and then
what the sectors hold. -/
theorem read_stored_last (m : Mem) (pre post : List LocalWrite) (w : LocalWrite)
    (hlast : ∀ w' ∈ post, w'.role ≠ w.role) :
    NorFlash.read (stored m (pre ++ w :: post)) (roleAddr w.role) aknanoTufMetadataMaxSize =
      w.content ++ NorFlash.read (written mflashSectorSize (stored m pre) (roleAddr w.role)
        w.content) (roleAddr w.role + w.content.length)
        (aknanoTufMetadataMaxSize - w.content.length) := by
  have hpost : NorFlash.read (stored m (pre ++ w :: post)) (roleAddr w.role)
      aknanoTufMetadataMaxSize = NorFlash.read (written mflashSectorSize (stored m pre)
        (roleAddr w.role) w.content) (roleAddr w.role) aknanoTufMetadataMaxSize := by
    refine read_congr fun i hi => ?_
    rw [stored_append, stored_cons]
    exact stored_untouched w.known hi _ post fun w' hw' h => absurd h (hlast w' hw')
  have hsplit : aknanoTufMetadataMaxSize
      = w.content.length + (aknanoTufMetadataMaxSize - w.content.length) := by
    have := w.length_le
    omega
  rw [hpost]
  conv_lhs => rw [hsplit]
  rw [read_add, read_written]

/-- A file reads back exactly when the reader finds the right end. -/
theorem readsBack_iff_plainLength (hrel : o.Reliable) (pre post : List LocalWrite)
    (w : LocalWrite) (hlast : ∀ w' ∈ post, w'.role ≠ w.role) {buf : List Byte}
    (hbuf : buf.length = aknanoTufMetadataMaxSize) (fileSize : Nat) (f : Flash) :
    ReadsBack o (pre ++ w :: post) w buf fileSize f ↔
      plainLength (NorFlash.read (stored f.mem (pre ++ w :: post)) (roleAddr w.role)
        aknanoTufMetadataMaxSize) = w.content.length := by
  have hregion := read_stored_last f.mem pre post w hlast
  generalize hrest : NorFlash.read (written mflashSectorSize (stored f.mem pre)
    (roleAddr w.role) w.content) (roleAddr w.role + w.content.length)
    (aknanoTufMetadataMaxSize - w.content.length) = rest at hregion
  have hdvd : 4 ∣ buf.length := by rw [hbuf]; decide
  have hne : buf ≠ [] := by
    intro h
    rw [h] at hbuf
    exact absurd hbuf (by decide)
  have hopen : stored f.mem (pre ++ w :: post) (roleAddr w.role) = 0x7B := by
    have h := congrArg List.head? hregion
    rw [List.head?_append_of_ne_nil _ w.ne_nil, w.brace, List.head?_eq_getElem?,
      read_getElem?, if_pos (by decide)] at h
    exact Option.some.inj h
  -- on a reliable device the run is determined
  have hrun : wp (do writeLocalFiles o (pre ++ w :: post)
                     tufClientReadLocalFile o w.role buf fileSize)
      (fun r _ => r = ⟨tufSuccess, terminate (w.content ++ rest), plainLength (w.content ++ rest)⟩)
      (fun _ _ => False) f := by
    rw [wp_bind]
    refine wp_mono (writeLocalFiles_spec hrel _ f) ?_ fun _ _ hE => hE
    intro _ f₁ hmem
    refine wp_mono (readLocalFile_spec w.role (le_of_eq hbuf) f₁) ?_ fun _ _ hE => hE.2 hrel
    rintro r f₂ ⟨-, hread⟩
    rw [hread hrel w.known hdvd hne (by rw [hmem, hopen]), hmem, hbuf, hregion]
  rw [hregion]
  constructor
  · intro h
    obtain ⟨r, f', hok⟩ := hrun.returns
    have hr := hrun.of_ok hok
    have hsize := (h.of_ok hok).2.1
    rw [hr] at hsize
    exact hsize
  · intro h
    refine wp_mono hrun ?_ fun _ _ hE => hE
    rintro r f' rfl
    refine ⟨rfl, h, ?_⟩
    dsimp only
    rw [← h, take_terminate, h, List.take_left]

/-- The byte behind the last content is text only if the content fills its
last sector and an earlier, longer one left it there, or it was there from the
start. -/
theorem isPlain_behind_iff (m : Mem) (pre : List LocalWrite) (w : LocalWrite)
    (hlt : w.content.length < aknanoTufMetadataMaxSize) :
    isPlain (written mflashSectorSize (stored m pre) (roleAddr w.role) w.content
        (roleAddr w.role + w.content.length)) ↔
      mflashSectorSize ∣ w.content.length ∧
        ((∃ w' ∈ pre, w'.role = w.role ∧ w.content.length < w'.content.length) ∨
          isPlain (m (roleAddr w.role + w.content.length))) := by
  by_cases hdvd : mflashSectorSize ∣ w.content.length
  · -- the next sector is as the earlier writes left it
    have hkept : written mflashSectorSize (stored m pre) (roleAddr w.role) w.content
        (roleAddr w.role + w.content.length)
        = stored m pre (roleAddr w.role + w.content.length) :=
      SameOutside.written (by decide) le_rfl le_rfl _
        (Or.inr (by rw [roundUp_eq_self (by decide) hdvd]))
    rw [hkept]
    by_cases hlong : ∃ w' ∈ pre, w'.role = w.role ∧ w.content.length < w'.content.length
    · exact ⟨fun _ => ⟨hdvd, Or.inl hlong⟩, fun _ => stored_leftover w.known hlt hdvd m pre hlong⟩
    · rw [stored_untouched w.known hlt m pre fun w' hw' hr => NorFlash.roundUp_le (by decide) hdvd
        (by by_contra h; exact hlong ⟨w', hw', hr, by omega⟩)]
      exact ⟨fun h => ⟨hdvd, Or.inr h⟩, fun h => h.2.resolve_left hlong⟩
  · -- the rest of the last sector is erased
    have herased : written mflashSectorSize (stored m pre) (roleAddr w.role) w.content
        (roleAddr w.role + w.content.length) = 0xFF := by
      have hround : w.content.length ≤ roundUp mflashSectorSize w.content.length :=
        le_roundUp (by decide) _
      have hne : roundUp mflashSectorSize w.content.length ≠ w.content.length := fun h =>
        hdvd (h ▸ dvd_roundUp ..)
      rw [written, if_neg (by omega), if_pos (by omega)]
    rw [herased]
    exact ⟨fun h => absurd h (by decide), fun h => absurd h.1 hdvd⟩

/-- Where the text of a region ends, by the byte behind the last content. -/
theorem plainLength_region_iff (m : Mem) (pre post : List LocalWrite) (w : LocalWrite)
    (hlast : ∀ w' ∈ post, w'.role ≠ w.role) :
    plainLength (NorFlash.read (stored m (pre ++ w :: post)) (roleAddr w.role)
        aknanoTufMetadataMaxSize) = w.content.length ↔
      w.content.length < aknanoTufMetadataMaxSize ∧
        (w.content.length + 1 < aknanoTufMetadataMaxSize →
          ¬ isPlain (written mflashSectorSize (stored m pre) (roleAddr w.role) w.content
            (roleAddr w.role + w.content.length))) := by
  have hle := w.length_le
  rw [read_stored_last _ _ _ _ hlast, plainLength_append_eq_iff w.plain (by simp [w.ne_nil])]
  rcases Nat.lt_or_eq_of_le hle with hlt | hfull
  · obtain ⟨k, hk⟩ : ∃ k, aknanoTufMetadataMaxSize - w.content.length = k + 1 :=
      ⟨aknanoTufMetadataMaxSize - w.content.length - 1, by omega⟩
    rw [hk, read_succ]
    constructor
    · rintro ⟨b, bs, h, hb⟩
      obtain ⟨rfl, rfl⟩ := List.cons.inj h
      refine ⟨hlt, fun hroom => hb fun hnil => ?_⟩
      have := congrArg List.length hnil
      rw [read_length, List.length_nil] at this
      omega
    · rintro ⟨-, h⟩
      refine ⟨_, _, rfl, fun hbs => h ?_⟩
      by_contra hroom
      obtain rfl : k = 0 := by omega
      exact hbs rfl
  · -- the last byte of the content is overwritten
    rw [hfull, Nat.sub_self]
    constructor
    · rintro ⟨b, bs, h, -⟩
      cases h
    · rintro ⟨h, -⟩
      exact absurd h (lt_irrefl _)

/-- **When a local file reads back.**  After any sequence of successful writes,
reading a role returns exactly its last content if and only if that content
does not fill its last sector or, if it does, it leaves room for the NUL and
the next sector holds no leftover: no earlier content of the role was longer,
and the byte there was erased (or NUL) to begin with. -/
theorem tufClientReadLocalFile_readsBack_iff (hrel : o.Reliable) (pre post : List LocalWrite)
    (w : LocalWrite) (hlast : ∀ w' ∈ post, w'.role ≠ w.role) {buf : List Byte}
    (hbuf : buf.length = aknanoTufMetadataMaxSize) (fileSize : Nat) (f : Flash) :
    ReadsBack o (pre ++ w :: post) w buf fileSize f ↔
      ¬ mflashSectorSize ∣ w.content.length ∨
        (w.content.length < aknanoTufMetadataMaxSize ∧
          (∀ w' ∈ pre, w'.role = w.role → w'.content.length ≤ w.content.length) ∧
          (f.mem (roleAddr w.role + w.content.length) = 0x00 ∨
            f.mem (roleAddr w.role + w.content.length) = 0xFF)) := by
  have hsec : mflashSectorSize ∣ aknanoTufMetadataMaxSize := by decide
  rw [readsBack_iff_plainLength hrel pre post w hlast hbuf, plainLength_region_iff _ _ _ _ hlast]
  constructor
  · rintro ⟨hlt, hbehind⟩
    by_cases hdvd : mflashSectorSize ∣ w.content.length
    · refine Or.inr ⟨hlt, ?_⟩
      have hroom := Nat.le_of_dvd (by omega) (Nat.dvd_sub hsec hdvd)
      have hnot := hbehind (by have : mflashSectorSize = 4096 := rfl; omega)
      rw [isPlain_behind_iff _ _ _ hlt, not_and, not_or] at hnot
      obtain ⟨hshort, hplain⟩ := hnot hdvd
      refine ⟨fun w' hw' hr => ?_, not_isPlain_iff.mp hplain⟩
      by_contra h
      exact hshort ⟨w', hw', hr, by omega⟩
    · exact Or.inl hdvd
  · rintro (hdvd | ⟨hlt, hshort, hbyte⟩)
    · have hlt : w.content.length < aknanoTufMetadataMaxSize :=
        lt_of_le_of_ne w.length_le fun h => hdvd (h ▸ hsec)
      refine ⟨hlt, fun _ h => hdvd ((isPlain_behind_iff _ _ _ hlt).mp h).1⟩
    · refine ⟨hlt, fun _ h => ?_⟩
      rcases ((isPlain_behind_iff _ _ _ hlt).mp h).2 with ⟨w', hw', hr, hlong⟩ | hplain
      · have := hshort w' hw' hr
        omega
      · exact not_isPlain_iff.mpr hbyte hplain

/-- A file of `n + 1` bytes. -/
def LocalWrite.ofLength (role : TufRole) (known : role ≠ .other) (n : Nat)
    (h : n < aknanoTufMetadataMaxSize) : LocalWrite where
  role := role
  known := known
  content := 0x7B :: List.replicate n 0x61
  brace := rfl
  clean := by
    intro b hb
    rcases List.mem_cons.mp hb with rfl | hb
    · decide
    · obtain rfl := List.eq_of_mem_replicate hb
      decide
  length_le := by simpa using h

theorem LocalWrite.ofLength_length (role : TufRole) (known : role ≠ .other) (n : Nat)
    (h : n < aknanoTufMetadataMaxSize) :
    (LocalWrite.ofLength role known n h).content.length = n + 1 :=
  congrArg (· + 1) (List.length_replicate ..)

/-- Fifteen bytes of targets metadata on an erased device. -/
theorem tufClientReadLocalFile_readsBack_fifteen :
    ReadsBack .reliable [.ofLength .targets (by decide) 14 (by decide)]
      (.ofLength .targets (by decide) 14 (by decide))
      (List.replicate aknanoTufMetadataMaxSize 0) 0 .erased :=
  (tufClientReadLocalFile_readsBack_iff FlashFaults.reliable_spec [] []
    (.ofLength .targets (by decide) 14 (by decide)) (by simp) (List.length_replicate ..) 0
    .erased).mpr (Or.inl (by rw [LocalWrite.ofLength_length]; decide))

/-- A file of the full 16384 bytes loses its last byte, and one of 4096 bytes
written over a longer one is followed by a leftover of it. -/
theorem tufClientReadLocalFile_full_and_leftover :
    ¬ ReadsBack .reliable [.ofLength .targets (by decide) 16383 (by decide)]
        (.ofLength .targets (by decide) 16383 (by decide))
        (List.replicate aknanoTufMetadataMaxSize 0) 0 .erased ∧
      ¬ ReadsBack .reliable [.ofLength .targets (by decide) 4999 (by decide),
          .ofLength .targets (by decide) 4095 (by decide)]
        (.ofLength .targets (by decide) 4095 (by decide))
        (List.replicate aknanoTufMetadataMaxSize 0) 0 .erased := by
  constructor
  · intro h
    have h := (readsBack_iff_plainLength FlashFaults.reliable_spec [] []
      (.ofLength .targets (by decide) 16383 (by decide)) (by simp) (List.length_replicate ..) 0
      .erased).mp h
    have hlt := ((plainLength_region_iff _ [] [] _ (by simp)).mp h).1
    rw [LocalWrite.ofLength_length] at hlt
    exact absurd hlt (by decide)
  · intro h
    have h := (readsBack_iff_plainLength FlashFaults.reliable_spec
      [.ofLength .targets (by decide) 4999 (by decide)] []
      (.ofLength .targets (by decide) 4095 (by decide)) (by simp) (List.length_replicate ..) 0
      .erased).mp h
    have hbehind := ((plainLength_region_iff _ _ [] _ (by simp)).mp h).2
    rw [isPlain_behind_iff _ _ _ (by rw [LocalWrite.ofLength_length]; decide),
      LocalWrite.ofLength_length] at hbehind
    refine hbehind (by decide) ⟨by decide, Or.inl ⟨_, List.mem_singleton_self _, rfl, ?_⟩⟩
    rw [LocalWrite.ofLength_length]
    decide

end AktualizrNano
