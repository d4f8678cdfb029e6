/-
AktualizrNano/TargetSelection.lean

What is selected from a manifest, field by field.  `TargetsManifest` says
which entry wins; here is that the selection is the record of one entry as a
whole (`parseTargetsMetadata_allOrNothing`), when its numbers are those of the
manifest, and that the file asked for afterwards is the one whose hash the
manifest gives.

The numbers are read with `sscanf` from where a value stands in the text.
Behind a value there is a quote or punctuation, at which the conversion stops
as it does at the end of the value.
-/
import AktualizrNano.ImageDownload
import Mathlib.Data.List.TakeWhile

namespace AktualizrNano

open CLib RunningMax

/-! ### Hexadecimal digits and back -/

/-- The digit of a nibble. -/
def hexChar (n : Nat) : Byte := BitVec.ofNat 8 (if n < 10 then 0x30 + n else 0x57 + n)

/-- A character that is converted is a digit, and its nibble has the digit
back, in lower case. -/
theorem hexDigit_all : ∀ b : Byte, (hexDigit b).all (fun d =>
    isXDigit b && decide (d.toNat < 16) && decide (hexChar d.toNat = toLower b)) = true := by
  decide +kernel

theorem hexDigit_spec {b d : Byte} (h : hexDigit b = some d) :
    isXDigit b ∧ d.toNat < 16 ∧ hexChar d.toNat = toLower b := by
  have hall := hexDigit_all b
  rw [h] at hall
  simpa [and_assoc] using hall

theorem hex2_nibbles : ∀ hi < 16, ∀ lo < 16,
    hex2 (BitVec.ofNat 8 hi <<< 4 ||| BitVec.ofNat 8 lo) = [hexChar hi, hexChar lo] := by
  decide +kernel

theorem hex2_hexDigit {a b hi lo : Byte} (hhi : hexDigit a = some hi) (hlo : hexDigit b = some lo) :
    hex2 (hi <<< 4 ||| lo) = [toLower a, toLower b] := by
  obtain ⟨-, hlt, heq⟩ := hexDigit_spec hhi
  obtain ⟨-, hlt', heq'⟩ := hexDigit_spec hlo
  have h := hex2_nibbles hi.toNat hlt lo.toNat hlt'
  rw [BitVec.ofNat_toNat, BitVec.ofNat_toNat, BitVec.setWidth_eq, BitVec.setWidth_eq] at h
  rw [h, heq, heq']

/-- What is converted are hexadecimal digits, and printing gives them back in
lower case. -/
theorem hexToBin_spec {s : List Byte} {len : Nat} (hlen : s.length = len * 2)
    {dst : CharArray len} (h : hexToBin s len = some dst) :
    (∀ b ∈ s, isXDigit b) ∧ dst.bytes.flatMap hex2 = s.map toLower := by
  induction len generalizing s with
  | zero =>
    have hnil : s = [] := List.eq_nil_of_length_eq_zero hlen
    have hdst : dst.bytes = [] := List.eq_nil_of_length_eq_zero dst.length_eq
    simp [hnil, hdst]
  | succ len ih =>
    obtain ⟨a, b, rest, rfl⟩ : ∃ a b rest, s = a :: b :: rest := by
      rcases s with - | ⟨a, - | ⟨b, rest⟩⟩
      · simp at hlen
      · simp at hlen; omega
      · exact ⟨a, b, rest, rfl⟩
    rw [hexToBin] at h
    obtain ⟨hi, hhi, h⟩ := Option.bind_eq_some_iff.mp h
    obtain ⟨lo, hlo, h⟩ := Option.bind_eq_some_iff.mp h
    obtain ⟨dst', hdst', h⟩ := Option.bind_eq_some_iff.mp h
    cases h
    obtain ⟨hdigits, hprinted⟩ := ih (s := rest) (by simpa [Nat.add_mul] using hlen) hdst'
    refine ⟨fun c hc => ?_, ?_⟩
    · rcases List.mem_cons.mp hc with rfl | hc
      · exact (hexDigit_spec hhi).1
      rcases List.mem_cons.mp hc with rfl | hc
      · exact (hexDigit_spec hlo).1
      · exact hdigits c hc
    · rw [List.flatMap_cons, hprinted, hex2_hexDigit hhi hlo]
      rfl

theorem hexToBin_isSome_iff {s : List Byte} {len : Nat} (hlen : s.length = len * 2) :
    (hexToBin s len).isSome ↔ ∀ b ∈ s, isXDigit b := by
  rw [Option.isSome_iff_exists]
  exact ⟨fun ⟨_, h⟩ => (hexToBin_spec hlen h).1, hexToBin_isSome hlen⟩

/-! ### The path of the image -/

theorem flatMap_hex2_take (bs : List Byte) (n : Nat) :
    (bs.take n).flatMap hex2 = (bs.flatMap hex2).take (2 * n) := by
  induction bs generalizing n with
  | nil => simp
  | cons b bs ih =>
    cases n with
    | zero => rfl
    | succ n => simp [hex2, ih, Nat.mul_succ]

theorem flatMap_hex2_drop (bs : List Byte) (n : Nat) :
    (bs.drop n).flatMap hex2 = (bs.flatMap hex2).drop (2 * n) := by
  induction bs generalizing n with
  | nil => simp
  | cons b bs ih =>
    cases n with
    | zero => rfl
    | succ n => simp [hex2, ih, Nat.mul_succ]

/-- **The requested file is the one the manifest names.**  Of the strings of
64 characters exactly those of hexadecimal digits are converted, and the path
built from the result spells the string in lower case, with a slash behind its
first two characters; it fits its buffer. -/
theorem relativePath_hexToBin {h : List Byte} (hlen : h.length = aknanoSha256Len * 2) :
    ((hexToBin h aknanoSha256Len).isSome ↔ ∀ b ∈ h, isXDigit b) ∧
      ∀ expectedHash, hexToBin h aknanoSha256Len = some expectedHash →
        relativePath expectedHash.bytes = ascii "/mcu/files/" ++ (h.map toLower).take 2
          ++ ascii "/" ++ (h.map toLower).drop 2 ++ ascii ".bin" ∧
        (relativePath expectedHash.bytes).length + 1 ≤ aknanoMaxUriLength := by
  refine ⟨hexToBin_isSome_iff hlen, fun expectedHash hhash => ?_⟩
  have hpath : relativePath expectedHash.bytes = ascii "/mcu/files/" ++ (h.map toLower).take 2
      ++ ascii "/" ++ (h.map toLower).drop 2 ++ ascii ".bin" := by
    rw [relativePath, flatMap_hex2_take, flatMap_hex2_drop, (hexToBin_spec hlen hhash).2]
  refine ⟨hpath, ?_⟩
  have hsha : aknanoSha256Len = 32 := rfl
  rw [hpath]
  simp only [List.length_append, List.length_take, List.length_drop, List.length_map, hlen]
  decide

theorem relativePath_hexToBin_upper :
    ∃ expectedHash, hexToBin (List.replicate 64 0x41) aknanoSha256Len = some expectedHash ∧
      relativePath expectedHash.bytes = ascii "/mcu/files/aa/" ++ List.replicate 62 0x61
        ++ ascii ".bin" := by
  have h := relativePath_hexToBin (h := List.replicate 64 0x41) (by decide)
  obtain ⟨expectedHash, hhash⟩ := Option.isSome_iff_exists.mp (h.1.mpr (by decide))
  exact ⟨expectedHash, hhash, (h.2 expectedHash hhash).1.trans (by decide)⟩

/-! ### An entry that passes every check -/

variable {overflow : Bool → Nat → BitVec 32} {hwid tag : List Byte}

/-- The entry passes every check but that of its version. -/
structure PassesChecks (hwid tag : List Byte) (data : Json) : Prop where
  version : (data.search ["custom", "version"]).isSome
  hardwareIds : AcceptsField data "hardwareIds" hwid
  tags : AcceptsField data "tags" tag
  sha256 : ∃ v, data.search ["hashes", "sha256"] = some v ∧
    v.raw.length = aknanoSha256Len * 2 ∧ ∀ b ∈ v.raw, isXDigit b
  length : (data.search ["length"]).isSome

theorem PassesChecks.complete {data : Json} (h : PassesChecks hwid tag data) :
    CompleteEntry data where
  version := h.version
  hardwareIds := by
    obtain ⟨v, hv, -⟩ := h.hardwareIds
    rw [hv]
    rfl
  tags := by
    obtain ⟨v, hv, -⟩ := h.tags
    rw [hv]
    rfl
  sha256 := h.sha256
  length := h.length

/-- What is offered has been checked in every field. -/
theorem passesChecks_of_take {data : Json} {target : AknanoTarget}
    (h : judgeTarget overflow hwid tag data = .take target) : PassesChecks hwid tag data := by
  rw [judgeTarget] at h
  rcases hv : data.search ["custom", "version"] with - | version
  · rw [targetVersion?, hv] at h; cases h
  rw [targetVersion?, hv] at h
  dsimp only [Option.map_some] at h
  rcases hids : data.search ["custom", "hardwareIds"] with - | ids
  · rw [hids] at h; cases h
  rw [hids] at h
  dsimp only at h
  by_cases hmatch : ¬ foundMatch ids hwid
  · rw [if_pos hmatch] at h; cases h
  rw [if_neg hmatch] at h
  rcases htags : data.search ["custom", "tags"] with - | tags
  · rw [htags] at h; cases h
  rw [htags] at h
  dsimp only at h
  by_cases hmatch' : ¬ foundMatch tags tag
  · rw [if_pos hmatch'] at h; cases h
  rw [if_neg hmatch'] at h
  rcases hsha : (data.search ["hashes", "sha256"]).filter (·.raw.length = aknanoSha256Len * 2)
    with - | sha256
  · rw [hsha] at h; cases h
  rw [hsha] at h
  dsimp only at h
  obtain ⟨hsearch, hlen⟩ := Option.filter_eq_some_iff.mp hsha
  rcases hhash : hexToBin sha256.raw aknanoSha256Len with - | expectedHash
  · rw [hhash] at h; cases h
  rw [hhash] at h
  dsimp only at h
  rcases hlength : data.search ["length"] with - | length
  · rw [hlength] at h; cases h
  have hlen' := of_decide_eq_true hlen
  exact ⟨by rw [hv]; rfl, ⟨ids, hids, not_not.mp hmatch⟩, ⟨tags, htags, not_not.mp hmatch'⟩,
    ⟨sha256, hsearch, hlen', (hexToBin_spec hlen' hhash).1⟩, by rw [hlength]; rfl⟩

/-- An entry is offered exactly when it passes the checks, and then as the
record of itself. -/
theorem judgeTarget_eq_take_iff {data : Json} {target : AknanoTarget} :
    judgeTarget overflow hwid tag data = .take target ↔
      PassesChecks hwid tag data ∧ target = targetRecord overflow data := by
  constructor
  · intro h
    have hpasses := passesChecks_of_take h
    refine ⟨hpasses, ?_⟩
    rcases hpasses.complete.judge overflow hwid tag with ⟨-, -, htake⟩ | ⟨hno, -⟩
    · exact Verdict.take.inj (h.symm.trans htake)
    · exact absurd ⟨hpasses.hardwareIds, hpasses.tags⟩ hno
  · rintro ⟨hpasses, rfl⟩
    rcases hpasses.complete.judge overflow hwid tag with ⟨-, -, htake⟩ | ⟨hno, -⟩
    · exact htake
    · exact absurd ⟨hpasses.hardwareIds, hpasses.tags⟩ hno

variable (overflow hwid tag) in
/-- **One entry of the walk**: it replaces the selection as a whole, or leaves
it alone. -/
theorem tufParseSingleTarget_snd (selectedTarget : AknanoTarget) (data : Json) :
    (tufParseSingleTarget overflow hwid tag selectedTarget data).2
        = targetRecord overflow data ∧ PassesChecks hwid tag data ∧
          selectedTarget.version < targetVersion overflow data ∨
      (tufParseSingleTarget overflow hwid tag selectedTarget data).2 = selectedTarget ∧
        ¬ (PassesChecks hwid tag data ∧
          selectedTarget.version < targetVersion overflow data) := by
  have hnot : (∀ target, judgeTarget overflow hwid tag data ≠ .take target) →
      ¬ (PassesChecks hwid tag data ∧ selectedTarget.version < targetVersion overflow data) :=
    fun hno h => hno _ (judgeTarget_eq_take_iff.mpr ⟨h.1, rfl⟩)
  rw [tufParseSingleTarget_eq]
  rcases hjudge : judgeTarget overflow hwid tag data with - | rank | - | target
  · exact Or.inr ⟨rfl, hnot (by simp [hjudge])⟩
  · rw [Verdict.effect]
    by_cases hrank : rank ≤ selectedTarget.rank
    · rw [if_pos hrank]
      exact Or.inr ⟨rfl, hnot (by simp [hjudge])⟩
    · rw [if_neg hrank]
      exact Or.inr ⟨rfl, hnot (by simp [hjudge])⟩
  · exact Or.inr ⟨rfl, hnot (by simp [hjudge])⟩
  · obtain ⟨hpasses, rfl⟩ := judgeTarget_eq_take_iff.mp hjudge
    have hversion : (targetRecord overflow data).rank ≤ selectedTarget.rank ↔
        ¬ selectedTarget.version < targetVersion overflow data := by
      rw [AknanoTarget.rank, AknanoTarget.rank, ← BitVec.le_def, BitVec.not_lt]
      rfl
    rw [Verdict.effect]
    by_cases hlt : selectedTarget.version < targetVersion overflow data
    · rw [if_neg fun h => hversion.mp h hlt]
      exact Or.inl ⟨rfl, hpasses, hlt⟩
    · rw [if_pos (hversion.mpr hlt)]
      exact Or.inr ⟨rfl, fun h => hlt h.2⟩

/-! ### The whole manifest -/

/-- **Target selection is all or nothing.**  In the end `selected_target` is
what it was, or the record of one entry that passed every check and is above
it.  No result but `ok` changes it, and no entry that fails a check or is not
above what is selected so far does. -/
theorem parseTargetsMetadata_allOrNothing (data : Option Json) (hwid : Option (List Byte))
    (tag : List Byte) (selectedTarget : AknanoTarget) :
    let result := parseTargetsMetadata overflow data hwid tag selectedTarget
    (result.2 = selectedTarget ∨
        ∃ hwid' pre e post, hwid = some hwid' ∧ targetEntries data = pre ++ e :: post ∧
          PassesChecks hwid' tag e ∧ result.2 = targetRecord overflow e ∧
          selectedTarget.version < result.2.version) ∧
      (result.1 ≠ .ok → result.2 = selectedTarget) ∧
      ∀ hwid' (before : AknanoTarget) e,
        ¬ (PassesChecks hwid' tag e ∧ before.version < targetVersion overflow e) →
          (tufParseSingleTarget overflow hwid' tag before e).2 = before := by
  refine ⟨?_, ?_, fun hwid' before e hno => ?_⟩
  · rcases hwid with - | hwid
    · exact Or.inl rfl
    by_cases htag : tag = []
    · left
      unfold parseTargetsMetadata
      dsimp only
      rw [if_pos htag]
    rw [parseTargetsMetadata_snd data htag]
    rcases htaken : taken AknanoTarget.rank (judgeTarget overflow hwid tag) selectedTarget
      (targetEntries data) with - | e
    · exact Or.inl (scan_of_taken_none htaken)
    · -- the entry the selection was taken from is one of the manifest's
      have hjudge := judge_of_taken htaken
      obtain ⟨hpasses, hrecord⟩ := judgeTarget_eq_take_iff.mp hjudge
      obtain ⟨pre, post, target, hlive, htake, habove, -⟩ := taken_eq_some_iff.mp htaken
      obtain ⟨rest, hentries⟩ : live AknanoTarget.rank (judgeTarget overflow hwid tag)
        selectedTarget (targetEntries data) <+: targetEntries data := live_isPrefix _ _
      rw [hlive, List.append_assoc, List.cons_append] at hentries
      rw [← Verdict.take.inj (hjudge.symm.trans htake)] at habove
      exact Or.inr ⟨hwid, pre, e, _, rfl, hentries.symm, hpasses, hrecord,
        BitVec.lt_def.mpr habove.1⟩
  · unfold parseTargetsMetadata
    split
    · exact fun _ => rfl
    split
    · exact fun _ => rfl
    split
    · exact fun _ => rfl
    split
    · exact fun _ => rfl
    · exact fun h => absurd rfl h
  · rcases tufParseSingleTarget_snd overflow hwid' tag before e with ⟨-, hyes⟩ | ⟨h, -⟩
    · exact absurd hyes hno
    · exact h

/-! ### The numbers of an entry -/

/-- A decimal number below `2^32`, without a sign or anything around it. -/
structure PlainDecimal (raw : List Byte) : Prop where
  nonempty : raw ≠ []
  digits : ∀ b ∈ raw, isDigit b
  value : digitsValue raw < 2 ^ 32

/-- A digit is neither white space nor a sign. -/
theorem isDigit_all : ∀ b : Byte, isDigit b = true → isSpace b = false ∧ b ≠ 0x2D ∧ b ≠ 0x2B := by
  decide +kernel

theorem PlainDecimal.sscanfU {raw : List Byte} (h : PlainDecimal raw) :
    CLib.sscanfU overflow raw = some (BitVec.ofNat 32 (digitsValue raw)) := by
  have hscan : scanDecimal raw = some (false, digitsValue raw) := by
    obtain ⟨d, ds, rfl⟩ := List.exists_cons_of_ne_nil h.nonempty
    obtain ⟨hspace, hminus, hplus⟩ := isDigit_all d (h.digits d List.mem_cons_self)
    have hbody : (d :: ds).dropWhile isSpace = d :: ds := by simp [hspace]
    have htake : (d :: ds).takeWhile isDigit = d :: ds :=
      List.takeWhile_eq_self_iff.mpr h.digits
    unfold scanDecimal
    simp only [hbody, List.head?_cons, Option.some.injEq, hminus, hplus, decide_false, or_self,
      if_false, htake]
    simp
  rw [CLib.sscanfU, hscan]
  show some (if 2 ^ 32 ≤ digitsValue raw then _ else _) = _
  rw [if_neg (not_le.mpr h.value)]
  rfl

/-- The numbers of an entry are plain decimals. -/
def NumbersPlain (data : Json) : Prop :=
  (∃ v, data.search ["custom", "version"] = some v ∧ PlainDecimal v.raw) ∧
    ∃ v, data.search ["length"] = some v ∧ PlainDecimal v.raw

/-- The numbers of `target` are those of the entry. -/
structure NumbersOf (data : Json) (target : AknanoTarget) : Prop where
  version : ∃ v, data.search ["custom", "version"] = some v ∧ PlainDecimal v.raw ∧
    target.version.toNat = digitsValue v.raw
  expectedSize : ∃ v, data.search ["length"] = some v ∧ PlainDecimal v.raw ∧
    target.expectedSize.toNat = digitsValue v.raw

theorem NumbersPlain.record {data : Json} (h : NumbersPlain data) :
    NumbersOf data (targetRecord overflow data) := by
  obtain ⟨⟨v, hv, hplain⟩, v', hv', hplain'⟩ := h
  refine ⟨⟨v, hv, hplain, ?_⟩, v', hv', hplain', ?_⟩
  · simp only [targetRecord, targetVersion, targetVersion?, hv, hplain.sscanfU, Option.map_some,
      Option.getD_some, BitVec.toNat_ofNat]
    exact Nat.mod_eq_of_lt hplain.value
  · simp only [targetRecord, hv', hplain'.sscanfU, Option.map_some, Option.getD_some,
      BitVec.toNat_ofNat]
    exact Nat.mod_eq_of_lt hplain'.value

/-- **When selected numbers are the manifest's numbers**: exactly when the
texts of an entry that passes the other checks, and whose version reads as one
above the selected, are plain decimals. -/
theorem tufParseSingleTarget_numbers_iff (selectedTarget : AknanoTarget) (data : Json) :
    ((tufParseSingleTarget overflow hwid tag selectedTarget data).2 ≠ selectedTarget →
        NumbersOf data (tufParseSingleTarget overflow hwid tag selectedTarget data).2) ↔
      (PassesChecks hwid tag data → selectedTarget.version < targetVersion overflow data →
        NumbersPlain data) := by
  rcases tufParseSingleTarget_snd overflow hwid tag selectedTarget data with
    ⟨heq, hpasses, hlt⟩ | ⟨heq, hno⟩
  · have hne : targetRecord overflow data ≠ selectedTarget := by
      intro h
      rw [← h] at hlt
      exact absurd hlt (BitVec.lt_irrefl _)
    rw [heq]
    constructor
    · intro h _ _
      obtain ⟨⟨v, hv, hplain, -⟩, v', hv', hplain', -⟩ := h hne
      exact ⟨⟨v, hv, hplain⟩, v', hv', hplain'⟩
    · exact fun h _ => (h hpasses hlt).record
  · rw [heq]
    exact iff_of_true (fun h => absurd rfl h) fun hpasses hlt => absurd ⟨hpasses, hlt⟩ hno

/-- The version `-1` is selected as 4294967295. -/
theorem tufParseSingleTarget_minusOne :
    let data := sampleEntry "-1" ["EVK"] ["devel"]
    let target := (tufParseSingleTarget (fun _ _ => 0) (ascii "EVK") (ascii "devel") .zero data).2
    target ≠ .zero ∧ target.version = 4294967295 ∧ ¬ NumbersOf data target := by
  refine ⟨by decide, by decide, fun h => ?_⟩
  obtain ⟨v, hv, hplain, -⟩ := h.version
  obtain rfl := Option.some.inj ((show (sampleEntry "-1" ["EVK"] ["devel"]).search
    ["custom", "version"] = some (.ofString "-1") from rfl).symm.trans hv)
  exact absurd (hplain.digits 0x2D (by decide)) (by decide)

end AktualizrNano
