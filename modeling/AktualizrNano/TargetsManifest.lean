/-
AktualizrNano/TargetsManifest.lean

`aknano_targets_manifest.c`: choosing a target from the TUF targets metadata.

`parse_targets_metadata` walks over the entries of `signed/targets` with a
running best, `selected_target`.  An entry of a version that is not above it is
left before anything else of it is looked at, and the first entry that is
reported as an error ends the walk.  `tufParseSingleTarget_eq` says what an
entry is, independently of the walk; the walk is then a `RunningMax.scan`, and
the results of that library apply.
-/
import AktualizrNano.CoreJson
import AktualizrNano.Layout
import AktualizrNano.RunningMax

namespace AktualizrNano

open CLib RunningMax

/-! ### The parser -/

/-- `struct aknano_target`. -/
@[ext] structure AknanoTarget where
  expectedSize : BitVec 32
  version : BitVec 32
  expectedHash : CharArray aknanoSha256Len
  deriving DecidableEq

/-- `memset(&target, 0, sizeof(target))`. -/
def AknanoTarget.zero : AknanoTarget := ⟨0, 0, CharArray.zero _⟩

abbrev jsonArrayLimitCount : Nat := 10

def hexDigit (s : Byte) : Option Byte :=
  if 0x30 ≤ s ∧ s ≤ 0x39 then some (s - 0x30)
  else if 0x41 ≤ s ∧ s ≤ 0x46 then some (s - 0x37)
  else if 0x61 ≤ s ∧ s ≤ 0x66 then some (s - 0x57)
  else none

/-- `none` stands for the result `-1`. -/
def hexToBin (s : List Byte) : (len : Nat) → Option (CharArray len)
  | 0 => some ⟨[], rfl⟩
  | len + 1 => do
    let hi ← hexDigit (s.getD 0 0)
    let lo ← hexDigit (s.getD 1 0)
    let rest ← hexToBin (s.drop 2) len
    some ⟨(hi <<< 4 ||| lo) :: rest.bytes, by simp⟩

/-- The loop over `custom/hardwareIds` and over `custom/tags`: the bound of
the comparison is the length of the manifest's string. -/
def foundMatch (values : Json) (name : List Byte) : Bool :=
  (values.elems.take jsonArrayLimitCount).any fun v => strncmp v.raw name v.raw.length = 0

variable (overflow : Bool → Nat → BitVec 32) (hwid tag : List Byte)

def tufParseSingleTarget (selectedTarget : AknanoTarget) (data : Json) : Int × AknanoTarget :=
  match data.search ["custom", "version"] with
  | none => (-1, selectedTarget)
  | some outValue =>
    let version := (sscanfU overflow outValue.raw).getD 0
    -- left before any other field is looked at, and so before any other error
    if version ≤ selectedTarget.version then (0, selectedTarget) else
    match data.search ["custom", "hardwareIds"] with
    | none => (-1, selectedTarget)
    | some outValue =>
      if ¬ foundMatch outValue hwid then (0, selectedTarget) else
      match data.search ["custom", "tags"] with
      | none => (-1, selectedTarget)
      | some outValue =>
        if ¬ foundMatch outValue tag then (0, selectedTarget) else
        match data.search ["hashes", "sha256"] with
        | none => (-1, selectedTarget)
        | some outValue =>
          if outValue.raw.length ≠ aknanoSha256Len * 2 then (-1, selectedTarget) else
          match hexToBin outValue.raw aknanoSha256Len with
          | none => (-1, selectedTarget)
          | some expectedHash =>
            match data.search ["length"] with
            -- a missing length is not an error
            | none => (0, selectedTarget)
            | some outValue =>
              let expectedSize := (sscanfU overflow outValue.raw).getD 0
              (0, ⟨expectedSize, version, expectedHash⟩)

/-- The loop over the entries; a negative result ends it. -/
def iterateTargets (selectedTarget : AknanoTarget) : List Json → AknanoTarget
  | [] => selectedTarget
  | value :: values =>
    let (ret, selectedTarget) := tufParseSingleTarget overflow hwid tag selectedTarget value
    if ret < 0 then selectedTarget else iterateTargets selectedTarget values

/-- The results of `parse_targets_metadata`. -/
inductive ParseRet
  | ok
  | einval
  | tufErrorInvalidMetadata
  | tufErrorFieldMissing
  deriving DecidableEq

/-- `data` is the document, if the text is one; `hwid` is `none` for a null
pointer. -/
def parseTargetsMetadata (data : Option Json) (hwid : Option (List Byte)) (tag : List Byte)
    (selectedTarget : AknanoTarget) : ParseRet × AknanoTarget :=
  match hwid with
  | none => (.einval, selectedTarget)
  | some hwid =>
    if tag = [] then (.einval, selectedTarget) else
    match data with
    | none => (.tufErrorInvalidMetadata, selectedTarget)
    | some data =>
      match data.search ["signed", "targets"] with
      | none => (.tufErrorFieldMissing, selectedTarget)
      | some outValue => (.ok, iterateTargets overflow hwid tag selectedTarget outValue.values)

/-! ### Entries on their own -/

/-- The version of an entry, as the code reads it. -/
def targetVersion? (data : Json) : Option (BitVec 32) :=
  (data.search ["custom", "version"]).map fun outValue => (sscanfU overflow outValue.raw).getD 0

/-- What an entry is, whatever has been selected so far. -/
def judgeTarget (data : Json) : Verdict Nat AknanoTarget :=
  match targetVersion? overflow data with
  | none => .stop
  | some version =>
    match data.search ["custom", "hardwareIds"] with
    | none => .fault version.toNat
    | some ids =>
      if ¬ foundMatch ids hwid then .pass else
      match data.search ["custom", "tags"] with
      | none => .fault version.toNat
      | some tags =>
        if ¬ foundMatch tags tag then .pass else
        match (data.search ["hashes", "sha256"]).filter (·.raw.length = aknanoSha256Len * 2) with
        | none => .fault version.toNat
        | some sha256 =>
          match hexToBin sha256.raw aknanoSha256Len with
          | none => .fault version.toNat
          | some expectedHash =>
            match data.search ["length"] with
            | none => .pass
            | some length =>
              .take ⟨(sscanfU overflow length.raw).getD 0, version, expectedHash⟩

/-- The rank of a target in the walk. -/
def AknanoTarget.rank (t : AknanoTarget) : Nat := t.version.toNat

variable {overflow hwid tag}

theorem judgeTarget_of_none {data : Json} (h : targetVersion? overflow data = none) :
    judgeTarget overflow hwid tag data = .stop := by
  rw [judgeTarget, h]

/-- An entry with a version never has another rank. -/
theorem judgeTarget_cases {data : Json} {version : BitVec 32}
    (h : targetVersion? overflow data = some version) :
    judgeTarget overflow hwid tag data = .fault version.toNat ∨
      judgeTarget overflow hwid tag data = .pass ∨
      ∃ t, judgeTarget overflow hwid tag data = .take t ∧ t.version = version := by
  rw [judgeTarget, h]
  dsimp only
  split
  · exact Or.inl rfl
  split
  · exact Or.inr (Or.inl rfl)
  split
  · exact Or.inl rfl
  split
  · exact Or.inr (Or.inl rfl)
  split
  · exact Or.inl rfl
  split
  · exact Or.inl rfl
  split
  · exact Or.inr (Or.inl rfl)
  · exact Or.inr (Or.inr ⟨_, rfl, rfl⟩)

/-- **One entry of the walk**, by what the entry is on its own. -/
theorem tufParseSingleTarget_eq (selectedTarget : AknanoTarget) (data : Json) :
    tufParseSingleTarget overflow hwid tag selectedTarget data =
      match (judgeTarget overflow hwid tag data).effect AknanoTarget.rank selectedTarget with
      | none => (-1, selectedTarget)
      | some best => (0, best) := by
  rcases hv : targetVersion? overflow data with - | version
  · have hsearch : data.search ["custom", "version"] = none := by
      simpa [targetVersion?] using hv
    rw [judgeTarget_of_none hv, tufParseSingleTarget, hsearch]
    rfl
  obtain ⟨v, hsearch, hvalue⟩ : ∃ v, data.search ["custom", "version"] = some v ∧
      (sscanfU overflow v.raw).getD 0 = version := by
    simpa [targetVersion?] using hv
  by_cases hle : version ≤ selectedTarget.version
  · -- beaten already: nothing else of the entry matters
    have hrank : version.toNat ≤ selectedTarget.rank := BitVec.le_def.mp hle
    rw [tufParseSingleTarget, hsearch]
    dsimp only
    rw [hvalue, if_pos hle]
    rcases judgeTarget_cases hv with h | h | ⟨t, h, rfl⟩
    · rw [h, Verdict.effect, if_pos hrank]
    · rw [h, Verdict.effect]
    · rw [h, Verdict.effect, AknanoTarget.rank, if_pos hrank]
  · have hrank : ¬ version.toNat ≤ selectedTarget.rank := fun h => hle (BitVec.le_def.mpr h)
    -- above the running best the code makes the checks of the judge, one by one
    rw [tufParseSingleTarget, judgeTarget, hsearch, hv]
    dsimp only
    rw [hvalue, if_neg hle]
    rcases data.search ["custom", "hardwareIds"] with - | ids
    · simp [Verdict.effect, hrank]
    dsimp only
    by_cases hids : ¬ foundMatch ids hwid
    · simp [Verdict.effect, hids]
    rw [if_neg hids, if_neg hids]
    rcases data.search ["custom", "tags"] with - | tags
    · simp [Verdict.effect, hrank]
    dsimp only
    by_cases htags : ¬ foundMatch tags tag
    · simp [Verdict.effect, htags]
    rw [if_neg htags, if_neg htags]
    rcases data.search ["hashes", "sha256"] with - | sha256
    · simp [Verdict.effect, hrank]
    by_cases hlen : sha256.raw.length = aknanoSha256Len * 2
    · simp only [Option.filter, hlen, decide_true, if_true]
      rcases hexToBin sha256.raw aknanoSha256Len with - | hash
      · simp [Verdict.effect, hrank]
      rcases data.search ["length"] with - | length
      · simp [Verdict.effect]
      · have hrank' : ¬ AknanoTarget.rank ⟨(sscanfU overflow length.raw).getD 0, version, hash⟩
            ≤ selectedTarget.rank := hrank
        simp only [Verdict.effect, if_neg hrank', ne_eq, not_true_eq_false, if_false]
    · simp [Option.filter, hlen, Verdict.effect, hrank]

/-- The walk is a scan for the greatest version. -/
theorem iterateTargets_eq_scan (selectedTarget : AknanoTarget) (values : List Json) :
    iterateTargets overflow hwid tag selectedTarget values
      = scan AknanoTarget.rank (judgeTarget overflow hwid tag) selectedTarget values := by
  induction values generalizing selectedTarget with
  | nil => rfl
  | cons value values ih =>
    rw [iterateTargets, scan, tufParseSingleTarget_eq]
    rcases (judgeTarget overflow hwid tag value).effect AknanoTarget.rank selectedTarget
      with - | best
    · rfl
    · exact ih best

/-- The entries that are walked over. -/
def targetEntries (data : Option Json) : List Json :=
  ((data.bind fun d => d.search ["signed", "targets"]).map Json.values).getD []

theorem parseTargetsMetadata_snd (data : Option Json) (htag : tag ≠ [])
    (selectedTarget : AknanoTarget) :
    (parseTargetsMetadata overflow data (some hwid) tag selectedTarget).2
      = scan AknanoTarget.rank (judgeTarget overflow hwid tag) selectedTarget
          (targetEntries data) := by
  unfold parseTargetsMetadata
  dsimp only
  rw [if_neg htag, targetEntries]
  rcases data with - | data
  · rfl
  · simp only [Option.bind_some]
    rcases data.search ["signed", "targets"] with - | outValue
    · rfl
    · exact iterateTargets_eq_scan selectedTarget outValue.values

/-! ### Sample manifests -/

/-- A manifest entry with every field. -/
def sampleEntry (version : String) (hardwareIds tags : List String) : Json :=
  .ofMembers [
    ("custom", .ofMembers [
      ("version", .ofString version),
      ("hardwareIds", .ofElems (hardwareIds.map .ofString)),
      ("tags", .ofElems (tags.map .ofString))]),
    ("hashes", .ofMembers [("sha256", .str (List.replicate 64 0x61))]),
    ("length", .lit (ascii "4000"))]

theorem sampleEntry_hardwareIds (version : String) (hardwareIds tags : List String) :
    (sampleEntry version hardwareIds tags).search ["custom", "hardwareIds"]
      = some (.ofElems (hardwareIds.map .ofString)) := rfl

theorem sampleEntry_tags (version : String) (hardwareIds tags : List String) :
    (sampleEntry version hardwareIds tags).search ["custom", "tags"]
      = some (.ofElems (tags.map .ofString)) := rfl

/-- A manifest with these entries. -/
def sampleManifest (entries : List (String × Json)) : Json :=
  .ofMembers [("signed", .ofMembers [("targets", .ofMembers entries)])]

/-! ### The entry a selection was taken from -/

variable (overflow hwid tag) in
/-- The walk once more, keeping the entry that last changed `selected_target`. -/
def takenFrom (selectedTarget : AknanoTarget) : List Json → Option Json
  | [] => none
  | value :: values =>
    let (ret, selected) := tufParseSingleTarget overflow hwid tag selectedTarget value
    if ret < 0 then none
    else (takenFrom selected values).or (if selected ≠ selectedTarget then some value else none)

theorem takenFrom_eq_taken (selectedTarget : AknanoTarget) (values : List Json) :
    takenFrom overflow hwid tag selectedTarget values
      = taken AknanoTarget.rank (judgeTarget overflow hwid tag) selectedTarget values := by
  induction values generalizing selectedTarget with
  | nil => rfl
  | cons value values ih =>
    rw [takenFrom, taken, tufParseSingleTarget_eq]
    rcases h : (judgeTarget overflow hwid tag value).effect AknanoTarget.rank selectedTarget
      with - | best
    · rfl
    -- a selection that changes has risen
    · have hne : best ≠ selectedTarget ↔ selectedTarget.rank < best.rank := by
        rcases Verdict.effect_cases h with ⟨rfl, -⟩ | ⟨-, hlt⟩
        · simp
        · exact ⟨fun _ => hlt, fun _ heq => by rw [heq] at hlt; exact lt_irrefl _ hlt⟩
      simp only [hne]
      rw [if_neg (by decide), ih]

/-- `name` is one of the strings that the entry lists under `custom/field`. -/
def ListsWhole (data : Json) (field : String) (name : List Byte) : Prop :=
  ∃ values, data.search ["custom", field] = some values ∧ Json.str name ∈ values.elems

variable (overflow hwid tag) in
/-- If the selection changes, the entry it is taken from lists the device. -/
def SelectsForDevice (data : Option Json) (selectedTarget : AknanoTarget) : Prop :=
  (parseTargetsMetadata overflow data (some hwid) tag selectedTarget).2 ≠ selectedTarget →
    ∃ e, takenFrom overflow hwid tag selectedTarget (targetEntries data) = some e ∧
      ListsWhole e "hardwareIds" hwid ∧ ListsWhole e "tags" tag

/-! ### Manifests in which every entry is complete -/

/-- Every field is there, and the hash is one. -/
structure CompleteEntry (data : Json) : Prop where
  version : (data.search ["custom", "version"]).isSome
  hardwareIds : (data.search ["custom", "hardwareIds"]).isSome
  tags : (data.search ["custom", "tags"]).isSome
  sha256 : ∃ v, data.search ["hashes", "sha256"] = some v ∧
    v.raw.length = aknanoSha256Len * 2 ∧ ∀ b ∈ v.raw, isXDigit b
  length : (data.search ["length"]).isSome

/-- `name` is one of the first ten strings under `custom/field`. -/
def ListsEarly (data : Json) (field : String) (name : List Byte) : Prop :=
  ∃ values, data.search ["custom", field] = some values ∧
    Json.str name ∈ values.elems.take jsonArrayLimitCount

/-- The code's own matching accepts the values under `custom/field`. -/
def AcceptsField (data : Json) (field : String) (name : List Byte) : Prop :=
  ∃ values, data.search ["custom", field] = some values ∧ foundMatch values name

/-- A whole string among the first ten is always accepted. -/
theorem ListsEarly.accepts {data : Json} {field : String} {name : List Byte}
    (h : ListsEarly data field name) : AcceptsField data field name := by
  obtain ⟨values, hsearch, hmem⟩ := h
  exact ⟨values, hsearch, List.any_eq_true.mpr ⟨_, hmem, decide_eq_true (strncmp_self ..)⟩⟩

variable (overflow) in
/-- The version of an entry, `0` if it cannot be read. -/
def targetVersion (data : Json) : BitVec 32 := (targetVersion? overflow data).getD 0

variable (overflow) in
/-- The target that an entry describes. -/
def targetRecord (data : Json) : AknanoTarget where
  expectedSize := (sscanfU overflow (((data.search ["length"]).map Json.raw).getD [])).getD 0
  version := targetVersion overflow data
  expectedHash := (((data.search ["hashes", "sha256"]).bind fun v =>
    hexToBin v.raw aknanoSha256Len).getD (CharArray.zero _))

theorem hexDigit_isSome {b : Byte} (h : isXDigit b) : ∃ d, hexDigit b = some d := by
  simp only [isXDigit, isDigit, Bool.or_eq_true, Bool.and_eq_true, decide_eq_true_eq] at h
  unfold hexDigit
  split
  · exact ⟨_, rfl⟩
  split
  · exact ⟨_, rfl⟩
  split
  · exact ⟨_, rfl⟩
  · next h0 hA ha =>
    rcases h with (h | h) | h
    · exact absurd h h0
    · exact absurd h hA
    · exact absurd h ha

/-- Hexadecimal digits of the right number are always converted. -/
theorem hexToBin_isSome {s : List Byte} {len : Nat} (hlen : s.length = len * 2)
    (h : ∀ b ∈ s, isXDigit b) : ∃ dst, hexToBin s len = some dst := by
  induction len generalizing s with
  | zero => exact ⟨_, rfl⟩
  | succ len ih =>
    obtain ⟨a, b, rest, rfl⟩ : ∃ a b rest, s = a :: b :: rest := by
      rcases s with - | ⟨a, - | ⟨b, rest⟩⟩
      · simp at hlen
      · simp at hlen; omega
      · exact ⟨a, b, rest, rfl⟩
    obtain ⟨hi, hhi⟩ := hexDigit_isSome (h a (by simp))
    obtain ⟨lo, hlo⟩ := hexDigit_isSome (h b (by simp))
    obtain ⟨dst, hdst⟩ := ih (s := rest) (by simpa [Nat.add_mul] using hlen) fun c hc =>
      h c (by simp [hc])
    exact ⟨_, by simp [hexToBin, hhi, hlo, hdst]; rfl⟩

variable (overflow hwid tag) in
/-- A complete entry is never an error: it is taken for what it describes, or
passed over because the matching does not accept it. -/
theorem CompleteEntry.judge {data : Json} (h : CompleteEntry data) :
    (AcceptsField data "hardwareIds" hwid ∧ AcceptsField data "tags" tag ∧
        judgeTarget overflow hwid tag data = .take (targetRecord overflow data)) ∨
      (¬ (AcceptsField data "hardwareIds" hwid ∧ AcceptsField data "tags" tag) ∧
        judgeTarget overflow hwid tag data = .pass) := by
  obtain ⟨v, hv⟩ := Option.isSome_iff_exists.mp h.version
  obtain ⟨ids, hids⟩ := Option.isSome_iff_exists.mp h.hardwareIds
  obtain ⟨tags, htags⟩ := Option.isSome_iff_exists.mp h.tags
  obtain ⟨sha256, hsha256, hlen, hhex⟩ := h.sha256
  obtain ⟨hash, hhash⟩ := hexToBin_isSome hlen hhex
  obtain ⟨length, hlength⟩ := Option.isSome_iff_exists.mp h.length
  have hids' : AcceptsField data "hardwareIds" hwid ↔ foundMatch ids hwid := by
    simp [AcceptsField, hids]
  have htags' : AcceptsField data "tags" tag ↔ foundMatch tags tag := by
    simp [AcceptsField, htags]
  rw [hids', htags', judgeTarget, targetVersion?, hv, hids]
  simp only [Option.map_some]
  by_cases hm : foundMatch ids hwid
  · rw [if_neg (not_not.mpr hm), htags]
    dsimp only
    by_cases hm' : foundMatch tags tag
    · rw [if_neg (not_not.mpr hm'), hsha256]
      refine Or.inl ⟨hm, hm', ?_⟩
      simp [Option.filter, hlen, hhash, hlength, targetRecord, targetVersion, targetVersion?, hv,
        hsha256]
    · rw [if_pos hm']
      exact Or.inr ⟨fun h => hm' h.2, rfl⟩
  · rw [if_pos hm]
    exact Or.inr ⟨fun h => hm h.1, rfl⟩

/-- **The highest eligible target wins.**  In a manifest of complete entries no
eligible entry has a higher version than the selected one; and if there is an
eligible entry of positive version, the selection is the first entry of the
greatest version that the code's own matching accepts. -/
theorem parseTargetsMetadata_highest {data : Json} {outValue : Json}
    (hdata : data.search ["signed", "targets"] = some outValue)
    (hcomplete : ∀ e ∈ outValue.values, CompleteEntry e) (htag : tag ≠ [])
    {selectedTarget : AknanoTarget} (hzero : selectedTarget.version = 0) :
    let selected := (parseTargetsMetadata overflow (some data) (some hwid) tag selectedTarget).2
    (∀ e ∈ outValue.values, ListsEarly e "hardwareIds" hwid → ListsEarly e "tags" tag →
        targetVersion overflow e ≤ selected.version) ∧
      ((∃ e ∈ outValue.values, ListsEarly e "hardwareIds" hwid ∧ ListsEarly e "tags" tag ∧
          0 < targetVersion overflow e) →
        ∃ pre e post, outValue.values = pre ++ e :: post ∧
          AcceptsField e "hardwareIds" hwid ∧ AcceptsField e "tags" tag ∧
          selected = targetRecord overflow e ∧
          (∀ e' ∈ pre, AcceptsField e' "hardwareIds" hwid → AcceptsField e' "tags" tag →
            targetVersion overflow e' < targetVersion overflow e) ∧
          (∀ e' ∈ post, AcceptsField e' "hardwareIds" hwid → AcceptsField e' "tags" tag →
            targetVersion overflow e' ≤ targetVersion overflow e)) := by
  have hentries : targetEntries (some data) = outValue.values := by
    simp [targetEntries, hdata]
  rw [parseTargetsMetadata_snd _ htag, hentries]
  have hlive : live AknanoTarget.rank (judgeTarget overflow hwid tag) selectedTarget
      outValue.values = outValue.values := by
    apply live_eq_self
    intro e he
    rcases (hcomplete e he).judge overflow hwid tag with ⟨-, -, h⟩ | ⟨-, h⟩ <;> simp [h]
  -- what the matching accepts is offered under its own version
  have hoffer : ∀ e ∈ outValue.values, AcceptsField e "hardwareIds" hwid →
      AcceptsField e "tags" tag →
      judgeTarget overflow hwid tag e = .take (targetRecord overflow e) := by
    intro e he hids htags
    rcases (hcomplete e he).judge overflow hwid tag with ⟨-, -, h⟩ | ⟨hno, -⟩
    · exact h
    · exact absurd ⟨hids, htags⟩ hno
  have hmax : ∀ e ∈ outValue.values, ListsEarly e "hardwareIds" hwid → ListsEarly e "tags" tag →
      targetVersion overflow e ≤ (scan AknanoTarget.rank (judgeTarget overflow hwid tag)
        selectedTarget outValue.values).version := by
    intro e he hids htags
    have hmem : e ∈ live AknanoTarget.rank (judgeTarget overflow hwid tag) selectedTarget
        outValue.values := by
      rw [hlive]
      exact he
    exact BitVec.le_def.mpr (key_le_scan hmem (hoffer e he hids.accepts htags.accepts))
  refine ⟨hmax, ?_⟩
  rintro ⟨e, he, hids, htags, hpos⟩
  rcases htaken : taken AknanoTarget.rank (judgeTarget overflow hwid tag) selectedTarget
    outValue.values with - | top
  · -- nothing beats version 0: not so
    have hle := taken_eq_none_iff.mp htaken e (by rw [hlive]; exact he) _
      (hoffer e he hids.accepts htags.accepts)
    have hstart : selectedTarget.rank = 0 := by simp [AknanoTarget.rank, hzero]
    have hrank : 0 < (targetRecord overflow e).rank := BitVec.lt_def.mp hpos
    omega
  · obtain ⟨pre, post, t, hsplit, ht, habove, hpost⟩ := taken_eq_some_iff.mp htaken
    rw [hlive] at hsplit
    have htop : top ∈ outValue.values := by rw [hsplit]; simp
    obtain ⟨hids', htags', hrecord⟩ | ⟨-, hpass⟩ :=
      (hcomplete top htop).judge overflow hwid tag
    · obtain rfl := Verdict.take.inj (hrecord.symm.trans ht)
      refine ⟨pre, top, post, hsplit, hids', htags',
        Verdict.take.inj ((judge_of_taken htaken).symm.trans ht), ?_, ?_⟩
      · intro e' he' hids₁ htags₁
        have hmem : e' ∈ outValue.values := by rw [hsplit]; simp [he']
        exact BitVec.lt_def.mpr (habove.2 e' he' _ (hoffer e' hmem hids₁ htags₁))
      · intro e' he' hids₁ htags₁
        have hmem : e' ∈ outValue.values := by rw [hsplit]; simp [he']
        exact BitVec.le_def.mpr (hpost e' he' _ (hoffer e' hmem hids₁ htags₁))
    · rw [hpass] at ht
      cases ht

/-- Of two eligible entries the later one has the higher version. -/
theorem parseTargetsMetadata_highest_two :
    let selected := (parseTargetsMetadata (fun _ _ => 0)
      (some (sampleManifest [("fw-v7", sampleEntry "7" ["EVK"] ["devel"]),
        ("fw-v8", sampleEntry "8" ["EVK"] ["devel", "stable"])]))
      (some (ascii "EVK")) (ascii "devel") .zero).2
    8 ≤ selected.version := by
  have hcomplete : ∀ version hardwareIds tags,
      CompleteEntry (sampleEntry version hardwareIds tags) :=
    fun _ _ _ => ⟨rfl, rfl, rfl, ⟨_, rfl, rfl, by decide⟩, rfl⟩
  refine (@parseTargetsMetadata_highest (fun _ _ => 0) (ascii "EVK") (ascii "devel") _
    (.ofMembers [("fw-v7", sampleEntry "7" ["EVK"] ["devel"]),
      ("fw-v8", sampleEntry "8" ["EVK"] ["devel", "stable"])])
    rfl ?_ (by decide) .zero rfl).1 (sampleEntry "8" ["EVK"] ["devel", "stable"]) ?_ ?_ ?_
  · intro e he
    rcases List.mem_cons.mp he with rfl | he
    · exact hcomplete ..
    · obtain rfl := List.mem_singleton.mp he
      exact hcomplete ..
  · exact List.mem_cons_of_mem _ (List.mem_singleton_self _)
  · exact ⟨_, rfl, List.mem_cons_self ..⟩
  · exact ⟨_, rfl, List.mem_cons_self ..⟩

/-! ### The order of the entries -/

/-- **The order of the entries** does not matter as long as the walk gets past
the same ones: two manifests of pairwise distinct versions lead to the same
selection if the entries before the first one reported as an error are the
same in both, in whatever order. -/
theorem parseTargetsMetadata_eq_of_perm {data data' : Json} {outValue outValue' : Json}
    (hdata : data.search ["signed", "targets"] = some outValue)
    (hdata' : data'.search ["signed", "targets"] = some outValue')
    (hdistinct : outValue.values.Pairwise fun e e' => ∀ v v', targetVersion? overflow e = some v →
      targetVersion? overflow e' = some v' → v ≠ v')
    (htag : tag ≠ []) (selectedTarget : AknanoTarget)
    (hlive : (live AknanoTarget.rank (judgeTarget overflow hwid tag) selectedTarget
        outValue.values).Perm
      (live AknanoTarget.rank (judgeTarget overflow hwid tag) selectedTarget outValue'.values)) :
    (parseTargetsMetadata overflow (some data) (some hwid) tag selectedTarget).2
      = (parseTargetsMetadata overflow (some data') (some hwid) tag selectedTarget).2 := by
  have hentries : targetEntries (some data) = outValue.values := by
    simp [targetEntries, hdata]
  have hentries' : targetEntries (some data') = outValue'.values := by
    simp [targetEntries, hdata']
  rw [parseTargetsMetadata_snd _ htag, parseTargetsMetadata_snd _ htag, hentries, hentries']
  refine scan_eq_of_perm hlive ((hdistinct.sublist (live_isPrefix _ _).sublist).imp ?_)
  intro e e' hne t t' ht ht' heq
  have hversion : ∀ {e t}, judgeTarget overflow hwid tag e = .take t →
      targetVersion? overflow e = some t.version := by
    intro e t ht
    rcases hv : targetVersion? overflow e with - | v
    · rw [judgeTarget_of_none hv] at ht; cases ht
    · have hcases : judgeTarget overflow hwid tag e = _ ∨ _ := judgeTarget_cases hv
      rcases hcases with h | h | ⟨t', h, rfl⟩
      · rw [h] at ht; cases ht
      · rw [h] at ht; cases ht
      · rw [Verdict.take.inj (h.symm.trans ht)]
  exact hne _ _ (hversion ht) (hversion ht') (BitVec.eq_of_toNat_eq heq)

/-- Two entries in either order. -/
theorem parseTargetsMetadata_eq_of_perm_two :
    (parseTargetsMetadata (fun _ _ => 0)
        (some (sampleManifest [("fw-v7", sampleEntry "7" ["EVK"] ["devel"]),
          ("fw-v8", sampleEntry "8" ["EVK"] ["devel"])]))
        (some (ascii "EVK")) (ascii "devel") .zero).2 =
      (parseTargetsMetadata (fun _ _ => 0)
        (some (sampleManifest [("fw-v8", sampleEntry "8" ["EVK"] ["devel"]),
          ("fw-v7", sampleEntry "7" ["EVK"] ["devel"])]))
        (some (ascii "EVK")) (ascii "devel") .zero).2 := by
  refine parseTargetsMetadata_eq_of_perm rfl rfl ?_ (by decide) .zero ?_
  · refine List.pairwise_pair.mpr fun v v' hv hv' => ?_
    obtain rfl := Option.some.inj ((show some 7 = some v from hv))
    obtain rfl := Option.some.inj ((show some 8 = some v' from hv'))
    decide
  · exact List.Perm.swap _ _ []

/-- An entry without a version, in front of a good one or behind it. -/
theorem parseTargetsMetadata_order_matters :
    let good := ("fw-v8", sampleEntry "8" ["EVK"] ["devel"])
    let bad := ("fw", Json.ofMembers [("length", .lit (ascii "4000"))])
    (targetEntries (some (sampleManifest [good, bad]))).Perm
        (targetEntries (some (sampleManifest [bad, good]))) ∧
      (targetEntries (some (sampleManifest [good, bad]))).Pairwise (fun e e' => ∀ v v',
        targetVersion? (fun _ _ => 0) e = some v → targetVersion? (fun _ _ => 0) e' = some v' →
          v ≠ v') ∧
      (parseTargetsMetadata (fun _ _ => 0) (some (sampleManifest [good, bad]))
          (some (ascii "EVK")) (ascii "devel") .zero).2 ≠
        (parseTargetsMetadata (fun _ _ => 0) (some (sampleManifest [bad, good]))
          (some (ascii "EVK")) (ascii "devel") .zero).2 := by
  refine ⟨List.Perm.swap _ _ [], List.pairwise_pair.mpr fun v v' hv hv' => ?_, by decide⟩
  exact absurd hv' (by rintro ⟨⟩)

end AktualizrNano
