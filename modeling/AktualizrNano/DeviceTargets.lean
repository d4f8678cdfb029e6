/-
AktualizrNano/DeviceTargets.lean

Which targets are meant for the device: the entries that list its hardware id
and its tag.

The comparison is bounded by the length of the manifest's string, so what it
accepts is a beginning of the device's own (`foundMatch_iff`).  With that the
walk over a manifest can be said in terms of its strings alone: which entries
qualify, which one is reported as an error, and which one wins (`Wins`).  A
selection is meant for the device unless the winner is listed by strays only
(`parseTargetsMetadata_selectsForDevice_iff`).
-/
import AktualizrNano.TargetSelection

namespace AktualizrNano

open CLib RunningMax

/-! ### What the comparison accepts -/

/-- The text of the value begins the name, or a NUL ends both at the same
place. -/
def TakenFor (name : List Byte) (v : Json) : Prop :=
  v.raw <+: name ∨ 0 ∈ v.raw ∧ v.raw.takeWhile (· ≠ 0) = name.takeWhile (· ≠ 0)

/-- **The comparison** accepts a beginning of the name, among the first ten
values. -/
theorem foundMatch_iff {values : Json} {name : List Byte} :
    foundMatch values name ↔
      ∃ v ∈ values.elems.take jsonArrayLimitCount, TakenFor name v := by
  rw [foundMatch, List.any_eq_true]
  simp only [decide_eq_true_eq, strncmp_length_eq_zero_iff, TakenFor]

/-- One of the first ten values under `custom/field` is taken for `name`. -/
def ListsTaken (data : Json) (field : String) (name : List Byte) : Prop :=
  ∃ values, data.search ["custom", field] = some values ∧
    ∃ v ∈ values.elems.take jsonArrayLimitCount, TakenFor name v

theorem acceptsField_iff {data : Json} {field : String} {name : List Byte} :
    AcceptsField data field name ↔ ListsTaken data field name :=
  exists_congr fun _ => and_congr_right fun _ => foundMatch_iff

/-- What is taken for the string `name` without being it. -/
inductive Stray (name : List Byte) : Json → Prop
  /-- a string that is shorter; the empty one always is -/
  | shorter {raw : List Byte} (hbegins : raw <+: name) (hne : raw ≠ name) : Stray name (.str raw)
  /-- a string with more behind a NUL -/
  | longer {raw : List Byte} (hnul : 0 ∈ raw)
      (hcut : raw.takeWhile (· ≠ 0) = name.takeWhile (· ≠ 0)) (hne : raw ≠ name) :
      Stray name (.str raw)
  /-- a number, or anything else that is no string -/
  | other {v : Json} (hother : ∀ raw, v ≠ .str raw) (htaken : TakenFor name v) : Stray name v

theorem takenFor_iff {name : List Byte} {v : Json} :
    TakenFor name v ↔ v = .str name ∨ Stray name v := by
  constructor
  · intro h
    cases v with
    | str raw =>
      by_cases hne : raw = name
      · exact Or.inl (congrArg Json.str hne)
      · rcases h with hbegins | ⟨hnul, hcut⟩
        · exact Or.inr (.shorter hbegins hne)
        · exact Or.inr (.longer hnul hcut hne)
    | lit raw => exact Or.inr (.other (by rintro _ ⟨⟩) h)
    | arr raw elems => exact Or.inr (.other (by rintro _ ⟨⟩) h)
    | obj raw members => exact Or.inr (.other (by rintro _ ⟨⟩) h)
  · rintro (rfl | hstray)
    · exact Or.inl (List.prefix_refl name)
    · cases hstray with
      | shorter hbegins hne => exact Or.inl hbegins
      | longer hnul hcut hne => exact Or.inr ⟨hnul, hcut⟩
      | other hother htaken => exact htaken

/-- Strays under `custom/field`, and not the string `name` itself. -/
def ListsStrays (data : Json) (field : String) (name : List Byte) : Prop :=
  ∃ values, data.search ["custom", field] = some values ∧
    (∃ v ∈ values.elems.take jsonArrayLimitCount, Stray name v) ∧ Json.str name ∉ values.elems

/-- What is listed is listed by its name, or by strays. -/
theorem ListsTaken.whole_iff {data : Json} {field : String} {name : List Byte}
    (h : ListsTaken data field name) :
    ListsWhole data field name ↔ ¬ ListsStrays data field name := by
  obtain ⟨values, hsearch, v, hmem, htaken⟩ := h
  constructor
  · rintro ⟨values', hsearch', hwhole⟩ ⟨values'', hsearch'', -, hnone⟩
    obtain rfl := Option.some.inj (hsearch'.symm.trans hsearch'')
    exact hnone hwhole
  · intro hstrays
    refine ⟨values, hsearch, ?_⟩
    by_contra hnone
    rcases takenFor_iff.mp htaken with rfl | hstray
    · exact hnone (List.mem_of_mem_take hmem)
    · exact hstrays ⟨values, hsearch, ⟨v, hmem, hstray⟩, hnone⟩

/-! ### The walk in terms of the manifest -/

/-- 64 hexadecimal digits. -/
def HasSha256 (data : Json) : Prop :=
  ∃ v, data.search ["hashes", "sha256"] = some v ∧
    v.raw.length = aknanoSha256Len * 2 ∧ ∀ b ∈ v.raw, isXDigit b

/-- An entry that may be selected. -/
structure Qualifies (hwid tag : List Byte) (data : Json) : Prop where
  version : (data.search ["custom", "version"]).isSome
  hardwareIds : ListsTaken data "hardwareIds" hwid
  tags : ListsTaken data "tags" tag
  sha256 : HasSha256 data
  length : (data.search ["length"]).isSome

/-- An entry that is reported as an error, once its version has been compared. -/
inductive Incomplete (hwid tag : List Byte) (data : Json) : Prop
  | hardwareIds (hnone : data.search ["custom", "hardwareIds"] = none)
  | tags (hids : ListsTaken data "hardwareIds" hwid) (hnone : data.search ["custom", "tags"] = none)
  | sha256 (hids : ListsTaken data "hardwareIds" hwid) (htags : ListsTaken data "tags" tag)
      (hnone : ¬ HasSha256 data)

section Walk

variable (overflow : Bool → Nat → BitVec 32) (hwid tag : List Byte) (selectedTarget : AknanoTarget)

/-- The version is above the one to start with, and above every entry before
this one that qualifies. -/
def Exceeds (before : List Json) (e : Json) : Prop :=
  selectedTarget.version < targetVersion overflow e ∧
    ∀ e' ∈ before, Qualifies hwid tag e' → targetVersion overflow e' < targetVersion overflow e

/-- The entry is reported as an error. -/
def EndsWalk (before : List Json) (e : Json) : Prop :=
  e.search ["custom", "version"] = none ∨
    Incomplete hwid tag e ∧ Exceeds overflow hwid tag selectedTarget before e

/-- The entries in front of the first one that is reported as an error. -/
structure Walked (entries walked : List Json) : Prop where
  goes : ∀ before e after, walked = before ++ e :: after →
    ¬ EndsWalk overflow hwid tag selectedTarget before e
  ends : entries = walked ∨ ∃ e after, entries = walked ++ e :: after ∧
    EndsWalk overflow hwid tag selectedTarget walked e

/-- Of these the first of the greatest version, if that is above the one to
start with. -/
def Wins (entries : List Json) (e : Json) : Prop :=
  ∃ before after, Walked overflow hwid tag selectedTarget entries (before ++ e :: after) ∧
    Qualifies hwid tag e ∧ Exceeds overflow hwid tag selectedTarget before e ∧
    ∀ e' ∈ after, Qualifies hwid tag e' → targetVersion overflow e' ≤ targetVersion overflow e

end Walk

variable {overflow : Bool → Nat → BitVec 32} {hwid tag : List Byte} {selectedTarget : AknanoTarget}

theorem Wins.mem {entries : List Json} {e : Json}
    (h : Wins overflow hwid tag selectedTarget entries e) : e ∈ entries := by
  obtain ⟨before, after, hwalked, -⟩ := h
  rcases hwalked.ends with rfl | ⟨e', after', rfl, -⟩
  · exact List.mem_append_right _ List.mem_cons_self
  · exact List.mem_append_left _ (List.mem_append_right _ List.mem_cons_self)

/-! ### The code's walk is that one -/

theorem judgeTarget_take_iff {data : Json} {target : AknanoTarget} :
    judgeTarget overflow hwid tag data = .take target ↔
      Qualifies hwid tag data ∧ target = targetRecord overflow data := by
  rw [judgeTarget_eq_take_iff]
  refine and_congr_left fun _ => ⟨fun h => ?_, fun h => ?_⟩
  · exact ⟨h.version, acceptsField_iff.mp h.hardwareIds, acceptsField_iff.mp h.tags, h.sha256,
      h.length⟩
  · exact ⟨h.version, acceptsField_iff.mpr h.hardwareIds, acceptsField_iff.mpr h.tags, h.sha256,
      h.length⟩

theorem judgeTarget_stop_iff {data : Json} :
    judgeTarget overflow hwid tag data = .stop ↔ data.search ["custom", "version"] = none := by
  have hnone : targetVersion? overflow data = none ↔ data.search ["custom", "version"] = none :=
    Option.map_eq_none_iff
  rw [← hnone]
  refine ⟨fun h => ?_, judgeTarget_of_none⟩
  rcases hv : targetVersion? overflow data with - | version
  · rfl
  · have hcases : judgeTarget overflow hwid tag data = _ ∨ _ := judgeTarget_cases hv
    rw [h] at hcases
    rcases hcases with h | h | ⟨_, h, -⟩ <;> cases h

theorem judgeTarget_of_incomplete {data : Json} {version : BitVec 32}
    (hv : targetVersion? overflow data = some version) (h : Incomplete hwid tag data) :
    judgeTarget overflow hwid tag data = .fault version.toNat := by
  rw [judgeTarget, hv]
  dsimp only
  cases h with
  | hardwareIds hnone => rw [hnone]
  | tags hids hnone =>
    obtain ⟨ids, hsearch, hmatch⟩ := acceptsField_iff.mpr hids
    rw [hsearch]
    dsimp only
    rw [if_neg (not_not.mpr hmatch), hnone]
  | sha256 hids htags hnone =>
    obtain ⟨ids, hsearch, hmatch⟩ := acceptsField_iff.mpr hids
    obtain ⟨tags, hsearch', hmatch'⟩ := acceptsField_iff.mpr htags
    rw [hsearch]
    dsimp only
    rw [if_neg (not_not.mpr hmatch), hsearch']
    dsimp only
    rw [if_neg (not_not.mpr hmatch')]
    rcases hsha : (data.search ["hashes", "sha256"]).filter (·.raw.length = aknanoSha256Len * 2)
      with - | sha256
    · rw [hsha]
    · obtain ⟨hfound, hlen⟩ := Option.filter_eq_some_iff.mp hsha
      have hlen := of_decide_eq_true hlen
      rw [hsha]
      dsimp only
      rcases hhash : hexToBin sha256.raw aknanoSha256Len with - | expectedHash
      · rfl
      · exact absurd ⟨sha256, hfound, hlen, (hexToBin_spec hlen hhash).1⟩ hnone

theorem incomplete_of_fault {data : Json} {rank : Nat}
    (h : judgeTarget overflow hwid tag data = .fault rank) : Incomplete hwid tag data := by
  rcases hv : targetVersion? overflow data with - | version
  · rw [judgeTarget_of_none hv] at h
    cases h
  rw [judgeTarget, hv] at h
  dsimp only at h
  rcases hids : data.search ["custom", "hardwareIds"] with - | ids
  · exact .hardwareIds hids
  rw [hids] at h
  dsimp only at h
  by_cases hmatch : foundMatch ids hwid
  · rw [if_neg (not_not.mpr hmatch)] at h
    have hwid' := acceptsField_iff.mp ⟨ids, hids, hmatch⟩
    rcases htags : data.search ["custom", "tags"] with - | tags
    · exact .tags hwid' htags
    rw [htags] at h
    dsimp only at h
    by_cases hmatch' : foundMatch tags tag
    · rw [if_neg (not_not.mpr hmatch')] at h
      refine .sha256 hwid' (acceptsField_iff.mp ⟨tags, htags, hmatch'⟩) ?_
      rintro ⟨sha256, hsha, hlen, hhex⟩
      obtain ⟨expectedHash, hhash⟩ := hexToBin_isSome hlen hhex
      have hfilter : (data.search ["hashes", "sha256"]).filter
          (·.raw.length = aknanoSha256Len * 2) = some sha256 :=
        Option.filter_eq_some_iff.mpr ⟨hsha, decide_eq_true hlen⟩
      rw [hfilter] at h
      dsimp only at h
      rw [hhash] at h
      dsimp only at h
      split at h <;> cases h
    · rw [if_pos hmatch'] at h
      cases h
  · rw [if_pos hmatch] at h
    cases h

/-- Being above, as the library says it and as the manifest does. -/
theorem above_iff {before : List Json} {e : Json} :
    Above AknanoTarget.rank (judgeTarget overflow hwid tag) selectedTarget before
        (targetVersion overflow e).toNat ↔
      Exceeds overflow hwid tag selectedTarget before e := by
  refine and_congr BitVec.lt_def.symm (forall₂_congr fun e' _ => ⟨fun h hqualifies => ?_, ?_⟩)
  · exact BitVec.lt_def.mpr (h _ (judgeTarget_take_iff.mpr ⟨hqualifies, rfl⟩))
  · intro h target htake
    obtain ⟨hqualifies, rfl⟩ := judgeTarget_take_iff.mp htake
    exact BitVec.lt_def.mp (h hqualifies)

theorem stops_iff {before : List Json} {e : Json} :
    Stops AknanoTarget.rank (judgeTarget overflow hwid tag) selectedTarget before e ↔
      EndsWalk overflow hwid tag selectedTarget before e := by
  rw [Stops, EndsWalk, judgeTarget_stop_iff]
  rcases hsearch : e.search ["custom", "version"] with - | v
  · exact iff_of_true (Or.inl rfl) (Or.inl rfl)
  have hv : targetVersion? overflow e = some (targetVersion overflow e) := by
    rw [targetVersion, targetVersion?, hsearch]
    rfl
  refine or_congr_right ⟨?_, ?_⟩
  · rintro ⟨rank, hfault, habove⟩
    have hincomplete := incomplete_of_fault hfault
    obtain rfl := Verdict.fault.inj (hfault.symm.trans (judgeTarget_of_incomplete hv hincomplete))
    exact ⟨hincomplete, above_iff.mp habove⟩
  · rintro ⟨hincomplete, hexceeds⟩
    exact ⟨_, judgeTarget_of_incomplete hv hincomplete, above_iff.mpr hexceeds⟩

/-- **The walk** gets past the entries in front of the first error. -/
theorem live_eq_iff_walked {entries walked : List Json} :
    live AknanoTarget.rank (judgeTarget overflow hwid tag) selectedTarget entries = walked ↔
      Walked overflow hwid tag selectedTarget entries walked := by
  rw [live_eq_iff]
  simp only [stops_iff]
  exact ⟨fun ⟨hgoes, hends⟩ => ⟨hgoes, hends⟩, fun h => ⟨h.goes, h.ends⟩⟩

/-- **The entry a selection is taken from** is the one that wins. -/
theorem taken_eq_some_iff_wins {entries : List Json} {e : Json} :
    taken AknanoTarget.rank (judgeTarget overflow hwid tag) selectedTarget entries = some e ↔
      Wins overflow hwid tag selectedTarget entries e := by
  rw [taken_eq_some_iff]
  constructor
  · rintro ⟨before, after, target, hsplit, htake, habove, hafter⟩
    obtain ⟨hqualifies, rfl⟩ := judgeTarget_take_iff.mp htake
    refine ⟨before, after, live_eq_iff_walked.mp hsplit, hqualifies, above_iff.mp habove, ?_⟩
    intro e' he' hqualifies'
    exact BitVec.le_def.mpr (hafter e' he' _ (judgeTarget_take_iff.mpr ⟨hqualifies', rfl⟩))
  · rintro ⟨before, after, hwalked, hqualifies, hexceeds, hafter⟩
    refine ⟨before, after, _, live_eq_iff_walked.mpr hwalked,
      judgeTarget_take_iff.mpr ⟨hqualifies, rfl⟩, above_iff.mpr hexceeds, ?_⟩
    intro e' he' target htake
    obtain ⟨hqualifies', rfl⟩ := judgeTarget_take_iff.mp htake
    exact BitVec.le_def.mp (hafter e' he' hqualifies')

/-! ### Targets meant for the device -/

theorem selectsForDevice_iff_taken {data : Option Json} (htag : tag ≠ []) :
    SelectsForDevice overflow hwid tag data selectedTarget ↔
      ∀ e, taken AknanoTarget.rank (judgeTarget overflow hwid tag) selectedTarget
          (targetEntries data) = some e →
        ListsWhole e "hardwareIds" hwid ∧ ListsWhole e "tags" tag := by
  rw [SelectsForDevice, parseTargetsMetadata_snd data htag, takenFrom_eq_taken]
  constructor
  · intro h e htaken
    -- what was taken is above the start, so the selection has changed
    have habove : selectedTarget.rank < (scan AknanoTarget.rank (judgeTarget overflow hwid tag)
        selectedTarget (targetEntries data)).rank := by
      obtain ⟨before, after, target, -, htake, habove, -⟩ := taken_eq_some_iff.mp htaken
      rw [← Verdict.take.inj (htake.symm.trans (judge_of_taken htaken))]
      exact habove.1
    obtain ⟨e', htaken', hlists⟩ := h fun heq => habove.ne (congrArg AknanoTarget.rank heq.symm)
    obtain rfl := Option.some.inj (htaken.symm.trans htaken')
    exact hlists
  · intro h hne
    rcases htaken : taken AknanoTarget.rank (judgeTarget overflow hwid tag) selectedTarget
      (targetEntries data) with - | e
    · exact absurd (scan_of_taken_none htaken) hne
    · exact ⟨e, rfl, h e htaken⟩

/-- **When only a target meant for the device is selected**: exactly when the
entry that wins is not one that strays list, in the place of the device's
hardware id or of its tag. -/
theorem parseTargetsMetadata_selectsForDevice_iff (data : Option Json) (htag : tag ≠ [])
    (selectedTarget : AknanoTarget) :
    SelectsForDevice overflow hwid tag data selectedTarget ↔
      ∀ e, Wins overflow hwid tag selectedTarget (targetEntries data) e →
        ¬ ListsStrays e "hardwareIds" hwid ∧ ¬ ListsStrays e "tags" tag := by
  rw [selectsForDevice_iff_taken htag]
  simp only [taken_eq_some_iff_wins]
  refine forall₂_congr fun e hwins => ?_
  obtain ⟨-, -, -, hqualifies, -⟩ := hwins
  rw [hqualifies.hardwareIds.whole_iff, hqualifies.tags.whole_iff]

/-- A newer entry for another board is passed over. -/
theorem parseTargetsMetadata_selectsForDevice_evk :
    let manifest := sampleManifest [("fw-v9", sampleEntry "9" ["MIMXRT1170-EVK"] ["devel"]),
      ("fw-v7", sampleEntry "7" ["MIMXRT1060-EVK"] ["devel"])]
    SelectsForDevice (fun _ _ => 0) (ascii "MIMXRT1060-EVK") (ascii "devel") (some manifest)
        .zero ∧
      (parseTargetsMetadata (fun _ _ => 0) (some manifest) (some (ascii "MIMXRT1060-EVK"))
        (ascii "devel") .zero).2.version = 7 := by
  refine ⟨(parseTargetsMetadata_selectsForDevice_iff _ (by decide) .zero).mpr ?_, by decide⟩
  intro e hwins
  have hmem := List.mem_pair.mp hwins.mem
  obtain ⟨-, -, -, ⟨-, ⟨ids, hids, v, hv, htaken⟩, -⟩, -⟩ := hwins
  rcases hmem with rfl | rfl
  · -- the other board's name does not begin this one's
    obtain rfl := Option.some.inj ((sampleEntry_hardwareIds ..).symm.trans hids)
    obtain rfl := List.mem_singleton.mp hv
    rcases htaken with hbegins | ⟨hnul, -⟩
    · exact absurd hbegins (by decide)
    · exact absurd hnul (by decide)
  · constructor
    · rintro ⟨values, hsearch, -, hnone⟩
      obtain rfl := Option.some.inj ((sampleEntry_hardwareIds ..).symm.trans hsearch)
      exact hnone (List.mem_singleton_self _)
    · rintro ⟨values, hsearch, -, hnone⟩
      obtain rfl := Option.some.inj ((sampleEntry_tags ..).symm.trans hsearch)
      exact hnone (List.mem_singleton_self _)

/-- An entry for the board `MIMXRT1060` is selected on a `MIMXRT1060-EVK`. -/
theorem parseTargetsMetadata_selects_prefix :
    ¬ SelectsForDevice (fun _ _ => 0) (ascii "MIMXRT1060-EVK") (ascii "devel")
      (some (sampleManifest [("fw-v7", sampleEntry "7" ["MIMXRT1060"] ["devel"])])) .zero := by
  intro h
  obtain ⟨e, htaken, ⟨values, hsearch, hmem⟩, -⟩ := h (by decide)
  have hentry : takenFrom (fun _ _ => 0) (ascii "MIMXRT1060-EVK") (ascii "devel") .zero
      (targetEntries (some (sampleManifest [("fw-v7", sampleEntry "7" ["MIMXRT1060"] ["devel"])])))
      = some (sampleEntry "7" ["MIMXRT1060"] ["devel"]) := rfl
  obtain rfl := Option.some.inj (hentry.symm.trans htaken)
  obtain rfl := Option.some.inj ((sampleEntry_hardwareIds ..).symm.trans hsearch)
  exact absurd (Json.str.inj (List.mem_singleton.mp hmem)) (by decide)

end AktualizrNano
