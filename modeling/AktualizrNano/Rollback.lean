/-
AktualizrNano/Rollback.lean

A version that was rolled back is not installed again.

The protection is in the settings: `last_applied_version` is the version that
was tried last, and it must not be forgotten when that version is given up.
`Stage` says how the settings and the state of the bootloader belong together
between two boots, and `Sound` what holds at every point of a run in which the
device does what it is asked (`Event.Undisturbed`).
-/
import AktualizrNano.Lifetime

namespace AktualizrNano

open CLib NorFlash Trace

/-! ### The settings and the bootloader -/

/-- The highest version the settings can hold. -/
abbrev maxVersion : Version := 999999999

/-- Settings that are written are there, versions are in range, and the agent
is not cut short while it installs or saves. -/
def Event.Kept : Event → Prop
  | .install target _ => target.version ≤ maxVersion
  | .completed _ _ saved => saved = true
  | .installed _ _ saved => saved = true
  | .cut _ => False
  | _ => True

/-- Settings can be read, and the bootloader does what it is told.  It may
refuse to confirm an image that is permanent anyway. -/
def Event.Obeyed : Event → Prop
  | .loaded readsOk _ _ => readsOk = true
  | .confirmed ok onTrial _ => ok = true ∨ onTrial = false
  | .readyForTest _ ok => ok = true
  | _ => True

/-- What is assumed of the device. -/
@[mk_iff] structure Event.Undisturbed (ev : Event) : Prop where
  kept : ev.Kept
  obeyed : ev.Obeyed

theorem checkedVersion_of_le {v : Version} (h : v ≤ maxVersion) : checkedVersion v = v :=
  if_neg (BitVec.not_lt.mpr h)

theorem runningVersionOf_of_le {v : Version} (h : v ≤ maxVersion) : runningVersionOf v = v := by
  apply if_neg
  rintro rfl
  exact absurd h (by decide)

theorem Ram.stored_of_le {r : Ram} (happlied : r.applied ≤ maxVersion)
    (hconfirmed : r.confirmed ≤ maxVersion) : r.stored = ⟨r.applied, r.confirmed, r.ongoing⟩ := by
  rw [Ram.stored, checkedVersion_of_le happlied, checkedVersion_of_le hconfirmed]

theorem indicatesRollback_iff {s : Stored} {running : Version} :
    s.indicatesRollback running = true ↔
      s.applied ≠ 0 ∧ s.applied ≠ running ∧ s.ongoing = true := decide_eq_true_iff

/-- The three situations between two boots.  In the last two an update is under
way, and the image to come back to is the one that was confirmed last. -/
inductive Stage (s : Stored) (b : Boot) : Prop
  | permanent (harmed : b.armed = none) (hfallback : b.fallback = none)
      (hreported : s.indicatesRollback b.running = true → s.confirmed = b.running)
  | onTrial (harmed : b.armed = none) (hfallback : b.fallback = some s.confirmed)
      (happlied : s.applied = b.running) (hunderWay : s.indicatesRollback s.confirmed = true)
  | armed (harmed : b.armed = some s.applied) (hfallback : b.fallback = none)
      (hconfirmed : s.confirmed = b.running) (hunderWay : s.indicatesRollback s.confirmed = true)

/-- **What a reset does**, by the situation it finds. -/
theorem Stage.reset_cases {s : Stored} {b : Boot} (h : Stage s b) :
    (b.armed = some s.applied ∧ b.pick = .trial s.applied ∧ s.confirmed = b.running ∧
      s.indicatesRollback s.confirmed = true ∧
      b.reset = ⟨b.active.other, s.applied, some s.confirmed, some b.running, none⟩) ∨
    (b.fallback = some s.confirmed ∧ b.pick = .reverted s.applied ∧ s.applied = b.running ∧
      s.indicatesRollback s.confirmed = true ∧
      b.reset = ⟨b.active.other, s.confirmed, none, some b.running, none⟩) ∨
    (b.armed = none ∧ b.fallback = none ∧ b.pick = .same ∧ b.reset = b) := by
  cases h with
  | permanent harmed hfallback =>
    refine Or.inr (Or.inr ⟨harmed, hfallback, ?_, ?_⟩)
    · rw [Boot.pick, harmed, hfallback]
    · rw [Boot.reset, harmed, hfallback]
  | onTrial harmed hfallback happlied hunderWay =>
    refine Or.inr (Or.inl ⟨hfallback, ?_, happlied, hunderWay, ?_⟩)
    · rw [Boot.pick, harmed, hfallback, happlied]
    · rw [Boot.reset, harmed, hfallback]
  | armed harmed hfallback hconfirmed hunderWay =>
    refine Or.inl ⟨harmed, ?_, hconfirmed, hunderWay, ?_⟩
    · rw [Boot.pick, harmed]
    · rw [Boot.reset, harmed, hconfirmed]

/-- **A reset** leads from one situation to another. -/
theorem Stage.reset {s : Stored} {b : Boot} (h : Stage s b) : Stage s b.reset := by
  rcases h.reset_cases with ⟨-, -, -, hunderWay, hreset⟩ | ⟨-, -, -, -, hreset⟩ | ⟨-, -, -, hreset⟩
  · rw [hreset]
    exact .onTrial rfl rfl rfl hunderWay
  · rw [hreset]
    exact .permanent rfl rfl fun _ => rfl
  · rw [hreset]
    exact h

/-- **Confirming** ends a trial. -/
theorem Stage.confirm {s : Stored} {b : Boot} (h : Stage s b) (harmed : b.armed = none) :
    Stage s b.confirm := by
  cases h with
  | permanent _ _ hreported => exact .permanent harmed rfl hreported
  | onTrial _ _ happlied =>
    refine .permanent harmed rfl fun hflag => ?_
    exact absurd happlied (indicatesRollback_iff.mp hflag).2.1
  | armed hsome => cases harmed.symm.trans hsome

/-- Without a trial, settings that indicate a rollback have the running version
confirmed. -/
theorem Stage.confirmed_eq {s : Stored} {b : Boot} (h : Stage s b) (harmed : b.armed = none)
    (hfallback : b.fallback = none) (hflag : s.indicatesRollback b.running = true) :
    s.confirmed = b.running := by
  cases h with
  | permanent _ _ hreported => exact hreported hflag
  | onTrial _ hsome => cases hfallback.symm.trans hsome
  | armed hsome => cases harmed.symm.trans hsome

/-- Between two boots. -/
structure Rest (s : Stored) (b : Boot) : Prop where
  stage : Stage s b
  applied_le : s.applied ≤ maxVersion
  confirmed_le : s.confirmed ≤ maxVersion
  running_le : b.running ≤ maxVersion

theorem Rest.reset {s : Stored} {b : Boot} (h : Rest s b) : Rest s b.reset := by
  refine ⟨h.stage.reset, h.applied_le, h.confirmed_le, ?_⟩
  rcases h.stage.reset_cases with ⟨-, -, -, -, hreset⟩ | ⟨-, -, -, -, hreset⟩ | ⟨-, -, -, hreset⟩
  · rw [hreset]
    exact h.applied_le
  · rw [hreset]
    exact h.confirmed_le
  · rw [hreset]
    exact h.running_le

/-! ### A run -/

/-- While the agent runs and does not install. -/
structure Awake (s : Stored) (b : Boot) (ram : Ram) : Prop where
  rest : Rest s b
  unarmed : b.armed = none
  running : ram.running = b.running
  applied : ram.applied = s.applied
  confirmed : ram.confirmed = s.confirmed
  unfinished : ram.finished = false → ram.rolledBack = s.indicatesRollback b.running
  finished : ram.finished = true → b.fallback = none ∧ s.confirmed = b.running

/-- While it installs. -/
structure Installing (b : Boot) (ram : Ram) (target : AknanoTarget) : Prop where
  fallback : b.fallback = none
  running : ram.running = b.running
  confirmed : ram.confirmed = b.running
  finished : ram.finished = true
  ongoing : ram.ongoing = true
  newer : b.running < target.version
  target_le : target.version ≤ maxVersion
  applied_le : ram.applied ≤ maxVersion
  running_le : b.running ≤ maxVersion

/-- **The invariant.** -/
inductive Sound : Machine → Prop
  | off {s : Stored} {b : Boot} (h : Rest s b) : Sound ⟨s, b, .off⟩
  | loading {s : Stored} {b : Boot} (h : Rest s b) (hunarmed : b.armed = none) :
      Sound ⟨s, b, .loading⟩
  | awake {s : Stored} {b : Boot} {ram : Ram} {task : Task} (h : Awake s b ram)
      (hfree : task.Free)
      (hrefused : ∀ metadata, task = .refreshed metadata true → b.fallback = none) :
      Sound ⟨s, b, .awake ram task⟩
  | downloading {s : Stored} {b : Boot} {ram : Ram} {target : AknanoTarget}
      (h : Installing b ram target) (hunarmed : b.armed = none)
      (hother : target.version ≠ ram.applied) : Sound ⟨s, b, .awake ram (.downloading target)⟩
  | fetched {s : Stored} {b : Boot} {ram : Ram} {target : AknanoTarget}
      (h : Installing b ram target) : Sound ⟨s, b, .awake ram (.fetched target)⟩
  | failed {s : Stored} {b : Boot} {ram : Ram} {target : AknanoTarget}
      (h : Installing b ram target) (hunarmed : b.armed = none) :
      Sound ⟨s, b, .awake ram (.closing target false)⟩
  | armed {s : Stored} {b : Boot} {ram : Ram} {target : AknanoTarget}
      (h : Installing b ram target) (happlied : ram.applied = target.version)
      (harmed : b.armed = some target.version) :
      Sound ⟨s, b, .awake ram (.closing target true)⟩

variable {p : Platform} {e : Env} {s s' : Stored} {b : Boot} {ram : Ram} {task : Task}
variable {target : AknanoTarget} {metadata : List Byte} {refused : Bool}

/-- What holds after a refresh. -/
theorem Sound.of_refreshed (h : Sound ⟨s, b, .awake ram (.refreshed metadata refused)⟩) :
    Awake s b ram ∧ (refused = true → b.fallback = none) := by
  cases h with
  | awake h hfree hrefused => exact ⟨h, fun hr => hrefused metadata (hr ▸ rfl)⟩

/-- Past the confirmation the image is permanent. -/
theorem Sound.fallback_eq (h : Sound ⟨s, b, .awake ram (.refreshed metadata refused)⟩)
    (hperm : refused = false → b.fallback = none) : b.fallback = none := by
  cases refused with
  | false => exact hperm rfl
  | true => exact h.of_refreshed.2 rfl

/-- **The end of an update.**  A version that was given up is kept. -/
theorem Awake.completed (h : Awake s b ram) (hfallback : b.fallback = none)
    (hfinished : ram.finished = false) (hsaved : s' = ram.completed.stored) :
    Awake s' b ram.completed ∧
      s' = ⟨if ram.rolledBack then s.applied else 0, b.running, false⟩ := by
  have hcompleted : ram.completed
      = ⟨b.running, if ram.rolledBack then s.applied else 0, b.running, false, ram.rolledBack,
        true⟩ := by
    rcases hr : ram.rolledBack with - | -
    · simp [Ram.completed, hr, h.running]
    -- a rollback was indicated, so the running version is the confirmed one
    · have hconfirmed := h.rest.stage.confirmed_eq h.unarmed hfallback
        ((h.unfinished hfinished).symm.trans hr)
      simp [Ram.completed, hr, h.running, h.applied, h.confirmed, hconfirmed]
  have happlied : (if ram.rolledBack then s.applied else 0) ≤ maxVersion := by
    split
    · exact h.rest.applied_le
    · decide
  have hstored : s' = ⟨if ram.rolledBack then s.applied else 0, b.running, false⟩ := by
    rw [hsaved, hcompleted]
    exact Ram.stored_of_le happlied h.rest.running_le
  refine ⟨?_, hstored⟩
  rw [hcompleted, hstored]
  refine ⟨⟨.permanent h.unarmed hfallback fun _ => rfl, happlied, h.rest.running_le,
    h.rest.running_le⟩, h.unarmed, rfl, rfl, rfl, nofun, fun _ => ⟨hfallback, rfl⟩⟩

/-- **The start of an installation.** -/
theorem Awake.install (h : Awake s b ram) (hfallback : b.fallback = none)
    (hfinished : ram.finished = true) (hnewer : ram.running < target.version)
    (hle : target.version ≤ maxVersion) : Installing b { ram with ongoing := true } target where
  fallback := hfallback
  running := h.running
  confirmed := h.confirmed.trans (h.finished hfinished).2
  finished := hfinished
  ongoing := rfl
  newer := h.running ▸ hnewer
  target_le := hle
  applied_le := h.applied ▸ h.rest.applied_le
  running_le := h.rest.running_le

/-- A version above the running one is one that can be given up. -/
theorem Installing.indicatesRollback (h : Installing b ram target)
    (happlied : ram.applied = target.version) :
    (⟨ram.applied, ram.confirmed, ram.ongoing⟩ : Stored).indicatesRollback ram.confirmed
      = true := by
  have hnewer := h.newer
  rw [indicatesRollback_iff, happlied, h.confirmed]
  refine ⟨?_, ?_, h.ongoing⟩
  · intro heq
    rw [show target.version = 0 from heq] at hnewer
    exact absurd hnewer BitVec.not_lt_zero
  · intro heq
    rw [show target.version = b.running from heq] at hnewer
    exact absurd hnewer (BitVec.lt_irrefl _)

theorem Installing.stored (h : Installing b ram target) :
    ram.stored = ⟨ram.applied, ram.confirmed, ram.ongoing⟩ :=
  Ram.stored_of_le h.applied_le (h.confirmed ▸ h.running_le)

/-- **One step.** -/
theorem Sound.step {m m' : Machine} {ev : Event} (h : Sound m) (hev : ev.Undisturbed)
    (hstep : Step p e m ev m') : Sound m' := by
  cases hstep with
  | @reset m hfree =>
    obtain ⟨s, b, phase⟩ := m
    have hrest : Rest s b := by
      cases h with
      | off h => exact h
      | loading h => exact h
      | awake h => exact h.rest
      | downloading | fetched | failed | armed => exact hfree.elim
    exact .loading hrest.reset b.reset_armed
  | loaded hrunning hread =>
    cases h with
    | loading h hunarmed =>
      obtain rfl := hread hev.obeyed
      -- in range, so that neither version nor build number is replaced
      rw [runningVersionOf_of_le h.running_le] at hrunning
      subst hrunning
      exact .awake ⟨h, hunarmed, rfl, rfl, rfl, fun _ => rfl, nofun⟩ trivial nofun
  | iteration hfree =>
    cases h with
    | awake h => exact .awake h trivial nofun
    | downloading | fetched | failed | armed => exact hfree.elim
  | refreshed hfresh =>
    cases h with
    | awake h => exact .awake h trivial nofun
  | @confirmed s b b' ram metadata ok hboot =>
    obtain ⟨h, -⟩ := h.of_refreshed
    cases ok with
    | true =>
      subst hboot
      refine .awake ⟨⟨h.rest.stage.confirm h.unarmed, h.rest.applied_le, h.rest.confirmed_le,
        h.rest.running_le⟩, h.unarmed, h.running, h.applied, h.confirmed, h.unfinished, ?_⟩
        trivial nofun
      exact fun hfinished => ⟨rfl, (h.finished hfinished).2⟩
    | false =>
      subst hboot
      -- a refusal is possible for an image that is permanent already
      refine .awake h trivial fun _ _ => ?_
      simpa using hev.obeyed.resolve_left Bool.false_ne_true
  | settled hperm hfinished hrolled hreported =>
    have hfallback := h.fallback_eq hperm
    obtain ⟨h, -⟩ := h.of_refreshed
    refine .awake ⟨h.rest, h.unarmed, h.running, h.applied, h.confirmed, nofun, ?_⟩ trivial
      fun _ _ => hfallback
    exact fun _ => ⟨hfallback, h.confirmed.symm.trans (hreported.trans h.running)⟩
  | completed hperm hfinished hdue hsaved =>
    have hfallback := h.fallback_eq hperm
    obtain ⟨h, -⟩ := h.of_refreshed
    exact .awake (h.completed hfallback hfinished (hsaved hev.kept)).1 trivial fun _ _ => hfallback
  | install hperm hfinished hoffered hnewer hother =>
    have hfallback := h.fallback_eq hperm
    obtain ⟨h, -⟩ := h.of_refreshed
    exact .downloading (h.install hfallback hfinished hnewer hev.kept) h.unarmed hother
  | @downloaded s b ram target ok =>
    cases h with
    | awake h hfree => exact hfree.elim
    | downloading h hunarmed hother =>
      have h' : Installing { b with inactive := if ok then some target.version else none } ram
          target := ⟨h.fallback, h.running, h.confirmed, h.finished, h.ongoing, h.newer,
        h.target_le, h.applied_le, h.running_le⟩
      cases ok with
      | true => exact .fetched h'
      | false => exact .failed h' hunarmed
  | @readyForTest s b ram target ok hheld =>
    cases h with
    | awake h hfree => exact hfree.elim
    | fetched h =>
      obtain rfl : ok = true := hev.obeyed
      refine .armed ⟨h.fallback, h.running, h.confirmed, h.finished, h.ongoing, h.newer,
        h.target_le, h.target_le, h.running_le⟩ rfl hheld
  | @installed s s' b ram target armed saved hsaved =>
    obtain rfl : s' = ram.stored := hsaved hev.kept
    cases h with
    | awake h hfree => exact hfree.elim
    | failed h hunarmed =>
      rw [h.stored]
      have hrest : Rest ⟨ram.applied, ram.confirmed, ram.ongoing⟩ b :=
        ⟨.permanent hunarmed h.fallback fun _ => h.confirmed, h.applied_le,
          h.confirmed ▸ h.running_le, h.running_le⟩
      refine .awake ⟨hrest, hunarmed, h.running, rfl, rfl, ?_, fun _ => ⟨h.fallback, h.confirmed⟩⟩
        trivial nofun
      exact fun hunfinished => absurd h.finished (by rw [hunfinished]; decide)
    | armed h happlied harmed =>
      rw [h.stored]
      refine .off ⟨.armed ?_ h.fallback h.confirmed (h.indicatesRollback happlied), h.applied_le,
        h.confirmed ▸ h.running_le, h.running_le⟩
      exact harmed.trans (congrArg some happlied.symm)
  | cut => exact hev.kept.elim

/-- The start of a record, where the settings indicate no rollback. -/
theorem Sound.start {w : World} (hstart : StartsPermanent w)
    (hrunning : w.boot.running ≤ maxVersion)
    (hclean : (storedOf p w.flash.mem).indicatesRollback w.boot.running = false) :
    Sound (machineOf p w) := by
  refine .off ⟨.permanent hstart.armed hstart.fallback fun hflag => ?_, ?_, ?_, hrunning⟩
  · exact absurd hflag (by rw [hclean]; decide)
  · show (if _ > maxVersion then (0 : Version) else _) ≤ maxVersion
    split
    · decide
    · exact BitVec.not_lt.mp ‹_›
  · show (if _ > maxVersion then (0 : Version) else _) ≤ maxVersion
    split
    · decide
    · exact BitVec.not_lt.mp ‹_›

/-- Erased settings are those of a new device. -/
theorem storedOf_erased {m : Mem} (h : ∀ x, stateLo ≤ x → x < stateHi → m x = 0xFF) :
    storedOf p m = ⟨0, 0, false⟩ := by
  have hsector : SameSector (fun _ => 0xFF) m := h
  -- an id of erased bytes does not pass the check
  have hdropped : ∀ id : CharArray aknanoMaxUpdateCorrelationIdLength,
      id.bytes.headD 0 = 0xFF → hasId (dropInvalidId p id) = false := by
    intro id hhead
    have hdrop : dropInvalidId p id = id.store [0] := if_pos (Or.inr (by rw [hhead]; decide))
    rw [hdrop, hasId_eq, CharArray.store_bytes_of_le (by decide)]
    rfl
  rw [storedOf_congr hsector]
  have hid : hasId (checkedFields p (storedFields fun _ => 0xFF)).ongoingUpdateCorrelationId
      = false := hdropped _ rfl
  show Stored.mk _ _ (hasId _) = _
  rw [hid]
  rfl

/-! ### A version that was rolled back -/

/-- Version `v` was installed and the bootloader has reverted it; no other
version has been downloaded since. -/
def RolledBack (v : Version) : List Event → Prop :=
  Since (fun ev older => (∃ permanent, ev = .reset (.reverted v) permanent) ∧
      ∃ saved, .installed v true saved ∈ older)
    fun ev => ∃ w applied, w ≠ v ∧ ev = .downloaded w true applied

theorem rolledBack_iff {v : Version} {es : List Event} : RolledBack v es ↔
    ∃ newer permanent older, es = newer ++ .reset (.reverted v) permanent :: older ∧
      (∃ saved, .installed v true saved ∈ older) ∧
      ∀ w applied, w ≠ v → .downloaded w true applied ∉ newer := by
  rw [RolledBack, since_iff]
  constructor
  · rintro ⟨newer, ev, older, hes, ⟨⟨permanent, rfl⟩, hinstalled⟩, hnewer⟩
    exact ⟨newer, permanent, older, hes, hinstalled,
      fun w applied hne hmem => hnewer _ hmem ⟨w, applied, hne, rfl⟩⟩
  · rintro ⟨newer, permanent, older, hes, hinstalled, hnewer⟩
    refine ⟨newer, _, older, hes, ⟨⟨permanent, rfl⟩, hinstalled⟩, ?_⟩
    rintro _ hmem ⟨w, applied, hne, rfl⟩
    exact hnewer w applied hne hmem

/-- What the settings must hold of such a version: while the agent installs,
the settings in RAM. -/
def Machine.Remembers (m : Machine) (v : Version) : Prop :=
  match m.phase with
  | .awake ram (.downloading _) => ram.applied = v
  | .awake _ (.fetched _) => False
  | .awake ram (.closing _ armed) => armed = false ∧ ram.applied = v
  | _ => m.boot.armed = none ∧ m.boot.fallback = none ∧ m.stored.applied = v ∧
      m.stored.confirmed = m.boot.running

variable {v : Version} {phase : Phase} {es : List Event} {ev : Event} {m m' : Machine}

theorem remembers_of_free (hfree : phase.Free) :
    (⟨s, b, phase⟩ : Machine).Remembers v ↔
      b.armed = none ∧ b.fallback = none ∧ s.applied = v ∧ s.confirmed = b.running := by
  cases phase with
  | off => exact Iff.rfl
  | loading => exact Iff.rfl
  | awake ram task =>
    cases task with
    | idle => exact Iff.rfl
    | checking => exact Iff.rfl
    | refreshed metadata refused => exact Iff.rfl
    | downloading => exact hfree.elim
    | fetched => exact hfree.elim
    | closing => exact hfree.elim

/-- Where a reset can come the settings are at rest. -/
theorem Sound.rest (h : Sound ⟨s, b, phase⟩) (hfree : phase.Free) : Rest s b := by
  cases h with
  | off h => exact h
  | loading h => exact h
  | awake h => exact h.rest
  | downloading | fetched | failed | armed => exact hfree.elim

/-- **One step**: what was rolled back is remembered. -/
theorem remembers_step (hsound : Sound m) (h : ∀ v, RolledBack v es → m.Remembers v)
    (hev : ev.Undisturbed) (hstep : Step p e m ev m') :
    ∀ v, RolledBack v (ev :: es) → m'.Remembers v := by
  cases hstep with
  | @reset m hfree =>
    obtain ⟨s, b, phase⟩ := m
    have hstage := (hsound.rest hfree).stage
    rintro v (⟨⟨permanent, hreverted⟩, -⟩ | ⟨-, hold⟩)
    · injection hreverted with hpick
      rcases hstage.reset_cases with ⟨-, htrial, -⟩ | ⟨-, hrevert, -, -, hreset⟩ | ⟨-, -, hsame, -⟩
      · cases htrial.symm.trans hpick
      · obtain ⟨⟩ := hrevert.symm.trans hpick
        show b.reset.armed = none ∧ _
        rw [hreset]
        exact ⟨rfl, rfl, rfl, rfl⟩
      · cases hsame.symm.trans hpick
    · -- no update is under way: the reset does nothing
      have hkept := (remembers_of_free hfree).mp (h v hold)
      rcases hstage.reset_cases with ⟨harmed, -⟩ | ⟨hfallback, -⟩ | ⟨-, -, -, hreset⟩
      · cases harmed.symm.trans hkept.1
      · cases hfallback.symm.trans hkept.2.1
      · show b.reset.armed = none ∧ _
        rw [hreset]
        exact hkept
  | loaded hrunning hread =>
    rintro v (⟨⟨_, ⟨⟩⟩, -⟩ | ⟨-, hold⟩)
    exact h v hold
  | @iteration s b ram task hfree =>
    rintro v (⟨⟨_, ⟨⟩⟩, -⟩ | ⟨-, hold⟩)
    have hfree' : (Phase.awake ram task).Free := hfree
    exact (remembers_of_free hfree').mp (h v hold)
  | refreshed hfresh =>
    rintro v (⟨⟨_, ⟨⟩⟩, -⟩ | ⟨-, hold⟩)
    exact h v hold
  | @confirmed s b b' ram metadata ok hboot =>
    rintro v (⟨⟨_, ⟨⟩⟩, -⟩ | ⟨-, hold⟩)
    obtain ⟨harmed, hfallback, happlied, hconfirmed⟩ := h v hold
    cases ok with
    | true =>
      rw [hboot]
      exact ⟨harmed, rfl, happlied, hconfirmed⟩
    | false =>
      rw [hboot]
      exact ⟨harmed, hfallback, happlied, hconfirmed⟩
  | settled =>
    rintro v (⟨⟨_, ⟨⟩⟩, -⟩ | ⟨-, hold⟩)
    exact h v hold
  | completed hperm hfinished hdue hsaved =>
    rintro v (⟨⟨_, ⟨⟩⟩, -⟩ | ⟨-, hold⟩)
    obtain ⟨harmed, hfallback, happlied, hconfirmed⟩ := h v hold
    obtain ⟨hawake, -⟩ := hsound.of_refreshed
    obtain ⟨-, hs'⟩ := hawake.completed hfallback hfinished (hsaved hev.kept)
    -- the running version is the confirmed one, so there is a rollback to report
    have hrolled := hdue.resolve_right fun hne =>
      hne (hawake.confirmed.trans (hconfirmed.trans hawake.running.symm))
    refine ⟨harmed, hfallback, ?_, congrArg Stored.confirmed hs'⟩
    rw [hs', hrolled]
    exact happlied
  | install hperm hfinished hoffered hnewer hother =>
    rintro v (⟨⟨_, ⟨⟩⟩, -⟩ | ⟨-, hold⟩)
    obtain ⟨-, -, happlied, -⟩ := h v hold
    exact hsound.of_refreshed.1.applied.trans happlied
  | @downloaded s b ram target ok =>
    rintro v (⟨⟨_, ⟨⟩⟩, -⟩ | ⟨hspoils, hold⟩)
    have happlied : ram.applied = v := h v hold
    cases ok with
    | false => exact ⟨rfl, happlied⟩
    | true =>
      cases hsound with
      | awake _ hfree => exact hfree.elim
      | downloading _ _ hother =>
        -- a download of another version: this one may be forgotten
        refine absurd ⟨target.version, ram.applied, ?_, rfl⟩ hspoils
        exact fun heq => hother (heq.trans happlied.symm)
  | readyForTest hheld =>
    rintro v (⟨⟨_, ⟨⟩⟩, -⟩ | ⟨-, hold⟩)
    exact (h v hold).elim
  | @installed s s' b ram target armed saved hsaved =>
    rintro v (⟨⟨_, ⟨⟩⟩, -⟩ | ⟨-, hold⟩)
    obtain ⟨rfl, happlied⟩ := h v hold
    cases hsound with
    | awake _ hfree => exact hfree.elim
    | failed hinstalling hunarmed =>
      rw [hsaved hev.kept, hinstalling.stored]
      exact ⟨hunarmed, hinstalling.fallback, happlied, hinstalling.confirmed⟩
  | cut => exact hev.kept.elim

/-- The run so far, and what it has to remember. -/
structure Remembered (es : List Event) (m : Machine) : Prop where
  sound : Sound m
  remembers : ∀ v, RolledBack v es → m.Remembers v

theorem Remembered.step (h : Remembered es m) (hev : ev.Undisturbed) (hstep : Step p e m ev m') :
    Remembered (ev :: es) m' :=
  ⟨h.sound.step hev hstep, remembers_step h.sound h.remembers hev hstep⟩

/-- **A version that was rolled back is not installed again.**  On a new device
with a permanent image, in every life of it that is not disturbed: when an
installation starts, its version is not one that was installed and reverted,
unless another version was downloaded in between. -/
theorem rolledBack_notReinstalled {w : World} {boots : List Nat} {newer older : List Event}
    {target : AknanoTarget} {running : Version} (hstart : StartsPermanent w)
    (hrunning : w.boot.running ≤ maxVersion)
    (herased : ∀ x, stateLo ≤ x → x < stateHi → w.flash.mem x = 0xFF)
    (hall : ∀ ev ∈ (lifetime p e boots w).log, ev.Undisturbed)
    (hlog : (lifetime p e boots w).log = newer ++ .install target running :: older) :
    ¬ RolledBack target.version older := by
  obtain ⟨phase, hrun⟩ := lifetime_run (p := p) (e := e) boots hstart.new
  rw [hlog] at hrun hall
  obtain ⟨m₁, m₂, hrun₁, hstep⟩ := hrun.split
  have hclean : (storedOf p w.flash.mem).indicatesRollback w.boot.running = false := by
    rw [storedOf_erased herased]
    rfl
  have hinv : Remembered older m₁ :=
    hrun₁.invariant ⟨Sound.start hstart hrunning hclean, fun v h => h.elim⟩ Remembered.step
      fun ev hev => hall ev (by simp [hev])
  intro hrolled
  cases hstep with
  | install hperm hfinished hoffered hnewer hother =>
    obtain ⟨-, -, happlied, -⟩ := hinv.remembers _ hrolled
    exact hother ((hinv.sound.of_refreshed.1.applied.trans happlied).symm)

theorem offeringLog_undisturbed : ∀ ev ∈ offeringLog, ev.Undisturbed := by
  simp [offeringLog, Event.undisturbed_iff, Event.Kept, Event.Obeyed]

/-- When version 9 is installed, version 7 is one that was rolled back. -/
theorem rolledBack_notReinstalled_offering :
    RolledBack 7 (offeringLog.drop 5) ∧ ¬ RolledBack 9 (offeringLog.drop 5) := by
  refine ⟨by simp [RolledBack, offeringLog], ?_⟩
  have hlog : (lifetime .sample .offering [1, 0, 1, 0] (.factory 5)).log
      = offeringLog.take 4 ++ .install ⟨3, 9, ⟨List.replicate 32 0xAA, rfl⟩⟩ 5
        :: offeringLog.drop 5 := offering_log
  have hall : ∀ ev ∈ (lifetime .sample .offering [1, 0, 1, 0] (.factory 5)).log,
      ev.Undisturbed := by
    rw [offering_log]
    exact offeringLog_undisturbed
  exact rolledBack_notReinstalled (startsPermanent_factory 5) (by decide) (fun _ _ _ => rfl) hall
    hlog

end AktualizrNano
