/-
AktualizrNano/Trial.lean

An image on trial, in every life of a device.

The agent confirms the image at the first check-in that succeeds, and ignores
a refusal of the bootloader.  Only then can an installation start while
`is_image_permanent` is not set (`install_permanent_iff`), and only then is a
success recorded for an image that the next reset gives up
(`completion_permanent_iff`).

The version that goes on trial is on record in the settings if power was not
lost between the call of the bootloader and the save (`underTest_onRecord`).
-/
import AktualizrNano.Rollback

namespace AktualizrNano

open CLib NorFlash Outcome Trace

/-! ### What the record says of a trial -/

/-- The running image is on trial: it was at the last reset, and has not been
made permanent. -/
def OnTrial : List Event → Prop :=
  Since (fun ev _ => ∃ v permanent, ev = .reset (.trial v) permanent) fun ev =>
    (∃ pick permanent, ev = .reset pick permanent) ∨
      ∃ onTrial permanent, ev = .confirmed true onTrial permanent

/-- In this iteration the bootloader has refused to make the image permanent;
`onTrial` says whether it was on trial. -/
def ConfirmRefused (onTrial : Bool) : List Event → Prop :=
  Since (fun ev _ => ∃ permanent, ev = .confirmed false onTrial permanent) fun ev =>
    ev = .iteration

/-- The agent has tried to make the image permanent, in this boot. -/
def ConfirmTried : List Event → Prop :=
  Since (fun ev _ => ∃ ok onTrial permanent, ev = .confirmed ok onTrial permanent) fun ev =>
    ∃ pick permanent, ev = .reset pick permanent

/-- The completion handler has written the settings, or was cut short while it
did. -/
def Event.Closes : Event → Prop
  | .completed _ _ _ => True
  | .cut .saving => True
  | _ => False

variable {p : Platform} {e : Env} {m m' : Machine} {es : List Event} {ev : Event} {w : World}

theorem confirmRefused_cons {onTrial : Bool} (hev : ev ≠ .iteration)
    (hrefusal : ∀ permanent, ev ≠ .confirmed false onTrial permanent) :
    ConfirmRefused onTrial (ev :: es) ↔ ConfirmRefused onTrial es := by
  constructor
  · rintro (⟨permanent, heq⟩ | ⟨-, h⟩)
    · exact absurd heq (hrefusal permanent)
    · exact h
  · intro h
    exact Or.inr ⟨hev, h⟩

/-- A refusal is noted by the check-in, until the next one. -/
def Machine.NotesRefusal (es : List Event) (m : Machine) : Prop :=
  match m.phase with
  | .awake _ .checking => ∀ onTrial, ¬ ConfirmRefused onTrial es
  | .awake _ (.refreshed _ refused) => ∀ onTrial,
      ConfirmRefused onTrial es ↔ refused = true ∧ onTrial = m.boot.fallback.isSome
  | _ => True

theorem notesRefusal_step (h : m.NotesRefusal es) (hstep : Step p e m ev m') :
    m'.NotesRefusal (ev :: es) := by
  cases hstep with
  | iteration hfree =>
    intro onTrial
    rintro (⟨_, ⟨⟩⟩ | ⟨hspoils, -⟩)
    exact hspoils rfl
  | refreshed hfresh =>
    intro onTrial
    apply (confirmRefused_cons (by nofun) (by nofun)).trans
    exact ⟨fun hrefused => absurd hrefused (h onTrial), nofun⟩
  | @confirmed s b b' ram metadata ok hboot =>
    intro onTrial
    have hnone : ¬ ConfirmRefused onTrial es := fun hrefused =>
      Bool.false_ne_true ((h onTrial).mp hrefused).1
    cases ok with
    | true =>
      apply (confirmRefused_cons (by nofun) (by nofun)).trans
      exact ⟨fun hrefused => absurd hrefused hnone, nofun⟩
    | false =>
      subst hboot
      constructor
      · rintro (⟨_, ⟨⟩⟩ | ⟨-, hrefused⟩)
        · exact ⟨rfl, rfl⟩
        · exact absurd hrefused hnone
      · rintro ⟨-, rfl⟩
        exact Or.inl ⟨_, rfl⟩
  | settled =>
    intro onTrial
    exact (confirmRefused_cons (by nofun) (by nofun)).trans (h onTrial)
  | completed =>
    intro onTrial
    exact (confirmRefused_cons (by nofun) (by nofun)).trans (h onTrial)
  | @downloaded s b ram target ok => cases ok <;> trivial
  | @installed s s' b ram target armed => cases armed <;> trivial
  | reset | loaded | install | readyForTest | cut => trivial

/-- **A trial is on record.** -/
theorem onTrial_step (h : m.boot.fallback.isSome = true ↔ OnTrial es) (hstep : Step p e m ev m') :
    m'.boot.fallback.isSome = true ↔ OnTrial (ev :: es) := by
  -- an event that is neither a reset nor a confirmation leaves a trial as it is
  have hkeep : (∀ pick permanent, ev ≠ .reset pick permanent) →
      (∀ onTrial permanent, ev ≠ .confirmed true onTrial permanent) →
      m'.boot.fallback = m.boot.fallback →
      (m'.boot.fallback.isSome = true ↔ OnTrial (ev :: es)) := by
    intro hreset hconfirmed hsame
    rw [hsame, h]
    constructor
    · intro hold
      refine Or.inr ⟨?_, hold⟩
      rintro (⟨pick, permanent, heq⟩ | ⟨onTrial, permanent, heq⟩)
      · exact hreset pick permanent heq
      · exact hconfirmed onTrial permanent heq
    · rintro (⟨v, permanent, heq⟩ | ⟨-, hold⟩)
      · exact absurd heq (hreset _ permanent)
      · exact hold
  cases hstep with
  | reset hfree =>
    rcases m.boot.reset_cases with ⟨v, -, hpick, hreset⟩ | ⟨u, -, -, hpick, hreset⟩ |
      ⟨-, hfallback, hpick, hreset⟩
    · rw [hpick, hreset]
      exact ⟨fun _ => Or.inl ⟨v, _, rfl⟩, fun _ => rfl⟩
    · rw [hpick, hreset]
      refine ⟨nofun, ?_⟩
      rintro (⟨_, _, ⟨⟩⟩ | ⟨hspoils, -⟩)
      exact absurd (Or.inl ⟨_, _, rfl⟩) hspoils
    · rw [hpick, hreset]
      refine ⟨fun hsome => ?_, ?_⟩
      · rw [show m.boot.fallback = none from hfallback] at hsome
        cases hsome
      · rintro (⟨_, _, ⟨⟩⟩ | ⟨hspoils, -⟩)
        exact absurd (Or.inl ⟨_, _, rfl⟩) hspoils
  | @confirmed s b b' ram metadata ok hboot =>
    cases ok with
    | true =>
      subst hboot
      refine ⟨nofun, ?_⟩
      rintro (⟨_, _, ⟨⟩⟩ | ⟨hspoils, -⟩)
      exact absurd (Or.inr ⟨_, _, rfl⟩) hspoils
    | false =>
      subst hboot
      exact hkeep nofun nofun rfl
  | @readyForTest s b ram target ok =>
    refine hkeep nofun nofun ?_
    cases ok <;> rfl
  | loaded | iteration | refreshed | settled | completed | install | downloaded | installed | cut =>
    exact hkeep nofun nofun rfl

/-- Nothing is armed while the agent runs, but at the end of an installation. -/
def Machine.Unarmed (m : Machine) : Prop :=
  match m.phase with
  | .off => True
  | .awake _ (.closing _ true) => True
  | _ => m.boot.armed = none

theorem Machine.Unarmed.of_free {s : Stored} {b : Boot} {ram : Ram} {task : Task}
    (h : (⟨s, b, .awake ram task⟩ : Machine).Unarmed) (hfree : task.Free) : b.armed = none := by
  cases task with
  | idle => exact h
  | checking => exact h
  | refreshed => exact h
  | downloading => exact hfree.elim
  | fetched => exact hfree.elim
  | closing => exact hfree.elim

theorem unarmed_step (h : m.Unarmed) (hstep : Step p e m ev m') : m'.Unarmed := by
  cases hstep with
  | reset => exact m.boot.reset_armed
  | loaded => exact h
  | iteration hfree => exact h.of_free hfree
  | refreshed => exact h
  | @confirmed s b b' ram metadata ok hboot =>
    subst hboot
    cases ok <;> exact h
  | settled => exact h
  | completed => exact h
  | install => exact h
  | @downloaded s b ram target ok => cases ok <;> exact h
  | @readyForTest s b ram target ok =>
    cases ok with
    | true => trivial
    | false => exact h
  | @installed s s' b ram target armed =>
    cases armed with
    | true => trivial
    | false => exact h
  | cut => trivial

/-! ### Success is recorded for a permanent image -/

/-- The handler has written the settings of an image that was not refused on
trial, and nothing was armed since. -/
def ClosedPermanent : List Event → Prop :=
  Since (fun ev older => ev.Closes ∧ ¬ ConfirmRefused true older) fun ev =>
    ∃ v, ev = .readyForTest v true

/-- The bootloader and the record of trials. -/
structure Watched (es : List Event) (m : Machine) : Prop where
  refusal : m.NotesRefusal es
  onTrial : m.boot.fallback.isSome = true ↔ OnTrial es
  unarmed : m.Unarmed
  closed : ClosedPermanent es → m.boot.armed = none ∧ m.boot.fallback = none

/-- After a refresh an image is permanent, unless it was refused on trial. -/
theorem Machine.NotesRefusal.fallback {s : Stored} {b : Boot} {ram : Ram} {metadata : List Byte}
    {refused : Bool}
    (h : (⟨s, b, .awake ram (.refreshed metadata refused)⟩ : Machine).NotesRefusal es)
    (hperm : refused = false → b.fallback = none) :
    b.fallback = none ↔ ¬ ConfirmRefused true es := by
  have hiff : ConfirmRefused true es ↔ refused = true ∧ true = b.fallback.isSome := h true
  rw [hiff]
  constructor
  · rintro hnone ⟨-, hsome⟩
    rw [hnone] at hsome
    cases hsome
  · intro hnot
    cases refused with
    | false => exact hperm rfl
    | true =>
      by_contra hsome
      exact hnot ⟨rfl, (Option.isSome_iff_ne_none.mpr hsome).symm⟩

/-- **The completion handler** finds it so, and leaves the bootloader alone. -/
theorem closes_fallback (h : m.NotesRefusal es) (hunarmed : m.Unarmed) (hev : ev.Closes)
    (hstep : Step p e m ev m') : m'.boot = m.boot ∧ m.boot.armed = none ∧
      (m.boot.fallback = none ↔ ¬ ConfirmRefused true es) := by
  cases hstep with
  | completed hperm => exact ⟨rfl, hunarmed, Machine.NotesRefusal.fallback h hperm⟩
  | @cut s s' b ram task activity hbusy =>
    cases activity with
    | installing => exact hev.elim
    | saving =>
      cases task with
      | refreshed metadata refused =>
        exact ⟨rfl, hunarmed, Machine.NotesRefusal.fallback h hbusy⟩
      | _ => exact hbusy.elim
  | _ => exact hev.elim

theorem Watched.start (hstart : StartsPermanent w) : Watched [] (machineOf p w) := by
  refine ⟨trivial, ?_, trivial, False.elim⟩
  show w.boot.fallback.isSome = true ↔ False
  rw [hstart.fallback]
  exact ⟨nofun, False.elim⟩

/-- **One step.** -/
theorem Watched.step (h : Watched es m) (hstep : Step p e m ev m') : Watched (ev :: es) m' := by
  refine ⟨notesRefusal_step h.refusal hstep, onTrial_step h.onTrial hstep,
    unarmed_step h.unarmed hstep, ?_⟩
  rintro (⟨hcloses, hnot⟩ | ⟨hspoils, hold⟩)
  · obtain ⟨hboot, harmed, hfallback⟩ := closes_fallback h.refusal h.unarmed hcloses hstep
    rw [hboot]
    exact ⟨harmed, hfallback.mpr hnot⟩
  · -- nothing is armed: a reset changes nothing
    obtain ⟨harmed, hfallback⟩ := h.closed hold
    cases hstep with
    | reset =>
      rcases m.boot.reset_cases with ⟨v, hsome, -⟩ | ⟨u, -, hsome, -⟩ | ⟨-, -, -, hreset⟩
      · cases harmed.symm.trans hsome
      · cases hfallback.symm.trans hsome
      · rw [hreset]
        exact ⟨harmed, hfallback⟩
    | @confirmed s b b' ram metadata ok hboot =>
      subst hboot
      cases ok with
      | true => exact ⟨harmed, rfl⟩
      | false => exact ⟨harmed, hfallback⟩
    | @readyForTest s b ram target ok =>
      cases ok with
      | true => exact absurd ⟨target.version, rfl⟩ hspoils
      | false => exact ⟨harmed, hfallback⟩
    | _ => exact ⟨harmed, hfallback⟩

/-- **A success is recorded for a permanent image**, and no reset reverts it
before another image is armed, exactly if the bootloader did not refuse, in
that iteration, to make an image on trial permanent. -/
theorem completion_permanent_iff {boots : List Nat} {newer older : List Event}
    (hstart : StartsPermanent w)
    (hlog : (lifetime p e boots w).log = newer ++ ev :: older) (hev : ev.Closes) :
    (¬ OnTrial older ∧ ∀ newer₂ v permanent newer₁,
        newer = newer₂ ++ .reset (.reverted v) permanent :: newer₁ →
          ∃ u, .readyForTest u true ∈ newer₁) ↔
      ¬ ConfirmRefused true older := by
  obtain ⟨phase, hrun⟩ := lifetime_run (p := p) (e := e) boots hstart.new
  rw [hlog] at hrun
  have hwatched : ∀ {es m}, Run (Step p e) (machineOf p w) es m → Watched es m := fun h =>
    h.invariant (P := fun _ => True) (Watched.start hstart) (fun hw _ hs => hw.step hs)
      fun _ _ => trivial
  obtain ⟨m₁, m₂, hrun₁, hstep⟩ := hrun.split
  have h₁ := hwatched hrun₁
  obtain ⟨-, -, hfallback⟩ := closes_fallback h₁.refusal h₁.unarmed hev hstep
  have htrial : ¬ OnTrial older ↔ ¬ ConfirmRefused true older := by
    rw [← hfallback, ← h₁.onTrial, Option.not_isSome_iff_eq_none]
  constructor
  · exact fun h => htrial.mp h.1
  · intro hnot
    refine ⟨htrial.mpr hnot, ?_⟩
    rintro newer₂ v permanent newer₁ rfl
    by_contra hnone
    have hclosed : ClosedPermanent (newer₁ ++ ev :: older) := by
      rw [ClosedPermanent, since_iff]
      refine ⟨newer₁, ev, older, rfl, ⟨hev, hnot⟩, ?_⟩
      rintro _ hmem ⟨u, rfl⟩
      exact hnone ⟨u, hmem⟩
    rw [List.append_assoc, List.cons_append] at hrun
    obtain ⟨m₃, m₄, hrun₃, hstep₃⟩ := hrun.split
    obtain ⟨harmed, hnone'⟩ := (hwatched hrun₃).closed hclosed
    -- a reset from there does nothing
    generalize hreset : Event.reset (.reverted v) permanent = ev' at hstep₃
    cases hstep₃ with
    | reset =>
      obtain ⟨hpick, -⟩ := Event.reset.inj hreset
      rw [Boot.pick, harmed, hnone'] at hpick
      cases hpick
    | _ => cases hreset

/-- The bootloader takes no more calls once version 7 is armed. -/
def Env.unconfirming : Env := { Env.offering with updateStatus := fun t => if t < 65 then 0 else 1 }

/-- The same, and the servers go on offering version 7. -/
def Env.unconfirmingSeven : Env :=
  { Env.unconfirming with tufRefresh := fun _ => ⟨[], tufSuccess, ascii "7"⟩ }

/-- Version 7 is installed on a new device, checks in and is reverted. -/
def unconfirmedLog : List Event :=
  [.loaded true 5 false, .reset (.reverted 7) 5, .completed false 7 true,
    .confirmed false true 5, .refreshed (ascii "7"), .iteration, .loaded true 7 false,
    .reset (.trial 7) 5, .installed 7 true true, .readyForTest 7 true, .downloaded 7 true 0,
    .install ⟨3, 7, sha256Abc⟩ 5, .completed false 0 true, .refreshed (ascii "7"), .iteration,
    .loaded true 5 false, .reset .same 5]

theorem unconfirming_log :
    (lifetime .sample .unconfirmingSeven [1, 1, 0] (.factory 5)).log = unconfirmedLog := by
  decide +kernel

/-- What was recorded on the new device, before version 7. -/
theorem completion_permanent_factory :
    ¬ OnTrial (unconfirmedLog.drop 13) ∧ ∃ u, .readyForTest u true ∈ unconfirmedLog.drop 2 := by
  have hlog : (lifetime .sample .unconfirmingSeven [1, 1, 0] (.factory 5)).log
      = unconfirmedLog.take 12 ++ .completed false 0 true :: unconfirmedLog.drop 13 :=
    unconfirming_log
  obtain ⟨htrial, hlater⟩ := (completion_permanent_iff (startsPermanent_factory 5) hlog trivial).mpr
    (by simp [ConfirmRefused, unconfirmedLog])
  obtain ⟨u, hu⟩ := hlater (unconfirmedLog.take 1) 7 5 ((unconfirmedLog.take 12).drop 2) rfl
  exact ⟨htrial, u, List.mem_of_mem_take (i := 10) hu⟩

/-- **Success can be recorded for an image on trial**: the bootloader refuses
version 7, which is recorded, and the next reset reverts it. -/
theorem completion_reverted : ∃ newer older,
    (lifetime .sample .unconfirmingSeven [1, 1, 0] (.factory 5)).log
        = newer ++ .completed false 7 true :: older ∧
      OnTrial older ∧ .reset (.reverted 7) 5 ∈ newer ∧ ∀ u, .readyForTest u true ∉ newer := by
  refine ⟨unconfirmedLog.take 2, unconfirmedLog.drop 3, unconfirming_log, ?_, ?_, ?_⟩
  · simp [OnTrial, unconfirmedLog]
  · decide
  · simp [unconfirmedLog]

/-! ### Installing during a trial -/

/-- **`is_image_permanent` is set when an installation starts**, and the running
image is permanent, exactly if the bootloader has not refused to make it
permanent in that iteration. -/
theorem install_permanent_iff {boots : List Nat} {k : Nat} {c : Context} {w' : World}
    (hnew : w.log = []) (hcall : InstallCalled p e boots w k c w') :
    c.settings.isImagePermanent = true ∧ w'.boot.fallback = none ↔
      ∀ onTrial, ¬ ConfirmRefused onTrial w'.log := by
  obtain ⟨metadata, refused, hat, hpermanent⟩ := hcall.at hnew
  have hnotes : ∀ {es m}, Run (Step p e) (machineOf p w) es m → m.NotesRefusal es := fun h =>
    h.invariant (P := fun _ => True) (show (machineOf p w).NotesRefusal [] from trivial)
      (fun hn _ hs => notesRefusal_step hn hs) fun _ _ => trivial
  have hrefusal : ∀ onTrial, ConfirmRefused onTrial w'.log ↔
      refused = true ∧ onTrial = w'.boot.fallback.isSome := hnotes hat.follows
  constructor
  · rintro ⟨hset, -⟩ onTrial hrefused
    rw [hpermanent, ((hrefusal onTrial).mp hrefused).1] at hset
    cases hset
  · intro hnot
    have hset : c.settings.isImagePermanent = true := by
      rw [hpermanent]
      cases refused with
      | false => rfl
      | true => exact absurd ((hrefusal _).mpr ⟨rfl, rfl⟩) (hnot _)
    exact ⟨hset, hat.fit.permanent hset⟩

/-- The installation on a new device starts with `is_image_permanent` set. -/
theorem install_permanent_factory :
    ∃ c w', InstallCalled .sample .unconfirming [] (.factory 5) 0 c w' ∧
      c.settings.isImagePermanent = true := by
  have hrun : (returned (untilInstall .sample .unconfirming 0)
        (lifetime .sample .unconfirming [] (.factory 5))).map (Option.map fun c =>
          c.selectedTarget.version) = some (some 7) ∧
      (final (untilInstall .sample .unconfirming 0)
        (lifetime .sample .unconfirming [] (.factory 5))).log = [.completed false 0 true,
          .refreshed (ascii "7"), .iteration, .loaded true 5 false, .reset .same 5] := by
    decide +kernel
  obtain ⟨hreturned, hlog⟩ := hrun
  obtain ⟨r, hr, hsome⟩ := Option.map_eq_some_iff.mp hreturned
  obtain ⟨c, rfl, -⟩ := Option.map_eq_some_iff.mp hsome
  have hcall : InstallCalled .sample .unconfirming [] (.factory 5) 0 c _ := eq_ok_of_returned hr
  refine ⟨c, _, hcall, ((install_permanent_iff rfl hcall).mpr ?_).1⟩
  intro onTrial
  rw [hlog]
  simp [ConfirmRefused]

/-- **An installation can start during a trial**: the bootloader refuses to
make version 7 permanent, and version 9 is written over the image to fall
back to. -/
theorem install_onTrial :
    ∃ c w', InstallCalled .sample .unconfirming [1] (.factory 5) 0 c w' ∧
      c.settings.isImagePermanent = false ∧ w'.boot.fallback = some 5 := by
  have hrun : (returned (untilInstall .sample .unconfirming 0)
        (lifetime .sample .unconfirming [1] (.factory 5))).map (Option.map fun c =>
          c.settings.isImagePermanent) = some (some false) ∧
      (final (untilInstall .sample .unconfirming 0)
        (lifetime .sample .unconfirming [1] (.factory 5))).boot.fallback = some 5 := by
    decide +kernel
  obtain ⟨hreturned, hfallback⟩ := hrun
  obtain ⟨r, hr, hsome⟩ := Option.map_eq_some_iff.mp hreturned
  obtain ⟨c, rfl, hunset⟩ := Option.map_eq_some_iff.mp hsome
  exact ⟨c, _, eq_ok_of_returned hr, hunset, hfallback⟩

/-! ### The version on trial is on record -/

/-- The bootloader holds version `v` as ready for test, or runs it on trial and
the agent has not tried to confirm it yet. -/
def UnderTest (es : List Event) (b : Boot) (v : Version) : Prop :=
  b.armed = some v ∨ b.fallback.isSome = true ∧ b.running = v ∧ ¬ ConfirmTried es

/-- Power was never lost between the call that arms an image and the end of the
save after it. -/
def Gapless (es : List Event) : Prop :=
  ∀ newer activity v older, es ≠ newer ++ .cut activity :: .readyForTest v true :: older

theorem Gapless.older (h : Gapless (ev :: es)) : Gapless es := by
  intro newer activity v older heq
  exact h (ev :: newer) activity v older (congrArg (ev :: ·) heq)

/-- Whatever is under test is the version applied last. -/
def OnRecord (es : List Event) (s : Stored) (b : Boot) : Prop :=
  ∀ v, v ≤ maxVersion → UnderTest es b v → s.applied = v

/-- A trial is not under test any more. -/
def Tried (es : List Event) (b : Boot) : Prop := b.fallback.isSome = true → ConfirmTried es

/-- **The invariant.** -/
def Machine.Recorded (es : List Event) (m : Machine) : Prop :=
  match m.phase with
  | .awake _ (.downloading _) | .awake _ (.fetched _) => Tried es m.boot
  | .awake ram (.closing target armed) => Tried es m.boot ∧ (armed = true →
      ram.applied = target.version ∧ m.boot.armed = some target.version ∧
        es.head? = some (.readyForTest target.version true))
  | .awake _ (.refreshed _ refused) => OnRecord es m.stored m.boot ∧
      (refused = true → ConfirmTried es)
  | _ => OnRecord es m.stored m.boot

variable {s s' : Stored} {b : Boot} {ram : Ram} {task : Task}

theorem confirmTried_cons (hreset : ∀ pick permanent, ev ≠ .reset pick permanent)
    (h : ConfirmTried es) : ConfirmTried (ev :: es) := by
  refine Or.inr ⟨?_, h⟩
  rintro ⟨pick, permanent, heq⟩
  exact hreset pick permanent heq

/-- Nothing armed and nothing on trial that was not tried: nothing is under
test. -/
theorem OnRecord.of_tried (harmed : b.armed = none) (htried : Tried es b) : OnRecord es s b := by
  rintro v - (hsome | ⟨hfallback, -, hnot⟩)
  · cases harmed.symm.trans hsome
  · exact absurd (htried hfallback) hnot

/-- Such an event leaves what is under test on record. -/
theorem OnRecord.next (h : OnRecord es s b)
    (hreset : ∀ pick permanent, ev ≠ .reset pick permanent) :
    OnRecord (ev :: es) s b := by
  rintro v hv (hsome | ⟨hfallback, hrunning, hnot⟩)
  · exact h v hv (Or.inl hsome)
  · refine h v hv (Or.inr ⟨hfallback, hrunning, fun htried => ?_⟩)
    exact hnot (confirmTried_cons hreset htried)

theorem Machine.Recorded.awake (h : (⟨s, b, .awake ram task⟩ : Machine).Recorded es)
    (hfree : task.Free) : OnRecord es s b := by
  cases task with
  | idle => exact h
  | checking => exact h
  | refreshed => exact h.1
  | downloading => exact hfree.elim
  | fetched => exact hfree.elim
  | closing => exact hfree.elim

theorem Machine.Recorded.rest {phase : Phase} (h : (⟨s, b, phase⟩ : Machine).Recorded es)
    (hfree : phase.Free) : OnRecord es s b := by
  cases phase with
  | off => exact h
  | loading => exact h
  | awake ram task => exact Machine.Recorded.awake h hfree

/-- **A reset.**  What was armed is on trial now, and still on record. -/
theorem OnRecord.reset (h : OnRecord es s b) (pick : Pick) (permanent : Version) :
    OnRecord (.reset pick permanent :: es) s b.reset := by
  rintro v hv (hsome | ⟨hfallback, hrunning, -⟩)
  · rw [b.reset_armed] at hsome
    cases hsome
  · rcases b.reset_cases with ⟨u, harmed, -, hreset⟩ | ⟨u, -, -, -, hreset⟩ |
      ⟨-, hnone, -, hreset⟩
    · rw [hreset] at hrunning
      obtain rfl : u = v := hrunning
      exact h u hv (Or.inl harmed)
    · rw [hreset] at hfallback
      cases hfallback
    · rw [hreset, hnone] at hfallback
      cases hfallback

/-- **One step**, of a run without a gap in which the save of an armed image
succeeds. -/
theorem recorded_step (hunarmed : m.Unarmed) (h : m.Recorded es) (hgapless : Gapless (ev :: es))
    (hsaved : ∀ v saved, ev = .installed v true saved → saved = true)
    (hstep : Step p e m ev m') : m'.Recorded (ev :: es) := by
  -- past the refresh an image on trial was tried
  have htried : ∀ {s : Stored} {b : Boot} {ram : Ram} {metadata : List Byte} {refused : Bool},
      (⟨s, b, .awake ram (.refreshed metadata refused)⟩ : Machine).Recorded es →
      (refused = false → b.fallback = none) → Tried es b := by
    intro s b ram metadata refused h hperm hsome
    cases refused with
    | false =>
      rw [hperm rfl] at hsome
      cases hsome
    | true => exact h.2 rfl
  have hkeep : ∀ {b : Boot}, (∀ pick permanent, ev ≠ .reset pick permanent) → Tried es b →
      Tried (ev :: es) b := fun hreset ht hsome => confirmTried_cons hreset (ht hsome)
  cases hstep with
  | @reset m hfree =>
    obtain ⟨s, b, phase⟩ := m
    exact (h.rest hfree).reset _ _
  | loaded => exact OnRecord.next h nofun
  | iteration hfree => exact (h.awake hfree).next nofun
  | refreshed => exact ⟨OnRecord.next h nofun, nofun⟩
  | @confirmed s b b' ram metadata ok hboot =>
    have htry : ConfirmTried (.confirmed ok b.fallback.isSome b'.permanent :: es) :=
      Or.inl ⟨_, _, _, rfl⟩
    refine ⟨.of_tried ?_ fun _ => htry, fun _ => htry⟩
    subst hboot
    cases ok <;> exact hunarmed
  | settled hperm =>
    exact ⟨h.1.next nofun, fun hr => confirmTried_cons nofun (h.2 hr)⟩
  | completed hperm =>
    refine ⟨.of_tried hunarmed (hkeep nofun (htried h hperm)), fun hr => ?_⟩
    exact confirmTried_cons nofun (h.2 hr)
  | install hperm => exact hkeep nofun (htried h hperm)
  | @downloaded s b ram target ok =>
    have ht : Tried (.downloaded target.version ok ram.applied :: es)
        { b with inactive := if ok then some target.version else none } := hkeep nofun h
    cases ok with
    | true => exact ht
    | false => exact ⟨ht, nofun⟩
  | @readyForTest s b ram target ok hheld =>
    cases ok with
    | true => exact ⟨hkeep nofun h, fun _ => ⟨rfl, hheld, rfl⟩⟩
    | false => exact ⟨hkeep nofun h, nofun⟩
  | @installed s s' b ram target armed saved hstored =>
    obtain ⟨ht, harmed⟩ := h
    have ht' : Tried (.installed target.version armed saved :: es) b := hkeep nofun ht
    cases armed with
    | false => exact OnRecord.of_tried hunarmed ht'
    | true =>
      -- the save that was due: from here on the version is on record
      obtain ⟨happlied, hheld, -⟩ := harmed rfl
      obtain rfl := hstored (hsaved target.version saved rfl)
      rintro v hv (hsome | ⟨hfallback, -, hnot⟩)
      · obtain rfl : target.version = v := Option.some.inj (hheld.symm.trans hsome)
        exact (congrArg checkedVersion happlied).trans (checkedVersion_of_le hv)
      · exact absurd (ht' hfallback) hnot
  | @cut s s' b ram task activity hbusy =>
    cases task with
    | idle => exact hbusy.elim
    | checking => exact hbusy.elim
    | refreshed metadata refused =>
      cases activity with
      | saving => exact OnRecord.of_tried hunarmed (hkeep nofun (htried h hbusy))
      | installing => exact hbusy.elim
    | downloading target => exact OnRecord.of_tried hunarmed (hkeep nofun h)
    | fetched target => exact OnRecord.of_tried hunarmed (hkeep nofun h)
    | closing target armed =>
      cases armed with
      | false => exact OnRecord.of_tried hunarmed (hkeep nofun h.1)
      | true =>
        -- this is the gap
        obtain ⟨-, -, hhead⟩ := h.2 rfl
        obtain ⟨older, rfl⟩ := List.head?_eq_some_iff.mp hhead
        exact absurd rfl (hgapless [] activity target.version older)

/-- The run so far. -/
structure Recording (es : List Event) (m : Machine) : Prop where
  unarmed : m.Unarmed
  recorded : Gapless es → m.Recorded es

theorem Recording.start (hstart : StartsPermanent w) : Recording [] (machineOf p w) := by
  refine ⟨trivial, fun _ => OnRecord.of_tried hstart.armed ?_⟩
  intro hsome
  rw [show (machineOf p w).boot.fallback = none from hstart.fallback] at hsome
  cases hsome

theorem Recording.step (h : Recording es m)
    (hsaved : ∀ v saved, ev = .installed v true saved → saved = true)
    (hstep : Step p e m ev m') : Recording (ev :: es) m' :=
  ⟨unarmed_step h.unarmed hstep, fun hgapless =>
    recorded_step h.unarmed (h.recorded hgapless.older) hgapless hsaved hstep⟩

/-- **What is under test is on record.**  In every life in which the save of an
armed image succeeds: if power was never lost between the call that armed an
image and the end of the save after it, then the version that the bootloader
holds as ready for test, or runs on trial before it is confirmed, is the one
the settings have as applied last. -/
theorem underTest_onRecord {boots : List Nat} {v : Version} (hstart : StartsPermanent w)
    (hsaved : ∀ v saved, .installed v true saved ∈ (lifetime p e boots w).log → saved = true)
    (hgapless : Gapless (lifetime p e boots w).log) (hv : v ≤ 999999999)
    (htest : UnderTest (lifetime p e boots w).log (lifetime p e boots w).boot v) :
    (storedOf p (lifetime p e boots w).flash.mem).applied = v := by
  obtain ⟨phase, hfree, hrun⟩ := lifetime_stopped (p := p) (e := e) boots hstart.new
  have hinv := hrun.invariant (Recording.start hstart) Recording.step
    fun ev hmem v saved heq => hsaved v saved (heq ▸ hmem)
  exact (hinv.recorded hgapless).rest hfree v hv htest

/-- Power is lost between the call that arms version 7 and the save. -/
def Env.cutAtArming : Env := { Env.offering with cut := fun t => t = 62 }

/-- Without that, version 7 is on record before it runs for the first time. -/
theorem underTest_onRecord_offering :
    (lifetime .sample .offering [1] (.factory 5)).boot.armed = some 7 ∧
      (storedOf .sample (lifetime .sample .offering [1] (.factory 5)).flash.mem).applied = 7 := by
  have hrun : (lifetime .sample .offering [1] (.factory 5)).log = offeringLog.drop 12 ∧
      (lifetime .sample .offering [1] (.factory 5)).boot.armed = some 7 := by decide +kernel
  obtain ⟨hlog, harmed⟩ := hrun
  refine ⟨harmed, underTest_onRecord (startsPermanent_factory 5) ?_ ?_ (by decide) (.inl harmed)⟩
  · rw [hlog]
    simp [offeringLog]
  · intro newer activity v older heq
    have hmem : .cut activity ∈ offeringLog.drop 12 := by
      rw [← hlog, heq]
      simp
    simp [offeringLog] at hmem

/-- **An armed version can be missing from the record**: version 7 will run
after the next reset, and the settings know of no version that was applied. -/
theorem armed_notOnRecord :
    .readyForTest 7 true ∈ (lifetime .sample .cutAtArming [1] (.factory 5)).log ∧
      UnderTest (lifetime .sample .cutAtArming [1] (.factory 5)).log
        (lifetime .sample .cutAtArming [1] (.factory 5)).boot 7 ∧
      (storedOf .sample (lifetime .sample .cutAtArming [1] (.factory 5)).flash.mem).applied = 0 := by
  have hrun : .readyForTest 7 true ∈ (lifetime .sample .cutAtArming [1] (.factory 5)).log ∧
      (lifetime .sample .cutAtArming [1] (.factory 5)).boot.armed = some 7 ∧
      (storedOf .sample (lifetime .sample .cutAtArming [1] (.factory 5)).flash.mem).applied
        = 0 := by decide +kernel
  obtain ⟨hlog, harmed, happlied⟩ := hrun
  exact ⟨hlog, Or.inl harmed, happlied⟩

end AktualizrNano
