/-
AktualizrNano/RollbackDetection.lean

When is the flag of `aknano_init_settings` right?  It is worked out from the
settings alone: a version was applied, it is not the running one, and an update
is under way.  After a rollback was reported the version is kept, so that it is
not installed again; the next installation makes a new correlation id, and if
its download fails both are saved.  The next boot takes that for a rollback
(`offering_flagged`).

In every life without such a failure the flag is right (`rollbackFlag_exact`).
-/
import AktualizrNano.Rollback

namespace AktualizrNano

open CLib NorFlash Trace

/-- The bootloader has reverted version `v`, which the agent had armed, and the
end of that update has not been recorded since. -/
def Unreported (v : Version) : List Event → Prop :=
  Since (fun ev older => (∃ permanent, ev = .reset (.reverted v) permanent) ∧
      .readyForTest v true ∈ older)
    fun ev => ∃ rolledBack, ev = .completed rolledBack v true

theorem unreported_iff {v : Version} {es : List Event} : Unreported v es ↔
    ∃ newer permanent older, es = newer ++ .reset (.reverted v) permanent :: older ∧
      .readyForTest v true ∈ older ∧ ∀ rolledBack, .completed rolledBack v true ∉ newer := by
  rw [Unreported, since_iff]
  constructor
  · rintro ⟨newer, ev, older, hes, ⟨⟨permanent, rfl⟩, harmed⟩, hnewer⟩
    exact ⟨newer, permanent, older, hes, harmed,
      fun rolledBack hmem => hnewer _ hmem ⟨rolledBack, rfl⟩⟩
  · rintro ⟨newer, permanent, older, hes, harmed, hnewer⟩
    refine ⟨newer, _, older, hes, ⟨⟨permanent, rfl⟩, harmed⟩, ?_⟩
    rintro _ hmem ⟨rolledBack, rfl⟩
    exact hnewer rolledBack hmem

/-- No download fails while the version of a former update is still kept. -/
def Event.Unspoiled : Event → Prop
  | .downloaded _ ok applied => ok = true ∨ applied = 0
  | _ => True

/-- What the next boot will report. -/
def Flags (s : Stored) (b : Boot) (v : Version) : Prop :=
  b.armed = none ∧ s.indicatesRollback b.running = true ∧ s.applied = v

/-- Between two boots the settings agree with the record. -/
structure Agrees (es : List Event) (s : Stored) (b : Boot) : Prop where
  unreported : ∀ v, Unreported v es ↔ Flags s b v
  /-- the version of an update under way was armed by the agent -/
  armedBy : b.armed ≠ none ∨ b.fallback ≠ none → .readyForTest s.applied true ∈ es

/-- **The invariant**: besides `Agrees`, that nothing is left to report once
the completion handler has run. -/
def Machine.Consistent (es : List Event) (m : Machine) : Prop :=
  match m.phase with
  | .awake _ (.downloading _) => ∀ v, ¬ Unreported v es
  | .awake _ (.fetched _) => ∀ v, ¬ Unreported v es
  | .awake ram (.closing target armed) => (∀ v, ¬ Unreported v es) ∧
      if armed then .readyForTest target.version true ∈ es else ram.applied = 0
  | .awake ram _ => Agrees es m.stored m.boot ∧
      (ram.finished = true → m.stored.indicatesRollback m.boot.running = false)
  | _ => Agrees es m.stored m.boot

variable {p : Platform} {e : Env} {s s' : Stored} {b : Boot} {ram : Ram} {task : Task}
variable {v : Version} {phase : Phase} {es : List Event} {ev : Event} {m m' : Machine}

theorem Machine.Consistent.awake (h : (⟨s, b, .awake ram task⟩ : Machine).Consistent es)
    (hfree : task.Free) : Agrees es s b ∧
      (ram.finished = true → s.indicatesRollback b.running = false) := by
  cases task with
  | idle => exact h
  | checking => exact h
  | refreshed metadata refused => exact h
  | downloading => exact hfree.elim
  | fetched => exact hfree.elim
  | closing => exact hfree.elim

/-- The same at every point where a reset can come. -/
theorem Machine.Consistent.rest (h : (⟨s, b, phase⟩ : Machine).Consistent es) (hfree : phase.Free) :
    Agrees es s b := by
  cases phase with
  | off => exact h
  | loading => exact h
  | awake ram task => exact (Machine.Consistent.awake h hfree).1

/-- The event neither reverts a version nor ends an update. -/
def Event.Neutral : Event → Prop
  | .reset _ _ => False
  | .completed _ _ _ => False
  | _ => True

theorem Unreported.before (h : Unreported v (ev :: es)) (hev : ev.Neutral) : Unreported v es := by
  rcases h with ⟨⟨permanent, rfl⟩, -⟩ | ⟨-, hold⟩
  · exact hev.elim
  · exact hold

theorem Unreported.after (h : Unreported v es) (hev : ev.Neutral) : Unreported v (ev :: es) := by
  refine Or.inr ⟨?_, h⟩
  rintro ⟨rolledBack, rfl⟩
  exact hev

/-- Such an event leaves the agreement as it is. -/
theorem Agrees.next (h : Agrees es s b) (hev : ev.Neutral) : Agrees (ev :: es) s b := by
  refine ⟨fun v => ?_, fun hb => List.mem_cons_of_mem _ (h.armedBy hb)⟩
  rw [← h.unreported]
  exact ⟨fun hv => hv.before hev, fun hv => hv.after hev⟩

theorem unreported_reset {pick : Pick} {permanent : Version} :
    Unreported v (.reset pick permanent :: es) ↔
      pick = .reverted v ∧ .readyForTest v true ∈ es ∨ Unreported v es := by
  constructor
  · rintro (⟨⟨_, ⟨⟩⟩, harmed⟩ | ⟨-, hold⟩)
    · exact Or.inl ⟨rfl, harmed⟩
    · exact Or.inr hold
  · rintro (⟨rfl, harmed⟩ | hold)
    · exact Or.inl ⟨⟨_, rfl⟩, harmed⟩
    · exact Or.inr ⟨by rintro ⟨_, ⟨⟩⟩, hold⟩

theorem not_flags_of_applied (happlied : s.applied = b.running) : ¬ Flags s b v := by
  rintro ⟨-, hflag, -⟩
  exact (indicatesRollback_iff.mp hflag).2.1 happlied

theorem not_flags_of_clean (hclean : s.indicatesRollback b.running = false) : ¬ Flags s b v := by
  rintro ⟨-, hflag, -⟩
  exact absurd hflag (by rw [hclean]; decide)

/-- **A reset.**  What it reverts is flagged, and nothing else is. -/
theorem Agrees.reset (h : Agrees es s b) (hstage : Stage s b) (permanent : Version) :
    Agrees (.reset b.pick permanent :: es) s b.reset := by
  rcases hstage.reset_cases with ⟨harmed, hpick, -, -, hreset⟩ |
    ⟨hfallback, hpick, happlied, hunderWay, hreset⟩ | ⟨-, -, hpick, hreset⟩
  · -- an image goes on trial: nothing is flagged before or after
    have hne : b.armed ≠ none := by
      rw [harmed]
      exact nofun
    rw [hpick, hreset]
    refine ⟨fun v => ?_, fun _ => List.mem_cons_of_mem _ (h.armedBy (Or.inl hne))⟩
    rw [unreported_reset, h.unreported]
    constructor
    · rintro (⟨⟨⟩, -⟩ | ⟨hnone, -⟩)
      exact absurd hnone hne
    · exact fun hflags => absurd hflags (not_flags_of_applied rfl)
  · -- the image on trial is given up: that is what the settings will say
    have hmem : .readyForTest s.applied true ∈ es := h.armedBy (Or.inr (by simp [hfallback]))
    rw [hpick, hreset]
    refine ⟨fun v => ?_, fun hb => (hb.elim (· rfl) (· rfl)).elim⟩
    rw [unreported_reset, h.unreported]
    constructor
    · rintro (⟨⟨⟩, -⟩ | hflags)
      · exact ⟨rfl, hunderWay, rfl⟩
      · exact absurd hflags (not_flags_of_applied happlied)
    · rintro ⟨-, -, rfl⟩
      exact Or.inl ⟨rfl, hmem⟩
  · rw [hpick, hreset]
    refine ⟨fun v => ?_, fun hb => List.mem_cons_of_mem _ (h.armedBy hb)⟩
    rw [unreported_reset, h.unreported]
    constructor
    · rintro (⟨⟨⟩, -⟩ | hflags)
      exact hflags
    · exact Or.inr

/-- Without an update under way nothing needs to have been armed. -/
theorem Agrees.of_none (harmed : b.armed = none) (hfallback : b.fallback = none)
    (hclean : s.indicatesRollback b.running = false) (hnone : ∀ v, ¬ Unreported v es) :
    Agrees es s b := by
  refine ⟨fun v => ?_, ?_⟩
  · exact ⟨fun h => absurd h (hnone v), fun h => absurd h (not_flags_of_clean hclean)⟩
  · rintro (h | h)
    · exact absurd harmed h
    · exact absurd hfallback h

/-- **The end of an update** is recorded: nothing is left to report. -/
theorem Agrees.completed {applied : Version} {rolledBack : Bool} (h : Agrees es s b)
    (happlied : applied = s.applied) :
    ¬ Unreported v (.completed rolledBack applied true :: es) := by
  rintro (⟨⟨_, ⟨⟩⟩, -⟩ | ⟨hspoils, hold⟩)
  obtain ⟨-, -, hkept⟩ := (h.unreported v).mp hold
  exact hspoils ⟨rolledBack, by rw [happlied, hkept]⟩

/-- **One step.** -/
theorem consistent_step (hsound : Sound m) (h : m.Consistent es) (hev : ev.Undisturbed)
    (hunspoiled : ev.Unspoiled) (hstep : Step p e m ev m') : m'.Consistent (ev :: es) := by
  cases hstep with
  | @reset m hfree =>
    obtain ⟨s, b, phase⟩ := m
    exact (h.rest hfree).reset (hsound.rest hfree).stage _
  | @loaded s read b running readsOk hrunning hread =>
    exact ⟨Agrees.next h trivial, nofun⟩
  | iteration hfree =>
    obtain ⟨hagrees, hfinished⟩ := h.awake hfree
    exact ⟨hagrees.next trivial, hfinished⟩
  | refreshed hfresh =>
    obtain ⟨hagrees, hfinished⟩ := h
    exact ⟨hagrees.next trivial, hfinished⟩
  | @confirmed s b b' ram metadata ok hboot =>
    obtain ⟨hagrees, hfinished⟩ := h
    have hnext : Agrees (.confirmed ok b.fallback.isSome b'.permanent :: es) s b :=
      hagrees.next trivial
    cases ok with
    | true =>
      subst hboot
      exact ⟨⟨hnext.unreported, fun hb => hnext.armedBy (hb.imp_right fun hne => absurd rfl hne)⟩,
        hfinished⟩
    | false =>
      subst hboot
      exact ⟨hnext, hfinished⟩
  | settled hperm hfinished hrolled hreported =>
    obtain ⟨hagrees, -⟩ := h
    have hunfinished := hsound.of_refreshed.1.unfinished hfinished
    exact ⟨hagrees.next trivial, fun _ => hunfinished.symm.trans hrolled⟩
  | @completed s s' b ram metadata refused saved hperm hfinished hdue hsaved =>
    obtain ⟨hagrees, -⟩ := h
    have hfallback := hsound.fallback_eq hperm
    obtain ⟨hawake, -⟩ := hsound.of_refreshed
    obtain ⟨-, hs'⟩ := hawake.completed hfallback hfinished (hsaved hev.kept)
    obtain rfl : saved = true := hev.kept
    have hclean : s'.indicatesRollback b.running = false := by
      rw [hs']
      exact Bool.eq_false_iff.mpr fun hflag => nomatch (indicatesRollback_iff.mp hflag).2.2
    exact ⟨.of_none hawake.unarmed hfallback hclean fun v => hagrees.completed hawake.applied,
      fun _ => hclean⟩
  | install hperm hfinished hoffered hnewer hother =>
    obtain ⟨hagrees, hclean⟩ := h
    intro v hv
    exact not_flags_of_clean (hclean hfinished) ((hagrees.unreported v).mp (hv.before trivial))
  | @downloaded s b ram target ok =>
    have hnone : ∀ v, ¬ Unreported v (.downloaded target.version ok ram.applied :: es) :=
      fun v hv => h v (hv.before trivial)
    cases ok with
    | true => exact hnone
    | false => exact ⟨hnone, hunspoiled.resolve_left Bool.false_ne_true⟩
  | @readyForTest s b ram target ok hheld =>
    obtain rfl : ok = true := hev.obeyed
    exact ⟨fun v hv => h v (hv.before trivial), List.mem_cons_self⟩
  | @installed s s' b ram target armed saved hsaved =>
    obtain ⟨hnone, harmed⟩ := h
    have hnone' : ∀ v, ¬ Unreported v (.installed target.version armed saved :: es) :=
      fun v hv => hnone v (hv.before trivial)
    obtain rfl := hsaved hev.kept
    cases hsound with
    | awake _ hfree => exact hfree.elim
    -- only here the condition on failed downloads is used
    | failed hinstalling hunarmed =>
      have hclean : ram.stored.indicatesRollback b.running = false := by
        rw [hinstalling.stored]
        exact Bool.eq_false_iff.mpr fun hflag => (indicatesRollback_iff.mp hflag).1 harmed
      exact ⟨.of_none hunarmed hinstalling.fallback hclean hnone', fun _ => hclean⟩
    | armed hinstalling happlied hbarmed =>
      rw [hinstalling.stored]
      refine ⟨fun v => ⟨fun hv => absurd hv (hnone' v), ?_⟩, fun _ => ?_⟩
      · rintro ⟨hunarmed, -⟩
        cases hbarmed.symm.trans hunarmed
      · exact List.mem_cons_of_mem _ (happlied ▸ harmed)
  | cut => exact hev.kept.elim

/-- The run so far, and what it agrees with. -/
structure Detected (es : List Event) (m : Machine) : Prop where
  sound : Sound m
  consistent : m.Consistent es

theorem Detected.step (h : Detected es m) (hev : ev.Undisturbed ∧ ev.Unspoiled)
    (hstep : Step p e m ev m') : Detected (ev :: es) m' :=
  ⟨h.sound.step hev.1 hstep, consistent_step h.sound h.consistent hev.1 hev.2 hstep⟩

theorem Detected.start {w : World} (hstart : StartsPermanent w)
    (hrunning : w.boot.running ≤ maxVersion)
    (hclean : (storedOf p w.flash.mem).indicatesRollback w.boot.running = false) :
    Detected [] (machineOf p w) := by
  have hnone : ∀ v, ¬ Unreported v [] := fun v hv => hv.elim
  exact ⟨Sound.start hstart hrunning hclean, .of_none hstart.armed hstart.fallback hclean hnone⟩

/-- **When the flag is right.**  On a device with a permanent image and nothing
to report, in every life in which settings are kept: if the bootloader obeys,
settings can be read, and no download fails while the version of a former
update is kept, then each boot sets the flag exactly if a version that was
armed has been reverted and its end was not recorded since. -/
theorem rollbackFlag_exact {w : World} {boots : List Nat} {newer older : List Event}
    {readsOk rolledBack : Bool} {running : Version} (hstart : StartsPermanent w)
    (hrunning : w.boot.running ≤ maxVersion)
    (hclean : (storedOf p w.flash.mem).indicatesRollback w.boot.running = false)
    (hkept : ∀ ev ∈ (lifetime p e boots w).log, ev.Kept)
    (hwhen : ∀ ev ∈ (lifetime p e boots w).log, ev.Obeyed ∧ ev.Unspoiled)
    (hlog : (lifetime p e boots w).log = newer ++ .loaded readsOk running rolledBack :: older) :
    rolledBack = true ↔ ∃ v, Unreported v older := by
  obtain ⟨phase, hrun⟩ := lifetime_run (p := p) (e := e) boots hstart.new
  rw [hlog] at hrun hkept hwhen
  obtain ⟨m₁, m₂, hrun₁, hstep⟩ := hrun.split
  have hinv : Detected older m₁ :=
    hrun₁.invariant (Detected.start hstart hrunning hclean) Detected.step fun ev hev =>
      ⟨⟨hkept ev (by simp [hev]), (hwhen ev (by simp [hev])).1⟩, (hwhen ev (by simp [hev])).2⟩
  obtain ⟨hsound, hagrees⟩ := hinv
  cases hstep with
  | @loaded s read b running readsOk hrunning' hread =>
    have hmem : .loaded readsOk running (read.indicatesRollback running)
        ∈ newer ++ .loaded readsOk running (read.indicatesRollback running) :: older := by simp
    obtain rfl := hread (hwhen _ hmem).1
    cases hsound with
    | loading hrest hunarmed =>
      rw [hrunning', runningVersionOf_of_le hrest.running_le]
      constructor
      · exact fun hflag => ⟨_, (hagrees.unreported _).mpr ⟨hunarmed, hflag, rfl⟩⟩
      · rintro ⟨v, hv⟩
        exact ((hagrees.unreported v).mp hv).2.1

/-- The life of `offering_log` up to the boot after the rollback. -/
theorem rollbackFlag_exact_offering :
    ∃ v, Unreported v (offeringLog.drop 9) := by
  have hlog : (lifetime .sample .offering [1, 0, 0] (.factory 5)).log
      = [] ++ .loaded true 5 true :: offeringLog.drop 9 := by decide +kernel
  have hall : ∀ ev ∈ [] ++ .loaded true 5 true :: offeringLog.drop 9,
      ev.Kept ∧ ev.Obeyed ∧ ev.Unspoiled := by
    simp [offeringLog, Event.Kept, Event.Obeyed, Event.Unspoiled]
  rw [← hlog] at hall
  have hnew : storedOf .sample (World.factory 5).flash.mem = ⟨0, 0, false⟩ :=
    storedOf_erased fun _ _ _ => rfl
  exact (rollbackFlag_exact (startsPermanent_factory 5) (by decide) (by rw [hnew]; rfl)
    (fun ev hev => (hall ev hev).1) (fun ev hev => (hall ev hev).2) hlog).mp rfl

/-- **The flag can be wrong.**  Nothing but a download fails in the life of
`offering_log`, and at its last boot the flag is set though the end of the
update was recorded. -/
theorem offering_flagged :
    StartsPermanent (.factory 5) ∧
      (∀ ev ∈ (lifetime .sample .offering [1, 0, 1, 0] (.factory 5)).log, ev.Undisturbed) ∧
      (lifetime .sample .offering [1, 0, 1, 0] (.factory 5)).log
        = .loaded true 5 true :: offeringLog.tail ∧
      ¬ ∃ v, Unreported v offeringLog.tail := by
  refine ⟨startsPermanent_factory 5, ?_, offering_log, ?_⟩
  · rw [offering_log]
    exact offeringLog_undisturbed
  · rintro ⟨v, hv⟩
    -- the only version that was reverted is 7, and that was recorded
    have habsurd : ¬ 7 = v ∧ 7 = v ∧ v = 7 := by simpa [Unreported, offeringLog] using hv
    exact habsurd.1 habsurd.2.1

end AktualizrNano
