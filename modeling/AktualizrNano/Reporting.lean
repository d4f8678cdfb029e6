/-
AktualizrNano/Reporting.lean

Whether the outcome of an update is reported, in every life of a device.

The completion handler ignores the result of `aknano_send_event`: an event that
was not taken in any of the attempts is never sent again
(`outcome_unreported`).  As long as the network takes every report, an outcome
stays pending until it was reported, over any number of boots
(`outcome_reported`).
-/
import AktualizrNano.Growth
import AktualizrNano.Rollback

namespace AktualizrNano

open CLib NorFlash Outcome Trace

/-! ### Outcomes on record -/

/-- The bootloader has given up the image of version `v`, or has made it
permanent. -/
def OutcomeOf (v : Version) (ev : Event) : Prop :=
  (∃ permanent, ev = .reset (.reverted v) permanent) ∨ ev = .confirmed true true v

/-- An outcome is on record, and no completion since. -/
def Pending : List Event → Prop :=
  Since (fun ev _ => ∃ v, OutcomeOf v ev) fun ev =>
    ∃ rolledBack applied saved, ev = .completed rolledBack applied saved

/-- The settings have something to report. -/
def Owes (s : Stored) (b : Boot) : Prop :=
  b.armed = none ∧ b.fallback = none ∧
    (s.indicatesRollback b.running = true ∨ s.confirmed ≠ b.running)

/-- **The invariant.**  What is pending is owed, and once the completion handler
has run nothing is pending. -/
def Machine.Awaits (es : List Event) (m : Machine) : Prop :=
  match m.phase with
  | .awake ram _ => if ram.finished then ¬ Pending es else Pending es → Owes m.stored m.boot
  | _ => Pending es → Owes m.stored m.boot

variable {p : Platform} {e : Env} {s : Stored} {b : Boot} {ram : Ram} {task : Task}
variable {phase : Phase} {es : List Event} {ev : Event} {m m' : Machine} {w w' : World}

theorem not_outcome (hreset : ∀ pick permanent, ev ≠ .reset pick permanent)
    (hconfirmed : ∀ onTrial permanent, ev ≠ .confirmed true onTrial permanent) (v : Version) :
    ¬ OutcomeOf v ev := by
  rintro (⟨permanent, heq⟩ | heq)
  · exact hreset _ _ heq
  · exact hconfirmed _ _ heq

/-- An event that is no outcome leaves nothing pending that was not. -/
theorem Pending.before (h : Pending (ev :: es)) (hev : ∀ v, ¬ OutcomeOf v ev) : Pending es := by
  rcases h with ⟨v, hout⟩ | ⟨-, hold⟩
  · exact absurd hout (hev v)
  · exact hold

/-- Such events leave the invariant alone. -/
theorem Machine.Awaits.next (h : (⟨s, b, .awake ram task⟩ : Machine).Awaits es)
    (hev : ∀ v, ¬ OutcomeOf v ev) (task' : Task) :
    (⟨s, b, .awake ram task'⟩ : Machine).Awaits (ev :: es) := by
  unfold Machine.Awaits at h ⊢
  dsimp only at h ⊢
  split
  · next hfinished =>
    rw [if_pos hfinished] at h
    exact fun hpending => h (hpending.before hev)
  · next hunfinished =>
    rw [if_neg hunfinished] at h
    exact fun hpending => h (hpending.before hev)

theorem Machine.Awaits.owes (h : (⟨s, b, phase⟩ : Machine).Awaits es) (hpending : Pending es) :
    Owes s b := by
  cases phase with
  | off => exact h hpending
  | loading => exact h hpending
  | awake ram task =>
    unfold Machine.Awaits at h
    dsimp only at h
    split at h
    · exact absurd hpending h
    · exact h hpending

theorem Machine.Awaits.finished (h : (⟨s, b, .awake ram task⟩ : Machine).Awaits es)
    (hfinished : ram.finished = true) : ¬ Pending es := by
  unfold Machine.Awaits at h
  dsimp only at h
  rwa [if_pos hfinished] at h

theorem awaits_of_finished (hfinished : ram.finished = true) (h : ¬ Pending es) :
    (⟨s, b, .awake ram task⟩ : Machine).Awaits es := by
  unfold Machine.Awaits
  dsimp only
  rwa [if_pos hfinished]

theorem awaits_of_owes (hfinished : ram.finished = false) (h : Pending es → Owes s b) :
    (⟨s, b, .awake ram task⟩ : Machine).Awaits es := by
  unfold Machine.Awaits
  dsimp only
  rwa [if_neg (by rw [hfinished]; exact Bool.false_ne_true)]

/-- **A reset.**  A version that is given up is owed; nothing else changes. -/
theorem Owes.reset (hstage : Stage s b) (h : Pending es → Owes s b) (permanent : Version) :
    Pending (.reset b.pick permanent :: es) → Owes s b.reset := by
  rintro (⟨v, ⟨_, hreverted⟩ | ⟨⟨⟩⟩⟩ | ⟨-, hold⟩)
  · injection hreverted with hpick
    rcases hstage.reset_cases with ⟨-, htrial, -⟩ | ⟨-, -, -, hunderWay, hreset⟩ | ⟨-, -, hsame, -⟩
    · cases htrial.symm.trans hpick
    · rw [hreset]
      exact ⟨rfl, rfl, Or.inl hunderWay⟩
    · cases hsame.symm.trans hpick
  · obtain ⟨harmed, hfallback, hdue⟩ := h hold
    rcases hstage.reset_cases with ⟨hsome, -⟩ | ⟨hsome, -⟩ | ⟨-, -, -, hreset⟩
    · cases harmed.symm.trans hsome
    · cases hfallback.symm.trans hsome
    · rw [hreset]
      exact ⟨harmed, hfallback, hdue⟩

/-- **A confirmation.**  The image that is permanent now was not the confirmed
one before. -/
theorem Owes.confirm (hawake : Awake s b ram)
    (h : Pending es → Owes s b) (ok : Bool) (permanent : Version) :
    Pending (.confirmed ok b.fallback.isSome permanent :: es) →
      Owes s (if ok then b.confirm else b) := by
  rintro (⟨v, ⟨_, ⟨⟩⟩ | hconfirmed⟩ | ⟨-, hold⟩)
  · injection hconfirmed with hok hsome
    subst hok
    refine ⟨hawake.unarmed, rfl, Or.inr ?_⟩
    cases hawake.rest.stage with
    | permanent _ hfallback =>
      rw [hfallback] at hsome
      cases hsome
    | onTrial _ _ happlied hunderWay =>
      intro heq
      exact (indicatesRollback_iff.mp hunderWay).2.1 (happlied.trans heq.symm)
    | armed harmed => cases hawake.unarmed.symm.trans harmed
  · obtain ⟨harmed, hfallback, hdue⟩ := h hold
    cases ok with
    | true => exact ⟨harmed, rfl, hdue⟩
    | false => exact ⟨harmed, hfallback, hdue⟩

/-- What is owed is reported by the handler. -/
theorem Awake.due (h : Awake s b ram) (hfinished : ram.finished = false) (howes : Owes s b) :
    ram.rolledBack = true ∨ ram.confirmed ≠ ram.running := by
  rw [h.unfinished hfinished, h.confirmed, h.running]
  exact howes.2.2

/-- **One step.** -/
theorem awaits_step (hsound : Sound m) (h : m.Awaits es) (hev : ev.Undisturbed)
    (hstep : Step p e m ev m') : m'.Awaits (ev :: es) := by
  cases hstep with
  | @reset m hfree =>
    obtain ⟨s, b, phase⟩ := m
    exact Owes.reset (hsound.rest hfree).stage h.owes _
  | loaded => exact awaits_of_owes rfl fun hpending => h (hpending.before (not_outcome nofun nofun))
  | iteration => exact h.next (not_outcome (by nofun) (by nofun)) _
  | refreshed => exact h.next (not_outcome (by nofun) (by nofun)) _
  | @confirmed s b b' ram metadata ok hboot =>
    obtain ⟨hawake, -⟩ := hsound.of_refreshed
    subst hboot
    cases hfinished : ram.finished with
    | false => exact awaits_of_owes hfinished (Owes.confirm hawake h.owes ok _)
    | true =>
      -- a trial is over when the handler has run
      refine awaits_of_finished hfinished fun hpending => h.finished hfinished (hpending.before ?_)
      rintro v (⟨_, ⟨⟩⟩ | hconfirmed)
      injection hconfirmed with _ hsome
      rw [(hawake.finished hfinished).1] at hsome
      cases hsome
  | settled hperm hfinished hrolled hreported =>
    obtain ⟨hawake, -⟩ := hsound.of_refreshed
    refine awaits_of_finished rfl fun hpending => ?_
    have howes := h.owes (hpending.before (not_outcome nofun nofun))
    rcases hawake.due hfinished howes with hflag | hother
    · exact Bool.false_ne_true (hrolled.symm.trans hflag)
    · exact hother hreported
  | completed =>
    apply awaits_of_finished rfl
    rintro (⟨v, ⟨_, ⟨⟩⟩ | ⟨⟨⟩⟩⟩ | ⟨hspoils, -⟩)
    exact hspoils ⟨_, _, _, rfl⟩
  | install hperm hfinished =>
    refine awaits_of_finished hfinished fun hpending => ?_
    exact h.finished hfinished (hpending.before (not_outcome nofun nofun))
  | @downloaded s b ram target ok =>
    cases hsound with
    | awake _ hfree => exact hfree.elim
    | downloading hinstalling =>
      refine awaits_of_finished hinstalling.finished fun hpending => ?_
      exact h.finished hinstalling.finished (hpending.before (not_outcome nofun nofun))
  | readyForTest =>
    cases hsound with
    | awake _ hfree => exact hfree.elim
    | fetched hinstalling =>
      refine awaits_of_finished hinstalling.finished fun hpending => ?_
      exact h.finished hinstalling.finished (hpending.before (not_outcome nofun nofun))
  | @installed s s' b ram target armed saved =>
    have hnone : ram.finished = true → ¬ Pending (.installed target.version armed saved :: es) :=
      fun hfinished hpending =>
        h.finished hfinished (hpending.before (not_outcome nofun nofun))
    cases hsound with
    | awake _ hfree => exact hfree.elim
    | failed hinstalling =>
      exact awaits_of_finished hinstalling.finished (hnone hinstalling.finished)
    | armed hinstalling => exact fun hpending => absurd hpending (hnone hinstalling.finished)
  | cut => exact hev.kept.elim

/-! ### Calls of the completion handler -/

variable {c : Context} {boots : List Nat}

/-- In this life the completion handler is called with `c`, for the first time
in a boot. -/
def Handles (p : Platform) (e : Env) (boots : List Nat) (w : World) (c : Context)
    (w' : World) : Prop :=
  ∃ boots₀ n rest k, boots = boots₀ ++ n :: rest ∧ k < n ∧
    FinishCalled p e boots₀ w k c false w'

/-- The event that the handler sends. -/
abbrev sendCompletion (p : Platform) (e : Env) (s : Settings) : M (Bool × Settings) :=
  aknanoSendEvent p e s .installationCompleted 0 (!s.isRunningRolledBackImage)

/-- The network takes every report: unless power is lost before, one of the
attempts passes. -/
def ReportsTaken (p : Platform) (e : Env) (boots : List Nat) (w : World) : Prop :=
  ∀ c w', Handles p e boots w c w' → CompletionDue c.settings → ∀ r w₁,
    sendCompletion p e c.settings w' = .ok r w₁ → Delivered w' w₁

/-- With this record the handler was called, had something to report, and
`aknano_send_event` returned `true`. -/
def Reported (p : Platform) (e : Env) (boots : List Nat) (w : World) (es : List Event) : Prop :=
  ∃ c w', Handles p e boots w c w' ∧ w'.log = es ∧ CompletionDue c.settings ∧
    ∃ s w₁, sendCompletion p e c.settings w' = .ok (true, s) w₁

/-- The record of a call is a part of the record of the life. -/
theorem Handles.grew (h : Handles p e boots w c w') : Grew w' (lifetime p e boots w) := by
  obtain ⟨boots₀, n, rest, k, rfl, hk, hcall⟩ := h
  obtain ⟨n, rfl⟩ := Nat.exists_eq_add_of_lt hk
  rw [lifetime_append]
  exact Extends.trans (untilFinish_grew hcall) (grew_lifetime rest _)

/-- **Every save of the handler** stands behind a report. -/
theorem completed_reported (hnew : w.log = []) (htaken : ReportsTaken p e boots w)
    {newer older : List Event} {rolledBack saved : Bool} {applied : Version}
    (hlog : (lifetime p e boots w).log = newer ++ .completed rolledBack applied saved :: older) :
    Reported p e boots w older := by
  have hgrows : Grows (fun ev es => (∃ rolledBack applied saved,
      ev = .completed rolledBack applied saved) → Reported p e boots w es) w
      (lifetime p e boots w) := by
    refine lifetime_grows ?_ ?_
    · rintro ev es hev ⟨rolledBack, applied, saved, rfl⟩
      exact absurd rfl (hev rolledBack applied saved)
    · rintro boots₀ n rest hboots k hk c executedOnce w' hcall rfl hdue sent s₁ w₁ hsend
        applied saved -
      have hhandles : Handles p e boots w c w' := ⟨boots₀, n, rest, k, hboots, hk, hcall⟩
      have hsent : sent = true :=
        ((sendEvent_delivered ..).of_ok hsend).mpr (htaken c w' hhandles hdue _ _ hsend)
      exact ⟨c, w', hhandles, rfl, hdue, s₁, w₁, hsent ▸ hsend⟩
  rw [Grows, hnew, hlog] at hgrows
  exact hgrows.of_split ⟨_, _, _, rfl⟩

/-- The run so far. -/
structure Reporting (es : List Event) (m : Machine) : Prop where
  sound : Sound m
  awaits : m.Awaits es

theorem Reporting.start (hstart : StartsPermanent w) (hrunning : w.boot.running ≤ maxVersion)
    (hclean : (storedOf p w.flash.mem).indicatesRollback w.boot.running = false) :
    Reporting [] (machineOf p w) :=
  ⟨Sound.start hstart hrunning hclean, False.elim⟩

theorem Reporting.step (h : Reporting es m) (hev : ev.Undisturbed) (hstep : Step p e m ev m') :
    Reporting (ev :: es) m' :=
  ⟨h.sound.step hev hstep, awaits_step h.sound h.awaits hev hstep⟩

/-- **What is pending is reported** by the next call of the handler. -/
theorem Handles.due (h : Handles p e boots w c w') (hstart : StartsPermanent w)
    (hrunning : w.boot.running ≤ maxVersion)
    (hclean : (storedOf p w.flash.mem).indicatesRollback w.boot.running = false)
    (hdevice : ∀ ev ∈ w'.log, ev.Undisturbed) (hpending : Pending w'.log) :
    CompletionDue c.settings := by
  obtain ⟨boots₀, n, rest, k, -, -, hcall⟩ := h
  obtain ⟨metadata, refused, hat, -⟩ := hcall.at hstart.new
  have hinv := hat.follows.invariant (Reporting.start hstart hrunning hclean) Reporting.step hdevice
  obtain ⟨hawake, -⟩ := hinv.sound.of_refreshed
  rintro ⟨hrolled, hreported⟩
  rcases hawake.due rfl (hinv.awaits.owes hpending) with hflag | hother
  · exact hrolled hflag
  · exact hother hreported

/-- **No outcome is lost as long as reports are taken.**  In every life on a
device that does what it is asked: if the network takes every report, then each
call of the handler finds something to report for an outcome that is on record,
unless that was reported already; and whatever the handler saves, it saves after
`aknano_send_event` has returned `true`. -/
theorem outcome_reported (hstart : StartsPermanent w) (hrunning : w.boot.running ≤ maxVersion)
    (hclean : (storedOf p w.flash.mem).indicatesRollback w.boot.running = false)
    (hdevice : ∀ ev ∈ (lifetime p e boots w).log, ev.Undisturbed)
    (htaken : ReportsTaken p e boots w) :
    (∀ c w' v newer ev older, Handles p e boots w c w' → w'.log = newer ++ ev :: older →
      OutcomeOf v ev → CompletionDue c.settings ∨ ∃ newer₂ newer₁, newer = newer₂ ++ newer₁ ∧
        Reported p e boots w (newer₁ ++ ev :: older)) ∧
    ∀ newer rolledBack applied saved older,
      (lifetime p e boots w).log = newer ++ .completed rolledBack applied saved :: older →
        Reported p e boots w older := by
  refine ⟨?_, fun newer rolledBack applied saved older => completed_reported hstart.new htaken⟩
  intro c w' v newer ev older hhandles hlog hout
  obtain ⟨later, hlater⟩ := hhandles.grew.exists_append
  by_cases hcompleted : ∃ rolledBack applied saved, .completed rolledBack applied saved ∈ newer
  · -- the completion in between was reported
    obtain ⟨rolledBack, applied, saved, hmem⟩ := hcompleted
    obtain ⟨newer₂, newer₁, rfl⟩ := List.append_of_mem hmem
    have hall : (lifetime p e boots w).log
        = (later ++ newer₂) ++ .completed rolledBack applied saved :: (newer₁ ++ ev :: older) := by
      rw [hlater, hlog]
      simp
    exact Or.inr ⟨newer₂ ++ [.completed rolledBack applied saved], newer₁, by simp,
      completed_reported hstart.new htaken hall⟩
  · refine Or.inl (hhandles.due hstart hrunning hclean (fun ev' hev' => hdevice ev' ?_) ?_)
    · rw [hlater]
      exact List.mem_append_right later hev'
    · rw [hlog, Pending, since_iff]
      refine ⟨newer, ev, older, rfl, ⟨v, hout⟩, ?_⟩
      rintro _ hmem ⟨rolledBack, applied, saved, rfl⟩
      exact hcompleted ⟨_, _, _, hmem⟩

/-- A boot up to the report of its iteration `k`. -/
def untilReported (p : Platform) (e : Env) (k : Nat) : M (Bool × Settings) := do
  match ← untilFinish p e k with
  | some (c, _) => sendCompletion p e c.settings
  | none => throw .fault

/-- A report that was seen to return `true` was taken. -/
theorem delivered_of_untilReported {k : Nat} {executedOnce : Bool} {r : Bool × Settings}
    {w₀ w₁ : World} (hseen : (returned (untilReported p e k) w₀).map Prod.fst = some true)
    (hcall : untilFinish p e k w₀ = .ok (some (c, executedOnce)) w')
    (hsend : sendCompletion p e c.settings w' = .ok r w₁) : Delivered w' w₁ := by
  have hrun : untilReported p e k w₀ = .ok r w₁ := (bind_of_ok hcall).trans hsend
  rw [returned, hrun] at hseen
  exact ((sendEvent_delivered ..).of_ok hsend).mp (Option.some.inj hseen)

/-- A board whose plain `char` is signed: what is erased is no id there. -/
def Platform.signed : Platform := { Platform.sample with charSigned := true }

/-- The servers offer version 7 and nothing else. -/
def Env.seven : Env := { Env.offering with tufRefresh := fun _ => ⟨[], tufSuccess, ascii "7"⟩ }

/-- Version 7 is installed on a new device and never checks in: it is reverted,
which the next boot reports. -/
def sevenLog : List Event :=
  [.completed true 7 true, .refreshed (ascii "7"), .iteration, .loaded true 5 true,
    .reset (.reverted 7) 5, .loaded true 7 false, .reset (.trial 7) 5, .installed 7 true true,
    .readyForTest 7 true, .downloaded 7 true 0, .install ⟨3, 7, sha256Abc⟩ 5,
    .completed false 0 true, .refreshed (ascii "7"), .iteration, .loaded true 5 false,
    .reset .same 5]

/-- It was reported before it was saved. -/
theorem outcome_reported_seven : Reported .signed .seven [1, 0, 1] (.factory 5) sevenLog.tail := by
  have hrun : (lifetime .signed .seven [1, 0, 1] (.factory 5)).log = sevenLog ∧
      (returned (untilReported .signed .seven 0)
        (lifetime .signed .seven [] (.factory 5))).map Prod.fst = some true ∧
      (returned (untilReported .signed .seven 0)
        (lifetime .signed .seven [1, 0] (.factory 5))).map Prod.fst = some true := by
    decide +kernel
  obtain ⟨hlog, hfirst, hthird⟩ := hrun
  have hdevice : ∀ ev ∈ (lifetime .signed .seven [1, 0, 1] (.factory 5)).log,
      ev.Undisturbed := by
    rw [hlog]
    simp [sevenLog, Event.undisturbed_iff, Event.Kept, Event.Obeyed]
  have hwhere : ∀ {boots₀ rest : List Nat} {n : Nat}, [1, 0, 1] = boots₀ ++ n :: rest →
      boots₀ = [] ∧ n = 1 ∨ boots₀ = [1] ∧ n = 0 ∨ boots₀ = [1, 0] ∧ n = 1 := by
    intro boots₀ rest n h
    rcases boots₀ with - | ⟨a, - | ⟨b, - | ⟨d, boots₀⟩⟩⟩ <;> simp at h ⊢ <;> omega
  have htaken : ReportsTaken .signed .seven [1, 0, 1] (.factory 5) := by
    rintro c w' ⟨boots₀, n, rest, k, hboots, hk, hcall⟩ hdue r w₁ hsend
    -- the handler is called in the first and in the third boot
    rcases hwhere hboots with ⟨rfl, rfl⟩ | ⟨rfl, rfl⟩ | ⟨rfl, rfl⟩
    · obtain rfl : k = 0 := by omega
      exact delivered_of_untilReported hfirst hcall hsend
    · exact absurd hk (Nat.not_lt_zero k)
    · obtain rfl : k = 0 := by omega
      exact delivered_of_untilReported hthird hcall hsend
  have hnew : storedOf .signed (World.factory 5).flash.mem = ⟨0, 0, false⟩ :=
    storedOf_erased fun _ _ _ => rfl
  exact (outcome_reported (startsPermanent_factory 5) (by decide) (by rw [hnew]; rfl) hdevice
    htaken).2 [] true 7 true sevenLog.tail hlog

theorem abc_fits :
    ∀ bytes ∈ some (ascii "abc"), bytes.length ≤ aknanoImageDownloadBufferLength := by
  decide

/-- The transport takes no event, and anything else. -/
def Env.unheard : Env :=
  { Env.seven with
    reply := fun _ request =>
      if request.path = ascii "/events" then .failed
      else ⟨true, 206, some (ascii "abc"), abc_fits⟩ }

/-- Version 7 is installed on a new device and confirmed; then the device is
reset and checks in. -/
def unheardLog : List Event :=
  [.refreshed (ascii "7"), .iteration, .loaded true 7 false, .reset .same 7,
    .completed false 7 true, .confirmed true true 7, .refreshed (ascii "7"), .iteration,
    .loaded true 7 false, .reset (.trial 7) 5, .installed 7 true true, .readyForTest 7 true,
    .downloaded 7 true 0, .install ⟨3, 7, sha256Abc⟩ 5, .completed false 0 true,
    .refreshed (ascii "7"), .iteration, .loaded true 5 false, .reset .same 5]

/-- **An outcome can be lost**: version 7 was armed and confirmed, the network
has taken no event at all, and at the next boot there is nothing to report. -/
theorem outcome_unreported :
    ∃ c w', Handles .signed .unheard [1, 1, 1] (.factory 5) c w' ∧
      (∀ ev ∈ w'.log, ev.Undisturbed) ∧
      (∃ newer older, w'.log = newer ++ .confirmed true true 7 :: older ∧
        .readyForTest 7 true ∈ older) ∧
      (∀ x ∈ w'.net, x.IsEvent → x.reply.passed = false) ∧ ¬ CompletionDue c.settings := by
  have hrun : (returned (untilFinish .signed .unheard 0)
        (lifetime .signed .unheard [1, 1] (.factory 5))).map (Option.map fun r =>
          (r.2, decide (CompletionDue r.1.settings))) = some (some (false, false)) ∧
      (final (untilFinish .signed .unheard 0)
        (lifetime .signed .unheard [1, 1] (.factory 5))).log = unheardLog ∧
      ∀ x ∈ (final (untilFinish .signed .unheard 0)
        (lifetime .signed .unheard [1, 1] (.factory 5))).net,
          x.IsEvent → x.reply.passed = false := by
    decide +kernel
  obtain ⟨hreturned, hlog, hnet⟩ := hrun
  obtain ⟨r, hr, hsome⟩ := Option.map_eq_some_iff.mp hreturned
  obtain ⟨⟨c, executedOnce⟩, rfl, hpair⟩ := Option.map_eq_some_iff.mp hsome
  obtain ⟨rfl, hdue⟩ := Prod.mk.inj hpair
  have hcall : FinishCalled .signed .unheard [1, 1] (.factory 5) 0 c false _ := eq_ok_of_returned hr
  generalize final (untilFinish .signed .unheard 0)
    (lifetime .signed .unheard [1, 1] (.factory 5)) = w' at hcall hlog hnet
  refine ⟨c, w', ⟨[1, 1], 1, [], 0, rfl, by decide, hcall⟩, ?_, ?_, hnet, of_decide_eq_false hdue⟩
  · rw [hlog]
    simp [unheardLog, Event.undisturbed_iff, Event.Kept, Event.Obeyed]
  · rw [hlog]
    exact ⟨unheardLog.take 5, unheardLog.drop 6, rfl, by decide⟩

end AktualizrNano
