/-
AktualizrNano/Growth.lean

The record only grows, and each of its events is put there by one place of the
program.  `Grows P` says that what was added satisfies `P` of the record in
front of it.  For all events but one that is no condition on the program: they
are assumed to satisfy `P`.  The exception is the end of an update, for which
the caller says what a call of the completion handler amounts to (`Accounts`).

With `P` true of everything this is growth alone.
-/
import AktualizrNano.InstallEnd

namespace AktualizrNano

open CLib NorFlash Outcome Trace

variable {p : Platform} {e : Env} {P : Event → List Event → Prop}

/-- The record has grown by events that satisfy `P`. -/
def Grows (P : Event → List Event → Prop) (w w' : World) : Prop := Extends P w.log w'.log

theorem Grows.refl (w : World) : Grows P w w := Extends.refl

instance : Trans (Grows P) (Grows P) (Grows P) where
  trans h h' := Extends.trans h h'

/-- The record is the same. -/
theorem Grows.of_eq {w w' : World} (h : w'.log = w.log) : Grows P w w' := by
  rw [Grows, h]
  exact Extends.refl

theorem Quiet.grows {w w' : World} (h : Quiet w w') : Grows P w w' := .of_eq h.log

/-- Only of the end of an update `P` says something. -/
def OfCompletion (P : Event → List Event → Prop) : Prop :=
  ∀ ev es, (∀ rolledBack applied saved, ev ≠ .completed rolledBack applied saved) → P ev es

/-- One event. -/
theorem grows_emit {ev : Event} (hP : OfCompletion P)
    (hev : ∀ rolledBack applied saved, ev ≠ .completed rolledBack applied saved) :
    Keeps (Grows P) (emit ev) := fun w => wp_emit.mpr (Extends.refl.cons (hP ev w.log hev))

theorem grows_during {α : Type} {activity : Activity} {x : M α} (hP : OfCompletion P)
    (hx : Keeps (Grows P) x) : Keeps (Grows P) (during activity x) := by
  intro w
  rw [during, wp_onError]
  exact wp_mono (hx w) (fun _ _ hgrows => hgrows) fun _ w' hgrows =>
    hgrows.cons (hP _ w'.log (by rintro _ _ _ ⟨⟩))

theorem grows_onFlash {α : Type} (x : FlashM α) : Keeps (Grows P) (onFlash x) := by
  intro w
  rw [onFlash, wp_zoom]
  unfold wp
  cases x w.flash with
  | ok a f => exact Extends.refl
  | error halt f => exact Extends.refl

theorem grows_blUpdateImageState (update : Boot → Boot) :
    Keeps (Grows P) (blUpdateImageState e update) := by
  intro w
  refine wp_mono (blUpdateImageState_spec update w) ?_ fun _ _ hstill => hstill.quiet.grows
  intro status w' h
  rw [h]
  exact Extends.refl

/-- What a call of the completion handler with these settings stands for: if it
has something to report and gets past the sending, its event satisfies `P`. -/
def Accounts (p : Platform) (e : Env) (P : Event → List Event → Prop) (s : Settings)
    (executedOnce : Bool) (w : World) : Prop :=
  executedOnce = false → CompletionDue s → ∀ sent s₁ w₁,
    aknanoSendEvent p e s .installationCompleted 0 (!s.isRunningRolledBackImage) w
        = .ok (sent, s₁) w₁ →
      ∀ applied saved, P (.completed s.isRunningRolledBackImage applied saved) w.log

/-- **The completion handler.** -/
theorem sendInstallationFinishedEvent_grows {s : Settings} {executedOnce : Bool} {w : World}
    (hP : OfCompletion P) (h : Accounts p e P s executedOnce w) :
    wp (aknanoSendInstallationFinishedEvent p e s executedOnce)
      (fun _ w' => Grows P w w') (fun _ w' => Grows P w w') w := by
  unfold aknanoSendInstallationFinishedEvent
  cases executedOnce with
  | true =>
    rw [if_pos rfl, wp_pure]
    exact Grows.refl w
  | false =>
    rw [if_neg Bool.false_ne_true]
    dsimp only
    by_cases hdue : CompletionDue s
    · rw [if_neg hdue, wp_bind]
      refine wp_mono (wp_and (aknanoSendEvent_spec ..) wp_self) ?_ fun _ _ hq => hq.1.grows
      rintro ⟨sent, s₁⟩ w₁ ⟨⟨hq, id, hs₁, -⟩, hsend⟩
      dsimp only at hs₁ ⊢
      subst hs₁
      have hP₁ : ∀ applied saved,
          P (.completed s.isRunningRolledBackImage applied saved) w₁.log := by
        rw [hq.log]
        exact h rfl hdue _ _ _ hsend
      rw [wp_bind, during, wp_onError, onFlash, wp_zoom]
      unfold wp
      split
      · next ret f _ =>
        refine Extends.trans hq.grows (Extends.refl.cons ?_)
        dsimp only
        rw [endOfUpdate_rolledBack]
        exact hP₁ _ _
      · next halt f _ =>
        exact Extends.trans hq.grows (Extends.refl.cons (hP _ _ (by rintro _ _ _ ⟨⟩)))
    · rw [if_pos (not_not.mp hdue), wp_bind, wp_emit, wp_pure]
      exact Extends.refl.cons (hP _ _ (by rintro _ _ _ ⟨⟩))

/-! ### The functions around it -/

/-- An installation is put on record first. -/
theorem installSelectedTarget_eq (hP : OfCompletion P) (c : Context) :
    ∃ rest : M (Bool × Settings), aknanoInstallSelectedTarget p e c
        = (emit (.install c.selectedTarget c.settings.runningVersion) >>= fun _ => rest) ∧
      Keeps (Grows P) rest := by
  have hsend : ∀ s eventType newVersion success,
      Keeps (Grows P) (aknanoSendEvent p e s eventType newVersion success) :=
    fun s eventType newVersion success w =>
      wp_mono (aknanoSendEvent_spec s eventType newVersion success w)
        (fun _ _ h => h.1.grows) fun _ _ h => h.grows
  have huuid : Keeps (Grows P) (aknanoGenSerialAndUuid e) := fun w =>
    wp_mono (genSerialAndUuid_spec w) (fun _ _ h => h.1.quiet.grows) fun _ _ h => h.quiet.grows
  have hnote : ∀ version ok applied, Keeps (Grows P) (noteDownload version ok applied) :=
    fun version ok applied w => wp_modify.mpr (Extends.refl.cons (hP _ _ nofun))
  have happly : ∀ s, Keeps (Grows P) (applyTarget p e s c.selectedTarget.version) := fun s =>
    (hsend _ _ _ _).bind fun _ => (hsend _ _ _ _).bind fun _ => (hsend _ _ _ _).bind fun _ =>
      (grows_blUpdateImageState _).bind fun _ => (grows_emit hP (by nofun)).bind fun _ =>
        .pure Grows.refl _
  have hclose : ∀ armed s, Keeps (Grows P) (do
      let s ← scheduleRetry e armed s
      let ret ← onFlash (aknanoUpdateSettingsInFlash e.faults s)
      emit (.installed c.selectedTarget.version armed (ret = 0))
      pure (armed, s)) := by
    intro armed s
    refine Keeps.bind (fun w => ?_) fun _ => (grows_onFlash _).bind fun _ =>
      (grows_emit hP (by nofun)).bind fun _ => .pure Grows.refl _
    exact wp_mono (scheduleRetry_spec armed s w) (fun _ _ h => h.1.quiet.grows)
      fun _ _ h => h.quiet.grows
  refine ⟨_, rfl, grows_during hP ?_⟩
  refine huuid.bind fun _ => (hsend _ _ _ _).bind fun _ =>
    ((quiet_downloadAndFlashImage _ _).mono fun _ _ h => h.grows).bind fun ok =>
      (hnote _ _ _).bind fun _ => ?_
  cases ok with
  | true => exact (happly _).bind fun _ => hclose _ _
  | false => exact (hsend _ _ _ _).bind fun _ => Keeps.bind (.pure Grows.refl _) fun _ => hclose _ _

theorem grows_installSelectedTarget (hP : OfCompletion P) (c : Context) :
    Keeps (Grows P) (aknanoInstallSelectedTarget p e c) := by
  obtain ⟨rest, heq, hrest⟩ := installSelectedTarget_eq (p := p) (e := e) hP c
  rw [heq]
  exact (grows_emit hP (by nofun)).bind fun _ => hrest

theorem grows_setImageConfirmed (hP : OfCompletion P) (isImagePermanent : Bool) :
    Keeps (Grows P) (aknanoSetImageConfirmed e isImagePermanent) := by
  unfold aknanoSetImageConfirmed
  split
  · exact .pure Grows.refl _
  · have hget : Keeps (Grows P) (get : M World) := fun w => wp_get.mpr (Grows.refl w)
    exact hget.bind fun _ => (grows_blUpdateImageState _).bind fun _ => hget.bind fun _ =>
      (grows_emit hP (by nofun)).bind fun _ => .pure Grows.refl _

theorem quiet_fetchConfig (s : Settings) : Keeps Quiet (fetchConfig p e s) := by
  unfold fetchConfig
  refine (quiet_sendHttpRequest _ _ _ _).bind fun reply => ?_
  split
  · split
    · exact .pure Quiet.refl _
    · exact .throw Quiet.refl _
  · exact .pure Quiet.refl _

theorem quiet_tufRefresh (s : Settings) : Keeps Quiet (tufRefresh p e s) := fun w =>
  wp_mono (tufRefresh_spec s w) (fun _ _ h => h.1) fun _ _ h => h

theorem grows_checkinUntilFinish (hP : OfCompletion P) (c : Context) :
    Keeps (Grows P) (checkinUntilFinish p e c) := by
  have hstill : ∀ {α : Type} {x : M α}, Keeps Still x → Keeps (Grows P) x := fun hx =>
    hx.mono fun _ _ h => h.quiet.grows
  have hquiet : ∀ {α : Type} {x : M α}, Keeps Quiet x → Keeps (Grows P) x := fun hx =>
    hx.mono fun _ _ h => h.grows
  unfold checkinUntilFinish
  refine (hstill (still_mtlsConnect _)).bind fun connected => ?_
  split
  · refine (hquiet (quiet_fetchConfig _)).bind fun s =>
      (hquiet (quiet_sendHttpRequest _ _ _ _)).bind fun _ =>
      (hquiet (quiet_sendHttpRequest _ _ _ _)).bind fun _ =>
      (hquiet (quiet_sendHttpRequest _ _ _ _)).bind fun _ =>
      (hstill still_currentEpoch).bind fun _ => (hquiet (quiet_tufRefresh s)).bind fun r => ?_
    obtain ⟨tufRet, userBuffer⟩ := r
    dsimp only
    split
    · refine (grows_emit hP (by nofun)).bind fun _ => ?_
      split
      · exact (grows_setImageConfirmed hP _).bind fun _ => .pure Grows.refl _
      · exact .pure Grows.refl _
    · exact .pure Grows.refl _
  · exact .pure Grows.refl _

theorem still_isUpdateRequired (c : Context) : Keeps Still (isUpdateRequired e c) := by
  have hretry : Keeps Still (aknanoShouldRetryRollback e c) := by
    unfold aknanoShouldRetryRollback
    split
    · exact .pure Still.refl _
    · exact still_currentEpoch.bind fun _ => .pure Still.refl _
  have hdecide : ∀ shouldRetry : Bool, Keeps Still
      (if aknanoIsRollback c = true ∧ ¬ shouldRetry = true then pure false
        else pure (decide (c.settings.runningVersion < c.selectedTarget.version)) : M Bool) := by
    intro shouldRetry
    split
    · exact .pure Still.refl _
    · exact .pure Still.refl _
  unfold isUpdateRequired
  split
  · dsimp only
    split
    · exact hretry.bind hdecide
    · exact Keeps.bind (.pure Still.refl _) hdecide
  · exact .pure Still.refl _

theorem still_reboot {α : Type} : Keeps Still (aknanoRebootCommand e : M α) :=
  (still_delay 100).bind fun _ => .throw Still.refl _

theorem still_rebootIfOffline (startupEpoch : BitVec 64) (anyCheckinOk : Bool) (s : Settings) :
    Keeps Still (rebootIfOffline e startupEpoch anyCheckinOk s) := by
  unfold rebootIfOffline
  split
  · refine still_currentEpoch.bind fun _ => ?_
    split
    · exact (still_delay 2000).bind fun _ => still_reboot
    · exact .pure Still.refl _
  · exact .pure Still.refl _

theorem Still.grows {w w' : World} (h : Still w w') : Grows P w w' := h.quiet.grows

theorem grows_handleCheckin (hP : OfCompletion P) (c : Context) :
    Keeps (Grows P) (handleCheckin p e c) := by
  unfold handleCheckin
  refine ((still_isUpdateRequired c).mono fun _ _ h => h.grows).bind fun updateRequired => ?_
  split
  · refine (grows_installSelectedTarget hP c).bind fun r => ?_
    obtain ⟨isRebootRequired, s⟩ := r
    dsimp only
    split
    · exact still_reboot.mono fun _ _ h => h.grows
    · exact .pure Grows.refl _
  · exact .pure Grows.refl _

theorem grows_loopFromCheckin (hP : OfCompletion P) (startupEpoch : BitVec 64)
    (anyCheckinOk : Bool) (r : Int × Context × Bool) :
    Keeps (Grows P) (loopFromCheckin p e startupEpoch anyCheckinOk r) := by
  obtain ⟨checkinResult, c, executedOnce⟩ := r
  have hoffline : ∀ anyCheckinOk s, Keeps (Grows P) (do
      rebootIfOffline e startupEpoch anyCheckinOk s
      pure (⟨s, anyCheckinOk, executedOnce⟩ : Loop)) := fun anyCheckinOk s =>
    ((still_rebootIfOffline startupEpoch anyCheckinOk s).mono fun _ _ h => h.grows).bind
      fun _ => .pure Grows.refl _
  unfold loopFromCheckin
  dsimp only
  split
  · exact (grows_handleCheckin hP c).bind fun s => Keeps.bind (.pure Grows.refl _)
      fun _ => hoffline _ _
  · exact Keeps.bind (.pure Grows.refl _) fun _ => hoffline _ _

theorem checkinFromFinish_grows {tufRet : Int} {finishes executedOnce : Bool} {c : Context}
    {w : World} (hP : OfCompletion P)
    (h : finishes = true → Accounts p e P c.settings executedOnce w) :
    wp (checkinFromFinish p e executedOnce (tufRet, finishes, c))
      (fun _ w' => Grows P w w') (fun _ w' => Grows P w w') w := by
  have hend : ∀ r : Context × Bool, Keeps (Grows P) (do
      aknanoMtlsDisconnect e
      pure (tufRet, r.1, r.2)) := fun r =>
    (still_mtlsDisconnect.mono fun _ _ h => h.grows).bind fun _ => .pure Grows.refl _
  rw [checkinFromFinish]
  cases finishes with
  | false =>
    rw [if_neg Bool.false_ne_true, wp_bind, wp_pure]
    exact hend (c, executedOnce) w
  | true =>
    rw [if_pos rfl, wp_bind]
    refine wp_mono (sendInstallationFinishedEvent_grows hP (h rfl)) ?_ fun _ _ hE => hE
    rintro ⟨s, executedOnce'⟩ w₁ h₁
    rw [wp_bind, wp_pure]
    refine wp_mono (hend (⟨s, c.selectedTarget⟩, executedOnce') w₁) ?_ ?_
    · exact fun _ _ h₂ => Extends.trans h₁ h₂
    · exact fun _ _ h₂ => Extends.trans h₁ h₂

/-! ### The loop and the boot -/

/-- **One iteration.** -/
theorem loopBody_grows {l : Loop} {w : World} (hP : OfCompletion P) (startupEpoch : BitVec 64)
    (h : ∀ c executedOnce w', iterationUntilFinish p e l w = .ok (some (c, executedOnce)) w' →
      Accounts p e P c.settings executedOnce w') :
    wp (loopBody p e startupEpoch l) (fun _ w' => Grows P w w') (fun _ w' => Grows P w w') w := by
  have hgrows : Grows P w { w with log := .iteration :: w.log } :=
    Extends.refl.cons (hP _ _ nofun)
  rw [loopBody_eq, wp_bind, wp_emit, wp_bind]
  refine wp_mono (wp_and (grows_checkinUntilFinish hP _ _) wp_self) ?_
    fun _ _ hE => Extends.trans hgrows hE.1
  rintro ⟨tufRet, finishes, c⟩ w₂ ⟨hgrows₂, hrun⟩
  replace hgrows₂ : Grows P w w₂ := Extends.trans hgrows hgrows₂
  -- if the handler is called, then as `iterationUntilFinish` says
  have hcall : finishes = true → Accounts p e P c.settings l.executedOnce w₂ := by
    rintro rfl
    apply h c _ w₂
    rw [iterationUntilFinish, bind_of_ok (x := emit .iteration) rfl, bind_of_ok hrun]
    rfl
  rw [wp_bind]
  refine wp_mono (checkinFromFinish_grows hP hcall) ?_ fun _ _ hE => Extends.trans hgrows₂ hE
  intro r w₃ h₃
  refine wp_mono (grows_loopFromCheckin hP startupEpoch _ r w₃) ?_ ?_
  · exact fun _ _ h₄ => Extends.trans hgrows₂ (Extends.trans h₃ h₄)
  · exact fun _ _ h₄ => Extends.trans hgrows₂ (Extends.trans h₃ h₄)

theorem grows_delay (ms : Nat) : Keeps (Grows P) (aknanoDelay e ms) :=
  (still_delay ms).mono fun _ _ h => h.grows

/-- **The loop**, if the calls of the handler in its iterations amount to what
they should. -/
theorem sampleLoop_grows {l : Loop} {w : World} {n : Nat} (hP : OfCompletion P)
    (startupEpoch : BitVec 64)
    (h : ∀ k < n, ∀ l' w', firstIterations p e startupEpoch k l w = .ok l' w' →
      ∀ c executedOnce w'', iterationUntilFinish p e l' w' = .ok (some (c, executedOnce)) w'' →
        Accounts p e P c.settings executedOnce w'') :
    wp (sampleLoop p e startupEpoch n l) (fun _ w' => Grows P w w') (fun _ w' => Grows P w w')
      w := by
  induction n generalizing l w with
  | zero =>
    rw [sampleLoop, wp_pure]
    exact Grows.refl w
  | succ n ih =>
    rw [sampleLoop, wp_bind]
    refine wp_mono (wp_and (loopBody_grows hP startupEpoch (h 0 (by omega) l w rfl)) wp_self) ?_
      fun _ _ hE => hE.1
    rintro l₁ w₁ ⟨hgrows, hrun⟩
    split
    · rw [wp_bind]
      refine wp_mono (wp_and (grows_delay _ w₁) wp_self) ?_ fun _ _ hE =>
        Extends.trans hgrows hE.1
      rintro _ w₂ ⟨hgrows₂, hdelay⟩
      replace hgrows₂ : Grows P w w₂ := Extends.trans hgrows hgrows₂
      -- an iteration of the rest is one of the whole
      have hrest := ih (l := l₁) (w := w₂) fun k hk l' w' hfirst => by
        apply h (k + 1) (by omega) l' w'
        rw [firstIterations, bind_of_ok hrun, bind_of_ok hdelay]
        exact hfirst
      exact wp_mono hrest (fun _ _ h₃ => Extends.trans hgrows₂ h₃)
        fun _ _ h₃ => Extends.trans hgrows₂ h₃
    · -- this was the last one
      obtain rfl : n = 0 := by omega
      rw [sampleLoop, wp_pure]
      exact hgrows

theorem grows_init (hP : OfCompletion P) : Keeps (Grows P) (aknanoInit p e) := by
  have hstill : ∀ {α : Type} {x : M α}, Keeps Still x → Keeps (Grows P) x := fun hx =>
    hx.mono fun _ _ h => h.grows
  have hpermanent : Keeps Still (aknanoIsCurrentImagePermanent e) := fun w =>
    wp_mono (isCurrentImagePermanent_spec w) (fun _ _ h => h.1) fun _ _ h => h
  unfold aknanoInit
  exact (hstill still_getImagePosition).bind fun _ => (hstill still_getCurrentVersion).bind fun _ =>
    (grows_onFlash _).bind fun _ => (grows_delay _).bind fun _ =>
      (grows_emit hP (by nofun)).bind fun _ => (grows_delay _).bind fun _ =>
        (grows_delay _).bind fun _ => (hstill hpermanent).bind fun _ => .pure Grows.refl _

/-- **A boot.** -/
theorem bootOnce_grows {n : Nat} {w : World} (hP : OfCompletion P)
    (h : ∀ k < n, ∀ c executedOnce w', untilFinish p e k w = .ok (some (c, executedOnce)) w' →
      Accounts p e P c.settings executedOnce w') :
    wp (bootOnce p e n) (fun _ w' => Grows P w w') (fun _ w' => Grows P w w') w := by
  have hpower : Keeps (Grows P) powerOn := fun w =>
    wp_modify.mpr (Extends.refl.cons (hP _ _ nofun))
  have hboot : Keeps (Grows P) (bootUntil p e 0) := by
    unfold bootUntil firstIterations
    exact hpower.bind fun _ => (still_currentEpoch.mono fun _ _ h => h.grows).bind fun _ =>
      (grows_init hP).bind fun _ => Keeps.bind (.pure Grows.refl _) fun _ => .pure Grows.refl _
  rw [bootOnce_eq, wp_bind]
  refine wp_mono (wp_and (hboot w) wp_self) ?_ fun _ _ hE => hE.1
  rintro ⟨startupEpoch, l⟩ w₁ ⟨hgrows, hrun⟩
  have hloop := sampleLoop_grows (l := l) (w := w₁) (n := n) hP startupEpoch
    fun k hk l' w' hfirst c executedOnce w'' hcall => by
      apply h k hk c executedOnce w''
      rw [untilFinish, bind_of_ok (bootUntil_of_first hrun hfirst)]
      exact hcall
  exact wp_mono hloop (fun _ _ h₂ => Extends.trans hgrows h₂) fun _ _ h₂ => Extends.trans hgrows h₂

/-- **A life.** -/
theorem lifetime_grows {boots : List Nat} {w : World} (hP : OfCompletion P)
    (h : ∀ boots₀ n rest, boots = boots₀ ++ n :: rest → ∀ k < n, ∀ c executedOnce w',
      FinishCalled p e boots₀ w k c executedOnce w' → Accounts p e P c.settings executedOnce w') :
    Grows P w (lifetime p e boots w) := by
  induction boots generalizing w with
  | nil => exact Grows.refl w
  | cons n boots ih =>
    have hboot : Grows P w (final (bootOnce p e n) w) :=
      (bootOnce_grows hP (h [] n boots rfl)).final
    refine Extends.trans hboot (ih fun boots₀ n' rest hboots k hk c executedOnce w' hcall => ?_)
    exact h (n :: boots₀) n' rest (congrArg (n :: ·) hboots) k hk c executedOnce w' hcall

/-! ### Growth alone -/

/-- The record has grown. -/
abbrev Grew : World → World → Prop := Grows fun _ _ => True

theorem ofCompletion_true : OfCompletion fun _ _ => True := fun _ _ _ => trivial

/-- Whatever a call of the handler amounts to. -/
theorem accounts_true (s : Settings) (executedOnce : Bool) (w : World) :
    Accounts p e (fun _ _ => True) s executedOnce w := fun _ _ _ _ _ _ _ _ => trivial

theorem grew_lifetime (boots : List Nat) (w : World) : Grew w (lifetime p e boots w) :=
  lifetime_grows ofCompletion_true fun _ _ _ _ _ _ c executedOnce w' _ =>
    accounts_true c.settings executedOnce w'

/-- The rest of the boot, after a call of the completion handler. -/
theorem untilFinish_grew {k n : Nat} {c : Context} {executedOnce : Bool} {w w' : World}
    (hcall : untilFinish p e k w = .ok (some (c, executedOnce)) w') :
    Grew w' (final (bootOnce p e (k + (n + 1))) w) := by
  obtain ⟨⟨startupEpoch, l⟩, w₁, hiteration, hcall⟩ := ok_of_bind hcall
  obtain ⟨_, w₂, hemit, hcheckin⟩ := ok_of_bind hcall
  obtain ⟨r, w₃, hfinish, hpoint⟩ := ok_of_bind hcheckin
  have hw₃ : w₃ = w' := by
    obtain ⟨tufRet, finishes, c'⟩ := r
    cases finishes <;> cases hpoint
    rfl
  have hcheckinFrom : Keeps Grew (checkinFromFinish p e l.executedOnce r) := fun w =>
    checkinFromFinish_grows ofCompletion_true fun _ => accounts_true _ _ _
  have hloop : ∀ l, Keeps Grew (sampleLoop p e startupEpoch n l) := fun l w =>
    sampleLoop_grows ofCompletion_true startupEpoch fun _ _ _ _ _ _ _ _ _ => accounts_true _ _ _
  have hrest : ∀ l, Keeps Grew (do
      if n > 0 then
        aknanoDelay e (aknanoLimitSleepTimeRange l.settings.pollingInterval * 1000)
      sampleLoop p e startupEpoch n l) := by
    intro l
    split
    · exact (grows_delay _).bind fun _ => hloop l
    · exact hloop l
  rw [bootOnce_add, final_bind hiteration, sampleLoop, loopBody_eq, bind_assoc, final_bind hemit,
    bind_assoc, final_bind hfinish, hw₃]
  exact ((hcheckinFrom.bind (grows_loopFromCheckin ofCompletion_true _ _)).bind hrest).final w'

end AktualizrNano
