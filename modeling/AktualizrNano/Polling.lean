/-
AktualizrNano/Polling.lean

A device that has nothing to install.

Up to the point where a refresh has succeeded, a check-in only polls: it asks
the gateway for files and tells it about the device, and of what a reset finds
it changes nothing but the files of the roles.  `Polls` says so of two states,
and `Env.Works.checkin_rule` reduces a check-in to the part behind that point.

A target is installed if its version is newer than the running one, and not the
one that the settings name as applied (`isUpdateRequired`; no such version is
tried again, `aknanoMaxRolledBackVersionRetries`).  Where the servers offer
nothing else (`Insists`), an iteration is a check-in and no more
(`loopBody_rule`).
-/
import AktualizrNano.Conversation
import AktualizrNano.UpdateProgress

namespace AktualizrNano

open CLib NorFlash Outcome Trace

variable {p : Platform} {e : Env}

/-! ### Polls -/

/-- The step is no installation. -/
def NotInstalling (ev : Event) (_ : List Event) : Prop :=
  ∀ target running, ev ≠ .install target running

/-- A request to the gateway that posts no event. -/
def IsPoll (p : Platform) (x : Exchange) : Prop :=
  ∃ method path body s, method ≠ ascii "POST" ∧ Asks p method path body s x

/-- The device has done nothing but poll. -/
structure Polls (p : Platform) (w w' : World) : Prop where
  boot : w'.boot = w.boot
  sector : SameSector w.flash.mem w'.flash.mem
  frame : ∀ x, ¬ InState x → w'.flash.mem x = w.flash.mem x
  grows : Grows NotInstalling w w'
  sends : Sends (IsPoll p) w w'

namespace Polls

theorem refl (w : World) : Polls p w w :=
  ⟨rfl, fun _ _ _ => rfl, fun _ _ => rfl, Grows.refl w, Sends.refl w⟩

theorem trans {w w' w'' : World} (h : Polls p w w') (h' : Polls p w' w'') : Polls p w w'' where
  boot := h'.boot.trans h.boot
  sector x hlo hhi := (h'.sector x hlo hhi).trans (h.sector x hlo hhi)
  frame x hx := (h'.frame x hx).trans (h.frame x hx)
  grows := Trans.trans h.grows h'.grows
  sends := h.sends.trans h'.sends

instance : Trans (Polls p) (Polls p) (Polls p) where
  trans h h' := h.trans h'

/-- The flash was read. -/
theorem reads {w : World} {f : Flash} (hmem : f.mem = w.flash.mem) :
    Polls p w { w with flash := f } :=
  ⟨rfl, fun x _ _ => congrFun hmem x, fun x _ => congrFun hmem x, Grows.refl w, Sends.of_eq rfl⟩

theorem emit {ev : Event} (hev : ∀ es, NotInstalling ev es) (w : World) :
    Polls p w { w with log := ev :: w.log } :=
  ⟨rfl, fun _ _ _ => rfl, fun _ _ => rfl, (Grows.refl w).cons (hev w.log), Sends.of_eq rfl⟩

/-- Messages of this kind were exchanged. -/
theorem of_talks {w w' : World} (htalks : Talks w w') (hsends : Sends (IsPoll p) w w') :
    Polls p w w' := by
  refine ⟨?_, ?_, htalks.stores.frame, .of_eq ?_, hsends⟩
  · exact htalks.stores.boot
  · rw [htalks]
    exact fun _ _ _ => rfl
  · rw [htalks]

end Polls

theorem Still.polls {w w' : World} (h : Still w w') : Polls p w w' := .of_talks h.talks h.sends

theorem sends_poll {method : List Byte} (hmethod : method ≠ ascii "POST") (path body : List Byte)
    (s : Settings) : Keeps (Sends (IsPoll p)) (aknanoSendHttpRequest p e method path body s) :=
  sends_mtlsSendHttpRequest fun _ => ⟨method, path, body, s, hmethod, rfl⟩

theorem polls_sendHttpRequest {method : List Byte} (hmethod : method ≠ ascii "POST")
    (path body : List Byte) (s : Settings) :
    Keeps (Polls p) (aknanoSendHttpRequest p e method path body s) := fun w =>
  wp_mono (wp_and (talks_sendHttpRequest method path body s w) (sends_poll hmethod path body s w))
    (fun _ _ h => .of_talks h.1 h.2) fun _ _ h => .of_talks h.1 h.2

theorem polls_fetchConfig (s : Settings) (w : World) :
    wp (fetchConfig p e s) (fun s' w' => Reconfigured s s' ∧ Polls p w w')
      (fun _ => Polls p w) w := by
  unfold fetchConfig
  refine (polls_sendHttpRequest (by decide) _ _ _).wp_bind (fun reply w₁ h₁ => ?_) fun _ _ h₁ => h₁
  split
  · split
    · next hparse => exact (wp_pure _).mpr ⟨parseConfig_reconfigures hparse, h₁⟩
    · exact (wp_throw _).mpr h₁
  · exact (wp_pure _).mpr ⟨Reconfigured.refl _, h₁⟩

theorem sends_tufRefresh (s : Settings) : Keeps (Sends (IsPoll p)) (tufRefresh p e s) := by
  have hcall : ∀ call, Keeps (Sends (IsPoll p)) (tufCallback p e s call) := by
    intro call
    cases call with
    | fetch fileBaseName targetBufferLen =>
      exact ((sends_poll (by decide) _ _ _).bind fun _ => .pure Sends.refl _).bind fun _ =>
        .pure Sends.refl _
    | read role targetBuffer hfits => exact (sends_onFlash _).bind fun _ => .pure Sends.refl _
    | write role data hfits => exact (sends_onFlash _).bind fun _ => .pure Sends.refl _
  have hcalls : ∀ calls, Keeps (Sends (IsPoll p)) (tufCallbacks p e s calls) := by
    intro calls
    induction calls with
    | nil => exact .pure Sends.refl _
    | cons call calls ih => exact (hcall call).bind fun _ => ih
  exact (still_tick.mono fun _ _ h => h.sends).bind fun t => (hcalls _).bind fun _ =>
    .pure Sends.refl _

theorem polls_tufRefresh (s : Settings) (w : World) :
    wp (tufRefresh p e s)
      (fun r w' => (r.1 = tufSuccess → Refreshed e (r.2.takeWhile (· ≠ 0))) ∧ Polls p w w')
      (fun _ => Polls p w) w := by
  have hpolls : ∀ {w'}, Quiet w w' → Stores w w' → Sends (IsPoll p) w w' → Polls p w w' :=
    fun hquiet hstores hsends =>
      ⟨hquiet.boot, hquiet.sector, hstores.frame, hquiet.grows, hsends⟩
  refine wp_mono (wp_and (wp_and (tufRefresh_spec s w) (stores_tufRefresh s w))
    (sends_tufRefresh s w)) ?_ ?_
  · rintro r w' ⟨⟨⟨hquiet, hfresh⟩, hstores⟩, hsends⟩
    exact ⟨hfresh, hpolls hquiet hstores hsends⟩
  · rintro _ w' ⟨⟨hquiet, hstores⟩, hsends⟩
    exact hpolls hquiet hstores hsends

theorem polls_init (w : World) :
    wp (aknanoInit p e)
      (fun s w' => s.hwid = some (aknanoGetBoardName p) ∧ s.rollbackRetryCount.slt 0 = false ∧
        Polls p w w')
      (fun _ => Polls p w) w := by
  have hpermanent : Keeps Still (aknanoIsCurrentImagePermanent e) := fun w =>
    wp_mono (isCurrentImagePermanent_spec w) (fun _ _ h => h.1) fun _ _ h => h
  unfold aknanoInit
  refine still_getImagePosition.wp_bind (fun imagePosition w₁ h₁ => ?_) fun _ _ h₁ => h₁.polls
  refine still_getCurrentVersion.wp_bind (fun buildNum w₂ h₂ => ?_) fun _ _ h₂ =>
    h₁.polls.trans h₂.polls
  have h₀₂ : Polls p w w₂ := h₁.polls.trans h₂.polls
  rw [wp_bind, onFlash, wp_zoom]
  refine wp_mono (aknanoInitSettings_spec imagePosition buildNum w₂.flash) ?_ fun _ f hE =>
    h₀₂.trans (.reads hE.1)
  rintro ⟨readsOk, s⟩ f ⟨hmem, ⟨fields, hs, -⟩, -⟩
  have h₀₃ : Polls p w { w₂ with flash := f } := h₀₂.trans (.reads hmem)
  dsimp only at hs ⊢
  refine (still_delay 100).wp_bind (fun _ w₄ h₄ => ?_) fun _ _ h₄ => h₀₃.trans h₄.polls
  rw [wp_bind, wp_emit]
  have hloaded : ∀ es, NotInstalling
      (.loaded readsOk s.runningVersion s.isRunningRolledBackImage) es := by
    rintro _ _ _ ⟨⟩
  have h₀₅ := (h₀₃.trans h₄.polls).trans (.emit hloaded w₄)
  refine (still_delay 100).wp_bind (fun _ w₆ h₆ => ?_) fun _ _ h₆ => h₀₅.trans h₆.polls
  refine (still_delay 100).wp_bind (fun _ w₇ h₇ => ?_) fun _ _ h₇ =>
    (h₀₅.trans h₆.polls).trans h₇.polls
  have h₀₇ := (h₀₅.trans h₆.polls).trans h₇.polls
  refine hpermanent.wp_bind (fun isImagePermanent w₈ h₈ => ?_) fun _ _ h₈ => h₀₇.trans h₈.polls
  rw [wp_pure]
  refine ⟨?_, ?_, h₀₇.trans h₈.polls⟩
  · rw [hs]
    rfl
  · rw [hs]
    exact checkedFields_retryCount (p := p) fields

/-! ### A check-in -/

/-- **The rule of a check-in.**  Unless a refresh succeeds, it polls. -/
theorem Env.Works.checkin_rule (h : e.Works) {Q : Context × Bool → World → Prop}
    {E : World → Prop} (hstill : ∀ r w w', Q r w → Still w w' → Q r w') (c : Context)
    (executedOnce : Bool) {w : World} (hE : ∀ w', Polls p w w' → E w')
    (hrefreshed : ∀ s userBuffer w', Reconfigured c.settings s →
      Refreshed e (userBuffer.takeWhile (· ≠ 0)) → Polls p w w' →
      wp (AktualizrNano.handleRefreshed p e { c with settings := s } executedOnce userBuffer) Q
        (fun _ => E) w') :
    wp (aknanoCheckin p e c executedOnce)
      (fun r w' => if r.1 = 0 then Q r.2 w'
        else Reconfigured c.settings r.2.1.settings ∧ r.2.2 = executedOnce ∧ Polls p w w')
      (fun _ => E) w := by
  have hput : ∀ path body s, Keeps (Polls p)
      (aknanoSendHttpRequest p e (ascii "PUT") path body s) :=
    polls_sendHttpRequest (by decide)
  unfold aknanoCheckin
  refine (still_mtlsConnect _).wp_bind (fun connected w₁ h₁ => ?_) fun _ _ h₁ => hE _ h₁.polls
  have h₁ : Polls p w w₁ := h₁.polls
  split
  · rw [wp_bind]
    refine wp_mono (polls_fetchConfig c.settings w₁) ?_ fun _ _ h₂ => hE _ (h₁.trans h₂)
    rintro s w₂ ⟨hs, h₂⟩
    have h₂ := h₁.trans h₂
    refine (hput _ _ _).wp_bind (fun _ w₃ h₃ => ?_) fun _ _ h₃ => hE _ (h₂.trans h₃)
    have h₃ := h₂.trans h₃
    refine (hput _ _ _).wp_bind (fun _ w₄ h₄ => ?_) fun _ _ h₄ => hE _ (h₃.trans h₄)
    have h₄ := h₃.trans h₄
    refine (hput _ _ _).wp_bind (fun _ w₅ h₅ => ?_) fun _ _ h₅ => hE _ (h₄.trans h₅)
    have h₅ := h₄.trans h₅
    refine still_currentEpoch.wp_bind (fun _ w₆ h₆ => ?_) fun _ _ h₆ => hE _ (h₅.trans h₆.polls)
    have h₆ := h₅.trans h₆.polls
    rw [wp_bind]
    refine wp_mono (polls_tufRefresh s w₆) ?_ fun _ _ h₇ => hE _ (h₆.trans h₇)
    rintro ⟨tufRet, userBuffer⟩ w₇ ⟨hfresh, h₇⟩
    have h₇ := h₆.trans h₇
    dsimp only at hfresh ⊢
    by_cases hok : tufRet = tufSuccess
    · rw [if_pos hok, wp_bind]
      refine wp_mono (hrefreshed s userBuffer w₇ hs (hfresh hok) h₇) ?_ fun _ _ hE => hE
      rintro ⟨c', executed⟩ w₈ hQ
      refine h.returns_mtlsDisconnect.wp_bind (still_mtlsDisconnect w₈) fun _ w₉ h₉ => ?_
      rw [wp_pure]
      dsimp only
      rw [if_pos (show tufRet = 0 from hok)]
      exact hstill (c', executed) w₈ w₉ hQ h₉
    · rw [if_neg hok, wp_bind, wp_pure]
      refine still_mtlsDisconnect.wp_bind (fun _ w₈ h₈ => ?_) fun _ _ h₈ => hE _ (h₇.trans h₈.polls)
      rw [wp_pure]
      dsimp only
      rw [if_neg (show ¬ tufRet = 0 from hok)]
      exact ⟨hs, rfl, h₇.trans h₈.polls⟩
  · refine still_mtlsDisconnect.wp_bind (fun _ w₂ h₂ => ?_) fun _ _ h₂ => hE _ (h₁.trans h₂.polls)
    exact (wp_pure _).mpr ⟨Reconfigured.refl _, rfl, h₁.trans h₂.polls⟩

/-! ### What is offered -/

/-- A target that is not newer than `old`, or the version `new`. -/
def Declined (old new : Version) (target : AknanoTarget) : Prop :=
  target.version = new ∨ ¬ old < target.version

/-- Nothing that a refresh offers is newer than `old`, but `new`. -/
structure Insists (p : Platform) (e : Env) (old new : Version) : Prop where
  works : e.Works
  offered : ∀ metadata target, Refreshed e metadata → Offered p e metadata target →
    Declined old new target

/-- What a check-in selects. -/
theorem Insists.declined {old new : Version} (h : Insists p e old new) {metadata : List Byte}
    (hfresh : Refreshed e metadata) (tag : List Byte) :
    Declined old new (parseTargetsMetadata p.overflow (e.json metadata)
      (some (aknanoGetBoardName p)) tag .zero).2 := by
  generalize htarget : (parseTargetsMetadata p.overflow (e.json metadata)
    (some (aknanoGetBoardName p)) tag .zero).2 = target
  by_cases hversion : target.version = 0
  · rw [Declined, hversion]
    exact Or.inr BitVec.not_lt_zero
  · exact h.offered metadata target hfresh ⟨tag, htarget.symm, hversion⟩

/-- **What was tried is not required again**, and nothing else is newer. -/
theorem isUpdateRequired_declined {c : Context}
    (hretry : c.settings.rollbackRetryCount.slt 0 = false)
    (hdeclined : Declined c.settings.runningVersion c.settings.lastAppliedVersion c.selectedTarget)
    (w : World) :
    wp (isUpdateRequired e c) (fun r w' => r = false ∧ Still w w') (fun _ w' => Still w w') w := by
  have hnever : aknanoShouldRetryRollback e c = pure false := by
    rw [aknanoShouldRetryRollback, if_pos]
    rw [aknanoMaxRolledBackVersionRetries, hretry]
    exact Bool.false_ne_true
  have hresult : wp (isUpdateRequired e c) (fun r _ => r = false) (fun _ _ => True) w := by
    unfold isUpdateRequired
    split
    · dsimp only
      by_cases hrollback : aknanoIsRollback c = true
      · rw [if_pos hrollback, hnever, pure_bind, if_pos ⟨hrollback, Bool.false_ne_true⟩, wp_pure]
      · rw [if_neg hrollback, pure_bind, if_neg fun h => hrollback h.1, wp_pure]
        have hother : c.selectedTarget.version ≠ c.settings.lastAppliedVersion := fun heq =>
          hrollback (decide_eq_true heq)
        exact decide_eq_false (hdeclined.resolve_left hother)
    · exact (wp_pure _).mpr rfl
  exact wp_mono (wp_and hresult (still_isUpdateRequired c w)) (fun _ _ hQ => hQ) fun _ _ hE => hE.2

/-- **The rule of an iteration** that installs nothing. -/
theorem loopBody_rule {J : Loop → World → Prop} {E : World → Prop}
    (hstill : ∀ l w w', J l w → Still w w' → J l w') (hE : ∀ l w, J l w → E w)
    (startupEpoch : BitVec 64) {l : Loop} {w : World}
    (hcheckin : wp (aknanoCheckin p e (aknanoInitContext l.settings) l.executedOnce)
      (fun r w' => (r.1 = 0 → r.2.1.settings.rollbackRetryCount.slt 0 = false ∧
          Declined r.2.1.settings.runningVersion r.2.1.settings.lastAppliedVersion
            r.2.1.selectedTarget) ∧
        ∀ anyCheckinOk, J ⟨r.2.1.settings, anyCheckinOk, r.2.2⟩ w') (fun _ => E)
      { w with log := .iteration :: w.log }) :
    wp (AktualizrNano.loopBody p e startupEpoch l) J (fun _ => E) w := by
  unfold AktualizrNano.loopBody
  rw [wp_bind, wp_emit, wp_bind]
  refine wp_mono hcheckin ?_ fun _ _ h => h
  rintro ⟨checkinResult, c, executed⟩ w₁ ⟨hdeclined, hJ⟩
  dsimp only at hdeclined hJ ⊢
  have hfinish : ∀ (anyCheckinOk : Bool) w₂, Still w₁ w₂ →
      wp (rebootIfOffline e startupEpoch anyCheckinOk c.settings >>= fun _ =>
        pure ⟨c.settings, anyCheckinOk, executed⟩ : M Loop) J (fun _ => E) w₂ := by
    intro anyCheckinOk w₂ h₂
    have h₂ := hstill _ w₁ w₂ (hJ anyCheckinOk) h₂
    refine (still_rebootIfOffline _ _ _).wp_bind (fun _ w₃ h₃ => ?_) fun _ w₃ h₃ =>
      hE _ w₃ (hstill _ w₂ w₃ h₂ h₃)
    exact (wp_pure _).mpr (hstill _ w₂ w₃ h₂ h₃)
  by_cases hok : checkinResult = 0
  · obtain ⟨hretry, hdeclined⟩ := hdeclined hok
    rw [if_pos hok, handleCheckin, bind_assoc, wp_bind]
    refine wp_mono (isUpdateRequired_declined hretry hdeclined w₁) ?_ fun _ w₂ h₂ =>
      hE _ w₂ (hstill _ w₁ w₂ (hJ true) h₂)
    rintro updateRequired w₂ ⟨rfl, h₂⟩
    rw [if_neg Bool.false_ne_true, pure_bind, pure_bind]
    exact hfinish true w₂ h₂
  · rw [if_neg hok, pure_bind]
    exact hfinish l.anyCheckinOk w₁ (Still.refl w₁)

end AktualizrNano
