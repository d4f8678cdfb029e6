/-
AktualizrNano/Recovery.lean

A bad image is given up for good.

The bootloader takes a device back to its old image, which is offered the new
one again: it is newer, but the settings still name it as applied.  Such a boot
reports the rollback and saves its settings, but leaves the bootloader and both
slots as they are (`Insists.bootOnce`).  `Spared` is the invariant, and `Wary`
what it says of the settings in RAM; with `calm`, nothing is left to report, and
then the device does nothing but poll.  The boot on trial is spared as long as
no check-in succeeds (`Env.Works.bootOnce_spared`): until then nothing is
confirmed.

Main results: `lifetime_recovers`, from the reset that starts the image on
trial, and `lifetime_idle`, for a device whose running image is permanent and
confirmed.  As in `lifetime_updates`, power and the flash are assumed to work
(`Env.Works`); the network is not.
-/
import AktualizrNano.Polling
import AktualizrNano.Watchdog

namespace AktualizrNano

open CLib NorFlash Outcome Trace

variable {p : Platform} {e : Env}

/-! ### Without an installation -/

/-- Since `w₀` nothing was installed: the bootloader is in state `b`, the stored
versions are the same, and so is the flash beside settings and roles. -/
structure Spared (p : Platform) (calm : Prop) (b : Boot) (w₀ w : World) : Prop where
  boot : w.boot = b
  applied : (storedOf p w.flash.mem).applied = (storedOf p w₀.flash.mem).applied
  confirmed : (storedOf p w.flash.mem).confirmed = (storedOf p w₀.flash.mem).confirmed
  grows : Grows NotInstalling w₀ w
  frame : ∀ x, ¬ InState x → w.flash.mem x = w₀.flash.mem x
  idle : calm → SameSector w₀.flash.mem w.flash.mem ∧ Sends (IsPoll p) w₀ w

namespace Spared

variable {calm : Prop} {b : Boot} {w₀ w w' : World}

theorem polls (h : Spared p calm b w₀ w) (hpolls : Polls p w w') : Spared p calm b w₀ w' := by
  have hstored := storedOf_congr (p := p) hpolls.sector
  refine ⟨hpolls.boot.trans h.boot, ?_, ?_, Trans.trans h.grows hpolls.grows,
    fun x hx => (hpolls.frame x hx).trans (h.frame x hx), fun hcalm => ⟨fun x hlo hhi =>
      (hpolls.sector x hlo hhi).trans ((h.idle hcalm).1 x hlo hhi),
      (h.idle hcalm).2.trans hpolls.sends⟩⟩
  · rw [hstored, h.applied]
  · rw [hstored, h.confirmed]

theorem still (h : Spared p calm b w₀ w) (hstill : Still w w') : Spared p calm b w₀ w' :=
  h.polls hstill.polls

/-- An event was sent. -/
theorem talks (h : Spared p calm b w₀ w) (hbusy : ¬ calm) (htalks : Talks w w') :
    Spared p calm b w₀ w' := by
  rw [htalks]
  exact ⟨h.boot, h.applied, h.confirmed, h.grows, h.frame, fun hcalm => absurd hcalm hbusy⟩

theorem emit (h : Spared p calm b w₀ w) {ev : Event} (hev : ∀ es, NotInstalling ev es) :
    Spared p calm b w₀ { w with log := ev :: w.log } := h.polls (.emit hev w)

/-- The bootloader was asked for something that makes no difference. -/
theorem update (h : Spared p calm b w₀ w) {update : Boot → Boot} (hb : update b = b) {status : Int}
    (hw' : w' = { w with
      tick := w'.tick, boot := if status = 0 then update w.boot else w.boot }) :
    Spared p calm b w₀ w' := by
  rw [hw']
  refine ⟨?_, h.applied, h.confirmed, h.grows, h.frame, h.idle⟩
  dsimp only
  rw [h.boot, hb, ite_self]

end Spared

/-- The settings of a device on the version `old` that has tried another. -/
structure Wary (p : Platform) (calm : Prop) (old : Version) (w₀ : World) (s : Settings)
    (executedOnce : Bool) : Prop where
  hwid : s.hwid = some (aknanoGetBoardName p)
  running : s.runningVersion = old
  applied : s.lastAppliedVersion = (storedOf p w₀.flash.mem).applied
  confirmed : s.lastConfirmedVersion = old
  retryCount : s.rollbackRetryCount.slt 0 = false
  calm : calm → executedOnce = false → s.isRunningRolledBackImage = false

/-- Behind the completion handler. -/
theorem Wary.executed {calm : Prop} {old : Version} {w₀ : World} {s : Settings}
    {executedOnce : Bool} (h : Wary p calm old w₀ s executedOnce)
    (id : CharArray aknanoMaxUpdateCorrelationIdLength) :
    Wary p calm old w₀ { s with ongoingUpdateCorrelationId := id } true :=
  ⟨h.hwid, h.running, h.applied, h.confirmed, h.retryCount, fun _ hno => Bool.noConfusion hno⟩

/-- A save of such settings. -/
theorem Spared.saved {calm : Prop} {old : Version} {b : Boot} {w₀ w w' : World} {s : Settings}
    {executedOnce : Bool} (h : Spared p calm b w₀ w) (hbusy : ¬ calm)
    (hs : Wary p calm old w₀ s executedOnce)
    (hold : (storedOf p w₀.flash.mem).confirmed = old) (hboot : w'.boot = w.boot)
    (hstored : storedOf p w'.flash.mem = (ramOf s true).stored)
    (hframe : SameOutside stateLo stateHi w.flash.mem w'.flash.mem)
    (hgrows : Grows NotInstalling w w') : Spared p calm b w₀ w' := by
  have hchecked : ∀ m, checkedVersion (storedOf p m).applied = (storedOf p m).applied ∧
      checkedVersion (storedOf p m).confirmed = (storedOf p m).confirmed := fun m =>
    ⟨checkedVersion_eq_iff.mpr (checkedVersion_le _),
      checkedVersion_eq_iff.mpr (checkedVersion_le _)⟩
  refine ⟨hboot.trans h.boot, ?_, ?_, Trans.trans h.grows hgrows, fun x hx => ?_,
    fun hcalm => absurd hcalm hbusy⟩
  · calc (storedOf p w'.flash.mem).applied
        = checkedVersion s.lastAppliedVersion := congrArg Stored.applied hstored
      _ = (storedOf p w₀.flash.mem).applied := by rw [hs.applied, (hchecked _).1]
  · calc (storedOf p w'.flash.mem).confirmed
        = checkedVersion s.lastConfirmedVersion := congrArg Stored.confirmed hstored
      _ = (storedOf p w₀.flash.mem).confirmed := by rw [hs.confirmed, ← hold, (hchecked _).2]
  · refine (hframe x ?_).trans (h.frame x hx)
    by_contra hin
    exact hx (Or.inl (by omega))

theorem Reconfigured.wary {calm : Prop} {old : Version} {w₀ : World} {s s' : Settings}
    {executedOnce : Bool} (h : Reconfigured s s') (hs : Wary p calm old w₀ s executedOnce) :
    Wary p calm old w₀ s' executedOnce := by
  obtain ⟨tag, n, rfl⟩ := h
  exact ⟨hs.hwid, hs.running, hs.applied, hs.confirmed, hs.retryCount, hs.calm⟩

/-! ### A check-in -/

section Checkin

variable {calm : Prop} {old new : Version} {b : Boot} {w₀ : World}

theorem endOfUpdate_of_rolledBack {s : Settings} (h : s.isRunningRolledBackImage = true) :
    endOfUpdate s = { s with ongoingUpdateCorrelationId := .zero _ } := by
  unfold endOfUpdate
  rw [if_neg (not_not_intro h)]

/-- **The completion handler** forgets the correlation id at most. -/
theorem Env.Works.finish_wary (h : e.Works) {s : Settings} {executedOnce : Bool}
    (hs : Wary p calm old w₀ s executedOnce) (hold : (storedOf p w₀.flash.mem).confirmed = old)
    {w : World} (hw : Spared p calm b w₀ w) :
    wp (aknanoSendInstallationFinishedEvent p e s executedOnce)
      (fun r w' => Wary p calm old w₀ r.1 r.2 ∧ Spared p calm b w₀ w') (fun _ _ => False) w := by
  unfold aknanoSendInstallationFinishedEvent
  cases executedOnce with
  | true => exact (wp_pure _).mpr ⟨hs, hw⟩
  | false =>
    rw [if_neg Bool.false_ne_true]
    dsimp only
    by_cases hreported : ¬ s.isRunningRolledBackImage = true ∧
        s.lastConfirmedVersion = s.runningVersion
    · rw [if_pos hreported, wp_bind, wp_emit, wp_pure]
      exact ⟨hs.executed _, hw.emit (by rintro _ _ _ ⟨⟩)⟩
    · rw [if_neg hreported]
      have hrolledBack : s.isRunningRolledBackImage = true := by
        by_contra hgood
        exact hreported ⟨hgood, hs.confirmed.trans hs.running.symm⟩
      have hbusy : ¬ calm := fun hcalm =>
        absurd (hs.calm hcalm rfl) (by rw [hrolledBack]; decide)
      refine (h.returns_sendEvent s .installationCompleted 0 _).wp_bind
        (wp_and (talks_sendEvent s _ _ _ w) (aknanoSendEvent_spec s _ _ _ w)) ?_
      rintro ⟨sent, s₁⟩ w₁ ⟨htalks, -, id, hs₁, -⟩
      dsimp only at hs₁ ⊢
      have hrolledBack₁ : s₁.isRunningRolledBackImage = true := by rw [hs₁]; exact hrolledBack
      have hs₂ : Wary p calm old w₀ (endOfUpdate s₁) true := by
        rw [endOfUpdate_of_rolledBack hrolledBack₁, hs₁]
        exact hs.executed _
      have hplain := endOfUpdate_plain s₁
      generalize endOfUpdate s₁ = s₂ at hs₂ hplain ⊢
      rw [wp_bind, during, wp_onError]
      refine wp_mono (wp_and (h.saveSettings (p := p) hplain w₁)
        (grows_onFlash (P := NotInstalling) _ w₁)) ?_ fun _ _ hE => hE.1
      rintro ret w₂ ⟨⟨hboot, hstored, hframe⟩, hgrows⟩
      rw [wp_bind, wp_emit, wp_pure]
      exact ⟨hs₂, ((hw.talks hbusy htalks).saved hbusy hs₂ hold hboot hstored hframe
        hgrows).emit (by rintro _ _ _ ⟨⟩)⟩

/-- Confirming an image that is permanent makes no difference. -/
theorem confirm_spared (hb : b.fallback = none) (isImagePermanent : Bool) {w : World}
    (hw : Spared p calm b w₀ w) :
    wp (aknanoSetImageConfirmed e isImagePermanent) (fun _ w' => Spared p calm b w₀ w')
      (fun _ w' => Spared p calm b w₀ w') w := by
  have hconfirm : b.confirm = b := by rw [Boot.confirm, ← hb]
  unfold aknanoSetImageConfirmed
  split
  · exact (wp_pure true).mpr hw
  · rw [wp_bind, wp_get, wp_bind]
    refine wp_mono (blUpdateImageState_spec Boot.confirm w) ?_ fun _ _ h => hw.still h
    intro status w₁ h₁
    rw [wp_bind, wp_get, wp_bind, wp_emit, wp_pure]
    exact (hw.update hconfirm h₁).emit nofun

theorem Insists.handleRefreshed (h : Insists p e old new) {c : Context} {executedOnce : Bool}
    (hs : Wary p calm old w₀ c.settings executedOnce)
    (hold : (storedOf p w₀.flash.mem).confirmed = old) (hb : b.fallback = none)
    (hzero : c.selectedTarget = .zero) {userBuffer : List Byte}
    (hfresh : Refreshed e (userBuffer.takeWhile (· ≠ 0))) {w : World}
    (hw : Spared p calm b w₀ w) :
    wp (AktualizrNano.handleRefreshed p e c executedOnce userBuffer)
      (fun r w' => Wary p calm old w₀ r.1.settings r.2 ∧ Declined old new r.1.selectedTarget ∧
        Spared p calm b w₀ w')
      (fun _ w' => Spared p calm b w₀ w') w := by
  unfold AktualizrNano.handleRefreshed
  rw [wp_bind, wp_emit]
  dsimp only
  have hw₁ : Spared p calm b w₀
      { w with log := .refreshed (userBuffer.takeWhile (· ≠ 0)) :: w.log } := hw.emit nofun
  have hdeclined := h.declined hfresh c.settings.tag.str
  rw [← hs.hwid, ← hzero] at hdeclined
  generalize parseTargetsMetadata p.overflow _ _ _ _ = parsed at hdeclined ⊢
  obtain ⟨ret, selectedTarget⟩ := parsed
  split
  · rw [wp_bind]
    refine wp_mono (confirm_spared hb _ hw₁) ?_ fun _ _ hE => hE
    intro isImagePermanent w₂ hw₂
    rw [wp_bind]
    have hs₂ : Wary p calm old w₀ { c.settings with isImagePermanent := isImagePermanent }
        executedOnce :=
      ⟨hs.hwid, hs.running, hs.applied, hs.confirmed, hs.retryCount, hs.calm⟩
    refine wp_mono (h.works.finish_wary hs₂ hold hw₂) ?_ fun _ _ hE => hE.elim
    rintro ⟨s, executed⟩ w₃ ⟨hs₃, hw₃⟩
    exact (wp_pure _).mpr ⟨hs₃, hdeclined, hw₃⟩
  · exact (wp_pure _).mpr ⟨hs, hdeclined, hw₁⟩

/-- **An iteration** on the old image. -/
theorem Insists.loopBody (h : Insists p e old new)
    (hnew : (storedOf p w₀.flash.mem).applied = new)
    (hold : (storedOf p w₀.flash.mem).confirmed = old) (hb : b.fallback = none)
    (startupEpoch : BitVec 64) {l : Loop} {w : World}
    (hl : Wary p calm old w₀ l.settings l.executedOnce ∧ Spared p calm b w₀ w) :
    wp (AktualizrNano.loopBody p e startupEpoch l)
      (fun l' w' => Wary p calm old w₀ l'.settings l'.executedOnce ∧ Spared p calm b w₀ w')
      (fun _ => Spared p calm b w₀) w := by
  obtain ⟨hs, hw⟩ := hl
  have hw : Spared p calm b w₀ { w with log := .iteration :: w.log } := hw.emit nofun
  refine loopBody_rule (fun _ _ _ hl hstill => ⟨hl.1, hl.2.still hstill⟩) (fun _ _ hl => hl.2)
    startupEpoch ?_
  refine wp_mono (h.works.checkin_rule
    (Q := fun r w' => Wary p calm old w₀ r.1.settings r.2 ∧ Declined old new r.1.selectedTarget ∧
      Spared p calm b w₀ w')
    (fun _ _ _ hQ hstill => ⟨hQ.1, hQ.2.1, hQ.2.2.still hstill⟩) _ l.executedOnce
    (fun _ hpolls => hw.polls hpolls) fun s' userBuffer w' hreconfigured hfresh hpolls =>
      h.handleRefreshed (hreconfigured.wary hs) hold hb rfl hfresh (hw.polls hpolls)) ?_
    fun _ _ hE => hE
  rintro ⟨checkinResult, c, executed⟩ w' hQ
  dsimp only at hQ ⊢
  split at hQ
  · obtain ⟨hs', hdeclined, hw'⟩ := hQ
    rw [hs'.running, hs'.applied, hnew]
    exact ⟨fun _ => ⟨hs'.retryCount, hdeclined⟩, fun _ => ⟨hs', hw'⟩⟩
  · next hfailed =>
    obtain ⟨hreconfigured, rfl, hpolls⟩ := hQ
    exact ⟨fun hok => absurd hok hfailed, fun _ => ⟨hreconfigured.wary hs, hw.polls hpolls⟩⟩

/-! ### The boots on the old image -/

/-- **The start of a boot** on the old image. -/
theorem Env.Works.init_wary (h : e.Works)
    (hold : (storedOf p w₀.flash.mem).confirmed = runningVersionOf b.running)
    (hcalm : calm →
      (storedOf p w₀.flash.mem).indicatesRollback (runningVersionOf b.running) = false)
    {w : World} (hw : Spared p calm b w₀ w) :
    wp (aknanoInit p e)
      (fun s w' => Wary p calm (runningVersionOf b.running) w₀ (aknanoSetApplicationSelfTestOk s)
        false ∧ Spared p calm b w₀ w')
      (fun _ => Spared p calm b w₀) w := by
  refine wp_mono (wp_and (h.init w) (polls_init w)) ?_ fun _ _ hE => hw.polls hE.2
  rintro s w' ⟨hstarted, hhwid, hcount, hpolls⟩
  have hram := hstarted.ram
  rw [hw.boot] at hram
  refine ⟨⟨hhwid, congrArg Ram.running hram, ?_, ?_, hcount, fun hyes _ => ?_⟩, hw.polls hpolls⟩
  · exact (congrArg Ram.applied hram).trans hw.applied
  · exact (congrArg Ram.confirmed hram).trans (hw.confirmed.trans hold)
  · rw [← hcalm hyes, ← storedOf_congr (hw.idle hyes).1]
    exact congrArg Ram.rolledBack hram

/-- **A boot** on the old image. -/
theorem Insists.bootOnce (h : Insists p e (runningVersionOf b.running) new)
    (hnew : (storedOf p w₀.flash.mem).applied = new)
    (hold : (storedOf p w₀.flash.mem).confirmed = runningVersionOf b.running)
    (hcalm : calm →
      (storedOf p w₀.flash.mem).indicatesRollback (runningVersionOf b.running) = false)
    (hb : b.fallback = none) (n : Nat) {w : World} (hw : Spared p calm b w₀ w.powered) :
    Spared p calm b w₀ (final (AktualizrNano.bootOnce p e n) w) :=
  bootOnce_rule (J := fun l w => Wary p calm (runningVersionOf b.running) w₀ l.settings
      l.executedOnce ∧ Spared p calm b w₀ w)
    (fun _ h₁ => hw.still h₁) (fun _ h₁ => h.works.init_wary hold hcalm (hw.still h₁))
    (fun startupEpoch _ _ hl => h.loopBody hnew hold hb startupEpoch hl)
    (fun _ _ _ hl hstill => ⟨hl.1, hl.2.still hstill⟩) (fun _ _ hl => hl.2) n

/-! ### The boot on trial -/

theorem Env.Works.returns_handleRefreshed (h : e.Works) (c : Context) (executedOnce : Bool)
    (userBuffer : List Byte) :
    Finishes (AktualizrNano.handleRefreshed p e c executedOnce userBuffer) := by
  have hemit : ∀ ev, Finishes (emit ev) := fun ev => .modify _
  have hconfirm : ∀ isImagePermanent, Finishes (aknanoSetImageConfirmed e isImagePermanent) := by
    intro isImagePermanent
    unfold aknanoSetImageConfirmed
    split
    · exact .pure true
    · exact Finishes.get.bind fun _ => (h.returns_blUpdateImageState _).bind fun _ =>
        Finishes.get.bind fun _ => (hemit _).bind fun _ => .pure _
  have hfinish : ∀ s, Finishes (aknanoSendInstallationFinishedEvent p e s executedOnce) :=
    fun s w => wp_mono (h.sendInstallationFinishedEvent s executedOnce w) (fun _ _ _ => trivial)
      fun _ _ hE => hE
  unfold AktualizrNano.handleRefreshed
  refine (hemit _).bind fun _ => ?_
  dsimp only
  split
  · exact (hconfirm _).bind fun _ => (hfinish _).bind fun _ => .pure _
  · exact .pure _

/-- **A check-in that fails** spares the device, whatever it runs. -/
theorem Env.Works.checkin_spared (h : e.Works) (c : Context) (executedOnce : Bool) {w : World}
    (hw : Spared p calm b w₀ w) :
    wp (aknanoCheckin p e c executedOnce) (fun r w' => r.1 ≠ 0 → Spared p calm b w₀ w')
      (fun _ => Spared p calm b w₀) w := by
  refine wp_mono (h.checkin_rule (Q := fun _ _ => True) (fun _ _ _ _ _ => trivial) c executedOnce
    (fun _ hpolls => hw.polls hpolls) fun s userBuffer w' _ _ _ => ?_) ?_ fun _ _ hE => hE
  · exact wp_mono (h.returns_handleRefreshed _ executedOnce userBuffer w') (fun _ _ _ => trivial)
      fun _ _ hE => hE.elim
  · intro r w' hQ hfailed
    rw [if_neg hfailed] at hQ
    exact hw.polls hQ.2.2

/-- The iteration whose check-in fails. -/
theorem Env.Works.loopBody_spared (h : e.Works) (startupEpoch : BitVec 64) {l : Loop} {w : World}
    (hw : Spared p calm b w₀ w)
    (hfail : ∀ r w', iterationCheckin p e l w = .ok r w' → r.1 ≠ 0) :
    wp (AktualizrNano.loopBody p e startupEpoch l) (fun _ => Spared p calm b w₀)
      (fun _ => Spared p calm b w₀) w := by
  have hcheckin : wp (iterationCheckin p e l) (fun r w' => r.1 ≠ 0 → Spared p calm b w₀ w')
      (fun _ => Spared p calm b w₀) w := by
    rw [iterationCheckin, wp_bind, wp_emit]
    exact h.checkin_spared _ l.executedOnce (hw.emit nofun)
  rw [loopBody_watchdog, iterationUntilWatchdog, bind_assoc, wp_bind]
  refine wp_mono (wp_and hcheckin wp_self) ?_ fun _ _ hE => hE.1
  rintro ⟨checkinResult, c, executed⟩ w₁ ⟨hspared, hrun⟩
  have hfailed : checkinResult ≠ 0 := hfail _ w₁ hrun
  have hw₁ := hspared hfailed
  dsimp only
  rw [if_neg hfailed, pure_bind]
  refine (still_rebootIfOffline _ _ _).wp_bind (fun _ w₂ h₂ => ?_) fun _ _ h₂ => hw₁.still h₂
  exact (wp_pure _).mpr (hw₁.still h₂)

/-- One iteration further. -/
theorem bootUntil_next {k : Nat} {startupEpoch : BitVec 64} {l l' : Loop} {w w₁ w₂ w₃ : World}
    (hboot : bootUntil p e k w = .ok (startupEpoch, l) w₁)
    (hbody : AktualizrNano.loopBody p e startupEpoch l w₁ = .ok l' w₂)
    (hdelay : aknanoDelay e (aknanoLimitSleepTimeRange l'.settings.pollingInterval * 1000) w₂
      = .ok () w₃) :
    bootUntil p e (k + 1) w = .ok (startupEpoch, l') w₃ := by
  obtain ⟨_, w₄, hpower, hboot⟩ := ok_of_bind hboot
  obtain ⟨_, w₅, hepoch, hboot⟩ := ok_of_bind hboot
  obtain ⟨s, w₆, hinit, hboot⟩ := ok_of_bind hboot
  obtain ⟨l₁, w₇, hfirst, hpoint⟩ := ok_of_bind hboot
  cases hpoint
  rw [bootUntil, bind_of_ok hpower, bind_of_ok hepoch, bind_of_ok hinit, firstIterations_succ,
    bind_assoc, bind_of_ok hfirst, bind_assoc, bind_of_ok hbody, bind_assoc, bind_of_ok hdelay]
  rfl

/-- **The loop of the boot on trial**, from its iteration `k` on. -/
theorem Env.Works.sampleLoop_spared (h : e.Works) {k n : Nat} {startupEpoch : BitVec 64} {l : Loop}
    {w w₁ : World} (hboot : bootUntil p e k w = .ok (startupEpoch, l) w₁)
    (hfail : ∀ j < k + n, ∀ checkinResult, returned (untilCheckin p e j) w = some checkinResult →
      checkinResult ≠ 0)
    (hw₁ : Spared p calm b w₀ w₁) :
    wp (sampleLoop p e startupEpoch n l) (fun _ => Spared p calm b w₀)
      (fun _ => Spared p calm b w₀) w₁ := by
  induction n generalizing k l w₁ with
  | zero => exact (wp_pure ()).mpr hw₁
  | succ n ih =>
    have hcheckin : ∀ r w', iterationCheckin p e l w₁ = .ok r w' → r.1 ≠ 0 := fun r w' hrun =>
      hfail k (by omega) r.1 (returned_untilCheckin hboot hrun)
    rw [sampleLoop, wp_bind]
    refine wp_mono (wp_and (h.loopBody_spared startupEpoch hw₁ hcheckin) wp_self) ?_
      fun _ _ hE => hE.1
    rintro l' w₂ ⟨hw₂, hbody⟩
    split
    · rw [wp_bind]
      refine wp_mono (wp_and (still_delay _ w₂) wp_self) ?_ fun _ _ hE => hw₂.still hE.1
      rintro _ w₃ ⟨h₃, hdelay⟩
      exact ih (bootUntil_next hboot hbody hdelay) (fun j hj => hfail j (by omega)) (hw₂.still h₃)
    · next hlast =>
      obtain rfl : n = 0 := by omega
      exact (wp_pure ()).mpr hw₂

/-- **The boot on trial**: as long as no check-in succeeds, nothing is settled. -/
theorem Env.Works.bootOnce_spared (h : e.Works) {n : Nat} {w : World}
    (hfail : ∀ k < n, ∀ checkinResult, returned (untilCheckin p e k) w = some checkinResult →
      checkinResult ≠ 0)
    (hw : Spared p calm b w₀ w.powered) :
    Spared p calm b w₀ (final (AktualizrNano.bootOnce p e n) w) := by
  have hstart : wp (bootUntil p e 0) (fun _ => Spared p calm b w₀)
      (fun _ => Spared p calm b w₀) w := by
    rw [bootUntil, wp_bind, powerOn, wp_modify]
    refine still_currentEpoch.wp_bind (fun startupEpoch w₁ h₁ => ?_) fun _ _ h₁ => hw.still h₁
    rw [wp_bind]
    refine wp_mono (polls_init w₁) ?_ fun _ _ hE => (hw.still h₁).polls hE
    rintro s w₂ ⟨-, -, h₂⟩
    rw [firstIterations, pure_bind, wp_pure]
    exact (hw.still h₁).polls h₂
  refine wp.final (P := Spared p calm b w₀) ?_
  rw [bootOnce_eq, wp_bind]
  refine wp_mono (wp_and hstart wp_self) ?_ fun _ _ hE => hE.1
  rintro ⟨startupEpoch, l⟩ w₁ ⟨hw₁, hboot⟩
  exact h.sampleLoop_spared hboot (fun j hj => hfail j (by omega)) hw₁

/-! ### The life of a device that was spared -/

theorem Spared.start (calm : Prop) (w : World) : Spared p calm w.boot w w :=
  ⟨rfl, rfl, rfl, Grows.refl w, fun _ _ => rfl, fun _ => ⟨fun _ _ _ => rfl, Sends.refl w⟩⟩

theorem Spared.powered {w : World} (h : Spared p calm b w₀ w) :
    Spared p calm b.reset w₀ w.powered :=
  ⟨congrArg Boot.reset h.boot, h.applied, h.confirmed, h.grows.cons nofun, h.frame, h.idle⟩

/-- **A life** on the old image, whose boots all start it. -/
theorem Insists.lifetime (h : Insists p e (runningVersionOf b.running) new)
    (hnew : (storedOf p w₀.flash.mem).applied = new)
    (hold : (storedOf p w₀.flash.mem).confirmed = runningVersionOf b.running)
    (hcalm : calm →
      (storedOf p w₀.flash.mem).indicatesRollback (runningVersionOf b.running) = false)
    (hfallback : b.fallback = none) (harmed : b.armed = none) (boots : List Nat) {b' : Boot}
    {w : World} (hreset : b'.reset = b) (hw : Spared p calm b' w₀ w) :
    ∃ b'', b''.reset = b ∧ (b' = b → b'' = b) ∧
      Spared p calm b'' w₀ (AktualizrNano.lifetime p e boots w) := by
  induction boots generalizing b' w with
  | nil => exact ⟨b', hreset, id, hw⟩
  | cons n boots ih =>
    have hstays : b.reset = b := by rw [Boot.reset, harmed, hfallback]
    have hpowered : Spared p calm b w₀ w.powered := hreset ▸ hw.powered
    obtain ⟨b'', hb'', hsame, hspared⟩ := ih hstays
      (h.bootOnce hnew hold hcalm hfallback n hpowered)
    exact ⟨b'', hb'', fun _ => hsame rfl, hspared⟩

end Checkin

/-- **A bad image is given up for good.**  The next reset starts an image on
trial that the settings name as applied.  If no check-in of that boot succeeds,
then in the whole life that follows nothing is installed, and the next reset
starts the old image, which is permanent: as long as no refresh offers anything
newer than the old version but the one that was tried.  Both slots keep their
contents. -/
theorem lifetime_recovers {w : World} {trial new : Version}
    (h : Insists p e (runningVersionOf w.boot.running) new)
    (harmed : w.boot.armed = some trial) (hnew : (storedOf p w.flash.mem).applied = new)
    (hold : (storedOf p w.flash.mem).confirmed = runningVersionOf w.boot.running) {n : Nat}
    (hfail : ∀ k < n, ∀ checkinResult, returned (untilCheckin p e k) w = some checkinResult →
      checkinResult ≠ 0) (boots : List Nat) :
    (lifetime p e (n :: boots) w).boot.reset
        = ⟨w.boot.active, w.boot.running, none, some trial, none⟩ ∧
      (∀ x, ¬ InState x → (lifetime p e (n :: boots) w).flash.mem x = w.flash.mem x) ∧
      Grows NotInstalling w (lifetime p e (n :: boots) w) := by
  have htrial : Spared p False w.boot.reset w (final (bootOnce p e n) w) :=
    h.works.bootOnce_spared hfail (Spared.start False w).powered
  have hreset : w.boot.reset.reset
      = ⟨w.boot.active, w.boot.running, none, some trial, none⟩ := by
    have hfirst : w.boot.reset
        = ⟨w.boot.active.other, trial, some w.boot.running, some w.boot.running, none⟩ := by
      rw [Boot.reset, harmed]
    rw [hfirst]
    cases w.boot.active <;> rfl
  -- from here on every boot is on the old image
  obtain ⟨b, hb, -, hspared⟩ := Insists.lifetime
    (b := ⟨w.boot.active, w.boot.running, none, some trial, none⟩) h hnew hold False.elim rfl rfl
    boots hreset htrial
  refine ⟨?_, hspared.frame, hspared.grows⟩
  rw [← hb]
  exact congrArg Boot.reset hspared.boot

/-- Version 7 is all that the servers offer, whatever the tag. -/
theorem Env.cooperating_offers {metadata : List Byte} {target : AknanoTarget}
    (hfresh : Refreshed .cooperating metadata)
    (hoffered : Offered .sample .cooperating metadata target) : target.version = 7 := by
  obtain ⟨t, -, rfl⟩ := hfresh
  obtain ⟨tag, htarget, hversion⟩ := hoffered
  have htext : Env.cooperating.json ((Env.cooperating.tufRefresh t).userBuffer.takeWhile (· ≠ 0))
      = some (sampleOffer "7"
        "ba7816bf8f01cfea414140de5dae2223b00361a396177a9cb410ff61f20015ad") := rfl
  obtain ⟨entry, hentries, hseven⟩ : ∃ entry, targetEntries (some (sampleOffer "7"
        "ba7816bf8f01cfea414140de5dae2223b00361a396177a9cb410ff61f20015ad")) = [entry] ∧
      targetVersion? Platform.sample.overflow entry = some 7 := ⟨_, rfl, by decide +kernel⟩
  have htag : tag ≠ [] := by
    rintro rfl
    exact hversion (by rw [htarget]; rfl)
  rw [htext, parseTargetsMetadata_snd _ htag, hentries, RunningMax.scan] at htarget
  rcases judgeTarget_cases hseven with hjudge | hjudge | ⟨taken, hjudge, htaken⟩
  · rw [hjudge] at htarget
    exact absurd (congrArg AknanoTarget.version htarget) hversion
  · rw [hjudge] at htarget
    exact absurd (congrArg AknanoTarget.version htarget) hversion
  · have hgreater : ¬ taken.rank ≤ AknanoTarget.zero.rank := by
      rw [AknanoTarget.rank, htaken]
      decide
    rw [hjudge] at htarget
    dsimp only [RunningMax.Verdict.effect] at htarget
    rw [if_neg hgreater] at htarget
    exact (congrArg AknanoTarget.version htarget).trans htaken

/-- Version 7 has been installed. -/
theorem Env.cooperating_armed :
    (lifetime .sample .cooperating [1] (.factory 5)).boot = ⟨.primary, 5, none, some 7, some 7⟩ ∧
      storedOf .sample (lifetime .sample .cooperating [1] (.factory 5)).flash.mem
        = ⟨7, 5, true⟩ := by
  decide +kernel

/-- The servers are out of reach until the image that was tried is given up. -/
def Env.recovering : Env := { Env.cooperating with connects := fun t _ => decide (80 ≤ t) }

/-- Version 7 is tried in vain, and offered on and on. -/
theorem lifetime_recovers_seven :
    (lifetime .sample .recovering [1, 2, 0]
        (lifetime .sample .cooperating [1] (.factory 5))).boot.reset
      = ⟨.primary, 5, none, some 7, none⟩ := by
  have hcheckin : returned (untilCheckin .sample .recovering 0)
      (lifetime .sample .cooperating [1] (.factory 5)) = some (-10) := by
    decide +kernel
  have hinsists : Insists .sample .recovering 5 7 :=
    ⟨⟨fun _ => rfl, FlashFaults.reliable_spec⟩, fun _ _ hfresh hoffered =>
      Or.inl (Env.cooperating_offers hfresh hoffered)⟩
  obtain ⟨hboot, hstored⟩ := Env.cooperating_armed
  generalize lifetime .sample .cooperating [1] (.factory 5) = w at hcheckin hboot hstored ⊢
  rw [show 5 = runningVersionOf w.boot.running by rw [hboot]; rfl] at hinsists
  have h := lifetime_recovers (n := 1) hinsists (by rw [hboot]) (by rw [hstored])
    (by rw [hstored, hboot]; rfl) (fun k hk checkinResult hresult => ?_) [2, 0]
  · rw [h.1, hboot]
  · obtain rfl : k = 0 := by omega
    rw [hcheckin] at hresult
    cases hresult
    decide

/-- There is nothing to install, nothing under way and nothing to report. -/
structure Settled (p : Platform) (e : Env) (s : Stored) (b : Boot) : Prop where
  armed : b.armed = none
  fallback : b.fallback = none
  confirmed : s.confirmed = runningVersionOf b.running
  clean : s.indicatesRollback (runningVersionOf b.running) = false
  insists : Insists p e (runningVersionOf b.running) s.applied

theorem Settled.lifetime {w₀ w : World} (h : Settled p e (storedOf p w₀.flash.mem) w₀.boot)
    (boots : List Nat) (hw : Spared p True w₀.boot w₀ w) :
    Spared p True w₀.boot w₀ (AktualizrNano.lifetime p e boots w) := by
  have hstays : w₀.boot.reset = w₀.boot := by rw [Boot.reset, h.armed, h.fallback]
  obtain ⟨b, -, hsame, hspared⟩ := h.insists.lifetime rfl h.confirmed (fun _ => h.clean)
    h.fallback h.armed boots hstays hw
  obtain rfl := hsame rfl
  exact hspared

/-- **A device that is up to date is left alone.**  The running image is
permanent, the settings confirm it, and no refresh offers anything newer but a
version that was applied before.  Then all that it does is to poll: nothing is
installed, no event is sent, the bootloader is asked for nothing that makes a
difference, and beside the files of the roles the flash stays as it is. -/
theorem lifetime_idle {w : World} (h : Settled p e (storedOf p w.flash.mem) w.boot)
    (boots : List Nat) :
    (lifetime p e boots w).boot = w.boot ∧
      (∀ x, x < tufRolesLo ∨ tufRolesHi ≤ x →
        (lifetime p e boots w).flash.mem x = w.flash.mem x) ∧
      Grows NotInstalling w (lifetime p e boots w) ∧
      Sends (IsPoll p) w (lifetime p e boots w) := by
  have hspared := h.lifetime boots (.start True w)
  obtain ⟨hkept, hsends⟩ := hspared.idle trivial
  refine ⟨hspared.boot, fun x hx => ?_, hspared.grows, hsends⟩
  by_cases hsector : stateLo ≤ x ∧ x < stateHi
  · exact hkept x hsector.1 hsector.2
  · refine hspared.frame x fun hin => ?_
    rcases hin with hin | hin
    · exact hsector hin
    · omega

/-- Version 7 is installed and confirmed, and offered on and on. -/
theorem lifetime_idle_seven :
    (lifetime .sample .cooperating [2, 0, 3]
        (lifetime .sample .cooperating [1, 1] (.factory 5))).boot
      = ⟨.secondary, 7, none, some 5, none⟩ := by
  have hinsists : ∀ new, Insists .sample .cooperating 7 new := fun _ =>
    ⟨Env.cooperating_spec.works, fun _ _ hfresh hoffered => Or.inr (by
      rw [Env.cooperating_offers hfresh hoffered]
      decide)⟩
  have hidle : ∀ w : World, Installed .sample 7 ⟨.secondary, 7, none, some 5, none⟩ w →
      (lifetime .sample .cooperating [2, 0, 3] w).boot = ⟨.secondary, 7, none, some 5, none⟩ := by
    rintro w ⟨hboot, hacknowledged⟩
    have hclean : (storedOf .sample w.flash.mem).indicatesRollback 7 = false := by
      refine Bool.eq_false_iff.mpr fun hflag => ?_
      obtain ⟨hzero, hseven, -⟩ := of_decide_eq_true hflag
      exact hacknowledged.applied.elim hzero hseven
    have hsettled : Settled .sample .cooperating (storedOf .sample w.flash.mem) w.boot := by
      rw [hboot]
      exact ⟨rfl, rfl, hacknowledged.confirmed, hclean, hinsists _⟩
    rw [(lifetime_idle hsettled [2, 0, 3]).1, hboot]
  have hconfirms : ∀ w : World, w.boot = ⟨.primary, 5, none, some 7, some 7⟩ →
      (storedOf .sample w.flash.mem).applied = 7 →
      Installed .sample 7 ⟨.secondary, 7, none, some 5, none⟩
        (final (bootOnce .sample .cooperating 1) w) := by
    intro w hboot happlied
    have hinstalled := Env.cooperating_spec.bootOnce_confirms 0 (w := w) (by rw [hboot]; rfl)
      (by decide) (Or.inr happlied)
    rw [hboot] at hinstalled
    exact hinstalled
  have hprepared := Env.cooperating_spec.bootOnce_arms 0 (w := .factory 5) rfl (by decide)
    (by decide +kernel)
  rw [Nat.zero_add] at hprepared
  rw [lifetime.eq_def _ _ [1, 1], List.foldl_cons, List.foldl_cons, List.foldl_nil]
  exact hidle _ (hconfirms _ hprepared.boot hprepared.applied)

end AktualizrNano
