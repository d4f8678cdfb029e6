/-
AktualizrNano/Lifetime.lean

The installation, the loop and the boot follow the protocol, and so does any
sequence of boots: `lifetime_run`.  What is proved of every run of the protocol
holds of the record of every life of a device.
-/
import AktualizrNano.Refinement

namespace AktualizrNano

open CLib NorFlash Outcome Trace

variable {p : Platform} {e : Env} {m₀ : Machine} {s : Settings} {finished : Bool} {task : Task}
variable {w : World}

/-! ### The installation -/

/-- The new correlation id is there and is accepted by the next boot. -/
structure NewId (s : Settings) : Prop where
  there : hasId s.ongoingUpdateCorrelationId = true
  plain : PlainId s.ongoingUpdateCorrelationId

theorem NewId.of_uuid (s : Settings) (id : CharArray aknanoMaxUpdateCorrelationIdLength)
    {uuid ds : List Byte} {d : Byte} (hlen : uuid.length = 37) (huuid : uuid = d :: ds)
    (hlo : 0x30 ≤ d) (hhi : d ≤ 0x46) :
    NewId { s with ongoingUpdateCorrelationId := id.store uuid } := by
  have hmax : aknanoMaxUpdateCorrelationIdLength = 102 := rfl
  -- the first character is a digit, which no boot takes for damage
  have hhead : (id.store uuid).bytes.headD 0 = d := by
    rw [CharArray.store_bytes_of_le (by omega), huuid]
    rfl
  refine ⟨?_, hhead.trans_le hhi⟩
  rw [hasId_eq, hhead, decide_eq_true_eq]
  rintro rfl
  exact absurd hlo (by decide)

/-- In an installation, sending an event changes no settings. -/
theorem sendEvent_installing {eventType : EventType} {newVersion : Version} {success : Bool}
    (h : At p e m₀ s finished task w) (hid : NewId s) (hbusy : ∀ b, task.Busy b .installing) :
    wp (aknanoSendEvent p e s eventType newVersion success)
      (fun r w' => r.2 = s ∧ Quiet w w')
      (fun _ => Interrupted p e m₀ .installing) w := by
  refine wp_mono (aknanoSendEvent_spec s eventType newVersion success w) ?_
    fun _ _ hq => (h.quiet hq).interrupted (hbusy _)
  rintro ⟨sent, s'⟩ w' ⟨hq, hfills⟩
  exact ⟨hfills.eq (of_decide_eq_true hid.there), hq⟩

/-- Only the retry counters have changed. -/
theorem scheduleRetry_spec (isRebootRequired : Bool) (s : Settings) (w : World) :
    wp (scheduleRetry e isRebootRequired s)
      (fun s' w' => Still w w' ∧ (isRebootRequired = false → s' = s) ∧
        ∃ count time, s' = { s with rollbackRetryCount := count, rollbackNextRetryTime := time })
      (fun _ w' => Still w w') w := by
  unfold scheduleRetry
  cases isRebootRequired with
  | false => exact (wp_pure _).mpr ⟨Still.refl w, fun _ => rfl, _, _, rfl⟩
  | true =>
    have hstill : ∀ s, Keeps Still (aknanoGetNextRollbackRetryTime e s) := fun s =>
      (still_randomBytes 4).bind fun _ => still_currentEpoch.bind fun _ => .pure Still.refl _
    refine (hstill _).wp_bind (fun time w' h => ?_) fun _ _ h => h
    exact (wp_pure _).mpr ⟨h, nofun, _, _, rfl⟩

theorem noteDownload_spec {target : AknanoTarget} (ok : Bool)
    (h : At p e m₀ s true (.downloading target) w) :
    wp (noteDownload target.version ok s.lastAppliedVersion)
      (fun _ w' => At p e m₀ s true (if ok then .fetched target else .closing target false) w' ∧
        (ok = true → w'.boot.inactive = some target.version))
      (fun _ _ => False) w := by
  rw [noteDownload, wp_modify]
  refine ⟨⟨h.follows.next rfl Step.downloaded, ?_⟩, fun hok => if_pos hok⟩
  exact ⟨h.fit.hwid, h.fit.retryCount, h.fit.permanent, h.fit.selfTest⟩

/-- The part after a successful download. -/
theorem applyTarget_spec {target : AknanoTarget} (h : At p e m₀ s true (.fetched target) w)
    (hid : NewId s) (hheld : w.boot.inactive = some target.version) :
    wp (applyTarget p e s target.version)
      (fun r w' => NewId r.2 ∧ At p e m₀ r.2 true (.closing target r.1) w')
      (fun _ => Interrupted p e m₀ .installing) w := by
  unfold applyTarget
  rw [wp_bind]
  refine wp_mono (sendEvent_installing h hid fun _ => trivial) ?_ fun _ _ hE => hE
  rintro ⟨sent₁, s₁⟩ w₁ ⟨hs₁, hq₁⟩
  obtain rfl : s₁ = s := hs₁
  have h₁ := h.quiet hq₁
  rw [wp_bind]
  refine wp_mono (sendEvent_installing h₁ hid fun _ => trivial) ?_ fun _ _ hE => hE
  rintro ⟨sent₂, s₂⟩ w₂ ⟨hs₂, hq₂⟩
  obtain rfl : s₂ = s₁ := hs₂
  have h₂ := h₁.quiet hq₂
  have hboot₂ : w₂.boot = w.boot := hq₂.boot.trans hq₁.boot
  -- the version is in RAM already, while the protocol takes note at the next event
  dsimp only
  rw [wp_bind]
  refine wp_mono (aknanoSendEvent_spec _ _ _ _ w₂) ?_ fun _ _ hq =>
    (h₂.quiet hq).interrupted trivial
  rintro ⟨sent₃, s₃⟩ w₃ ⟨hq₃, hfills⟩
  obtain rfl := hfills.eq (of_decide_eq_true hid.there)
  have h₃ := h₂.quiet hq₃
  dsimp only
  rw [wp_bind]
  refine wp_mono (blUpdateImageState_spec Boot.arm w₃) ?_ fun _ _ hstill =>
    (h₃.quiet hstill.quiet).interrupted trivial
  intro status w₄ h₄
  rw [wp_bind, wp_emit, wp_pure]
  have hnext : At p e m₀ { s₂ with lastAppliedVersion := target.version } true
      (.closing target (decide (status = 0)))
      { w₄ with log := .readyForTest target.version (decide (status = 0)) :: w₄.log } := by
    have hheld₃ : w₃.boot.inactive = some target.version := by
      rw [hq₃.boot, hboot₂, hheld]
    refine ⟨h₃.follows.next (by rw [h₄]) ?_, ?_⟩
    · rw [h₄]
      have hstep : Step p e ⟨storedOf p w₃.flash.mem, w₃.boot,
          .awake (ramOf s₂ true) (.fetched target)⟩
          (.readyForTest target.version (decide (status = 0))) _ := .readyForTest hheld₃
      by_cases hok : status = 0 <;> simpa [hok, ramOf] using hstep
    · refine ⟨h₃.fit.hwid, h₃.fit.retryCount, fun hp => ?_, h₃.fit.selfTest⟩
      have hfallback := h₃.fit.permanent hp
      rw [h₄]
      dsimp only
      split
      · exact hfallback
      · exact hfallback
  exact ⟨⟨hid.there, hid.plain⟩, hnext⟩

/-- The end of an installation. -/
theorem closeInstallation_spec {target : AknanoTarget} {armed : Bool}
    (h : At p e m₀ s true (.closing target armed) w) (hid : NewId s) :
    wp (do let s ← scheduleRetry e armed s
           let ret ← onFlash (aknanoUpdateSettingsInFlash e.faults s)
           emit (.installed target.version armed (ret = 0))
           pure (armed, s))
      (fun r w' => if r.1 then Stopped p e m₀ w' else At p e m₀ r.2 true .idle w')
      (fun _ => Interrupted p e m₀ .installing) w := by
  rw [wp_bind]
  refine wp_mono (scheduleRetry_spec armed s w) ?_ fun _ _ hstill =>
    (h.quiet hstill.quiet).interrupted trivial
  rintro s' w₁ ⟨hstill, hsame, count, time, hs'⟩
  have hplain : PlainId s'.ongoingUpdateCorrelationId := by
    rw [hs']
    exact hid.plain
  have hram : ramOf s' true = ramOf s true := by
    rw [hs']
    rfl
  have h₁ := h.quiet hstill.quiet
  rw [wp_bind]
  refine wp_mono (saveSettings_spec (p := p) hplain true w₁) ?_
    fun _ _ ⟨hboot, hlog⟩ => Interrupted.of_save h₁ trivial hboot hlog
  rintro ret w₂ ⟨hboot, hlog, hsaved⟩
  have hstored : Saved (ramOf s true) (decide (ret = 0)) (storedOf p w₂.flash.mem) :=
    fun hok => hram ▸ hsaved (of_decide_eq_true hok)
  have hnext : Step p e ⟨storedOf p w₁.flash.mem, w₁.boot,
      .awake (ramOf s true) (.closing target armed)⟩
      (.installed target.version armed (decide (ret = 0))) _ := .installed hstored
  rw [wp_bind, wp_emit, wp_pure]
  cases armed with
  | true =>
    refine ⟨.off, trivial, h₁.follows.next (by rw [hlog]) ?_⟩
    dsimp only
    rw [hboot]
    exact hnext
  | false =>
    refine ⟨h₁.follows.next (by rw [hlog]) ?_, ?_⟩
    · dsimp only
      rw [hboot, hram]
      exact hnext
    · dsimp only
      rw [hboot, hsame rfl]
      exact h₁.fit

/-- **The installation.** -/
theorem installSelectedTarget_spec {c : Context} {metadata : List Byte} {refused : Bool}
    (h : At p e m₀ c.settings true (.refreshed metadata refused) w)
    (hperm : refused = false → w.boot.fallback = none)
    (hoffered : Offered p e metadata c.selectedTarget)
    (hnewer : c.settings.runningVersion < c.selectedTarget.version)
    (hother : c.selectedTarget.version ≠ c.settings.lastAppliedVersion) :
    wp (aknanoInstallSelectedTarget p e c)
      (fun r w' => if r.1 then Stopped p e m₀ w' else At p e m₀ r.2 true .idle w')
      (fun _ => Stopped p e m₀) w := by
  obtain ⟨s, target⟩ := c
  dsimp only at *
  unfold aknanoInstallSelectedTarget
  rw [wp_bind, wp_emit, during, wp_onError]
  have h₁ : Follows p e m₀ (.awake { ramOf s true with ongoing := true } (.downloading target))
      { w with log := .install target s.runningVersion :: w.log } :=
    h.follows.next rfl (.install hperm rfl hoffered hnewer hother)
  have hfit : Fit p w.boot s := h.fit
  refine wp_mono ?_ (fun _ _ hQ => hQ) fun _ _ hE => Interrupted.cut hE
  dsimp only
  rw [wp_bind]
  refine wp_mono (genSerialAndUuid_spec _) ?_ fun _ _ hstill =>
    ⟨_, _, .downloading target, trivial, h₁.quiet hstill.quiet⟩
  rintro ⟨uuid, unusedSerial⟩ w₂ ⟨hstill, hlen, d, ds, huuid, hlo, hhi⟩
  have hid := NewId.of_uuid s s.ongoingUpdateCorrelationId hlen huuid hlo hhi
  dsimp only
  generalize hs' : { s with ongoingUpdateCorrelationId := s.ongoingUpdateCorrelationId.store uuid }
    = s' at hid
  have h₂ : At p e m₀ s' true (.downloading target) w₂ := by
    have hram : ramOf s' true = { ramOf s true with ongoing := true } := by
      rw [← hid.there, ← hs']
      rfl
    have hboot : w₂.boot = w.boot := hstill.quiet.boot
    refine ⟨hram ▸ h₁.quiet hstill.quiet, hboot ▸ ?_⟩
    rw [← hs']
    exact ⟨hfit.hwid, hfit.retryCount, hfit.permanent, hfit.selfTest⟩
  rw [wp_bind]
  refine wp_mono (sendEvent_installing h₂ hid fun _ => trivial) ?_ fun _ _ hE => hE
  rintro ⟨sent, s₃⟩ w₃ ⟨hs₃, hq₃⟩
  obtain rfl : s₃ = s' := hs₃
  refine (h₂.quiet hq₃).bind (quiet_downloadAndFlashImage _ _) (fun ok w₄ h₄ => ?_)
    fun _ h₄ => h₄.interrupted trivial
  rw [wp_bind]
  refine wp_mono (noteDownload_spec ok h₄) ?_ fun _ _ hE => hE.elim
  rintro - w₅ ⟨h₅, hheld⟩
  cases ok with
  | true =>
    rw [if_pos rfl, wp_bind]
    refine wp_mono (applyTarget_spec h₅ hid (hheld rfl)) ?_ fun _ _ hE => hE
    rintro r w₆ ⟨hid₆, h₆⟩
    exact closeInstallation_spec h₆ hid₆
  | false =>
    rw [if_neg Bool.false_ne_true, wp_bind]
    refine wp_mono (sendEvent_installing h₅ hid fun _ => trivial) ?_ fun _ _ hE => hE
    rintro ⟨sent, s₆⟩ w₆ ⟨hs₆, hq₆⟩
    obtain rfl : s₆ = s₃ := hs₆
    rw [wp_bind, wp_pure]
    exact closeInstallation_spec (h₅.quiet hq₆) hid

/-! ### The loop -/

/-- A version that was rolled back is not retried: the count is not negative. -/
theorem isUpdateRequired_spec {c : Context} (hcount : c.settings.rollbackRetryCount.slt 0 = false)
    (w : World) :
    wp (isUpdateRequired e c)
      (fun r w' => Still w w' ∧ (r = true → c.selectedTarget.version ≠ 0 ∧
        c.settings.runningVersion < c.selectedTarget.version ∧
        c.selectedTarget.version ≠ c.settings.lastAppliedVersion))
      (fun _ w' => Still w w') w := by
  -- the limit on retries is zero, so a count that is not negative forbids one
  have hretry : aknanoShouldRetryRollback e c = pure false := by
    unfold aknanoShouldRetryRollback
    rw [hcount]
    rfl
  unfold isUpdateRequired
  by_cases hmatching : aknanoHasMatchingTarget c = true
  · rw [if_pos hmatching]
    dsimp only
    by_cases hrollback : aknanoIsRollback c = true
    · rw [if_pos hrollback, hretry, wp_bind, wp_pure, if_pos ⟨hrollback, Bool.false_ne_true⟩,
        wp_pure]
      exact ⟨Still.refl w, nofun⟩
    · rw [if_neg hrollback, wp_bind, wp_pure, if_neg (fun h => hrollback h.1), wp_pure]
      refine ⟨Still.refl w, fun hnewer => ⟨?_, of_decide_eq_true hnewer, ?_⟩⟩
      · exact of_decide_eq_true hmatching
      · exact fun heq => hrollback (decide_eq_true heq)
  · rw [if_neg hmatching, wp_pure]
    exact ⟨Still.refl w, nofun⟩

theorem reboot_spec {α : Type} (w : World) :
    wp (aknanoRebootCommand e : M α) (fun _ _ => False) (fun _ w' => Still w w') w :=
  (still_delay 100).wp_bind (fun _ _ hstill => (wp_throw _).mpr hstill) fun _ _ hstill => hstill

theorem Stopped.quiet {w' : World} (h : Stopped p e m₀ w) (hq : Quiet w w') :
    Stopped p e m₀ w' := by
  obtain ⟨phase, hfree, hfollows⟩ := h
  exact ⟨phase, hfree, hfollows.quiet hq⟩

/-- After a successful check-in. -/
theorem handleCheckin_spec {c : Context} {metadata : List Byte} {refused : Bool}
    (h : At p e m₀ c.settings true (.refreshed metadata refused) w)
    (hperm : refused = false → w.boot.fallback = none)
    (hoffered : c.selectedTarget.version ≠ 0 → Offered p e metadata c.selectedTarget) :
    wp (handleCheckin p e c)
      (fun s w' => ∃ task : Task, task.Free ∧ At p e m₀ s true task w')
      (fun _ => Stopped p e m₀) w := by
  unfold handleCheckin
  rw [wp_bind]
  refine wp_mono (isUpdateRequired_spec h.fit.retryCount w) ?_ fun _ _ hstill =>
    (h.quiet hstill.quiet).stopped (by trivial)
  rintro updateRequired w₁ ⟨hstill, hrequired⟩
  have h₁ := h.quiet hstill.quiet
  cases updateRequired with
  | false =>
    rw [if_neg Bool.false_ne_true, wp_pure]
    exact ⟨.refreshed metadata refused, trivial, h₁⟩
  | true =>
    obtain ⟨hne, hnewer, hother⟩ := hrequired rfl
    have hperm₁ : refused = false → w₁.boot.fallback = none := fun hr =>
      (congrArg Boot.fallback hstill.quiet.boot).trans (hperm hr)
    rw [if_pos rfl, wp_bind]
    refine wp_mono (installSelectedTarget_spec h₁ hperm₁ (hoffered hne) hnewer hother) ?_
      fun _ _ hE => hE
    rintro ⟨rebootRequired, s⟩ w₂ h₂
    cases rebootRequired with
    | true => exact wp_mono (reboot_spec w₂) (fun _ _ hQ => hQ.elim) fun _ _ hE => h₂.quiet hE.quiet
    | false => exact (wp_pure _).mpr ⟨.idle, trivial, h₂⟩

/-- Give up, or go on. -/
theorem rebootIfOffline_spec {anyCheckinOk : Bool} (startupEpoch : BitVec 64)
    (hfree : task.Free) (h : At p e m₀ s finished task w) :
    wp (rebootIfOffline e startupEpoch anyCheckinOk s)
      (fun _ w' => At p e m₀ s finished task w') (fun _ => Stopped p e m₀) w := by
  unfold rebootIfOffline
  split
  · refine h.quiet_bind hfree (still_currentEpoch.mono fun _ _ => Still.quiet) fun now w₁ h₁ => ?_
    split
    · refine h₁.quiet_bind hfree ((still_delay 2000).mono fun _ _ => Still.quiet)
        fun _ w₂ h₂ => ?_
      exact wp_mono (reboot_spec w₂) (fun _ _ hQ => hQ.elim) fun _ _ hE =>
        (h₂.quiet hE.quiet).stopped hfree
    · exact (wp_pure _).mpr h₁
  · exact (wp_pure _).mpr h

/-- **One iteration.** -/
theorem loopBody_spec {l : Loop} (startupEpoch : BitVec 64) (hfree : task.Free)
    (h : At p e m₀ l.settings l.executedOnce task w) :
    wp (loopBody p e startupEpoch l)
      (fun l' w' => ∃ task' : Task, task'.Free ∧ At p e m₀ l'.settings l'.executedOnce task' w')
      (fun _ => Stopped p e m₀) w := by
  unfold loopBody
  have h₁ : At p e m₀ l.settings l.executedOnce .checking { w with log := .iteration :: w.log } :=
    ⟨h.follows.next rfl (.iteration hfree), h.fit⟩
  rw [wp_bind, wp_emit, wp_bind]
  refine wp_mono (checkin_spec h₁) ?_ fun _ _ hE => hE
  rintro ⟨checkinResult, c, executedOnce⟩ w₂ ⟨task₂, hfree₂, h₂, hok⟩
  dsimp only at h₂ hok ⊢
  by_cases hresult : checkinResult = 0
  · obtain ⟨rfl, metadata, refused, rfl, hperm, -, hoffered⟩ := hok hresult
    rw [if_pos hresult, wp_bind]
    refine wp_mono (handleCheckin_spec h₂ hperm hoffered) ?_ fun _ _ hE => hE
    rintro s₃ w₃ ⟨task₃, hfree₃, h₃⟩
    rw [wp_bind, wp_pure, wp_bind]
    refine wp_mono (rebootIfOffline_spec startupEpoch hfree₃ h₃) ?_ fun _ _ hE => hE
    exact fun _ w₄ h₄ => (wp_pure _).mpr ⟨task₃, hfree₃, h₄⟩
  · rw [if_neg hresult, wp_bind, wp_pure, wp_bind]
    refine wp_mono (rebootIfOffline_spec startupEpoch hfree₂ h₂) ?_ fun _ _ hE => hE
    exact fun _ w₄ h₄ => (wp_pure _).mpr ⟨task₂, hfree₂, h₄⟩

/-- **The loop.** -/
theorem sampleLoop_spec {l : Loop} (startupEpoch : BitVec 64) (remainingIterations : Nat)
    (hfree : task.Free) (h : At p e m₀ l.settings l.executedOnce task w) :
    wp (sampleLoop p e startupEpoch remainingIterations l)
      (fun _ => Stopped p e m₀) (fun _ => Stopped p e m₀) w := by
  induction remainingIterations generalizing l task w with
  | zero => exact (wp_pure _).mpr (h.stopped hfree)
  | succ remainingIterations ih =>
    rw [sampleLoop, wp_bind]
    refine wp_mono (loopBody_spec startupEpoch hfree h) ?_ fun _ _ hE => hE
    rintro l₁ w₁ ⟨task₁, hfree₁, h₁⟩
    split
    · refine h₁.quiet_bind hfree₁ ((still_delay _).mono fun _ _ => Still.quiet) fun _ w₂ h₂ => ?_
      exact ih hfree₁ h₂
    · exact ih hfree₁ h₁

/-- Its first iterations. -/
theorem firstIterations_spec {l : Loop} (startupEpoch : BitVec 64) (k : Nat) (hfree : task.Free)
    (h : At p e m₀ l.settings l.executedOnce task w) :
    wp (firstIterations p e startupEpoch k l)
      (fun l' w' => ∃ task' : Task, task'.Free ∧ At p e m₀ l'.settings l'.executedOnce task' w')
      (fun _ => Stopped p e m₀) w := by
  induction k generalizing l task w with
  | zero => exact (wp_pure _).mpr ⟨task, hfree, h⟩
  | succ k ih =>
    rw [firstIterations, wp_bind]
    refine wp_mono (loopBody_spec startupEpoch hfree h) ?_ fun _ _ hE => hE
    rintro l₁ w₁ ⟨task₁, hfree₁, h₁⟩
    refine h₁.quiet_bind hfree₁ ((still_delay _).mono fun _ _ => Still.quiet) fun _ w₂ h₂ => ?_
    exact ih hfree₁ h₂

/-- An iteration up to the completion handler. -/
theorem iterationUntilFinish_spec {l : Loop} (hfree : task.Free)
    (h : At p e m₀ l.settings l.executedOnce task w) :
    wp (iterationUntilFinish p e l)
      (fun r w' => ∀ c executedOnce, r = some (c, executedOnce) → ∃ metadata refused,
        At p e m₀ c.settings executedOnce (.refreshed metadata refused) w' ∧
          (refused = false → w'.boot.fallback = none))
      (fun _ => Stopped p e m₀) w := by
  have h₁ : At p e m₀ l.settings l.executedOnce .checking { w with log := .iteration :: w.log } :=
    ⟨h.follows.next rfl (.iteration hfree), h.fit⟩
  rw [iterationUntilFinish, wp_bind, wp_emit, wp_bind]
  refine wp_mono (checkinUntilFinish_spec h₁) ?_ fun _ _ hE => hE
  rintro ⟨tufRet, finishes, c⟩ w₂ h₂
  rw [wp_pure]
  intro c' executedOnce hc
  cases finishes with
  | false => cases hc
  | true =>
    cases hc
    obtain ⟨-, metadata, refused, h₂, hperm, -, -⟩ := h₂
    exact ⟨metadata, refused, h₂, hperm⟩

/-- An iteration up to the installation. -/
theorem iterationUntilInstall_spec {l : Loop} (hfree : task.Free)
    (h : At p e m₀ l.settings l.executedOnce task w) :
    wp (iterationUntilInstall p e l)
      (fun r w' => ∀ c, r = some c → ∃ metadata refused,
        At p e m₀ c.settings true (.refreshed metadata refused) w' ∧
          c.settings.isImagePermanent = !refused)
      (fun _ => Stopped p e m₀) w := by
  have h₁ : At p e m₀ l.settings l.executedOnce .checking { w with log := .iteration :: w.log } :=
    ⟨h.follows.next rfl (.iteration hfree), h.fit⟩
  rw [iterationUntilInstall, wp_bind, wp_emit, wp_bind]
  refine wp_mono (checkin_spec h₁) ?_ fun _ _ hE => hE
  rintro ⟨checkinResult, c, executedOnce⟩ w₂ ⟨task₂, hfree₂, h₂, hok⟩
  dsimp only at h₂ hok ⊢
  by_cases hresult : checkinResult = 0
  · obtain ⟨rfl, metadata, refused, rfl, -, hpermanent, -⟩ := hok hresult
    rw [if_pos hresult, wp_bind]
    refine wp_mono (isUpdateRequired_spec h₂.fit.retryCount w₂) ?_ fun _ _ hstill =>
      (h₂.quiet hstill.quiet).stopped trivial
    rintro updateRequired w₃ ⟨hstill, -⟩
    cases updateRequired with
    | false => exact (wp_pure _).mpr nofun
    | true =>
      apply (wp_pure _).mpr
      rintro c' ⟨⟩
      exact ⟨metadata, refused, h₂.quiet hstill.quiet, hpermanent⟩
  · rw [if_neg hresult, wp_pure]
    exact nofun

/-! ### A boot -/

/-- What a boot makes of the fields it reads. -/
theorem ramOf_settingsOf (imagePosition : BitVec 8) (buildNum : BitVec 32)
    (fields : StoredFields) :
    ramOf (settingsOf p imagePosition buildNum (checkedFields p fields)) false
      = (⟨(checkedFields p fields).lastAppliedVersion, (checkedFields p fields).lastConfirmedVersion,
          hasId (checkedFields p fields).ongoingUpdateCorrelationId⟩ : Stored).load
        (runningVersionOf buildNum) := by
  simp only [ramOf, settingsOf, Stored.load, Stored.indicatesRollback, runningVersionOf, hasId,
    decide_eq_true_eq]
  rfl

theorem checkedFields_retryCount (r : StoredFields) :
    (checkedFields p r).rollbackRetryCount.slt 0 = false := by
  unfold checkedFields
  dsimp only
  split
  · rfl
  · simpa using ‹¬ r.rollbackRetryCount.slt 0 = true›

/-- The settings are read as the protocol says. -/
theorem initSettings_spec (imagePosition : BitVec 8) (buildNum : BitVec 32) (w : World) :
    wp (onFlash (aknanoInitSettings p e.faults imagePosition buildNum))
      (fun r w' => Quiet w w' ∧ r.2.hwid = some (aknanoGetBoardName p) ∧
        r.2.rollbackRetryCount.slt 0 = false ∧
        ∃ read, ramOf r.2 false = read.load (runningVersionOf buildNum) ∧
          (r.1 = true → read = storedOf p w.flash.mem))
      (fun _ w' => Quiet w w') w := by
  have hquiet : ∀ f : Flash, f.mem = w.flash.mem → Quiet w { w with flash := f } := fun f hmem =>
    ⟨rfl, rfl, fun x _ _ => congrFun hmem x⟩
  rw [onFlash, wp_zoom]
  refine wp_mono (aknanoInitSettings_spec imagePosition buildNum w.flash) ?_
    fun _ f hE => hquiet f hE.1
  rintro ⟨readsOk, s⟩ f ⟨hmem, ⟨fields, hs, hfields⟩, -⟩
  dsimp only at hs hfields ⊢
  rw [hs]
  refine ⟨hquiet f hmem, rfl, checkedFields_retryCount (p := p) fields, _,
    ramOf_settingsOf imagePosition buildNum fields, ?_⟩
  intro hok
  rw [hfields hok]
  rfl

theorem still_getImagePosition : Keeps Still (aknanoGetImagePosition e) :=
  still_tick.bind fun _ => still_get.bind fun _ => .pure Still.refl _

theorem still_getCurrentVersion : Keeps Still (aknanoGetCurrentVersion e) :=
  still_tick.bind fun _ => still_get.bind fun _ => .pure Still.refl _

/-- An image reported as permanent is not on trial. -/
theorem isCurrentImagePermanent_spec (w : World) :
    wp (aknanoIsCurrentImagePermanent e)
      (fun r w' => Still w w' ∧ (r = true → w.boot.fallback = none))
      (fun _ w' => Still w w') w := by
  refine (still_delay 200).wp_bind (fun _ w₁ h₁ => ?_) fun _ _ h => h
  rw [blGetImageState, wp_bind]
  refine still_tick.wp_bind (fun t w₂ h₂ => ?_) fun _ _ h => (Trans.trans h₁ h : Still _ _)
  have hstill : Still w w₂ := Trans.trans h₁ h₂
  rw [wp_bind, wp_get, wp_pure]
  split
  · exact (wp_pure _).mpr ⟨hstill, nofun⟩
  · exact (wp_pure _).mpr ⟨hstill, nofun⟩
  · next hstate =>
    refine (wp_pure _).mpr ⟨hstill, fun _ => ?_⟩
    rw [← hstill.quiet.boot]
    apply Boot.fallback_of_imageState
    split at hstate
    · exact Option.some.inj hstate
    · cases hstate
  · exact (wp_pure _).mpr ⟨hstill, nofun⟩

/-- **The start of a boot.** -/
theorem aknanoInit_spec (h : Follows p e m₀ .loading w) :
    wp (aknanoInit p e)
      (fun s w' => At p e m₀ (aknanoSetApplicationSelfTestOk s) false .idle w')
      (fun _ => Stopped p e m₀) w := by
  have hstop : ∀ {w' : World}, Quiet w w' → Stopped p e m₀ w' := fun hq =>
    ⟨.loading, trivial, h.quiet hq⟩
  unfold aknanoInit
  refine still_getImagePosition.wp_bind (fun imagePosition w₁ h₁ => ?_) fun _ _ hE => hstop hE.quiet
  rw [aknanoGetCurrentVersion, wp_bind]
  refine still_tick.wp_bind (fun t w₂ h₂ => ?_) fun _ _ hE =>
    hstop (Trans.trans h₁ hE : Still _ _).quiet
  have h₀₂ : Still w w₂ := Trans.trans h₁ h₂
  rw [wp_bind, wp_get, wp_pure, wp_bind]
  refine wp_mono (initSettings_spec imagePosition w₂.boot.running w₂) ?_ fun _ _ hq =>
    hstop (Trans.trans h₀₂.quiet hq)
  rintro ⟨readsOk, s⟩ w₃ ⟨hq₃, hhwid, hcount, read, hram, hread⟩
  have h₀₃ : Quiet w w₃ := Trans.trans h₀₂.quiet hq₃
  refine (still_delay 100).wp_bind (fun _ w₄ h₄ => ?_) fun _ _ hE =>
    hstop (Trans.trans h₀₃ hE.quiet)
  have h₂₄ : Quiet w₂ w₄ := Trans.trans hq₃ h₄.quiet
  rw [wp_bind, wp_emit]
  -- from here on the agent is awake; only `is_image_permanent` is missing
  have h₅ : Follows p e m₀ (.awake (ramOf s false) .idle)
      { w₄ with log := .loaded readsOk s.runningVersion s.isRunningRolledBackImage :: w₄.log } := by
    apply (h.quiet (Trans.trans h₀₂.quiet h₂₄)).next rfl
    have hrunning : s.runningVersion = _ := congrArg Ram.running hram
    have hrolledBack : s.isRunningRolledBackImage = _ := congrArg Ram.rolledBack hram
    rw [hram, hrunning, hrolledBack]
    refine Step.loaded (congrArg (fun b : Boot => runningVersionOf b.running) h₂₄.boot.symm) ?_
    intro hok
    rw [hread hok, storedOf_congr h₂₄.sector]
  refine (still_delay 100).wp_bind (fun _ w₆ h₆ => ?_) fun _ _ hE =>
    ⟨.awake _ .idle, trivial, h₅.quiet hE.quiet⟩
  refine (still_delay 100).wp_bind (fun _ w₇ h₇ => ?_) fun _ _ hE =>
    ⟨.awake _ .idle, trivial, h₅.quiet (Trans.trans h₆ hE : Still _ _).quiet⟩
  have h₅₇ : Still _ w₇ := Trans.trans h₆ h₇
  rw [wp_bind]
  refine wp_mono (isCurrentImagePermanent_spec w₇) ?_ fun _ _ hE =>
    ⟨.awake _ .idle, trivial, h₅.quiet (Trans.trans h₅₇ hE : Still _ _).quiet⟩
  rintro isImagePermanent w₈ ⟨h₈, hpermanent⟩
  refine (wp_pure _).mpr ⟨h₅.quiet (Trans.trans h₅₇ h₈ : Still _ _).quiet, hhwid, hcount, ?_, rfl⟩
  exact fun hp => (congrArg Boot.fallback h₈.quiet.boot).trans (hpermanent hp)

/-- A boot, up to one of its iterations. -/
theorem bootUntil_spec (k : Nat) (h : Stopped p e m₀ w) :
    wp (bootUntil p e k)
      (fun r w' => ∃ task : Task, task.Free ∧
        At p e m₀ r.2.settings r.2.executedOnce task w')
      (fun _ => Stopped p e m₀) w := by
  obtain ⟨phase, hfree, hfollows⟩ := h
  unfold bootUntil
  rw [wp_bind, powerOn, wp_modify]
  have h₁ : Follows p e m₀ .loading { w with
      boot := w.boot.reset, log := .reset w.boot.pick w.boot.reset.permanent :: w.log } :=
    hfollows.next rfl (.reset hfree)
  refine still_currentEpoch.wp_bind (fun startupEpoch w₂ h₂ => ?_) fun _ _ hE =>
    ⟨.loading, trivial, h₁.quiet hE.quiet⟩
  rw [wp_bind]
  refine wp_mono (aknanoInit_spec (h₁.quiet h₂.quiet)) ?_ fun _ _ hE => hE
  intro s w₃ h₃
  have hidle : Task.Free .idle := trivial
  rw [wp_bind]
  refine wp_mono (firstIterations_spec (l := ⟨_, false, false⟩) startupEpoch k hidle h₃) ?_
    fun _ _ hE => hE
  exact fun l w₄ h₄ => (wp_pure _).mpr h₄

/-- **One boot**, from a point where a reset can come to such a point. -/
theorem bootOnce_spec (remainingIterations : Nat) (h : Stopped p e m₀ w) :
    wp (bootOnce p e remainingIterations) (fun _ => Stopped p e m₀) (fun _ => Stopped p e m₀)
      w := by
  rw [bootOnce_eq, wp_bind]
  refine wp_mono (bootUntil_spec 0 h) ?_ fun _ _ hE => hE
  rintro ⟨startupEpoch, l⟩ w₁ ⟨task, hfree, h₁⟩
  exact sampleLoop_spec startupEpoch remainingIterations hfree h₁

/-- The protocol at the start of a record. -/
def machineOf (p : Platform) (w : World) : Machine := ⟨storedOf p w.flash.mem, w.boot, .off⟩

/-- Between two boots the agent is at rest. -/
theorem lifetime_stopped (boots : List Nat) (hnew : w.log = []) :
    Stopped p e (machineOf p w) (lifetime p e boots w) := by
  -- each boot starts where the one before was stopped
  have hlife : ∀ w', Stopped p e (machineOf p w) w' →
      Stopped p e (machineOf p w) (lifetime p e boots w') := by
    induction boots with
    | nil => exact fun w' h => h
    | cons n boots ih => exact fun w' h => ih _ (bootOnce_spec n h).final
  refine hlife w ⟨.off, trivial, ?_⟩
  rw [Follows, hnew]
  exact Run.start

theorem lifetime_append (boots boots' : List Nat) (w : World) :
    lifetime p e (boots ++ boots') w = lifetime p e boots' (lifetime p e boots w) :=
  List.foldl_append

/-- **The record of a life is a run of the protocol.** -/
theorem lifetime_run (boots : List Nat) (hnew : w.log = []) :
    ∃ phase, Run (Step p e) (machineOf p w) (lifetime p e boots w).log
      ⟨storedOf p (lifetime p e boots w).flash.mem, (lifetime p e boots w).boot, phase⟩ := by
  obtain ⟨phase, -, hfollows⟩ := lifetime_stopped (p := p) (e := e) boots hnew
  exact ⟨phase, hfollows⟩

/-- In the boot after `boots`, iteration `k` calls the completion handler. -/
def FinishCalled (p : Platform) (e : Env) (boots : List Nat) (w : World) (k : Nat) (c : Context)
    (executedOnce : Bool) (w' : World) : Prop :=
  untilFinish p e k (lifetime p e boots w) = .ok (some (c, executedOnce)) w'

/-- In the boot after `boots`, iteration `k` calls the installation. -/
def InstallCalled (p : Platform) (e : Env) (boots : List Nat) (w : World) (k : Nat) (c : Context)
    (w' : World) : Prop :=
  untilInstall p e k (lifetime p e boots w) = .ok (some c) w'

/-- Where the protocol is when the handler is called. -/
theorem FinishCalled.at {boots : List Nat} {k : Nat} {c : Context} {executedOnce : Bool}
    {w' : World} (h : FinishCalled p e boots w k c executedOnce w') (hnew : w.log = []) :
    ∃ metadata refused,
      At p e (machineOf p w) c.settings executedOnce (.refreshed metadata refused) w' ∧
        (refused = false → w'.boot.fallback = none) := by
  obtain ⟨⟨startupEpoch, l⟩, w₁, hboot, hcall⟩ := ok_of_bind h
  obtain ⟨task, hfree, h₁⟩ := (bootUntil_spec k (lifetime_stopped boots hnew)).of_ok hboot
  exact (iterationUntilFinish_spec hfree h₁).of_ok hcall c executedOnce rfl

/-- Where it is when the installation is called. -/
theorem InstallCalled.at {boots : List Nat} {k : Nat} {c : Context} {w' : World}
    (h : InstallCalled p e boots w k c w') (hnew : w.log = []) : ∃ metadata refused,
      At p e (machineOf p w) c.settings true (.refreshed metadata refused) w' ∧
        c.settings.isImagePermanent = !refused := by
  obtain ⟨⟨startupEpoch, l⟩, w₁, hboot, hcall⟩ := ok_of_bind h
  obtain ⟨task, hfree, h₁⟩ := (bootUntil_spec k (lifetime_stopped boots hnew)).of_ok hboot
  exact (iterationUntilInstall_spec hfree h₁).of_ok hcall c rfl

/-- A record starts here, on a device whose image is permanent. -/
structure StartsPermanent (w : World) : Prop where
  new : w.log = []
  fallback : w.boot.fallback = none
  armed : w.boot.armed = none

theorem startsPermanent_factory (v : Version) : StartsPermanent (.factory v) := ⟨rfl, rfl, rfl⟩

/-! ### A life -/

/-- Metadata that offer one image of three bytes to the sample board. -/
def sampleOffer (version sha256 : String) : Json :=
  sampleManifest [("fw", .ofMembers [
    ("custom", .ofMembers [
      ("version", .ofString version),
      ("hardwareIds", .ofElems [.str (aknanoGetBoardName .sample)]),
      ("tags", .ofElems [.ofString "devel"])]),
    ("hashes", .ofMembers [("sha256", .ofString sha256)]),
    ("length", .lit (ascii "3"))])]

/-- The servers answer; they offer version 7 first, and then version 9 with a
hash that no image has. -/
def Env.offering : Env :=
  { Env.sample with
    connects := fun _ _ => true
    reply := fun _ _ => ⟨true, 206, some (ascii "abc"), by decide⟩
    tufRefresh := fun t => ⟨[], tufSuccess, if t < 65 then ascii "7" else ascii "9"⟩
    json := fun text =>
      if text = ascii "7" then some (sampleOffer "7"
        "ba7816bf8f01cfea414140de5dae2223b00361a396177a9cb410ff61f20015ad")
      else if text = ascii "9" then some (sampleOffer "9"
        "aaaaaaaaaaaaaaaaaaaaaaaaaaaaaaaaaaaaaaaaaaaaaaaaaaaaaaaaaaaaaaaa")
      else none }

/-- Version 7 is installed on a new device and never checks in: it is reverted.
The boot after that reports this, and the download of version 9 fails. -/
def offeringLog : List Event :=
  [.loaded true 5 true, .reset .same 5, .installed 9 false true, .downloaded 9 false 7,
    .install ⟨3, 9, ⟨List.replicate 32 0xAA, rfl⟩⟩ 5, .completed true 7 true,
    .refreshed (ascii "9"), .iteration, .loaded true 5 true, .reset (.reverted 7) 5,
    .loaded true 7 false, .reset (.trial 7) 5, .installed 7 true true, .readyForTest 7 true,
    .downloaded 7 true 0, .install ⟨3, 7, sha256Abc⟩ 5, .completed false 0 true,
    .refreshed (ascii "7"), .iteration, .loaded true 5 false, .reset .same 5]

theorem offering_log :
    (lifetime .sample .offering [1, 0, 1, 0] (.factory 5)).log = offeringLog := by
  decide +kernel

end AktualizrNano
