/-
AktualizrNano/Refinement.lean

The code follows the protocol.  `Follows phase w` says that the record of the
world `w` is a run of the protocol that ends in `phase`, with the settings the
flash holds and the state the bootloader is in.  Each function of the agent is
shown to go from such a world to such a world, whether it returns or is cut
short.  This module has the check-in; the loop around it is in `Lifetime`.
-/
import AktualizrNano.Calls
import AktualizrNano.Protocol

namespace AktualizrNano

open CLib NorFlash Outcome Trace

/-! ### The settings sector, abstractly -/

variable (p : Platform)

/-- There is a correlation id. -/
def hasId (id : CharArray aknanoMaxUpdateCorrelationIdLength) : Bool :=
  strnlen id.bytes aknanoMaxUpdateCorrelationIdLength > 0

/-- What a boot reads from these contents, if no read fails. -/
def storedOf (m : Mem) : Stored :=
  let r := checkedFields p (storedFields m)
  ⟨r.lastAppliedVersion, r.lastConfirmedVersion, hasId r.ongoingUpdateCorrelationId⟩

/-- The part of the settings that the protocol is about. -/
def ramOf (s : Settings) (finished : Bool) : Ram where
  running := s.runningVersion
  applied := s.lastAppliedVersion
  confirmed := s.lastConfirmedVersion
  ongoing := hasId s.ongoingUpdateCorrelationId
  rolledBack := s.isRunningRolledBackImage
  finished := finished

variable {p}

theorem hasId_eq (id : CharArray aknanoMaxUpdateCorrelationIdLength) :
    hasId id = decide (id.bytes.headD 0 ≠ 0) := by
  obtain ⟨bytes, hlen⟩ := id
  rcases bytes with - | ⟨b, bs⟩
  · exact absurd hlen (by decide)
  · unfold hasId strnlen
    rw [List.take_succ_cons, List.headD_cons]
    by_cases hb : b = 0
    · rw [List.takeWhile_cons_of_neg (by simp [hb])]
      simp [hb]
    · rw [List.takeWhile_cons_of_pos (by simpa using hb)]
      simpa using hb

theorem storageBytes_congr {m m' : Mem} (h : SameSector m m') (off : Nat) {n : Nat}
    (hfit : off + n ≤ mflashSectorSize) :
    storageBytes m' (aknanoFlashOffStateBase + off) n
      = storageBytes m (aknanoFlashOffStateBase + off) n := by
  have hsec : mflashSectorSize = 4096 := rfl
  have hlo : stateLo = aknanoStorageFlashOffset + aknanoFlashOffStateBase := rfl
  have hhi : stateHi = stateLo + mflashSectorSize := rfl
  exact read_congr fun i hi => h _ (by omega) (by omega)

theorem storedCorrelationId_congr {m m' : Mem} (h : SameSector m m') :
    (storedFields m').ongoingUpdateCorrelationId = (storedFields m).ongoingUpdateCorrelationId := by
  have hid : storageBytes m' aknanoFlashOffOngoingUpdateCorId 100 = _ :=
    storageBytes_congr h 8 (by decide)
  exact congrArg (CharArray.zero aknanoMaxUpdateCorrelationIdLength).store hid

/-- What is read depends on the settings sector only. -/
theorem storedOf_congr {m m' : Mem} (h : SameSector m m') : storedOf p m' = storedOf p m := by
  have happlied : (storedFields m').lastAppliedVersion = (storedFields m).lastAppliedVersion :=
    congrArg (fun bytes => BitVec.ofNat 32 (leNat bytes)) (storageBytes_congr h 0 (by decide))
  have hconfirmed :
      (storedFields m').lastConfirmedVersion = (storedFields m).lastConfirmedVersion :=
    congrArg (fun bytes => BitVec.ofNat 32 (leNat bytes)) (storageBytes_congr h 4 (by decide))
  simp only [storedOf, checkedFields, happlied, hconfirmed, storedCorrelationId_congr h]

/-- A first character that `aknano_init_settings` accepts. -/
def PlainId (id : CharArray aknanoMaxUpdateCorrelationIdLength) : Prop :=
  id.bytes.headD 0 ≤ 0x46

theorem dropInvalidId_of_plain {n : Nat} {id : CharArray n} (h : id.bytes.headD 0 ≤ 0x46) :
    dropInvalidId p id = id := by
  apply if_neg
  rw [charNegative]
  rintro (h' | h')
  · simp only [Bool.and_eq_true, decide_eq_true_eq] at h'
    exact absurd (BitVec.le_trans h'.2 h) (by decide)
  · exact BitVec.not_le.mpr h' (BitVec.le_trans h (by decide))

/-- **What a save stores.** -/
theorem storedOf_written (m : Mem) {s : Settings} (hid : PlainId s.ongoingUpdateCorrelationId)
    (finished : Bool) :
    storedOf p (written mflashSectorSize m stateLo (flashPageBuffer s))
      = (ramOf s finished).stored := by
  obtain ⟨happlied, hconfirmed, hread, -, -⟩ := storedFields_written m s
  have hhead : (storedFields (written mflashSectorSize m stateLo
      (flashPageBuffer s))).ongoingUpdateCorrelationId.bytes.headD 0
      = s.ongoingUpdateCorrelationId.bytes.headD 0 := by
    rw [hread]
    rcases hb : s.ongoingUpdateCorrelationId.bytes with - | ⟨b, bs⟩
    · have hlen := s.ongoingUpdateCorrelationId.length_eq
      rw [hb] at hlen
      exact absurd hlen (by decide)
    · rfl
  have hkept := dropInvalidId_of_plain (p := p) (hhead.trans_le hid)
  rw [storedOf, checkedFields]
  dsimp only
  rw [hkept, happlied, hconfirmed, hasId_eq, hhead, ← hasId_eq]
  rfl

/-! ### Worlds that follow the protocol -/

section Follows

variable (p) (e : Env) (m₀ : Machine)

/-- The record is a run of the protocol that has come to this phase. -/
def Follows (phase : Phase) (w : World) : Prop :=
  Run (Step p e) m₀ w.log ⟨storedOf p w.flash.mem, w.boot, phase⟩

/-- A reset can come now. -/
def Stopped (w : World) : Prop := ∃ phase : Phase, phase.Free ∧ Follows p e m₀ phase w

/-- Somewhere in an iteration, the settings sector perhaps half written. -/
def Interrupted (activity : Activity) (w : World) : Prop :=
  ∃ s ram task, task.Busy w.boot activity ∧ Run (Step p e) m₀ w.log ⟨s, w.boot, .awake ram task⟩

/-- What the loop relies on besides what the protocol sees. -/
structure Fit (b : Boot) (s : Settings) : Prop where
  hwid : s.hwid = some (aknanoGetBoardName p)
  retryCount : s.rollbackRetryCount.slt 0 = false
  permanent : s.isImagePermanent = true → b.fallback = none
  selfTest : s.applicationSelfTestOk = true

/-- The agent is running with these settings and has come to this task. -/
structure At (s : Settings) (finished : Bool) (task : Task) (w : World) : Prop where
  follows : Follows p e m₀ (.awake (ramOf s finished) task) w
  fit : Fit p w.boot s

end Follows

variable {e : Env} {m₀ : Machine} {phase : Phase} {s : Settings} {finished : Bool} {task : Task}
variable {w w' : World}

theorem Follows.quiet (h : Follows p e m₀ phase w) (hq : Quiet w w') :
    Follows p e m₀ phase w' := by
  rw [Follows, hq.log, hq.boot, storedOf_congr hq.sector]
  exact h

/-- One event. -/
theorem Follows.next {phase' : Phase} {ev : Event} (h : Follows p e m₀ phase w)
    (hlog : w'.log = ev :: w.log)
    (hstep : Step p e ⟨storedOf p w.flash.mem, w.boot, phase⟩ ev
      ⟨storedOf p w'.flash.mem, w'.boot, phase'⟩) : Follows p e m₀ phase' w' := by
  rw [Follows, hlog]
  exact Run.next h hstep

theorem At.quiet (h : At p e m₀ s finished task w) (hq : Quiet w w') :
    At p e m₀ s finished task w' := ⟨h.follows.quiet hq, hq.boot ▸ h.fit⟩

theorem At.stopped (h : At p e m₀ s finished task w) (hfree : task.Free) : Stopped p e m₀ w :=
  ⟨.awake _ task, hfree, h.follows⟩

theorem At.interrupted {activity : Activity} (h : At p e m₀ s finished task w)
    (hbusy : task.Busy w.boot activity) : Interrupted p e m₀ activity w :=
  ⟨_, _, _, hbusy, h.follows⟩

/-- A quiet program between two points of an iteration. -/
theorem At.bind {α β : Type} {x : M α} {f : α → M β} {Q : β → World → Prop}
    {E : World → Prop} (h : At p e m₀ s finished task w) (hx : Keeps Quiet x)
    (hf : ∀ a w', At p e m₀ s finished task w' → wp (f a) Q (fun _ => E) w')
    (hE : ∀ w', At p e m₀ s finished task w' → E w') : wp (x >>= f) Q (fun _ => E) w :=
  hx.wp_bind (fun a w' hq => hf a w' (h.quiet hq)) fun _ w' hq => hE w' (h.quiet hq)

theorem At.quiet_bind {α β : Type} {x : M α} {f : α → M β} {Q : β → World → Prop}
    (h : At p e m₀ s finished task w) (hfree : task.Free) (hx : Keeps Quiet x)
    (hf : ∀ a w', At p e m₀ s finished task w' → wp (f a) Q (fun _ => Stopped p e m₀) w') :
    wp (x >>= f) Q (fun _ => Stopped p e m₀) w :=
  h.bind hx hf fun _ h' => h'.stopped hfree

theorem wp_emit {ev : Event} {Q : Unit → World → Prop} {E : Halt → World → Prop} :
    wp (emit ev) Q E w ↔ Q () { w with log := ev :: w.log } := wp_modify

/-- Power lost while settings are written, or in an installation. -/
theorem Interrupted.cut {activity : Activity} (h : Interrupted p e m₀ activity w) :
    Stopped p e m₀ { w with log := .cut activity :: w.log } := by
  obtain ⟨s, ram, task, hbusy, hrun⟩ := h
  exact ⟨.off, trivial, Run.next hrun (.cut hbusy)⟩

/-! ### The check-in -/

/-- Only what the server may configure has changed. -/
def Reconfigured (s s' : Settings) : Prop :=
  ∃ tag pollingInterval, s' = { s with tag := tag, pollingInterval := pollingInterval }

theorem Reconfigured.at {s' : Settings} (hs : Reconfigured s s')
    (h : At p e m₀ s finished task w) : At p e m₀ s' finished task w := by
  obtain ⟨tag, n, rfl⟩ := hs
  exact ⟨h.follows, h.fit.hwid, h.fit.retryCount, h.fit.permanent, h.fit.selfTest⟩

theorem Reconfigured.refl (s : Settings) : Reconfigured s s := ⟨s.tag, s.pollingInterval, rfl⟩

theorem Reconfigured.trans {s' s'' : Settings} (h : Reconfigured s s')
    (h' : Reconfigured s' s'') : Reconfigured s s'' := by
  obtain ⟨tag, n, rfl⟩ := h
  obtain ⟨tag', n', rfl⟩ := h'
  exact ⟨tag', n', rfl⟩

theorem tomlHandler_reconfigures {line : List Byte × List Byte × List Byte} {s' : Settings}
    (h : tomlHandler s line = some s') : Reconfigured s s' := by
  unfold tomlHandler at h
  dsimp only at h
  split at h
  · split at h
    · cases h
    · split at h
      · cases h
        exact ⟨_, _, rfl⟩
      · cases h
        exact Reconfigured.refl s
  · cases h
    exact Reconfigured.refl s

theorem tomlLines_reconfigure {lines : List (List Byte × List Byte × List Byte)}
    {s s' : Settings}
    (h : lines.foldlM tomlHandler s = some s') : Reconfigured s s' := by
  induction lines generalizing s with
  | nil =>
    cases h
    exact Reconfigured.refl _
  | cons line lines ih =>
    rw [List.foldlM_cons] at h
    obtain ⟨s₁, hline, hlines⟩ := Option.bind_eq_some_iff.mp h
    exact (tomlHandler_reconfigures hline).trans (ih hlines)

theorem parseConfig_reconfigures {configData : Option Json} {s s' : Settings}
    (h : parseConfig p configData s = some s') : Reconfigured s s' := by
  rcases configData with - | doc
  · cases h
    exact Reconfigured.refl s
  · obtain ⟨s₁, htoml, rfl⟩ := Option.map_eq_some_iff.mp h
    have htoml' : Reconfigured s s₁ := by
      unfold parseToml at htoml
      split at htoml
      · cases htoml
        exact Reconfigured.refl s
      · split at htoml
        · exact tomlLines_reconfigure htoml
        · cases htoml
          exact Reconfigured.refl s
    apply htoml'.trans
    unfold parsePollingInterval
    split
    · exact Reconfigured.refl s₁
    · split
      · exact Reconfigured.refl s₁
      · exact ⟨_, _, rfl⟩

/-- Fetching the configuration is quiet, and changes only what it configures. -/
theorem fetchConfig_spec (h : At p e m₀ s finished task w) (hfree : task.Free) :
    wp (fetchConfig p e s) (fun s' w' => At p e m₀ s' finished task w')
      (fun _ => Stopped p e m₀) w := by
  refine h.quiet_bind hfree (quiet_sendHttpRequest _ _ _ _) fun reply w₁ h₁ => ?_
  split
  · split
    · next hparse => exact (wp_pure _).mpr ((parseConfig_reconfigures hparse).at h₁)
    · exact (wp_throw _).mpr (h₁.stopped hfree)
  · exact (wp_pure _).mpr h₁

theorem quiet_onFlash_roles {α : Type} {x : FlashM α}
    (h : ∀ f, wp x (fun _ f' => SameOutside tufRolesLo tufRolesHi f.mem f'.mem)
      (fun _ f' => SameOutside tufRolesLo tufRolesHi f.mem f'.mem) f) :
    Keeps Quiet (onFlash x) := by
  intro w
  have hquiet : ∀ f' : Flash, SameOutside tufRolesLo tufRolesHi w.flash.mem f'.mem →
      Quiet w { w with flash := f' } := fun f' hout =>
    ⟨rfl, rfl, sameSector_of_sameOutside hout (Or.inr (by decide))⟩
  rw [onFlash, wp_zoom]
  exact wp_mono (h w.flash) (fun _ f' hout => hquiet f' hout) fun _ f' hout => hquiet f' hout

theorem quiet_tufCallback (s : Settings) (call : TufCall) :
    Keeps Quiet (tufCallback p e s call) := by
  cases call with
  | fetch fileBaseName targetBufferLen =>
    refine ((quiet_sendHttpRequest _ _ _ _).bind fun _ => ?_).bind fun _ => .pure Quiet.refl _
    exact .pure Quiet.refl _
  | read role targetBuffer hfits =>
    refine (quiet_onFlash_roles fun f => ?_).bind fun _ => .pure Quiet.refl _
    exact wp_mono (readLocalFile_spec role hfits f) (fun _ _ h => h.1.roles) fun _ _ h => h.1.roles
  | write role data hfits =>
    refine (quiet_onFlash_roles fun f => ?_).bind fun _ => .pure Quiet.refl _
    exact wp_mono (writeLocalFile_spec role hfits f) (fun _ _ h => h.1.roles) fun _ _ h => h.1.roles

/-- Whatever the library does with its callbacks, the settings stay. -/
theorem tufRefresh_spec (s : Settings) (w : World) :
    wp (tufRefresh p e s)
      (fun r w' => Quiet w w' ∧ (r.1 = tufSuccess → Refreshed e (r.2.takeWhile (· ≠ 0))))
      (fun _ w' => Quiet w w') w := by
  have hcalls : ∀ calls, Keeps Quiet (tufCallbacks p e s calls) := by
    intro calls
    induction calls with
    | nil => exact .pure Quiet.refl _
    | cons call calls ih => exact (quiet_tufCallback s call).bind fun _ => ih
  refine still_tick.wp_bind (fun t w₁ h₁ => ?_) fun _ _ hE => hE.quiet
  refine (hcalls _).wp_bind (fun _ w₂ h₂ => ?_) fun _ _ hE => Trans.trans h₁.quiet hE
  exact (wp_pure _).mpr ⟨Trans.trans h₁.quiet h₂, fun hok => ⟨t, hok, rfl⟩⟩

/-- `bl_update_image_state` does what it reports. -/
theorem blUpdateImageState_spec (update : Boot → Boot) (w : World) :
    wp (blUpdateImageState e update)
      (fun status w' => w' = { w with
        tick := w'.tick, boot := if status = 0 then update w.boot else w.boot })
      (fun _ w' => Still w w') w := by
  refine still_tick.wp_bind (fun t w₁ h₁ => ?_) fun _ _ h => h
  dsimp only
  split
  · next hok =>
    rw [wp_bind, wp_modify, wp_pure, if_pos hok, h₁]
  · next hfail =>
    rw [wp_pure, if_neg hfail]
    exact h₁

/-- Confirming the image, when it is on trial. -/
theorem setImageConfirmed_spec {metadata : List Byte}
    (h : At p e m₀ s finished (.refreshed metadata false) w) :
    wp (aknanoSetImageConfirmed e s.isImagePermanent)
      (fun r w' => ∃ refused,
        At p e m₀ { s with isImagePermanent := r } finished (.refreshed metadata refused) w' ∧
          (refused = false → w'.boot.fallback = none) ∧ r = !refused)
      (fun _ => Stopped p e m₀) w := by
  unfold aknanoSetImageConfirmed
  split
  · next hperm =>
    rw [wp_pure]
    refine ⟨false, ?_, fun _ => h.fit.permanent hperm, rfl⟩
    rw [← hperm]
    exact h
  · rw [wp_bind, wp_get, wp_bind]
    refine wp_mono (blUpdateImageState_spec Boot.confirm w) ?_ fun _ _ hstill =>
      (h.quiet hstill.quiet).stopped trivial
    intro status w₁ h₁
    rw [wp_bind, wp_get, wp_bind, wp_emit, wp_pure]
    refine ⟨!decide (status = 0), ⟨h.follows.next (by rw [h₁]) ?_, ?_⟩, ?_, (Bool.not_not _).symm⟩
    · rw [h₁]
      apply Step.confirmed
      by_cases hok : status = 0 <;> simp [hok]
    · refine ⟨h.fit.hwid, h.fit.retryCount, fun hok => ?_, h.fit.selfTest⟩
      rw [h₁]
      dsimp only at hok ⊢
      rw [if_pos (of_decide_eq_true hok)]
      rfl
    · intro hok
      rw [h₁]
      dsimp only
      rw [if_pos (by simpa using hok)]
      rfl

/-- A save stores what is in RAM, or something else; nothing but the flash
changes. -/
theorem saveSettings_spec (hid : PlainId s.ongoingUpdateCorrelationId) (finished : Bool)
    (w : World) :
    wp (onFlash (aknanoUpdateSettingsInFlash e.faults s))
      (fun ret w' => w'.boot = w.boot ∧ w'.log = w.log ∧
        (ret = 0 → storedOf p w'.flash.mem = (ramOf s finished).stored))
      (fun _ w' => w'.boot = w.boot ∧ w'.log = w.log) w := by
  rw [onFlash, wp_zoom]
  refine wp_mono (updateSettings_spec s w.flash) ?_ fun _ _ _ => ⟨rfl, rfl⟩
  rintro ret f ⟨-, hok, -⟩
  refine ⟨rfl, rfl, fun hret => ?_⟩
  dsimp only
  rw [hok hret]
  exact storedOf_written w.flash.mem hid finished

theorem Interrupted.of_save {activity : Activity} (h : At p e m₀ s finished task w)
    (hbusy : task.Busy w.boot activity) (hboot : w'.boot = w.boot) (hlog : w'.log = w.log) :
    Interrupted p e m₀ activity w' := by
  rw [Interrupted, hboot, hlog]
  exact h.interrupted hbusy

theorem endOfUpdate_rolledBack (s : Settings) :
    (endOfUpdate s).isRunningRolledBackImage = s.isRunningRolledBackImage := by
  unfold endOfUpdate
  dsimp only
  split <;> rfl

theorem endOfUpdate_permanent (s : Settings) :
    (endOfUpdate s).isImagePermanent = s.isImagePermanent := by
  unfold endOfUpdate
  dsimp only
  split <;> rfl

theorem ramOf_endOfUpdate (s : Settings)
    (id : CharArray aknanoMaxUpdateCorrelationIdLength) :
    ramOf (endOfUpdate { s with ongoingUpdateCorrelationId := id }) true
      = (ramOf s false).completed := by
  have hid : hasId (.zero _) = false := by decide
  unfold endOfUpdate Ram.completed ramOf
  rcases s.isRunningRolledBackImage with - | - <;> simp [hid]

theorem Fit.endOfUpdate {b : Boot} (h : Fit p b s)
    (id : CharArray aknanoMaxUpdateCorrelationIdLength) :
    Fit p b (endOfUpdate { s with ongoingUpdateCorrelationId := id }) := by
  have hcount := h.retryCount
  unfold AktualizrNano.endOfUpdate
  dsimp only
  split
  · exact ⟨h.hwid, rfl, h.permanent, h.selfTest⟩
  · exact ⟨h.hwid, hcount, h.permanent, h.selfTest⟩

/-- **The completion handler.** -/
theorem sendInstallationFinishedEvent_spec {metadata : List Byte} {refused : Bool}
    (h : At p e m₀ s finished (.refreshed metadata refused) w)
    (hperm : refused = false → w.boot.fallback = none) :
    wp (aknanoSendInstallationFinishedEvent p e s finished)
      (fun r w' => r.2 = true ∧ At p e m₀ r.1 true (.refreshed metadata refused) w' ∧
        w'.boot = w.boot ∧ r.1.isImagePermanent = s.isImagePermanent)
      (fun _ => Stopped p e m₀) w := by
  unfold aknanoSendInstallationFinishedEvent
  by_cases hfinished : finished = true
  · rw [if_pos hfinished, wp_pure]
    exact ⟨hfinished, hfinished ▸ h, rfl, rfl⟩
  rw [if_neg hfinished]
  replace hfinished : finished = false := by simpa using hfinished
  subst hfinished
  dsimp only
  by_cases hsettled :
      ¬ s.isRunningRolledBackImage = true ∧ s.lastConfirmedVersion = s.runningVersion
  · rw [if_pos hsettled, wp_bind, wp_emit, wp_pure]
    refine ⟨rfl, ⟨h.follows.next rfl ?_, h.fit⟩, rfl, rfl⟩
    exact Step.settled hperm rfl (Bool.eq_false_iff.mpr hsettled.1) hsettled.2
  -- there is something to report: it is forgotten, and the rest is saved
  · rw [if_neg hsettled, wp_bind]
    refine wp_mono (aknanoSendEvent_spec ..) ?_ fun _ _ hq => (h.quiet hq).stopped trivial
    rintro ⟨sent, s₁⟩ w₁ ⟨hq, id, hs₁, -⟩
    dsimp only at hs₁ ⊢
    subst hs₁
    have h₁ := h.quiet hq
    have hram := ramOf_endOfUpdate s id
    have hplain : PlainId (.zero _) := by unfold PlainId; decide
    rw [wp_bind, during, wp_onError]
    refine wp_mono (saveSettings_spec (p := p) hplain true w₁) ?_ ?_
    · rintro ret w₂ ⟨hboot, hlog, hsaved⟩
      rw [wp_bind, wp_emit, wp_pure]
      refine ⟨rfl, ⟨h₁.follows.next (by rw [hlog]) ?_, ?_⟩, hboot.trans hq.boot,
        endOfUpdate_permanent _⟩
      · dsimp only
        rw [hram, hboot, endOfUpdate_rolledBack]
        refine Step.completed (fun hr => (congrArg Boot.fallback hq.boot).trans (hperm hr)) rfl ?_
          fun hok => ?_
        · by_cases hrolled : s.isRunningRolledBackImage = true
          · exact Or.inl hrolled
          · exact Or.inr fun hreported => hsettled ⟨hrolled, hreported⟩
        · rw [hsaved (of_decide_eq_true hok), hram]
      · exact hboot ▸ h₁.fit.endOfUpdate id
    · rintro halt w₂ ⟨hboot, hlog⟩
      have hbusy : (Task.refreshed metadata refused).Busy w₁.boot .saving := fun hr =>
        (congrArg Boot.fallback hq.boot).trans (hperm hr)
      exact (Interrupted.of_save h₁ hbusy hboot hlog).cut

/-- **The check-in, up to the completion handler.** -/
theorem checkinUntilFinish_spec (h : At p e m₀ s finished .checking w) :
    wp (checkinUntilFinish p e (aknanoInitContext s))
      (fun r w' => if r.2.1 then r.1 = tufSuccess ∧ ∃ metadata refused,
          At p e m₀ r.2.2.settings finished (.refreshed metadata refused) w' ∧
          (refused = false → w'.boot.fallback = none) ∧
          r.2.2.settings.isImagePermanent = !refused ∧
          (r.2.2.selectedTarget.version ≠ 0 → Offered p e metadata r.2.2.selectedTarget)
        else r.1 ≠ tufSuccess ∧ At p e m₀ r.2.2.settings finished .checking w')
      (fun _ => Stopped p e m₀) w := by
  unfold checkinUntilFinish
  have hfree : Task.Free .checking := trivial
  -- up to the refresh the protocol sees nothing
  refine h.quiet_bind hfree ((still_mtlsConnect _).mono fun _ _ => Still.quiet)
    fun connected w₁ h₁ => ?_
  split
  · rw [wp_bind]
    refine wp_mono (fetchConfig_spec h₁ hfree) ?_ fun _ _ hE => hE
    intro s₂ w₂ h₂
    refine h₂.quiet_bind hfree (quiet_sendHttpRequest _ _ _ _) fun _ w₃ h₃ => ?_
    refine h₃.quiet_bind hfree (quiet_sendHttpRequest _ _ _ _) fun _ w₄ h₄ => ?_
    refine h₄.quiet_bind hfree (quiet_sendHttpRequest _ _ _ _) fun _ w₅ h₅ => ?_
    refine h₅.quiet_bind hfree (still_currentEpoch.mono fun _ _ => Still.quiet)
      fun _ w₆ h₆ => ?_
    rw [wp_bind]
    refine wp_mono (tufRefresh_spec s₂ w₆) ?_ fun _ _ hq => (h₆.quiet hq).stopped hfree
    rintro ⟨tufRet, userBuffer⟩ w₇ ⟨hq, hfresh⟩
    have h₇ := h₆.quiet hq
    dsimp only at hfresh ⊢
    by_cases hok : tufRet = tufSuccess
    · rw [if_pos hok]
      replace hfresh := hfresh hok
      generalize userBuffer.takeWhile (· ≠ 0) = metadata at hfresh ⊢
      rw [wp_bind, wp_emit]
      have h₈ : At p e m₀ s₂ finished (.refreshed metadata false)
          { w₇ with log := .refreshed metadata :: w₇.log } :=
        ⟨h₇.follows.next rfl (.refreshed hfresh), h₇.fit⟩
      generalize htarget : parseTargetsMetadata p.overflow (e.json metadata) s₂.hwid s₂.tag.str
        (aknanoInitContext s).selectedTarget = parsed
      rw [h₇.fit.hwid] at htarget
      have hoffered : parsed.2.version ≠ 0 → Offered p e metadata parsed.2 := by
        intro hne
        exact ⟨s₂.tag.str, congrArg Prod.snd htarget.symm, hne⟩
      rw [if_pos h₇.fit.selfTest, wp_bind]
      refine wp_mono (setImageConfirmed_spec h₈) ?_ fun _ _ hE => hE
      rintro permanent w₉ ⟨refused, h₉, hperm, hrefused⟩
      rw [wp_pure, if_pos rfl]
      exact ⟨hok, metadata, refused, h₉, hperm, hrefused, hoffered⟩
    · rw [if_neg hok, wp_pure, if_neg Bool.false_ne_true]
      exact ⟨hok, h₇⟩
  · rw [wp_pure, if_neg Bool.false_ne_true]
    exact ⟨show (-10 : Int) ≠ 0 by decide, h₁⟩

/-- **The check-in.** -/
theorem checkin_spec (h : At p e m₀ s finished .checking w) :
    wp (aknanoCheckin p e (aknanoInitContext s) finished)
      (fun r w' => ∃ task : Task, task.Free ∧ At p e m₀ r.2.1.settings r.2.2 task w' ∧
        (r.1 = 0 → r.2.2 = true ∧ ∃ metadata refused, task = .refreshed metadata refused ∧
          (refused = false → w'.boot.fallback = none) ∧
          r.2.1.settings.isImagePermanent = !refused ∧
          (r.2.1.selectedTarget.version ≠ 0 →
            Offered p e metadata r.2.1.selectedTarget)))
      (fun _ => Stopped p e m₀) w := by
  rw [aknanoCheckin_eq, wp_bind]
  refine wp_mono (checkinUntilFinish_spec h) ?_ fun _ _ hE => hE
  rintro ⟨tufRet, finishes, c⟩ w₁ h₁
  rw [checkinFromFinish]
  cases finishes with
  | false =>
    obtain ⟨hfailed, h₁⟩ := h₁
    rw [if_neg Bool.false_ne_true, wp_bind, wp_pure]
    refine h₁.quiet_bind trivial (still_mtlsDisconnect.mono fun _ _ => Still.quiet)
      fun _ w₂ h₂ => ?_
    exact (wp_pure _).mpr ⟨.checking, trivial, h₂, fun h0 => absurd h0 hfailed⟩
  | true =>
    obtain ⟨-, metadata, refused, h₁, hperm, hpermanent, hoffered⟩ := h₁
    rw [if_pos rfl, wp_bind]
    refine wp_mono (sendInstallationFinishedEvent_spec h₁ hperm) ?_ fun _ _ hE => hE
    rintro ⟨s₂, finished₂⟩ w₂ ⟨hfinished, h₂, hboot, hsame⟩
    rw [wp_bind, wp_pure]
    refine still_mtlsDisconnect.wp_bind (fun _ w₃ hstill => ?_) fun _ _ hstill =>
      (h₂.quiet hstill.quiet).stopped trivial
    have hboot₃ : w₃.boot = w₁.boot := hstill.quiet.boot.trans hboot
    refine (wp_pure _).mpr ⟨.refreshed metadata refused, trivial, ?_, fun _ => ⟨hfinished,
      metadata, refused, rfl, fun hr => hboot₃ ▸ hperm hr, hsame.trans hpermanent, hoffered⟩⟩
    exact hfinished ▸ h₂.quiet hstill.quiet

end AktualizrNano
