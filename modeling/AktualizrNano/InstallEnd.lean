/-
AktualizrNano/InstallEnd.lean

What `aknano_install_selected_target` leaves behind, for any context: the
settings it returns and saves, and what it puts on record
(`installSelectedTarget_end`).

Two consequences.  An installation that fails leaves the rollback state alone,
unless the bootloader refuses the image: the version is noted before it is
asked (`failedInstall_keeps_iff`).  And the versions that survive a save are
those up to 999999999, while the manifest may offer any (`versionRange_iff`).
-/
import AktualizrNano.Lifetime

namespace AktualizrNano

open CLib NorFlash Outcome

variable {p : Platform} {e : Env}

/-! ### The end of an installation -/

/-- The bytes of the settings stand in their sector. -/
def Saves (m : Mem) (s : Settings) : Prop :=
  ∃ m₀, m = written mflashSectorSize m₀ stateLo (flashPageBuffer s)

/-- How an installation that returned has ended: `ok` says whether the image was
downloaded, `r` what was returned. -/
structure InstallEnd (p : Platform) (e : Env) (c : Context) (w : World) (ok saved : Bool)
    (r : Bool × Settings) (w' : World) : Prop where
  settings : ∃ id count time, r.2 = { c.settings with
    ongoingUpdateCorrelationId := id
    lastAppliedVersion :=
      if ok then c.selectedTarget.version else c.settings.lastAppliedVersion
    rollbackRetryCount := count
    rollbackNextRetryTime := time }
  newId : NewId r.2
  generated : r.2.ongoingUpdateCorrelationId.str
    = serialStringToUuidString (btox (e.random w.tick 16).bytes (16 * 2))
  events : TimeFits p → Sends (EventCarries r.2.ongoingUpdateCorrelationId.str) w w'
  failed : r.1 = false → r.2.rollbackRetryCount = c.settings.rollbackRetryCount ∧
    r.2.rollbackNextRetryTime = c.settings.rollbackNextRetryTime
  notArmed : ok = false → r.1 = false
  log : w'.log = .installed c.selectedTarget.version r.1 saved ::
    ((if ok then [.readyForTest c.selectedTarget.version r.1] else []) ++
      .downloaded c.selectedTarget.version ok c.settings.lastAppliedVersion ::
      .install c.selectedTarget c.settings.runningVersion :: w.log)
  stored : saved = true → Saves w'.flash.mem r.2

/-- An event that is sent in an installation leaves the settings alone. -/
theorem sendEvent_newId {s : Settings} (hid : NewId s) (eventType : EventType)
    (newVersion : Version) (success : Bool) (w : World) :
    wp (aknanoSendEvent p e s eventType newVersion success)
      (fun r w' => r.2 = s ∧ Quiet w w' ∧
        (TimeFits p → Sends (EventCarries s.ongoingUpdateCorrelationId.str) w w'))
      (fun _ _ => True) w := by
  have hthere := of_decide_eq_true hid.there
  by_cases htime : TimeFits p
  · refine wp_mono (wp_and (aknanoSendEvent_spec s eventType newVersion success w)
      (sendEvent_carries htime hthere eventType newVersion success w)) ?_ fun _ _ _ => trivial
    rintro r w' ⟨⟨hq, hfills⟩, hsends⟩
    exact ⟨hfills.eq hthere, hq, fun _ => hsends⟩
  · refine wp_mono (aknanoSendEvent_spec s eventType newVersion success w) ?_
      fun _ _ _ => trivial
    rintro r w' ⟨hq, hfills⟩
    exact ⟨hfills.eq hthere, hq, fun h => absurd h htime⟩

/-- After the download: the version is noted, then the bootloader is asked. -/
theorem applyTarget_end {s : Settings} (hid : NewId s) (version : Version) (w : World) :
    wp (applyTarget p e s version)
      (fun r w' => r.2 = { s with lastAppliedVersion := version } ∧
        w'.log = .readyForTest version r.1 :: w.log ∧
        (TimeFits p → Sends (EventCarries s.ongoingUpdateCorrelationId.str) w w'))
      (fun _ _ => True) w := by
  rw [applyTarget, wp_bind]
  refine wp_mono (sendEvent_newId hid ..) ?_ fun _ _ _ => trivial
  rintro ⟨sent₁, s₁⟩ w₁ ⟨hs₁, hq₁, hsends₁⟩
  obtain rfl : s₁ = s := hs₁
  rw [wp_bind]
  refine wp_mono (sendEvent_newId hid ..) ?_ fun _ _ _ => trivial
  rintro ⟨sent₂, s₂⟩ w₂ ⟨hs₂, hq₂, hsends₂⟩
  obtain rfl : s₂ = s₁ := hs₂
  have hid' : NewId { s₂ with lastAppliedVersion := version } := ⟨hid.there, hid.plain⟩
  dsimp only
  rw [wp_bind]
  refine wp_mono (sendEvent_newId hid' ..) ?_ fun _ _ _ => trivial
  rintro ⟨sent₃, s₃⟩ w₃ ⟨hs₃, hq₃, hsends₃⟩
  dsimp only at hs₃ ⊢
  rw [aknanoSetImageReadyForTest, wp_bind]
  refine wp_mono (blUpdateImageState_spec Boot.arm w₃) ?_ fun _ _ _ => trivial
  intro status w₄ h₄
  rw [wp_bind, wp_emit, wp_pure]
  refine ⟨hs₃, ?_, fun htime => ?_⟩
  · rw [h₄]
    dsimp only
    rw [hq₃.log, hq₂.log, hq₁.log]
  · have hlast : Sends (EventCarries s₂.ongoingUpdateCorrelationId.str) w₃
        { w₄ with log := .readyForTest version (decide (status = 0)) :: w₄.log } := by
      rw [h₄]
      exact .of_eq rfl
    exact (hsends₁ htime).trans ((hsends₂ htime).trans ((hsends₃ htime).trans hlast))

/-- The rest of an installation, from the result of the download on. -/
theorem closeInstallation_end {c : Context} {s : Settings} {w w₁ : World} (ok : Bool)
    {armed : Bool} {id : CharArray aknanoMaxUpdateCorrelationIdLength}
    (hs : s = { c.settings with
      ongoingUpdateCorrelationId := id
      lastAppliedVersion :=
        if ok then c.selectedTarget.version else c.settings.lastAppliedVersion })
    (hid : NewId s)
    (hgenerated : id.str = serialStringToUuidString (btox (e.random w.tick 16).bytes (16 * 2)))
    (hsends : TimeFits p → Sends (EventCarries id.str) w w₁)
    (hnotArmed : ok = false → armed = false)
    (hlog : w₁.log = (if ok then [.readyForTest c.selectedTarget.version armed] else []) ++
      .downloaded c.selectedTarget.version ok c.settings.lastAppliedVersion ::
      .install c.selectedTarget c.settings.runningVersion :: w.log) :
    wp (do let s ← scheduleRetry e armed s
           let ret ← onFlash (aknanoUpdateSettingsInFlash e.faults s)
           emit (.installed c.selectedTarget.version armed (ret = 0))
           pure (armed, s))
      (fun r w' => ∃ saved, InstallEnd p e c w ok saved r w') (fun _ _ => True) w₁ := by
  rw [wp_bind]
  refine wp_mono (scheduleRetry_spec armed s w₁) ?_ fun _ _ _ => trivial
  rintro s₂ w₂ ⟨hstill, hsame, count, time, hs₂⟩
  rw [wp_bind, onFlash, wp_zoom]
  refine wp_mono (updateSettings_spec s₂ w₂.flash) ?_ fun _ _ _ => trivial
  rintro ret f ⟨-, hwritten, -⟩
  rw [wp_bind, wp_emit, wp_pure]
  have hsent : s₂.ongoingUpdateCorrelationId = id := by
    rw [hs₂, hs]
  refine ⟨decide (ret = 0), ⟨id, count, time, ?_⟩, ?_, ?_, ?_, ?_, hnotArmed, ?_, ?_⟩
  · rw [hs₂, hs]
  · rw [hs₂]
    exact ⟨hid.there, hid.plain⟩
  · dsimp only
    rw [hsent]
    exact hgenerated
  · intro htime
    dsimp only
    rw [hsent]
    exact (hsends htime).trans (hstill.sends.trans (.of_eq rfl))
  · intro hfailed
    rw [hsame hfailed, hs]
    exact ⟨rfl, rfl⟩
  · dsimp only
    rw [hstill.quiet.log, hlog]
  · exact fun hsaved => ⟨w₂.flash.mem, hwritten (of_decide_eq_true hsaved)⟩

/-- A generated id is accepted by the next boot, and reads as the uuid. -/
theorem newId_of_generated (s : Settings) (id : CharArray aknanoMaxUpdateCorrelationIdLength)
    (bb : List Byte) :
    NewId { s with
      ongoingUpdateCorrelationId := id.store (serialStringToUuidString (btox bb (16 * 2)) ++ [0]) } ∧
    (id.store (serialStringToUuidString (btox bb (16 * 2)) ++ [0])).str
      = serialStringToUuidString (btox bb (16 * 2)) := by
  obtain ⟨hlen, hchars⟩ := uuidString_chars bb
  obtain ⟨d, ds, hhead, hlo, hhi⟩ := uuidString_head bb
  constructor
  · refine NewId.of_uuid s id ?_ (show _ = d :: (ds ++ [0]) from ?_) hlo hhi
    · rw [List.length_append, hlen]
      rfl
    · rw [hhead]
      rfl
  · refine CharArray.str_store (fun b hb => ?_) (by rw [hlen]; decide)
    rintro rfl
    exact absurd (hchars 0 hb).1 (by decide)

/-- A download is no event. -/
theorem not_event_get {id : List Byte} {x : Exchange} (h : x.request.method = ascii "GET") :
    EventCarries id x := by
  rintro ⟨hpost, -⟩
  rw [h] at hpost
  exact absurd hpost (by decide)

/-- **The end of an installation.** -/
theorem installSelectedTarget_end (c : Context) (w : World) :
    wp (aknanoInstallSelectedTarget p e c)
      (fun r w' => ∃ ok saved, InstallEnd p e c w ok saved r w') (fun _ _ => True) w := by
  obtain ⟨s, target⟩ := c
  rw [aknanoInstallSelectedTarget, wp_bind, wp_emit, during, wp_onError]
  dsimp only
  rw [wp_bind]
  refine wp_mono (genSerialAndUuid_eq _) ?_ fun _ _ _ => trivial
  rintro ⟨uuid, unusedSerial⟩ w₁ ⟨hstill, huuid⟩
  obtain ⟨rfl, -⟩ := Prod.mk.inj huuid
  obtain ⟨hid, hgenerated⟩ := newId_of_generated s s.ongoingUpdateCorrelationId
    (e.random w.tick 16).bytes
  have hlog₁ : w₁.log = .install target s.runningVersion :: w.log := hstill.quiet.log
  dsimp only
  generalize s.ongoingUpdateCorrelationId.store _ = id at hid hgenerated ⊢
  have hsends₁ : Sends (EventCarries id.str) w w₁ := by
    rw [hstill]
    exact .of_eq rfl
  rw [wp_bind]
  refine wp_mono (sendEvent_newId hid ..) ?_ fun _ _ _ => trivial
  rintro ⟨sent, s₂⟩ w₂ ⟨hs₂, hq₂, hsends₂⟩
  obtain rfl : s₂ = _ := hs₂
  have hdownload : ∀ imagePosition, Keeps (Sends (EventCarries id.str))
      (aknanoDownloadAndFlashImage p e imagePosition target) := fun imagePosition =>
    sends_downloadAndFlashImage (fun _ _ _ _ => not_event_get rfl) imagePosition target
  rw [wp_bind]
  refine wp_mono (wp_and (quiet_downloadAndFlashImage _ _ w₂) (hdownload _ w₂)) ?_
    fun _ _ _ => trivial
  rintro ok w₃ ⟨hq₃, hsends₃⟩
  have hsends₀₃ : TimeFits p → Sends (EventCarries id.str) w w₃ := fun htime =>
    hsends₁.trans ((hsends₂ htime).trans hsends₃)
  rw [wp_bind, noteDownload, wp_modify]
  have hlog₃ : w₃.log = .install target s.runningVersion :: w.log := by
    rw [hq₃.log, hq₂.log, hlog₁]
  cases ok with
  | true =>
    rw [if_pos rfl, wp_bind]
    refine wp_mono (applyTarget_end hid target.version _) ?_ fun _ _ _ => trivial
    rintro ⟨armed, s₄⟩ w₄ ⟨hs₄, hlog₄, hsends₄⟩
    obtain rfl : s₄ = _ := hs₄
    have hlog : w₄.log = .readyForTest target.version armed ::
        .downloaded target.version true s.lastAppliedVersion ::
        .install target s.runningVersion :: w.log := by
      rw [hlog₄]
      dsimp only
      rw [hlog₃]
    have hsends := fun htime => (hsends₀₃ htime).trans (hsends₄ htime)
    have hclose := closeInstallation_end (c := ⟨s, target⟩) true rfl
      ⟨hid.there, hid.plain⟩ hgenerated hsends (by rintro ⟨⟩) hlog
    exact wp_mono hclose (fun _ _ h => ⟨true, h⟩) fun _ _ h => h
  | false =>
    rw [if_neg Bool.false_ne_true, wp_bind]
    refine wp_mono (sendEvent_newId hid ..) ?_ fun _ _ _ => trivial
    rintro ⟨sent, s₄⟩ w₄ ⟨hs₄, hq₄, hsends₄⟩
    obtain rfl : s₄ = _ := hs₄
    rw [wp_bind, wp_pure]
    have hlog : w₄.log = .downloaded target.version false s.lastAppliedVersion ::
        .install target s.runningVersion :: w.log := by
      rw [hq₄.log]
      dsimp only
      rw [hlog₃]
    have hsends := fun htime => (hsends₀₃ htime).trans (hsends₄ htime)
    have hclose := closeInstallation_end (c := ⟨s, target⟩) false rfl hid hgenerated hsends
      (fun _ => rfl) hlog
    exact wp_mono hclose (fun _ _ h => ⟨false, h⟩) fun _ _ h => h

/-! ### An installation that fails -/

/-- What decides whether a target counts as a rollback, and when it is retried. -/
def SameRollbackState (s s' : Settings) : Prop :=
  s'.lastAppliedVersion = s.lastAppliedVersion ∧
    s'.rollbackRetryCount = s.rollbackRetryCount ∧
    s'.rollbackNextRetryTime = s.rollbackNextRetryTime

/-- A call from `w` to `w'` left the rollback state as it was: in RAM, in the
settings it wrote to flash, and for every target. -/
structure RollbackStateKept (c : Context) (s : Settings) (w' : World) : Prop where
  ram : SameRollbackState c.settings s
  flash : w'.log.head? = some (.installed c.selectedTarget.version false true) →
    ∃ s', Saves w'.flash.mem s' ∧ SameRollbackState c.settings s'
  targets : ∀ target, aknanoIsRollback ⟨c.settings, target⟩ = false →
    aknanoIsRollback ⟨s, target⟩ = false

/-- The bootloader was asked in this call, and refused. -/
def Refused (version : Version) (w w' : World) : Prop :=
  ∃ new, w'.log = new ++ w.log ∧ .readyForTest version false ∈ new

/-- **When a failed installation keeps the rollback state**: exactly if the
bootloader did not refuse the image, or the version was noted before. -/
theorem failedInstall_keeps_iff {c : Context} {w w' : World} {s : Settings}
    (hrun : aknanoInstallSelectedTarget p e c w = .ok (false, s) w') :
    RollbackStateKept c s w' ↔
      ¬ Refused c.selectedTarget.version w w' ∨
        c.selectedTarget.version = c.settings.lastAppliedVersion := by
  obtain ⟨ok, saved, hend⟩ := (installSelectedTarget_end (p := p) (e := e) c w).of_ok hrun
  obtain ⟨hcount, htime⟩ := hend.failed rfl
  have happlied : s.lastAppliedVersion =
      if ok then c.selectedTarget.version else c.settings.lastAppliedVersion := by
    obtain ⟨id, count, time, hs⟩ := hend.settings
    exact congrArg Settings.lastAppliedVersion hs
  -- it was refused exactly if the download was good
  have hrefused : Refused c.selectedTarget.version w w' ↔ ok = true := by
    have hlog := hend.log
    constructor
    · rintro ⟨new, hnew, hmem⟩
      by_contra hok
      rw [Bool.not_eq_true] at hok
      subst hok
      have heq : new ++ w.log = [.installed c.selectedTarget.version false saved,
          .downloaded c.selectedTarget.version false c.settings.lastAppliedVersion,
          .install c.selectedTarget c.settings.runningVersion] ++ w.log := hnew.symm.trans hlog
      rw [List.append_cancel_right heq] at hmem
      simp at hmem
    · rintro rfl
      exact ⟨[.installed c.selectedTarget.version false saved,
        .readyForTest c.selectedTarget.version false,
        .downloaded c.selectedTarget.version true c.settings.lastAppliedVersion,
        .install c.selectedTarget c.settings.runningVersion], hlog, by simp⟩
  have hsame : SameRollbackState c.settings s ↔
      s.lastAppliedVersion = c.settings.lastAppliedVersion :=
    ⟨fun h => h.1, fun h => ⟨h, hcount, htime⟩⟩
  have hkept : RollbackStateKept c s w' ↔
      s.lastAppliedVersion = c.settings.lastAppliedVersion := by
    constructor
    · exact fun h => hsame.mp h.ram
    · intro h
      refine ⟨hsame.mpr h, fun hhead => ?_, fun target ht => ?_⟩
      · rw [hend.log, List.head?_cons] at hhead
        cases hhead
        exact ⟨s, hend.stored rfl, hsame.mpr h⟩
      · rw [aknanoIsRollback] at ht ⊢
        rw [h]
        exact ht
  rw [hkept, hrefused, happlied]
  cases ok with
  | true => simp
  | false => simp

/-- A device that runs version 5 and is offered an image of three bytes. -/
def sampleContext (version : Version) (hash : CharArray aknanoSha256Len) : Context :=
  ⟨{ Settings.zero with runningVersion := 5, imagePosition := 1 }, ⟨3, version, hash⟩⟩

/-- The bootloader refuses everything. -/
def Env.refusing : Env := { Env.offering with updateStatus := fun _ => 1 }

/-- A download with the wrong hash leaves no trace. -/
theorem failedInstall_keeps_wrongHash :
    ∃ s w', aknanoInstallSelectedTarget .sample .refusing (sampleContext 7 (.zero _))
        (.factory 5) = .ok (false, s) w' ∧
      RollbackStateKept (sampleContext 7 (.zero _)) s w' := by
  obtain ⟨s, hrun⟩ := eq_ok_of_returned_fst
    (x := aknanoInstallSelectedTarget .sample .refusing (sampleContext 7 (.zero _)))
    (s := .factory 5) (a := false) (by decide +kernel)
  have hlog : (final (aknanoInstallSelectedTarget .sample .refusing (sampleContext 7 (.zero _)))
      (.factory 5)).log = [.installed 7 false true, .downloaded 7 false 0,
        .install ⟨3, 7, .zero _⟩ 5] := by decide +kernel
  refine ⟨s, _, hrun, (failedInstall_keeps_iff hrun).mpr (Or.inl ?_)⟩
  rintro ⟨new, hnew, hmem⟩
  rw [hlog] at hnew
  rw [← List.append_nil new, ← show _ = new ++ [] from hnew] at hmem
  exact absurd hmem (by decide)

/-- A good image that the bootloader refuses counts as rolled back from then
on. -/
theorem failedInstall_refused :
    ∃ s w', aknanoInstallSelectedTarget .sample .refusing (sampleContext 7 sha256Abc)
        (.factory 5) = .ok (false, s) w' ∧
      ¬ RollbackStateKept (sampleContext 7 sha256Abc) s w' := by
  have hreturned : (returned (aknanoInstallSelectedTarget .sample .refusing
      (sampleContext 7 sha256Abc)) (.factory 5)).map (fun r => (r.1, r.2.lastAppliedVersion))
      = some (false, 7) := by decide +kernel
  obtain ⟨⟨r, s⟩, hr, heq⟩ := Option.map_eq_some_iff.mp hreturned
  obtain ⟨rfl, happlied⟩ := Prod.mk.inj heq
  refine ⟨s, _, eq_ok_of_returned hr, fun h => ?_⟩
  have hsame : s.lastAppliedVersion = 0 := h.ram.1
  rw [show s.lastAppliedVersion = 7 from happlied] at hsame
  exact absurd hsame (by decide)

/-! ### The range of versions -/

theorem checkedVersion_le (v : Version) : checkedVersion v ≤ 999999999 := by
  unfold checkedVersion
  split
  · decide
  · next h => exact BitVec.not_lt.mp h

/-- The version that is loaded is the one that was saved, within the limit. -/
theorem checkedVersion_eq_iff {v : Version} : checkedVersion v = v ↔ v ≤ 999999999 :=
  ⟨fun h => h ▸ checkedVersion_le v, fun h => if_neg (BitVec.not_lt.mpr h)⟩

theorem storedOf_applied (m : Mem) :
    (storedOf p m).applied = checkedVersion (storedFields m).lastAppliedVersion := rfl

theorem storedOf_confirmed (m : Mem) :
    (storedOf p m).confirmed = checkedVersion (storedFields m).lastConfirmedVersion := rfl

/-- What a boot whose reads succeed makes of settings that were saved. -/
theorem loaded_of_saves {m : Mem} {s : Settings} (hsaves : Saves m s) {f f' : Flash}
    (hsector : SameSector m f.mem) {imagePosition : BitVec 8} {buildNum : BitVec 32}
    {o : FlashFaults} {t : Settings}
    (hload : aknanoInitSettings p o imagePosition buildNum f = .ok (true, t) f') :
    t.lastAppliedVersion = checkedVersion s.lastAppliedVersion ∧
      t.lastConfirmedVersion = checkedVersion s.lastConfirmedVersion ∧
      ramOf t false = (storedOf p m).load (runningVersionOf buildNum) := by
  obtain ⟨-, ⟨fields, ht, hfields⟩, -⟩ :=
    (aknanoInitSettings_spec (p := p) imagePosition buildNum f).of_ok hload
  obtain rfl := hfields rfl
  obtain ⟨m₀, rfl⟩ := hsaves
  have hram : ramOf t false = (storedOf p f.mem).load (runningVersionOf buildNum) := by
    dsimp only at ht
    rw [ht]
    exact ramOf_settingsOf imagePosition buildNum (storedFields f.mem)
  rw [storedOf_congr hsector] at hram
  obtain ⟨happlied, hconfirmed, -⟩ := storedFields_written m₀ s
  have h₁ : t.lastAppliedVersion = _ := congrArg Ram.applied hram
  have h₂ : t.lastConfirmedVersion = _ := congrArg Ram.confirmed hram
  refine ⟨?_, ?_, hram⟩
  · rw [h₁, Stored.load, storedOf_applied, happlied]
  · rw [h₂, Stored.load, storedOf_confirmed, hconfirmed]

/-- There is something to report: the test of
`aknano_send_installation_finished_event`. -/
def CompletionDue (s : Settings) : Prop :=
  ¬ (¬ s.isRunningRolledBackImage ∧ s.lastConfirmedVersion = s.runningVersion)

instance (s : Settings) : Decidable (CompletionDue s) := inferInstanceAs (Decidable (¬ _))

/-- **The completion handler**, the first time in a boot. -/
theorem sendInstallationFinishedEvent_end (s : Settings) (w : World) :
    wp (aknanoSendInstallationFinishedEvent p e s false)
      (fun r w' => if CompletionDue s then
          ∃ id saved, r = (endOfUpdate { s with ongoingUpdateCorrelationId := id }, true) ∧
            w'.log = .completed s.isRunningRolledBackImage s.lastAppliedVersion saved :: w.log ∧
            (saved = true → Saves w'.flash.mem r.1)
        else r = (s, true) ∧ w'.log = .settled :: w.log)
      (fun _ _ => True) w := by
  unfold aknanoSendInstallationFinishedEvent
  rw [if_neg Bool.false_ne_true]
  dsimp only
  by_cases hdue : CompletionDue s
  · rw [if_neg hdue, wp_bind]
    refine wp_mono (aknanoSendEvent_spec ..) ?_ fun _ _ _ => trivial
    rintro ⟨sent, s₁⟩ w₁ ⟨hq, id, hs₁, -⟩
    dsimp only at hs₁ ⊢
    subst hs₁
    rw [wp_bind, during, wp_onError, onFlash, wp_zoom]
    refine wp_mono (updateSettings_spec _ w₁.flash) ?_ fun _ _ _ => trivial
    rintro ret f ⟨-, hwritten, -⟩
    rw [wp_bind, wp_emit, wp_pure, if_pos hdue]
    refine ⟨id, decide (ret = 0), rfl, ?_, fun hsaved => ?_⟩
    · dsimp only
      rw [endOfUpdate_rolledBack, hq.log]
    · exact ⟨w₁.flash.mem, hwritten (of_decide_eq_true hsaved)⟩
  · rw [if_pos (not_not.mp hdue), wp_bind, wp_emit, wp_pure, if_neg hdue]
    exact ⟨rfl, rfl⟩

/-- **The version range of the settings.**  After an installation of `v` that
was saved, the next boot knows `v` for the version that was applied last, and
takes it for a rollback, if and only if `v` is at most 999999999; and so for a
version whose success was recorded, which is reported again otherwise. -/
theorem versionRange_iff :
    (∀ {c : Context} {w w' : World} {s : Settings} {f f' : Flash} {t : Settings}
        {imagePosition : BitVec 8} {buildNum : BitVec 32},
      aknanoInstallSelectedTarget p e c w = .ok (true, s) w' →
      w'.log.head? = some (.installed c.selectedTarget.version true true) →
      SameSector w'.flash.mem f.mem →
      aknanoInitSettings p e.faults imagePosition buildNum f = .ok (true, t) f' →
      (t.lastAppliedVersion = c.selectedTarget.version ∧
        aknanoIsRollback ⟨t, c.selectedTarget⟩ = true ↔
          c.selectedTarget.version ≤ 999999999)) ∧
    ∀ {s s' : Settings} {w w' : World} {applied : Version} {f f' : Flash} {t : Settings}
        {imagePosition : BitVec 8} {buildNum : BitVec 32},
      aknanoSendInstallationFinishedEvent p e s false w = .ok (s', true) w' →
      w'.log.head? = some (.completed false applied true) →
      SameSector w'.flash.mem f.mem → runningVersionOf buildNum = s.runningVersion →
      aknanoInitSettings p e.faults imagePosition buildNum f = .ok (true, t) f' →
      (t.lastConfirmedVersion = s.runningVersion ∧ ¬ CompletionDue t ↔
        s.runningVersion ≤ 999999999) := by
  constructor
  · intro c w w' s f f' t imagePosition buildNum hrun hhead hsector hload
    obtain ⟨ok, saved, hend⟩ := (installSelectedTarget_end (p := p) (e := e) c w).of_ok hrun
    rw [hend.log, List.head?_cons] at hhead
    cases hhead
    obtain ⟨happlied, -, -⟩ := loaded_of_saves (hend.stored rfl) hsector hload
    obtain rfl : ok = true := by
      by_contra hok
      exact Bool.false_ne_true (hend.notArmed (by simpa using hok)).symm
    obtain ⟨id, count, time, hs⟩ := hend.settings
    have hversion : s.lastAppliedVersion = c.selectedTarget.version :=
      congrArg Settings.lastAppliedVersion hs
    rw [happlied, hversion, checkedVersion_eq_iff]
    refine ⟨fun h => h.1, fun h => ⟨h, ?_⟩⟩
    rw [aknanoIsRollback, decide_eq_true_eq, happlied, hversion, checkedVersion_eq_iff.mpr h]
  · intro s s' w w' applied f f' t imagePosition buildNum hrun hhead hsector hsame hload
    have hend := (sendInstallationFinishedEvent_end (p := p) (e := e) s w).of_ok hrun
    by_cases hdue : CompletionDue s
    · rw [if_pos hdue] at hend
      obtain ⟨id, saved, heq, hlog, hstored⟩ := hend
      rw [hlog, List.head?_cons] at hhead
      cases hrolled : s.isRunningRolledBackImage with
      | true =>
        rw [hrolled] at hhead
        cases hhead
      | false =>
        rw [hrolled] at hhead
        cases hhead
        obtain ⟨rfl, -⟩ := Prod.mk.inj heq
        have hsaves := hstored rfl
        obtain ⟨-, hconfirmed, hram⟩ := loaded_of_saves hsaves hsector hload
        have hrunning : t.runningVersion = s.runningVersion :=
          (congrArg Ram.running hram).trans hsame
        have hended : (endOfUpdate { s with ongoingUpdateCorrelationId := id }).lastConfirmedVersion
            = s.runningVersion := by
          simp [endOfUpdate, hrolled]
        -- without a correlation id the next boot sees no rollback
        have hnotRolled : t.isRunningRolledBackImage = false := by
          have hplain : PlainId (.zero _) := by
            unfold PlainId
            decide
          obtain ⟨m₀, hm⟩ := hsaves
          have hstoredOf := storedOf_written (p := p) (s := endOfUpdate { s with
            ongoingUpdateCorrelationId := id }) m₀ hplain true
          rw [← hm, ramOf_endOfUpdate] at hstoredOf
          have hongoing : (storedOf p w'.flash.mem).ongoing = false :=
            congrArg Stored.ongoing hstoredOf
          have hload : t.isRunningRolledBackImage = _ := congrArg Ram.rolledBack hram
          rw [hload, Stored.load, Stored.indicatesRollback, hongoing]
          simp
        rw [hconfirmed, hended, checkedVersion_eq_iff]
        refine ⟨fun h => h.1, fun h => ⟨h, not_not.mpr ⟨by simp [hnotRolled], ?_⟩⟩⟩
        rw [hconfirmed, hended, hrunning, checkedVersion_eq_iff]
        exact h
    · rw [if_neg hdue] at hend
      rw [hend.2] at hhead
      cases hhead

/-- A device that works reads its settings. -/
theorem initSettings_reliable {o : FlashFaults} (hrel : o.Reliable) (imagePosition : BitVec 8)
    (buildNum : BitVec 32) (f : Flash) :
    ∃ t f', aknanoInitSettings p o imagePosition buildNum f = .ok (true, t) f' := by
  have hspec := aknanoInitSettings_spec (p := p) (o := o) imagePosition buildNum f
  obtain ⟨⟨readsOk, t⟩, f', hrun⟩ :=
    (wp_mono hspec (fun _ _ h => h) fun _ _ hE => hE.2 hrel).returns
  obtain rfl : readsOk = true := (hspec.of_ok hrun).2.2 hrel
  exact ⟨t, f', hrun⟩

/-- The installation of a version, and that it was saved. -/
theorem offering_installs :
    (returned (aknanoInstallSelectedTarget .sample .offering (sampleContext 7 sha256Abc))
        (.factory 5)).map Prod.fst = some true ∧
      (final (aknanoInstallSelectedTarget .sample .offering (sampleContext 7 sha256Abc))
        (.factory 5)).log.head? = some (.installed 7 true true) ∧
      (returned (aknanoInstallSelectedTarget .sample .offering
        (sampleContext 1000000000 sha256Abc)) (.factory 5)).map Prod.fst = some true ∧
      (final (aknanoInstallSelectedTarget .sample .offering (sampleContext 1000000000 sha256Abc))
        (.factory 5)).log.head? = some (.installed 1000000000 true true) := by
  decide +kernel

/-- The report of a success, and that it was saved. -/
theorem offering_completes :
    (returned (aknanoSendInstallationFinishedEvent .sample .offering
        { Settings.zero with runningVersion := 7 } false) (.factory 7)).map (fun r => r.2)
          = some true ∧
      (final (aknanoSendInstallationFinishedEvent .sample .offering
        { Settings.zero with runningVersion := 7 } false) (.factory 7)).log.head?
          = some (.completed false 0 true) := by
  decide +kernel

/-- Version 7 is known after the next reset, as applied and as confirmed. -/
theorem versionRange_seven :
    (∃ s w' t f', aknanoInstallSelectedTarget .sample .offering (sampleContext 7 sha256Abc)
        (.factory 5) = .ok (true, s) w' ∧
      aknanoInitSettings .sample .reliable 1 5 w'.flash = .ok (true, t) f' ∧
      t.lastAppliedVersion = 7) ∧
    ∃ s' w' t f', aknanoSendInstallationFinishedEvent .sample .offering
        { Settings.zero with runningVersion := 7 } false (.factory 7) = .ok (s', true) w' ∧
      aknanoInitSettings .sample .reliable 1 7 w'.flash = .ok (true, t) f' ∧
      t.lastConfirmedVersion = 7 := by
  constructor
  · obtain ⟨hreturned, hhead, -⟩ := offering_installs
    obtain ⟨s, hrun⟩ := eq_ok_of_returned_fst hreturned
    obtain ⟨t, f', hload⟩ := initSettings_reliable (p := .sample) FlashFaults.reliable_spec 1 5
      (final (aknanoInstallSelectedTarget .sample .offering (sampleContext 7 sha256Abc))
        (.factory 5)).flash
    have hrange := versionRange_iff.1 hrun hhead (fun _ _ _ => rfl) hload
    exact ⟨s, _, t, f', hrun, hload, (hrange.mpr (by decide)).1⟩
  · obtain ⟨hreturned, hhead⟩ := offering_completes
    obtain ⟨⟨s', once⟩, hr, honce⟩ := Option.map_eq_some_iff.mp hreturned
    obtain rfl : once = true := honce
    have hrun := eq_ok_of_returned hr
    obtain ⟨t, f', hload⟩ := initSettings_reliable (p := .sample) FlashFaults.reliable_spec 1 7
      (final (aknanoSendInstallationFinishedEvent .sample .offering
        { Settings.zero with runningVersion := 7 } false) (.factory 7)).flash
    have hrange := versionRange_iff.2 hrun hhead (fun _ _ _ => rfl) rfl hload
    exact ⟨s', _, t, f', hrun, hload, (hrange.mpr (by decide)).1⟩

/-- Version 1000000000 is not. -/
theorem versionRange_billion :
    ∃ s w' t f', aknanoInstallSelectedTarget .sample .offering
        (sampleContext 1000000000 sha256Abc) (.factory 5) = .ok (true, s) w' ∧
      w'.log.head? = some (.installed 1000000000 true true) ∧
      aknanoInitSettings .sample .reliable 1 5 w'.flash = .ok (true, t) f' ∧
      t.lastAppliedVersion ≠ 1000000000 := by
  obtain ⟨-, -, hreturned, hhead⟩ := offering_installs
  obtain ⟨s, hrun⟩ := eq_ok_of_returned_fst hreturned
  obtain ⟨ok, saved, hend⟩ := (installSelectedTarget_end (p := .sample) (e := .offering)
    (sampleContext 1000000000 sha256Abc) (.factory 5)).of_ok hrun
  generalize final (aknanoInstallSelectedTarget .sample .offering
    (sampleContext 1000000000 sha256Abc)) (.factory 5) = w' at hhead hrun hend
  obtain ⟨t, f', hload⟩ := initSettings_reliable (p := .sample) FlashFaults.reliable_spec 1 5
    w'.flash
  refine ⟨s, w', t, f', hrun, hhead, hload, ?_⟩
  have hsaved : saved = true := by
    have h := hhead
    rw [hend.log, List.head?_cons] at h
    cases h
    rfl
  obtain ⟨happlied, -, -⟩ := loaded_of_saves (hend.stored hsaved) (fun _ _ _ => rfl) hload
  rw [happlied]
  intro h
  have hle := checkedVersion_le s.lastAppliedVersion
  rw [h] at hle
  exact absurd hle (by decide)

end AktualizrNano
