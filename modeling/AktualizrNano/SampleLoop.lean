/-
AktualizrNano/SampleLoop.lean

`aknano_api.c`: the installation of a target, the loop of check-ins, and the
life of a device as a sequence of boots.
-/
import AktualizrNano.Checkin
import AktualizrNano.ImageDownload

namespace AktualizrNano

open CLib NorFlash Outcome

variable (p : Platform) (e : Env)

/-! ### Installing a target -/

abbrev aknanoMaxRolledBackVersionRetries : BitVec 32 := 0

def aknanoIsRollback (c : Context) : Bool :=
  c.selectedTarget.version = c.settings.lastAppliedVersion

/-- The count of the library's calls is the retry count. -/
def aknanoGetNextRollbackRetryTime (s : Settings) : M (BitVec 64) := do
  let randomInt ← aknanoCliGenRandomBytes e 4
  let nextRetryBackoff := e.backoff (if s.rollbackRetryCount.slt 0 then 0
    else s.rollbackRetryCount.toNat) (BitVec.ofNat 32 (leNat randomInt.bytes))
  let now ← aknanoCliGetCurrentEpoch e
  pure (now + BitVec.ofNat 64 (nextRetryBackoff.toNat * 60))

/-- The other slot now holds what was published as this version, or nothing
that can be booted. -/
def noteDownload (version : Version) (ok : Bool) (applied : Version) : M Unit :=
  modify fun w => { w with
    boot := { w.boot with inactive := if ok then some version else none }
    log := .downloaded version ok applied :: w.log }

/-- The part after a successful download; returns `is_reboot_required`. -/
def applyTarget (s : Settings) (version : Version) : M (Bool × Settings) := do
  let (_, s) ← aknanoSendEvent p e s .downloadCompleted version true
  let (_, s) ← aknanoSendEvent p e s .installationStarted version true
  let s := { s with lastAppliedVersion := version }
  let (_, s) ← aknanoSendEvent p e s .installationApplied version true
  let status ← aknanoSetImageReadyForTest e
  emit (.readyForTest version (status = 0))
  pure (decide (status = 0), s)

/-- The counters are touched when a reboot is due. -/
def scheduleRetry (isRebootRequired : Bool) (s : Settings) : M Settings := do
  if isRebootRequired then
    let s := { s with rollbackRetryCount := s.rollbackRetryCount + 1 }
    let nextRetryTime ← aknanoGetNextRollbackRetryTime e s
    pure { s with rollbackNextRetryTime := nextRetryTime }
  else pure s

def aknanoInstallSelectedTarget (c : Context) : M (Bool × Settings) := do
  emit (.install c.selectedTarget c.settings.runningVersion)
  during .installing do
    let version := c.selectedTarget.version
    -- a new id for the events of this update
    let (uuid, _) ← aknanoGenSerialAndUuid e
    let s := { c.settings with
      ongoingUpdateCorrelationId := c.settings.ongoingUpdateCorrelationId.store uuid }
    let (_, s) ← aknanoSendEvent p e s .downloadStarted version true
    let ok ← aknanoDownloadAndFlashImage p e s.imagePosition c.selectedTarget
    noteDownload version ok s.lastAppliedVersion
    let (isRebootRequired, s) ←
      if ok then applyTarget p e s version
      else do
        let (_, s) ← aknanoSendEvent p e s .downloadCompleted version false
        pure (false, s)
    let s ← scheduleRetry e isRebootRequired s
    let ret ← onFlash (aknanoUpdateSettingsInFlash e.faults s)
    emit (.installed version isRebootRequired (ret = 0))
    pure (isRebootRequired, s)

/-! ### The loop -/

def aknanoIsTempImage (s : Settings) : Bool := !s.isImagePermanent

def aknanoHasMatchingTarget (c : Context) : Bool := c.selectedTarget.version ≠ 0

def aknanoShouldRetryRollback (c : Context) : M Bool := do
  if ¬ c.settings.rollbackRetryCount.slt aknanoMaxRolledBackVersionRetries then pure false
  else
    let now ← aknanoCliGetCurrentEpoch e
    pure (!now.slt c.settings.rollbackNextRetryTime)

/-- What the loop does with the selected target: returns `is_update_required`. -/
def isUpdateRequired (c : Context) : M Bool := do
  if aknanoHasMatchingTarget c then
    let current := c.settings.runningVersion
    let selected := c.selectedTarget.version
    let isRollback := aknanoIsRollback c
    let shouldRetryRollback ←
      if isRollback then aknanoShouldRetryRollback e c else pure false
    -- applied before, and it failed
    if isRollback ∧ ¬ shouldRetryRollback then pure false
    else pure (decide (current < selected))
  else pure false

def aknanoLimitSleepTimeRange (sleepTime : BitVec 32) : Nat :=
  if sleepTime.slt 5 then 5
  else if (3600 : BitVec 32).slt sleepTime then 3600
  else sleepTime.toNat

/-- `max_offline_time_on_temp_image`. -/
abbrev maxOfflineTimeOnTempImage : BitVec 64 := 180

/-- What the loop keeps between iterations; `executedOnce` is the static
variable of `aknano_send_installation_finished_event`. -/
structure Loop where
  settings : Settings
  anyCheckinOk : Bool
  executedOnce : Bool

/-- After a successful check-in. -/
def handleCheckin (c : Context) : M Settings := do
  if ← isUpdateRequired e c then
    let (isRebootRequired, s) ← aknanoInstallSelectedTarget p e c
    if isRebootRequired then aknanoRebootCommand e
    else pure s
  else pure c.settings

/-- Give up an image on trial that cannot reach the server. -/
def rebootIfOffline (startupEpoch : BitVec 64) (anyCheckinOk : Bool) (s : Settings) : M Unit := do
  if ¬ anyCheckinOk ∧ aknanoIsTempImage s then
    let now ← aknanoCliGetCurrentEpoch e
    if (startupEpoch + maxOfflineTimeOnTempImage).slt now then
      aknanoDelay e 2000
      aknanoRebootCommand e

/-- One iteration. -/
def loopBody (startupEpoch : BitVec 64) (l : Loop) : M Loop := do
  emit .iteration
  let c := aknanoInitContext l.settings
  let (checkinResult, c, executedOnce) ← aknanoCheckin p e c l.executedOnce
  let (anyCheckinOk, s) ←
    if checkinResult = 0 then do
      let s ← handleCheckin p e c
      pure (true, s)
    else pure (l.anyCheckinOk, c.settings)
  rebootIfOffline e startupEpoch anyCheckinOk s
  pure ⟨s, anyCheckinOk, executedOnce⟩

/-- The while loop with this many iterations remaining. -/
def sampleLoop (startupEpoch : BitVec 64) : (remainingIterations : Nat) → Loop → M Unit
  | 0, _ => pure ()
  | remainingIterations + 1, l => do
    let l ← loopBody p e startupEpoch l
    if remainingIterations > 0 then
      aknanoDelay e (aknanoLimitSleepTimeRange l.settings.pollingInterval * 1000)
    sampleLoop startupEpoch remainingIterations l

/-! ### A boot -/

def aknanoInit : M Settings := do
  let imagePosition ← aknanoGetImagePosition e
  let buildNum ← aknanoGetCurrentVersion e
  let (readsOk, s) ← onFlash (aknanoInitSettings p e.faults imagePosition buildNum)
  aknanoDelay e 100
  emit (.loaded readsOk s.runningVersion s.isRunningRolledBackImage)
  aknanoDelay e 100
  aknanoDelay e 100
  let isImagePermanent ← aknanoIsCurrentImagePermanent e
  pure { s with isImagePermanent := isImagePermanent }

def aknanoSetApplicationSelfTestOk (s : Settings) : Settings :=
  { s with applicationSelfTestOk := true }

/-- Without a limit the loop runs on until the next reset: any number of
iterations is a part of that. -/
def aknanoSampleLoop (remainingIterations : Nat) : M Unit := do
  let startupEpoch ← aknanoCliGetCurrentEpoch e
  let s ← aknanoInit p e
  sampleLoop p e startupEpoch remainingIterations ⟨aknanoSetApplicationSelfTestOk s, false, false⟩

/-- A reset: the bootloader picks the image. -/
def powerOn : M Unit :=
  modify fun w => { w with
    boot := w.boot.reset
    log := .reset w.boot.pick w.boot.reset.permanent :: w.log }

/-- One boot of the agent, which may be cut short. -/
def bootOnce (remainingIterations : Nat) : M Unit := do
  powerOn
  aknanoSampleLoop p e remainingIterations

/-- A sequence of boots, each with a bound on its iterations. -/
def lifetime (boots : List Nat) (w : World) : World :=
  boots.foldl (fun w n => final (bootOnce p e n) w) w

end AktualizrNano
