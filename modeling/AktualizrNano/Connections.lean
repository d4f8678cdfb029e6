/-
AktualizrNano/Connections.lean

Connections to the servers: connect, send, disconnect.  Each function that
talks to a server has a `network_context` of its own and hands it to what it
calls; the callbacks of the TUF library send on the one of the check-in.

The functions are written once more here, with a record of what is called on
which context and in which order (`Recorded`).  Without the record they are the
functions of the model (`erases_sendEvent`, `erases_downloadAndFlashImage`,
`erases_checkin`), so what is shown of the record is true of their calls.

`connectionProtocol` is the discipline, a typestate for each context.  Events
and downloads keep to it whatever fails.  The check-in disconnects also when it
could not connect, and keeps to it exactly when it could.
-/
import AktualizrNano.Checkin
import AktualizrNano.ImageDownload
import AktualizrNano.Recording
import Mathlib.Logic.Function.Basic

namespace AktualizrNano

open CLib Outcome Recording

/-! ### The calls -/

/-- The variables `network_context`, by the function they belong to. -/
inductive NetContext
  | checkin
  | event
  | download
  deriving DecidableEq

/-- The calls of `aknano_net.h`; of a connect it is noted whether it passed. -/
inductive NetCall
  | connect (c : NetContext) (passed : Bool)
  | send (c : NetContext)
  | disconnect (c : NetContext)
  deriving DecidableEq

/-- A program of the agent with a record of its calls, newest first. -/
abbrev RM := EStateM Halt (World × List NetCall)

namespace Recorded

variable (p : Platform) (e : Env)

def aknanoMtlsConnect (c : NetContext) (hostname : List Byte) : RM Bool := do
  let passed ← silently (AktualizrNano.aknanoMtlsConnect e hostname)
  record (.connect c passed)
  pure passed

def aknanoMtlsSendHttpRequest (c : NetContext) (request : Request) : RM Reply := do
  record (.send c)
  silently (AktualizrNano.aknanoMtlsSendHttpRequest e request)

def aknanoMtlsDisconnect (c : NetContext) : RM Unit := do
  record (.disconnect c)
  silently (AktualizrNano.aknanoMtlsDisconnect e)

/-! ### Events -/

def aknanoConnectToDeviceGateway (c : NetContext) : RM Bool :=
  aknanoMtlsConnect e c (aknanoDeviceGatewayEndpoint p)

def aknanoSendHttpRequest (c : NetContext) (method path body : List Byte) (s : Settings) :
    RM Reply :=
  aknanoMtlsSendHttpRequest e c
    { hostname := aknanoDeviceGatewayEndpoint p
      method := method
      path := path
      body := body
      headers := [(ascii "x-ats-tags", s.tag.str),
        (ascii "x-ats-target", printed aknanoMaxTargetNameLength
          (s.hwidStr ++ ascii "-v" ++ signedDecimal s.runningVersion))]
      rangeStart := 0
      rangeEnd := 0 }

def sendEventRounds (eventType : EventType) (newVersion : Version) (success : Bool) :
    (retries : Nat) → Settings → RM (Bool × Settings)
  | 0, s => pure (false, s)
  | retries + 1, s => do
    if ← aknanoConnectToDeviceGateway p e .event then
      let (s, body) ← silently (fillEventPayload p e s eventType newVersion success)
      let reply ← aknanoSendHttpRequest p e .event (ascii "POST") (ascii "/events") body s
      aknanoMtlsDisconnect e .event
      if reply.passed then pure (true, s)
      else sendEventRounds eventType newVersion success retries s
    else
      silently (aknanoDelay e 2000)
      sendEventRounds eventType newVersion success retries s

def aknanoSendEvent (s : Settings) (eventType : EventType) (newVersion : Version)
    (success : Bool) : RM (Bool × Settings) :=
  sendEventRounds p e eventType newVersion success aknanoEventSendingRetries s

/-! ### Downloads -/

def aknanoConnectToDownloadServer (c : NetContext) : RM Bool :=
  aknanoMtlsConnect e c (aknanoDownloadEndpoint p)

def downloadRound (c : NetContext) (pcPath : List Byte) (xFileSize dstPartitionPhysAddr : Nat)
    (d : Download e) : RM (Download e × Bool) := do
  let reply ← aknanoMtlsSendHttpRequest e c
    (downloadRequest p pcPath d.xCurByte d.xNumReqBytes)
  if ¬ reply.passed then pure ({ d with xStatus := false }, true)
  else
    let d := { d with sha256Context := e.sha256.update d.sha256Context reply.bytes }
    let ret ← silently (handleReceivedData e reply.bytes (int32 d.xCurByte)
      (int32 reply.bytes.length) (int32 dstPartitionPhysAddr))
    if ret < 0 then pure ({ d with xStatus := false }, false)
    else if reply.bytes.length = 0 then pure (d, false)
    else
      let stored := uint32 (d.stored + reply.bytes.length)
      let xCurByte := uint32 (d.xCurByte + reply.bytes.length)
      let rest := uint32 (xFileSize - xCurByte)
      let xNumReqBytes := if rest < d.xNumReqBytes then rest else d.xNumReqBytes
      pure ({ d with
        xStatus := reply.httpCode = httpStatusCodePartialContent
        xCurByte := xCurByte
        xNumReqBytes := xNumReqBytes
        stored := stored }, true)

def downloadRounds (c : NetContext) (pcPath : List Byte) (xFileSize dstPartitionPhysAddr : Nat) :
    (rounds : Nat) → Download e → RM (Download e)
  | 0, d => pure d
  | rounds + 1, d =>
    if d.xStatus ∧ d.xCurByte < xFileSize then do
      let (d, more) ← downloadRound p e c pcPath xFileSize dstPartitionPhysAddr d
      if more then downloadRounds c pcPath xFileSize dstPartitionPhysAddr rounds d else pure d
    else pure d

/-- The check of the image, behind the disconnect. -/
def aknanoDownloadImage (c : NetContext) (pcPath : List Byte) (imagePosition : BitVec 8)
    (selectedTarget : AknanoTarget) : RM Bool := do
  let dstPartitionPhysAddr := aknanoGetTargetSlotAddress p imagePosition
  let xFileSize := selectedTarget.expectedSize.toNat
  let d ← downloadRounds p e c pcPath xFileSize dstPartitionPhysAddr (aknanoMaxFirmwareSize + 1)
    (Download.start e)
  aknanoMtlsDisconnect e c
  let xStatus := if d.stored ≠ selectedTarget.expectedSize.toNat then false else d.xStatus
  if xStatus then
    if selectedTarget.expectedHash ≠ e.sha256.finish d.sha256Context then pure false
    else silently (aknanoVerifyImage e d.stored)
  else pure false

def aknanoDownloadAndFlashImage (imagePosition : BitVec 8) (selectedTarget : AknanoTarget) :
    RM Bool := do
  if ← aknanoConnectToDownloadServer p e .download then
    aknanoDownloadImage p e .download (relativePath selectedTarget.expectedHash.bytes)
      imagePosition selectedTarget
  else pure false

/-! ### The check-in -/

def fetchConfig (c : NetContext) (s : Settings) : RM Settings := do
  let reply ← aknanoSendHttpRequest p e c (ascii "GET") (ascii "/config") [] s
  match reply.passed, reply.body with
  | true, some body =>
    match parseConfig p (e.json body) s with
    | some s => pure s
    | none => throw .fault
  | _, _ => pure s

/-- The context is `dg_network_context` of the `aknano_context`. -/
def tufClientFetchFile (c : NetContext) (s : Settings) (fileBaseName : List Byte)
    (targetBufferLen : Nat) : RM FetchRet := do
  let url := printed 300 (ascii "/repo/" ++ fileBaseName)
  let reply ← aknanoSendHttpRequest p e c (ascii "GET") url [] s
  pure <|
    if reply.passed then
      if reply.httpCode / 100 = 2 then
        if reply.bytes.length > targetBufferLen then .dataExceedsBufferSize
        else .success reply.bytes
      else .httpCode reply.httpCode
    else .failed

def tufCallback (c : NetContext) (s : Settings) : TufCall → RM Unit
  | .fetch fileBaseName targetBufferLen => do
    let _ ← tufClientFetchFile p e c s fileBaseName targetBufferLen
  | .read role targetBuffer _ => do
    let _ ← silently (onFlash (tufClientReadLocalFile e.faults role targetBuffer 0))
  | .write role data _ => do
    let _ ← silently (onFlash (tufClientWriteLocalFile e.faults role data))

def tufCallbacks (c : NetContext) (s : Settings) : List TufCall → RM Unit
  | [] => pure ()
  | call :: calls => do
    tufCallback p e c s call
    tufCallbacks c s calls

def tufRefresh (c : NetContext) (s : Settings) : RM (Int × List Byte) := do
  let t ← silently (tick e)
  let run := e.tufRefresh t
  tufCallbacks p e c s run.calls
  pure (run.ret, run.userBuffer)

def aknanoSendInstallationFinishedEvent (s : Settings) (executedOnce : Bool) :
    RM (Settings × Bool) := do
  if executedOnce then pure (s, executedOnce)
  else
    let runningVersionReported := s.lastConfirmedVersion = s.runningVersion
    if ¬ s.isRunningRolledBackImage ∧ runningVersionReported then
      silently (emit .settled)
      pure (s, true)
    else
      let (_, s) ← aknanoSendEvent p e s .installationCompleted 0 (!s.isRunningRolledBackImage)
      let applied := s.lastAppliedVersion
      let s := endOfUpdate s
      let ret ← silently (during .saving (onFlash (aknanoUpdateSettingsInFlash e.faults s)))
      silently (emit (.completed s.isRunningRolledBackImage applied (ret = 0)))
      pure (s, true)

def handleRefreshed (c : Context) (executedOnce : Bool) (userBuffer : List Byte) :
    RM (Context × Bool) := do
  let metadata := userBuffer.takeWhile (· ≠ 0)
  silently (emit (.refreshed metadata))
  let (_, selectedTarget) := parseTargetsMetadata p.overflow (e.json metadata) c.settings.hwid
    c.settings.tag.str c.selectedTarget
  if c.settings.applicationSelfTestOk then
    let isImagePermanent ← silently (aknanoSetImageConfirmed e c.settings.isImagePermanent)
    let s := { c.settings with isImagePermanent := isImagePermanent }
    let (s, executedOnce) ← aknanoSendInstallationFinishedEvent p e s executedOnce
    pure (⟨s, selectedTarget⟩, executedOnce)
  else pure (⟨c.settings, selectedTarget⟩, executedOnce)

def aknanoCheckin (c : Context) (executedOnce : Bool) : RM (Int × Context × Bool) := do
  if ← aknanoConnectToDeviceGateway p e .checkin then
    let s ← fetchConfig p e .checkin c.settings
    let _ ← aknanoSendHttpRequest p e .checkin (ascii "PUT") (ascii "/system_info")
      (systemInfo p s) s
    let _ ← aknanoSendHttpRequest p e .checkin (ascii "PUT") (ascii "/system_info/network")
      (fillNetworkInfo p) s
    let _ ← aknanoSendHttpRequest p e .checkin (ascii "PUT") (ascii "/system_info/config")
      (systemConfig p s) s
    let _ ← silently (aknanoCliGetCurrentEpoch e)
    let (tufRet, userBuffer) ← tufRefresh p e .checkin s
    let c := { c with settings := s }
    let (c, executedOnce) ←
      if tufRet = tufSuccess then handleRefreshed p e c executedOnce userBuffer
      else pure (c, executedOnce)
    aknanoMtlsDisconnect e .checkin
    pure (tufRet, c, executedOnce)
  else
    -- also of a context that was never connected
    aknanoMtlsDisconnect e .checkin
    pure (-10, c, executedOnce)

end Recorded

variable {p : Platform} {e : Env}

/-! ### Without the record -/

theorem erases_mtlsConnect (c : NetContext) (hostname : List Byte) :
    Erases (Recorded.aknanoMtlsConnect e c hostname) (aknanoMtlsConnect e hostname) :=
  (Erases.silently _).bind_record _

theorem erases_mtlsSendHttpRequest (c : NetContext) (request : Request) :
    Erases (Recorded.aknanoMtlsSendHttpRequest e c request)
      (aknanoMtlsSendHttpRequest e request) :=
  .record_bind _ (.silently _)

theorem erases_mtlsDisconnect (c : NetContext) :
    Erases (Recorded.aknanoMtlsDisconnect e c) (aknanoMtlsDisconnect e) :=
  .record_bind _ (.silently _)

theorem erases_sendHttpRequest (c : NetContext) (method path body : List Byte) (s : Settings) :
    Erases (Recorded.aknanoSendHttpRequest p e c method path body s)
      (aknanoSendHttpRequest p e method path body s) :=
  erases_mtlsSendHttpRequest c _

/-- **Events.** -/
theorem erases_sendEvent (s : Settings) (eventType : EventType) (newVersion : Version)
    (success : Bool) :
    Erases (Recorded.aknanoSendEvent p e s eventType newVersion success)
      (aknanoSendEvent p e s eventType newVersion success) := by
  unfold Recorded.aknanoSendEvent aknanoSendEvent
  generalize aknanoEventSendingRetries = retries
  induction retries generalizing s with
  | zero => exact .pure _
  | succ retries ih =>
    rw [Recorded.sendEventRounds, sendEventRounds]
    refine (erases_mtlsConnect .event _).bind fun passed => ?_
    split
    · refine (Erases.silently _).bind fun r => (erases_sendHttpRequest ..).bind fun reply =>
        (erases_mtlsDisconnect .event).bind fun _ => ?_
      split
      · exact .pure _
      · exact ih _
    · exact (Erases.silently _).bind fun _ => ih s

theorem erases_downloadRounds (c : NetContext) (pcPath : List Byte)
    (xFileSize dstPartitionPhysAddr rounds : Nat) (d : Download e) :
    Erases (Recorded.downloadRounds p e c pcPath xFileSize dstPartitionPhysAddr rounds d)
      (downloadRounds p e pcPath xFileSize dstPartitionPhysAddr rounds d) := by
  induction rounds generalizing d with
  | zero => exact .pure _
  | succ rounds ih =>
    rw [Recorded.downloadRounds, downloadRounds]
    split
    · refine Erases.bind ?_ fun r => ?_
      · refine (erases_mtlsSendHttpRequest c _).bind fun reply => ?_
        split
        · exact .pure _
        · refine (Erases.silently _).bind fun ret => ?_
          split
          · exact .pure _
          split
          · exact .pure _
          · exact .pure _
      · dsimp only
        split
        · exact ih r.1
        · exact .pure _
    · exact .pure _

/-- **Downloads.** -/
theorem erases_downloadAndFlashImage (imagePosition : BitVec 8) (selectedTarget : AknanoTarget) :
    Erases (Recorded.aknanoDownloadAndFlashImage p e imagePosition selectedTarget)
      (aknanoDownloadAndFlashImage p e imagePosition selectedTarget) := by
  refine (erases_mtlsConnect .download _).bind fun passed => ?_
  split
  · refine (erases_downloadRounds ..).bind fun d =>
      (erases_mtlsDisconnect .download).bind fun _ => ?_
    dsimp only
    generalize (if d.stored ≠ _ then false else d.xStatus) = xStatus
    split
    · split
      · exact .pure _
      · exact .silently _
    · exact .pure _
  · exact .pure _

theorem erases_fetchConfig (c : NetContext) (s : Settings) :
    Erases (Recorded.fetchConfig p e c s) (fetchConfig p e s) := by
  refine (erases_sendHttpRequest ..).bind fun reply => ?_
  obtain ⟨passed, httpCode, body, fits⟩ := reply
  cases passed with
  | false => exact .pure _
  | true =>
    cases body with
    | none => exact .pure _
    | some body =>
      dsimp only
      cases parseConfig p (e.json body) s with
      | none => exact .throw _
      | some s => exact .pure _

theorem erases_tufCallback (c : NetContext) (s : Settings) (call : TufCall) :
    Erases (Recorded.tufCallback p e c s call) (tufCallback p e s call) := by
  cases call with
  | fetch fileBaseName targetBufferLen =>
    have hfetch : Erases (Recorded.tufClientFetchFile p e c s fileBaseName targetBufferLen)
        (tufClientFetchFile p e s fileBaseName targetBufferLen) :=
      (erases_sendHttpRequest ..).bind fun _ => .pure _
    exact hfetch.bind fun _ => .pure _
  | read role targetBuffer _ => exact (Erases.silently _).bind fun _ => .pure _
  | write role data _ => exact (Erases.silently _).bind fun _ => .pure _

theorem erases_tufCallbacks (c : NetContext) (s : Settings) (calls : List TufCall) :
    Erases (Recorded.tufCallbacks p e c s calls) (tufCallbacks p e s calls) := by
  induction calls with
  | nil => exact .pure _
  | cons call calls ih => exact (erases_tufCallback c s call).bind fun _ => ih

theorem erases_handleRefreshed (c : Context) (executedOnce : Bool) (userBuffer : List Byte) :
    Erases (Recorded.handleRefreshed p e c executedOnce userBuffer)
      (handleRefreshed p e c executedOnce userBuffer) := by
  have hfinished : ∀ s, Erases (Recorded.aknanoSendInstallationFinishedEvent p e s executedOnce)
      (aknanoSendInstallationFinishedEvent p e s executedOnce) := by
    intro s
    unfold Recorded.aknanoSendInstallationFinishedEvent aknanoSendInstallationFinishedEvent
    split
    · exact .pure _
    dsimp only
    split
    · exact (Erases.silently _).bind fun _ => .pure _
    · exact (erases_sendEvent ..).bind fun _ => (Erases.silently _).bind fun _ =>
        (Erases.silently _).bind fun _ => .pure _
  refine (Erases.silently _).bind fun _ => ?_
  dsimp only
  split
  · exact (Erases.silently _).bind fun _ => (hfinished _).bind fun _ => .pure _
  · exact .pure _

/-- **The check-in.** -/
theorem erases_checkin (c : Context) (executedOnce : Bool) :
    Erases (Recorded.aknanoCheckin p e c executedOnce) (aknanoCheckin p e c executedOnce) := by
  refine (erases_mtlsConnect .checkin _).bind fun passed => ?_
  split
  · refine (erases_fetchConfig ..).bind fun s => (erases_sendHttpRequest ..).bind fun _ =>
      (erases_sendHttpRequest ..).bind fun _ => (erases_sendHttpRequest ..).bind fun _ =>
      (Erases.silently _).bind fun _ => Erases.bind ?_ fun r => ?_
    · exact (Erases.silently _).bind fun _ => (erases_tufCallbacks ..).bind fun _ => .pure _
    · dsimp only
      split
      · exact (erases_handleRefreshed ..).bind fun _ =>
          (erases_mtlsDisconnect .checkin).bind fun _ => .pure _
      · exact (erases_mtlsDisconnect .checkin).bind fun _ => .pure _
  · exact (erases_mtlsDisconnect .checkin).bind fun _ => .pure _

/-! ### The protocol -/

/-- Connect, send, disconnect: the state says which contexts are connected. -/
def connectionProtocol : Discipline NetCall (NetContext → Bool) where
  start := fun _ => false
  next conn
    | .connect c passed => Function.update conn c passed
    | .send _ => conn
    | .disconnect c => Function.update conn c false
  Allowed conn
    -- a connection that is open is not lost by another connect
    | .connect c _ => conn c = false
    | .send c => conn c = true
    | .disconnect c => conn c = true

/-- A run of `y` from `w` keeps to the protocol, and if it returns, it leaves no
connection open. -/
def KeepsProtocol {α : Type} (y : RM α) (w : World) : Prop :=
  wp y (fun _ st => connectionProtocol.Follows st.2 ∧
      ∀ c, connectionProtocol.state st.2 c = false)
    (fun _ st => connectionProtocol.Follows st.2) (w, [])

/-- So each successful connect has its disconnect, and there is no other one. -/
theorem count_disconnect {calls : List NetCall} (h : connectionProtocol.Follows calls)
    (c : NetContext) :
    calls.count (.disconnect c) + (if connectionProtocol.state calls c then 1 else 0)
      = calls.count (.connect c true) := by
  induction calls with
  | nil => rfl
  | cons call older ih =>
    obtain ⟨hallowed, holder⟩ := h
    have hcount := ih holder
    rw [List.count_cons, List.count_cons]
    cases call with
    | connect c' passed =>
      change connectionProtocol.state older c' = false at hallowed
      change _ + (if Function.update (connectionProtocol.state older) c' passed c then 1 else 0) = _
      by_cases hc : c = c'
      · subst hc
        rw [hallowed] at hcount
        cases passed <;> simp_all
      · have hc' : ¬ c' = c := fun h => hc h.symm
        simpa [Function.update_of_ne hc, hc'] using hcount
    | send c' =>
      change _ + (if connectionProtocol.state older c then 1 else 0) = _
      simpa using hcount
    | disconnect c' =>
      change connectionProtocol.state older c' = true at hallowed
      change _ + (if Function.update (connectionProtocol.state older) c' false c then 1 else 0) = _
      by_cases hc : c = c'
      · subst hc
        rw [hallowed] at hcount
        simpa using hcount
      · have hc' : ¬ c' = c := fun h => hc h.symm
        simpa [Function.update_of_ne hc, hc'] using hcount

variable {conn : NetContext → Bool}

/-! ### Step by step -/

theorem update_closed {c : NetContext} (hc : conn c = false) :
    Function.update conn c false = conn := by
  rw [← hc, Function.update_eq_self]

theorem takes_mtlsConnect {c : NetContext} (hc : conn c = false) (hostname : List Byte) :
    connectionProtocol.Takes conn (Recorded.aknanoMtlsConnect e c hostname)
      fun passed conn' => conn' = Function.update conn c passed :=
  .bind_of_eq (.silently fun _ => rfl) fun _ => .bind_of_eq (.record hc rfl) fun _ => .pure rfl

theorem takes_mtlsSendHttpRequest {c : NetContext} (hc : conn c = true) (request : Request) :
    connectionProtocol.Takes conn (Recorded.aknanoMtlsSendHttpRequest e c request)
      fun _ conn' => conn' = conn :=
  .bind_of_eq (.record hc rfl) fun _ => .silently fun _ => rfl

theorem takes_mtlsDisconnect {c : NetContext} (hc : conn c = true) :
    connectionProtocol.Takes conn (Recorded.aknanoMtlsDisconnect e c)
      fun _ conn' => conn' = Function.update conn c false :=
  .bind_of_eq (.record hc rfl) fun _ => .silently fun _ => rfl

/-- The disconnect at the end of what was done with an open connection. -/
theorem takes_disconnect_update {c : NetContext} (hc : conn c = false) :
    connectionProtocol.Takes (Function.update conn c true) (Recorded.aknanoMtlsDisconnect e c)
      fun _ conn' => conn' = conn := by
  refine (takes_mtlsDisconnect (Function.update_self ..)).mono fun _ conn' h => ?_
  rw [h, Function.update_idem, update_closed hc]

/-! ### Functions -/

theorem takes_sendEvent (hc : conn .event = false) (s : Settings) (eventType : EventType)
    (newVersion : Version) (success : Bool) :
    connectionProtocol.Takes conn (Recorded.aknanoSendEvent p e s eventType newVersion success)
      fun _ conn' => conn' = conn := by
  unfold Recorded.aknanoSendEvent
  generalize aknanoEventSendingRetries = retries
  induction retries generalizing s with
  | zero => exact .pure rfl
  | succ retries ih =>
    rw [Recorded.sendEventRounds]
    apply (takes_mtlsConnect hc _).bind
    rintro passed conn' rfl
    cases passed with
    | true =>
      refine .bind_of_eq (.silently fun _ => rfl) fun r =>
        .bind_of_eq (takes_mtlsSendHttpRequest (Function.update_self ..) _) fun reply =>
        .bind_of_eq (takes_disconnect_update hc) fun _ => ?_
      split
      · exact .pure rfl
      · exact ih _
    | false =>
      rw [update_closed hc]
      exact .bind_of_eq (.silently fun _ => rfl) fun _ => ih s

theorem takes_downloadRounds {c : NetContext} (hc : conn c = true) (pcPath : List Byte)
    (xFileSize dstPartitionPhysAddr rounds : Nat) (d : Download e) :
    connectionProtocol.Takes conn
      (Recorded.downloadRounds p e c pcPath xFileSize dstPartitionPhysAddr rounds d)
      fun _ conn' => conn' = conn := by
  have hround : ∀ d, connectionProtocol.Takes conn
      (Recorded.downloadRound p e c pcPath xFileSize dstPartitionPhysAddr d)
      fun _ conn' => conn' = conn := by
    intro d
    refine .bind_of_eq (takes_mtlsSendHttpRequest hc _) fun reply => ?_
    split
    · exact .pure rfl
    · refine .bind_of_eq (.silently fun _ => rfl) fun ret => ?_
      split
      · exact .pure rfl
      split
      · exact .pure rfl
      · exact .pure rfl
  induction rounds generalizing d with
  | zero => exact .pure rfl
  | succ rounds ih =>
    rw [Recorded.downloadRounds]
    split
    · refine .bind_of_eq (hround d) fun r => ?_
      dsimp only
      split
      · exact ih r.1
      · exact .pure rfl
    · exact .pure rfl

theorem takes_downloadAndFlashImage (hc : conn .download = false) (imagePosition : BitVec 8)
    (selectedTarget : AknanoTarget) :
    connectionProtocol.Takes conn
      (Recorded.aknanoDownloadAndFlashImage p e imagePosition selectedTarget)
      fun _ conn' => conn' = conn := by
  apply (takes_mtlsConnect hc _).bind
  rintro passed conn' rfl
  cases passed with
  | true =>
    refine .bind_of_eq (takes_downloadRounds (Function.update_self ..) ..) fun d =>
      .bind_of_eq (takes_disconnect_update hc) fun _ => ?_
    dsimp only
    generalize (if d.stored ≠ _ then false else d.xStatus) = xStatus
    split
    · split
      · exact .pure rfl
      · exact .silently fun _ => rfl
    · exact .pure rfl
  | false =>
    rw [update_closed hc]
    exact .pure rfl

theorem takes_fetchConfig {c : NetContext} (hc : conn c = true) (s : Settings) :
    connectionProtocol.Takes conn (Recorded.fetchConfig p e c s) fun _ conn' => conn' = conn := by
  refine .bind_of_eq (takes_mtlsSendHttpRequest hc _) fun reply => ?_
  split
  · split
    · exact .pure rfl
    · exact .throw _
  · exact .pure rfl

/-- What the library fetches is fetched on the connection of the check-in. -/
theorem takes_tufRefresh {c : NetContext} (hc : conn c = true) (s : Settings) :
    connectionProtocol.Takes conn (Recorded.tufRefresh p e c s) fun _ conn' => conn' = conn := by
  have hcallback : ∀ call, connectionProtocol.Takes conn (Recorded.tufCallback p e c s call)
      fun _ conn' => conn' = conn := by
    intro call
    cases call with
    | fetch fileBaseName targetBufferLen =>
      have hfetch : connectionProtocol.Takes conn
          (Recorded.tufClientFetchFile p e c s fileBaseName targetBufferLen)
          fun _ conn' => conn' = conn :=
        .bind_of_eq (takes_mtlsSendHttpRequest hc _) fun _ => .pure rfl
      exact .bind_of_eq hfetch fun _ => .pure rfl
    | read role targetBuffer _ => exact .bind_of_eq (.silently fun _ => rfl) fun _ => .pure rfl
    | write role data _ => exact .bind_of_eq (.silently fun _ => rfl) fun _ => .pure rfl
  have hcallbacks : ∀ calls, connectionProtocol.Takes conn (Recorded.tufCallbacks p e c s calls)
      fun _ conn' => conn' = conn := by
    intro calls
    induction calls with
    | nil => exact .pure rfl
    | cons call calls ih => exact .bind_of_eq (hcallback call) fun _ => ih
  exact .bind_of_eq (.silently fun _ => rfl) fun _ => .bind_of_eq (hcallbacks _) fun _ => .pure rfl

/-- The event at the end of an update has a connection of its own. -/
theorem takes_handleRefreshed (hc : conn .event = false) (c : Context) (executedOnce : Bool)
    (userBuffer : List Byte) :
    connectionProtocol.Takes conn (Recorded.handleRefreshed p e c executedOnce userBuffer)
      fun _ conn' => conn' = conn := by
  have hfinished : ∀ s, connectionProtocol.Takes conn
      (Recorded.aknanoSendInstallationFinishedEvent p e s executedOnce)
      fun _ conn' => conn' = conn := by
    intro s
    unfold Recorded.aknanoSendInstallationFinishedEvent
    split
    · exact .pure rfl
    dsimp only
    split
    · exact .bind_of_eq (.silently fun _ => rfl) fun _ => .pure rfl
    · exact .bind_of_eq (takes_sendEvent hc ..) fun _ => .bind_of_eq (.silently fun _ => rfl) fun _ =>
        .bind_of_eq (.silently fun _ => rfl) fun _ => .pure rfl
  refine .bind_of_eq (.silently fun _ => rfl) fun _ => ?_
  dsimp only
  split
  · exact .bind_of_eq (.silently fun _ => rfl) fun _ => .bind_of_eq (hfinished _) fun _ => .pure rfl
  · exact .pure rfl

/-! ### Runs -/

/-- From a point of a run to its end, where everything is closed. -/
theorem closed_of_takes {α : Type} {y : RM α} {calls : List NetCall}
    (h : connectionProtocol.Takes conn y fun _ conn' => conn' = fun _ => false)
    (hfollows : connectionProtocol.Follows calls) (hstate : connectionProtocol.state calls = conn)
    (w : World) :
    wp y (fun _ st => connectionProtocol.Follows st.2 ∧
        ∀ c, connectionProtocol.state st.2 c = false)
      (fun _ st => connectionProtocol.Follows st.2) (w, calls) := by
  refine wp_mono (h.runs w calls hfollows hstate) ?_ fun _ _ hE => hE
  rintro a st ⟨hfollows', hclosed⟩
  exact ⟨hfollows', fun c => congrFun hclosed c⟩

theorem recorded_mtlsConnect (c : NetContext) (hostname : List Byte) (w : World) :
    Recorded.aknanoMtlsConnect e c hostname (w, []) =
      if e.cut w.tick then .error .powerCut ({ w with tick := w.tick + 1 }, [])
      else .ok (e.connects w.tick hostname)
        ({ w with tick := w.tick + 1 }, [.connect c (e.connects w.tick hostname)]) := by
  unfold Recorded.aknanoMtlsConnect aknanoMtlsConnect silently zoom tick record
  cases hcut : e.cut w.tick with
  | true => simp [bind, EStateM.bind, hcut]
  | false =>
    simp only [bind, EStateM.bind, hcut, Bool.false_eq_true, if_false]
    rfl

/-- A disconnect of a context that is not connected. -/
theorem not_follows_disconnect {c : NetContext} {calls : List NetCall} (w : World)
    (hc : connectionProtocol.state calls c = false) :
    ¬ wp (Recorded.aknanoMtlsDisconnect e c) (fun _ st => connectionProtocol.Follows st.2)
      (fun _ st => connectionProtocol.Follows st.2) (w, calls) := by
  intro h
  rw [Recorded.aknanoMtlsDisconnect, wp_bind, record, wp_modify, silently, wp_zoom] at h
  -- how the call ends makes no difference to the record
  obtain ⟨hopen, -⟩ := wp_const.mp h
  exact Bool.false_ne_true (hc.symm.trans hopen)

/-- **The check-in** keeps to the protocol exactly when it can connect, or power
is lost meanwhile. -/
theorem checkin_keepsProtocol_iff (c : Context) (executedOnce : Bool) (w : World) :
    KeepsProtocol (Recorded.aknanoCheckin p e c executedOnce) w ↔
      e.cut w.tick = true ∨ e.connects w.tick (aknanoDeviceGatewayEndpoint p) = true := by
  have hrun := recorded_mtlsConnect (e := e) .checkin (aknanoDeviceGatewayEndpoint p) w
  rw [KeepsProtocol, Recorded.aknanoCheckin, Recorded.aknanoConnectToDeviceGateway, wp_bind]
  cases hcut : e.cut w.tick with
  | true =>
    rw [hcut, if_pos rfl] at hrun
    rw [wp_iff_of_error hrun]
    exact iff_of_true trivial (.inl rfl)
  | false =>
    rw [hcut, if_neg Bool.false_ne_true] at hrun
    rw [wp_iff_of_ok hrun]
    cases hconnects : e.connects w.tick (aknanoDeviceGatewayEndpoint p) with
    | true =>
      have hopen : Function.update (fun _ => false : NetContext → Bool) .checkin true .checkin
          = true := rfl
      have hevent : Function.update (fun _ => false : NetContext → Bool) .checkin true .event
          = false := rfl
      have hfollows : connectionProtocol.Follows [.connect .checkin true] := ⟨rfl, trivial⟩
      have hstate : connectionProtocol.state [.connect .checkin true]
          = Function.update (fun _ => false) .checkin true := rfl
      rw [if_pos rfl]
      refine iff_of_true (closed_of_takes ?_ hfollows hstate _) (.inr rfl)
      refine .bind_of_eq (takes_fetchConfig hopen c.settings) fun s =>
        .bind_of_eq (takes_mtlsSendHttpRequest hopen _) fun _ =>
        .bind_of_eq (takes_mtlsSendHttpRequest hopen _) fun _ =>
        .bind_of_eq (takes_mtlsSendHttpRequest hopen _) fun _ =>
        .bind_of_eq (.silently fun _ => rfl) fun _ =>
        .bind_of_eq (takes_tufRefresh hopen s) fun r => ?_
      dsimp only
      split
      · exact .bind_of_eq (takes_handleRefreshed hevent ..) fun _ =>
          .bind_of_eq (takes_disconnect_update rfl) fun _ => .pure rfl
      · exact .bind_of_eq (.pure rfl) fun _ =>
          .bind_of_eq (takes_disconnect_update rfl) fun _ => .pure rfl
    | false =>
      refine iff_of_false (fun h => ?_) (by rintro (h | h) <;> cases h)
      rw [if_neg Bool.false_ne_true, wp_bind] at h
      refine not_follows_disconnect (e := e) (c := .checkin) _ rfl (wp_mono h ?_ fun _ _ hE => hE)
      intro _ st hst
      exact ((wp_pure _).mp hst).1

/-- **Connections follow the protocol**: events and downloads in every run, the
check-in when it connects.  A check-in that cannot connect disconnects all the
same. -/
theorem connections_protocol (p : Platform) (e : Env) :
    (∀ s eventType newVersion success w,
        KeepsProtocol (Recorded.aknanoSendEvent p e s eventType newVersion success) w) ∧
      (∀ imagePosition selectedTarget w,
        KeepsProtocol (Recorded.aknanoDownloadAndFlashImage p e imagePosition selectedTarget) w) ∧
      ∀ c executedOnce w, KeepsProtocol (Recorded.aknanoCheckin p e c executedOnce) w ↔
        e.cut w.tick = true ∨ e.connects w.tick (aknanoDeviceGatewayEndpoint p) = true := by
  have hstart : connectionProtocol.Follows [] := trivial
  refine ⟨?_, ?_, checkin_keepsProtocol_iff⟩
  · intro s eventType newVersion success w
    exact closed_of_takes (takes_sendEvent rfl ..) hstart rfl w
  · intro imagePosition selectedTarget w
    exact closed_of_takes (takes_downloadAndFlashImage rfl ..) hstart rfl w

/-- A check-in without a server. -/
theorem checkin_disconnects_unconnected :
    ¬ KeepsProtocol (Recorded.aknanoCheckin .sample .sample (aknanoInitContext .zero) false)
      (.factory 5) := by
  rw [checkin_keepsProtocol_iff]
  rintro (h | h) <;> cases h

end AktualizrNano
