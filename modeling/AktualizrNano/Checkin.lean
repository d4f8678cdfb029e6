/-
AktualizrNano/Checkin.lean

`aknano_checkin` and what it calls: the configuration sent by the server, the
TUF refresh, the selection of a target, and the end of an update
(`aknano_set_image_confirmed`, `aknano_send_installation_finished_event`).
-/
import AktualizrNano.DeviceGateway

namespace AktualizrNano

open CLib NorFlash Outcome

variable (p : Platform) (e : Env)

/-! ### Configuration -/

/-- The copy of the value without its quotes runs over `new_tag` when nothing
is left of it: the length passed to `strncpy` is then `(size_t)-1`. -/
def tomlHandler (s : Settings) (line : List Byte × List Byte × List Byte) : Option Settings :=
  let (sectionName, name, value) := line
  if sectionName = ascii "pacman" ∧ name = ascii "tags" then
    let len := strnlen (value.drop 1) aknanoMaxTagLength
    if len = 0 then none
    else
      let newTag := (CharArray.zero aknanoMaxTagLength).store ((value.drop 1).take (len - 1))
      if strncmp s.tag.str newTag.str aknanoMaxTagLength ≠ 0 then some { s with tag := newTag }
      else some s
  else some s

/-- An unknown escape is dropped; a backslash at the end is kept. -/
def replaceEscapedChars : List Byte → List Byte
  | [] => []
  | [c] => [c]
  | c :: c' :: src =>
    if c = 0x5C then
      (if c' = 0x6E then [0x0A] else if c' = 0x72 then [0x0D] else if c' = 0x22 then [0x22]
        else if c' = 0x5C then [0x5C] else []) ++ replaceEscapedChars src
    else c :: replaceEscapedChars (c' :: src)

/-- `sizeof(unescaped_toml)`. -/
abbrev unescapedTomlSize : Nat := 200

/-- The first entry that is looked up: an INI text, with its quotes escaped. -/
def parseToml (doc : Json) (s : Settings) : Option Settings :=
  match doc.search ["z-50-fioctl.toml", "Value"] with
  | none => some s
  | some value =>
    if value.raw.length < unescapedTomlSize then
      (p.iniParse ((replaceEscapedChars value.raw).takeWhile (· ≠ 0))).foldlM tomlHandler s
    else some s

/-- The second. -/
def parsePollingInterval (doc : Json) (s : Settings) : Settings :=
  match doc.search ["polling_interval", "Value"] with
  | none => s
  | some value =>
    match sscanfD p.overflow value.raw with
    | none => s
    | some intValue => { s with pollingInterval := intValue }

/-- `none` when a handler writes out of bounds. -/
def parseConfig (configData : Option Json) (s : Settings) : Option Settings :=
  match configData with
  | none => some s
  | some doc => (parseToml p doc s).map (parsePollingInterval p doc)

/-! ### TUF -/

/-- The results of `tuf_client_fetch_file`. -/
inductive FetchRet
  | success (targetBuffer : List Byte)
  | dataExceedsBufferSize
  | httpCode (code : Nat)
  | failed

def tufClientFetchFile (s : Settings) (fileBaseName : List Byte) (targetBufferLen : Nat) :
    M FetchRet := do
  let url := printed 300 (ascii "/repo/" ++ fileBaseName)
  let reply ← aknanoSendHttpRequest p e (ascii "GET") url [] s
  pure <|
    if reply.passed then
      if reply.httpCode / 100 = 2 then
        if reply.bytes.length > targetBufferLen then .dataExceedsBufferSize
        else .success reply.bytes
      else .httpCode reply.httpCode
    else .failed

/-- One callback; what it delivers goes to the library. -/
def tufCallback (s : Settings) : TufCall → M Unit
  | .fetch fileBaseName targetBufferLen => do
    let _ ← tufClientFetchFile p e s fileBaseName targetBufferLen
  | .read role targetBuffer _ => do
    let _ ← onFlash (tufClientReadLocalFile e.faults role targetBuffer 0)
  | .write role data _ => do
    let _ ← onFlash (tufClientWriteLocalFile e.faults role data)

def tufCallbacks (s : Settings) : List TufCall → M Unit
  | [] => pure ()
  | call :: calls => do
    tufCallback p e s call
    tufCallbacks s calls

/-- Result and contents of `ucUserBuffer`. -/
def tufRefresh (s : Settings) : M (Int × List Byte) := do
  let t ← tick e
  let run := e.tufRefresh t
  tufCallbacks p e s run.calls
  pure (run.ret, run.userBuffer)

/-! ### The end of an update -/

/-- The settings once the update is over: of a rollback only the correlation
id is forgotten. -/
def endOfUpdate (s : Settings) : Settings :=
  let s := if ¬ s.isRunningRolledBackImage then
      { s with
        lastAppliedVersion := 0
        lastConfirmedVersion := s.runningVersion
        rollbackNextRetryTime := 0
        rollbackRetryCount := 0 }
    else s
  { s with ongoingUpdateCorrelationId := .zero _ }

/-- `executedOnce` is the static variable of the function; it is returned with
the settings. -/
def aknanoSendInstallationFinishedEvent (s : Settings) (executedOnce : Bool) :
    M (Settings × Bool) := do
  if executedOnce then pure (s, executedOnce)
  else
    let runningVersionReported := s.lastConfirmedVersion = s.runningVersion
    if ¬ s.isRunningRolledBackImage ∧ runningVersionReported then
      emit .settled
      pure (s, true)
    else
      let (_, s) ← aknanoSendEvent p e s .installationCompleted 0 (!s.isRunningRolledBackImage)
      -- whether the event was sent makes no difference
      let applied := s.lastAppliedVersion
      let s := endOfUpdate s
      let ret ← during .saving (onFlash (aknanoUpdateSettingsInFlash e.faults s))
      emit (.completed s.isRunningRolledBackImage applied (ret = 0))
      pure (s, true)

/-! ### The check-in -/

/-- `struct aknano_context`. -/
structure Context where
  settings : Settings
  selectedTarget : AknanoTarget

def aknanoInitContext (s : Settings) : Context := ⟨s, .zero⟩

def systemInfo (s : Settings) : List Byte :=
  printed 250 (ascii "\x7b  \"product\": \"" ++ aknanoGetBoardName p
    ++ ascii "\", \"description\": \"Aktualizr-nano PoC\", \"claimed\": true,  \"serial\": \""
    ++ s.serial.str ++ ascii "\",  \"id\": \"" ++ aknanoGetBoardName p
    ++ ascii "\",  \"class\": \"MCU\" \x7d")

def fillNetworkInfo : List Byte :=
  let dotted := (p.ipv4.bytes.map fun b => decimal b.toNat).intersperse (ascii ".")
  let colons := (p.mac.bytes.map hex2).intersperse (ascii ":")
  printed 250 (ascii "\x7b \"local_ipv4\": \"" ++ dotted.flatten ++ ascii "\", \"mac\": \""
    ++ colons.flatten ++ ascii "\"\x7d")

def systemConfig (s : Settings) : List Byte :=
  ascii "[aknano_settings]\npoll_interval = " ++ signedDecimal s.pollingInterval
    ++ ascii "\nhw_id = \"" ++ aknanoGetBoardName p ++ ascii "\"\ntag = \"" ++ s.tag.str
    ++ ascii "\"\nbinary_compilation_local_time = \"" ++ p.compilationTime
    ++ ascii "\"\nprovisioning_mode = \"No Secure Element\""

/-- The configuration of the server, if one arrived. -/
def fetchConfig (s : Settings) : M Settings := do
  let reply ← aknanoSendHttpRequest p e (ascii "GET") (ascii "/config") [] s
  match reply.passed, reply.body with
  | true, some body =>
    match parseConfig p (e.json body) s with
    | some s => pure s
    | none => throw .fault
  | _, _ => pure s

/-- After a successful refresh: select a target, then finish the last update. -/
def handleRefreshed (c : Context) (executedOnce : Bool) (userBuffer : List Byte) :
    M (Context × Bool) := do
  let metadata := userBuffer.takeWhile (· ≠ 0)
  emit (.refreshed metadata)
  let (_, selectedTarget) := parseTargetsMetadata p.overflow (e.json metadata) c.settings.hwid
    c.settings.tag.str c.selectedTarget
  if c.settings.applicationSelfTestOk then
    let isImagePermanent ← aknanoSetImageConfirmed e c.settings.isImagePermanent
    let s := { c.settings with isImagePermanent := isImagePermanent }
    let (s, executedOnce) ← aknanoSendInstallationFinishedEvent p e s executedOnce
    pure (⟨s, selectedTarget⟩, executedOnce)
  else pure (⟨c.settings, selectedTarget⟩, executedOnce)

def aknanoCheckin (c : Context) (executedOnce : Bool) : M (Int × Context × Bool) := do
  if ← aknanoConnectToDeviceGateway p e then
    let s ← fetchConfig p e c.settings
    -- the replies to the next three are not looked at
    let _ ← aknanoSendHttpRequest p e (ascii "PUT") (ascii "/system_info") (systemInfo p s) s
    let _ ← aknanoSendHttpRequest p e (ascii "PUT") (ascii "/system_info/network")
      (fillNetworkInfo p) s
    let _ ← aknanoSendHttpRequest p e (ascii "PUT") (ascii "/system_info/config")
      (systemConfig p s) s
    let _ ← aknanoCliGetCurrentEpoch e
    let (tufRet, userBuffer) ← tufRefresh p e s
    let c := { c with settings := s }
    let (c, executedOnce) ←
      if tufRet = tufSuccess then handleRefreshed p e c executedOnce userBuffer
      else pure (c, executedOnce)
    aknanoMtlsDisconnect e
    pure (tufRet, c, executedOnce)
  else
    aknanoMtlsDisconnect e
    pure (-10, c, executedOnce)

end AktualizrNano
