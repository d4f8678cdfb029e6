/-
AktualizrNano/Device.lean

The device the agent runs on.  Its `World` is what survives in a run: the
flash, the state of the bootloader, and a record of what happened.  All that
the agent does not decide is a function of time in an `Env`: when power is
lost, what servers reply, what the random generator and the clock deliver,
which calls of the SDK fail.  Nothing is assumed of an `Env`, so a statement
for every `Env` is a statement for every such behaviour.

Power can be lost at every call that leaves the agent (`tick`); between two of
them only RAM changes.  `log` records the steps of the update protocol and
`net` the HTTP exchanges, newest first; the program does not read either.
-/
import AktualizrNano.Bootloader
import AktualizrNano.CoreJson
import AktualizrNano.Settings
import AktualizrNano.TargetsManifest
import AktualizrNano.TufClient

namespace AktualizrNano

open CLib NorFlash Outcome

/-! ### Messages -/

structure Request where
  hostname : List Byte
  method : List Byte
  path : List Byte
  body : List Byte
  headers : List (List Byte × List Byte)
  rangeStart : Nat
  rangeEnd : Nat
  deriving DecidableEq

/-- What a request leaves in the network context: the transport status,
`reply_http_code`, and `reply_body` unless that is null. -/
structure Reply where
  passed : Bool
  httpCode : Nat
  body : Option (List Byte)
  fits : ∀ bytes ∈ body, bytes.length ≤ aknanoImageDownloadBufferLength

/-- `reply_body_len` bytes at `reply_body`. -/
def Reply.bytes (r : Reply) : List Byte := r.body.getD []

theorem Reply.bytes_length (r : Reply) : r.bytes.length ≤ aknanoImageDownloadBufferLength := by
  rcases hb : r.body with - | bytes
  · simp [Reply.bytes, hb]
  · rw [Reply.bytes, hb]
    exact r.fits bytes hb

/-- A request that never reached a server. -/
def Reply.failed : Reply := ⟨false, 0, none, nofun⟩

structure Exchange where
  request : Request
  reply : Reply

/-! ### The record -/

/-- What a loss of power interrupted. -/
inductive Activity
  | installing
  | saving
  deriving DecidableEq

/-- The steps of the update protocol.

`permanent` is the version that is permanent after the step, `onTrial` whether
the running image was on trial before it, `applied` the value of
`last_applied_version` before it. -/
inductive Event
  | reset (pick : Pick) (permanent : Version)
  | loaded (readsOk : Bool) (running : Version) (rolledBack : Bool)
  | iteration
  | refreshed (metadata : List Byte)
  | confirmed (ok onTrial : Bool) (permanent : Version)
  | settled
  | completed (rolledBack : Bool) (applied : Version) (saved : Bool)
  | install (target : AknanoTarget) (running : Version)
  | downloaded (version : Version) (ok : Bool) (applied : Version)
  | readyForTest (version : Version) (ok : Bool)
  | installed (version : Version) (ok saved : Bool)
  | cut (activity : Activity)
  deriving DecidableEq

/-! ### The world and its environment -/

structure World where
  flash : Flash
  boot : Boot
  tick : Nat
  net : List Exchange
  log : List Event

/-- A streaming hash: feeding it in pieces or at once is the same. -/
structure Sha256 where
  Ctx : Type
  starts : Ctx
  update : Ctx → List Byte → Ctx
  finish : Ctx → CharArray aknanoSha256Len
  digest : List Byte → CharArray aknanoSha256Len
  finish_foldl : ∀ chunks : List (List Byte),
    finish (chunks.foldl update starts) = digest chunks.flatten

/-- One callback made by `tuf_refresh`. -/
inductive TufCall
  | fetch (fileBaseName : List Byte) (targetBufferLen : Nat)
  | read (role : TufRole) (targetBuffer : List Byte)
      (fits : targetBuffer.length ≤ aknanoTufMetadataMaxSize)
  | write (role : TufRole) (data : List Byte) (fits : data.length ≤ aknanoTufMetadataMaxSize)

/-- One call of `tuf_refresh`: what it does, its result, and what it leaves in
`ucUserBuffer`. -/
structure TufRun where
  calls : List TufCall
  ret : Int
  userBuffer : List Byte

/-- All that the agent does not decide.  The first argument of each function
is the time of the call. -/
structure Env where
  faults : FlashFaults
  /-- power is lost -/
  cut : Nat → Bool
  /-- `aknano_cli_get_current_epoch` -/
  epoch : Nat → BitVec 64
  /-- `aknano_cli_gen_random_bytes` -/
  random : Nat → (size : Nat) → CharArray size
  /-- `aknano_mtls_connect` succeeds -/
  connects : Nat → List Byte → Bool
  /-- the server, and the HTTP client library -/
  reply : Nat → Request → Reply
  tufRefresh : Nat → TufRun
  /-- the status of `bl_get_image_state` -/
  imageStateStatus : Nat → Int
  /-- the status of `bl_update_image_state` -/
  updateStatus : Nat → Int
  /-- `bl_get_update_partition_info`: `none` for an error -/
  updatePartition : Nat → Option Nat
  /-- `bl_verify_image` -/
  blVerifyImage : Nat → Mem → Nat → Nat → Int
  /-- `next_retry_backoff` after that many calls of the backoff library -/
  backoff : Nat → BitVec 32 → BitVec 16
  /-- coreJSON: the document, if the text is one -/
  json : List Byte → Option Json
  sha256 : Sha256

/-- The hash with this digest, fed byte by byte. -/
def Sha256.ofDigest (digest : List Byte → CharArray aknanoSha256Len) : Sha256 where
  Ctx := List Byte
  starts := []
  update := fun ctx input => ctx ++ input
  finish := digest
  digest := digest
  finish_foldl chunks := by
    have h : chunks.foldl (fun ctx input => ctx ++ id input) [] = [] ++ (chunks.map id).flatten :=
      List.foldl_append_eq_append
    rw [List.nil_append, List.map_id] at h
    exact congrArg digest h

/-- The SHA-256 of `"abc"`. -/
def sha256Abc : CharArray aknanoSha256Len :=
  ⟨[0xBA, 0x78, 0x16, 0xBF, 0x8F, 0x01, 0xCF, 0xEA, 0x41, 0x41, 0x40, 0xDE, 0x5D, 0xAE, 0x22, 0x23,
    0xB0, 0x03, 0x61, 0xA3, 0x96, 0x17, 0x7A, 0x9C, 0xB4, 0x10, 0xFF, 0x61, 0xF2, 0x00, 0x15, 0xAD],
    rfl⟩

/-- An environment for concrete runs: no server answers, the device works, and
the only image anyone asks for is `"abc"`. -/
def Env.sample : Env where
  faults := .reliable
  cut := fun _ => false
  epoch := fun t => BitVec.ofNat 64 (1680000000 + t)
  random := fun _ _ => .zero _
  connects := fun _ _ => false
  reply := fun _ _ => .failed
  tufRefresh := fun _ => ⟨[], -1, []⟩
  imageStateStatus := fun _ => 0
  updateStatus := fun _ => 0
  updatePartition := fun _ => some 0x200000
  blVerifyImage := fun _ _ _ _ => 1
  backoff := fun _ _ => 10
  json := fun _ => none
  sha256 := .ofDigest fun bs => if bs = ascii "abc" then sha256Abc else .zero _

/-- A new device: erased, with a permanent image of this version. -/
def World.factory (version : Version) : World := ⟨.erased, .factory version, 0, [], []⟩

/-- A program of the agent. -/
abbrev M := EStateM Halt World

variable (e : Env)

/-! ### Calls that leave the agent -/

/-- Time passes; power may be lost.  The result is the time of the call. -/
def tick : M Nat := fun w =>
  let w' : World := { w with tick := w.tick + 1 }
  if e.cut w.tick then .error .powerCut w' else .ok w.tick w'

/-- A call of the flash driver. -/
def onFlash {α : Type} (x : FlashM α) : M α :=
  zoom World.flash (fun f w => { w with flash := f }) x

/-- Put a step on record. -/
def emit (event : Event) : M Unit := modify fun w => { w with log := event :: w.log }

/-- Put on record that power was lost during `x`. -/
def during {α : Type} (activity : Activity) (x : M α) : M α :=
  onError x fun w => { w with log := .cut activity :: w.log }

def aknanoDelay (_ms : Nat) : M Unit := do
  let _ ← tick e

def aknanoRebootCommand {α : Type} : M α := do
  aknanoDelay e 100
  throw .reboot

def aknanoCliGetCurrentEpoch : M (BitVec 64) := do
  let t ← tick e
  pure (e.epoch t)

def aknanoCliGenRandomBytes (size : Nat) : M (CharArray size) := do
  let t ← tick e
  pure (e.random t size)

/-! ### The image -/

/-- `bl_update_image_state`; `0` is success, and anything else leaves the state
as it was. -/
def blUpdateImageState (update : Boot → Boot) : M Int := do
  let t ← tick e
  let status := e.updateStatus t
  if status = 0 then
    modify fun w => { w with boot := update w.boot }
  pure status

def blGetImageState : M (Option Boot.SwapType) := do
  let t ← tick e
  let w ← get
  pure (if e.imageStateStatus t = 0 then some w.boot.imageState else none)

def aknanoSetImageReadyForTest : M Int := blUpdateImageState e Boot.arm

def aknanoVerifyImage (imageSize : Nat) : M Bool := do
  let t ← tick e
  match e.updatePartition t with
  | none => pure false
  | some start => do
    let t ← tick e
    let w ← get
    pure (decide (e.blVerifyImage t w.flash.mem start imageSize > 0))

/-- Returns the new `is_image_permanent`. -/
def aknanoSetImageConfirmed (isImagePermanent : Bool) : M Bool := do
  if isImagePermanent then pure true
  else
    let w ← get
    let status ← blUpdateImageState e Boot.confirm
    let w' ← get
    emit (.confirmed (status = 0) w.boot.fallback.isSome w'.boot.permanent)
    pure (decide (status = 0))

def aknanoIsCurrentImagePermanent : M Bool := do
  aknanoDelay e 200
  match ← blGetImageState e with
  | some .testing => pure false
  | some .readyForTest => pure false
  | some .permanent => pure true
  | none => pure false

def aknanoGetCurrentVersion : M Version := do
  let _ ← tick e
  let w ← get
  pure w.boot.running

def aknanoGetImagePosition : M (BitVec 8) := do
  let _ ← tick e
  let w ← get
  pure (w.boot.activeImage + 1)

/-! ### The network -/

/-- The loop goes by the terminating NUL alone: `i` never moves. -/
def stringIsAscii (s : List Byte) (len : Nat) : Bool :=
  len = 0 || (s.takeWhile (· ≠ 0)).all fun c => 9 ≤ c && c ≤ 126

def aknanoMtlsConnect (hostname : List Byte) : M Bool := do
  let t ← tick e
  pure (e.connects t hostname)

/-- A body with other characters is not sent. -/
def aknanoMtlsSendHttpRequest (request : Request) : M Reply := do
  if ¬ stringIsAscii request.body request.body.length then pure Reply.failed
  else
    let t ← tick e
    let reply := e.reply t request
    modify fun w => { w with net := ⟨request, reply⟩ :: w.net }
    pure reply

def aknanoMtlsDisconnect : M Unit := do
  let _ ← tick e

/-! ### Programs that only compute and talk -/

/-- Only time has passed. -/
def Still (w w' : World) : Prop := w' = { w with tick := w'.tick }

theorem Still.refl (w : World) : Still w w := rfl

instance : Trans Still Still Still where
  trans h h' := by
    rw [Still, h', h]

/-- The settings sector is the same. -/
def SameSector (m m' : Mem) : Prop := ∀ x, stateLo ≤ x → x < stateHi → m' x = m x

/-- Nothing that the next boot of the agent goes by has changed. -/
structure Quiet (w w' : World) : Prop where
  boot : w'.boot = w.boot
  log : w'.log = w.log
  sector : SameSector w.flash.mem w'.flash.mem

theorem Quiet.refl (w : World) : Quiet w w := ⟨rfl, rfl, fun _ _ _ => rfl⟩

instance : Trans Quiet Quiet Quiet where
  trans h h' := ⟨h'.boot.trans h.boot, h'.log.trans h.log,
    fun x hlo hhi => (h'.sector x hlo hhi).trans (h.sector x hlo hhi)⟩

theorem Still.quiet {w w' : World} (h : Still w w') : Quiet w w' := by
  rw [h]
  exact ⟨rfl, rfl, fun _ _ _ => rfl⟩

/-- A frame that lies beside the settings sector keeps it. -/
theorem sameSector_of_sameOutside {lo hi : Nat} {m m' : Mem} (h : SameOutside lo hi m m')
    (hout : hi ≤ stateLo ∨ stateHi ≤ lo) : SameSector m m' :=
  fun x hlo hhi => h x (by omega)

section Still

variable {e : Env}

theorem still_tick : Keeps Still (tick e) := by
  intro w
  unfold wp tick
  rcases e.cut w.tick with - | -
  · rfl
  · rfl

theorem still_get : Keeps Still (get : M World) := fun w => wp_get.mpr (Still.refl w)

theorem still_delay (ms : Nat) : Keeps Still (aknanoDelay e ms) :=
  still_tick.bind fun _ => .pure Still.refl ()

theorem still_currentEpoch : Keeps Still (aknanoCliGetCurrentEpoch e) :=
  still_tick.bind fun _ => .pure Still.refl _

theorem still_randomBytes (size : Nat) : Keeps Still (aknanoCliGenRandomBytes e size) :=
  still_tick.bind fun _ => .pure Still.refl _

theorem still_verifyImage (imageSize : Nat) : Keeps Still (aknanoVerifyImage e imageSize) := by
  refine still_tick.bind fun t => ?_
  split
  · exact .pure Still.refl _
  · exact still_tick.bind fun _ => still_get.bind fun _ => .pure Still.refl _

theorem still_mtlsConnect (hostname : List Byte) : Keeps Still (aknanoMtlsConnect e hostname) :=
  still_tick.bind fun _ => .pure Still.refl _

theorem still_mtlsDisconnect : Keeps Still (aknanoMtlsDisconnect e) :=
  still_tick.bind fun _ => .pure Still.refl ()

end Still

/-- A request that is sent and answered is put on record; one that is not
leaves nothing. -/
theorem mtlsSendHttpRequest_spec {e : Env} {request : Request} (w : World) :
    wp (aknanoMtlsSendHttpRequest e request)
      (fun reply w' => reply.passed = true ∨ stringIsAscii request.body request.body.length →
        w' = { w with tick := w'.tick, net := ⟨request, reply⟩ :: w.net })
      (fun _ w' => Still w w') w := by
  unfold aknanoMtlsSendHttpRequest
  by_cases h : ¬ stringIsAscii request.body request.body.length
  · rw [if_pos h, wp_pure]
    rintro (h' | h')
    · cases h'
    · exact absurd h' h
  · rw [if_neg h]
    refine still_tick.wp_bind (fun t w' h' => ?_) fun _ _ h' => h'
    rw [wp_bind, wp_modify, wp_pure, h']
    exact fun _ => rfl

/-- As long as there is power, an ASCII request is sent and answered. -/
theorem mtlsSendHttpRequest_ascii {e : Env} {request : Request} {w : World}
    (hascii : stringIsAscii request.body request.body.length) :
    wp (aknanoMtlsSendHttpRequest e request)
      (fun reply w' => reply = e.reply w.tick request ∧
        w' = { w with tick := w'.tick, net := ⟨request, reply⟩ :: w.net })
      (fun _ w' => e.cut w.tick = true ∧ Still w w') w := by
  unfold aknanoMtlsSendHttpRequest
  rw [if_neg (not_not_intro hascii), wp_bind]
  unfold wp tick
  cases hcut : e.cut w.tick with
  | false => exact ⟨rfl, rfl⟩
  | true => exact ⟨rfl, rfl⟩

theorem quiet_mtlsSendHttpRequest {e : Env} (request : Request) :
    Keeps Quiet (aknanoMtlsSendHttpRequest e request) := by
  unfold aknanoMtlsSendHttpRequest
  split
  · exact .pure Quiet.refl _
  · refine (still_tick.mono fun _ _ => Still.quiet).bind fun t w => ?_
    rw [Outcome.wp_bind, wp_modify, wp_pure]
    exact ⟨rfl, rfl, fun _ _ _ => rfl⟩

/-! ### What is sent -/

/-- The exchanges that have taken place satisfy `P`. -/
def Sends (P : Exchange → Prop) (w w' : World) : Prop :=
  ∃ new, w'.net = new ++ w.net ∧ ∀ x ∈ new, P x

section Sends

variable {P : Exchange → Prop} {w w' : World} {e : Env}

/-- Nothing was sent. -/
theorem Sends.of_eq (h : w'.net = w.net) : Sends P w w' := ⟨[], h, by simp⟩

theorem Sends.refl (w : World) : Sends P w w := .of_eq rfl

theorem Sends.trans {w'' : World} (h : Sends P w w') (h' : Sends P w' w'') : Sends P w w'' := by
  obtain ⟨new, hnet, hall⟩ := h
  obtain ⟨new', hnet', hall'⟩ := h'
  refine ⟨new' ++ new, by rw [hnet', hnet, List.append_assoc], ?_⟩
  intro x hx
  rcases List.mem_append.mp hx with hx | hx
  · exact hall' x hx
  · exact hall x hx

instance : Trans (Sends P) (Sends P) (Sends P) where
  trans h h' := h.trans h'

theorem Still.sends (h : Still w w') : Sends P w w' := by
  rw [h]
  exact .of_eq rfl

theorem sends_onFlash {α : Type} (x : FlashM α) : Keeps (Sends P) (onFlash x) := by
  intro w
  rw [onFlash, wp_zoom]
  unfold wp
  cases x w.flash <;> exact .of_eq rfl

theorem sends_mtlsSendHttpRequest {request : Request} (h : ∀ reply, P ⟨request, reply⟩) :
    Keeps (Sends P) (aknanoMtlsSendHttpRequest e request) := by
  unfold aknanoMtlsSendHttpRequest
  split
  · exact .pure Sends.refl _
  · refine (still_tick.mono fun _ _ => Still.sends).bind fun t w => ?_
    rw [Outcome.wp_bind, wp_modify, wp_pure]
    refine ⟨[⟨request, e.reply t request⟩], rfl, ?_⟩
    intro x hx
    rw [List.mem_singleton.mp hx]
    exact h _

/-- A request is on record if it passed. -/
theorem mtlsSendHttpRequest_passed {request : Request} (w : World) :
    wp (aknanoMtlsSendHttpRequest e request)
      (fun reply w' => if reply.passed then w'.net = ⟨request, reply⟩ :: w.net
        else Sends (fun x => x.reply.passed = false) w w') (fun _ _ => True) w := by
  unfold aknanoMtlsSendHttpRequest
  split
  · exact (wp_pure _).mpr (Sends.refl w)
  · refine still_tick.wp_bind (fun t w₁ h₁ => ?_) fun _ _ _ => trivial
    have hnet : w₁.net = w.net := by rw [h₁]
    rw [Outcome.wp_bind, wp_modify, wp_pure]
    split
    · exact congrArg (_ :: ·) hnet
    · next hfailed =>
      refine ⟨[⟨request, e.reply t request⟩], congrArg (_ :: ·) hnet, ?_⟩
      intro x hx
      rw [List.mem_singleton.mp hx]
      exact Bool.eq_false_iff.mpr hfailed

end Sends

end AktualizrNano
