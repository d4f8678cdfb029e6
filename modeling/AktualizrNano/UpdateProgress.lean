/-
AktualizrNano/UpdateProgress.lean

An update that is offered goes through.

With power and a flash that works, no call of the agent is stopped
(`Env.Works.sendEvent`, `Env.Works.tufRefresh`, …), so what is known of a call
however it ends becomes a statement about what it returns.  `Cooperates` says
what else an update needs: a refresh that offers the target, a server that has
its image, and a bootloader that does what it is asked to.  Events need not get
through.

The first boot with an iteration ends in a reset with the image armed
(`bootOnce_arms`); the next one confirms it (`bootOnce_confirms`); and nothing
that comes after that changes it again (`bootOnce_settles`).

Main result: `lifetime_updates`, for a device in any state whose stored settings
do not already name the version as one that was applied.
-/
import AktualizrNano.ImageServer
import AktualizrNano.ImageSlots
import AktualizrNano.InstallEnd
import AktualizrNano.TrustAnchor

namespace AktualizrNano

open CLib NorFlash Outcome

variable {p : Platform} {e : Env}

/-! ### Calls that return -/

namespace Env.Works

theorem returns_tick (h : e.Works) : Finishes (AktualizrNano.tick e) := fun w =>
  wp_mono (h.tick w) (fun _ _ _ => trivial) fun _ _ hE => hE

theorem returns_delay (h : e.Works) (ms : Nat) : Finishes (aknanoDelay e ms) :=
  h.returns_tick.bind fun _ => .pure ()

theorem returns_currentEpoch (h : e.Works) : Finishes (aknanoCliGetCurrentEpoch e) :=
  h.returns_tick.bind fun _ => .pure _

theorem returns_randomBytes (h : e.Works) (size : Nat) :
    Finishes (aknanoCliGenRandomBytes e size) := h.returns_tick.bind fun _ => .pure _

theorem returns_genSerialAndUuid (h : e.Works) : Finishes (aknanoGenSerialAndUuid e) :=
  (h.returns_randomBytes 16).bind fun _ => .pure _

theorem returns_mtlsConnect (h : e.Works) (hostname : List Byte) :
    Finishes (aknanoMtlsConnect e hostname) := h.returns_tick.bind fun _ => .pure _

theorem returns_mtlsDisconnect (h : e.Works) : Finishes (aknanoMtlsDisconnect e) :=
  h.returns_tick.bind fun _ => .pure ()

theorem returns_sendHttpRequest (h : e.Works) (method path body : List Byte) (s : Settings) :
    Finishes (aknanoSendHttpRequest p e method path body s) := by
  unfold aknanoSendHttpRequest aknanoMtlsSendHttpRequest
  split
  · exact .pure _
  · exact h.returns_tick.bind fun _ => (Finishes.modify _).bind fun _ => .pure _

/-- A program of the flash that a fault alone can stop. -/
theorem returns_onFlash (h : e.Works) {α : Type} {x : FlashM α}
    {Q : Flash → α → Flash → Prop} {R : Flash → Flash → Prop}
    (hx : ∀ f, wp x (Q f) (fun _ f' => R f f' ∧ ¬ e.faults.Reliable) f) : Finishes (onFlash x) :=
  Finishes.zoom fun f => wp_mono (hx f) (fun _ _ _ => trivial) fun _ _ hE => hE.2 h.flash

theorem returns_blUpdateImageState (h : e.Works) (update : Boot → Boot) :
    Finishes (blUpdateImageState e update) := by
  refine h.returns_tick.bind fun t => ?_
  dsimp only
  split
  · exact (Finishes.modify _).bind fun _ => .pure _
  · exact .pure _

theorem returns_updateSettings (h : e.Works) (s : Settings) :
    Finishes (onFlash (aknanoUpdateSettingsInFlash e.faults s)) :=
  h.returns_onFlash (R := fun f f' => SameOutside stateLo stateHi f.mem f'.mem)
    (updateSettings_spec s)

theorem returns_sendEvent (h : e.Works) (s : Settings) (eventType : EventType)
    (newVersion : Version) (success : Bool) :
    Finishes (aknanoSendEvent p e s eventType newVersion success) := by
  have hpayload : ∀ s, Finishes (fillEventPayload p e s eventType newVersion success) := fun s =>
    h.returns_genSerialAndUuid.bind fun _ => h.returns_currentEpoch.bind fun _ => .pure _
  have hrounds : ∀ retries s,
      Finishes (sendEventRounds p e eventType newVersion success retries s) := by
    intro retries
    induction retries with
    | zero => exact fun s => .pure _
    | succ retries ih =>
      intro s
      rw [sendEventRounds]
      refine (h.returns_mtlsConnect _).bind fun connected => ?_
      split
      · refine (hpayload s).bind fun r => ?_
        refine (h.returns_sendHttpRequest _ _ _ _).bind fun reply =>
          h.returns_mtlsDisconnect.bind fun _ => ?_
        split
        · exact .pure _
        · exact ih _
      · exact (h.returns_delay 2000).bind fun _ => ih s
  exact hrounds _ s

theorem returns_tufCallbacks (h : e.Works) (s : Settings) (calls : List TufCall) :
    Finishes (tufCallbacks p e s calls) := by
  have hcall : ∀ call, Finishes (tufCallback p e s call) := by
    intro call
    cases call with
    | fetch fileBaseName targetBufferLen =>
      exact ((h.returns_sendHttpRequest _ _ _ _).bind fun _ => .pure _).bind fun _ => .pure _
    | read role targetBuffer hfits =>
      exact (h.returns_onFlash (R := fun f f' => InRegion role f.mem f'.mem)
        fun f => readLocalFile_spec role hfits f).bind fun _ => .pure _
    | write role data hfits =>
      exact (h.returns_onFlash (R := fun f f' => InRegion role f.mem f'.mem)
        fun f => writeLocalFile_spec role hfits f).bind fun _ => .pure _
  induction calls with
  | nil => exact .pure _
  | cons call calls ih => exact (hcall call).bind fun _ => ih

end Env.Works

/-! ### A bootloader that obeys -/

namespace Env.Works

theorem blUpdateImageState (h : e.Works) (hupdates : ∀ t, e.updateStatus t = 0)
    (update : Boot → Boot) (w : World) :
    wp (AktualizrNano.blUpdateImageState e update)
      (fun status w' => status = 0 ∧ w' = { w with tick := w'.tick, boot := update w.boot })
      (fun _ _ => False) w := by
  have hstatus : wp (AktualizrNano.blUpdateImageState e update) (fun status _ => status = 0)
      (fun _ _ => True) w := by
    refine still_tick.wp_bind (fun t w₁ _ => ?_) fun _ _ _ => trivial
    rw [if_pos (hupdates t), wp_bind, wp_modify, wp_pure]
    exact hupdates t
  refine (h.returns_blUpdateImageState update).spec
    (wp_mono (wp_and hstatus (blUpdateImageState_spec update w)) ?_ fun _ _ hE => hE)
  rintro status w' ⟨hok, hw'⟩
  rw [if_pos hok] at hw'
  exact ⟨hok, hw'⟩

/-- The image on trial is confirmed. -/
theorem setImageConfirmed (h : e.Works) (hupdates : ∀ t, e.updateStatus t = 0)
    (isImagePermanent : Bool) (w : World) :
    wp (aknanoSetImageConfirmed e isImagePermanent)
      (fun r w' => r = true ∧ w'.boot = (if isImagePermanent then w.boot else w.boot.confirm) ∧
        w'.flash = w.flash ∧ w'.net = w.net)
      (fun _ _ => False) w := by
  cases isImagePermanent with
  | true => exact (wp_pure _).mpr ⟨rfl, rfl, rfl, rfl⟩
  | false =>
    rw [aknanoSetImageConfirmed, if_neg Bool.false_ne_true, wp_bind, wp_get, wp_bind]
    refine wp_mono (h.blUpdateImageState hupdates Boot.confirm w) ?_ fun _ _ hE => hE
    rintro status w₁ ⟨hstatus, h₁⟩
    rw [wp_bind, wp_get, wp_bind, wp_emit, wp_pure, h₁]
    exact ⟨decide_eq_true hstatus, rfl, rfl, rfl⟩

end Env.Works

/-! ### What an update needs -/

/-- All that an update needs: each refresh offers `target`, the download server
has its image, and the bootloader does what it is asked to.  The image goes to
`slot`. -/
structure Cooperates (p : Platform) (e : Env) (slot : Slot) (target : AknanoTarget)
    (image : List Byte) : Prop where
  works : e.Works
  connects : ∀ t hostname, e.connects t hostname = true
  /-- a configuration that arrives is accepted and keeps the tag -/
  config : ∀ t request body s, request.path = ascii "/config" →
    (e.reply t request).body = some body →
    ∃ s', parseConfig p (e.json body) s = some s' ∧ s'.tag = s.tag
  refreshed : ∀ t, (e.tufRefresh t).ret = tufSuccess
  offered : ∀ t, (parseTargetsMetadata p.overflow
    (e.json ((e.tufRefresh t).userBuffer.takeWhile (· ≠ 0))) (some (aknanoGetBoardName p))
    (ascii "devel") .zero).2 = target
  serves : Serves p e (relativePath target.expectedHash.bytes) image
  size : target.expectedSize.toNat = image.length
  fits : image.length < aknanoMaxFirmwareSize
  hash : target.expectedHash = e.sha256.digest image
  partition : ∀ t, e.updatePartition t = some (slotAddress p slot)
  verified : ∀ t m, NorFlash.read m (slotAddress p slot) image.length = image →
    e.blVerifyImage t m (slotAddress p slot) image.length > 0
  updates : ∀ t, e.updateStatus t = 0

/-- The settings that make `target` the one to be selected. -/
structure Listening (p : Platform) (s : Settings) : Prop where
  tag : s.tag.str = ascii "devel"
  hwid : s.hwid = some (aknanoGetBoardName p)
  selfTest : s.applicationSelfTestOk = true

namespace Cooperates

variable {slot : Slot} {target : AknanoTarget} {image : List Byte}

/-- The configuration changes the polling interval at most. -/
theorem fetchConfig (h : Cooperates p e slot target image) (s : Settings) (w : World) :
    wp (AktualizrNano.fetchConfig p e s)
      (fun s' w' => Talks w w' ∧ Reconfigured s s' ∧ s'.tag = s.tag) (fun _ _ => False) w := by
  rw [AktualizrNano.fetchConfig, wp_bind, aknanoSendHttpRequest_eq]
  have hsent : wp (aknanoMtlsSendHttpRequest e
      (gatewayRequest p (ascii "GET") (ascii "/config") [] s))
      (fun reply w' => Talks w w' ∧
        reply = e.reply w.tick (gatewayRequest p (ascii "GET") (ascii "/config") [] s))
      (fun _ _ => False) w := by
    refine wp_mono (mtlsSendHttpRequest_ascii rfl) ?_ ?_
    · rintro reply w' ⟨hreply, hw'⟩
      refine ⟨?_, hreply⟩
      rw [hw']
      rfl
    · rintro _ _ ⟨hcut, -⟩
      rw [h.works.power] at hcut
      cases hcut
  refine wp_mono hsent ?_ fun _ _ hE => hE
  rintro reply w₁ ⟨htalks, hreply⟩
  split
  · next body hpassed hbody =>
    rw [hreply] at hbody
    obtain ⟨s', hparse, htag⟩ := h.config _ _ body s rfl hbody
    rw [hparse]
    exact (wp_pure _).mpr ⟨htalks, parseConfig_reconfigures hparse, htag⟩
  · exact (wp_pure _).mpr ⟨htalks, Reconfigured.refl s, rfl⟩

/-- The refresh succeeds. -/
theorem tufRefresh (h : Cooperates p e slot target image) (s : Settings) (w : World) :
    wp (AktualizrNano.tufRefresh p e s)
      (fun r w' => (Quiet w w' ∧ Stores w w') ∧ r.1 = tufSuccess ∧
        Refreshed e (r.2.takeWhile (· ≠ 0)))
      (fun _ _ => False) w := by
  have hret : wp (AktualizrNano.tufRefresh p e s) (fun r _ => r.1 = tufSuccess)
      (fun _ _ => False) w := by
    rw [AktualizrNano.tufRefresh]
    refine h.works.returns_tick.wp_bind wp_true fun t w₁ _ => ?_
    refine (h.works.returns_tufCallbacks s _).wp_bind wp_true fun _ w₂ _ => ?_
    exact (wp_pure _).mpr (h.refreshed t)
  refine wp_mono (wp_and hret (wp_and (tufRefresh_spec s w) (stores_tufRefresh s w))) ?_
    fun _ _ hE => hE.1
  rintro r w' ⟨hok, ⟨hquiet, hfresh⟩, hstores⟩
  exact ⟨⟨hquiet, hstores⟩, hok, hfresh hok⟩

end Cooperates

/-! ### A check-in that goes through -/

/-- The settings are saved. -/
theorem Env.Works.saveSettings (h : e.Works) {s : Settings}
    (hid : PlainId s.ongoingUpdateCorrelationId) (w : World) :
    wp (onFlash (aknanoUpdateSettingsInFlash e.faults s))
      (fun _ w' => w'.boot = w.boot ∧ storedOf p w'.flash.mem = (ramOf s true).stored ∧
        SameOutside stateLo stateHi w.flash.mem w'.flash.mem)
      (fun _ _ => False) w := by
  have hsaved : wp (onFlash (aknanoUpdateSettingsInFlash e.faults s))
      (fun ret w' => ret = 0 ∧ SameOutside stateLo stateHi w.flash.mem w'.flash.mem)
      (fun _ _ => True) w := by
    rw [onFlash, wp_zoom]
    exact wp_mono (updateSettings_spec s w.flash) (fun _ _ hQ => ⟨hQ.2.2 h.flash, hQ.1⟩)
      fun _ _ _ => trivial
  refine (h.returns_updateSettings s).spec
    (wp_mono (wp_and hsaved (saveSettings_spec (p := p) hid true w)) ?_ fun _ _ hE => hE)
  rintro ret w' ⟨⟨hret, hframe⟩, hboot, -, hstored⟩
  exact ⟨hboot, hstored hret, hframe⟩

/-- What a check-in that goes through may change in the settings. -/
structure Advanced (s s' : Settings) : Prop where
  tag : s'.tag = s.tag
  hwid : s'.hwid = s.hwid
  selfTest : s'.applicationSelfTestOk = s.applicationSelfTestOk
  running : s'.runningVersion = s.runningVersion
  imagePosition : s'.imagePosition = s.imagePosition
  rolledBack : s'.isRunningRolledBackImage = s.isRunningRolledBackImage
  applied : s'.lastAppliedVersion = s.lastAppliedVersion ∨ s'.lastAppliedVersion = 0

/-- What it makes of the stored settings when the image was not rolled back:
they name the running version as confirmed. -/
def Noted (p : Platform) (s : Settings) (executedOnce : Bool) (m m' : Mem) : Prop :=
  storedOf p m' = storedOf p m ∧
      (executedOnce = true ∨ s.lastConfirmedVersion = s.runningVersion) ∨
    (storedOf p m').applied = 0 ∧ (storedOf p m').confirmed = checkedVersion s.runningVersion

theorem Advanced.listening {s s' : Settings} (h : Advanced s s') (hs : Listening p s) :
    Listening p s' :=
  ⟨by rw [h.tag, hs.tag], h.hwid.trans hs.hwid, h.selfTest.trans hs.selfTest⟩

theorem endOfUpdate_advanced (s : Settings) : Advanced s (endOfUpdate s) := by
  unfold endOfUpdate
  dsimp only
  split
  · exact ⟨rfl, rfl, rfl, rfl, rfl, rfl, Or.inr rfl⟩
  · exact ⟨rfl, rfl, rfl, rfl, rfl, rfl, Or.inl rfl⟩

/-- No correlation id is left to be saved. -/
theorem endOfUpdate_plain (s : Settings) : PlainId (endOfUpdate s).ongoingUpdateCorrelationId :=
  show (CharArray.zero aknanoMaxUpdateCorrelationIdLength).bytes.headD 0 ≤ 0x46 by decide

/-- **The completion handler** notes the running version. -/
theorem Env.Works.sendInstallationFinishedEvent (h : e.Works) (s : Settings)
    (executedOnce : Bool) (w : World) :
    wp (aknanoSendInstallationFinishedEvent p e s executedOnce)
      (fun r w' => w'.boot = w.boot ∧ r.2 = true ∧ Advanced s r.1 ∧
        r.1.isImagePermanent = s.isImagePermanent ∧
        (s.isRunningRolledBackImage = false →
          Noted p s executedOnce w.flash.mem w'.flash.mem))
      (fun _ _ => False) w := by
  have hsame : Advanced s s := ⟨rfl, rfl, rfl, rfl, rfl, rfl, Or.inl rfl⟩
  unfold aknanoSendInstallationFinishedEvent
  cases executedOnce with
  | true => exact (wp_pure _).mpr ⟨rfl, rfl, hsame, rfl, fun _ => Or.inl ⟨rfl, Or.inl rfl⟩⟩
  | false =>
    rw [if_neg Bool.false_ne_true]
    dsimp only
    by_cases hreported : ¬ s.isRunningRolledBackImage = true ∧
        s.lastConfirmedVersion = s.runningVersion
    · rw [if_pos hreported, wp_bind, wp_emit, wp_pure]
      exact ⟨rfl, rfl, hsame, rfl, fun _ => Or.inl ⟨rfl, Or.inr hreported.2⟩⟩
    · rw [if_neg hreported]
      refine (h.returns_sendEvent s .installationCompleted 0 _).wp_bind
        (wp_and (talks_sendEvent s _ _ _ w) (aknanoSendEvent_spec s _ _ _ w)) ?_
      rintro ⟨sent, s₁⟩ w₁ ⟨htalks, -, id, hs₁, -⟩
      dsimp only at hs₁ ⊢
      subst hs₁
      rw [wp_bind, during, wp_onError]
      refine wp_mono (h.saveSettings (p := p) (endOfUpdate_plain _) w₁) ?_ fun _ _ hE => hE
      rintro ret w₂ ⟨hboot, hstored, -⟩
      rw [wp_bind, wp_emit, wp_pure]
      have hadvanced := endOfUpdate_advanced { s with ongoingUpdateCorrelationId := id }
      have hboot₁ : w₁.boot = w.boot := by rw [htalks]
      refine ⟨hboot.trans hboot₁, rfl, ⟨hadvanced.tag, hadvanced.hwid, hadvanced.selfTest,
        hadvanced.running, hadvanced.imagePosition, hadvanced.rolledBack, hadvanced.applied⟩,
        endOfUpdate_permanent _, fun hgood => Or.inr ?_⟩
      dsimp only
      rw [hstored, ramOf_endOfUpdate]
      simp only [Ram.stored, Ram.completed, ramOf, hgood, Bool.false_eq_true, if_false]
      exact ⟨rfl, trivial⟩

namespace Cooperates

variable {slot : Slot} {target : AknanoTarget} {image : List Byte}

/-- **The check-in** selects the target and confirms the running image. -/
theorem checkin (h : Cooperates p e slot target image) {s : Settings} (hs : Listening p s)
    (executedOnce : Bool) (w : World) :
    wp (aknanoCheckin p e (aknanoInitContext s) executedOnce)
      (fun r w' => r.1 = 0 ∧ r.2.2 = true ∧ r.2.1.selectedTarget = target ∧
        Advanced s r.2.1.settings ∧ r.2.1.settings.isImagePermanent = true ∧
        w'.boot = (if s.isImagePermanent then w.boot else w.boot.confirm) ∧
        (s.isRunningRolledBackImage = false →
          Noted p s executedOnce w.flash.mem w'.flash.mem))
      (fun _ _ => False) w := by
  have hput : ∀ path body s, Finishes (aknanoSendHttpRequest p e (ascii "PUT") path body s) :=
    fun path body s => h.works.returns_sendHttpRequest _ path body s
  have hquiet : ∀ path body (s : Settings) (w : World),
      wp (aknanoSendHttpRequest p e (ascii "PUT") path body s) (fun _ w' => Talks w w')
        (fun _ w' => Talks w w') w := fun path body s w => talks_sendHttpRequest _ path body s w
  unfold aknanoCheckin
  have hconnected : wp (aknanoConnectToDeviceGateway p e) (fun r w' => r = true ∧ Still w w')
      (fun _ _ => False) w := by
    rw [aknanoConnectToDeviceGateway, aknanoMtlsConnect, wp_bind]
    exact wp_mono (h.works.tick w) (fun t w₁ h₁ => (wp_pure _).mpr ⟨h.connects t _, h₁⟩)
      fun _ _ hE => hE
  rw [wp_bind]
  refine wp_mono hconnected ?_ fun _ _ hE => hE
  rintro connected w₁ ⟨rfl, h₁⟩
  rw [if_pos rfl, wp_bind]
  refine wp_mono (h.fetchConfig s w₁) ?_ fun _ _ hE => hE
  rintro s₂ w₂ ⟨h₂, ⟨tag, interval, rfl⟩, htag⟩
  dsimp only at htag
  subst htag
  refine (hput _ _ _).wp_bind (hquiet _ _ _ w₂) fun _ w₃ h₃ => ?_
  refine (hput _ _ _).wp_bind (hquiet _ _ _ w₃) fun _ w₄ h₄ => ?_
  refine (hput _ _ _).wp_bind (hquiet _ _ _ w₄) fun _ w₅ h₅ => ?_
  refine h.works.returns_currentEpoch.wp_bind (still_currentEpoch w₅) fun _ w₆ h₆ => ?_
  have h₀₆ : Talks w w₆ := Trans.trans h₁.talks (Trans.trans h₂ (Trans.trans h₃ (Trans.trans h₄
    (Trans.trans h₅ h₆.talks : Talks w₄ w₆) : Talks w₃ w₆) : Talks w₂ w₆) : Talks w₁ w₆)
  rw [wp_bind]
  refine wp_mono (h.tufRefresh _ w₆) ?_ fun _ _ hE => hE
  rintro ⟨tufRet, userBuffer⟩ w₇ ⟨⟨hquiet₇, hstores₇⟩, rfl, t, -, hmetadata⟩
  dsimp only
  rw [if_pos rfl]
  unfold handleRefreshed
  simp only [bind_assoc]
  rw [wp_bind, wp_emit, if_pos hs.selfTest, bind_assoc, wp_bind]
  refine wp_mono (h.works.setImageConfirmed h.updates _ _) ?_ fun _ _ hE => hE
  rintro isImagePermanent w₈ ⟨rfl, hboot₈, hflash₈, -⟩
  rw [bind_assoc, wp_bind]
  refine wp_mono (h.works.sendInstallationFinishedEvent _ executedOnce w₈) ?_ fun _ _ hE => hE
  rintro ⟨s₉, executed⟩ w₉ ⟨hboot₉, rfl, hadvanced, hpermanent, hnoted⟩
  refine h.works.returns_mtlsDisconnect.wp_bind (still_mtlsDisconnect w₉) fun _ w₁₀ h₁₀ => ?_
  rw [wp_pure]
  have hboot₇ : w₇.boot = w.boot := hstores₇.boot.trans (by rw [h₀₆])
  have hstored₈ : storedOf p w₈.flash.mem = storedOf p w.flash.mem := by
    rw [hflash₈]
    refine (storedOf_congr hquiet₇.sector).trans ?_
    rw [h₀₆]
  refine ⟨rfl, rfl, ?_, ⟨hadvanced.tag, hadvanced.hwid, hadvanced.selfTest, hadvanced.running,
    hadvanced.imagePosition, hadvanced.rolledBack, hadvanced.applied⟩, hpermanent, ?_,
    fun hgood => ?_⟩
  · dsimp only
    rw [hs.hwid, hs.tag, hmetadata]
    exact h.offered t
  · rw [h₁₀]
    exact hboot₉.trans (hboot₈.trans (by rw [← hboot₇]))
  · rw [Noted, h₁₀, ← hstored₈]
    exact hnoted hgood

end Cooperates

/-! ### The installation -/

/-- With a new id, an event that is sent changes nothing but the messages. -/
theorem Env.Works.sendEvent (h : e.Works) {s : Settings} (hid : NewId s) (eventType : EventType)
    (newVersion : Version) (success : Bool) (w : World) :
    wp (aknanoSendEvent p e s eventType newVersion success)
      (fun r w' => r.2 = s ∧ Talks w w') (fun _ _ => False) w := by
  refine (h.returns_sendEvent s eventType newVersion success).spec (wp_mono
    (wp_and (talks_sendEvent s _ _ _ w) (aknanoSendEvent_spec s _ _ _ w)) ?_ fun _ _ hE => hE)
  rintro r w' ⟨htalks, -, hfills⟩
  exact ⟨hfills.eq (of_decide_eq_true hid.there), htalks⟩

namespace Cooperates

variable {slot : Slot} {target : AknanoTarget} {image : List Byte}

/-- The bootloader accepts the image. -/
theorem verifyImage (h : Cooperates p e slot target image) {w : World}
    (himage : NorFlash.read w.flash.mem (slotAddress p slot) image.length = image) :
    wp (aknanoVerifyImage e image.length) (fun r w' => r = true ∧ Still w w') (fun _ _ => False)
      w := by
  rw [aknanoVerifyImage, wp_bind]
  refine wp_mono (h.works.tick w) ?_ fun _ _ hE => hE
  intro t w₁ h₁
  rw [h.partition t, wp_bind]
  refine wp_mono (h.works.tick w₁) ?_ fun _ _ hE => hE
  intro t' w₂ h₂
  rw [wp_bind, wp_get, wp_pure]
  have hstill : Still w w₂ := Trans.trans h₁ h₂
  refine ⟨decide_eq_true (h.verified t' _ ?_), hstill⟩
  rw [hstill]
  exact himage

/-- **The download** leaves the image in its slot. -/
theorem downloadAndFlashImage (h : Cooperates p e slot target image) {imagePosition : BitVec 8}
    (hslot : aknanoGetTargetSlotAddress p imagePosition = slotAddress p slot) (w : World) :
    wp (aknanoDownloadAndFlashImage p e imagePosition target)
      (fun ok w' => ok = true ∧ w'.boot = w.boot ∧
        NorFlash.read w'.flash.mem (slotAddress p slot) image.length = image)
      (fun _ _ => False) w := by
  rw [aknanoDownloadAndFlashImage, aknanoConnectToDownloadServer, aknanoMtlsConnect, bind_assoc,
    wp_bind]
  refine wp_mono (h.works.tick w) ?_ fun _ _ hE => hE
  intro t w₁ h₁
  rw [pure_bind, if_pos (h.connects t _), aknanoDownloadImage, hslot, h.size, wp_bind]
  refine wp_mono (Fetching.rounds h.serves h.works (slotAddress_slotAt slot) h.fits _
    (.start image _ w₁) ?_) ?_ fun _ _ hE => hE
  · have hfits := h.fits
    have hstart : (Download.start e).xCurByte = 0 := rfl
    omega
  rintro d w₂ ⟨hcomplete, xs, hfetching⟩
  -- all requests are answered: the image was received, and hashed
  have hcur := hfetching.xCurByte
  have hfront : received xs = image := by
    rw [hfetching.front, List.take_of_length_le (by omega)]
  have hstored : d.stored = image.length := by rw [hfetching.received.stored, hfront]
  have hplace := hfetching.received.inPlace
  rw [hfront] at hplace
  have hhashed : target.expectedHash = e.sha256.finish d.sha256Context := by
    rw [h.hash, hfetching.received.hashed, e.sha256.finish_foldl, ← hfront]
    rfl
  refine h.works.returns_mtlsDisconnect.wp_bind (still_mtlsDisconnect w₂) fun _ w₃ h₃ => ?_
  have hplace₃ : NorFlash.read w₃.flash.mem (slotAddress p slot) image.length = image := by
    rw [h₃]
    exact hplace
  dsimp only
  rw [hstored, if_neg (not_not_intro rfl), if_pos hfetching.xStatus,
    if_neg (not_not_intro hhashed)]
  refine wp_mono (h.verifyImage hplace₃) ?_ fun _ _ hE => hE
  rintro r w₄ ⟨hr, h₄⟩
  have hstill : Still w₂ w₄ := Trans.trans h₃ h₄
  refine ⟨hr, ?_, ?_⟩
  · rw [hstill]
    exact hfetching.inSlot.boot.trans (by rw [h₁])
  · rw [h₄]
    exact hplace₃

/-- Three events, and the version is noted between the second and the third. -/
theorem applyTarget (h : Cooperates p e slot target image) {s : Settings} (hid : NewId s)
    (version : Version) (w : World) :
    wp (AktualizrNano.applyTarget p e s version)
      (fun r w' => r = (true, { s with lastAppliedVersion := version }) ∧
        w'.boot = w.boot.arm ∧ w'.flash = w.flash)
      (fun _ _ => False) w := by
  rw [AktualizrNano.applyTarget, wp_bind]
  refine wp_mono (h.works.sendEvent hid ..) ?_ fun _ _ hE => hE
  rintro ⟨sent₁, s₁⟩ w₁ ⟨hs₁, h₁⟩
  obtain rfl : s₁ = s := hs₁
  rw [wp_bind]
  refine wp_mono (h.works.sendEvent hid ..) ?_ fun _ _ hE => hE
  rintro ⟨sent₂, s₂⟩ w₂ ⟨hs₂, h₂⟩
  obtain rfl : s₂ = s₁ := hs₂
  have hid' : NewId { s₂ with lastAppliedVersion := version } := ⟨hid.there, hid.plain⟩
  dsimp only
  rw [wp_bind]
  refine wp_mono (h.works.sendEvent hid' ..) ?_ fun _ _ hE => hE
  rintro ⟨sent₃, s₃⟩ w₃ ⟨hs₃, h₃⟩
  dsimp only at hs₃ ⊢
  have htalks : Talks w w₃ := Trans.trans h₁ (Trans.trans h₂ h₃ : Talks w₁ w₃)
  rw [aknanoSetImageReadyForTest, wp_bind]
  refine wp_mono (h.works.blUpdateImageState h.updates Boot.arm w₃) ?_ fun _ _ hE => hE
  rintro status w₄ ⟨rfl, h₄⟩
  rw [wp_bind, wp_emit, wp_pure, h₄, hs₃]
  refine ⟨rfl, ?_, ?_⟩
  · dsimp only
    rw [htalks]
  · dsimp only
    rw [htalks]

/-- The settings are saved, with the version that was noted. -/
theorem closeInstallation (h : Cooperates p e slot target image) {s : Settings}
    (hid : PlainId s.ongoingUpdateCorrelationId) (version : Version) (w : World) :
    wp (do let s ← scheduleRetry e true s
           let ret ← onFlash (aknanoUpdateSettingsInFlash e.faults s)
           emit (.installed version true (ret = 0))
           pure (true, s))
      (fun r w' => r.1 = true ∧ w'.boot = w.boot ∧
        (storedOf p w'.flash.mem).applied = checkedVersion s.lastAppliedVersion ∧
        SameOutside stateLo stateHi w.flash.mem w'.flash.mem)
      (fun _ _ => False) w := by
  have htime : ∀ s, Finishes (aknanoGetNextRollbackRetryTime e s) := fun s =>
    (h.works.returns_randomBytes 4).bind fun _ => h.works.returns_currentEpoch.bind fun _ =>
      .pure _
  have hretry : Finishes (scheduleRetry e true s) := (htime _).bind fun _ => .pure _
  refine hretry.wp_bind (scheduleRetry_spec true s w) ?_
  rintro s₁ w₁ ⟨h₁, -, count, time, hs₁⟩
  have hid₁ : PlainId s₁.ongoingUpdateCorrelationId := by rw [hs₁]; exact hid
  rw [wp_bind]
  refine wp_mono (h.works.saveSettings (p := p) hid₁ w₁) ?_ fun _ _ hE => hE
  rintro ret w₂ ⟨hboot, hstored, hframe⟩
  rw [wp_bind, wp_emit, wp_pure]
  have hmem : w₁.flash.mem = w.flash.mem := by rw [h₁]
  refine ⟨rfl, hboot.trans (by rw [h₁]), ?_, ?_⟩
  · dsimp only
    rw [hstored, hs₁]
    rfl
  · rw [← hmem]
    exact hframe

/-- Where an installation that goes through leaves the device. -/
structure Prepared (p : Platform) (slot : Slot) (target : AknanoTarget) (image : List Byte)
    (b : Boot) (w : World) : Prop where
  boot : w.boot = { b with inactive := some target.version, armed := some target.version }
  image : NorFlash.read w.flash.mem (slotAddress p slot) image.length = image
  applied : (storedOf p w.flash.mem).applied = checkedVersion target.version

/-- The image is not in the settings sector. -/
theorem image_kept (h : Cooperates p e slot target image) {m m' : Mem}
    (hframe : ∀ x, ¬ InState x → m' x = m x) :
    NorFlash.read m' (slotAddress p slot) image.length
      = NorFlash.read m (slotAddress p slot) image.length := by
  have hfits := h.fits
  refine read_congr fun i hi => hframe _ ?_
  have hin : InImageSlot p slot (slotAddress p slot + i) := ⟨Nat.le_add_right .., by omega⟩
  exact hin.not_inState

/-- **The installation** prepares the reset. -/
theorem installSelectedTarget (h : Cooperates p e slot target image) {s : Settings} {w : World}
    (hpos : Positioned s w) (hslot : w.boot.active.other = slot) :
    wp (aknanoInstallSelectedTarget p e ⟨s, target⟩)
      (fun r w' => r.1 = true ∧ Prepared p slot target image w.boot w') (fun _ _ => False) w := by
  have haddr : aknanoGetTargetSlotAddress p s.imagePosition = slotAddress p slot := by
    rw [hpos, targetSlot_eq, hslot]
  rw [aknanoInstallSelectedTarget, wp_bind, wp_emit, during, wp_onError]
  dsimp only
  refine h.works.returns_genSerialAndUuid.wp_bind (genSerialAndUuid_eq _) ?_
  rintro ⟨uuid, unusedSerial⟩ w₁ ⟨h₁, huuid⟩
  obtain ⟨rfl, -⟩ := Prod.mk.inj huuid
  obtain ⟨hid, -⟩ := newId_of_generated s s.ongoingUpdateCorrelationId (e.random w.tick 16).bytes
  have hboot₁ : w₁.boot = w.boot := by rw [h₁]
  dsimp only
  generalize s.ongoingUpdateCorrelationId.store _ = id at hid ⊢
  rw [wp_bind]
  refine wp_mono (h.works.sendEvent hid ..) ?_ fun _ _ hE => hE
  rintro ⟨sent, s₂⟩ w₂ ⟨hs₂, h₂⟩
  obtain rfl : s₂ = _ := hs₂
  have hboot₂ : w₂.boot = w.boot := by rw [h₂]; exact hboot₁
  rw [wp_bind]
  refine wp_mono (h.downloadAndFlashImage haddr w₂) ?_ fun _ _ hE => hE
  rintro ok w₃ ⟨rfl, hboot₃, himage₃⟩
  rw [wp_bind, noteDownload, wp_modify, if_pos rfl, wp_bind]
  refine wp_mono (h.applyTarget hid target.version _) ?_ fun _ _ hE => hE
  rintro r w₄ ⟨rfl, hboot₄, hflash₄⟩
  refine wp_mono (h.closeInstallation (s := { s with
    ongoingUpdateCorrelationId := id, lastAppliedVersion := target.version }) hid.plain
    target.version w₄) ?_ fun _ _ hE => hE
  rintro r w₅ ⟨hr, hboot₅, happlied, hframe⟩
  refine ⟨hr, ?_, ?_, happlied⟩
  · rw [hboot₅, hboot₄, hboot₃, hboot₂]
    rfl
  · rw [h.image_kept fun x hx => hframe x ?_, hflash₄]
    · exact himage₃
    · by_contra hnot
      exact hx (Or.inl (by omega))

end Cooperates

/-! ### The start of a boot -/

/-- What the loop starts with, on a device in this state. -/
structure Started (p : Platform) (s : Settings) (w w' : World) : Prop where
  boot : w'.boot = w.boot
  mem : w'.flash.mem = w.flash.mem
  listening : Listening p (aknanoSetApplicationSelfTestOk s)
  positioned : Positioned s w'
  ram : ramOf s false = (storedOf p w.flash.mem).load (runningVersionOf w.boot.running)
  permanent : s.isImagePermanent = true → w.boot.fallback = none

theorem Env.Works.init (h : e.Works) (w : World) :
    wp (aknanoInit p e) (fun s w' => Started p s w w') (fun _ _ => False) w := by
  have hposition : Finishes (aknanoGetImagePosition e) :=
    h.returns_tick.bind fun _ => Finishes.get.bind fun _ => .pure _
  have hstate : Finishes (aknanoIsCurrentImagePermanent e) := by
    refine (h.returns_delay 200).bind fun _ => Finishes.bind ?_ fun state => ?_
    · exact h.returns_tick.bind fun _ => Finishes.get.bind fun _ => .pure _
    · split <;> exact .pure _
  unfold aknanoInit
  rw [aknanoGetImagePosition, bind_assoc]
  refine h.returns_tick.wp_bind (still_tick w) fun _ w₁ h₁ => ?_
  rw [bind_assoc, wp_bind, wp_get, pure_bind, aknanoGetCurrentVersion, bind_assoc]
  refine h.returns_tick.wp_bind (still_tick w₁) fun _ w₂ h₂ => ?_
  have h₀₂ : Still w w₂ := Trans.trans h₁ h₂
  rw [bind_assoc, wp_bind, wp_get, pure_bind, wp_bind, onFlash, wp_zoom]
  refine wp_mono (aknanoInitSettings_spec _ _ w₂.flash) ?_ fun _ _ hE => hE.2 h.flash
  rintro ⟨readsOk, s⟩ f ⟨hmem, ⟨fields, hs, hfields⟩, hrel⟩
  dsimp only at hs hfields hrel ⊢
  have hboot₁ : w₁.boot = w.boot := by rw [h₁]
  have hboot₂ : w₂.boot = w.boot := by rw [h₀₂]
  have hmem₂ : w₂.flash.mem = w.flash.mem := by rw [h₀₂]
  rw [hfields (hrel h.flash), hmem₂, hboot₁, hboot₂] at hs
  generalize hw₃ : { w₂ with flash := f } = w₃
  have hboot₃ : w₃.boot = w.boot := by rw [← hw₃]; exact hboot₂
  have hmem₃ : w₃.flash.mem = w.flash.mem := by rw [← hw₃]; exact hmem.trans hmem₂
  refine (h.returns_delay 100).wp_bind (still_delay 100 w₃) fun _ w₄ h₄ => ?_
  rw [wp_bind, wp_emit]
  refine (h.returns_delay 100).wp_bind (still_delay 100 _) fun _ w₅ h₅ => ?_
  refine (h.returns_delay 100).wp_bind (still_delay 100 w₅) fun _ w₆ h₆ => ?_
  refine hstate.wp_bind (isCurrentImagePermanent_spec w₆) ?_
  rintro isImagePermanent w₇ ⟨h₇, hpermanent⟩
  have hboot₆ : w₆.boot = w.boot := by rw [h₆, h₅, h₄]; exact hboot₃
  have hboot₇ : w₇.boot = w.boot := by rw [h₇]; exact hboot₆
  rw [wp_pure]
  refine ⟨hboot₇, ?_, ⟨?_, ?_, rfl⟩, ?_, ?_, fun hp => ?_⟩
  · rw [h₇, h₆, h₅, h₄]
    exact hmem₃
  · rw [hs]
    show ((CharArray.zero aknanoMaxTagLength).store (ascii "devel")).str = ascii "devel"
    decide
  · rw [hs]
    rfl
  · rw [Positioned, hboot₇, hs]
    rfl
  · have hflag : ramOf { s with isImagePermanent := isImagePermanent } false = ramOf s false := rfl
    rw [hflag, hs, ramOf_settingsOf, storedOf]
  · rw [← hboot₆]
    exact hpermanent hp

/-! ### The boot that installs -/

/-- A newer version that was not applied before is to be installed. -/
theorem isUpdateRequired_newer {c : Context}
    (hnewer : c.settings.runningVersion < c.selectedTarget.version)
    (hother : c.selectedTarget.version ≠ c.settings.lastAppliedVersion) :
    isUpdateRequired e c = pure true := by
  have hne : c.selectedTarget.version ≠ 0 := by
    intro hzero
    rw [hzero] at hnewer
    exact BitVec.not_lt_zero hnewer
  have hmatching : aknanoHasMatchingTarget c = true := decide_eq_true hne
  have hrollback : ¬ aknanoIsRollback c = true := fun h => hother (of_decide_eq_true h)
  unfold isUpdateRequired
  rw [if_pos hmatching, if_neg hrollback, pure_bind]
  exact (if_neg fun h => hrollback h.1).trans (congrArg pure (decide_eq_true hnewer))

/-- A version that is not newer is not installed. -/
theorem Env.Works.isUpdateRequired (h : e.Works) {c : Context}
    (hold : ¬ c.settings.runningVersion < c.selectedTarget.version) (w : World) :
    wp (AktualizrNano.isUpdateRequired e c) (fun r w' => r = false ∧ Still w w')
      (fun _ _ => False) w := by
  have hretry : Finishes (aknanoShouldRetryRollback e c) := by
    unfold aknanoShouldRetryRollback
    split
    · exact .pure _
    · exact h.returns_currentEpoch.bind fun _ => .pure _
  have hdecide : ∀ (shouldRetry : Bool) (w : World), wp
      (if aknanoIsRollback c = true ∧ ¬ shouldRetry = true then pure false
        else pure (decide (c.settings.runningVersion < c.selectedTarget.version)) : M Bool)
      (fun r _ => r = false) (fun _ _ => False) w := by
    intro shouldRetry w
    split
    · exact (wp_pure _).mpr rfl
    · exact (wp_pure _).mpr (decide_eq_false hold)
  have hresult : wp (AktualizrNano.isUpdateRequired e c) (fun r _ => r = false)
      (fun _ _ => False) w := by
    unfold AktualizrNano.isUpdateRequired
    split
    · dsimp only
      split
      · exact hretry.wp_bind wp_true fun shouldRetry w₁ _ => hdecide shouldRetry w₁
      · exact (wp_bind (x := pure false)).mpr ((wp_pure _).mpr (hdecide false w))
    · exact (wp_pure _).mpr rfl
  exact wp_mono (wp_and hresult (still_isUpdateRequired c w)) (fun _ _ hQ => hQ)
    fun _ _ hE => hE.1

/-- The image that is running is permanent afterwards, whatever it was. -/
theorem confirm_if {b : Boot} {isImagePermanent : Bool}
    (hperm : isImagePermanent = true → b.fallback = none) :
    (if isImagePermanent then b else b.confirm) = { b with fallback := none } := by
  cases isImagePermanent with
  | false => rfl
  | true => rw [if_pos rfl, ← hperm rfl]

namespace Cooperates

variable {slot : Slot} {target : AknanoTarget} {image : List Byte}

/-- After the check-in: the target is installed, and the device is reset. -/
theorem handleCheckin_arms (h : Cooperates p e slot target image) {s : Settings} {w : World}
    (hpos : Positioned s w) (hslot : w.boot.active.other = slot)
    (hnewer : s.runningVersion < target.version) (hother : target.version ≠ s.lastAppliedVersion) :
    wp (handleCheckin p e ⟨s, target⟩) (fun _ _ => False)
      (fun _ w' => Prepared p slot target image w.boot w') w := by
  have hrequired : AktualizrNano.isUpdateRequired e ⟨s, target⟩ = pure true :=
    isUpdateRequired_newer hnewer hother
  rw [handleCheckin, hrequired, pure_bind, if_pos rfl, wp_bind]
  refine wp_mono (h.installSelectedTarget hpos hslot) ?_ fun _ _ hE => hE.elim
  rintro ⟨isRebootRequired, s₁⟩ w₁ ⟨rfl, hprepared⟩
  refine wp_mono (reboot_spec w₁) (fun _ _ hQ => hQ.elim) fun _ w₂ h₂ => ?_
  rw [h₂]
  exact ⟨hprepared.boot, hprepared.image, hprepared.applied⟩

/-- **The iteration that installs** ends in a reset. -/
theorem loopBody_arms (h : Cooperates p e slot target image) (startupEpoch : BitVec 64) {l : Loop}
    {w : World} (hs : Listening p l.settings) (hpos : Positioned l.settings w)
    (hslot : w.boot.active.other = slot) (hnewer : l.settings.runningVersion < target.version)
    (hother : target.version ≠ l.settings.lastAppliedVersion)
    (hperm : l.settings.isImagePermanent = true → w.boot.fallback = none) :
    wp (loopBody p e startupEpoch l) (fun _ _ => False)
      (fun _ w' => Prepared p slot target image { w.boot with fallback := none } w') w := by
  unfold loopBody
  rw [wp_bind, wp_emit]
  generalize hw₁ : { w with log := .iteration :: w.log } = w₁
  have hboot₁ : w₁.boot = w.boot := by rw [← hw₁]
  rw [wp_bind]
  refine wp_mono (h.checkin hs l.executedOnce w₁) ?_ fun _ _ hE => hE.elim
  rintro ⟨checkinResult, ⟨s, selected⟩, executedOnce⟩ w₂ ⟨rfl, rfl, rfl, hadvanced, -, hboot₂, -⟩
  dsimp only at hadvanced h ⊢
  rw [hboot₁, confirm_if hperm] at hboot₂
  have hpos₂ : Positioned s w₂ := by
    rw [Positioned, hadvanced.imagePosition, hboot₂]
    exact hpos
  have hslot₂ : w₂.boot.active.other = slot := by rw [hboot₂]; exact hslot
  have hnewer₂ : s.runningVersion < selected.version := by rw [hadvanced.running]; exact hnewer
  have hother₂ : selected.version ≠ s.lastAppliedVersion := by
    rcases hadvanced.applied with happlied | happlied
    · rw [happlied]
      exact hother
    · -- nothing is older than version 0
      rw [happlied]
      intro hzero
      rw [hzero] at hnewer₂
      exact BitVec.not_lt_zero hnewer₂
  rw [if_pos rfl, wp_bind]
  refine wp_mono (h.handleCheckin_arms hpos₂ hslot₂ hnewer₂ hother₂) (fun _ _ hQ => hQ.elim)
    fun _ _ hE => ?_
  rw [hboot₂] at hE
  exact hE

/-- **The first boot** ends with the image armed. -/
theorem bootOnce_arms (h : Cooperates p e slot target image) (n : Nat) {w : World}
    (hslot : w.boot.reset.active.other = slot)
    (hnewer : runningVersionOf w.boot.reset.running < target.version)
    (hother : target.version ≠ (storedOf p w.flash.mem).applied) :
    Prepared p slot target image { w.boot.reset with fallback := none }
      (final (bootOnce p e (n + 1)) w) := by
  refine wp.final (P := Prepared p slot target image { w.boot.reset with fallback := none }) ?_
  rw [bootOnce, wp_bind, powerOn, wp_modify, aknanoSampleLoop]
  refine h.works.returns_currentEpoch.wp_bind (still_currentEpoch _) fun startupEpoch w₁ h₁ => ?_
  rw [wp_bind]
  refine wp_mono (h.works.init w₁) ?_ fun _ _ hE => hE.elim
  intro s w₂ h₂
  have hboot₂ : w₂.boot = w.boot.reset := h₂.boot.trans (by rw [h₁])
  have hmem₁ : w₁.flash.mem = w.flash.mem := by rw [h₁]
  have hboot₁ : w₁.boot = w.boot.reset := by rw [h₁]
  have hram := h₂.ram
  rw [hmem₁, hboot₁] at hram
  have hrunning : s.runningVersion = runningVersionOf w.boot.reset.running :=
    congrArg Ram.running hram
  have happlied : s.lastAppliedVersion = (storedOf p w.flash.mem).applied :=
    congrArg Ram.applied hram
  rw [sampleLoop, wp_bind]
  refine wp_mono (h.loopBody_arms startupEpoch (l := ⟨aknanoSetApplicationSelfTestOk s, false,
    false⟩) h₂.listening h₂.positioned (by rw [hboot₂]; exact hslot) ?_ ?_ ?_)
    (fun _ _ hQ => hQ.elim) fun _ _ hE => ?_
  · exact hrunning ▸ hnewer
  · exact happlied ▸ hother
  · intro hp
    rw [hboot₂, ← hboot₁]
    exact h₂.permanent hp
  · rw [hboot₂] at hE
    exact hE

end Cooperates

/-! ### The boots after it -/

/-- The stored settings name this version as the last one, and no other as one
that was tried. -/
structure Acknowledged (p : Platform) (version : Version) (m : Mem) : Prop where
  confirmed : (storedOf p m).confirmed = checkedVersion version
  applied : (storedOf p m).applied = 0 ∨ (storedOf p m).applied = version

/-- From what a boot loads to what its check-in leaves. -/
theorem Noted.acknowledged {s : Settings} {executedOnce : Bool} {m m' : Mem}
    (h : Noted p s executedOnce m m')
    (happlied : (storedOf p m).applied = 0 ∨ (storedOf p m).applied = s.runningVersion)
    (hconfirmed : executedOnce = true ∨ s.lastConfirmedVersion = s.runningVersion →
      (storedOf p m).confirmed = checkedVersion s.runningVersion) :
    Acknowledged p s.runningVersion m' := by
  rcases h with ⟨hsame, hreported⟩ | ⟨hzero, hrunning⟩
  · exact ⟨by rw [hsame]; exact hconfirmed hreported, by rw [hsame]; exact happlied⟩
  · exact ⟨hrunning, Or.inl hzero⟩

/-- The device runs this version, and knows it. -/
structure Installed (p : Platform) (version : Version) (b : Boot) (w : World) : Prop where
  boot : w.boot = b
  acknowledged : Acknowledged p version w.flash.mem

/-- A loop on the new image, once it has checked in. -/
structure Updated (p : Platform) (version : Version) (b : Boot) (l : Loop) (w : World) : Prop where
  listening : Listening p l.settings
  running : l.settings.runningVersion = version
  rolledBack : l.settings.isRunningRolledBackImage = false
  permanent : l.settings.isImagePermanent = true
  executedOnce : l.executedOnce = true
  installed : Installed p version b w

theorem Updated.still {version : Version} {b : Boot} {l : Loop} {w w' : World}
    (h : Updated p version b l w) (hstill : Still w w') : Updated p version b l w' := by
  refine ⟨h.listening, h.running, h.rolledBack, h.permanent, h.executedOnce, ?_⟩
  rw [hstill]
  exact ⟨h.installed.boot, h.installed.acknowledged⟩

namespace Cooperates

variable {slot : Slot} {target : AknanoTarget} {image : List Byte}

/-- An iteration on the new image installs nothing. -/
theorem loopBody_stays (h : Cooperates p e slot target image) (startupEpoch : BitVec 64)
    {l : Loop} {w : World} (hs : Listening p l.settings)
    (hrunning : l.settings.runningVersion = target.version)
    (hgood : l.settings.isRunningRolledBackImage = false)
    (hperm : l.settings.isImagePermanent = true → w.boot.fallback = none)
    (hstored : ∀ m, Noted p l.settings l.executedOnce w.flash.mem m →
      Acknowledged p target.version m) :
    wp (loopBody p e startupEpoch l)
      (fun l' w' => Updated p target.version { w.boot with fallback := none } l' w')
      (fun _ _ => False) w := by
  unfold loopBody
  rw [wp_bind, wp_emit]
  generalize hw₁ : { w with log := .iteration :: w.log } = w₁
  have hboot₁ : w₁.boot = w.boot := by rw [← hw₁]
  have hmem₁ : w₁.flash.mem = w.flash.mem := by rw [← hw₁]
  rw [wp_bind]
  refine wp_mono (h.checkin hs l.executedOnce w₁) ?_ fun _ _ hE => hE.elim
  rintro ⟨checkinResult, ⟨s, selected⟩, executedOnce⟩ w₂
    ⟨rfl, rfl, rfl, hadvanced, hpermanent, hboot₂, hnoted⟩
  dsimp only at hadvanced hpermanent h hrunning hstored ⊢
  rw [hboot₁, confirm_if hperm] at hboot₂
  have hrunning₂ : s.runningVersion = selected.version := hadvanced.running.trans hrunning
  have hold : ¬ s.runningVersion < selected.version := by
    rw [hrunning₂]
    exact BitVec.lt_irrefl _
  have hacknowledged : Acknowledged p selected.version w₂.flash.mem := by
    rw [hmem₁] at hnoted
    exact hstored w₂.flash.mem (hnoted hgood)
  rw [if_pos rfl, wp_bind, handleCheckin, wp_bind]
  refine wp_mono (h.works.isUpdateRequired (c := ⟨s, selected⟩) hold w₂) ?_ fun _ _ hE => hE
  rintro updateRequired w₃ ⟨rfl, h₃⟩
  rw [if_neg Bool.false_ne_true, wp_pure, wp_bind, wp_pure, rebootIfOffline,
    if_neg fun hoffline => hoffline.1 rfl, wp_bind, wp_pure, wp_pure]
  refine ⟨hadvanced.listening hs, hrunning₂, hadvanced.rolledBack.trans hgood, hpermanent, rfl, ?_⟩
  rw [h₃]
  exact ⟨hboot₂, hacknowledged⟩

/-- The iterations that follow the first one. -/
theorem sampleLoop_stays (h : Cooperates p e slot target image) (startupEpoch : BitVec 64)
    {b : Boot} (hb : b.fallback = none) (n : Nat) {l : Loop} {w : World}
    (hl : Updated p target.version b l w) :
    wp (sampleLoop p e startupEpoch n l) (fun _ => Installed p target.version b)
      (fun _ => Installed p target.version b) w := by
  refine sampleLoop_rule (J := Updated p target.version b) ?_ (fun l w w' hl => hl.still)
    (fun l w hl => hl.installed) n hl
  intro l w hl
  have hboot := hl.installed.boot
  have hkept : { w.boot with fallback := none } = b := by rw [hboot, ← hb]
  refine wp_mono (h.loopBody_stays startupEpoch hl.listening hl.running hl.rolledBack
    (fun _ => by rw [hboot]; exact hb) fun m hnoted => ?_) (fun _ _ hQ => hkept ▸ hQ)
    fun _ _ hE => hE.elim
  have hstored := hl.installed.acknowledged
  rw [← hl.running] at hstored ⊢
  exact hnoted.acknowledged hstored.applied fun _ => hstored.confirmed

/-- **The boot on the new image** confirms it. -/
theorem bootOnce_confirms (h : Cooperates p e slot target image) (n : Nat) {w : World}
    (hrunning : w.boot.reset.running = target.version) (hnumber : target.version ≠ 0xFFFFFFFF)
    (happlied : (storedOf p w.flash.mem).applied = 0 ∨
      (storedOf p w.flash.mem).applied = target.version) :
    Installed p target.version { w.boot.reset with fallback := none }
      (final (bootOnce p e (n + 1)) w) := by
  refine wp.final (P := Installed p target.version { w.boot.reset with fallback := none }) ?_
  rw [bootOnce, wp_bind, powerOn, wp_modify, aknanoSampleLoop]
  refine h.works.returns_currentEpoch.wp_bind (still_currentEpoch _) fun startupEpoch w₁ h₁ => ?_
  have hboot₁ : w₁.boot = w.boot.reset := by rw [h₁]
  have hmem₁ : w₁.flash.mem = w.flash.mem := by rw [h₁]
  rw [wp_bind]
  refine wp_mono (h.works.init w₁) ?_ fun _ _ hE => hE.elim
  intro s w₂ h₂
  have hboot₂ : w₂.boot = w.boot.reset := h₂.boot.trans hboot₁
  have hmem₂ : w₂.flash.mem = w.flash.mem := h₂.mem.trans hmem₁
  have hram := h₂.ram
  have hbuild : runningVersionOf target.version = target.version := if_neg hnumber
  rw [hmem₁, hboot₁, hrunning, hbuild] at hram
  have hversion : s.runningVersion = target.version := congrArg Ram.running hram
  have hconfirmed : s.lastConfirmedVersion = (storedOf p w.flash.mem).confirmed :=
    congrArg Ram.confirmed hram
  have hgood : s.isRunningRolledBackImage = false := by
    refine (congrArg Ram.rolledBack hram).trans (decide_eq_false ?_)
    rintro ⟨hsome, hother, -⟩
    exact happlied.elim hsome hother
  rw [sampleLoop, wp_bind]
  refine wp_mono (h.loopBody_stays startupEpoch (l := ⟨aknanoSetApplicationSelfTestOk s, false,
    false⟩) h₂.listening hversion hgood (fun hp => ?_) fun m hnoted => ?_) ?_
    fun _ _ hE => hE.elim
  · rw [hboot₂, ← hboot₁]
    exact h₂.permanent hp
  · rw [hmem₂] at hnoted
    rw [← hversion] at happlied ⊢
    refine hnoted.acknowledged happlied fun hreported => ?_
    rcases hreported with hreported | hreported
    · cases hreported
    · calc (storedOf p w.flash.mem).confirmed
          = checkedVersion (storedOf p w.flash.mem).confirmed :=
            (checkedVersion_eq_iff.mpr (checkedVersion_le _)).symm
        _ = checkedVersion s.runningVersion :=
            congrArg checkedVersion (hconfirmed.symm.trans hreported)
  · intro l₁ w₃ hl
    rw [hboot₂] at hl
    split
    · refine (h.works.returns_delay _).wp_bind (still_delay _ w₃) fun _ w₄ h₄ => ?_
      exact h.sampleLoop_stays startupEpoch rfl n (hl.still h₄)
    · exact h.sampleLoop_stays startupEpoch rfl n hl

/-- **The later boots** change nothing of it. -/
theorem bootOnce_settles (h : Cooperates p e slot target image) (n : Nat) {b : Boot} {w : World}
    (hinstalled : Installed p target.version b w) (hrunning : b.running = target.version)
    (hfallback : b.fallback = none) (harmed : b.armed = none)
    (hnumber : target.version ≠ 0xFFFFFFFF) :
    Installed p target.version b (final (bootOnce p e n) w) := by
  have hreset : w.boot.reset = b := by
    rw [hinstalled.boot, Boot.reset, harmed, hfallback]
  cases n with
  | zero =>
    refine wp.final (P := Installed p target.version b) ?_
    rw [bootOnce, wp_bind, powerOn, wp_modify, aknanoSampleLoop]
    refine h.works.returns_currentEpoch.wp_bind (still_currentEpoch _) fun startupEpoch w₁ h₁ => ?_
    rw [wp_bind]
    refine wp_mono (h.works.init w₁) ?_ fun _ _ hE => hE.elim
    intro s w₂ h₂
    refine (wp_pure _).mpr ⟨?_, ?_⟩
    · rw [h₂.boot, h₁]
      exact hreset
    · rw [h₂.mem, h₁]
      exact hinstalled.acknowledged
  | succ n =>
    have hkept : { w.boot.reset with fallback := none } = b := by rw [hreset, ← hfallback]
    exact hkept ▸ h.bootOnce_confirms n (by rw [hreset]; exact hrunning) hnumber
      hinstalled.acknowledged.applied

end Cooperates

/-! ### The life of an update -/

/-- The running image stays in its slot. -/
theorem bootOnce_image {slot : Slot} {image : List Byte}
    (hfits : image.length < aknanoMaxFirmwareSize) (n : Nat) {w : World}
    (hactive : w.boot.reset.active = slot)
    (himage : NorFlash.read w.flash.mem (slotAddress p slot) image.length = image) :
    NorFlash.read (final (bootOnce p e n) w).flash.mem (slotAddress p slot) image.length
      = image := by
  refine Eq.trans (read_congr fun i hi => ?_) himage
  have hin : InImageSlot p slot (slotAddress p slot + i) := ⟨Nat.le_add_right .., by omega⟩
  refine (bootOnce_frame n w).frame _ hin.not_inState ?_
  rw [World.powered, hactive]
  exact hin.not_other

/-- **An update goes through.**  In whatever state the device is: if the image
that the next boot starts is older than the target that is offered, and the
stored settings do not name the target as one that was applied, then after two
boots with an iteration each, and after any boots that follow, the device runs
the target.  Its image is permanent, and it is the one that the server has.
Whether any event gets through makes no difference. -/
theorem lifetime_updates {slot : Slot} {target : AknanoTarget} {image : List Byte}
    (h : Cooperates p e slot target image) {w : World} (hslot : w.boot.reset.active.other = slot)
    (hnewer : runningVersionOf w.boot.reset.running < target.version)
    (hother : target.version ≠ (storedOf p w.flash.mem).applied)
    (hnumber : target.version ≠ 0xFFFFFFFF) {n m : Nat} (hn : n ≠ 0) (hm : m ≠ 0)
    (boots : List Nat) :
    (lifetime p e (n :: m :: boots) w).boot
        = ⟨slot, target.version, none, some w.boot.reset.running, none⟩ ∧
      NorFlash.read (lifetime p e (n :: m :: boots) w).flash.mem (slotAddress p slot)
        image.length = image ∧
      (storedOf p (lifetime p e (n :: m :: boots) w).flash.mem).confirmed
        = checkedVersion target.version := by
  obtain ⟨n, rfl⟩ := Nat.exists_eq_succ_of_ne_zero hn
  obtain ⟨m, rfl⟩ := Nat.exists_eq_succ_of_ne_zero hm
  have hprepared := h.bootOnce_arms n hslot hnewer hother
  generalize hw₁ : final (bootOnce p e (n + 1)) w = w₁ at hprepared
  -- the reset after the installation starts the image on trial
  have hreset : w₁.boot.reset
      = ⟨slot, target.version, some w.boot.reset.running, some w.boot.reset.running, none⟩ := by
    rw [hprepared.boot, ← hslot]
    rfl
  have happlied : (storedOf p w₁.flash.mem).applied = 0 ∨
      (storedOf p w₁.flash.mem).applied = target.version := by
    rw [hprepared.applied, checkedVersion]
    split
    · exact Or.inl rfl
    · exact Or.inr rfl
  have hconfirmed := h.bootOnce_confirms m (w := w₁) (by rw [hreset]) hnumber happlied
  rw [hreset] at hconfirmed
  have himage := bootOnce_image (e := e) h.fits (m + 1) (by rw [hreset]) hprepared.image
  -- from here on every boot is like the one before
  have hlife : ∀ w₂, Installed p target.version
      ⟨slot, target.version, none, some w.boot.reset.running, none⟩ w₂ →
      NorFlash.read w₂.flash.mem (slotAddress p slot) image.length = image →
      Installed p target.version ⟨slot, target.version, none, some w.boot.reset.running, none⟩
          (lifetime p e boots w₂) ∧
        NorFlash.read (lifetime p e boots w₂).flash.mem (slotAddress p slot) image.length
          = image := by
    induction boots with
    | nil => exact fun w₂ h₂ himage₂ => ⟨h₂, himage₂⟩
    | cons k boots ih =>
      intro w₂ h₂ himage₂
      have hactive : w₂.boot.reset.active = slot := by rw [h₂.boot]; rfl
      exact ih _ (h.bootOnce_settles k h₂ rfl rfl rfl hnumber)
        (bootOnce_image h.fits k hactive himage₂)
  obtain ⟨hinstalled, hread⟩ := hlife _ hconfirmed himage
  have hlifetime : lifetime p e ((n + 1) :: (m + 1) :: boots) w
      = lifetime p e boots (final (bootOnce p e (m + 1)) w₁) := by
    rw [← hw₁]
    rfl
  rw [hlifetime]
  exact ⟨hinstalled.boot, hread, hinstalled.acknowledged.confirmed⟩

theorem abc_served : (ascii "abc").length ≤ aknanoImageDownloadBufferLength := by decide

/-- There is no configuration; version 7 is offered, and its image is served. -/
def Env.cooperating : Env :=
  { Env.offering with
    tufRefresh := fun _ => ⟨[], tufSuccess, ascii "7"⟩
    reply := fun t r =>
      if r.path = ascii "/config" then { Reply.failed with passed := true, httpCode := 404 }
      else (Env.serving (ascii "abc") abc_served).reply t r }

theorem Env.cooperating_spec :
    Cooperates .sample .cooperating .secondary ⟨3, 7, sha256Abc⟩ (ascii "abc") where
  works := ⟨fun _ => rfl, FlashFaults.reliable_spec⟩
  connects _ _ := rfl
  config t request body s hpath hbody := by
    have hnone : (Env.cooperating.reply t request).body = none :=
      congrArg Reply.body (if_pos hpath)
    rw [hnone] at hbody
    cases hbody
  refreshed _ := rfl
  offered _ := by
    show (parseTargetsMetadata Platform.sample.overflow (Env.offering.json (ascii "7"))
      (some (aknanoGetBoardName .sample)) (ascii "devel") .zero).2 = _
    decide +kernel
  serves t r hhostname hpath hstart hinside hlength := by
    have hother : ¬ r.path = ascii "/config" := by
      rw [hpath]
      decide
    have hreply : Env.cooperating.reply t r = (Env.serving (ascii "abc") abc_served).reply t r :=
      if_neg hother
    rw [hreply]
    exact ⟨rfl, rfl, rfl⟩
  size := rfl
  fits := by decide
  hash := rfl
  partition _ := rfl
  verified _ _ _ := Int.one_pos
  updates _ := rfl

theorem lifetime_updates_seven :
    (lifetime .sample .cooperating [1, 1, 3] (.factory 5)).boot
        = ⟨.secondary, 7, none, some 5, none⟩ ∧
      NorFlash.read (lifetime .sample .cooperating [1, 1, 3] (.factory 5)).flash.mem 0x200000 3
        = ascii "abc" := by
  have h := lifetime_updates Env.cooperating_spec (w := .factory 5) rfl (by decide)
    (by decide +kernel) (by decide) Nat.one_ne_zero Nat.one_ne_zero [3]
  exact ⟨h.1, h.2.1⟩

end AktualizrNano
