/-
AktualizrNano/DeviceGateway.lean

`aknano_device_gateway.c`: requests to the device gateway and the events that
report the progress of an update.

Sending an event changes one thing only: an empty correlation id is filled in
(`aknanoSendEvent_spec`).
-/
import AktualizrNano.Device

namespace AktualizrNano

open CLib NorFlash Outcome

variable (p : Platform) (e : Env)

/-! ### Identifiers -/

/-- `n` hexadecimal digits of `bb`. -/
def btox (bb : List Byte) (n : Nat) : List Byte :=
  (List.range n).map fun i =>
    (ascii "0123456789ABCDEF").getD
      ((bb.getD (i >>> 1) 0 >>> ((1 - (i &&& 1)) <<< 2)) &&& 0xF).toNat 0

/-- The loop of `serial_string_to_uuid_string` from position `i` on. -/
def uuidRounds : (rounds i : Nat) → (s : List Byte) → List Byte
  | 0, _, _ => []
  | rounds + 1, i, s =>
    if i = 8 ∨ i = 13 ∨ i = 18 ∨ i = 23 then 0x2D :: uuidRounds rounds (i + 1) s
    else s.headD 0 :: uuidRounds rounds (i + 1) s.tail

def serialStringToUuidString (serial : List Byte) : List Byte := uuidRounds 36 0 serial

/-- The uuid string and the serial string, each with its NUL. -/
def aknanoGenSerialAndUuid : M (List Byte × List Byte) := do
  let serialBytes ← aknanoCliGenRandomBytes e 16
  let serialString := btox serialBytes.bytes (16 * 2)
  pure (serialStringToUuidString serialString ++ [0], serialString ++ [0])

/-- `%s` of `uuid`: the array need not hold a NUL, and `serial` follows it. -/
def Settings.uuidStr (s : Settings) : List Byte :=
  (s.uuid.bytes ++ s.serial.bytes).takeWhile (· ≠ 0)

/-- `%s` of `hwid`. -/
def Settings.hwidStr (s : Settings) : List Byte := s.hwid.getD (ascii "(null)")

/-! ### Events -/

inductive EventType
  | downloadStarted
  | downloadCompleted
  | installationStarted
  | installationApplied
  | installationCompleted
  deriving DecidableEq

def EventType.text : EventType → List Byte
  | .downloadStarted => ascii "EcuDownloadStarted"
  | .downloadCompleted => ascii "EcuDownloadCompleted"
  | .installationStarted => ascii "EcuInstallationStarted"
  | .installationApplied => ascii "EcuInstallationApplied"
  | .installationCompleted => ascii "EcuInstallationCompleted"

/-- An empty correlation id is made up from target and uuid. -/
def fillCorrelationId (s : Settings) (target : List Byte) : Settings :=
  if strnlen s.ongoingUpdateCorrelationId.bytes aknanoMaxUpdateCorrelationIdLength = 0 then
    let text := snprintf aknanoMaxUpdateCorrelationIdLength (target ++ ascii "-" ++ s.uuidStr)
    { s with ongoingUpdateCorrelationId := s.ongoingUpdateCorrelationId.store text }
  else s

/-- What `snprintf` leaves in a buffer, as a string. -/
def printed (size : Nat) (text : List Byte) : List Byte := text.take (size - 1)

def eventDetails (s : Settings) (eventType : EventType) (oldVersion newVersion : Version)
    (success : Bool) : List Byte :=
  let fromTo := ascii "Updating from v" ++ decimal oldVersion.toNat ++ ascii " to v"
    ++ decimal newVersion.toNat ++ ascii " tag: " ++ s.tag.str
  match eventType with
  | .installationApplied => fromTo ++ ascii ". Image written to flash. Rebooting."
  | .installationCompleted =>
    if ¬ success then
      ascii "Rollback to v" ++ decimal oldVersion.toNat ++ ascii " after failed update to v"
        ++ decimal s.lastAppliedVersion.toNat ++ ascii "."
    else
      ascii "Updated from v" ++ decimal oldVersion.toNat ++ ascii " to v"
        ++ decimal newVersion.toNat ++ ascii ". Image confirmed. Running on "
        ++ (if s.imagePosition = 1 then ascii "PRIMARY" else ascii "SECONDARY") ++ ascii " slot."
  | _ => fromTo ++ ascii "."

/-- Returns the settings and the payload. -/
def fillEventPayload (s : Settings) (eventType : EventType) (newVersion : Version)
    (success : Bool) : M (Settings × List Byte) := do
  let (evtUuid, _) ← aknanoGenSerialAndUuid e
  let completed := eventType = .installationCompleted
  -- at the end of an update the versions are those of the settings
  let oldVersion := if completed then s.lastConfirmedVersion else s.runningVersion
  let newVersion := if completed then s.runningVersion else newVersion
  let target := printed aknanoMaxTargetNameLength
    (s.hwidStr ++ ascii "-v" ++ decimal newVersion.toNat)
  let s := fillCorrelationId s target
  let details := printed 200 (eventDetails s eventType oldVersion newVersion success)
  let currentTimeStr := p.timeStr (← aknanoCliGetCurrentEpoch e)
  let payload := ascii "[\x7b\"id\": \"" ++ evtUuid.takeWhile (· ≠ 0)
    ++ ascii "\",\"deviceTime\": \"" ++ currentTimeStr
    ++ ascii "\",\"eventType\": \x7b\"id\": \"" ++ eventType.text
    ++ ascii "\",\"version\": 0\x7d,\"event\": \x7b\"correlationId\": \""
    ++ s.ongoingUpdateCorrelationId.str
    ++ ascii "\",\"targetName\": \"" ++ target
    ++ ascii "\",\"version\": \"" ++ decimal newVersion.toNat ++ ascii "\","
    ++ (if success then ascii "\"success\": true," else ascii "\"success\": false,")
    ++ ascii "\"details\": \"" ++ details ++ ascii "\"\x7d\x7d]"
  pure (s, printed 1000 payload)

/-! ### Requests -/

/-- `AKNANO_DEVICE_GATEWAY_ENDPOINT`. -/
def aknanoDeviceGatewayEndpoint : List Byte := p.factoryUuid ++ ascii ".ota-lite.foundries.io"

def aknanoConnectToDeviceGateway : M Bool := aknanoMtlsConnect e (aknanoDeviceGatewayEndpoint p)

def aknanoSendHttpRequest (method path body : List Byte) (s : Settings) : M Reply :=
  aknanoMtlsSendHttpRequest e
    { hostname := aknanoDeviceGatewayEndpoint p
      method := method
      path := path
      body := body
      headers := [(ascii "x-ats-tags", s.tag.str),
        (ascii "x-ats-target", printed aknanoMaxTargetNameLength
          (s.hwidStr ++ ascii "-v" ++ signedDecimal s.runningVersion))]
      rangeStart := 0
      rangeEnd := 0 }

/-- The attempts to send an event. -/
def sendEventRounds (eventType : EventType) (newVersion : Version) (success : Bool) :
    (retries : Nat) → Settings → M (Bool × Settings)
  | 0, s => pure (false, s)
  | retries + 1, s => do
    if ← aknanoConnectToDeviceGateway p e then
      let (s, body) ← fillEventPayload p e s eventType newVersion success
      let reply ← aknanoSendHttpRequest p e (ascii "POST") (ascii "/events") body s
      aknanoMtlsDisconnect e
      if reply.passed then pure (true, s)
      else sendEventRounds eventType newVersion success retries s
    else
      aknanoDelay e 2000
      sendEventRounds eventType newVersion success retries s

abbrev aknanoEventSendingRetries : Nat := 5

def aknanoSendEvent (s : Settings) (eventType : EventType) (newVersion : Version)
    (success : Bool) : M (Bool × Settings) :=
  sendEventRounds p e eventType newVersion success aknanoEventSendingRetries s

/-! ### What they change -/

variable {p e}

/-- The characters of an identifier are hexadecimal digits. -/
theorem btox_digits {bb : List Byte} {n : Nat} {b : Byte} (h : b ∈ btox bb n) :
    0x30 ≤ b ∧ b ≤ 0x46 := by
  have hdigit : ∀ k : Byte, 0x30 ≤ (ascii "0123456789ABCDEF").getD (k &&& 0xF).toNat 0 ∧
      (ascii "0123456789ABCDEF").getD (k &&& 0xF).toNat 0 ≤ 0x46 := by decide
  obtain ⟨i, -, rfl⟩ := List.mem_map.mp h
  exact hdigit _

@[simp] theorem btox_length (bb : List Byte) (n : Nat) : (btox bb n).length = n := by
  simp [btox]

/-- An identifier starts with a digit. -/
theorem btox_head (bb : List Byte) (n : Nat) :
    ∃ d ds, btox bb (n + 1) = d :: ds ∧ 0x30 ≤ d ∧ d ≤ 0x46 := by
  obtain ⟨d, ds, hcons⟩ := List.exists_cons_of_length_eq_add_one (btox_length bb (n + 1))
  exact ⟨d, ds, hcons, btox_digits (hcons ▸ List.mem_cons_self)⟩

/-- The dashes of a uuid from position `i` on. -/
def dashesFrom (i : Nat) : Nat :=
  if i ≤ 8 then 4 else if i ≤ 13 then 3 else if i ≤ 18 then 2 else if i ≤ 23 then 1 else 0

/-- As long as the digits last, a uuid consists of them and of dashes. -/
theorem uuidRounds_chars {P : Byte → Prop} (hdash : P 0x2D) {rounds i : Nat} {s : List Byte}
    (hs : ∀ b ∈ s, P b) (hi : i + rounds = 36) (hlast : rounds ≤ s.length + dashesFrom i)
    {b : Byte} (hb : b ∈ uuidRounds rounds i s) : P b := by
  induction rounds generalizing i s with
  | zero => cases hb
  | succ rounds ih =>
    rw [uuidRounds] at hb
    split at hb
    · next hpos =>
      have hnext : dashesFrom i = dashesFrom (i + 1) + 1 := by
        rcases hpos with rfl | rfl | rfl | rfl <;> rfl
      rcases List.mem_cons.mp hb with rfl | hb
      · exact hdash
      · exact ih hs (by omega) (by omega) hb
    · next hpos =>
      have hnext : dashesFrom i = dashesFrom (i + 1) := by
        unfold dashesFrom
        split_ifs <;> omega
      rcases s with - | ⟨d, ds⟩
      · -- there are fewer dashes than positions left
        have hfew : dashesFrom i ≤ 36 - i - 1 := by
          unfold dashesFrom
          split_ifs <;> omega
        rw [List.length_nil] at hlast
        omega
      · rw [List.headD_cons, List.tail_cons] at hb
        rw [List.length_cons] at hlast
        rcases List.mem_cons.mp hb with rfl | hb
        · exact hs _ List.mem_cons_self
        · exact ih (fun b hb => hs b (List.mem_cons_of_mem _ hb)) (by omega) (by omega) hb

@[simp] theorem uuidRounds_length (rounds i : Nat) (s : List Byte) :
    (uuidRounds rounds i s).length = rounds := by
  induction rounds generalizing i s with
  | zero => rfl
  | succ rounds ih =>
    rw [uuidRounds]
    split <;> rw [List.length_cons, ih]

/-- The uuid of random bytes: 36 characters, digits and dashes. -/
theorem uuidString_chars (bb : List Byte) :
    (serialStringToUuidString (btox bb (16 * 2))).length = 36 ∧
      ∀ b ∈ serialStringToUuidString (btox bb (16 * 2)), 0x2D ≤ b ∧ b ≤ 0x46 := by
  refine ⟨uuidRounds_length .., fun b hb => ?_⟩
  have hwide : ∀ b ∈ btox bb (16 * 2), 0x2D ≤ b ∧ b ≤ 0x46 := fun b hb =>
    ⟨BitVec.le_trans (by decide) (btox_digits hb).1, (btox_digits hb).2⟩
  have hlast : 36 ≤ (btox bb (16 * 2)).length + dashesFrom 0 := by
    rw [btox_length]
    decide
  exact uuidRounds_chars (P := fun b => 0x2D ≤ b ∧ b ≤ 0x46) (by decide) hwide rfl hlast hb

/-- It starts with a digit. -/
theorem uuidString_head (bb : List Byte) : ∃ d ds,
    serialStringToUuidString (btox bb (16 * 2)) = d :: ds ∧ 0x30 ≤ d ∧ d ≤ 0x46 := by
  obtain ⟨d, ds, hserial, hd⟩ := btox_head bb 31
  rw [hserial]
  exact ⟨d, _, rfl, hd⟩

theorem tick_spec (w : World) :
    wp (tick e) (fun t w' => t = w.tick ∧ Still w w') (fun _ w' => Still w w') w := by
  unfold wp tick
  cases e.cut w.tick <;> simp [Still]

/-- What is generated: the random bytes of that moment, as text. -/
theorem genSerialAndUuid_eq (w : World) :
    wp (aknanoGenSerialAndUuid e)
      (fun r w' => Still w w' ∧
        r = (serialStringToUuidString (btox (e.random w.tick 16).bytes (16 * 2)) ++ [0],
          btox (e.random w.tick 16).bytes (16 * 2) ++ [0]))
      (fun _ w' => Still w w') w := by
  rw [aknanoGenSerialAndUuid, aknanoCliGenRandomBytes, wp_bind, wp_bind]
  refine wp_mono (tick_spec w) ?_ fun _ _ h => h
  rintro t w' ⟨rfl, hstill⟩
  rw [wp_pure, wp_pure]
  exact ⟨hstill, rfl⟩

/-- A generated uuid is 36 characters and a NUL, and starts with a digit. -/
theorem genSerialAndUuid_spec (w : World) :
    wp (aknanoGenSerialAndUuid e)
      (fun r w' => Still w w' ∧ r.1.length = 37 ∧ ∃ d ds, r.1 = d :: ds ∧ 0x30 ≤ d ∧ d ≤ 0x46)
      (fun _ w' => Still w w') w := by
  refine wp_mono (genSerialAndUuid_eq w) ?_ fun _ _ h => h
  rintro r w' ⟨hstill, rfl⟩
  obtain ⟨d, ds, huuid, hd⟩ := uuidString_head (e.random w.tick 16).bytes
  refine ⟨hstill, ?_, d, ds ++ [0], ?_, hd⟩
  · rw [List.length_append, (uuidString_chars _).1]
    rfl
  · rw [huuid]
    rfl

/-- The two strings: 36 and 32 characters, digits and dashes. -/
theorem genSerialAndUuid_text (w : World) :
    wp (aknanoGenSerialAndUuid e)
      (fun r _ => ∃ uuid serial, r = (uuid ++ [0], serial ++ [0]) ∧
        uuid.length = 36 ∧ serial.length = 32 ∧
        (∀ b ∈ uuid, 0x2D ≤ b ∧ b ≤ 0x46) ∧ ∀ b ∈ serial, 0x30 ≤ b ∧ b ≤ 0x46)
      (fun _ _ => True) w := by
  refine wp_mono (genSerialAndUuid_eq w) ?_ fun _ _ _ => trivial
  rintro r w' ⟨-, rfl⟩
  obtain ⟨hlen, hchars⟩ := uuidString_chars (e.random w.tick 16).bytes
  exact ⟨_, _, rfl, hlen, btox_length .., hchars, fun _ => btox_digits⟩

theorem quiet_sendHttpRequest (method path body : List Byte) (s : Settings) :
    Keeps Quiet (aknanoSendHttpRequest p e method path body s) :=
  quiet_mtlsSendHttpRequest _

/-- The settings `s'` are `s`, except that an empty correlation id may have
been filled in. -/
def OnlyFillsId (s s' : Settings) : Prop :=
  ∃ id, s' = { s with ongoingUpdateCorrelationId := id } ∧
    (strnlen s.ongoingUpdateCorrelationId.bytes aknanoMaxUpdateCorrelationIdLength > 0 →
      id = s.ongoingUpdateCorrelationId)

theorem OnlyFillsId.refl (s : Settings) : OnlyFillsId s s :=
  ⟨s.ongoingUpdateCorrelationId, rfl, fun _ => rfl⟩

theorem OnlyFillsId.trans {s s' s'' : Settings} (h : OnlyFillsId s s')
    (h' : OnlyFillsId s' s'') : OnlyFillsId s s'' := by
  obtain ⟨id, rfl, hid⟩ := h
  obtain ⟨id', rfl, hid'⟩ := h'
  refine ⟨id', rfl, fun hpos => ?_⟩
  obtain rfl := hid hpos
  exact hid' hpos

/-- An id that is there is kept. -/
theorem OnlyFillsId.eq {s s' : Settings} (h : OnlyFillsId s s')
    (hpos : strnlen s.ongoingUpdateCorrelationId.bytes aknanoMaxUpdateCorrelationIdLength > 0) :
    s' = s := by
  obtain ⟨id, rfl, hid⟩ := h
  rw [hid hpos]

theorem fillCorrelationId_onlyFills (s : Settings) (target : List Byte) :
    OnlyFillsId s (fillCorrelationId s target) := by
  unfold fillCorrelationId
  split
  · next hempty => exact ⟨_, rfl, fun hpos => by omega⟩
  · exact OnlyFillsId.refl s

/-- Building a payload takes an identifier and the time. -/
theorem still_fillEventPayload (s : Settings) (eventType : EventType) (newVersion : Version)
    (success : Bool) : Keeps Still (fillEventPayload p e s eventType newVersion success) :=
  ((still_randomBytes 16).bind fun _ => .pure Still.refl _).bind fun _ =>
    still_currentEpoch.bind fun _ => .pure Still.refl _

theorem fillEventPayload_spec (s : Settings) (eventType : EventType) (newVersion : Version)
    (success : Bool) (w : World) :
    wp (fillEventPayload p e s eventType newVersion success)
      (fun r w' => Quiet w w' ∧ OnlyFillsId s r.1) (fun _ w' => Quiet w w') w := by
  rw [fillEventPayload, wp_bind]
  refine wp_mono (genSerialAndUuid_spec w) ?_ fun _ _ h => h.quiet
  rintro r w₁ ⟨hstill, -⟩
  refine still_currentEpoch.wp_bind (fun now w₂ hstill₂ => ?_) fun _ _ hstill₂ =>
    (Trans.trans hstill hstill₂ : Still _ _).quiet
  rw [wp_pure]
  exact ⟨(Trans.trans hstill hstill₂ : Still _ _).quiet, fillCorrelationId_onlyFills s _⟩

/-- Sending an event concerns neither the bootloader nor the stored settings,
and changes nothing in RAM but an empty correlation id. -/
theorem aknanoSendEvent_spec (s : Settings) (eventType : EventType) (newVersion : Version)
    (success : Bool) (w : World) :
    wp (aknanoSendEvent p e s eventType newVersion success)
      (fun r w' => Quiet w w' ∧ OnlyFillsId s r.2) (fun _ w' => Quiet w w') w := by
  rw [aknanoSendEvent]
  generalize aknanoEventSendingRetries = retries
  induction retries generalizing s w with
  | zero => exact (wp_pure _).mpr ⟨Quiet.refl w, OnlyFillsId.refl s⟩
  | succ retries ih =>
    -- whatever this attempt did, the next one starts from there
    have hagain : ∀ s₁ w₁, Quiet w w₁ → OnlyFillsId s s₁ →
        wp (sendEventRounds p e eventType newVersion success retries s₁)
          (fun r w' => Quiet w w' ∧ OnlyFillsId s r.2) (fun _ w' => Quiet w w') w₁ := by
      intro s₁ w₁ hquiet hfills
      refine wp_mono (ih s₁ w₁) ?_ fun _ _ h => Trans.trans hquiet h
      rintro r w₂ ⟨hquiet₂, hfills₂⟩
      exact ⟨Trans.trans hquiet hquiet₂, hfills.trans hfills₂⟩
    rw [sendEventRounds]
    refine (still_mtlsConnect _).wp_bind (fun connected w₁ h₁ => ?_) fun _ _ h => h.quiet
    split
    · rw [wp_bind]
      refine wp_mono (fillEventPayload_spec s eventType newVersion success w₁) ?_
        fun _ _ h => Trans.trans h₁.quiet h
      rintro ⟨s₁, body⟩ w₂ ⟨h₂, hfills⟩
      refine (quiet_sendHttpRequest _ _ body s₁).wp_bind (fun reply w₃ h₃ => ?_) fun _ _ h =>
        Trans.trans (Trans.trans h₁.quiet h₂ : Quiet _ _) h
      have h₀₃ : Quiet w w₃ := Trans.trans (Trans.trans h₁.quiet h₂ : Quiet _ _) h₃
      refine still_mtlsDisconnect.wp_bind (fun _ w₄ h₄ => ?_) fun _ _ h =>
        Trans.trans h₀₃ h.quiet
      have h₀₄ : Quiet w w₄ := Trans.trans h₀₃ h₄.quiet
      split
      · exact (wp_pure _).mpr ⟨h₀₄, hfills⟩
      · exact hagain s₁ w₄ h₀₄ hfills
    · refine (still_delay 2000).wp_bind (fun _ w₂ h₂ => ?_) fun _ _ h =>
        Trans.trans h₁.quiet h.quiet
      exact hagain s w₂ (Trans.trans h₁.quiet h₂.quiet) (OnlyFillsId.refl s)

/-! ### What an event carries -/

/-- The text of `gmtime` fits its buffer, `current_time_str[50]`. -/
def TimeFits (p : Platform) : Prop := ∀ epoch, (p.timeStr epoch).length < 50

/-- The payload of an event whose `correlationId` is `id`. -/
def CarriesId (id body : List Byte) : Prop :=
  ∃ evtUuid currentTimeStr eventType rest,
    body = ascii "[\x7b\"id\": \"" ++ evtUuid
      ++ ascii "\",\"deviceTime\": \"" ++ currentTimeStr
      ++ ascii "\",\"eventType\": \x7b\"id\": \"" ++ EventType.text eventType
      ++ ascii "\",\"version\": 0\x7d,\"event\": \x7b\"correlationId\": \"" ++ id
      ++ ascii "\"" ++ rest

/-- The exchange sends an event. -/
def Exchange.IsEvent (x : Exchange) : Prop :=
  x.request.method = ascii "POST" ∧ x.request.path = ascii "/events"

instance (x : Exchange) : Decidable x.IsEvent := inferInstanceAs (Decidable (_ ∧ _))

/-- If this is an event, it carries `id`. -/
def EventCarries (id : List Byte) (x : Exchange) : Prop := x.IsEvent → CarriesId id x.request.body

theorem EventType.text_length_le (eventType : EventType) : eventType.text.length ≤ 24 := by
  cases eventType <;> decide

/-- What fits is printed. -/
theorem exists_printed_eq {size : Nat} {text front : List Byte} (hfits : front.length ≤ size - 1)
    (htext : ∃ rest, text = front ++ rest) : ∃ rest, printed size text = front ++ rest := by
  obtain ⟨rest, rfl⟩ := htext
  exact ⟨_, by rw [printed, List.take_append, List.take_of_length_le hfits]⟩

/-- **The payload** of an event carries the id of the settings. -/
theorem fillEventPayload_carries {s : Settings} (htime : TimeFits p)
    (hid : strnlen s.ongoingUpdateCorrelationId.bytes aknanoMaxUpdateCorrelationIdLength > 0)
    (eventType : EventType) (newVersion : Version) (success : Bool) (w : World) :
    wp (fillEventPayload p e s eventType newVersion success)
      (fun r _ => r.1 = s ∧ CarriesId s.ongoingUpdateCorrelationId.str r.2) (fun _ _ => True)
      w := by
  rw [fillEventPayload, wp_bind]
  refine wp_mono (genSerialAndUuid_spec w) ?_ fun _ _ _ => trivial
  rintro ⟨evtUuid, serial⟩ w₁ ⟨-, hlen, -⟩
  refine still_currentEpoch.wp_bind (fun now w₂ _ => ?_) fun _ _ _ => trivial
  rw [wp_pure]
  have hkept : ∀ target, fillCorrelationId s target = s := fun target =>
    (fillCorrelationId_onlyFills s target).eq hid
  dsimp only
  rw [hkept]
  have hquote : ascii "\",\"targetName\": \"" = ascii "\"" ++ ascii ",\"targetName\": \"" := by
    decide
  rw [hquote]
  -- what stands in front of the rest fits, so nothing of it is cut off
  refine ⟨rfl, evtUuid.takeWhile (· ≠ 0), p.timeStr now, eventType, ?_⟩
  refine exists_printed_eq ?_ (by simp only [List.append_assoc]; exact ⟨_, rfl⟩)
  have hevtUuid : (evtUuid.takeWhile (· ≠ 0)).length ≤ 37 :=
    (List.takeWhile_prefix _).length_le.trans hlen.le
  have hnow := htime now
  have htype := eventType.text_length_le
  have hstr : s.ongoingUpdateCorrelationId.str.length ≤ 102 :=
    (List.takeWhile_prefix _).length_le.trans s.ongoingUpdateCorrelationId.length_eq.le
  have htexts : (ascii "[\x7b\"id\": \"").length ≤ 50 ∧
      (ascii "\",\"deviceTime\": \"").length ≤ 50 ∧
      (ascii "\",\"eventType\": \x7b\"id\": \"").length ≤ 50 ∧
      (ascii "\",\"version\": 0\x7d,\"event\": \x7b\"correlationId\": \"").length ≤ 50 ∧
      (ascii "\"").length ≤ 50 := by decide
  simp only [List.length_append]
  omega

/-- **Every event** that is sent carries the id of the settings. -/
theorem sendEvent_carries {s : Settings} (htime : TimeFits p)
    (hid : strnlen s.ongoingUpdateCorrelationId.bytes aknanoMaxUpdateCorrelationIdLength > 0)
    (eventType : EventType) (newVersion : Version) (success : Bool) (w : World) :
    wp (aknanoSendEvent p e s eventType newVersion success)
      (fun _ w' => Sends (EventCarries s.ongoingUpdateCorrelationId.str) w w')
      (fun _ w' => Sends (EventCarries s.ongoingUpdateCorrelationId.str) w w') w := by
  rw [aknanoSendEvent]
  generalize aknanoEventSendingRetries = retries
  induction retries generalizing w with
  | zero => exact (wp_pure _).mpr (Sends.refl w)
  | succ retries ih =>
    have hagain : ∀ w₁, Sends (EventCarries s.ongoingUpdateCorrelationId.str) w w₁ →
        wp (sendEventRounds p e eventType newVersion success retries s)
          (fun _ w' => Sends (EventCarries s.ongoingUpdateCorrelationId.str) w w')
          (fun _ w' => Sends (EventCarries s.ongoingUpdateCorrelationId.str) w w') w₁ :=
      fun w₁ h₁ => wp_mono (ih w₁) (fun _ _ h => h₁.trans h) fun _ _ h => h₁.trans h
    rw [sendEventRounds]
    refine (still_mtlsConnect _).wp_bind (fun connected w₁ h₁ => ?_) fun _ _ h => h.sends
    split
    · rw [wp_bind]
      refine wp_mono (wp_and (fillEventPayload_carries htime hid eventType newVersion success w₁)
        (still_fillEventPayload s eventType newVersion success w₁)) ?_ fun _ _ h =>
          h₁.sends.trans h.2.sends
      rintro ⟨s₁, body⟩ w₂ ⟨⟨hs₁, hcarries⟩, h₂⟩
      obtain rfl : s₁ = s := hs₁
      have hpost : Keeps (Sends (EventCarries s₁.ongoingUpdateCorrelationId.str))
          (aknanoSendHttpRequest p e (ascii "POST") (ascii "/events") body s₁) :=
        sends_mtlsSendHttpRequest fun _ _ => hcarries
      have h₀₂ : Sends (EventCarries s₁.ongoingUpdateCorrelationId.str) w w₂ :=
        h₁.sends.trans h₂.sends
      refine hpost.wp_bind (fun reply w₃ h₃ => ?_) fun _ _ h => h₀₂.trans h
      refine still_mtlsDisconnect.wp_bind (fun _ w₄ h₄ => ?_) fun _ _ h =>
        h₀₂.trans (h₃.trans h.sends)
      have hsends : Sends (EventCarries s₁.ongoingUpdateCorrelationId.str) w w₄ :=
        h₀₂.trans (h₃.trans h₄.sends)
      split
      · exact (wp_pure _).mpr hsends
      · exact hagain w₄ hsends
    · refine (still_delay 2000).wp_bind (fun _ w₂ h₂ => ?_) fun _ _ h =>
        h₁.sends.trans h.sends
      exact hagain w₂ (h₁.sends.trans h₂.sends)

/-! ### Whether an event arrives -/

/-- Since `w` the transport has taken an event. -/
def Delivered (w w' : World) : Prop :=
  ∃ new, w'.net = new ++ w.net ∧ ∃ x ∈ new, x.IsEvent ∧ x.reply.passed = true

theorem Delivered.of_sends {P : Exchange → Prop} {w w' w'' : World} (h : Sends P w w')
    (h' : Delivered w' w'') : Delivered w w'' := by
  obtain ⟨new, hnet, -⟩ := h
  obtain ⟨new', hnet', x, hx, hpassed⟩ := h'
  refine ⟨new' ++ new, by rw [hnet', hnet, List.append_assoc], x, ?_, hpassed⟩
  exact List.mem_append_left new hx

theorem Sends.not_delivered {w w' : World} (h : Sends (fun x => x.reply.passed = false) w w') :
    ¬ Delivered w w' := by
  rintro ⟨new, hnet, x, hx, -, hpassed⟩
  obtain ⟨new', hnet', hall⟩ := h
  rw [List.append_cancel_right (hnet.symm.trans hnet')] at hx
  exact Bool.false_ne_true ((hall x hx).symm.trans hpassed)

/-- **`aknano_send_event` returns `true`** exactly if the transport has taken the
event. -/
theorem sendEvent_delivered (s : Settings) (eventType : EventType) (newVersion : Version)
    (success : Bool) (w : World) :
    wp (aknanoSendEvent p e s eventType newVersion success)
      (fun r w' => r.1 = true ↔ Delivered w w') (fun _ _ => True) w := by
  have hrounds : ∀ retries s w,
      wp (sendEventRounds p e eventType newVersion success retries s)
        (fun r w' => if r.1 then Delivered w w'
          else Sends (fun x => x.reply.passed = false) w w') (fun _ _ => True) w := by
    intro retries
    induction retries with
    | zero => exact fun s w => (wp_pure _).mpr (Sends.refl w)
    | succ retries ih =>
      intro s w
      -- after an attempt that failed
      have hagain : ∀ s₁ w₁, Sends (fun x => x.reply.passed = false) w w₁ →
          wp (sendEventRounds p e eventType newVersion success retries s₁)
            (fun r w' => if r.1 then Delivered w w'
              else Sends (fun x => x.reply.passed = false) w w') (fun _ _ => True) w₁ := by
        intro s₁ w₁ h₁
        refine wp_mono (ih s₁ w₁) ?_ fun _ _ _ => trivial
        rintro ⟨sent, s₂⟩ w₂ h₂
        cases sent with
        | true => exact h₂.of_sends h₁
        | false => exact h₁.trans h₂
      rw [sendEventRounds]
      refine (still_mtlsConnect _).wp_bind (fun connected w₁ h₁ => ?_) fun _ _ _ => trivial
      split
      · refine (still_fillEventPayload s eventType newVersion success).wp_bind
          (fun r w₂ h₂ => ?_) fun _ _ _ => trivial
        obtain ⟨s₂, body⟩ := r
        have h₀₂ : Sends (fun x => x.reply.passed = false) w w₂ := h₁.sends.trans h₂.sends
        dsimp only
        rw [aknanoSendHttpRequest, wp_bind]
        refine wp_mono (mtlsSendHttpRequest_passed w₂) ?_ fun _ _ _ => trivial
        intro reply w₃ h₃
        refine still_mtlsDisconnect.wp_bind (fun _ w₄ h₄ => ?_) fun _ _ _ => trivial
        split
        · next hpassed =>
          rw [if_pos hpassed] at h₃
          have hnet : w₄.net = w₃.net := by rw [h₄]
          have hdelivered : Delivered w₂ w₄ :=
            ⟨[_], hnet.trans h₃, _, List.mem_singleton_self _, ⟨rfl, rfl⟩, hpassed⟩
          exact (wp_pure _).mpr (hdelivered.of_sends h₀₂)
        · next hfailed =>
          rw [if_neg hfailed] at h₃
          exact hagain s₂ w₄ (h₀₂.trans (h₃.trans h₄.sends))
      · refine (still_delay 2000).wp_bind (fun _ w₂ h₂ => ?_) fun _ _ _ => trivial
        exact hagain s w₂ (h₁.sends.trans h₂.sends)
  refine wp_mono (hrounds _ s w) ?_ fun _ _ _ => trivial
  rintro ⟨sent, s'⟩ w' h
  cases sent with
  | true => exact ⟨fun _ => h, fun _ => rfl⟩
  | false => exact ⟨nofun, fun hdelivered => absurd hdelivered h.not_delivered⟩

end AktualizrNano
