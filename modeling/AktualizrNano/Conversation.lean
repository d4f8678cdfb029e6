/-
AktualizrNano/Conversation.lean

What a device says to its servers, as a grammar over exchanges.  An iteration
that reaches the gateway is a check-in, perhaps with an installation behind it:

    iteration = checkin (ε | install)
    checkin   = GET /config, the reports, GET /repo/… any number of times, completed
    install   = started (complete downloaded started applied | image failed)

A report may stay away: it is not sent if its text is not ASCII.  An event is
tried at most five times, and not once more after it has been delivered.  A
download is no regular part: where a request starts depends on all the replies
before it, which is what `Fetches` says; and the events of an installation stand
behind a download of the image that was selected only (`completeWords`).

Each procedure has one triple, `Speaks` with any rest; `speaks_loopBody` is the
iteration.  Main result: `lifetime_conversation`.  It has no hypotheses, and a
power cut is no case of its own, since every word may end early.
-/
import AktualizrNano.ImageSlots
import AktualizrNano.Transcripts
import AktualizrNano.TrustAnchor

namespace AktualizrNano

open CLib NorFlash Outcome Transcripts
open scoped Computability

variable (p : Platform) (e : Env)

/-! ### The grammar -/

/-- The exchange is about this request to the gateway. -/
def Asks (method path body : List Byte) (s : Settings) (x : Exchange) : Prop :=
  x.request = gatewayRequest p method path body s

/-- The exchange carries an event of this kind: its body is a payload that
`fill_event_payload` has made. -/
def PostsEvent (eventType : EventType) (newVersion : Version) (success : Bool) (x : Exchange) :
    Prop :=
  ∃ s w s' body w', fillEventPayload p e s eventType newVersion success w = .ok (s', body) w' ∧
    Asks p (ascii "POST") (ascii "/events") body s' x

/-- Attempts of which the last alone may succeed. -/
def attempts (P : Exchange → Prop) : Nat → Language Exchange
  | 0 => 1
  | n + 1 =>
    letter (fun x => P x ∧ x.reply.passed = true)
      + (1 + letter fun x => P x ∧ x.reply.passed = false) * attempts P n

/-- An event. -/
def eventWords (eventType : EventType) (newVersion : Version) (success : Bool) :
    Language Exchange :=
  attempts (PostsEvent p e eventType newVersion success) aknanoEventSendingRetries

/-- Any number of files of the repository. -/
def fileWords (s : Settings) : Language Exchange :=
  (letter fun x => ∃ name,
    Asks p (ascii "GET") (printed 300 (ascii "/repo/" ++ name)) [] s x)∗

/-- What follows on the configuration: three reports, the files, and the
completion of the last update. -/
def reportWords (s : Settings) : Language Exchange :=
  (1 + letter (Asks p (ascii "PUT") (ascii "/system_info") (systemInfo p s) s)) *
  ((1 + letter (Asks p (ascii "PUT") (ascii "/system_info/network") (fillNetworkInfo p) s)) *
  ((1 + letter (Asks p (ascii "PUT") (ascii "/system_info/config") (systemConfig p s) s)) *
  (fileWords p s * ⨆ success, eventWords p e .installationCompleted 0 success)))

/-- A check-in. -/
def checkinWords : Language Exchange :=
  letter (fun x => ∃ s, Asks p (ascii "GET") (ascii "/config") [] s x) * ⨆ s, reportWords p e s

/-- The request for `n` bytes of an image from `cur` on. -/
structure AsksFor (target : AknanoTarget) (cur n : Nat) (x : Exchange) : Prop where
  request : x.request = downloadRequest p (relativePath target.expectedHash.bytes) cur n
  inside : cur < target.expectedSize.toNat
  pos : 0 < n
  le : n ≤ aknanoImageDownloadRequestLength
  /-- the first request alone may reach behind the end -/
  ends : cur = 0 ∨ cur + n ≤ target.expectedSize.toNat

/-- The exchanges of a download that has `cur` bytes.  Each request starts where
the bytes of the replies so far end, and only the last reply may be of no use. -/
inductive Fetches (target : AknanoTarget) : Nat → List Exchange → Prop
  | stop (cur : Nat) : Fetches target cur []
  | last {cur n : Nat} {x : Exchange} (h : AsksFor p target cur n x) : Fetches target cur [x]
  | next {cur n : Nat} {x : Exchange} {xs : List Exchange} (h : AsksFor p target cur n x)
    (passed : x.reply.passed = true) (code : x.reply.httpCode = httpStatusCodePartialContent)
    (nonempty : x.reply.bytes ≠ [])
    (rest : Fetches target (cur + x.reply.bytes.length) xs) : Fetches target cur (x :: xs)

/-- A download, as far as it came. -/
def imageWords (target : AknanoTarget) : Language Exchange := fun xs => Fetches p target 0 xs

/-- A download that was complete: what came is the image. -/
def completeWords (target : AknanoTarget) : Language Exchange := fun xs =>
  Fetches p target 0 xs ∧ (received xs).length = target.expectedSize.toNat ∧
    e.sha256.digest (received xs) = target.expectedHash ∧
    ∀ x ∈ xs, x.reply.httpCode = httpStatusCodePartialContent

/-- An installation. -/
def installWords (target : AknanoTarget) : Language Exchange :=
  eventWords p e .downloadStarted target.version true *
  (completeWords p e target *
    (eventWords p e .downloadCompleted target.version true *
    (eventWords p e .installationStarted target.version true *
    eventWords p e .installationApplied target.version true))
  + imageWords p target * eventWords p e .downloadCompleted target.version false)

/-- An iteration of the loop that has reached the gateway. -/
def iterationWords : Language Exchange :=
  checkinWords p e * (1 + ⨆ target : AknanoTarget, installWords p e target)

/-! ### Requests and events -/

variable {p e}
variable {A K R : Language Exchange} {P : Exchange → Prop}

theorem silent_of_still {α : Type} {x : M α} (hx : Keeps Still x) :
    Keeps (Silent World.net) x :=
  hx.mono fun _ _ h => by rw [Silent, h]

theorem silent_onFlash {α : Type} (x : FlashM α) : Keeps (Silent World.net) (onFlash x) := by
  intro w
  rw [onFlash, wp_zoom]
  exact wp_const.mpr rfl

theorem silent_emit (ev : Event) : Keeps (Silent World.net) (emit ev) := fun _ =>
  wp_emit.mpr rfl

/-- A request, if it is sent, is an exchange. -/
theorem speaks_mtlsSendHttpRequest {request : Request} {B : Reply → Language Exchange}
    (hsent : ∀ reply, [⟨request, reply⟩] ∈ A ∧ ∀ w ∈ B reply, ⟨request, reply⟩ :: w ∈ A)
    (hskip : stringIsAscii request.body request.body.length = false → B Reply.failed ≤ A) :
    Speaks World.net (aknanoMtlsSendHttpRequest e request) A B := by
  refine .intro fun w => ?_
  unfold aknanoMtlsSendHttpRequest
  by_cases hascii : ¬ stringIsAscii request.body request.body.length = true
  · rw [if_pos hascii, wp_pure]
    exact ⟨[], Or.inl rfl, rfl, hskip (Bool.eq_false_iff.mpr hascii)⟩
  · rw [if_neg hascii]
    refine still_tick.wp_bind (fun t w₁ h₁ => ?_) fun _ w₁ h₁ => ?_
    · obtain ⟨hsaid, hrest⟩ := hsent (e.reply t request)
      have hnet : w₁.net = w.net := by rw [h₁]
      rw [wp_bind, wp_modify, wp_pure]
      exact ⟨[⟨request, e.reply t request⟩], Or.inr hsaid, congrArg _ hnet, hrest⟩
    · have hnet : w₁.net = w.net := by rw [h₁]
      exact ⟨[], Or.inl rfl, hnet⟩

/-- A report, which may stay away. -/
theorem speaks_optional (hR : [] ∈ R) {method path body : List Byte} {s : Settings} :
    Speaks World.net (aknanoSendHttpRequest p e method path body s)
      ((1 + letter (Asks p method path body s)) * R) fun _ => R := by
  rw [aknanoSendHttpRequest_eq]
  refine speaks_mtlsSendHttpRequest (fun reply => ?_) fun _ => le_mul_of_nil (Or.inl rfl)
  have hsaid : [⟨gatewayRequest p method path body s, reply⟩]
      ∈ 1 + letter (Asks p method path body s) := Or.inr (mem_letter rfl)
  exact ⟨⟨_, hsaid, [], hR, rfl⟩, fun w hw => ⟨_, hsaid, w, hw, rfl⟩⟩

/-- A request without a body is always sent. -/
theorem speaks_get (hR : [] ∈ R) {path : List Byte} {s : Settings}
    (hP : ∀ x, Asks p (ascii "GET") path [] s x → P x) :
    Speaks World.net (aknanoSendHttpRequest p e (ascii "GET") path [] s) (letter P * R)
      fun _ => R := by
  rw [aknanoSendHttpRequest_eq]
  refine speaks_mtlsSendHttpRequest (fun reply => ?_) fun hascii => ?_
  · have hsaid : [⟨gatewayRequest p (ascii "GET") path [] s, reply⟩] ∈ letter P :=
      mem_letter (hP _ rfl)
    exact ⟨⟨_, hsaid, [], hR, rfl⟩, fun w hw => ⟨_, hsaid, w, hw, rfl⟩⟩
  · have hempty : stringIsAscii [] 0 = true := rfl
    exact absurd (hempty.symm.trans hascii) (by decide)

theorem nil_mem_attempts (P : Exchange → Prop) (n : Nat) : [] ∈ attempts P n := by
  induction n with
  | zero => rfl
  | succ n ih => exact Or.inr (nil_mem_mul_iff.mpr ⟨Or.inl rfl, ih⟩)

/-- An attempt may be left out. -/
theorem attempts_le_succ (P : Exchange → Prop) (n : Nat) : attempts P n ≤ attempts P (n + 1) :=
  fun _ hw => Or.inr (le_mul_of_nil (Or.inl rfl) hw)

/-- One attempt to send an event. -/
theorem speaks_attempt {s : Settings} {body : List Byte} {n : Nat} (hR : [] ∈ R)
    (hP : ∀ x, Asks p (ascii "POST") (ascii "/events") body s x → P x) :
    Speaks World.net (aknanoSendHttpRequest p e (ascii "POST") (ascii "/events") body s)
      (attempts P (n + 1) * R) fun reply => if reply.passed then R else attempts P n * R := by
  have hagain : [] ∈ attempts P n * R := nil_mem_mul_iff.mpr ⟨nil_mem_attempts P n, hR⟩
  rw [aknanoSendHttpRequest_eq]
  refine speaks_mtlsSendHttpRequest (fun reply => ?_) fun _ => ?_
  · have hasked := hP ⟨gatewayRequest p (ascii "POST") (ascii "/events") body s, reply⟩ rfl
    cases hpassed : reply.passed with
    | true =>
      have hsaid : [⟨gatewayRequest p (ascii "POST") (ascii "/events") body s, reply⟩]
          ∈ attempts P (n + 1) := Or.inl (mem_letter ⟨hasked, hpassed⟩)
      exact ⟨⟨_, hsaid, [], hR, rfl⟩, fun w hw => ⟨_, hsaid, w, hw, rfl⟩⟩
    | false =>
      have hsaid : [⟨gatewayRequest p (ascii "POST") (ascii "/events") body s, reply⟩]
          ∈ 1 + letter fun x => P x ∧ x.reply.passed = false :=
        Or.inr (mem_letter ⟨hasked, hpassed⟩)
      have hgo : ∀ w ∈ attempts P n * R,
          ⟨gatewayRequest p (ascii "POST") (ascii "/events") body s, reply⟩ :: w
            ∈ attempts P (n + 1) * R := by
        rintro w ⟨a, ha, b, hb, rfl⟩
        exact ⟨_, Or.inr ⟨_, hsaid, a, ha, rfl⟩, b, hb, rfl⟩
      exact ⟨hgo [] hagain, hgo⟩
  · exact mul_le_mul' (attempts_le_succ P n) le_rfl

/-- **An event** is tried until it was delivered. -/
theorem speaks_sendEvent (s : Settings) (eventType : EventType) (newVersion : Version)
    (success : Bool) (hR : [] ∈ R) :
    Speaks World.net (aknanoSendEvent p e s eventType newVersion success)
      (eventWords p e eventType newVersion success * R) fun _ => R := by
  unfold aknanoSendEvent eventWords
  generalize aknanoEventSendingRetries = retries
  induction retries generalizing s with
  | zero => exact (Speaks.idle (false, s)).narrow (one_mul R).ge
  | succ retries ih =>
    rw [sendEventRounds]
    refine .silent_bind (silent_of_still (still_mtlsConnect _)) fun connected => ?_
    split
    · refine .silent_bind_ok (silent_of_still (still_fillEventPayload _ _ _ _))
        fun r w w' hpayload => ?_
      obtain ⟨s', body⟩ := r
      have hposts : ∀ x, Asks p (ascii "POST") (ascii "/events") body s' x →
          PostsEvent p e eventType newVersion success x := fun x hasks =>
        ⟨s, w, s', body, w', hpayload, hasks⟩
      refine (speaks_attempt hR hposts).bind fun reply =>
        .silent_bind (silent_of_still still_mtlsDisconnect) fun _ => ?_
      split
      · exact .idle _
      · exact ih s'
    · refine .silent_bind (silent_of_still (still_delay 2000)) fun _ => ?_
      exact (ih s).narrow (mul_le_mul' (attempts_le_succ _ _) le_rfl)

/-! ### The check-in -/

theorem speaks_fetchConfig (s : Settings) (hR : [] ∈ R) :
    Speaks World.net (fetchConfig p e s)
      (letter (fun x => ∃ s, Asks p (ascii "GET") (ascii "/config") [] s x) * R) fun _ => R := by
  unfold fetchConfig
  refine (speaks_get hR fun x hasks => ⟨s, hasks⟩).bind fun reply => ?_
  split
  · split
    · exact .idle _
    · exact .throw _
  · exact .idle _

/-- **The update of the metadata** asks for files, one after the other. -/
theorem speaks_tufRefresh (s : Settings) (hR : [] ∈ R) :
    Speaks World.net (tufRefresh p e s) (fileWords p s * R) fun _ => R := by
  have hmore : [] ∈ fileWords p s * R :=
    nil_mem_mul_iff.mpr ⟨Language.nil_mem_kstar _, hR⟩
  have hcall : ∀ call, Speaks World.net (tufCallback p e s call) (fileWords p s * R)
      fun _ => fileWords p s * R := by
    intro call
    cases call with
    | fetch fileBaseName targetBufferLen =>
      refine Speaks.narrow ?_ mul_kstar_mul_le
      refine Speaks.bind (Speaks.bind (speaks_get hmore fun x hasks => ⟨fileBaseName, hasks⟩)
        fun reply => .idle _) fun _ => .idle _
    | read role targetBuffer hfits => exact .silent_bind (silent_onFlash _) fun _ => .idle _
    | write role data hfits => exact .silent_bind (silent_onFlash _) fun _ => .idle _
  have hcalls : ∀ calls, Speaks World.net (tufCallbacks p e s calls) (fileWords p s * R)
      fun _ => R := by
    intro calls
    induction calls with
    | nil => exact (Speaks.idle ()).narrow (le_mul_of_nil (Language.nil_mem_kstar _))
    | cons call calls ih => exact (hcall call).bind fun _ => ih
  unfold tufRefresh
  exact .silent_bind (silent_of_still still_tick) fun t => (hcalls _).bind fun _ => .idle _

theorem silent_blUpdateImageState (update : Boot → Boot) :
    Keeps (Silent World.net) (blUpdateImageState e update) := fun w =>
  wp_mono (blUpdateImageState_spec update w) (fun _ _ h => by rw [Silent, h])
    fun _ _ h => by rw [Silent, h]

theorem silent_setImageConfirmed (isImagePermanent : Bool) :
    Keeps (Silent World.net) (aknanoSetImageConfirmed e isImagePermanent) := by
  unfold aknanoSetImageConfirmed
  split
  · exact .pure Silent.refl _
  · exact (silent_of_still still_get).bind fun _ => (silent_blUpdateImageState _).bind fun _ =>
      (silent_of_still still_get).bind fun _ => (silent_emit _).bind fun _ =>
        .pure Silent.refl _

theorem nil_mem_eventWords (eventType : EventType) (newVersion : Version) (success : Bool) :
    [] ∈ eventWords p e eventType newVersion success := nil_mem_attempts _ _

theorem nil_mem_completion : [] ∈ ⨆ success, eventWords p e .installationCompleted 0 success :=
  Language.mem_iSup.mpr ⟨true, nil_mem_eventWords _ _ _⟩

/-- **The end of an update** is one event, or none. -/
theorem speaks_sendInstallationFinishedEvent (s : Settings) (executedOnce : Bool) (hR : [] ∈ R) :
    Speaks World.net (aknanoSendInstallationFinishedEvent p e s executedOnce)
      ((⨆ success, eventWords p e .installationCompleted 0 success) * R) fun _ => R := by
  have hskip : R ≤ (⨆ success, eventWords p e .installationCompleted 0 success) * R :=
    le_mul_of_nil nil_mem_completion
  unfold aknanoSendInstallationFinishedEvent
  split
  · exact (Speaks.idle _).narrow hskip
  · dsimp only
    split
    · exact (Speaks.silent_bind (silent_emit _) fun _ => .idle _).narrow hskip
    · have hone : eventWords p e .installationCompleted 0 (!s.isRunningRolledBackImage) * R
          ≤ (⨆ success, eventWords p e .installationCompleted 0 success) * R :=
        mul_le_mul' (le_iSup (fun success => eventWords p e .installationCompleted 0 success) _)
          le_rfl
      refine Speaks.narrow ?_ hone
      refine (speaks_sendEvent s _ _ _ hR).bind fun r => ?_
      have hsave : ∀ s', Speaks World.net
          (during .saving (onFlash (aknanoUpdateSettingsInFlash e.faults s'))) R fun _ => R :=
        fun s' => (Speaks.silent (silent_onFlash _)).onError fun _ => rfl
      exact (hsave _).bind fun ret => .silent_bind (silent_emit _) fun _ => .idle _

theorem nil_mem_reportWords (s : Settings) : [] ∈ reportWords p e s := by
  have hfiles : [] ∈ fileWords p s * ⨆ success, eventWords p e .installationCompleted 0 success :=
    nil_mem_mul_iff.mpr ⟨Language.nil_mem_kstar _, nil_mem_completion⟩
  exact nil_mem_optional (nil_mem_optional (nil_mem_optional hfiles))

theorem speaks_handleRefreshed (c : Context) (executedOnce : Bool) (userBuffer : List Byte)
    (hR : [] ∈ R) :
    Speaks World.net (handleRefreshed p e c executedOnce userBuffer)
      ((⨆ success, eventWords p e .installationCompleted 0 success) * R) fun _ => R := by
  unfold handleRefreshed
  refine .silent_bind (silent_emit _) fun _ => ?_
  dsimp only
  split
  · refine .silent_bind (silent_setImageConfirmed _) fun isImagePermanent => ?_
    exact (speaks_sendInstallationFinishedEvent _ executedOnce hR).bind fun r => .idle _
  · exact (Speaks.idle _).narrow (le_mul_of_nil nil_mem_completion)

/-- **A check-in.**  Without a connection nothing is said. -/
theorem speaks_checkin (c : Context) (executedOnce : Bool) (hR : [] ∈ R) (hK : R ≤ K) :
    Speaks World.net (aknanoCheckin p e c executedOnce) (R + checkinWords p e * K)
      fun r => if r.1 = 0 then K else R := by
  have hnil : [] ∈ K := hK hR
  unfold aknanoCheckin
  refine .silent_bind (silent_of_still (still_mtlsConnect _)) fun connected => ?_
  split
  · refine Speaks.narrow ?_ le_sup_right
    unfold checkinWords
    rw [mul_assoc]
    have hreports : [] ∈ (⨆ s, reportWords p e s) * K :=
      nil_mem_mul_iff.mpr ⟨Language.mem_iSup.mpr ⟨c.settings, nil_mem_reportWords _⟩, hnil⟩
    refine (speaks_fetchConfig _ hreports).bind fun s => ?_
    refine Speaks.narrow ?_ (mul_le_mul' (le_iSup _ s) le_rfl)
    unfold reportWords
    rw [mul_assoc, mul_assoc, mul_assoc, mul_assoc]
    have hcompletion : [] ∈ (⨆ success, eventWords p e .installationCompleted 0 success) * K :=
      nil_mem_mul_iff.mpr ⟨nil_mem_completion, hnil⟩
    have hfiles : [] ∈ fileWords p s *
        ((⨆ success, eventWords p e .installationCompleted 0 success) * K) :=
      nil_mem_mul_iff.mpr ⟨Language.nil_mem_kstar _, hcompletion⟩
    refine (speaks_optional (nil_mem_optional (nil_mem_optional hfiles))).bind fun _ =>
      (speaks_optional (nil_mem_optional hfiles)).bind fun _ =>
      (speaks_optional hfiles).bind fun _ => ?_
    refine .silent_bind (silent_of_still still_currentEpoch) fun _ =>
      (speaks_tufRefresh s hcompletion).bind fun r => ?_
    obtain ⟨tufRet, userBuffer⟩ := r
    dsimp only
    have hfinish : ∀ c' executed, Speaks World.net
        (aknanoMtlsDisconnect e >>= fun _ => pure (tufRet, c', executed) :
          M (Int × Context × Bool))
        K fun r => if r.1 = 0 then K else R := by
      intro c' executed
      refine .silent_bind (silent_of_still still_mtlsDisconnect) fun _ => ?_
      have hle : (if tufRet = 0 then K else R) ≤ K := by
        split
        · exact le_rfl
        · exact hK
      exact (Speaks.pure (B := fun r : Int × Context × Bool => if r.1 = 0 then K else R)
        (tufRet, c', executed)).narrow hle
    split
    · exact (speaks_handleRefreshed _ executedOnce _ hnil).bind fun r => hfinish _ _
    · exact (Speaks.idle _).bind fun r => (hfinish _ _).narrow (le_mul_of_nil nil_mem_completion)
  · refine .silent_bind (silent_of_still still_mtlsDisconnect) fun _ => ?_
    exact (Speaks.pure (B := fun r : Int × Context × Bool => if r.1 = 0 then K else R) _).narrow
      le_sup_left

/-! ### The download -/

/-- What the loop asks for next. -/
structure Asking (target : AknanoTarget) (d : Download e) : Prop where
  cur : d.xCurByte ≤ aknanoMaxFirmwareSize
  le : d.xNumReqBytes ≤ aknanoImageDownloadRequestLength
  pos : d.xCurByte < target.expectedSize.toNat → 0 < d.xNumReqBytes
  ends : d.xCurByte < target.expectedSize.toNat →
    d.xCurByte = 0 ∨ d.xCurByte + d.xNumReqBytes ≤ target.expectedSize.toNat

theorem Asking.start (target : AknanoTarget) : Asking target (Download.start e) :=
  ⟨Nat.zero_le _, le_rfl, fun _ => (by decide : 0 < aknanoImageDownloadRequestLength),
    fun _ => Or.inl rfl⟩

/-- After `n` more bytes. -/
theorem Asking.next {target : AknanoTarget} {d : Download e} (h : Asking target d) {n : Nat}
    (hn : d.xCurByte + n < aknanoMaxFirmwareSize) {d' : Download e}
    (hcur : d'.xCurByte = uint32 (d.xCurByte + n))
    (hnum : d'.xNumReqBytes = if uint32 (target.expectedSize.toNat - d'.xCurByte) < d.xNumReqBytes
      then uint32 (target.expectedSize.toNat - d'.xCurByte) else d.xNumReqBytes) :
    d'.xCurByte = d.xCurByte + n ∧ Asking target d' := by
  have hmax : aknanoMaxFirmwareSize = 1048576 := rfl
  have hsize : target.expectedSize.toNat < 4294967296 := target.expectedSize.isLt
  have hsum : d'.xCurByte = d.xCurByte + n := by
    rw [hcur, uint32_eq (by omega) (by omega)]
    omega
  have hle : d'.xNumReqBytes ≤ d.xNumReqBytes := by
    rw [hnum]
    split <;> omega
  have hmore : d'.xCurByte < target.expectedSize.toNat → 0 < d'.xNumReqBytes ∧
      d'.xCurByte + d'.xNumReqBytes ≤ target.expectedSize.toNat := by
    intro hlt
    have hrest : uint32 (target.expectedSize.toNat - d'.xCurByte)
        = target.expectedSize.toNat - d'.xCurByte := by
      rw [uint32_eq (by omega) (by omega)]
      omega
    have hpos := h.pos (by omega)
    rw [hnum, hrest]
    split <;> omega
  exact ⟨hsum, by omega, hle.trans h.le, fun hlt => (hmore hlt).1,
    fun hlt => Or.inr (hmore hlt).2⟩

/-- **One round** is one request. -/
theorem downloadRound_asks {slot : Nat} (hslot : SlotAt slot) {target : AknanoTarget}
    {d : Download e} (hd : Asking target d) (hlt : d.xCurByte < target.expectedSize.toNat)
    (w : World) :
    wp (downloadRound p e (relativePath target.expectedHash.bytes) target.expectedSize.toNat slot d)
      (fun r w' => ∃ x, AsksFor p target d.xCurByte d.xNumReqBytes x ∧ w'.net = x :: w.net ∧
        (r.2 = true → r.1.xStatus = true → x.reply.passed = true ∧
          x.reply.httpCode = httpStatusCodePartialContent ∧ x.reply.bytes ≠ [] ∧
          r.1.xCurByte = d.xCurByte + x.reply.bytes.length ∧ Asking target r.1))
      (fun _ w' => w'.net = w.net ∨
        ∃ x, AsksFor p target d.xCurByte d.xNumReqBytes x ∧ w'.net = x :: w.net) w := by
  rw [downloadRound, wp_bind]
  have hempty : stringIsAscii [] 0 = true := rfl
  refine wp_mono (mtlsSendHttpRequest_ascii hempty) ?_ ?_
  · rintro reply w₁ ⟨-, hw₁⟩
    generalize hx : (⟨_, reply⟩ : Exchange) = x at hw₁
    have hasks : AsksFor p target d.xCurByte d.xNumReqBytes x :=
      ⟨by rw [← hx], hlt, hd.pos hlt, hd.le, hd.ends hlt⟩
    have hnet : w₁.net = x :: w.net := by rw [hw₁]
    obtain rfl : x.reply = reply := by rw [← hx]
    by_cases hpassed : ¬ x.reply.passed
    · rw [if_pos hpassed, wp_pure]
      exact ⟨x, hasks, hnet, fun _ hstatus => absurd hstatus Bool.false_ne_true⟩
    · rw [if_neg hpassed, wp_bind]
      refine wp_mono (handleReceivedData_spec hslot hd.cur x.reply.bytes_length w₁) ?_ ?_
      · rintro r w₂ ⟨hwrote, hok⟩
        have hnet₂ : w₂.net = x :: w.net := by rw [hwrote.rest, ← hnet]
        by_cases hr : r < 0
        · rw [if_pos hr, wp_pure]
          exact ⟨x, hasks, hnet₂, fun hmore => absurd hmore Bool.false_ne_true⟩
        · rw [if_neg hr]
          by_cases hnone : x.reply.bytes.length = 0
          · rw [if_pos hnone, wp_pure]
            exact ⟨x, hasks, hnet₂, fun hmore => absurd hmore Bool.false_ne_true⟩
          · rw [if_neg hnone, wp_pure]
            refine ⟨x, hasks, hnet₂, fun _ hstatus => ⟨not_not.mp hpassed,
              of_decide_eq_true hstatus, fun hnil => hnone (congrArg List.length hnil), ?_⟩⟩
            exact hd.next (hok (by omega)).1 rfl rfl
      · intro h w₂ hwrote
        exact Or.inr ⟨x, hasks, by rw [hwrote.rest, ← hnet]⟩
  · rintro h w₁ ⟨-, hstill⟩
    exact Or.inl (by rw [hstill])

/-- **The loop** fetches, from where it is. -/
theorem downloadRounds_fetches {slot : Nat} (hslot : SlotAt slot) {target : AknanoTarget}
    (rounds : Nat) {d : Download e} (hd : Asking target d) (w : World) :
    wp (downloadRounds p e (relativePath target.expectedHash.bytes) target.expectedSize.toNat slot
        rounds d)
      (fun _ w' => ∃ xs, Fetches p target d.xCurByte xs ∧ w'.net = xs.reverse ++ w.net)
      (fun _ w' => ∃ xs, Fetches p target d.xCurByte xs ∧ w'.net = xs.reverse ++ w.net) w := by
  induction rounds generalizing d w with
  | zero => exact (wp_pure d).mpr ⟨[], .stop _, rfl⟩
  | succ rounds ih =>
    by_cases hloop : d.xStatus = true ∧ d.xCurByte < target.expectedSize.toNat
    · rw [downloadRounds, if_pos hloop, wp_bind]
      refine wp_mono (downloadRound_asks hslot hd hloop.2 w) ?_ ?_
      · rintro ⟨d', more⟩ w₁ ⟨x, hasks, hnet, hnext⟩
        have hlast : ∃ xs, Fetches p target d.xCurByte xs ∧ w₁.net = xs.reverse ++ w.net :=
          ⟨[x], .last hasks, hnet⟩
        dsimp only at hnext ⊢
        cases more with
        | false => exact (wp_pure d').mpr hlast
        | true =>
          rw [if_pos rfl]
          by_cases hstatus : d'.xStatus = true
          · obtain ⟨hpassed, hcode, hnonempty, hcur, hd'⟩ := hnext rfl hstatus
            have hgo : ∀ {w₂ : World}, (∃ xs, Fetches p target d'.xCurByte xs ∧
                w₂.net = xs.reverse ++ w₁.net) →
                ∃ xs, Fetches p target d.xCurByte xs ∧ w₂.net = xs.reverse ++ w.net := by
              rintro w₂ ⟨xs, hrest, hnet₂⟩
              refine ⟨x :: xs, .next hasks hpassed hcode hnonempty (hcur ▸ hrest), ?_⟩
              rw [hnet₂, hnet, List.reverse_cons, List.append_assoc, List.singleton_append]
            exact wp_mono (ih hd' w₁) (fun _ _ h => hgo h) fun _ _ h => hgo h
          · -- a reply that failed was the last
            rw [downloadRounds_stopped fun h => hstatus h.1]
            exact (wp_pure d').mpr hlast
      · rintro h w₁ (hnet | ⟨x, hasks, hnet⟩)
        · exact ⟨[], .stop _, hnet⟩
        · exact ⟨[x], .last hasks, hnet⟩
    · rw [downloadRounds_stopped hloop]
      exact (wp_pure d).mpr ⟨[], .stop _, rfl⟩

/-- **The download** of an image, however it ends. -/
theorem downloadImage_fetches (imagePosition : BitVec 8) (target : AknanoTarget) (w : World) :
    wp (aknanoDownloadImage p e (relativePath target.expectedHash.bytes) imagePosition target)
      (fun _ w' => ∃ xs, Fetches p target 0 xs ∧ w'.net = xs.reverse ++ w.net)
      (fun _ w' => ∃ xs, Fetches p target 0 xs ∧ w'.net = xs.reverse ++ w.net) w := by
  have hverify : ∀ (xStatus : Bool) (d : Download e), Keeps (Silent World.net)
      (if xStatus then
        if target.expectedHash ≠ e.sha256.finish d.sha256Context then pure false
        else aknanoVerifyImage e d.stored
      else pure false) := by
    intro xStatus d
    split
    · split
      · exact .pure Silent.refl _
      · exact silent_of_still (still_verifyImage _)
    · exact .pure Silent.refl _
  unfold aknanoDownloadImage
  rw [wp_bind]
  refine wp_mono (downloadRounds_fetches (targetSlot_slotAt p imagePosition) _
    (Asking.start target) w) ?_ fun _ _ h => h
  rintro d w₁ ⟨xs, hxs, hnet⟩
  exact wp_mono ((silent_of_still still_mtlsDisconnect).bind (fun _ => hverify _ d) w₁)
    (fun _ _ h => ⟨xs, hxs, h.trans hnet⟩) fun _ _ h => ⟨xs, hxs, h.trans hnet⟩

/-- **A download.**  What follows goes by its result. -/
theorem speaks_downloadAndFlashImage {C F : Language Exchange} (imagePosition : BitVec 8)
    (target : AknanoTarget) (hF : [] ∈ F) :
    Speaks World.net (aknanoDownloadAndFlashImage p e imagePosition target)
      (completeWords p e target * C + imageWords p target * F) fun ok => if ok then C else F := by
  unfold aknanoDownloadAndFlashImage
  refine .silent_bind (silent_of_still (still_mtlsConnect _)) fun connected => ?_
  split
  · have hsaid : ∀ {xs : List Exchange}, Fetches p target 0 xs →
        xs ∈ completeWords p e target * C + imageWords p target * F := fun hxs =>
      Or.inr ⟨_, hxs, [], hF, List.append_nil _⟩
    refine .intro fun w => ?_
    refine wp_mono (wp_and (downloadImage_spec w) (downloadImage_fetches imagePosition target w))
      ?_ ?_
    · rintro ok w' ⟨⟨xs, hin, hok⟩, ys, hys, hnet⟩
      obtain rfl : xs = ys :=
        List.reverse_injective (List.append_cancel_right (hin.net.symm.trans hnet))
      refine ⟨xs, Or.inr (hsaid hys), hnet, ?_⟩
      cases ok with
      | true =>
        obtain ⟨hlen, hdigest, hcodes, -⟩ := hok rfl
        exact fun v hv => Or.inl ⟨xs, ⟨hys, hlen, hdigest, hcodes⟩, v, hv, rfl⟩
      | false => exact fun v hv => Or.inr ⟨xs, hys, v, hv, rfl⟩
    · rintro h w' ⟨-, ys, hys, hnet⟩
      exact ⟨ys, Or.inr (hsaid hys), hnet⟩
  · have hnone : F ≤ completeWords p e target * C + imageWords p target * F :=
      (le_mul_of_nil (Fetches.stop 0)).trans le_sup_right
    exact (Speaks.pure (B := fun ok : Bool => if ok then C else F) false).narrow hnone

/-! ### The installation -/

theorem speaks_applyTarget (s : Settings) (version : Version) (hR : [] ∈ R) :
    Speaks World.net (applyTarget p e s version)
      (eventWords p e .downloadCompleted version true *
        (eventWords p e .installationStarted version true *
        (eventWords p e .installationApplied version true * R))) fun _ => R := by
  have happlied : [] ∈ eventWords p e .installationApplied version true * R :=
    nil_mem_mul_iff.mpr ⟨nil_mem_eventWords _ _ _, hR⟩
  have hstarted : [] ∈ eventWords p e .installationStarted version true *
      (eventWords p e .installationApplied version true * R) :=
    nil_mem_mul_iff.mpr ⟨nil_mem_eventWords _ _ _, happlied⟩
  unfold applyTarget
  refine (speaks_sendEvent s _ _ _ hstarted).bind fun r => ?_
  refine (speaks_sendEvent r.2 _ _ _ happlied).bind fun r => ?_
  refine (speaks_sendEvent _ _ _ _ hR).bind fun r => ?_
  exact .silent_bind (silent_blUpdateImageState _) fun status =>
    .silent_bind (silent_emit _) fun _ => .idle _

theorem silent_scheduleRetry (isRebootRequired : Bool) (s : Settings) :
    Keeps (Silent World.net) (scheduleRetry e isRebootRequired s) :=
  silent_of_still fun w => wp_mono (scheduleRetry_spec isRebootRequired s w) (fun _ _ h => h.1)
    fun _ _ h => h

/-- **An installation.** -/
theorem speaks_installSelectedTarget (c : Context) (hR : [] ∈ R) :
    Speaks World.net (aknanoInstallSelectedTarget p e c) (installWords p e c.selectedTarget * R)
      fun _ => R := by
  unfold aknanoInstallSelectedTarget installWords
  refine .silent_bind (silent_emit _) fun _ => ?_
  refine Speaks.onError ?_ fun _ => rfl
  rw [mul_assoc, add_mul, mul_assoc, mul_assoc, mul_assoc, mul_assoc]
  have huuid : Keeps (Silent World.net) (aknanoGenSerialAndUuid e) :=
    silent_of_still ((still_randomBytes 16).bind fun _ => .pure Still.refl _)
  have hfailed : [] ∈ eventWords p e .downloadCompleted c.selectedTarget.version false * R :=
    nil_mem_mul_iff.mpr ⟨nil_mem_eventWords _ _ _, hR⟩
  have hdownload : [] ∈ completeWords p e c.selectedTarget *
        (eventWords p e .downloadCompleted c.selectedTarget.version true *
        (eventWords p e .installationStarted c.selectedTarget.version true *
        (eventWords p e .installationApplied c.selectedTarget.version true * R)))
      + imageWords p c.selectedTarget *
        (eventWords p e .downloadCompleted c.selectedTarget.version false * R) :=
    Or.inr (nil_mem_mul_iff.mpr ⟨.stop 0, hfailed⟩)
  refine .silent_bind huuid fun r => ?_
  refine (speaks_sendEvent _ _ _ _ hdownload).bind fun r => ?_
  refine (speaks_downloadAndFlashImage _ _ hfailed).bind fun ok => ?_
  have hnote : Keeps (Silent World.net)
      (noteDownload c.selectedTarget.version ok r.2.lastAppliedVersion) := fun _ =>
    wp_modify.mpr rfl
  refine .silent_bind hnote fun _ => ?_
  have hfinish : ∀ r : Bool × Settings, Speaks World.net
      (do
        let s ← scheduleRetry e r.1 r.2
        let ret ← onFlash (aknanoUpdateSettingsInFlash e.faults s)
        emit (.installed c.selectedTarget.version r.1 (ret = 0))
        pure (r.1, s)) R fun _ => R := fun r =>
    .silent_bind (silent_scheduleRetry _ _) fun s => .silent_bind (silent_onFlash _) fun ret =>
      .silent_bind (silent_emit _) fun _ => .idle _
  cases ok with
  | true =>
    rw [if_pos rfl, if_pos rfl]
    exact (speaks_applyTarget _ _ hR).bind hfinish
  | false =>
    rw [if_neg Bool.false_ne_true, if_neg Bool.false_ne_true]
    refine (speaks_sendEvent _ _ _ _ hR).bind fun r' => ?_
    exact (Speaks.idle (false, r'.2)).bind hfinish

/-! ### The loop -/

theorem speaks_handleCheckin (c : Context) (hR : [] ∈ R) :
    Speaks World.net (handleCheckin p e c) ((1 + ⨆ target, installWords p e target) * R)
      fun _ => R := by
  unfold handleCheckin
  refine .silent_bind (silent_of_still (still_isUpdateRequired c)) fun updateRequired => ?_
  split
  · have hone : installWords p e c.selectedTarget * R
        ≤ (1 + ⨆ target, installWords p e target) * R :=
      mul_le_mul' ((le_iSup (installWords p e) c.selectedTarget).trans le_sup_right) le_rfl
    refine Speaks.narrow ?_ hone
    refine (speaks_installSelectedTarget c hR).bind fun r => ?_
    obtain ⟨isRebootRequired, s⟩ := r
    dsimp only
    split
    · exact .silent (silent_of_still still_reboot)
    · exact .idle s
  · exact (Speaks.idle _).narrow (le_mul_of_nil (Or.inl rfl))

/-- **An iteration** that reaches the gateway says a word; any other says
nothing. -/
theorem speaks_loopBody (startupEpoch : BitVec 64) (l : Loop) (hR : [] ∈ R) :
    Speaks World.net (loopBody p e startupEpoch l) ((1 + iterationWords p e) * R) fun _ => R := by
  have hwords : (1 + iterationWords p e) * R
      = R + checkinWords p e * ((1 + ⨆ target, installWords p e target) * R) := by
    rw [iterationWords, add_mul, one_mul, mul_assoc]
  rw [hwords]
  unfold loopBody
  refine .silent_bind (silent_emit _) fun _ => ?_
  refine (speaks_checkin _ _ hR (le_mul_of_nil (Or.inl rfl))).bind fun r => ?_
  obtain ⟨checkinResult, c, executedOnce⟩ := r
  have hfinish : ∀ r : Bool × Settings, Speaks World.net
      (rebootIfOffline e startupEpoch r.1 r.2 >>= fun _ => pure ⟨r.2, r.1, executedOnce⟩ : M Loop)
      R fun _ => R := fun r =>
    .silent_bind (silent_of_still (still_rebootIfOffline _ _ _)) fun _ => .idle _
  dsimp only
  by_cases hok : checkinResult = 0
  · rw [if_pos hok, if_pos hok]
    exact (speaks_handleCheckin c hR).bind fun s => (Speaks.idle (true, s)).bind hfinish
  · rw [if_neg hok, if_neg hok]
    exact (Speaks.idle (l.anyCheckinOk, c.settings)).bind hfinish

/-- **The loop.** -/
theorem speaks_sampleLoop (startupEpoch : BitVec 64) (remainingIterations : Nat) (l : Loop) :
    Speaks World.net (sampleLoop p e startupEpoch remainingIterations l) (iterationWords p e)∗
      fun _ => (iterationWords p e)∗ := by
  induction remainingIterations generalizing l with
  | zero => exact .idle ()
  | succ remainingIterations ih =>
    have hagain : (1 + iterationWords p e) * (iterationWords p e)∗ ≤ (iterationWords p e)∗ := by
      rw [add_mul, one_mul]
      exact sup_le le_rfl mul_kstar_le_kstar
    rw [sampleLoop]
    refine Speaks.narrow ?_ hagain
    refine (speaks_loopBody startupEpoch l (Language.nil_mem_kstar _)).bind fun l' => ?_
    split
    · exact .silent_bind (silent_of_still (still_delay _)) fun _ => ih l'
    · exact ih l'

/-! ### The life of a device -/

theorem silent_init : Keeps (Silent World.net) (aknanoInit p e) := by
  have hpermanent : Keeps Still (aknanoIsCurrentImagePermanent e) := fun w =>
    wp_mono (isCurrentImagePermanent_spec w) (fun _ _ h => h.1) fun _ _ h => h
  have hdelay : Keeps (Silent World.net) (aknanoDelay e 100) := silent_of_still (still_delay 100)
  unfold aknanoInit
  exact (silent_of_still still_getImagePosition).bind fun _ =>
    (silent_of_still still_getCurrentVersion).bind fun _ => (silent_onFlash _).bind fun _ =>
      hdelay.bind fun _ => (silent_emit _).bind fun _ => hdelay.bind fun _ => hdelay.bind fun _ =>
        (silent_of_still hpermanent).bind fun _ => .pure Silent.refl _

theorem speaks_bootOnce (n : Nat) :
    Speaks World.net (bootOnce p e n) (iterationWords p e)∗ fun _ => (iterationWords p e)∗ := by
  have hpower : Keeps (Silent World.net) powerOn := fun _ => wp_modify.mpr rfl
  unfold bootOnce aknanoSampleLoop
  exact .silent_bind hpower fun _ => .silent_bind (silent_of_still still_currentEpoch) fun epoch =>
    .silent_bind silent_init fun s => speaks_sampleLoop epoch n _

/-- **The conversation.**  Whatever the servers answer, and however often the
power fails, what a device says is a word of the grammar, iteration after
iteration. -/
theorem lifetime_conversation (p : Platform) (e : Env) (boots : List Nat) (w : World) :
    ∃ u ∈ (iterationWords p e)∗, (lifetime p e boots w).net = u.reverse ++ w.net :=
  said_foldl (fun w n => (speaks_bootOnce n).final (Language.nil_mem_kstar _) w) boots w

end AktualizrNano
