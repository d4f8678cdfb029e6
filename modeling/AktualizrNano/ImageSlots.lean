/-
AktualizrNano/ImageSlots.lean

The two image slots and the storage area, over whole boots.

What a boot may write is the settings sector, the regions of the four roles,
and the slot that is not running: `bootOnce_frame`.  The agent does not ask the
bootloader where an image goes.  It goes by the position that it read when it
started, so that has to be carried through the loop along with the flash:
`checkin_keeps`, `installSelectedTarget_keeps`, `loopBody_keeps`.

`sampleLoop_rule` and `bootOnce_rule` are the rules by which a property of one
iteration becomes one of a boot.

Main results: `bootOnce_runningSlot` (the running image is never written) and
`lifetime_identity` (every later boot loads the identity that was there).
-/
import AktualizrNano.Growth
import AktualizrNano.Provisioning

namespace AktualizrNano

open CLib NorFlash Outcome

variable (p : Platform)

/-! ### Slots -/

/-- Where a slot starts. -/
def slotAddress : Slot → Nat
  | .primary => p.flashAreaImage1Offset
  | .secondary => p.flashAreaImage2Offset

/-- The address belongs to this slot. -/
def InImageSlot (slot : Slot) (x : Nat) : Prop :=
  slotAddress p slot ≤ x ∧ x < slotAddress p slot + aknanoMaxFirmwareSize

/-- The address belongs to the settings or to the file of a role. -/
def InState (x : Nat) : Prop :=
  stateLo ≤ x ∧ x < stateHi ∨ tufRolesLo ≤ x ∧ x < tufRolesHi

variable {p}

theorem Slot.other_other (slot : Slot) : slot.other.other = slot := by
  cases slot <;> rfl

/-- From the position of the running image the other slot is found. -/
theorem targetSlot_eq (b : Boot) :
    aknanoGetTargetSlotAddress p (b.activeImage + 1) = slotAddress p b.active.other := by
  unfold Boot.activeImage
  cases b.active <;> rfl

theorem slotAddress_slotAt (slot : Slot) : SlotAt (slotAddress p slot) := by
  cases slot with
  | primary => exact p.image1
  | secondary => exact p.image2

/-- The two slots share no address. -/
theorem InImageSlot.not_other {slot : Slot} {x : Nat} (h : InImageSlot p slot x) :
    ¬ InImageSlot p slot.other x := by
  obtain ⟨hlo, hhi⟩ := h
  have hapart := p.apart
  cases slot with
  | primary =>
    rintro ⟨hlo', hhi'⟩
    simp only [slotAddress, Slot.other] at hlo hhi hlo' hhi'
    omega
  | secondary =>
    rintro ⟨hlo', hhi'⟩
    simp only [slotAddress, Slot.other] at hlo hhi hlo' hhi'
    omega

/-- The settings and the files lie in the storage area. -/
theorem InState.in_area {x : Nat} (h : InState x) : aknanoStorageFlashOffset ≤ x ∧
    x < aknanoStorageFlashOffset + aknanoFlashSectorsCount * aknanoFlashSectorSize := by
  have hstate : aknanoStorageFlashOffset ≤ stateLo ∧ stateHi ≤ tufRolesLo := by decide
  have hroles : aknanoStorageFlashOffset ≤ tufRolesLo ∧ tufRolesHi
      ≤ aknanoStorageFlashOffset + aknanoFlashSectorsCount * aknanoFlashSectorSize := by decide
  have hsome : tufRolesLo ≤ tufRolesHi := by decide
  rcases h with ⟨hlo, hhi⟩ | ⟨hlo, hhi⟩
  · exact ⟨hstate.1.trans hlo, by omega⟩
  · exact ⟨hroles.1.trans hlo, by omega⟩

/-- A slot lies outside the storage area. -/
theorem InImageSlot.not_in_area {slot : Slot} {x : Nat} (h : InImageSlot p slot x)
    (hlo : aknanoStorageFlashOffset ≤ x)
    (hhi : x < aknanoStorageFlashOffset + aknanoFlashSectorsCount * aknanoFlashSectorSize) :
    False := by
  obtain ⟨hlo', hhi'⟩ := h
  have hclear := (slotAddress_slotAt (p := p) slot).clear
  omega

theorem InImageSlot.not_inState {slot : Slot} {x : Nat} (h : InImageSlot p slot x) :
    ¬ InState x := fun hstate => h.not_in_area hstate.in_area.1 hstate.in_area.2

/-! ### Exchanges -/

/-- Only messages have been exchanged. -/
def Talks (w w' : World) : Prop := w' = { w with tick := w'.tick, net := w'.net }

theorem Talks.refl (w : World) : Talks w w := rfl

instance : Trans Talks Talks Talks where
  trans h h' := by
    rw [Talks, h', h]

theorem Still.talks {w w' : World} (h : Still w w') : Talks w w' := by
  rw [h]
  rfl

variable {e : Env}

theorem talks_sendHttpRequest (method path body : List Byte) (s : Settings) :
    Keeps Talks (aknanoSendHttpRequest p e method path body s) := by
  unfold aknanoSendHttpRequest aknanoMtlsSendHttpRequest
  split
  · exact .pure Talks.refl _
  · refine (still_tick.mono fun _ _ h => h.talks).bind fun t w => ?_
    rw [Outcome.wp_bind, wp_modify, wp_pure]
    rfl

theorem talks_sendEvent (s : Settings) (eventType : EventType) (newVersion : Version)
    (success : Bool) : Keeps Talks (aknanoSendEvent p e s eventType newVersion success) := by
  have hstill : ∀ {α : Type} {x : M α}, Keeps Still x → Keeps Talks x := fun hx =>
    hx.mono fun _ _ h => h.talks
  have hrounds : ∀ retries s,
      Keeps Talks (sendEventRounds p e eventType newVersion success retries s) := by
    intro retries
    induction retries with
    | zero => exact fun s => .pure Talks.refl _
    | succ retries ih =>
      intro s
      rw [sendEventRounds]
      refine (hstill (still_mtlsConnect _)).bind fun connected => ?_
      split
      · refine (hstill (still_fillEventPayload _ _ _ _)).bind fun r => ?_
        refine (talks_sendHttpRequest _ _ _ _).bind fun reply =>
          (hstill still_mtlsDisconnect).bind fun _ => ?_
        split
        · exact .pure Talks.refl _
        · exact ih _
      · exact (hstill (still_delay 2000)).bind fun _ => ih s
  exact hrounds _ s

/-! ### The check-in -/

/-- Of what a reset finds, only settings and files of the roles have changed. -/
structure Stores (w w' : World) : Prop where
  boot : w'.boot = w.boot
  frame : ∀ x, ¬ InState x → w'.flash.mem x = w.flash.mem x

theorem Stores.refl (w : World) : Stores w w := ⟨rfl, fun _ _ => rfl⟩

instance : Trans Stores Stores Stores where
  trans h h' := ⟨h'.boot.trans h.boot, fun x hx => (h'.frame x hx).trans (h.frame x hx)⟩

theorem Talks.stores {w w' : World} (h : Talks w w') : Stores w w' := by
  rw [h]
  exact ⟨rfl, fun _ _ => rfl⟩

theorem stores_emit (ev : Event) : Keeps Stores (emit ev) := fun _ =>
  wp_emit.mpr ⟨rfl, fun _ _ => rfl⟩

/-- A program of the flash that stays in the settings and the files. -/
theorem stores_onFlash {α : Type} {x : FlashM α} {lo hi : Nat}
    (hin : ∀ y, lo ≤ y → y < hi → InState y)
    (h : ∀ f, wp x (fun _ f' => SameOutside lo hi f.mem f'.mem)
      (fun _ f' => SameOutside lo hi f.mem f'.mem) f) : Keeps Stores (onFlash x) := by
  have hstays : ∀ {w : World} {f : Flash}, SameOutside lo hi w.flash.mem f.mem →
      Stores w { w with flash := f } := by
    intro w f hframe
    refine ⟨rfl, fun y hy => hframe y ?_⟩
    by_contra hnot
    exact hy (hin y (by omega) (by omega))
  intro w
  rw [onFlash, wp_zoom]
  exact wp_mono (h w.flash) (fun _ _ hframe => hstays hframe) fun _ _ hframe => hstays hframe

theorem stores_updateSettings (s : Settings) :
    Keeps Stores (onFlash (aknanoUpdateSettingsInFlash e.faults s)) :=
  stores_onFlash (fun _ hlo hhi => Or.inl ⟨hlo, hhi⟩) fun f =>
    wp_mono (updateSettings_spec s f) (fun _ _ h => h.1) fun _ _ h => h.1

theorem stores_tufRefresh (s : Settings) : Keeps Stores (tufRefresh p e s) := by
  have hroles : ∀ y, tufRolesLo ≤ y → y < tufRolesHi → InState y := fun _ hlo hhi =>
    Or.inr ⟨hlo, hhi⟩
  have hcall : ∀ call, Keeps Stores (tufCallback p e s call) := by
    intro call
    cases call with
    | fetch fileBaseName targetBufferLen =>
      exact (((talks_sendHttpRequest _ _ _ _).mono fun _ _ h => h.stores).bind fun _ =>
        .pure Stores.refl _).bind fun _ => .pure Stores.refl _
    | read role targetBuffer hfits =>
      refine (stores_onFlash hroles fun f => ?_).bind fun _ => .pure Stores.refl _
      exact wp_mono (readLocalFile_spec role hfits f) (fun _ _ h => h.1.roles)
        fun _ _ h => h.1.roles
    | write role data hfits =>
      refine (stores_onFlash hroles fun f => ?_).bind fun _ => .pure Stores.refl _
      exact wp_mono (writeLocalFile_spec role hfits f) (fun _ _ h => h.1.roles)
        fun _ _ h => h.1.roles
  have hcalls : ∀ calls, Keeps Stores (tufCallbacks p e s calls) := by
    intro calls
    induction calls with
    | nil => exact .pure Stores.refl _
    | cons call calls ih => exact (hcall call).bind fun _ => ih
  exact (still_tick.mono fun _ _ h => h.talks.stores).bind fun t => (hcalls _).bind fun _ =>
    .pure Stores.refl _

/-- What a check-in may change: besides, it may confirm the image. -/
structure ChecksIn (w w' : World) : Prop where
  boot : w'.boot = w.boot ∨ w'.boot = w.boot.confirm
  frame : ∀ x, ¬ InState x → w'.flash.mem x = w.flash.mem x

theorem Stores.checksIn {w w' : World} (h : Stores w w') : ChecksIn w w' :=
  ⟨Or.inl h.boot, h.frame⟩

theorem ChecksIn.refl (w : World) : ChecksIn w w := (Stores.refl w).checksIn

theorem ChecksIn.trans {w w' w'' : World} (h : ChecksIn w w') (h' : ChecksIn w' w'') :
    ChecksIn w w'' := by
  refine ⟨?_, fun x hx => (h'.frame x hx).trans (h.frame x hx)⟩
  rcases h'.boot with hboot' | hboot' <;> rcases h.boot with hboot | hboot
  · exact Or.inl (hboot'.trans hboot)
  · exact Or.inr (hboot'.trans hboot)
  · exact Or.inr (hboot'.trans (congrArg Boot.confirm hboot))
  · exact Or.inr (by rw [hboot', hboot]; rfl)

instance : Trans ChecksIn ChecksIn ChecksIn where
  trans h h' := h.trans h'

/-- A program that keeps to it, between two points of a check-in. -/
theorem ChecksIn.bind {α β : Type} {x : M α} {f : α → M β} {Q : β → World → Prop} {w w' : World}
    (h : ChecksIn w w') (hx : Keeps ChecksIn x)
    (hf : ∀ a w'', ChecksIn w w'' → wp (f a) Q (fun _ => ChecksIn w) w'') :
    wp (x >>= f) Q (fun _ => ChecksIn w) w' :=
  hx.wp_bind (fun a w'' h' => hf a w'' (h.trans h')) fun _ _ h' => h.trans h'

theorem Talks.checksIn {w w' : World} (h : Talks w w') : ChecksIn w w' := h.stores.checksIn

theorem Still.checksIn {w w' : World} (h : Still w w') : ChecksIn w w' := h.talks.checksIn

theorem checksIn_emit (ev : Event) : Keeps ChecksIn (emit ev) :=
  (stores_emit ev).mono fun _ _ h => h.checksIn

theorem checksIn_setImageConfirmed (isImagePermanent : Bool) :
    Keeps ChecksIn (aknanoSetImageConfirmed e isImagePermanent) := by
  have hupdate : Keeps ChecksIn (blUpdateImageState e Boot.confirm) := by
    intro w
    refine wp_mono (blUpdateImageState_spec Boot.confirm w) ?_ fun _ _ h => h.checksIn
    intro status w' h
    rw [h]
    refine ⟨?_, fun _ _ => rfl⟩
    dsimp only
    split
    · exact Or.inr rfl
    · exact Or.inl rfl
  have hget : Keeps ChecksIn (get : M World) := fun w => wp_get.mpr (ChecksIn.refl w)
  unfold aknanoSetImageConfirmed
  split
  · exact .pure ChecksIn.refl _
  · exact hget.bind fun _ => hupdate.bind fun _ => hget.bind fun _ =>
      (checksIn_emit _).bind fun _ => .pure ChecksIn.refl _

theorem fetchConfig_keeps (s : Settings) (w : World) :
    wp (fetchConfig p e s)
      (fun s' w' => ChecksIn w w' ∧ s'.imagePosition = s.imagePosition)
      (fun _ w' => ChecksIn w w') w := by
  refine ((talks_sendHttpRequest _ _ _ _).mono fun _ _ h => h.checksIn).wp_bind
    (fun reply w₁ h₁ => ?_) fun _ _ h => h
  split
  · split
    · next hparse =>
      obtain ⟨tag, n, rfl⟩ := parseConfig_reconfigures hparse
      exact (wp_pure _).mpr ⟨h₁, rfl⟩
    · exact (wp_throw _).mpr h₁
  · exact (wp_pure _).mpr ⟨h₁, rfl⟩

theorem endOfUpdate_imagePosition (s : Settings) :
    (endOfUpdate s).imagePosition = s.imagePosition := by
  unfold endOfUpdate
  dsimp only
  split <;> rfl

/-- **The completion handler** keeps the position. -/
theorem sendInstallationFinishedEvent_keeps (s : Settings) (executedOnce : Bool) (w : World) :
    wp (aknanoSendInstallationFinishedEvent p e s executedOnce)
      (fun r w' => ChecksIn w w' ∧ r.1.imagePosition = s.imagePosition)
      (fun _ w' => ChecksIn w w') w := by
  unfold aknanoSendInstallationFinishedEvent
  split
  · exact (wp_pure _).mpr ⟨ChecksIn.refl w, rfl⟩
  · dsimp only
    split
    · exact (ChecksIn.refl w).bind (checksIn_emit _) fun _ _ h => (wp_pure _).mpr ⟨h, rfl⟩
    · rw [wp_bind]
      refine wp_mono (wp_and (talks_sendEvent s _ _ _ w) (aknanoSendEvent_spec s _ _ _ w)) ?_
        fun _ _ h => h.1.checksIn
      rintro ⟨sent, s₁⟩ w₁ ⟨htalks, -, id, hs₁, -⟩
      dsimp only at hs₁ ⊢
      subst hs₁
      have h₁ : ChecksIn w w₁ := htalks.checksIn
      rw [wp_bind, during, wp_onError]
      refine wp_mono (stores_updateSettings _ w₁) ?_ ?_
      · intro ret w₂ h₂
        rw [wp_bind, wp_emit, wp_pure]
        have h₀₂ := h₁.trans h₂.checksIn
        exact ⟨⟨h₀₂.boot, h₀₂.frame⟩, endOfUpdate_imagePosition _⟩
      · intro halt w₂ h₂
        have h₀₂ := h₁.trans h₂.checksIn
        exact ⟨h₀₂.boot, h₀₂.frame⟩

/-- **The check-in** keeps the position. -/
theorem checkin_keeps (c : Context) (executedOnce : Bool) (w : World) :
    wp (aknanoCheckin p e c executedOnce)
      (fun r w' => ChecksIn w w' ∧ r.2.1.settings.imagePosition = c.settings.imagePosition)
      (fun _ => ChecksIn w) w := by
  have hput : ∀ path body s, Keeps ChecksIn (aknanoSendHttpRequest p e (ascii "PUT") path body s) :=
    fun path body s => (talks_sendHttpRequest _ path body s).mono fun _ _ h => h.checksIn
  have hend : ∀ (tufRet : Int) (c' : Context) (executedOnce : Bool) {w' : World}, ChecksIn w w' →
      c'.settings.imagePosition = c.settings.imagePosition →
      wp (do aknanoMtlsDisconnect e
             pure (tufRet, c', executedOnce))
        (fun r w'' => ChecksIn w w'' ∧
          r.2.1.settings.imagePosition = c.settings.imagePosition)
        (fun _ => ChecksIn w) w' := fun _ _ _ _ h' hpos =>
    h'.bind (still_mtlsDisconnect.mono fun _ _ h => h.checksIn) fun _ _ h'' =>
      (wp_pure _).mpr ⟨h'', hpos⟩
  unfold aknanoCheckin
  refine (ChecksIn.refl w).bind ((still_mtlsConnect _).mono fun _ _ h => h.checksIn)
    fun connected w₁ h₁ => ?_
  split
  · rw [wp_bind]
    refine wp_mono (fetchConfig_keeps c.settings w₁) ?_ fun _ _ h => h₁.trans h
    rintro s w₂ ⟨h₂, hpos⟩
    refine (h₁.trans h₂).bind (hput _ _ _) fun _ w₃ h₃ => ?_
    refine h₃.bind (hput _ _ _) fun _ w₄ h₄ => h₄.bind (hput _ _ _) fun _ w₅ h₅ => ?_
    refine h₅.bind (still_currentEpoch.mono fun _ _ h => h.checksIn) fun _ w₆ h₆ => ?_
    refine h₆.bind ((stores_tufRefresh s).mono fun _ _ h => h.checksIn) fun r w₇ h₇ => ?_
    obtain ⟨tufRet, userBuffer⟩ := r
    dsimp only
    split
    · unfold handleRefreshed
      simp only [bind_assoc]
      refine h₇.bind (checksIn_emit _) fun _ w₈ h₈ => ?_
      split
      · simp only [bind_assoc]
        refine h₈.bind (checksIn_setImageConfirmed _) fun isImagePermanent w₉ h₉ => ?_
        rw [wp_bind]
        refine wp_mono (sendInstallationFinishedEvent_keeps _ executedOnce w₉) ?_
          fun _ _ h => h₉.trans h
        rintro ⟨s', executedOnce'⟩ w₁₀ ⟨h₁₀, hpos'⟩
        rw [wp_bind, wp_pure]
        exact hend _ _ _ (h₉.trans h₁₀) (hpos'.trans hpos)
      · rw [pure_bind]
        exact hend _ _ _ h₈ hpos
    · rw [wp_bind, wp_pure]
      exact hend _ _ _ h₇ hpos
  · exact hend _ _ _ h₁ rfl

/-! ### The installation -/

/-- The slot holds an image of the size and with the hash of this target. -/
structure HoldsImage (p : Platform) (e : Env) (slot : Slot) (target : AknanoTarget) (m : Mem) :
    Prop where
  fits : target.expectedSize.toNat ≤ aknanoMaxFirmwareSize
  digest : e.sha256.digest (NorFlash.read m (slotAddress p slot) target.expectedSize.toNat)
    = target.expectedHash

/-- It depends on the bytes of the slot. -/
theorem HoldsImage.congr {slot : Slot} {target : AknanoTarget} {m m' : Mem}
    (h : HoldsImage p e slot target m) (hsame : ∀ x, InImageSlot p slot x → m' x = m x) :
    HoldsImage p e slot target m' := by
  refine ⟨h.fits, ?_⟩
  have hfits := h.fits
  rw [read_congr fun i hi => hsame _ ⟨Nat.le_add_right _ _, by omega⟩]
  exact h.digest

/-- A download that is accepted is not longer than a slot. -/
theorem downloadImage_size {pcPath : List Byte} {imagePosition : BitVec 8}
    {selectedTarget : AknanoTarget} (w : World) :
    wp (aknanoDownloadImage p e pcPath imagePosition selectedTarget)
      (fun r _ => r = true → selectedTarget.expectedSize.toNat ≤ aknanoMaxFirmwareSize)
      (fun _ _ => True) w := by
  have hslot := targetSlot_slotAt p imagePosition
  unfold aknanoDownloadImage
  generalize aknanoGetTargetSlotAddress p imagePosition = slot at hslot
  rw [wp_bind]
  refine wp_mono (downloadRounds_spec hslot _ (InSlot.refl slot w)
    (Or.inr (Received.start slot w))) ?_ fun _ _ _ => trivial
  rintro d w₁ ⟨xs, -, hafter⟩
  refine still_mtlsDisconnect.wp_bind (fun _ w₂ _ => ?_) fun _ _ _ => trivial
  dsimp only
  by_cases hsize : d.stored ≠ selectedTarget.expectedSize.toNat
  · rw [if_pos hsize, if_neg Bool.false_ne_true, wp_pure]
    exact nofun
  rw [if_neg hsize]
  by_cases hstatus : d.xStatus = true
  · -- what was stored is what was received, and that is bounded in every round
    have hle : selectedTarget.expectedSize.toNat ≤ aknanoMaxFirmwareSize := by
      rcases hafter with hfail | hshort | hrec
      · rw [hfail] at hstatus; cases hstatus
      · omega
      · have hstored := hrec.stored
        have hbound := hrec.le
        omega
    exact wp_mono wp_true (fun _ _ _ _ => hle) fun _ _ _ => trivial
  · rw [if_neg hstatus, wp_pure]
    exact nofun

/-- **The download**, by slots. -/
theorem downloadAndFlashImage_keeps {imagePosition : BitVec 8} {slot : Slot}
    (hslot : aknanoGetTargetSlotAddress p imagePosition = slotAddress p slot)
    (selectedTarget : AknanoTarget) (w : World) :
    wp (aknanoDownloadAndFlashImage p e imagePosition selectedTarget)
      (fun ok w' => (w'.boot = w.boot ∧
          ∀ x, ¬ InImageSlot p slot x → w'.flash.mem x = w.flash.mem x) ∧
        (ok = true → HoldsImage p e slot selectedTarget w'.flash.mem))
      (fun _ w' => w'.boot = w.boot ∧
        ∀ x, ¬ InImageSlot p slot x → w'.flash.mem x = w.flash.mem x) w := by
  -- what happens in the slot is seen by the slot alone
  have hframe : ∀ {w₁ w' : World} {xs : List Exchange}, Still w w₁ →
      InSlot (aknanoGetTargetSlotAddress p imagePosition) w₁ w' xs →
      w'.boot = w.boot ∧ ∀ x, ¬ InImageSlot p slot x → w'.flash.mem x = w.flash.mem x := by
    intro w₁ w' xs hstill hin
    rw [hslot] at hin
    refine ⟨hin.boot.trans (by rw [hstill]), fun x hx => ?_⟩
    have hmem : w₁.flash.mem = w.flash.mem := by rw [hstill]
    rw [← hmem]
    apply hin.frame
    by_contra hnot
    exact hx ⟨by omega, by omega⟩
  refine (still_mtlsConnect _).wp_bind (fun connected w₁ h₁ => ?_) fun _ w' h => ?_
  · split
    · refine wp_mono (wp_and (downloadImage_spec w₁) (downloadImage_size w₁)) ?_ ?_
      · rintro r w' ⟨⟨xs, hin, hok⟩, hsize⟩
        refine ⟨hframe h₁ hin, fun hr => ⟨hsize hr, ?_⟩⟩
        obtain ⟨-, hdigest, -, -, hread⟩ := hok hr
        rw [← hslot, hread]
        exact hdigest
      · rintro halt w' ⟨⟨xs, hin⟩, -⟩
        exact hframe h₁ hin
    · refine (wp_pure _).mpr ⟨?_, nofun⟩
      rw [h₁]
      exact ⟨rfl, fun _ _ => rfl⟩
  · rw [h]
    exact ⟨rfl, fun _ _ => rfl⟩

/-- What an installation may change.  The bootloader is told of the image once
the slot holds it. -/
structure Installs (p : Platform) (e : Env) (target : AknanoTarget) (w w' : World) : Prop where
  active : w'.boot.active = w.boot.active
  running : w'.boot.running = w.boot.running
  fallback : w'.boot.fallback = w.boot.fallback
  armed : w'.boot.armed = w.boot.armed ∨ w'.boot.armed = some target.version ∧
    HoldsImage p e w.boot.active.other target w'.flash.mem
  frame : ∀ x, ¬ InState x → ¬ InImageSlot p w.boot.active.other x →
    w'.flash.mem x = w.flash.mem x

/-- What a later step does beside the slots changes nothing of it. -/
theorem Installs.stores {target : AknanoTarget} {w w' w'' : World}
    (h : Installs p e target w w') (h' : Stores w' w'') : Installs p e target w w'' := by
  have hboot := h'.boot
  refine ⟨by rw [hboot]; exact h.active, by rw [hboot]; exact h.running,
    by rw [hboot]; exact h.fallback, ?_, fun x hx hslot => (h'.frame x hx).trans (h.frame x hx hslot)⟩
  rw [hboot]
  exact h.armed.imp_right fun harmed =>
    ⟨harmed.1, harmed.2.congr fun x hx => h'.frame x hx.not_inState⟩

theorem Stores.installs {target : AknanoTarget} {w w' : World} (h : Stores w w') :
    Installs p e target w w' := by
  refine ⟨?_, ?_, ?_, Or.inl ?_, fun x hx _ => h.frame x hx⟩
  all_goals rw [h.boot]

theorem OnlyFillsId.imagePosition {s s' : Settings} (h : OnlyFillsId s s') :
    s'.imagePosition = s.imagePosition := by
  obtain ⟨id, rfl, -⟩ := h
  rfl

/-- Sending an event keeps the position. -/
theorem sendEvent_keeps (s : Settings) (eventType : EventType) (newVersion : Version)
    (success : Bool) (w : World) :
    wp (aknanoSendEvent p e s eventType newVersion success)
      (fun r w' => Stores w w' ∧ r.2.imagePosition = s.imagePosition)
      (fun _ => Stores w) w := by
  refine wp_mono (wp_and (talks_sendEvent s eventType newVersion success w)
    (aknanoSendEvent_spec s eventType newVersion success w)) ?_ fun _ _ h => h.1.stores
  rintro r w' ⟨htalks, -, hfills⟩
  exact ⟨htalks.stores, hfills.imagePosition⟩

/-- The part after a successful download: the image is armed, or it is not. -/
theorem applyTarget_keeps (s : Settings) (version : Version) (w : World) :
    wp (applyTarget p e s version)
      (fun r w' => (Stores w w' ∨ ∃ w₁, Stores w w₁ ∧ Stores { w₁ with boot := w₁.boot.arm } w') ∧
        r.2.imagePosition = s.imagePosition)
      (fun _ => Stores w) w := by
  rw [applyTarget, wp_bind]
  refine wp_mono (sendEvent_keeps s _ _ _ w) ?_ fun _ _ h => h
  rintro ⟨sent₁, s₁⟩ w₁ ⟨h₁, hpos₁⟩
  rw [wp_bind]
  refine wp_mono (sendEvent_keeps s₁ _ _ _ w₁) ?_ fun _ _ h => Trans.trans h₁ h
  rintro ⟨sent₂, s₂⟩ w₂ ⟨h₂, hpos₂⟩
  have h₀₂ : Stores w w₂ := Trans.trans h₁ h₂
  dsimp only at hpos₂ ⊢
  rw [wp_bind]
  refine wp_mono (sendEvent_keeps { s₂ with lastAppliedVersion := version } _ _ _ w₂) ?_
    fun _ _ h => Trans.trans h₀₂ h
  rintro ⟨sent₃, s₃⟩ w₃ ⟨h₃, hpos₃⟩
  have h₀₃ : Stores w w₃ := Trans.trans h₀₂ h₃
  dsimp only at hpos₃ ⊢
  rw [aknanoSetImageReadyForTest, wp_bind]
  refine wp_mono (blUpdateImageState_spec Boot.arm w₃) ?_ fun _ _ h =>
    Trans.trans h₀₃ h.talks.stores
  intro status w₄ h₄
  rw [wp_bind, wp_emit, wp_pure]
  refine ⟨?_, hpos₃.trans (hpos₂.trans hpos₁)⟩
  rw [h₄]
  dsimp only
  by_cases hok : status = 0
  · rw [if_pos hok]
    exact Or.inr ⟨w₃, h₀₃, rfl, fun _ _ => rfl⟩
  · rw [if_neg hok]
    exact Or.inl ⟨h₀₃.boot, h₀₃.frame⟩

theorem stores_logged (w : World) (ev : Event) : Stores w { w with log := ev :: w.log } :=
  ⟨rfl, fun _ _ => rfl⟩

/-- The end of an installation writes the settings. -/
theorem closeInstallation_keeps {c : Context} {s : Settings} {w w' : World} (armed : Bool)
    (h : Installs p e c.selectedTarget w w')
    (hpos : s.imagePosition = c.settings.imagePosition) :
    wp (do let s ← scheduleRetry e armed s
           let ret ← onFlash (aknanoUpdateSettingsInFlash e.faults s)
           emit (.installed c.selectedTarget.version armed (ret = 0))
           pure (armed, s))
      (fun r w'' => Installs p e c.selectedTarget w w'' ∧
        r.2.imagePosition = c.settings.imagePosition)
      (fun _ => Installs p e c.selectedTarget w) w' := by
  rw [wp_bind]
  refine wp_mono (scheduleRetry_spec armed s w') ?_ fun _ _ hstill => h.stores hstill.talks.stores
  rintro s₁ w₁ ⟨hstill, -, count, time, hs₁⟩
  have h₁ := h.stores hstill.talks.stores
  refine (stores_updateSettings s₁).wp_bind (fun ret w₂ h₂ => ?_) fun _ _ h₂ => h₁.stores h₂
  rw [wp_bind, wp_emit, wp_pure]
  refine ⟨(h₁.stores h₂).stores (stores_logged ..), ?_⟩
  rw [hs₁]
  exact hpos

/-- **The installation**: from the position of the running image on, only the
other slot is written, and what is armed is what that slot holds. -/
theorem installSelectedTarget_keeps {c : Context} {w : World}
    (hpos : c.settings.imagePosition = w.boot.activeImage + 1) :
    wp (aknanoInstallSelectedTarget p e c)
      (fun r w' => Installs p e c.selectedTarget w w' ∧
        r.2.imagePosition = c.settings.imagePosition)
      (fun _ => Installs p e c.selectedTarget w) w := by
  unfold aknanoInstallSelectedTarget
  rw [wp_bind, wp_emit]
  generalize hw₀ : { w with log := .install c.selectedTarget c.settings.runningVersion :: w.log }
    = w₀
  have h₀ : Stores w w₀ := hw₀ ▸ stores_logged ..
  rw [during, wp_onError]
  refine wp_mono (Q := fun r w' => Installs p e c.selectedTarget w w' ∧
    r.2.imagePosition = c.settings.imagePosition) (E := fun _ => Installs p e c.selectedTarget w)
    ?_ (fun _ _ h => h) fun _ _ h => h.stores (stores_logged ..)
  refine ((still_randomBytes 16).bind fun _ => .pure Still.refl _).wp_bind (fun r w₁ h₁ => ?_)
    fun _ _ h => (Trans.trans h₀ h.talks.stores : Stores _ _).installs
  have h₀₁ : Stores w w₁ := Trans.trans h₀ h₁.talks.stores
  dsimp only
  rw [wp_bind]
  refine wp_mono (sendEvent_keeps _ _ _ _ w₁) ?_ fun _ _ h =>
    (Trans.trans h₀₁ h : Stores _ _).installs
  rintro ⟨sent, s⟩ w₂ ⟨h₂, hs⟩
  have h₀₂ : Stores w w₂ := Trans.trans h₀₁ h₂
  dsimp only at hs ⊢
  -- the download: before it nothing of the slots has changed
  have hslot : aknanoGetTargetSlotAddress p s.imagePosition
      = slotAddress p w.boot.active.other := by
    rw [hs, hpos, targetSlot_eq]
  have hdownloads : ∀ {w₃ : World}, w₃.boot = w₂.boot →
      (∀ x, ¬ InImageSlot p w.boot.active.other x → w₃.flash.mem x = w₂.flash.mem x) →
      Installs p e c.selectedTarget w w₃ := by
    intro w₃ hboot hframe
    have hboot₃ := hboot.trans h₀₂.boot
    refine ⟨by rw [hboot₃], by rw [hboot₃], by rw [hboot₃], Or.inl (by rw [hboot₃]), ?_⟩
    exact fun x hx hxslot => (hframe x hxslot).trans (h₀₂.frame x hx)
  rw [wp_bind]
  refine wp_mono (downloadAndFlashImage_keeps hslot c.selectedTarget w₂) ?_ fun _ _ h =>
    hdownloads h.1 h.2
  rintro ok w₃ ⟨⟨hboot₃, hframe₃⟩, hholds⟩
  have h₃ := hdownloads hboot₃ hframe₃
  rw [wp_bind, noteDownload, wp_modify]
  generalize hw₄ : { w₃ with
    boot := { w₃.boot with inactive := if ok then some c.selectedTarget.version else none }
    log := .downloaded c.selectedTarget.version ok s.lastAppliedVersion :: w₃.log } = w₄
  have h₄ : Installs p e c.selectedTarget w w₄ := by
    rw [← hw₄]
    exact ⟨h₃.active, h₃.running, h₃.fallback, h₃.armed, h₃.frame⟩
  -- from here on the slot is not written any more
  cases ok with
  | true =>
    rw [if_pos rfl, wp_bind]
    refine wp_mono (applyTarget_keeps s c.selectedTarget.version w₄) ?_ fun _ _ h => h₄.stores h
    rintro ⟨armed, s₅⟩ w₅ ⟨h₅, hpos₅⟩
    refine closeInstallation_keeps armed ?_ (hpos₅.trans hs)
    rcases h₅ with h₅ | ⟨w₁', h₄₁, h₁₅⟩
    · exact h₄.stores h₅
    · -- armed: what the slot holds is what was downloaded
      suffices harm : Installs p e c.selectedTarget w { w₁' with boot := w₁'.boot.arm } from
        harm.stores h₁₅
      have h₁' := h₄.stores h₄₁
      refine ⟨h₁'.active, h₁'.running, h₁'.fallback, Or.inr ⟨?_, ?_⟩, h₁'.frame⟩
      · have hinactive : w₁'.boot.inactive = some c.selectedTarget.version := by
          rw [h₄₁.boot, ← hw₄]
          rfl
        exact hinactive
      · apply (hholds rfl).congr
        intro x hx
        rw [h₄₁.frame x hx.not_inState, ← hw₄]
  | false =>
    rw [if_neg Bool.false_ne_true, wp_bind]
    refine wp_mono (sendEvent_keeps s _ _ _ w₄) ?_ fun _ _ h => h₄.stores h
    rintro ⟨sent', s₅⟩ w₅ ⟨h₅, hpos₅⟩
    rw [wp_bind, wp_pure]
    exact closeInstallation_keeps false (h₄.stores h₅) (hpos₅.trans hs)

/-! ### The loop and the boot -/

/-- What a boot may change once the bootloader has picked the image. -/
structure Boots (p : Platform) (w w' : World) : Prop where
  active : w'.boot.active = w.boot.active
  frame : ∀ x, ¬ InState x → ¬ InImageSlot p w.boot.active.other x →
    w'.flash.mem x = w.flash.mem x

theorem Boots.refl (w : World) : Boots p w w := ⟨rfl, fun _ _ _ => rfl⟩

theorem Boots.trans {w w' w'' : World} (h : Boots p w w') (h' : Boots p w' w'') :
    Boots p w w'' := by
  refine ⟨h'.active.trans h.active, fun x hx hslot => ?_⟩
  rw [h'.frame x hx (h.active ▸ hslot), h.frame x hx hslot]

theorem ChecksIn.boots {w w' : World} (h : ChecksIn w w') : Boots p w w' := by
  refine ⟨?_, fun x hx _ => h.frame x hx⟩
  rcases h.boot with hboot | hboot
  · rw [hboot]
  · rw [hboot]
    rfl

theorem Still.boots {w w' : World} (h : Still w w') : Boots p w w' := h.checksIn.boots

theorem Installs.boots {target : AknanoTarget} {w w' : World} (h : Installs p e target w w') :
    Boots p w w' := ⟨h.active, h.frame⟩

/-- The settings know the position of the running image. -/
def Positioned (s : Settings) (w : World) : Prop := s.imagePosition = w.boot.activeImage + 1

theorem Boots.positioned {s s' : Settings} {w w' : World} (h : Boots p w w')
    (hs : s'.imagePosition = s.imagePosition) (hpos : Positioned s w) : Positioned s' w' := by
  rw [Positioned, Boot.activeImage, h.active, hs]
  exact hpos

theorem handleCheckin_keeps {c : Context} {w : World} (hpos : Positioned c.settings w) :
    wp (handleCheckin p e c) (fun s w' => Boots p w w' ∧ Positioned s w') (fun _ => Boots p w)
      w := by
  unfold handleCheckin
  refine (still_isUpdateRequired c).wp_bind (fun updateRequired w₁ h₁ => ?_) fun _ _ h => h.boots
  have hpos₁ : Positioned c.settings w₁ := h₁.boots.positioned (p := p) rfl hpos
  split
  · rw [wp_bind]
    refine wp_mono (installSelectedTarget_keeps hpos₁) ?_ fun _ _ h => h₁.boots.trans h.boots
    rintro ⟨isRebootRequired, s⟩ w₂ ⟨h₂, hs⟩
    have h₀₂ : Boots p w w₂ := h₁.boots.trans h₂.boots
    dsimp only
    split
    · exact wp_mono (reboot_spec w₂) (fun _ _ h => h.elim) fun _ _ h => h₀₂.trans h.boots
    · exact (wp_pure _).mpr ⟨h₀₂, h₀₂.positioned hs hpos⟩
  · exact (wp_pure _).mpr ⟨h₁.boots, hpos₁⟩

/-- **One iteration.** -/
theorem loopBody_keeps {l : Loop} {w : World} (startupEpoch : BitVec 64)
    (hpos : Positioned l.settings w) :
    wp (loopBody p e startupEpoch l)
      (fun l' w' => Boots p w w' ∧ Positioned l'.settings w') (fun _ => Boots p w) w := by
  have hoffline : ∀ (anyCheckinOk : Bool) (s : Settings) (executedOnce : Bool) {w' : World},
      Boots p w w' → Positioned s w' →
      wp (do rebootIfOffline e startupEpoch anyCheckinOk s
             pure (⟨s, anyCheckinOk, executedOnce⟩ : Loop))
        (fun l' w'' => Boots p w w'' ∧ Positioned l'.settings w'') (fun _ => Boots p w) w' := by
    intro anyCheckinOk s executedOnce w' h' hs
    refine (still_rebootIfOffline startupEpoch anyCheckinOk s).wp_bind (fun _ w'' h'' => ?_)
      fun _ _ h'' => h'.trans h''.boots
    exact (wp_pure _).mpr ⟨h'.trans h''.boots, h''.boots.positioned (p := p) rfl hs⟩
  unfold loopBody
  rw [wp_bind, wp_emit]
  have h₁ : Boots p w { w with log := .iteration :: w.log } :=
    (stores_logged ..).checksIn.boots
  rw [wp_bind]
  refine wp_mono (checkin_keeps (aknanoInitContext l.settings) l.executedOnce _) ?_
    fun _ _ h => h₁.trans h.boots
  rintro ⟨checkinResult, c, executedOnce⟩ w₂ ⟨h₂, hs⟩
  have h₀₂ : Boots p w w₂ := h₁.trans h₂.boots
  have hpos₂ : Positioned c.settings w₂ := h₀₂.positioned hs hpos
  dsimp only
  split
  · rw [wp_bind]
    refine wp_mono (handleCheckin_keeps hpos₂) ?_ fun _ _ h => h₀₂.trans h
    rintro s w₃ ⟨h₃, hpos₃⟩
    rw [wp_bind, wp_pure]
    exact hoffline _ _ _ (h₀₂.trans h₃) hpos₃
  · rw [wp_bind, wp_pure]
    exact hoffline _ _ _ h₀₂ hpos₂

/-- **The rule of the loop**: what every iteration keeps, the loop keeps. -/
theorem sampleLoop_rule {J : Loop → World → Prop} {E : World → Prop} {startupEpoch : BitVec 64}
    (hbody : ∀ l w, J l w → wp (loopBody p e startupEpoch l) J (fun _ => E) w)
    (hdelay : ∀ l w w', J l w → Still w w' → J l w') (hend : ∀ l w, J l w → E w) (n : Nat)
    {l : Loop} {w : World} (h : J l w) :
    wp (sampleLoop p e startupEpoch n l) (fun _ => E) (fun _ => E) w := by
  induction n generalizing l w with
  | zero => exact (wp_pure _).mpr (hend l w h)
  | succ n ih =>
    rw [sampleLoop, wp_bind]
    refine wp_mono (hbody l w h) ?_ fun _ _ hE => hE
    intro l₁ w₁ h₁
    split
    · refine (still_delay _).wp_bind (fun _ w₂ h₂ => ?_) fun _ w₂ h₂ => ?_
      · exact ih (hdelay l₁ w₁ w₂ h₁ h₂)
      · exact hend l₁ w₂ (hdelay l₁ w₁ w₂ h₁ h₂)
    · exact ih h₁

/-- The bootloader has picked the image. -/
def World.powered (w : World) : World :=
  { w with
    boot := w.boot.reset
    log := .reset w.boot.pick w.boot.reset.permanent :: w.log }

/-- **The rule of the boot**: started with `J`, a boot ends with `E`. -/
theorem bootOnce_rule {J : Loop → World → Prop} {E : World → Prop} {w : World}
    (hpower : ∀ w', Still w.powered w' → E w')
    (hinit : ∀ w', Still w.powered w' → wp (aknanoInit p e)
      (fun s => J ⟨aknanoSetApplicationSelfTestOk s, false, false⟩) (fun _ => E) w')
    (hbody : ∀ startupEpoch l w, J l w → wp (loopBody p e startupEpoch l) J (fun _ => E) w)
    (hdelay : ∀ l w w', J l w → Still w w' → J l w') (hend : ∀ l w, J l w → E w) (n : Nat) :
    E (final (bootOnce p e n) w) := by
  refine wp.final (P := E) ?_
  rw [bootOnce, wp_bind, powerOn, wp_modify, aknanoSampleLoop]
  refine still_currentEpoch.wp_bind (fun startupEpoch w₁ h₁ => ?_) fun _ _ h => hpower _ h
  rw [wp_bind]
  refine wp_mono (hinit w₁ h₁) ?_ fun _ _ hE => hE
  exact fun s w₂ h₂ => sampleLoop_rule (hbody startupEpoch) hdelay hend n h₂

/-- **The start of a boot** reads the position of the running image. -/
theorem aknanoInit_keeps (w : World) :
    wp (aknanoInit p e) (fun s w' => Stores w w' ∧ Positioned s w') (fun _ => Stores w) w := by
  have hpermanent : Keeps Still (aknanoIsCurrentImagePermanent e) := fun w =>
    wp_mono (isCurrentImagePermanent_spec w) (fun _ _ h => h.1) fun _ _ h => h
  unfold aknanoInit
  rw [aknanoGetImagePosition, bind_assoc]
  refine still_tick.wp_bind (fun _ w₁ h₁ => ?_) fun _ _ h => h.talks.stores
  rw [bind_assoc, wp_bind, wp_get, pure_bind]
  refine still_getCurrentVersion.wp_bind (fun buildNum w₂ h₂ => ?_) fun _ _ h =>
    (Trans.trans h₁ h : Still _ _).talks.stores
  have h₀₂ : Stores w w₂ := (Trans.trans h₁ h₂ : Still _ _).talks.stores
  rw [wp_bind, onFlash, wp_zoom]
  refine wp_mono (aknanoInitSettings_spec _ buildNum w₂.flash) ?_ fun _ f h =>
    ⟨h₀₂.boot, fun x hx => (congrFun h.1 x).trans (h₀₂.frame x hx)⟩
  rintro ⟨readsOk, s⟩ f ⟨hmem, ⟨fields, hs, -⟩, -⟩
  dsimp only at hs ⊢
  generalize hw₃ : { w₂ with flash := f } = w₃
  have h₃ : Stores w w₃ := by
    rw [← hw₃]
    exact ⟨h₀₂.boot, fun x hx => (congrFun hmem x).trans (h₀₂.frame x hx)⟩
  have hpos₃ : Positioned s w₃ := by
    rw [Positioned, ← hw₃, hs, h₂, h₁]
    rfl
  refine (still_delay 100).wp_bind (fun _ w₄ h₄ => ?_) fun _ _ h =>
    Trans.trans h₃ h.talks.stores
  have h₃₄ : Stores w₃ w₄ := h₄.talks.stores
  rw [wp_bind, wp_emit]
  have h₃₅ := (Trans.trans h₃₄ (stores_logged w₄ _) : Stores w₃
    { w₄ with log := .loaded readsOk s.runningVersion s.isRunningRolledBackImage :: w₄.log })
  refine (still_delay 100).wp_bind (fun _ w₆ h₆ => ?_) fun _ _ h =>
    Trans.trans h₃ (Trans.trans h₃₅ h.talks.stores : Stores _ _)
  refine (still_delay 100).wp_bind (fun _ w₇ h₇ => ?_) fun _ _ h =>
    Trans.trans h₃ (Trans.trans h₃₅ (Trans.trans h₆ h : Still _ _).talks.stores : Stores _ _)
  refine hpermanent.wp_bind (fun isImagePermanent w₈ h₈ => ?_) fun _ _ h =>
    Trans.trans h₃ (Trans.trans h₃₅ (Trans.trans (Trans.trans h₆ h₇ : Still _ _) h
      : Still _ _).talks.stores : Stores _ _)
  have h₃₈ : Stores w₃ w₈ := Trans.trans h₃₅
    (Trans.trans (Trans.trans h₆ h₇ : Still _ _) h₈ : Still _ _).talks.stores
  exact (wp_pure _).mpr ⟨Trans.trans h₃ h₃₈, h₃₈.checksIn.boots.positioned (p := p) rfl hpos₃⟩

/-- **What a boot writes**: settings, files of the roles, and the slot that is
not running. -/
theorem bootOnce_frame (n : Nat) (w : World) :
    Boots p w.powered (final (bootOnce p e n) w) := by
  have hagain : ∀ {w₁ w₂ : World}, Boots p w.powered w₁ → Stores w₁ w₂ → Boots p w.powered w₂ :=
    fun h h' => h.trans h'.checksIn.boots
  refine bootOnce_rule
    (J := fun l w' => Boots p w.powered w' ∧ Positioned l.settings w')
    (fun _ h => h.boots) (fun w₁ h₁ => ?_) (fun startupEpoch l w₁ h₁ => ?_)
    (fun l w₁ w₂ h₁ h₂ => ?_) (fun _ _ h => h.1) n
  · refine wp_mono (aknanoInit_keeps w₁) ?_ fun _ _ h => hagain h₁.boots h
    rintro s w₂ ⟨h₂, hpos⟩
    exact ⟨hagain h₁.boots h₂, hpos⟩
  · refine wp_mono (loopBody_keeps startupEpoch h₁.2) ?_ fun _ _ h => h₁.1.trans h
    exact fun l' w₂ h₂ => ⟨h₁.1.trans h₂.1, h₂.2⟩
  · exact ⟨h₁.1.trans h₂.boots, h₂.boots.positioned (p := p) rfl h₁.2⟩

/-- **The running image is never written.**  Whatever the servers send and
whatever fails or is cut short in a boot, the slot of the image that the
bootloader has picked for it holds the same bytes at its end. -/
theorem bootOnce_runningSlot (p : Platform) (e : Env) (n : Nat) (w : World) :
    NorFlash.read (final (bootOnce p e n) w).flash.mem (slotAddress p w.boot.reset.active)
        aknanoMaxFirmwareSize
      = NorFlash.read w.flash.mem (slotAddress p w.boot.reset.active) aknanoMaxFirmwareSize := by
  refine read_congr fun i hi => ?_
  have hin : InImageSlot p w.boot.reset.active (slotAddress p w.boot.reset.active + i) :=
    ⟨Nat.le_add_right _ _, by omega⟩
  exact (bootOnce_frame n w).frame _ hin.not_inState hin.not_other

/-- An item of the storage area that no step writes. -/
def StorageItem.Fixed (item : StorageItem) : Prop :=
  ∀ x, item.addr ≤ x → x < item.addr + item.size → ¬ InState x

theorem StorageItem.fixed_deviceId : StorageItem.deviceId.Fixed := by
  rintro x - hhi (⟨hlo', -⟩ | ⟨hlo', -⟩)
  · have h : deviceId.addr + deviceId.size ≤ stateLo := by decide
    omega
  · have h : deviceId.addr + deviceId.size ≤ tufRolesLo := by decide
    omega

theorem StorageItem.fixed_provisionedRoot : StorageItem.provisionedRoot.Fixed := by
  rintro x hlo hhi (⟨-, hhi'⟩ | ⟨hlo', -⟩)
  · have h : stateHi ≤ provisionedRoot.addr := by decide
    omega
  · have h : provisionedRoot.addr + provisionedRoot.size ≤ tufRolesLo := by decide
    omega

/-- Such an item is the same after any life. -/
theorem StorageItem.Fixed.lifetime {item : StorageItem} (h : item.Fixed) (boots : List Nat)
    (w : World) : item.Same w.flash.mem (lifetime p e boots w).flash.mem := by
  induction boots generalizing w with
  | nil => exact StorageItem.Same.refl item _
  | cons n boots ih =>
    refine StorageItem.Same.trans (fun x hlo hhi => ?_) (ih (final (bootOnce p e n) w))
    have harea := item.in_area
    refine (bootOnce_frame n w).frame x (h x hlo hhi) fun hslot => ?_
    exact hslot.not_in_area (harea.1.trans hlo) (hhi.trans_le harea.2)

/-- **The identity lasts.**  Over any life the provisioned root is kept, and
every boot whose reads succeed loads the uuid and the serial, and makes the
device name, that the first one would have. -/
theorem lifetime_identity (p : Platform) (e : Env) (boots : List Nat) (w : World) :
    StorageItem.provisionedRoot.Same w.flash.mem (lifetime p e boots w).flash.mem ∧
      ∀ (o : FlashFaults) (imagePosition : BitVec 8) (buildNum : Version) (s : Settings)
        (f : Flash), aknanoInitSettings p o imagePosition buildNum
          (lifetime p e boots w).flash = .ok (true, s) f →
        let first := settingsOf p imagePosition buildNum (checkedFields p (storedFields w.flash.mem))
        s.uuid = first.uuid ∧ s.serial = first.serial ∧ s.deviceName = first.deviceName := by
  refine ⟨StorageItem.fixed_provisionedRoot.lifetime boots w, ?_⟩
  intro o imagePosition buildNum s f hrun
  have hkept := StorageItem.fixed_deviceId.lifetime (p := p) (e := e) boots w
  generalize (lifetime p e boots w).flash = later at hrun hkept
  have hbytes : ∀ off n, off + n ≤ mflashSectorSize →
      storageBytes later.mem off n = storageBytes w.flash.mem off n := by
    intro off n h
    have haddr : StorageItem.deviceId.addr = aknanoStorageFlashOffset := rfl
    have hsize : StorageItem.deviceId.size = mflashSectorSize := rfl
    exact read_congr fun i hi => hkept _ (by omega) (by omega)
  have hserial : (storedFields later.mem).serial = (storedFields w.flash.mem).serial :=
    congrArg (CharArray.zero _).store (hbytes _ _ (by decide))
  have huuid : (storedFields later.mem).uuid = (storedFields w.flash.mem).uuid :=
    congrArg (CharArray.zero _).store (hbytes _ _ (by decide))
  obtain ⟨-, ⟨fields, hs, hfields⟩, -⟩ :=
    (aknanoInitSettings_spec imagePosition buildNum later).of_ok hrun
  dsimp only at hs
  rw [hs, hfields rfl]
  simp only [settingsOf, checkedFields, hserial, huuid, and_self]

end AktualizrNano
