/-
AktualizrNano/GenuineImages.lean

From the metadata to the image that runs.

The hash of an image is compared once, over what arrives, before the image is
armed; from then on nobody looks at the slot again until the bootloader starts
it.  `Genuine` is what makes that safe: the slot holds an image of the size and
with the hash that metadata of a successful refresh offer to this board, or the
image that the device was delivered with.  It is kept by a check-in
(`Trusted.checksIn`), made by an installation (`Trusted.installs`) and handed
on by a reset (`Trusted.powered`).

Main result: `lifetime_trusted`, for every state between two boots of a life
and after the reset that follows.  An installation on an image on trial writes
over the image to fall back to, and the agent starts one if the bootloader has
refused to confirm; so what is said of the running image and of that one is
said of lives without a refusal (`Unrefused`).  Of an image that is armed or on
trial it holds in all of them.
-/
import AktualizrNano.ImageSlots
import AktualizrNano.Trial

namespace AktualizrNano

open CLib NorFlash Outcome Trace

/-! ### Genuine images -/

/-- The slot holds an image of this version as metadata of a successful refresh
offer it. -/
def FromMetadata (p : Platform) (e : Env) (slot : Slot) (v : Version) (m : Mem) : Prop :=
  ∃ metadata target, Refreshed e metadata ∧ Offered p e metadata target ∧ target.version = v ∧
    HoldsImage p e slot target m

/-- The slot holds the image that was running at first. -/
structure AsDelivered (p : Platform) (w₀ : World) (slot : Slot) (v : Version) (m : Mem) : Prop where
  place : slot = w₀.boot.active
  version : v = w₀.boot.running
  bytes : ∀ x, InImageSlot p slot x → m x = w₀.flash.mem x

/-- The slot holds an image of this version that may run. -/
def Genuine (p : Platform) (e : Env) (w₀ : World) (slot : Slot) (v : Version) (m : Mem) : Prop :=
  AsDelivered p w₀ slot v m ∨ FromMetadata p e slot v m

/-- The bootloader has made every image permanent that it was asked to. -/
def Unrefused (es : List Event) : Prop := ∀ permanent, .confirmed false true permanent ∉ es

/-- **The chain of trust.**  What is armed and what is on trial comes from
metadata; and if no trial was refused, all that the bootloader may start is
genuine. -/
structure Trusted (p : Platform) (e : Env) (w₀ w : World) : Prop where
  armed : ∀ v, w.boot.armed = some v → FromMetadata p e w.boot.active.other v w.flash.mem
  onTrial : w.boot.fallback ≠ none → FromMetadata p e w.boot.active w.boot.running w.flash.mem
  running : Unrefused w.log → Genuine p e w₀ w.boot.active w.boot.running w.flash.mem
  fallback : Unrefused w.log → ∀ u, w.boot.fallback = some u →
    Genuine p e w₀ w.boot.active.other u w.flash.mem

variable {p : Platform} {e : Env} {w₀ w w' : World}

section Genuine

variable {slot : Slot} {v : Version} {m m' : Mem}

theorem FromMetadata.congr (h : FromMetadata p e slot v m)
    (hsame : ∀ x, InImageSlot p slot x → m' x = m x) : FromMetadata p e slot v m' := by
  obtain ⟨metadata, target, hfresh, hoffered, hversion, hholds⟩ := h
  exact ⟨metadata, target, hfresh, hoffered, hversion, hholds.congr hsame⟩

theorem Genuine.congr (h : Genuine p e w₀ slot v m)
    (hsame : ∀ x, InImageSlot p slot x → m' x = m x) : Genuine p e w₀ slot v m' := by
  rcases h with ⟨hslot, hversion, hbytes⟩ | h
  · exact Or.inl ⟨hslot, hversion, fun x hx => (hsame x hx).trans (hbytes x hx)⟩
  · exact Or.inr (h.congr hsame)

end Genuine

theorem Unrefused.of_grew (h : Unrefused w'.log) (hgrew : Grew w w') : Unrefused w.log := by
  obtain ⟨newer, hnewer⟩ := Extends.exists_append hgrew
  intro permanent hmem
  apply h permanent
  rw [hnewer]
  exact List.mem_append_right newer hmem

theorem Unrefused.not_confirmRefused {es : List Event} (h : Unrefused es) :
    ¬ ConfirmRefused true es := by
  rw [ConfirmRefused, since_iff]
  rintro ⟨newer, ev, older, rfl, ⟨permanent, rfl⟩, -⟩
  exact h permanent (List.mem_append_right newer List.mem_cons_self)

/-! ### What keeps the chain -/

/-- The chain as it stands at the start. -/
theorem Trusted.start (hstart : StartsPermanent w) : Trusted p e w w := by
  refine ⟨fun v hv => ?_, fun h => absurd hstart.fallback h,
    fun _ => Or.inl ⟨rfl, rfl, fun _ _ => rfl⟩, fun _ u hu => ?_⟩
  · cases hstart.armed.symm.trans hv
  · cases hstart.fallback.symm.trans hu

/-- **A check-in** writes neither slot. -/
theorem Trusted.checksIn (h : Trusted p e w₀ w) (h' : ChecksIn w w') (hgrew : Grew w w') :
    Trusted p e w₀ w' := by
  have hsame : ∀ slot x, InImageSlot p slot x → w'.flash.mem x = w.flash.mem x :=
    fun slot x hx => h'.frame x hx.not_inState
  rcases h'.boot with hboot | hboot
  · refine ⟨?_, ?_, fun hun => ?_, fun hun => ?_⟩
    all_goals rw [hboot]
    · exact fun v hv => (h.armed v hv).congr (hsame _)
    · exact fun htrial => (h.onTrial htrial).congr (hsame _)
    · exact (h.running (hun.of_grew hgrew)).congr (hsame _)
    · exact fun u hu => (h.fallback (hun.of_grew hgrew) u hu).congr (hsame _)
  · -- the image is confirmed: there is none to fall back to any more
    refine ⟨?_, ?_, fun hun => ?_, fun _ => ?_⟩
    all_goals rw [hboot]
    · exact fun v hv => (h.armed v hv).congr (hsame _)
    · exact fun htrial => absurd rfl htrial
    · exact (h.running (hun.of_grew hgrew)).congr (hsame _)
    · exact nofun

/-- **An installation** of an offered target, with nothing armed before it. -/
theorem Trusted.installs {metadata : List Byte} {target : AknanoTarget} (h : Trusted p e w₀ w)
    (h' : Installs p e target w w') (hgrew : Grew w w') (hfresh : Refreshed e metadata)
    (hoffered : Offered p e metadata target) (harmed : w.boot.armed = none)
    (hfallback : Unrefused w.log → w.boot.fallback = none) : Trusted p e w₀ w' := by
  -- the running image is not touched
  have hsame : ∀ x, InImageSlot p w.boot.active x → w'.flash.mem x = w.flash.mem x :=
    fun x hx => h'.frame x hx.not_inState hx.not_other
  refine ⟨fun v hv => ?_, fun htrial => ?_, fun hun => ?_, fun hun u hu => ?_⟩
  · rw [h'.active]
    rcases h'.armed with hkept | ⟨hnew, hholds⟩
    · cases harmed.symm.trans (hkept.symm.trans hv)
    · obtain rfl : target.version = v := Option.some.inj (hnew.symm.trans hv)
      exact ⟨metadata, target, hfresh, hoffered, rfl, hholds⟩
  · rw [h'.active, h'.running]
    exact (h.onTrial (h'.fallback ▸ htrial)).congr hsame
  · rw [h'.active, h'.running]
    exact (h.running (hun.of_grew hgrew)).congr hsame
  · cases (hfallback (hun.of_grew hgrew)).symm.trans (h'.fallback.symm.trans hu)

/-- **A reset** starts what it knows to be genuine. -/
theorem Trusted.powered (h : Trusted p e w₀ w) : Trusted p e w₀ w.powered := by
  have hunrefused : Unrefused w.powered.log → Unrefused w.log := fun hun permanent hmem =>
    hun permanent (List.mem_cons_of_mem _ hmem)
  have hboot : w.powered.boot = w.boot.reset := rfl
  have hmem : w.powered.flash = w.flash := rfl
  rcases w.boot.reset_cases with ⟨v, harmed, -, hreset⟩ | ⟨u, -, hfallback, -, hreset⟩ |
    ⟨-, -, -, hreset⟩
  · -- the armed image goes on trial, and the running one is kept to fall back to
    have hnew := h.armed v harmed
    refine ⟨?_, fun _ => ?_, fun _ => ?_, fun hun => ?_⟩
    all_goals rw [hboot, hreset, hmem]
    · exact nofun
    · exact hnew
    · exact Or.inr hnew
    · rintro u ⟨⟩
      dsimp only
      rw [Slot.other_other]
      exact h.running (hunrefused hun)
  · refine ⟨?_, ?_, fun hun => ?_, fun _ => ?_⟩
    all_goals rw [hboot, hreset, hmem]
    · exact nofun
    · exact fun htrial => absurd rfl htrial
    · exact h.fallback (hunrefused hun) u hfallback
    · exact nofun
  · refine ⟨?_, ?_, fun hun => ?_, fun hun => ?_⟩
    all_goals rw [hboot, hreset, hmem]
    · exact h.armed
    · exact h.onTrial
    · exact h.running (hunrefused hun)
    · exact h.fallback (hunrefused hun)

/-! ### The loop -/

/-- The metadata of the last check-in are those of a successful refresh. -/
def Machine.Fresh (e : Env) (m : Machine) : Prop :=
  ∀ ram metadata refused, m.phase = .awake ram (.refreshed metadata refused) →
    Refreshed e metadata

theorem fresh_step {m m' : Machine} {ev : Event} (h : m.Fresh e) (hstep : Step p e m ev m') :
    m'.Fresh e := by
  cases hstep with
  | refreshed hfresh =>
    rintro _ _ _ ⟨⟩
    exact hfresh
  | confirmed hboot =>
    rintro _ _ _ ⟨⟩
    exact h _ _ _ rfl
  | settled =>
    rintro _ _ _ ⟨⟩
    exact h _ _ _ rfl
  | completed =>
    rintro _ _ _ ⟨⟩
    exact h _ _ _ rfl
  | @downloaded s b ram target ok => cases ok <;> rintro _ _ _ ⟨⟩
  | @installed s s' b ram target armed => cases armed <;> rintro _ _ _ ⟨⟩
  | reset | loaded | iteration | install | readyForTest | cut => rintro _ _ _ ⟨⟩

theorem fresh_run {m m' : Machine} {es : List Event} (h : Run (Step p e) m es m')
    (hstart : m.Fresh e) : m'.Fresh e := by
  induction h with
  | start => exact hstart
  | next _ hlast ih => exact fresh_step ih hlast

/-- What is known when an installation may start. -/
structure MayInstall (e : Env) (metadata : List Byte) (w : World) : Prop where
  fresh : Refreshed e metadata
  armed : w.boot.armed = none
  fallback : Unrefused w.log → w.boot.fallback = none

variable {s : Settings} {finished : Bool} {task : Task}

theorem At.mayInstall {metadata : List Byte} {refused : Bool} (hstart : StartsPermanent w₀)
    (h : At p e (machineOf p w₀) s finished (.refreshed metadata refused) w)
    (hperm : refused = false → w.boot.fallback = none) : MayInstall e metadata w := by
  have hwatched : Watched w.log _ := h.follows.invariant (P := fun _ => True)
    (Watched.start hstart) (fun hw _ hs => hw.step hs) fun _ _ => trivial
  refine ⟨fresh_run h.follows nofun _ _ _ rfl, hwatched.unarmed, fun hun => ?_⟩
  exact (Machine.NotesRefusal.fallback hwatched.refusal hperm).mpr hun.not_confirmRefused

theorem Still.grew (h : Still w w') : Grew w w' := h.grows

/-- After a successful check-in. -/
theorem handleCheckin_trusted {c : Context} {metadata : List Byte} (h : Trusted p e w₀ w)
    (hpos : Positioned c.settings w) (hcount : c.settings.rollbackRetryCount.slt 0 = false)
    (hoffered : c.selectedTarget.version ≠ 0 → Offered p e metadata c.selectedTarget)
    (hmay : MayInstall e metadata w) :
    wp (handleCheckin p e c) (fun _ w' => Trusted p e w₀ w') (fun _ => Trusted p e w₀) w := by
  unfold handleCheckin
  rw [wp_bind]
  refine wp_mono (isUpdateRequired_spec hcount w) ?_ fun _ _ hstill =>
    h.checksIn hstill.checksIn hstill.grew
  rintro updateRequired w₁ ⟨hstill, hrequired⟩
  have h₁ := h.checksIn hstill.checksIn hstill.grew
  cases updateRequired with
  | false =>
    rw [if_neg Bool.false_ne_true, wp_pure]
    exact h₁
  | true =>
    have hboot : w₁.boot = w.boot := hstill.quiet.boot
    have hpos₁ : Positioned c.settings w₁ := by rw [Positioned, hboot]; exact hpos
    have harmed₁ : w₁.boot.armed = none := by rw [hboot]; exact hmay.armed
    have hfallback₁ : Unrefused w₁.log → w₁.boot.fallback = none := fun hun => by
      rw [hboot]
      exact hmay.fallback (hun.of_grew hstill.grew)
    have hinstalled : ∀ {w₂ : World}, Installs p e c.selectedTarget w₁ w₂ → Grew w₁ w₂ →
        Trusted p e w₀ w₂ := fun h₂ hgrew =>
      h₁.installs h₂ hgrew hmay.fresh (hoffered (hrequired rfl).1) harmed₁ hfallback₁
    rw [if_pos rfl, wp_bind]
    refine wp_mono (wp_and (installSelectedTarget_keeps hpos₁)
      (grows_installSelectedTarget ofCompletion_true c w₁)) ?_ fun _ _ h₂ => hinstalled h₂.1 h₂.2
    rintro ⟨isRebootRequired, s⟩ w₂ ⟨⟨h₂, -⟩, hgrew⟩
    have h₂ := hinstalled h₂ hgrew
    cases isRebootRequired with
    | true =>
      exact wp_mono (reboot_spec w₂) (fun _ _ h₃ => h₃.elim) fun _ _ h₃ =>
        h₂.checksIn h₃.checksIn h₃.grew
    | false => exact (wp_pure _).mpr h₂

/-- The loop between two iterations. -/
def Between (p : Platform) (e : Env) (w₀ : World) (l : Loop) (w : World) : Prop :=
  ∃ task : Task, task.Free ∧ At p e (machineOf p w₀) l.settings l.executedOnce task w ∧
    Positioned l.settings w ∧ Trusted p e w₀ w

/-- A reset can come, to a device that is trusted. -/
def Resting (p : Platform) (e : Env) (w₀ w : World) : Prop :=
  Stopped p e (machineOf p w₀) w ∧ Trusted p e w₀ w

theorem Between.still {l : Loop} (h : Between p e w₀ l w) (hstill : Still w w') :
    Between p e w₀ l w' := by
  obtain ⟨task, hfree, hat, hpos, htrusted⟩ := h
  exact ⟨task, hfree, hat.quiet hstill.quiet, hstill.boots.positioned (p := p) rfl hpos,
    htrusted.checksIn hstill.checksIn hstill.grew⟩

theorem Between.resting {l : Loop} (h : Between p e w₀ l w) : Resting p e w₀ w := by
  obtain ⟨task, hfree, hat, -, htrusted⟩ := h
  exact ⟨hat.stopped hfree, htrusted⟩

theorem grew_checkin (c : Context) (executedOnce : Bool) :
    Keeps Grew (aknanoCheckin p e c executedOnce) := by
  have hfrom : ∀ r, Keeps Grew (checkinFromFinish p e executedOnce r) := fun r w =>
    checkinFromFinish_grows ofCompletion_true fun _ => accounts_true _ _ _
  rw [aknanoCheckin_eq]
  exact (grows_checkinUntilFinish ofCompletion_true c).bind hfrom

/-- **One iteration.** -/
theorem loopBody_trusted (hstart : StartsPermanent w₀) (startupEpoch : BitVec 64) {l : Loop}
    (h : Between p e w₀ l w) :
    wp (loopBody p e startupEpoch l) (Between p e w₀) (fun _ => Resting p e w₀) w := by
  obtain ⟨task, hfree, hat, hpos, htrusted⟩ := h
  have hoffline : ∀ (anyCheckinOk : Bool) (l' : Loop) {w' : World}, Between p e w₀ l' w' →
      wp (do rebootIfOffline e startupEpoch anyCheckinOk l'.settings
             pure l') (Between p e w₀) (fun _ => Resting p e w₀) w' := by
    intro anyCheckinOk l' w' h'
    refine (still_rebootIfOffline startupEpoch anyCheckinOk _).wp_bind (fun _ w'' hstill => ?_)
      fun _ _ hstill => (h'.still hstill).resting
    exact (wp_pure _).mpr (h'.still hstill)
  unfold loopBody
  rw [wp_bind, wp_emit]
  generalize hw₁ : { w with log := .iteration :: w.log } = w₁
  have hat₁ : At p e (machineOf p w₀) l.settings l.executedOnce .checking w₁ := by
    rw [← hw₁]
    exact ⟨hat.follows.next rfl (.iteration hfree), hat.fit⟩
  have hpos₁ : Positioned l.settings w₁ := by rw [← hw₁]; exact hpos
  have h₁ : Trusted p e w₀ w₁ := by
    rw [← hw₁]
    exact htrusted.checksIn (stores_logged ..).checksIn (Extends.refl.cons trivial)
  rw [wp_bind]
  refine wp_mono (wp_and (checkin_spec hat₁) (wp_and
    (checkin_keeps (aknanoInitContext l.settings) l.executedOnce w₁)
    (grew_checkin (aknanoInitContext l.settings) l.executedOnce w₁))) ?_
    fun _ _ h₂ => ⟨h₂.1, h₁.checksIn h₂.2.1 h₂.2.2⟩
  rintro ⟨checkinResult, c, executedOnce⟩ w₂ ⟨⟨task₂, hfree₂, hat₂, hok⟩, ⟨h₂, hs⟩, hgrew₂⟩
  have htrusted₂ := h₁.checksIn h₂ hgrew₂
  have hpos₂ : Positioned c.settings w₂ := h₂.boots.positioned (p := p) hs hpos₁
  dsimp only at hat₂ hok ⊢
  by_cases hresult : checkinResult = 0
  · obtain ⟨rfl, metadata, refused, rfl, hperm, -, hoffered⟩ := hok hresult
    rw [if_pos hresult, wp_bind]
    have hmay := hat₂.mayInstall hstart hperm
    refine wp_mono (wp_and (handleCheckin_spec hat₂ hperm hoffered) (wp_and
      (handleCheckin_keeps hpos₂)
      (handleCheckin_trusted htrusted₂ hpos₂ hat₂.fit.retryCount hoffered hmay))) ?_
      fun _ _ h₃ => ⟨h₃.1, h₃.2.2⟩
    rintro s₃ w₃ ⟨⟨task₃, hfree₃, hat₃⟩, ⟨-, hpos₃⟩, htrusted₃⟩
    rw [wp_bind, wp_pure]
    exact hoffline true ⟨s₃, true, true⟩ ⟨task₃, hfree₃, hat₃, hpos₃, htrusted₃⟩
  · rw [if_neg hresult, wp_bind, wp_pure]
    exact hoffline l.anyCheckinOk ⟨c.settings, l.anyCheckinOk, executedOnce⟩
      ⟨task₂, hfree₂, hat₂, hpos₂, htrusted₂⟩

/-! ### A life -/

/-- **A boot.** -/
theorem bootOnce_trusted (hstart : StartsPermanent w₀) (n : Nat) (h : Resting p e w₀ w) :
    Resting p e w₀ (final (bootOnce p e n) w) := by
  obtain ⟨phase, hfree, hfollows⟩ := h.1
  have hloading : Follows p e (machineOf p w₀) .loading w.powered :=
    hfollows.next rfl (.reset hfree)
  refine bootOnce_rule (J := Between p e w₀) (fun w₁ h₁ => ?_) (fun w₁ h₁ => ?_)
    (fun startupEpoch l w₁ h₁ => loopBody_trusted hstart startupEpoch h₁)
    (fun _ _ _ h₁ h₂ => h₁.still h₂) (fun _ _ h₁ => h₁.resting) n
  · exact ⟨⟨.loading, trivial, hloading.quiet h₁.quiet⟩,
      h.2.powered.checksIn h₁.checksIn h₁.grew⟩
  · have htrusted₁ := h.2.powered.checksIn h₁.checksIn h₁.grew
    refine wp_mono (wp_and (aknanoInit_spec (hloading.quiet h₁.quiet)) (wp_and
      (aknanoInit_keeps w₁) (grows_init ofCompletion_true w₁))) ?_
      fun _ _ h₂ => ⟨h₂.1, htrusted₁.checksIn h₂.2.1.checksIn h₂.2.2⟩
    rintro s w₂ ⟨hat₂, ⟨h₂, hpos₂⟩, hgrew₂⟩
    exact ⟨.idle, trivial, hat₂, hpos₂, htrusted₁.checksIn h₂.checksIn hgrew₂⟩

/-- **Only genuine images are started.**  In every life of a device that starts
with a permanent image, between any two boots and after the next reset: what is
armed, and what is on trial, stands in its slot with the size and the hash that
metadata of a successful refresh offer for that version; and unless a trial was
refused, so do the running image and the one to fall back to, or they are the
image the device was delivered with. -/
theorem lifetime_trusted {w₀ : World} (hstart : StartsPermanent w₀) (boots : List Nat) :
    Trusted p e w₀ (lifetime p e boots w₀) ∧ Trusted p e w₀ (lifetime p e boots w₀).powered := by
  have hlife : ∀ w, Resting p e w₀ w → Resting p e w₀ (lifetime p e boots w) := by
    induction boots with
    | nil => exact fun w h => h
    | cons n boots ih => exact fun w h => ih _ (bootOnce_trusted hstart n h)
  have hresting := hlife w₀ ⟨lifetime_stopped [] hstart.new, .start hstart⟩
  exact ⟨hresting.2, hresting.2.powered⟩

/-- Version 7 goes on trial, with the hash that the metadata gave. -/
theorem lifetime_trusted_offering :
    FromMetadata .sample .offering .secondary 7
      (lifetime .sample .offering [1, 0] (.factory 5)).flash.mem := by
  have hboot : (lifetime .sample .offering [1, 0] (.factory 5)).boot
      = ⟨.secondary, 7, some 5, some 5, none⟩ := by decide +kernel
  have h := (lifetime_trusted (p := .sample) (e := .offering) (startsPermanent_factory 5)
    [1, 0]).1.onTrial (by rw [hboot]; exact nofun)
  rwa [hboot] at h

end AktualizrNano
