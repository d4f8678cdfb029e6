/-
AktualizrNano/CorrelationId.lean

One correlation id per update.  It is generated when an installation starts,
every event of the installation carries it, it is saved at the end, and the boot
that reports how the update ended finds it again (`correlationId_kept`).

In between nothing touches it.  `KeepsId` says that the record has grown by no
event at which the stored id is replaced, and `Untouched` that as long as this
is so the settings sector stays as it is; that holds of every function of the
agent.  Up to the first successful check-in there is no such event, as the
record is a run of the protocol (`FirstCheckin.keepsId`).
-/
import AktualizrNano.Growth

namespace AktualizrNano

open CLib NorFlash Outcome Trace

variable {p : Platform} {e : Env} {w w' w'' : World}

/-! ### The settings sector -/

/-- From here on the stored id is another one: an update has come to its end, or
was cut short when that was saved, or an installation has begun.  Nor is it
known to a boot that cannot read the settings. -/
def Event.ReplacesId : Event → Prop
  | .completed _ _ _ => True
  | .cut .saving => True
  | .install _ _ => True
  | .loaded readsOk _ _ => readsOk = false
  | _ => False

/-- Nothing has replaced the id. -/
def KeepsId (w w' : World) : Prop := Grows (fun ev _ => ¬ ev.ReplacesId) w w'

theorem KeepsId.split (h : KeepsId w w'') (h₁ : Grew w w') (h₂ : Grew w' w'') :
    KeepsId w w' ∧ KeepsId w' w'' := by
  obtain ⟨mid, hmid⟩ := h₁.exists_append
  obtain ⟨newer, hnewer⟩ := h₂.exists_append
  rw [hmid] at hnewer
  unfold KeepsId Grows at *
  rw [hnewer] at h
  rw [hmid, hnewer]
  exact h.split

/-- An event that replaces it. -/
theorem not_keepsId {ev : Event} (hlog : w'.log = ev :: w.log) (hev : ev.ReplacesId)
    (h : Grew w' w'') : Grew w w'' ∧ ¬ KeepsId w w'' := by
  have hgrew : Grew w w' := by
    rw [Grew, Grows, hlog]
    exact Extends.refl.cons trivial
  refine ⟨Extends.trans hgrew h, fun hkeeps => ?_⟩
  have hlast := (hkeeps.split hgrew h).1
  rw [KeepsId, Grows, hlog] at hlast
  exact hlast.of_cons hev

/-- As long as nothing replaces the id, the sector is the same. -/
structure Untouched (w w' : World) : Prop where
  grew : Grew w w'
  sector : KeepsId w w' → SameSector w.flash.mem w'.flash.mem

theorem Untouched.refl (w : World) : Untouched w w := ⟨Grows.refl w, fun _ _ _ _ => rfl⟩

theorem Untouched.trans (h : Untouched w w') (h' : Untouched w' w'') : Untouched w w'' := by
  refine ⟨Extends.trans h.grew h'.grew, fun hkeeps => ?_⟩
  obtain ⟨h₁, h₂⟩ := hkeeps.split h.grew h'.grew
  exact fun x hlo hhi => (h'.sector h₂ x hlo hhi).trans (h.sector h₁ x hlo hhi)

instance : Trans Untouched Untouched Untouched where
  trans := Untouched.trans

theorem Quiet.untouched (h : Quiet w w') : Untouched w w' := ⟨h.grows, fun _ => h.sector⟩

theorem Still.untouched (h : Still w w') : Untouched w w' := h.quiet.untouched

/-- Once the id is replaced, nothing more is said. -/
theorem Untouched.of_not (hgrew : Grew w w') (hnot : ¬ KeepsId w w') : Untouched w w' :=
  ⟨hgrew, fun h => absurd h hnot⟩

theorem untouched_emit (ev : Event) : Keeps Untouched (emit ev) := fun _ =>
  wp_emit.mpr ⟨Extends.refl.cons trivial, fun _ _ _ _ => rfl⟩

theorem untouched_blUpdateImageState (update : Boot → Boot) :
    Keeps Untouched (blUpdateImageState e update) := by
  intro w
  refine wp_mono (blUpdateImageState_spec update w) ?_ fun _ _ h => h.untouched
  intro status w' h
  rw [h]
  exact ⟨Grows.refl w, fun _ _ _ _ => rfl⟩

theorem untouched_setImageConfirmed (isImagePermanent : Bool) :
    Keeps Untouched (aknanoSetImageConfirmed e isImagePermanent) := by
  unfold aknanoSetImageConfirmed
  split
  · exact .pure Untouched.refl _
  · have hget : Keeps Untouched (get : M World) := still_get.mono fun _ _ h => h.untouched
    exact hget.bind fun _ => (untouched_blUpdateImageState _).bind fun _ => hget.bind fun _ =>
      (untouched_emit _).bind fun _ => .pure Untouched.refl _

/-- An installation replaces the id. -/
theorem installSelectedTarget_replaces (c : Context) (w : World) :
    wp (aknanoInstallSelectedTarget p e c)
      (fun _ w' => Grew w w' ∧ ¬ KeepsId w w') (fun _ w' => Grew w w' ∧ ¬ KeepsId w w') w := by
  obtain ⟨rest, heq, hrest⟩ := installSelectedTarget_eq (p := p) (e := e) ofCompletion_true c
  have hev : (Event.install c.selectedTarget c.settings.runningVersion).ReplacesId := trivial
  rw [heq, wp_bind, wp_emit]
  exact wp_mono (hrest _) (fun _ _ h => not_keepsId rfl hev h) fun _ _ h => not_keepsId rfl hev h

/-! ### The id in RAM -/

/-- From `w` with the settings `s` to `w'` with `s'`. -/
structure Carried (s : Settings) (w : World) (s' : Settings) (w' : World) : Prop where
  untouched : Untouched w w'
  id : KeepsId w w' → s'.ongoingUpdateCorrelationId = s.ongoingUpdateCorrelationId

variable {s s' s'' : Settings}

theorem Carried.trans (h : Carried s w s' w') (h' : Carried s' w' s'' w'') :
    Carried s w s'' w'' := by
  refine ⟨h.untouched.trans h'.untouched, fun hkeeps => ?_⟩
  obtain ⟨h₁, h₂⟩ := hkeeps.split h.untouched.grew h'.untouched.grew
  exact (h'.id h₂).trans (h.id h₁)

theorem Untouched.carried (h : Untouched w w') (s : Settings) : Carried s w s w' :=
  ⟨h, fun _ => rfl⟩

/-- A program that leaves the sector alone, between two points of a run. -/
theorem Carried.bind {α β : Type} {x : M α} {f : α → M β} {Q : β → World → Prop}
    {E : World → Prop} (h : Carried s w s' w') (hx : Keeps Untouched x)
    (hf : ∀ a w'', Carried s w s' w'' → wp (f a) Q (fun _ => E) w'')
    (hE : ∀ w'', Untouched w w'' → E w'') : wp (x >>= f) Q (fun _ => E) w' := by
  refine hx.wp_bind (fun a w'' h'' => hf a w'' (h.trans (h''.carried s'))) fun _ w'' h'' => ?_
  exact hE w'' (h.untouched.trans h'')

/-- Fetching the configuration keeps the id. -/
theorem fetchConfig_carried (s : Settings) (w : World) :
    wp (fetchConfig p e s) (fun s' w' => Carried s w s' w') (fun _ w' => Untouched w w') w := by
  unfold fetchConfig
  refine (quiet_sendHttpRequest _ _ _ _).wp_bind (fun reply w₁ hq => ?_) fun _ _ hq => hq.untouched
  split
  · split
    · next hparse =>
      obtain ⟨tag, n, rfl⟩ := parseConfig_reconfigures hparse
      exact (wp_pure _).mpr ⟨hq.untouched, fun _ => rfl⟩
    · exact (wp_throw _).mpr hq.untouched
  · exact (wp_pure _).mpr (hq.untouched.carried s)

/-- **The check-in**, up to the completion handler. -/
theorem checkinUntilFinish_carried (c : Context) (w : World) :
    wp (checkinUntilFinish p e c) (fun r w' => Carried c.settings w r.2.2.settings w')
      (fun _ w' => Untouched w w') w := by
  have hquiet : ∀ {α : Type} {x : M α}, Keeps Quiet x → Keeps Untouched x := fun hx =>
    hx.mono fun _ _ h => h.untouched
  have hstill : ∀ {α : Type} {x : M α}, Keeps Still x → Keeps Untouched x := fun hx =>
    hx.mono fun _ _ h => h.untouched
  unfold checkinUntilFinish
  refine ((Untouched.refl w).carried c.settings).bind (hstill (still_mtlsConnect _))
    (fun connected w₁ h₁ => ?_) fun _ h => h
  split
  · rw [wp_bind]
    refine wp_mono (fetchConfig_carried c.settings w₁) ?_ fun _ _ h => h₁.untouched.trans h
    intro s w₂ h₂
    refine (h₁.trans h₂).bind (hquiet (quiet_sendHttpRequest _ _ _ _)) (fun _ w₃ h₃ => ?_)
      fun _ h => h
    refine h₃.bind (hquiet (quiet_sendHttpRequest _ _ _ _)) (fun _ w₄ h₄ => ?_) fun _ h => h
    refine h₄.bind (hquiet (quiet_sendHttpRequest _ _ _ _)) (fun _ w₅ h₅ => ?_) fun _ h => h
    refine h₅.bind (hstill still_currentEpoch) (fun _ w₆ h₆ => ?_) fun _ h => h
    refine h₆.bind (hquiet (quiet_tufRefresh s)) (fun r w₇ h₇ => ?_) fun _ h => h
    obtain ⟨tufRet, userBuffer⟩ := r
    dsimp only
    split
    · refine h₇.bind (untouched_emit _) (fun _ w₈ h₈ => ?_) fun _ h => h
      split
      · refine h₈.bind (untouched_setImageConfirmed _) (fun permanent w₉ h₉ => ?_) fun _ h => h
        exact (wp_pure _).mpr ⟨h₉.untouched, h₉.id⟩
      · exact (wp_pure _).mpr h₈
    · exact (wp_pure _).mpr h₇
  · exact (wp_pure _).mpr h₁

/-- **The completion handler.** -/
theorem sendInstallationFinishedEvent_carried (s : Settings) (executedOnce : Bool) (w : World) :
    wp (aknanoSendInstallationFinishedEvent p e s executedOnce)
      (fun r w' => Carried s w r.1 w') (fun _ w' => Untouched w w') w := by
  unfold aknanoSendInstallationFinishedEvent
  by_cases hexecuted : executedOnce = true
  · rw [if_pos hexecuted, wp_pure]
    exact (Untouched.refl w).carried s
  rw [if_neg hexecuted]
  dsimp only
  by_cases hsettled :
      ¬ s.isRunningRolledBackImage = true ∧ s.lastConfirmedVersion = s.runningVersion
  · rw [if_pos hsettled]
    refine (untouched_emit _).wp_bind (fun _ w₁ h₁ => ?_) fun _ _ h => h
    exact (wp_pure _).mpr (h₁.carried s)
  · rw [if_neg hsettled, wp_bind]
    refine wp_mono (aknanoSendEvent_spec ..) ?_ fun _ _ hq => hq.untouched
    rintro ⟨sent, s₁⟩ w₁ ⟨hq, -⟩
    -- from the save on the id is another one
    have hsave : ∀ (ev : Event) (f : Flash), ev.ReplacesId →
        Untouched w { w₁ with flash := f, log := ev :: w₁.log } ∧
          ¬ KeepsId w { w₁ with flash := f, log := ev :: w₁.log } := by
      intro ev f hev
      have hlog : { w₁ with flash := f, log := ev :: w₁.log }.log = ev :: w.log :=
        congrArg (ev :: ·) hq.log
      obtain ⟨hgrew, hnot⟩ := not_keepsId hlog hev (Grows.refl _)
      exact ⟨.of_not hgrew hnot, hnot⟩
    rw [wp_bind, during, wp_onError, onFlash, wp_zoom]
    unfold wp
    split
    · next ret f _ =>
      obtain ⟨huntouched, hnot⟩ := hsave (.completed _ _ (decide (ret = 0))) f trivial
      exact ⟨huntouched, fun hkeeps => absurd hkeeps hnot⟩
    · next halt f _ => exact (hsave (.cut .saving) f trivial).1

theorem checkinFromFinish_carried (r : Int × Bool × Context) (executedOnce : Bool) (w : World) :
    wp (checkinFromFinish p e executedOnce r)
      (fun r' w' => Carried r.2.2.settings w r'.2.1.settings w')
      (fun _ w' => Untouched w w') w := by
  obtain ⟨tufRet, finishes, c⟩ := r
  have hdisconnect : Keeps Untouched (aknanoMtlsDisconnect e) :=
    still_mtlsDisconnect.mono fun _ _ h => h.untouched
  rw [checkinFromFinish]
  cases finishes with
  | false =>
    rw [if_neg Bool.false_ne_true, wp_bind, wp_pure]
    refine ((Untouched.refl w).carried c.settings).bind hdisconnect (fun _ w₁ h₁ => ?_)
      fun _ h => h
    exact (wp_pure _).mpr h₁
  | true =>
    rw [if_pos rfl, wp_bind]
    refine wp_mono (sendInstallationFinishedEvent_carried ..) ?_ fun _ _ h => h
    rintro ⟨s, executedOnce'⟩ w₁ h₁
    rw [wp_bind, wp_pure]
    refine h₁.bind hdisconnect (fun _ w₂ h₂ => ?_) fun _ h => h
    exact (wp_pure _).mpr h₂

/-- After a successful check-in. -/
theorem handleCheckin_carried (c : Context) (w : World) :
    wp (handleCheckin p e c) (fun s w' => Carried c.settings w s w')
      (fun _ w' => Untouched w w') w := by
  unfold handleCheckin
  refine ((Untouched.refl w).carried c.settings).bind
    ((still_isUpdateRequired c).mono fun _ _ h => h.untouched) (fun updateRequired w₁ h₁ => ?_)
    fun _ h => h
  cases updateRequired with
  | false =>
    rw [if_neg Bool.false_ne_true, wp_pure]
    exact h₁
  | true =>
    rw [if_pos rfl, wp_bind]
    refine wp_mono (installSelectedTarget_replaces c w₁) ?_ fun _ _ h =>
      h₁.untouched.trans (.of_not h.1 h.2)
    rintro ⟨isRebootRequired, s⟩ w₂ ⟨hgrew, hnot⟩
    have h₂ : Carried c.settings w₁ s w₂ := ⟨.of_not hgrew hnot, fun h => absurd h hnot⟩
    cases isRebootRequired with
    | true =>
      refine wp_mono (reboot_spec w₂) (fun _ _ h => h.elim) fun _ _ h => ?_
      exact (h₁.trans h₂).untouched.trans h.untouched
    | false => exact (wp_pure _).mpr (h₁.trans h₂)

theorem loopFromCheckin_carried (startupEpoch : BitVec 64) (anyCheckinOk : Bool)
    (r : Int × Context × Bool) (w : World) :
    wp (loopFromCheckin p e startupEpoch anyCheckinOk r)
      (fun l w' => Carried r.2.1.settings w l.settings w') (fun _ w' => Untouched w w') w := by
  obtain ⟨checkinResult, c, executedOnce⟩ := r
  have hoffline : ∀ anyCheckinOk s,
      Keeps Untouched (rebootIfOffline e startupEpoch anyCheckinOk s) :=
    fun anyCheckinOk s =>
      (still_rebootIfOffline startupEpoch anyCheckinOk s).mono fun _ _ h => h.untouched
  rw [loopFromCheckin]
  by_cases hresult : checkinResult = 0
  · rw [if_pos hresult, wp_bind]
    refine wp_mono (handleCheckin_carried c w) ?_ fun _ _ h => h
    intro s w₁ h₁
    rw [wp_bind, wp_pure]
    refine h₁.bind (hoffline _ _) (fun _ w₂ h₂ => ?_) fun _ h => h
    exact (wp_pure _).mpr h₂
  · rw [if_neg hresult, wp_bind, wp_pure]
    refine ((Untouched.refl w).carried c.settings).bind (hoffline _ _) (fun _ w₁ h₁ => ?_)
      fun _ h => h
    exact (wp_pure _).mpr h₁

/-! ### The loop and the boot -/

/-- **One iteration.** -/
theorem loopBody_carried (startupEpoch : BitVec 64) (l : Loop) (w : World) :
    wp (loopBody p e startupEpoch l) (fun l' w' => Carried l.settings w l'.settings w')
      (fun _ w' => Untouched w w') w := by
  rw [loopBody_eq]
  refine ((Untouched.refl w).carried l.settings).bind (untouched_emit _) (fun _ w₁ h₁ => ?_)
    fun _ h => h
  rw [wp_bind]
  refine wp_mono (checkinUntilFinish_carried _ w₁) ?_ fun _ _ h => h₁.untouched.trans h
  intro r w₂ h₂
  replace h₂ := h₁.trans h₂
  rw [wp_bind]
  refine wp_mono (checkinFromFinish_carried r _ w₂) ?_ fun _ _ h => h₂.untouched.trans h
  intro r' w₃ h₃
  replace h₃ := h₂.trans h₃
  exact wp_mono (loopFromCheckin_carried startupEpoch _ r' w₃) (fun _ _ h => h₃.trans h)
    fun _ _ h => h₃.untouched.trans h

/-- **The first iterations.** -/
theorem firstIterations_carried (startupEpoch : BitVec 64) (k : Nat) (l : Loop) (w : World) :
    wp (firstIterations p e startupEpoch k l)
      (fun l' w' => Carried l.settings w l'.settings w') (fun _ w' => Untouched w w') w := by
  induction k generalizing l w with
  | zero => exact (wp_pure _).mpr ((Untouched.refl w).carried l.settings)
  | succ k ih =>
    rw [firstIterations, wp_bind]
    refine wp_mono (loopBody_carried startupEpoch l w) ?_ fun _ _ h => h
    intro l₁ w₁ h₁
    refine h₁.bind ((still_delay _).mono fun _ _ h => h.untouched) (fun _ w₂ h₂ => ?_)
      fun _ h => h
    exact wp_mono (ih l₁ w₂) (fun _ _ h => h₂.trans h) fun _ _ h => h₂.untouched.trans h

/-- **The loop.** -/
theorem untouched_sampleLoop (startupEpoch : BitVec 64) (n : Nat) (l : Loop) :
    Keeps Untouched (sampleLoop p e startupEpoch n l) := by
  induction n generalizing l with
  | zero => exact .pure Untouched.refl _
  | succ n ih =>
    have hbody : Keeps Untouched (loopBody p e startupEpoch l) := fun w =>
      wp_mono (loopBody_carried startupEpoch l w) (fun _ _ h => h.untouched) fun _ _ h => h
    rw [sampleLoop]
    refine hbody.bind fun l₁ => ?_
    split
    · exact ((still_delay _).mono fun _ _ h => h.untouched).bind fun _ => ih l₁
    · exact Keeps.bind (.pure Untouched.refl ()) fun _ => ih l₁

/-- The correlation id that a boot reads from these contents, if no read fails. -/
def storedId (p : Platform) (m : Mem) : CharArray aknanoMaxUpdateCorrelationIdLength :=
  (checkedFields p (storedFields m)).ongoingUpdateCorrelationId

theorem storedId_congr {m m' : Mem} (h : SameSector m m') : storedId p m' = storedId p m :=
  congrArg (dropInvalidId p) (storedCorrelationId_congr h)

/-- **The start of a boot**: the stored id is loaded. -/
theorem aknanoInit_id (w : World) :
    wp (aknanoInit p e)
      (fun s w' => Untouched w w' ∧
        (KeepsId w w' → s.ongoingUpdateCorrelationId = storedId p w.flash.mem))
      (fun _ w' => Untouched w w') w := by
  have hpermanent : Keeps Untouched (aknanoIsCurrentImagePermanent e) := fun w =>
    wp_mono (isCurrentImagePermanent_spec w) (fun _ _ h => h.1.untouched) fun _ _ h => h.untouched
  have hdelay : ∀ ms, Keeps Untouched (aknanoDelay e ms) := fun ms =>
    (still_delay ms).mono fun _ _ h => h.untouched
  have hread : ∀ {w₁ : World} {f : Flash}, Still w w₁ → f.mem = w₁.flash.mem →
      Untouched w { w₁ with flash := f } := by
    intro w₁ f hstill hmem
    rw [hstill] at hmem ⊢
    exact ⟨Grows.refl w, fun _ x _ _ => congrFun hmem x⟩
  unfold aknanoInit
  refine still_getImagePosition.wp_bind (fun imagePosition w₁ h₁ => ?_) fun _ _ h => h.untouched
  refine still_getCurrentVersion.wp_bind (fun buildNum w₂ h₂ => ?_) fun _ _ h =>
    h₁.untouched.trans h.untouched
  have h₀₂ : Still w w₂ := Trans.trans h₁ h₂
  rw [wp_bind, onFlash, wp_zoom]
  refine wp_mono (aknanoInitSettings_spec imagePosition buildNum w₂.flash) ?_ fun _ _ h =>
    hread h₀₂ h.1
  rintro ⟨readsOk, s⟩ f ⟨hmem, ⟨fields, hs, hfields⟩, -⟩
  dsimp only at hs hfields ⊢
  have h₃ := hread h₀₂ hmem
  refine (hdelay 100).wp_bind (fun _ w₄ h₄ => ?_) fun _ _ h => h₃.trans h
  replace h₄ := h₃.trans h₄
  rw [wp_bind, wp_emit]
  generalize hw₅ : { w₄ with
    log := .loaded readsOk s.runningVersion s.isRunningRolledBackImage :: w₄.log } = w₅
  have hlog₅ : w₅.log = .loaded readsOk s.runningVersion s.isRunningRolledBackImage :: w₄.log := by
    rw [← hw₅]
  have h₅ : Untouched w w₅ := by
    rw [← hw₅]
    exact h₄.trans ⟨Extends.refl.cons trivial, fun _ _ _ _ => rfl⟩
  -- a boot that could not read the settings is on record
  have hid : ∀ {w' : World}, Grew w₅ w' → KeepsId w w' →
      s.ongoingUpdateCorrelationId = storedId p w.flash.mem := by
    intro w' hgrew hkeeps
    cases readsOk with
    | false =>
      obtain ⟨hgrew₄, hnot⟩ := not_keepsId hlog₅ rfl hgrew
      exact absurd (hkeeps.split h₄.grew hgrew₄).2 hnot
    | true =>
      rw [hs, hfields rfl, h₀₂]
      rfl
  refine (hdelay 100).wp_bind (fun _ w₆ h₆ => ?_) fun _ _ h => h₅.trans h
  refine (hdelay 100).wp_bind (fun _ w₇ h₇ => ?_) fun _ _ h => h₅.trans (h₆.trans h)
  refine hpermanent.wp_bind (fun isImagePermanent w₈ h₈ => ?_) fun _ _ h =>
    h₅.trans (h₆.trans (h₇.trans h))
  have h₅₈ := h₆.trans (h₇.trans h₈)
  exact (wp_pure _).mpr ⟨h₅.trans h₅₈, hid h₅₈.grew⟩

/-- **A boot**, up to one of its iterations. -/
theorem bootUntil_id (k : Nat) (w : World) :
    wp (bootUntil p e k)
      (fun r w' => Untouched w w' ∧
        (KeepsId w w' → r.2.settings.ongoingUpdateCorrelationId = storedId p w.flash.mem))
      (fun _ w' => Untouched w w') w := by
  have hpower : Untouched w { w with
      boot := w.boot.reset, log := .reset w.boot.pick w.boot.reset.permanent :: w.log } :=
    ⟨Extends.refl.cons trivial, fun _ _ _ _ => rfl⟩
  unfold bootUntil
  rw [wp_bind, powerOn, wp_modify]
  refine still_currentEpoch.wp_bind (fun startupEpoch w₁ h₁ => ?_) fun _ _ h =>
    hpower.trans h.untouched
  replace hpower := hpower.trans h₁.untouched
  rw [wp_bind]
  refine wp_mono (aknanoInit_id w₁) ?_ fun _ _ h => hpower.trans h
  rintro s w₂ ⟨h₂, hid⟩
  rw [wp_bind]
  refine wp_mono (firstIterations_carried startupEpoch k ⟨_, false, false⟩ w₂) ?_ fun _ _ h =>
    hpower.trans (h₂.trans h)
  intro l w₃ h₃
  refine (wp_pure _).mpr ⟨hpower.trans (h₂.trans h₃.untouched), fun hkeeps => ?_⟩
  obtain ⟨-, hkeeps⟩ := hkeeps.split hpower.grew (h₂.trans h₃.untouched).grew
  obtain ⟨hkeeps₂, hkeeps₃⟩ := hkeeps.split h₂.grew h₃.untouched.grew
  rw [h₃.id hkeeps₃]
  apply (hid hkeeps₂).trans
  rw [h₁]

/-- **A boot.** -/
theorem untouched_bootOnce (n : Nat) : Keeps Untouched (bootOnce p e n) := by
  have hfirst : Keeps Untouched (bootUntil p e 0) := fun w =>
    wp_mono (bootUntil_id 0 w) (fun _ _ h => h.1) fun _ _ h => h
  rw [bootOnce_eq]
  exact hfirst.bind fun r => untouched_sampleLoop r.1 n r.2

/-- **A life.** -/
theorem untouched_lifetime (boots : List Nat) (w : World) :
    Untouched w (lifetime p e boots w) := by
  induction boots generalizing w with
  | nil => exact Untouched.refl w
  | cons n boots ih => exact ((untouched_bootOnce n).final w).trans (ih _)

/-- **The call of the completion handler**: it is called with the stored id. -/
theorem untilFinish_id (k : Nat) (w : World) :
    wp (untilFinish p e k)
      (fun r w' => Untouched w w' ∧ ∀ c executedOnce, r = some (c, executedOnce) →
        KeepsId w w' → c.settings.ongoingUpdateCorrelationId = storedId p w.flash.mem)
      (fun _ w' => Untouched w w') w := by
  rw [untilFinish, wp_bind]
  refine wp_mono (bootUntil_id k w) ?_ fun _ _ h => h
  rintro ⟨startupEpoch, l⟩ w₁ ⟨h₁, hid⟩
  dsimp only at hid ⊢
  rw [iterationUntilFinish]
  refine (untouched_emit _).wp_bind (fun _ w₂ h₂ => ?_) fun _ _ h => h₁.trans h
  rw [wp_bind]
  refine wp_mono (checkinUntilFinish_carried _ w₂) ?_ fun _ _ h => h₁.trans (h₂.trans h)
  rintro ⟨tufRet, finishes, c⟩ w₃ h₃
  have h₁₃ := h₂.trans h₃.untouched
  refine (wp_pure _).mpr ⟨h₁.trans h₁₃, fun c' executedOnce hc hkeeps => ?_⟩
  obtain ⟨hkeeps₁, hkeeps₂⟩ := hkeeps.split h₁.grew h₁₃.grew
  have hc' : c' = c := by
    cases finishes with
    | false => cases hc
    | true => cases hc; rfl
  rw [hc', h₃.id (hkeeps₂.split h₂.grew h₃.untouched.grew).2]
  exact hid hkeeps₁

/-! ### The first check-in after an installation -/

/-- A successful check-in. -/
def Event.isRefreshed : Event → Bool
  | .refreshed _ => true
  | _ => false

theorem countP_isRefreshed_cons {ev : Event} (hev : ev.isRefreshed = false)
    (newer : List Event) :
    (ev :: newer).countP Event.isRefreshed = newer.countP Event.isRefreshed :=
  List.countP_cons_of_neg (Bool.eq_false_iff.mp hev)

/-- Since `w` at most one check-in has succeeded, and the settings were read
without error at every start. -/
def FirstCheckin (w w' : World) : Prop :=
  ∃ newer, w'.log = newer ++ w.log ∧ newer.countP Event.isRefreshed ≤ 1 ∧
    ∀ running rolledBack, .loaded false running rolledBack ∉ newer

/-- No successful check-in in this iteration yet. -/
def Phase.AwaitsCheckin : Phase → Prop
  | .off | .loading | .awake _ .idle | .awake _ .checking => True
  | _ => False

/-- After a successful check-in, and the handler has not run in this boot. -/
def Phase.AwaitsFinish : Phase → Prop
  | .awake ram (.refreshed _ _) => ram.finished = false
  | _ => False

/-- Where the protocol can be after these events: without a successful check-in
nothing has replaced the id; and after one, not before the handler has run. -/
structure FirstCheckinSoFar (newer : List Event) (m : Machine) : Prop where
  none : newer.countP Event.isRefreshed = 0 →
    m.phase.AwaitsCheckin ∧ ∀ ev ∈ newer, ¬ ev.ReplacesId
  one : newer.countP Event.isRefreshed = 1 → m.phase.AwaitsFinish →
    ∀ ev ∈ newer, ¬ ev.ReplacesId

/-- An event that leaves the id, and is no check-in. -/
theorem FirstCheckinSoFar.next {newer : List Event} {m m' : Machine} {ev : Event}
    (h : FirstCheckinSoFar newer m) (hev : ev.isRefreshed = false) (hid : ¬ ev.ReplacesId)
    (hnone : m.phase.AwaitsCheckin → m'.phase.AwaitsCheckin)
    (hone : m'.phase.AwaitsFinish → m.phase.AwaitsFinish) :
    FirstCheckinSoFar (ev :: newer) m' := by
  refine ⟨fun hzero => ?_, fun hfirst hfinish => ?_⟩
  · rw [countP_isRefreshed_cons hev] at hzero
    exact ⟨hnone (h.none hzero).1, List.forall_mem_cons.mpr ⟨hid, (h.none hzero).2⟩⟩
  · rw [countP_isRefreshed_cons hev] at hfirst
    exact List.forall_mem_cons.mpr ⟨hid, h.one hfirst (hone hfinish)⟩

/-- An event that needs a check-in in front of it, and after which the handler
is not due. -/
theorem FirstCheckinSoFar.replace {newer : List Event} {m m' : Machine} {ev : Event}
    (h : FirstCheckinSoFar newer m) (hev : ev.isRefreshed = false)
    (hneeds : ¬ m.phase.AwaitsCheckin) (hdone : ¬ m'.phase.AwaitsFinish) :
    FirstCheckinSoFar (ev :: newer) m' := by
  refine ⟨fun hzero => ?_, fun _ hfinish => absurd hfinish hdone⟩
  rw [countP_isRefreshed_cons hev] at hzero
  exact absurd (h.none hzero).1 hneeds

/-- **Step lemma.** -/
theorem FirstCheckinSoFar.step {newer : List Event} {m m' : Machine} {ev : Event}
    (h : FirstCheckinSoFar newer m)
    (hreads : ∀ running rolledBack, ev ≠ .loaded false running rolledBack)
    (hstep : Step p e m ev m') : FirstCheckinSoFar (ev :: newer) m' := by
  cases hstep with
  | reset hfree => exact h.next rfl id (fun _ => trivial) False.elim
  | @loaded s read b running readsOk hrunning hread =>
    refine h.next rfl ?_ (fun _ => trivial) False.elim
    rintro (rfl : readsOk = false)
    exact hreads _ _ rfl
  | iteration hfree => exact h.next rfl id (fun _ => trivial) False.elim
  | @refreshed s b ram metadata hfresh =>
    -- the first one, or nothing is claimed any more
    have hcount : (Event.refreshed metadata :: newer).countP Event.isRefreshed
        = newer.countP Event.isRefreshed + 1 := List.countP_cons_of_pos rfl
    refine ⟨fun hzero => ?_, fun hfirst _ => ?_⟩
    · rw [hcount] at hzero
      cases hzero
    · rw [hcount] at hfirst
      exact List.forall_mem_cons.mpr ⟨id, (h.none (Nat.succ.inj hfirst)).2⟩
  | confirmed hboot => exact h.next rfl id False.elim id
  | settled => exact h.replace rfl id Bool.noConfusion
  | completed => exact h.replace rfl id Bool.noConfusion
  | install => exact h.replace rfl id id
  | downloaded =>
    refine h.replace rfl id ?_
    split <;> exact id
  | readyForTest => exact h.replace rfl id id
  | installed =>
    refine h.replace rfl id ?_
    split <;> exact id
  | @cut s s' b ram task activity hbusy =>
    refine h.replace rfl (fun hawaits => ?_) id
    cases task with
    | idle | checking => cases activity <;> exact hbusy
    | refreshed | downloading | fetched | closing => exact hawaits

/-- **Up to the handler's first call**, from the reboot on, nothing has replaced
the id. -/
theorem FirstCheckin.keepsId {m₀ : Machine} {s : Settings} {metadata : List Byte}
    {refused : Bool} {version : Version} (h : FirstCheckin w w')
    (hinstalled : w.log.head? = some (.installed version true true))
    (hat : At p e m₀ s false (.refreshed metadata refused) w') : KeepsId w w' := by
  obtain ⟨newer, hlog, hcount, hreads⟩ := h
  have hrun := hat.follows
  rw [Follows, hlog] at hrun
  obtain ⟨m, hbefore, hafter⟩ := hrun.exists_append
  have hoff : m.phase = .off := by
    obtain ⟨older, holder⟩ := List.head?_eq_some_iff.mp hinstalled
    rw [holder] at hbefore
    cases hbefore with
    | next _ hstep =>
      cases hstep
      rfl
  have hsofar : FirstCheckinSoFar newer
      ⟨storedOf p w'.flash.mem, w'.boot, .awake (ramOf s false) (.refreshed metadata refused)⟩ := by
    refine Run.invariant (P := fun ev => ∀ running rolledBack,
      ev ≠ .loaded false running rolledBack) ?_ (fun h hP hstep => h.step hP hstep) hafter ?_
    · exact ⟨fun _ => ⟨by rw [hoff]; trivial, fun _ hmem => absurd hmem List.not_mem_nil⟩,
        fun hone => absurd hone (by decide)⟩
    · rintro ev hev running rolledBack rfl
      exact hreads running rolledBack hev
  have hkept : ∀ ev ∈ newer, ¬ ev.ReplacesId := by
    rcases Nat.le_one_iff_eq_zero_or_eq_one.mp hcount with hzero | hone
    · exact absurd (hsofar.none hzero).1 id
    · exact hsofar.one hone rfl
  rw [KeepsId, Grows, hlog]
  exact Extends.of_forall hkept

/-! ### One id per update -/

/-- The id that an installation which starts now generates. -/
def installationId (e : Env) (w : World) : List Byte :=
  serialStringToUuidString (btox (e.random w.tick 16).bytes (16 * 2))

/-- How the end of an update is reported: every payload that is built from these
settings carries `id`, and leaves the settings as they are for the next attempt;
so does every event that is sent. -/
structure ReportsWith (p : Platform) (e : Env) (id : List Byte) (c : Context)
    (executedOnce : Bool) (w : World) : Prop where
  built : ∀ newVersion success w',
    wp (fillEventPayload p e c.settings .installationCompleted newVersion success)
      (fun r _ => r.1 = c.settings ∧ CarriesId id r.2) (fun _ _ => True) w'
  sent : wp (aknanoSendInstallationFinishedEvent p e c.settings executedOnce)
    (fun _ w' => Sends (EventCarries id) w w') (fun _ w' => Sends (EventCarries id) w w') w

/-- An id of the settings that is there is reported. -/
theorem reportsWith_id {c : Context} (htime : TimeFits p)
    (hid : strnlen c.settings.ongoingUpdateCorrelationId.bytes
      aknanoMaxUpdateCorrelationIdLength > 0) (executedOnce : Bool) (w : World) :
    ReportsWith p e c.settings.ongoingUpdateCorrelationId.str c executedOnce w := by
  refine ⟨fun newVersion success w' => fillEventPayload_carries htime hid .., ?_⟩
  unfold aknanoSendInstallationFinishedEvent
  split
  · exact (wp_pure _).mpr (.refl w)
  · dsimp only
    split
    · rw [wp_bind, wp_emit, wp_pure]
      exact .of_eq rfl
    · rw [wp_bind]
      refine wp_mono (sendEvent_carries htime hid ..) ?_ fun _ _ h => h
      rintro ⟨sent, s⟩ w₁ h₁
      rw [wp_bind, during, wp_onError]
      refine wp_mono (sends_onFlash _ w₁) ?_ fun _ _ h => h₁.trans (h.trans (.of_eq rfl))
      intro ret w₂ h₂
      rw [wp_bind, wp_emit, wp_pure]
      exact h₁.trans (h₂.trans (.of_eq rfl))

/-- The settings that the installation saved hold its id, for every later boot. -/
theorem InstallEnd.storedId {c : Context} {w w' : World} {ok : Bool} {r : Bool × Settings}
    (h : InstallEnd p e c w ok true r w') :
    (AktualizrNano.storedId p w'.flash.mem).str = installationId e w ∧
      0 < (installationId e w).length := by
  obtain ⟨m, hm⟩ := h.stored rfl
  obtain ⟨hlen, -⟩ := uuidString_chars (e.random w.tick 16).bytes
  have hgenerated : r.2.ongoingUpdateCorrelationId.str = installationId e w := h.generated
  have hplain : r.2.ongoingUpdateCorrelationId.bytes.headD 0 ≤ 122 :=
    BitVec.le_trans h.newId.plain (by decide)
  rw [AktualizrNano.storedId, hm, ← hgenerated]
  refine ⟨correlationId_survives ?_ hplain, ?_⟩
  · rw [hgenerated, installationId, hlen]
    decide
  · rw [hgenerated, installationId, hlen]
    decide

/-- **One correlation id per update, across the reboot.**  Every event of an
installation that armed an image carries the id it generated.  If the settings
were saved, so does every report of the end of that update, whichever image
runs and however many boots have passed: at the first successful check-in since
then, if the settings can be read and the record starts at `w`; and in general at
each call of the completion handler until an update is completed or begun. -/
theorem correlationId_kept {boots : List Nat} {k : Nat} {c : Context} {s : Settings}
    {w w₁ w₂ : World} (htime : TimeFits p) (hcall : InstallCalled p e boots w k c w₁)
    (hrun : aknanoInstallSelectedTarget p e c w₁ = .ok (true, s) w₂)
    (hsaved : ∃ version, w₂.log.head? = some (.installed version true true)) :
    Sends (EventCarries (installationId e w₁)) w₁ w₂ ∧
      ∀ n boots' j c' executedOnce w',
        FinishCalled p e (boots ++ (k + (n + 1)) :: boots') w j c' executedOnce w' →
          (w.log = [] → executedOnce = false → FirstCheckin w₂ w' →
            ReportsWith p e (installationId e w₁) c' executedOnce w') ∧
          (KeepsId w₂ w' → ReportsWith p e (installationId e w₁) c' executedOnce w') := by
  obtain ⟨version, hinstalled⟩ := hsaved
  obtain ⟨ok, saved, hend⟩ := (installSelectedTarget_end (p := p) (e := e) c w₁).of_ok hrun
  have hgenerated : s.ongoingUpdateCorrelationId.str = installationId e w₁ := hend.generated
  obtain rfl : saved = true := by
    rw [hend.log, List.head?_cons] at hinstalled
    cases hinstalled
    rfl
  refine ⟨hgenerated ▸ hend.events htime, ?_⟩
  intro n boots' j c' executedOnce w' hfinish
  suffices hreports : KeepsId w₂ w' →
      ReportsWith p e (installationId e w₁) c' executedOnce w' by
    refine ⟨?_, hreports⟩
    rintro hnew rfl hfirst
    obtain ⟨metadata, refused, hat, -⟩ := hfinish.at hnew
    exact hreports (hfirst.keepsId hinstalled hat)
  intro hkeeps
  obtain ⟨hstored, hthere⟩ := hend.storedId
  -- the boot of the installation ends with the reboot
  obtain ⟨rest, hboot⟩ := bootOnce_install (n := n) hcall
  have hreboot : Still w₂ (final (bootOnce p e (k + (n + 1))) (lifetime p e boots w)) := by
    rw [final, hboot, bind_of_ok hrun, ← final]
    apply wp.final (P := Still w₂)
    rw [if_pos rfl, wp_bind]
    exact wp_mono (reboot_spec w₂) (fun _ _ h => h.elim) fun _ _ h => h
  have hlife : lifetime p e (boots ++ (k + (n + 1)) :: boots') w = lifetime p e boots'
      (final (bootOnce p e (k + (n + 1))) (lifetime p e boots w)) := lifetime_append ..
  rw [FinishCalled, hlife] at hfinish
  generalize final (bootOnce p e (k + (n + 1))) (lifetime p e boots w) = w₃ at hreboot hfinish
  have hbefore : Untouched w₂ (lifetime p e boots' w₃) :=
    hreboot.untouched.trans (untouched_lifetime boots' w₃)
  obtain ⟨huntouched, hid⟩ := (untilFinish_id j _).of_ok hfinish
  obtain ⟨hkeeps₁, hkeeps₂⟩ := hkeeps.split hbefore.grew huntouched.grew
  have hc' : c'.settings.ongoingUpdateCorrelationId.str = installationId e w₁ := by
    rw [hid c' executedOnce rfl hkeeps₂, storedId_congr (hbefore.sector hkeeps₁)]
    exact hstored
  rw [← hc'] at hthere ⊢
  exact reportsWith_id htime (by rw [strnlen_bytes]; exact hthere) executedOnce w'

/-- A boot up to the end of the installation that iteration `k` calls. -/
def untilInstalled (p : Platform) (e : Env) (k : Nat) : M (Bool × Settings) := do
  match ← untilInstall p e k with
  | some c => aknanoInstallSelectedTarget p e c
  | none => throw .fault

theorem untilInstalled_cases {k : Nat} {r : Bool × Settings} {w w₂ : World}
    (h : untilInstalled p e k w = .ok r w₂) : ∃ c w₁, untilInstall p e k w = .ok (some c) w₁ ∧
      aknanoInstallSelectedTarget p e c w₁ = .ok r w₂ := by
  obtain ⟨found, w₁, hcall, hinstall⟩ := ok_of_bind h
  cases found with
  | none => cases hinstall
  | some c => exact ⟨c, w₁, hcall, hinstall⟩

/-- An installation of version 7, and the report that it was reverted. -/
theorem correlationId_kept_offering :
    ∃ c w₁ s w₂, InstallCalled .sample .offering [] (.factory 5) 0 c w₁ ∧
      aknanoInstallSelectedTarget .sample .offering c w₁ = .ok (true, s) w₂ ∧
      ∃ c' w', FinishCalled .sample .offering [1, 0] (.factory 5) 0 c' false w' ∧
        ReportsWith .sample .offering (installationId .offering w₁) c' false w' := by
  have hrun : (returned (untilInstalled .sample .offering 0)
          (lifetime .sample .offering [] (.factory 5))).map Prod.fst = some true ∧
      (final (untilInstalled .sample .offering 0)
          (lifetime .sample .offering [] (.factory 5))).log = offeringLog.drop 12 ∧
      (returned (untilFinish .sample .offering 0)
          (lifetime .sample .offering [1, 0] (.factory 5))).map (Option.map Prod.snd)
        = some (some false) ∧
      (final (untilFinish .sample .offering 0)
          (lifetime .sample .offering [1, 0] (.factory 5))).log = offeringLog.drop 6 := by
    decide +kernel
  obtain ⟨harmed, hlog₂, hreturned, hlog'⟩ := hrun
  obtain ⟨s, hinstalled⟩ := eq_ok_of_returned_fst harmed
  obtain ⟨r, hr, hsome⟩ := Option.map_eq_some_iff.mp hreturned
  obtain ⟨⟨c', executedOnce⟩, rfl, rfl⟩ := Option.map_eq_some_iff.mp hsome
  have hfinish : FinishCalled .sample .offering [1, 0] (.factory 5) 0 c' false _ :=
    eq_ok_of_returned hr
  generalize final (untilInstalled .sample .offering 0)
    (lifetime .sample .offering [] (.factory 5)) = w₂ at hinstalled hlog₂
  generalize final (untilFinish .sample .offering 0)
    (lifetime .sample .offering [1, 0] (.factory 5)) = w' at hfinish hlog'
  obtain ⟨c, w₁, hcall, hinstall⟩ := untilInstalled_cases hinstalled
  have hfirst : FirstCheckin w₂ w' := by
    refine ⟨[.refreshed (ascii "9"), .iteration, .loaded true 5 true, .reset (.reverted 7) 5,
      .loaded true 7 false, .reset (.trial 7) 5], ?_, le_rfl, ?_⟩
    · rw [hlog', hlog₂]
      rfl
    · intro running rolledBack
      simp
  have htime : TimeFits .sample := by
    intro epoch
    show (ascii "2023-03-29T20:05:13.000Z").length < 50
    decide
  have hsaved : ∃ version, w₂.log.head? = some (.installed version true true) :=
    ⟨7, by rw [hlog₂]; rfl⟩
  refine ⟨c, w₁, s, w₂, hcall, hinstall, c', w', hfinish, ?_⟩
  exact ((correlationId_kept htime hcall hinstall hsaved).2 0 [0] 0 c' false w' hfinish).1 rfl rfl
    hfirst

end AktualizrNano
