/-
AktualizrNano/Watchdog.lean

The loop gives up an image on trial that cannot reach the server.

A failed check-in changes nothing that the test before the sleep goes by, so
the test is passed with the values that the boot started with; only the clock
moves on.  Each sleep takes at least 5 seconds, whatever `polling_interval`
is, so after 37 of them more than 180 seconds are over: the test of iteration
38 reboots.  In the other direction nothing is assumed of the clock: the
arguments of the test say which check-ins there have been.
-/
import AktualizrNano.Growth

namespace AktualizrNano

open CLib NorFlash Outcome

/-! ### The parts in front of the test -/

section Parts

variable (p : Platform) (e : Env)

/-- The check-in of an iteration. -/
def iterationCheckin (l : Loop) : M (Int × Context × Bool) := do
  emit .iteration
  aknanoCheckin p e (aknanoInitContext l.settings) l.executedOnce

/-- An iteration up to the test: `any_checkin_ok` and the settings, and whether
the completion handler has run. -/
def iterationUntilWatchdog (l : Loop) : M (Bool × Settings × Bool) := do
  let (checkinResult, c, executedOnce) ← iterationCheckin p e l
  if checkinResult = 0 then do
    let s ← handleCheckin p e c
    pure (true, s, executedOnce)
  else pure (l.anyCheckinOk, c.settings, executedOnce)

/-- A boot up to the end of the check-in of its iteration `k`: the result. -/
def untilCheckin (k : Nat) : M Int := do
  let (_, l) ← bootUntil p e k
  let (checkinResult, _, _) ← iterationCheckin p e l
  pure checkinResult

/-- A boot up to the test in its iteration `k`: the arguments of the test. -/
def untilWatchdog (k : Nat) : M (BitVec 64 × Bool × Settings) := do
  let (startupEpoch, l) ← bootUntil p e k
  let (anyCheckinOk, s, _) ← iterationUntilWatchdog p e l
  pure (startupEpoch, anyCheckinOk, s)

/-- A boot up to the sleep after its iteration `k`: the milliseconds. -/
def untilSleep (k : Nat) : M Nat := do
  let (startupEpoch, l) ← bootUntil p e k
  let l ← loopBody p e startupEpoch l
  pure (aknanoLimitSleepTimeRange l.settings.pollingInterval * 1000)

end Parts

variable {p : Platform} {e : Env} {w : World}

/-- **An iteration** by its two parts. -/
theorem loopBody_watchdog (startupEpoch : BitVec 64) (l : Loop) :
    loopBody p e startupEpoch l = iterationUntilWatchdog p e l >>= fun r =>
      rebootIfOffline e startupEpoch r.1 r.2.1 >>= fun _ => pure ⟨r.2.1, r.1, r.2.2⟩ := by
  unfold loopBody iterationUntilWatchdog iterationCheckin
  simp only [bind_assoc]
  refine bind_congr fun _ => bind_congr fun r => ?_
  split
  · simp only [bind_assoc, pure_bind]
  · simp only [pure_bind]

/-- **Every test** stands in the boot so. -/
theorem bootOnce_watchdog {k n : Nat} {startupEpoch : BitVec 64} {anyCheckinOk : Bool}
    {s : Settings} {w' : World}
    (htest : untilWatchdog p e k w = .ok (startupEpoch, anyCheckinOk, s) w') :
    ∃ rest, bootOnce p e (k + (n + 1)) w
      = (rebootIfOffline e startupEpoch anyCheckinOk s >>= rest) w' := by
  obtain ⟨⟨startupEpoch', l⟩, w₁, hboot, htest⟩ := ok_of_bind htest
  obtain ⟨⟨anyCheckinOk', s', executedOnce⟩, w₂, hiteration, hpoint⟩ := ok_of_bind htest
  cases hpoint
  rw [bootOnce_add, bind_of_ok hboot, sampleLoop, loopBody_watchdog, bind_assoc,
    bind_of_ok hiteration]
  simp only [bind_assoc]
  exact ⟨_, rfl⟩

/-- The last of the first iterations. -/
theorem firstIterations_succ (startupEpoch : BitVec 64) (k : Nat) (l : Loop) :
    firstIterations p e startupEpoch (k + 1) l = firstIterations p e startupEpoch k l >>= fun l =>
      loopBody p e startupEpoch l >>= fun l =>
        aknanoDelay e (aknanoLimitSleepTimeRange l.settings.pollingInterval * 1000) >>= fun _ =>
          pure l := by
  induction k generalizing l with
  | zero =>
    simp only [firstIterations, pure_bind]
  | succ k ih =>
    rw [firstIterations, firstIterations]
    simp only [bind_assoc]
    exact bind_congr fun l₁ => bind_congr fun _ => ih l₁

/-- **A boot that has come one iteration further**: its iteration has returned
and it has slept. -/
theorem bootUntil_succ {k : Nat} {startupEpoch : BitVec 64} {l : Loop} {w' : World}
    (h : bootUntil p e (k + 1) w = .ok (startupEpoch, l) w') :
    ∃ l₁ w₁ w₂, bootUntil p e k w = .ok (startupEpoch, l₁) w₁ ∧
      loopBody p e startupEpoch l₁ w₁ = .ok l w₂ ∧
      w' = { w₂ with tick := w₂.tick + 1 } := by
  obtain ⟨_, w₁, hpower, h⟩ := ok_of_bind h
  obtain ⟨startup, w₂, hepoch, h⟩ := ok_of_bind h
  obtain ⟨s, w₃, hinit, h⟩ := ok_of_bind h
  rw [firstIterations_succ] at h
  obtain ⟨l', w₄, hfirst, hpoint⟩ := ok_of_bind h
  cases hpoint
  obtain ⟨l₁, w₅, hfirst, h⟩ := ok_of_bind hfirst
  obtain ⟨l₂, w₆, hbody, h⟩ := ok_of_bind h
  obtain ⟨_, w₇, hdelay, hpoint⟩ := ok_of_bind h
  cases hpoint
  refine ⟨l₁, w₅, w₆, ?_, hbody, ?_⟩
  · rw [bootUntil, bind_of_ok hpower, bind_of_ok hepoch, bind_of_ok hinit, bind_of_ok hfirst]
    rfl
  · obtain ⟨t, w₈, htick, hpoint⟩ := ok_of_bind hdelay
    cases hpoint
    unfold tick at htick
    dsimp only at htick
    split at htick
    · cases htick
    · cases htick
      rfl

/-! ### A check-in that fails -/

/-- Time has passed, and the bootloader has not been called. -/
structure Passed (w w' : World) : Prop where
  boot : w'.boot = w.boot
  tick : w.tick ≤ w'.tick

theorem Passed.refl (w : World) : Passed w w := ⟨rfl, le_rfl⟩

instance : Trans Passed Passed Passed where
  trans h h' := ⟨h'.boot.trans h.boot, h.tick.trans h'.tick⟩

/-- A call that leaves the agent takes place at the time it is made, unless
power is lost. -/
theorem tick_passed (w : World) :
    wp (tick e) (fun t w' => t = w.tick ∧ Passed w w')
      (fun halt w' => halt = .powerCut ∧ Passed w w') w := by
  unfold wp tick
  cases e.cut w.tick with
  | false => exact ⟨rfl, rfl, Nat.le_succ _⟩
  | true => exact ⟨rfl, rfl, Nat.le_succ _⟩

theorem passed_tick : Keeps Passed (tick e) := fun w =>
  wp_mono (tick_passed w) (fun _ _ h => h.2) fun _ _ h => h.2

theorem passed_delay (ms : Nat) : Keeps Passed (aknanoDelay e ms) :=
  passed_tick.bind fun _ => .pure Passed.refl ()

theorem passed_currentEpoch : Keeps Passed (aknanoCliGetCurrentEpoch e) :=
  passed_tick.bind fun _ => .pure Passed.refl _

theorem passed_mtlsConnect (hostname : List Byte) : Keeps Passed (aknanoMtlsConnect e hostname) :=
  passed_tick.bind fun _ => .pure Passed.refl _

theorem passed_mtlsDisconnect : Keeps Passed (aknanoMtlsDisconnect e) :=
  passed_tick.bind fun _ => .pure Passed.refl ()

theorem passed_get : Keeps Passed (get : M World) := fun w => wp_get.mpr (Passed.refl w)

theorem passed_emit (ev : Event) : Keeps Passed (emit ev) := fun _ => wp_modify.mpr ⟨rfl, le_rfl⟩

theorem passed_onFlash {α : Type} (x : FlashM α) : Keeps Passed (onFlash x) := by
  intro w
  rw [onFlash, wp_zoom]
  exact wp_mono wp_true (fun _ _ _ => ⟨rfl, le_rfl⟩) fun _ _ _ => ⟨rfl, le_rfl⟩

theorem passed_sendHttpRequest (method path body : List Byte) (s : Settings) :
    Keeps Passed (aknanoSendHttpRequest p e method path body s) := by
  unfold aknanoSendHttpRequest aknanoMtlsSendHttpRequest
  split
  · exact .pure Passed.refl _
  · refine passed_tick.bind fun t w => ?_
    rw [Outcome.wp_bind, wp_modify, wp_pure]
    exact ⟨rfl, le_rfl⟩

theorem passed_tufRefresh (s : Settings) : Keeps Passed (tufRefresh p e s) := by
  have hcall : ∀ call, Keeps Passed (tufCallback p e s call) := by
    intro call
    cases call with
    | fetch fileBaseName targetBufferLen =>
      exact ((passed_sendHttpRequest _ _ _ _).bind fun _ => .pure Passed.refl _).bind
        fun _ => .pure Passed.refl _
    | read role targetBuffer hfits => exact (passed_onFlash _).bind fun _ => .pure Passed.refl _
    | write role data hfits => exact (passed_onFlash _).bind fun _ => .pure Passed.refl _
  have hcalls : ∀ calls, Keeps Passed (tufCallbacks p e s calls) := by
    intro calls
    induction calls with
    | nil => exact .pure Passed.refl _
    | cons call calls ih => exact (hcall call).bind fun _ => ih
  exact passed_tick.bind fun t => (hcalls _).bind fun _ => .pure Passed.refl _

/-- The server may not configure `is_image_permanent`. -/
theorem fetchConfig_passed (s : Settings) (w : World) :
    wp (fetchConfig p e s)
      (fun s' w' => Passed w w' ∧ s'.isImagePermanent = s.isImagePermanent) (fun _ _ => True)
      w := by
  refine (passed_sendHttpRequest _ _ _ _).wp_bind (fun reply w₁ h₁ => ?_) fun _ _ _ => trivial
  split
  · split
    · next hparse =>
      obtain ⟨tag, n, rfl⟩ := parseConfig_reconfigures hparse
      exact (wp_pure _).mpr ⟨h₁, rfl⟩
    · exact (wp_throw _).mpr trivial
  · exact (wp_pure _).mpr ⟨h₁, rfl⟩

/-- **A check-in that fails** changes neither the state of the image nor what
the agent takes it for. -/
theorem checkin_failed (c : Context) (executedOnce : Bool) (w : World) :
    wp (aknanoCheckin p e c executedOnce)
      (fun r w' => r.1 ≠ 0 →
        Passed w w' ∧ r.2.1.settings.isImagePermanent = c.settings.isImagePermanent)
      (fun _ _ => True) w := by
  unfold aknanoCheckin
  refine (passed_mtlsConnect _).wp_bind (fun connected w₁ h₁ => ?_) fun _ _ _ => trivial
  split
  · rw [wp_bind]
    refine wp_mono (fetchConfig_passed c.settings w₁) ?_ fun _ _ hE => hE
    rintro s w₂ ⟨h₂, hsame⟩
    refine (passed_sendHttpRequest _ _ _ _).wp_bind (fun _ w₃ h₃ => ?_) fun _ _ _ => trivial
    refine (passed_sendHttpRequest _ _ _ _).wp_bind (fun _ w₄ h₄ => ?_) fun _ _ _ => trivial
    refine (passed_sendHttpRequest _ _ _ _).wp_bind (fun _ w₅ h₅ => ?_) fun _ _ _ => trivial
    refine passed_currentEpoch.wp_bind (fun _ w₆ h₆ => ?_) fun _ _ _ => trivial
    refine (passed_tufRefresh s).wp_bind (fun r w₇ h₇ => ?_) fun _ _ _ => trivial
    obtain ⟨tufRet, userBuffer⟩ := r
    have hpassed : Passed w w₇ := by
      calc Passed w w₁ := h₁
        Passed _ w₂ := h₂
        Passed _ w₃ := h₃
        Passed _ w₄ := h₄
        Passed _ w₅ := h₅
        Passed _ w₆ := h₆
        Passed _ w₇ := h₇
    dsimp only
    split
    · next hok =>
      -- the result of the refresh is that of the check-in
      rw [wp_bind]
      refine wp_mono wp_true (fun r w₈ _ => ?_) fun _ _ hE => hE
      obtain ⟨c', executedOnce'⟩ := r
      rw [wp_bind]
      refine wp_mono wp_true (fun _ w₉ _ => ?_) fun _ _ hE => hE
      exact (wp_pure _).mpr fun hfailed => absurd hok hfailed
    · rw [wp_bind, wp_pure]
      refine passed_mtlsDisconnect.wp_bind (fun _ w₈ h₈ => ?_) fun _ _ _ => trivial
      exact (wp_pure _).mpr fun _ => ⟨Trans.trans hpassed h₈, hsame⟩
  · refine passed_mtlsDisconnect.wp_bind (fun _ w₂ h₂ => ?_) fun _ _ _ => trivial
    exact (wp_pure _).mpr fun _ => ⟨Trans.trans h₁ h₂, rfl⟩

/-- **An iteration in a boot without a successful check-in**, up to the test. -/
theorem iterationUntilWatchdog_offline {l : Loop} {s : Settings} {executedOnce : Bool}
    {w' : World} (h : iterationUntilWatchdog p e l w = .ok (false, s, executedOnce) w') :
    l.anyCheckinOk = false ∧ s.isImagePermanent = l.settings.isImagePermanent ∧ Passed w w' ∧
      ∃ checkinResult c, iterationCheckin p e l w = .ok (checkinResult, c, executedOnce) w' ∧
        checkinResult ≠ 0 := by
  obtain ⟨⟨checkinResult, c, executedOnce'⟩, w₁, hcheckin, h⟩ := ok_of_bind h
  dsimp only at h
  by_cases hok : checkinResult = 0
  · rw [if_pos hok] at h
    obtain ⟨s', w₂, -, hpoint⟩ := ok_of_bind h
    cases hpoint
  · rw [if_neg hok] at h
    obtain ⟨any, s₀, executedOnce₀⟩ := l
    cases h
    obtain ⟨_, w₂, hemit, hrun⟩ := ok_of_bind hcheckin
    obtain ⟨hpassed, hsame⟩ := (checkin_failed _ _ w₂).of_ok hrun hok
    have hstart : Passed w w₂ := (passed_emit .iteration w).of_ok hemit
    exact ⟨rfl, hsame, Trans.trans hstart hpassed, checkinResult, c, hcheckin, hok⟩

/-! ### The test -/

/-- The test fires with these arguments. -/
def Fires (e : Env) (startupEpoch : BitVec 64) (anyCheckinOk : Bool) (s : Settings) (w : World) :
    Prop :=
  anyCheckinOk = false ∧ aknanoIsTempImage s = true ∧
    (startupEpoch + maxOfflineTimeOnTempImage).slt (e.epoch w.tick) = true

/-- **The test** lets the loop go on if it does not fire, and reboots only if
it does. -/
theorem rebootIfOffline_fires (startupEpoch : BitVec 64) (anyCheckinOk : Bool) (s : Settings)
    (w : World) :
    wp (rebootIfOffline e startupEpoch anyCheckinOk s)
      (fun _ w' => ¬ Fires e startupEpoch anyCheckinOk s w ∧ Passed w w')
      (fun halt _ => halt = .reboot → Fires e startupEpoch anyCheckinOk s w) w := by
  have hcut : ∀ {halt : Halt} {q : Prop}, halt = .powerCut → halt = .reboot → q := by
    rintro halt q rfl h
    cases h
  unfold rebootIfOffline
  split
  · next htemp =>
    replace htemp : anyCheckinOk = false ∧ aknanoIsTempImage s = true := by simpa using htemp
    rw [aknanoCliGetCurrentEpoch, wp_bind, wp_bind]
    refine wp_mono (tick_passed w) ?_ fun _ _ h => hcut h.1
    rintro t w₁ ⟨rfl, h₁⟩
    rw [wp_pure]
    split
    · next hlate =>
      have hfires : Fires e startupEpoch anyCheckinOk s w := ⟨htemp.1, htemp.2, hlate⟩
      have hstops : ∀ w₁, wp (aknanoDelay e 2000 >>= fun _ => (aknanoRebootCommand e : M Unit))
          (fun _ _ => False) (fun _ _ => True) w₁ := by
        intro w₁
        refine (passed_delay 2000).wp_bind (fun _ w₂ _ => ?_) fun _ _ _ => trivial
        exact wp_mono (reboot_spec w₂) (fun _ _ h => h) fun _ _ _ => trivial
      exact wp_mono (hstops w₁) (fun _ _ h => h.elim) fun _ _ _ _ => hfires
    · next hearly => exact (wp_pure _).mpr ⟨fun h => hearly h.2.2, h₁⟩
  · next hgoes =>
    refine (wp_pure _).mpr ⟨fun h => hgoes ?_, Passed.refl w⟩
    simpa using ⟨h.1, h.2.1⟩

/-- The comparison, as long as the sum is a `time_t`: C leaves a sum that is
not undefined. -/
theorem late_iff {startupEpoch now : BitVec 64} (h : startupEpoch.toInt + 180 < 2 ^ 63) :
    (startupEpoch + maxOfflineTimeOnTempImage).slt now = true
      ↔ startupEpoch.toInt + 180 < now.toInt := by
  have hsum : (startupEpoch + maxOfflineTimeOnTempImage).toInt = startupEpoch.toInt + 180 := by
    have hlo := BitVec.le_toInt startupEpoch
    rw [BitVec.toInt_add, Int.bmod_eq_of_le]
    · rfl
    · change -2 ^ 63 ≤ startupEpoch.toInt + 180
      omega
    · change startupEpoch.toInt + 180 < 2 ^ 63
      exact h
  rw [BitVec.slt_eq_decide, hsum, decide_eq_true_eq]

/-! ### The start of the boot -/

/-- The image is reported as permanent only if it is, and is if nothing fails. -/
theorem isCurrentImagePermanent_reads (w : World) :
    wp (aknanoIsCurrentImagePermanent e)
      (fun r w' => Passed w w' ∧ (r = true → w.boot.imageState = .permanent) ∧
        ((∀ t, e.imageStateStatus t = 0) → w.boot.imageState = .permanent → r = true))
      (fun _ _ => True) w := by
  refine (passed_delay 200).wp_bind (fun _ w₁ h₁ => ?_) fun _ _ _ => trivial
  rw [blGetImageState, wp_bind]
  refine passed_tick.wp_bind (fun t w₂ h₂ => ?_) fun _ _ _ => trivial
  have h₀₂ : Passed w w₂ := Trans.trans h₁ h₂
  rw [wp_bind, wp_get, wp_pure, ← h₀₂.boot]
  by_cases hstatus : e.imageStateStatus t = 0
  · rw [if_pos hstatus]
    rcases w₂.boot.imageState with - | - | -
    · exact (wp_pure _).mpr ⟨h₀₂, by rintro ⟨⟩, by rintro - ⟨⟩⟩
    · exact (wp_pure _).mpr ⟨h₀₂, by rintro ⟨⟩, by rintro - ⟨⟩⟩
    · exact (wp_pure _).mpr ⟨h₀₂, fun _ => rfl, fun _ _ => rfl⟩
  · rw [if_neg hstatus]
    exact (wp_pure _).mpr ⟨h₀₂, by rintro ⟨⟩, fun hall => absurd (hall t) hstatus⟩

theorem aknanoInit_reads (w : World) :
    wp (aknanoInit p e)
      (fun s w' => Passed w w' ∧ (s.isImagePermanent = true → w.boot.imageState = .permanent) ∧
        ((∀ t, e.imageStateStatus t = 0) → w.boot.imageState = .permanent →
          s.isImagePermanent = true))
      (fun _ _ => True) w := by
  have himage : Keeps Passed (aknanoGetImagePosition e) :=
    passed_tick.bind fun _ => passed_get.bind fun _ => .pure Passed.refl _
  have hversion : Keeps Passed (aknanoGetCurrentVersion e) :=
    passed_tick.bind fun _ => passed_get.bind fun _ => .pure Passed.refl _
  unfold aknanoInit
  refine himage.wp_bind (fun imagePosition w₁ h₁ => ?_) fun _ _ _ => trivial
  refine hversion.wp_bind (fun buildNum w₂ h₂ => ?_) fun _ _ _ => trivial
  refine (passed_onFlash _).wp_bind (fun r w₃ h₃ => ?_) fun _ _ _ => trivial
  refine (passed_delay 100).wp_bind (fun _ w₄ h₄ => ?_) fun _ _ _ => trivial
  refine (passed_emit _).wp_bind (fun _ w₅ h₅ => ?_) fun _ _ _ => trivial
  refine (passed_delay 100).wp_bind (fun _ w₆ h₆ => ?_) fun _ _ _ => trivial
  refine (passed_delay 100).wp_bind (fun _ w₇ h₇ => ?_) fun _ _ _ => trivial
  have h₀₇ : Passed w w₇ := by
    calc Passed w w₁ := h₁
      Passed _ w₂ := h₂
      Passed _ w₃ := h₃
      Passed _ w₄ := h₄
      Passed _ w₅ := h₅
      Passed _ w₆ := h₆
      Passed _ w₇ := h₇
  rw [wp_bind]
  refine wp_mono (isCurrentImagePermanent_reads w₇) ?_ fun _ _ hE => hE
  rintro isImagePermanent w₈ ⟨h₈, hreads⟩
  rw [h₀₇.boot] at hreads
  exact (wp_pure _).mpr ⟨Trans.trans h₀₇ h₈, hreads⟩

/-- **The start of a boot**: the time and the image the loop goes by. -/
theorem bootUntil_zero (w : World) :
    wp (bootUntil p e 0)
      (fun r w' => r.1 = e.epoch w.tick ∧ r.2.anyCheckinOk = false ∧
        w'.boot = w.boot.reset ∧ w.tick ≤ w'.tick ∧
        (r.2.settings.isImagePermanent = true → w.boot.reset.imageState = .permanent) ∧
        ((∀ t, e.imageStateStatus t = 0) → w.boot.reset.imageState = .permanent →
          r.2.settings.isImagePermanent = true))
      (fun _ _ => True) w := by
  rw [bootUntil, wp_bind, powerOn, wp_modify, wp_bind, aknanoCliGetCurrentEpoch, wp_bind]
  refine wp_mono (tick_passed _) ?_ fun _ _ _ => trivial
  rintro t w₁ ⟨rfl, h₁⟩
  rw [wp_pure, wp_bind]
  refine wp_mono (aknanoInit_reads w₁) ?_ fun _ _ hE => hE
  rintro s w₂ ⟨h₂, hreads⟩
  have h₀₂ := Trans.trans h₁ h₂
  rw [firstIterations, wp_bind, wp_pure, wp_pure]
  refine ⟨rfl, rfl, ?_, ?_, ?_⟩
  · exact h₀₂.boot
  · exact h₀₂.tick
  · rw [h₁.boot] at hreads
    exact hreads

/-! ### A boot without a successful check-in -/

/-- **An iteration in a boot without a successful check-in**: the test was made
at a time `t` and did not fire. -/
theorem loopBody_offline {startupEpoch : BitVec 64} {l l' : Loop} {w' : World}
    (h : loopBody p e startupEpoch l w = .ok l' w') (hoffline : l'.anyCheckinOk = false) :
    l.anyCheckinOk = false ∧ l'.settings.isImagePermanent = l.settings.isImagePermanent ∧
      Passed w w' ∧
      (∃ checkinResult c w₁, iterationCheckin p e l w = .ok (checkinResult, c, l'.executedOnce) w₁ ∧
        checkinResult ≠ 0) ∧
      ∃ t, w.tick ≤ t ∧ (aknanoIsTempImage l'.settings = true →
        (startupEpoch + maxOfflineTimeOnTempImage).slt (e.epoch t) ≠ true) := by
  rw [loopBody_watchdog] at h
  obtain ⟨⟨anyCheckinOk, s, executedOnce⟩, w₁, hiteration, h⟩ := ok_of_bind h
  obtain ⟨_, w₂, htest, hpoint⟩ := ok_of_bind h
  cases hpoint
  obtain rfl : anyCheckinOk = false := hoffline
  obtain ⟨hany, hsame, h₁, checkinResult, c, hcheckin, hfailed⟩ :=
    iterationUntilWatchdog_offline hiteration
  obtain ⟨hgoes, h₂⟩ := (rebootIfOffline_fires startupEpoch false s w₁).of_ok htest
  refine ⟨hany, hsame, Trans.trans h₁ h₂, ⟨checkinResult, c, w₁, hcheckin, hfailed⟩,
    w₁.tick, h₁.tick, ?_⟩
  intro htemp hlate
  exact hgoes ⟨rfl, htemp, hlate⟩

theorem returned_untilCheckin {k : Nat} {r : BitVec 64 × Loop} {w₁ w₂ : World}
    {checkin : Int × Context × Bool} (hboot : bootUntil p e k w = .ok r w₁)
    (hcheckin : iterationCheckin p e r.2 w₁ = .ok checkin w₂) :
    returned (untilCheckin p e k) w = some checkin.1 := by
  rw [untilCheckin, returned, bind_of_ok hboot]
  dsimp only
  rw [bind_of_ok hcheckin]
  rfl

/-- The boot that begins at `w` has come to its iteration `k` without a
successful check-in. -/
structure Offline (p : Platform) (e : Env) (w : World) (k : Nat) (r : BitVec 64 × Loop)
    (w' : World) : Prop where
  startup : r.1 = e.epoch w.tick
  checkins : ∀ j < k, ∃ checkinResult, returned (untilCheckin p e j) w = some checkinResult ∧
    checkinResult ≠ 0
  image : ∃ r₀, returned (bootUntil p e 0) w = some r₀ ∧
    r.2.settings.isImagePermanent = r₀.2.settings.isImagePermanent
  boot : w'.boot = w.boot.reset
  tick : w.tick ≤ w'.tick

/-- **As long as no check-in has succeeded**, the image is what it was at the
start. -/
theorem bootUntil_offline {k : Nat} {r : BitVec 64 × Loop} {w' : World}
    (h : bootUntil p e k w = .ok r w') (hoffline : r.2.anyCheckinOk = false) :
    Offline p e w k r w' := by
  induction k generalizing r w' with
  | zero =>
    obtain ⟨hstartup, -, hboot, htick, -⟩ := (bootUntil_zero w).of_ok h
    exact ⟨hstartup, nofun, ⟨r, returned_of_ok h, rfl⟩, hboot, htick⟩
  | succ k ih =>
    obtain ⟨startupEpoch, l⟩ := r
    obtain ⟨l₁, w₁, w₂, hboot, hbody, rfl⟩ := bootUntil_succ h
    obtain ⟨hany, hsame, hpassed, ⟨checkinResult, c, w₃, hcheckin, hfailed⟩, -⟩ :=
      loopBody_offline hbody hoffline
    have h₁ := ih hboot hany
    obtain ⟨r₀, hr₀, himage⟩ := h₁.image
    refine ⟨h₁.startup, ?_, ⟨r₀, hr₀, hsame.trans himage⟩, hpassed.boot.trans h₁.boot, ?_⟩
    · intro j hj
      rcases Nat.lt_succ_iff_lt_or_eq.mp hj with hj | rfl
      · exact h₁.checkins j hj
      · exact ⟨checkinResult, returned_untilCheckin hboot hcheckin, hfailed⟩
    · exact (h₁.tick.trans hpassed.tick).trans (Nat.le_succ _)

/-! ### The bound -/

/-- No loss of power ends the boot, and nothing that C leaves undefined. -/
def RunsOn (p : Platform) (e : Env) (w : World) : Prop :=
  ∀ n, halted (bootOnce p e n) w ≠ some .powerCut ∧ halted (bootOnce p e n) w ≠ some .fault

/-- The agent takes the image for one that is not permanent. -/
def TempImage (p : Platform) (e : Env) (w : World) : Prop :=
  ∀ r, returned (bootUntil p e 0) w = some r → aknanoIsTempImage r.2.settings = true

/-- Every check-in of the boot fails. -/
def CheckinsFail (p : Platform) (e : Env) (w : World) : Prop :=
  ∀ k checkinResult, returned (untilCheckin p e k) w = some checkinResult → checkinResult ≠ 0

/-- The clock never goes backwards, and a sleep of the boot takes as long as it
should. -/
structure SteadyClock (p : Platform) (e : Env) (w : World) : Prop where
  monotone : ∀ t t', t ≤ t' → (e.epoch t).toInt ≤ (e.epoch t').toInt
  advances : ∀ k ms w', untilSleep p e k w = .ok ms w' →
    (e.epoch w'.tick).toInt + (ms / 1000 : Nat) ≤ (e.epoch (w'.tick + 1)).toInt

/-- An image that is not permanent is not taken for a permanent one. -/
theorem tempImage_of_imageState (h : w.boot.reset.imageState ≠ .permanent) : TempImage p e w := by
  intro r hr
  obtain ⟨-, -, -, -, hreads, -⟩ := (bootUntil_zero w).of_ok (eq_ok_of_returned hr)
  show (!r.2.settings.isImagePermanent) = true
  rw [Bool.not_eq_true']
  exact Bool.eq_false_iff.mpr fun hp => h (hreads hp)

theorem five_le_limitSleepTimeRange (sleepTime : BitVec 32) :
    5 ≤ aknanoLimitSleepTimeRange sleepTime := by
  unfold aknanoLimitSleepTimeRange
  split
  · exact le_rfl
  · next hlow =>
    split
    · omega
    · rw [BitVec.slt_eq_decide, decide_eq_true_eq, not_lt] at hlow
      have hfive : (5 : Int) ≤ sleepTime.toInt := hlow
      have hlt := sleepTime.isLt
      rw [BitVec.toInt_eq_toNat_cond] at hfive
      split at hfive
      · omega
      · omega

/-- After an iteration that does not come to its sleep there is no other. -/
theorem bootUntil_halted {j k : Nat} {halt : Halt} {w' : World}
    (h : untilSleep p e j w = .error halt w') (hlt : j < k) :
    returned (bootUntil p e k) w = none := by
  rw [Option.eq_none_iff_forall_not_mem]
  intro r hr
  replace hr := eq_ok_of_returned hr
  generalize final (bootUntil p e k) w = w₁ at hr
  obtain ⟨d, rfl⟩ := Nat.exists_eq_add_of_lt hlt
  clear hlt
  induction d generalizing r w₁ with
  | zero =>
    obtain ⟨startupEpoch, l⟩ := r
    obtain ⟨l₁, w₂, w₃, hboot, hbody, -⟩ := bootUntil_succ hr
    rw [untilSleep, bind_of_ok hboot] at h
    dsimp only at h
    rw [bind_of_ok hbody] at h
    cases h
  | succ d ih =>
    obtain ⟨startupEpoch, l⟩ := r
    obtain ⟨l₁, w₂, w₃, hboot, -⟩ := bootUntil_succ hr
    exact ih _ _ hboot

/-- A boot that stops before it sleeps stops so whatever the limit. -/
theorem bootOnce_halted {k : Nat} {halt : Halt} {w' : World}
    (h : untilSleep p e k w = .error halt w') (n : Nat) :
    bootOnce p e (k + (n + 1)) w = .error halt w' := by
  rw [bootOnce_add]
  rcases error_of_bind h with hboot | ⟨⟨startupEpoch, l⟩, w₁, hboot, h⟩
  · exact bind_of_error hboot
  · rcases error_of_bind h with hbody | ⟨l', w₂, -, hpoint⟩
    · rw [bind_of_ok hboot, sampleLoop]
      exact bind_of_error hbody
    · cases hpoint

/-- No iteration finds a check-in that has succeeded. -/
theorem CheckinsFail.loopBody (hfail : CheckinsFail p e w) {k : Nat} {startupEpoch : BitVec 64}
    {l l' : Loop} {w₁ w₂ : World} (hany : l.anyCheckinOk = false)
    (hboot : bootUntil p e k w = .ok (startupEpoch, l) w₁)
    (hbody : AktualizrNano.loopBody p e startupEpoch l w₁ = .ok l' w₂) :
    l'.anyCheckinOk = false := by
  rw [loopBody_watchdog] at hbody
  obtain ⟨r, w₃, hiteration, hbody⟩ := ok_of_bind hbody
  obtain ⟨_, w₄, -, hpoint⟩ := ok_of_bind hbody
  cases hpoint
  obtain ⟨⟨checkinResult, c, executedOnce⟩, w₅, hcheckin, h⟩ := ok_of_bind hiteration
  have hfailed : checkinResult ≠ 0 := hfail k _ (returned_untilCheckin hboot hcheckin)
  dsimp only at h
  rw [if_neg hfailed] at h
  cases h
  exact hany

theorem CheckinsFail.offline (hfail : CheckinsFail p e w) {k : Nat} {r : BitVec 64 × Loop}
    {w' : World} (h : bootUntil p e k w = .ok r w') : r.2.anyCheckinOk = false := by
  induction k generalizing r w' with
  | zero => exact ((bootUntil_zero w).of_ok h).2.1
  | succ k ih =>
    obtain ⟨startupEpoch, l⟩ := r
    obtain ⟨l₁, w₁, w₂, hboot, hbody, -⟩ := bootUntil_succ h
    exact hfail.loopBody (ih hboot) hboot hbody

/-- After `k` sleeps at least `5 * k` seconds are over. -/
theorem SteadyClock.elapsed (hclock : SteadyClock p e w) (hfail : CheckinsFail p e w) {k : Nat}
    {r : BitVec 64 × Loop} {w' : World} (h : bootUntil p e k w = .ok r w') :
    (e.epoch w.tick).toInt + 5 * k ≤ (e.epoch w'.tick).toInt := by
  induction k generalizing r w' with
  | zero =>
    have htick := (bootUntil_offline h (hfail.offline h)).tick
    have hmono : (e.epoch w.tick).toInt ≤ (e.epoch w'.tick).toInt := hclock.monotone _ _ htick
    omega
  | succ k ih =>
    obtain ⟨startupEpoch, l⟩ := r
    have hoffline := hfail.offline h
    obtain ⟨l₁, w₁, w₂, hboot, hbody, rfl⟩ := bootUntil_succ h
    have hbefore := ih hboot
    have hpassed := (loopBody_offline hbody hoffline).2.2.1
    have hmono : (e.epoch w₁.tick).toInt ≤ (e.epoch w₂.tick).toInt :=
      hclock.monotone _ _ hpassed.tick
    have hsleep : untilSleep p e k w
        = .ok (aknanoLimitSleepTimeRange l.settings.pollingInterval * 1000) w₂ := by
      rw [untilSleep, bind_of_ok hboot]
      dsimp only
      rw [bind_of_ok hbody]
      rfl
    have hadvance := hclock.advances k _ w₂ hsleep
    rw [Nat.mul_div_cancel _ (by decide)] at hadvance
    have hfive := five_le_limitSleepTimeRange l.settings.pollingInterval
    show (e.epoch w.tick).toInt + 5 * (k + 1 : Nat) ≤ (e.epoch (w₂.tick + 1)).toInt
    omega

/-- **The 38th iteration does not come to its sleep**: by then more than 180
seconds are over. -/
theorem untilSleep_halts (htemp : TempImage p e w) (hfail : CheckinsFail p e w)
    (hclock : SteadyClock p e w) : ∃ halt w', untilSleep p e 37 w = .error halt w' := by
  rcases hsleep : untilSleep p e 37 w with ⟨ms, w'⟩ | ⟨halt, w'⟩
  · exfalso
    obtain ⟨⟨startupEpoch, l⟩, w₁, hboot, hsleep⟩ := ok_of_bind hsleep
    obtain ⟨l', w₂, hbody, -⟩ := ok_of_bind hsleep
    have hany := hfail.offline hboot
    have hoffline := bootUntil_offline hboot hany
    obtain ⟨-, hsame, -, -, t, hlater, hquiet⟩ :=
      loopBody_offline hbody (hfail.loopBody hany hboot hbody)
    obtain ⟨r₀, hr₀, himage⟩ := hoffline.image
    have hstart : aknanoIsTempImage l'.settings = true := by
      rw [aknanoIsTempImage, hsame, himage]
      exact htemp r₀ hr₀
    -- 37 sleeps, and a clock that cannot go beyond its 63 bits
    have helapsed := hclock.elapsed hfail hboot
    have hmono : (e.epoch w₁.tick).toInt ≤ (e.epoch t).toInt := hclock.monotone _ _ hlater
    have hmax := BitVec.toInt_lt (x := e.epoch t)
    have hstartup : startupEpoch = e.epoch w.tick := hoffline.startup
    refine hquiet hstart ((late_iff ?_).mpr ?_)
    · rw [hstartup]
      omega
    · rw [hstartup]
      omega
  · exact ⟨halt, w', rfl⟩

/-- **The watchdog.**  Whatever intervals the server configures: a boot with an
image that is not permanent, in which every check-in fails, is ended by
`aknano_reboot_command` within 38 iterations, so also without a limit on them.
And in every boot the test before the sleep reboots only if no check-in has
succeeded, the image is not permanent (so says the bootloader, unless it failed
to answer), and more than 180 seconds are over; where the sum with 180 is not a
`time_t` any more, C leaves the test undefined. -/
theorem sampleLoop_watchdog (w : World) :
    (RunsOn p e w → TempImage p e w → CheckinsFail p e w → SteadyClock p e w →
      ∃ w', ∀ n, 38 ≤ n → bootOnce p e n w = .error .reboot w') ∧
    ∀ k startupEpoch anyCheckinOk s w',
      untilWatchdog p e k w = .ok (startupEpoch, anyCheckinOk, s) w' →
      halted (rebootIfOffline e startupEpoch anyCheckinOk s) w' = some .reboot →
      (∀ j ≤ k, ∃ checkinResult, returned (untilCheckin p e j) w = some checkinResult ∧
        checkinResult ≠ 0) ∧
      (aknanoIsTempImage s = true ∧
        ((∀ t, e.imageStateStatus t = 0) → w'.boot.imageState ≠ .permanent)) ∧
      ((e.epoch w.tick).toInt + 180 < 2 ^ 63 →
        (e.epoch w.tick).toInt + 180 < (e.epoch w'.tick).toInt) := by
  constructor
  · intro hruns htemp hfail hclock
    obtain ⟨halt, w', hhalts⟩ := untilSleep_halts htemp hfail hclock
    have hhalted := halted_of_error (bootOnce_halted hhalts 0)
    obtain rfl : halt = .reboot := by
      cases halt with
      | powerCut => exact absurd hhalted (hruns 38).1
      | reboot => rfl
      | fault => exact absurd hhalted (hruns 38).2
    refine ⟨w', fun n hn => ?_⟩
    obtain ⟨m, rfl⟩ := Nat.exists_eq_add_of_le hn
    rw [show 38 + m = 37 + (m + 1) by omega]
    exact bootOnce_halted hhalts m
  · intro k startupEpoch anyCheckinOk s w' htest hreboot
    obtain ⟨⟨startupEpoch', l⟩, w₁, hboot, htest⟩ := ok_of_bind htest
    obtain ⟨⟨anyCheckinOk', s', executedOnce⟩, w₂, hiteration, hpoint⟩ := ok_of_bind htest
    cases hpoint
    have hrun := eq_error_of_halted hreboot
    obtain ⟨rfl, htemp, hlate⟩ :=
      (rebootIfOffline_fires startupEpoch anyCheckinOk s w').of_error hrun rfl
    obtain ⟨hany, hsame, hpassed, checkinResult, c, hcheckin, hfailed⟩ :=
      iterationUntilWatchdog_offline hiteration
    have hoffline := bootUntil_offline hboot hany
    have hstartup : startupEpoch = e.epoch w.tick := hoffline.startup
    refine ⟨?_, ⟨htemp, ?_⟩, ?_⟩
    · intro j hj
      rcases Nat.lt_or_eq_of_le hj with hj | rfl
      · exact hoffline.checkins j hj
      · exact ⟨checkinResult, returned_untilCheckin hboot hcheckin, hfailed⟩
    · intro hstatus hpermanent
      obtain ⟨r₀, hr₀, himage⟩ := hoffline.image
      obtain ⟨-, -, -, -, -, hreads⟩ := (bootUntil_zero w).of_ok (eq_ok_of_returned hr₀)
      rw [hpassed.boot, hoffline.boot] at hpermanent
      have hp : s.isImagePermanent = true := (hsame.trans himage).trans (hreads hstatus hpermanent)
      rw [aknanoIsTempImage, hp] at htemp
      cases htemp
    · intro hrange
      rw [← hstartup] at hrange ⊢
      exact (late_iff hrange).mp hlate

/-- No server answers, and each call takes 15 seconds. -/
def Env.slow : Env :=
  { Env.sample with epoch := fun t => BitVec.ofNat 64 (1680000000 + 15 * min t 1000) }

theorem slow_epoch (t : Nat) : (Env.slow.epoch t).toInt = 1680000000 + 15 * (min t 1000 : Nat) := by
  show (BitVec.ofNat 64 (1680000000 + 15 * min t 1000)).toInt = _
  have hmin : min t 1000 ≤ 1000 := Nat.min_le_right t 1000
  rw [BitVec.toInt_eq_toNat_of_lt, BitVec.toNat_ofNat, Nat.mod_eq_of_lt (by omega)]
  · push_cast
    rfl
  · rw [BitVec.toNat_ofNat, Nat.mod_eq_of_lt (by omega)]
    omega

/-- Version 7 is to be tried after the next reset. -/
def World.armed : World := { World.factory 5 with boot := ⟨.primary, 5, none, some 7, some 7⟩ }

/-- The first iteration sleeps for 15 seconds; the second gives up. -/
theorem slow_runs :
    returned (untilSleep .sample .slow 0) .armed = some 15000 ∧
    (final (untilSleep .sample .slow 0) .armed).tick = 11 ∧
    halted (untilSleep .sample .slow 1) .armed = some .reboot ∧
    returned (untilCheckin .sample .slow 0) .armed = some (-10) ∧
    returned (untilCheckin .sample .slow 1) .armed = some (-10) ∧
    halted (bootOnce .sample .slow 0) .armed = none ∧
    halted (bootOnce .sample .slow 1) .armed = none := by
  decide +kernel

/-- There is no third. -/
theorem slow_gone (k : Nat) {r : BitVec 64 × Loop} {w' : World} :
    bootUntil .sample .slow (k + 2) .armed ≠ .ok r w' := by
  intro h
  obtain ⟨-, -, hhalts, -⟩ := slow_runs
  have hnone := bootUntil_halted (eq_error_of_halted hhalts) (show 1 < k + 2 by omega)
  rw [returned_of_ok h] at hnone
  cases hnone

theorem slow_advances (k ms : Nat) (w' : World)
    (h : untilSleep .sample .slow k .armed = .ok ms w') :
    (Env.slow.epoch w'.tick).toInt + (ms / 1000 : Nat) ≤ (Env.slow.epoch (w'.tick + 1)).toInt := by
  obtain ⟨hsleep, htick, hhalts, -⟩ := slow_runs
  rcases k with - | - | k
  · rw [eq_ok_of_returned hsleep] at h
    cases h
    rw [htick, slow_epoch, slow_epoch]
    decide
  · rw [eq_error_of_halted hhalts] at h
    cases h
  · obtain ⟨r, w₁, hboot, -⟩ := ok_of_bind h
    exact absurd hboot (slow_gone k)

theorem slow_checkinsFail : CheckinsFail .sample .slow .armed := by
  obtain ⟨-, -, -, hfirst, hsecond, -⟩ := slow_runs
  intro k checkinResult h
  rcases k with - | - | k
  · rw [hfirst] at h
    cases h
    decide
  · rw [hsecond] at h
    cases h
    decide
  · obtain ⟨r, w₁, hboot, -⟩ := ok_of_bind (eq_ok_of_returned h)
    exact absurd hboot (slow_gone k)

theorem slow_runsOn : RunsOn .sample .slow .armed := by
  obtain ⟨-, -, hhalts, -, -, hzero, hone⟩ := slow_runs
  intro n
  rcases n with - | - | n
  · rw [hzero]
    exact ⟨nofun, nofun⟩
  · rw [hone]
    exact ⟨nofun, nofun⟩
  · rw [show n + 1 + 1 = 1 + (n + 1) by omega,
      halted_of_error (bootOnce_halted (eq_error_of_halted hhalts) n)]
    exact ⟨nofun, nofun⟩

/-- Version 7 is given up in the second iteration, 210 seconds after the start. -/
theorem sampleLoop_watchdog_slow :
    (∃ w', ∀ n, 38 ≤ n → bootOnce .sample .slow n .armed = .error .reboot w') ∧
    ∃ s w', untilWatchdog .sample .slow 1 .armed = .ok (1680000000, false, s) w' ∧
      (∀ j ≤ 1, ∃ checkinResult,
        returned (untilCheckin .sample .slow j) .armed = some checkinResult ∧ checkinResult ≠ 0) ∧
      w'.boot.imageState ≠ .permanent ∧
      (Env.slow.epoch 0).toInt + 180 < (Env.slow.epoch w'.tick).toInt := by
  have hwatchdog := sampleLoop_watchdog (p := .sample) (e := .slow) .armed
  constructor
  · refine hwatchdog.1 slow_runsOn (tempImage_of_imageState (by decide)) slow_checkinsFail
      ⟨?_, slow_advances⟩
    intro t t' hle
    show (Env.slow.epoch t).toInt ≤ (Env.slow.epoch t').toInt
    rw [slow_epoch, slow_epoch]
    omega
  · have hrun : (returned (untilWatchdog .sample .slow 1) .armed).map
          (fun r => (r.1, r.2.1, halted (rebootIfOffline .slow r.1 r.2.1 r.2.2)
            (final (untilWatchdog .sample .slow 1) .armed)))
        = some (1680000000, false, some .reboot) := by
      decide +kernel
    obtain ⟨⟨startupEpoch, anyCheckinOk, s⟩, hr, hreboot⟩ := Option.map_eq_some_iff.mp hrun
    obtain ⟨rfl, rfl, hreboot⟩ : startupEpoch = 1680000000 ∧ anyCheckinOk = false ∧ _ := by
      simpa only [Prod.mk.injEq] using hreboot
    obtain ⟨hcheckins, ⟨-, himage⟩, hlate⟩ :=
      hwatchdog.2 1 _ _ s _ (eq_ok_of_returned hr) hreboot
    exact ⟨s, _, eq_ok_of_returned hr, hcheckins, himage fun _ => rfl, hlate (by decide)⟩

/-- And `bl_get_image_state` fails. -/
def Env.misread : Env := { Env.slow with imageStateStatus := fun _ => 1 }

/-- An image that is permanent is given up as well, if the bootloader does not
answer: the agent takes it for one on trial. -/
theorem sampleLoop_watchdog_misread :
    ¬ ∀ k startupEpoch anyCheckinOk s w',
      untilWatchdog .sample .misread k (.factory 5) = .ok (startupEpoch, anyCheckinOk, s) w' →
      halted (rebootIfOffline .misread startupEpoch anyCheckinOk s) w' = some .reboot →
      w'.boot.imageState ≠ .permanent := by
  have hrun : (returned (untilWatchdog .sample .misread 1) (.factory 5)).map
        (fun r => halted (rebootIfOffline .misread r.1 r.2.1 r.2.2)
          (final (untilWatchdog .sample .misread 1) (.factory 5)))
      = some (some .reboot) := by
    decide +kernel
  have hpermanent : (final (untilWatchdog .sample .misread 1) (.factory 5)).boot.imageState
      = .permanent := by
    decide +kernel
  intro hclaim
  obtain ⟨⟨startupEpoch, anyCheckinOk, s⟩, hr, hreboot⟩ := Option.map_eq_some_iff.mp hrun
  exact hclaim 1 startupEpoch anyCheckinOk s _ (eq_ok_of_returned hr) hreboot hpermanent

end AktualizrNano
