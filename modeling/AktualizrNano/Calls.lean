/-
AktualizrNano/Calls.lean

What a boot calls, and with what.  A boot is cut in two where one of its
iterations begins, and the iteration where it calls
`aknano_send_installation_finished_event` or `aknano_install_selected_target`.
The part in front of the call is a program of its own, which returns the
arguments; the equations say that the two parts are the whole boot.

A property of every call is so a property of what the first part returns.
-/
import AktualizrNano.SampleLoop

namespace AktualizrNano

open CLib NorFlash Outcome

variable (p : Platform) (e : Env)

/-! ### The parts in front of a call -/

/-- `aknano_checkin` up to the completion handler: the result of the refresh,
and whether the handler is called with the settings of this context. -/
def checkinUntilFinish (c : Context) : M (Int × Bool × Context) := do
  if ← aknanoConnectToDeviceGateway p e then
    let s ← fetchConfig p e c.settings
    let _ ← aknanoSendHttpRequest p e (ascii "PUT") (ascii "/system_info") (systemInfo p s) s
    let _ ← aknanoSendHttpRequest p e (ascii "PUT") (ascii "/system_info/network")
      (fillNetworkInfo p) s
    let _ ← aknanoSendHttpRequest p e (ascii "PUT") (ascii "/system_info/config")
      (systemConfig p s) s
    let _ ← aknanoCliGetCurrentEpoch e
    let (tufRet, userBuffer) ← tufRefresh p e s
    if tufRet = tufSuccess then
      let metadata := userBuffer.takeWhile (· ≠ 0)
      emit (.refreshed metadata)
      let (_, selectedTarget) := parseTargetsMetadata p.overflow (e.json metadata) s.hwid s.tag.str
        c.selectedTarget
      if s.applicationSelfTestOk then
        let isImagePermanent ← aknanoSetImageConfirmed e s.isImagePermanent
        pure (tufRet, true, ⟨{ s with isImagePermanent := isImagePermanent }, selectedTarget⟩)
      else pure (tufRet, false, ⟨s, selectedTarget⟩)
    else pure (tufRet, false, { c with settings := s })
  else pure (-10, false, c)

/-- The rest of `aknano_checkin`. -/
def checkinFromFinish (executedOnce : Bool) : Int × Bool × Context → M (Int × Context × Bool)
  | (tufRet, finishes, c) => do
    let (c, executedOnce) ←
      if finishes then do
        let (s, executedOnce) ← aknanoSendInstallationFinishedEvent p e c.settings executedOnce
        pure ((⟨s, c.selectedTarget⟩ : Context), executedOnce)
      else pure (c, executedOnce)
    aknanoMtlsDisconnect e
    pure (tufRet, c, executedOnce)

/-- The rest of an iteration, after its check-in. -/
def loopFromCheckin (startupEpoch : BitVec 64) (anyCheckinOk : Bool) :
    Int × Context × Bool → M Loop
  | (checkinResult, c, executedOnce) => do
    let (anyCheckinOk, s) ←
      if checkinResult = 0 then do
        let s ← handleCheckin p e c
        pure (true, s)
      else pure (anyCheckinOk, c.settings)
    rebootIfOffline e startupEpoch anyCheckinOk s
    pure ⟨s, anyCheckinOk, executedOnce⟩

/-- The first `k` iterations, each with the delay after it. -/
def firstIterations (startupEpoch : BitVec 64) : (k : Nat) → Loop → M Loop
  | 0, l => pure l
  | k + 1, l => do
    let l ← loopBody p e startupEpoch l
    aknanoDelay e (aknanoLimitSleepTimeRange l.settings.pollingInterval * 1000)
    firstIterations startupEpoch k l

/-- A boot up to the iteration that has `k` others in front of it. -/
def bootUntil (k : Nat) : M (BitVec 64 × Loop) := do
  powerOn
  let startupEpoch ← aknanoCliGetCurrentEpoch e
  let s ← aknanoInit p e
  let l ← firstIterations p e startupEpoch k ⟨aknanoSetApplicationSelfTestOk s, false, false⟩
  pure (startupEpoch, l)

/-- An iteration up to the call of the completion handler, if it comes to it:
its context, and whether the handler has run in this boot. -/
def iterationUntilFinish (l : Loop) : M (Option (Context × Bool)) := do
  emit .iteration
  let (_, finishes, c) ← checkinUntilFinish p e (aknanoInitContext l.settings)
  pure (if finishes then some (c, l.executedOnce) else none)

/-- An iteration up to the call of the installation, if it comes to it. -/
def iterationUntilInstall (l : Loop) : M (Option Context) := do
  emit .iteration
  let (checkinResult, c, _) ← aknanoCheckin p e (aknanoInitContext l.settings) l.executedOnce
  if checkinResult = 0 then
    if ← isUpdateRequired e c then pure (some c) else pure none
  else pure none

/-- A boot up to the call in its iteration `k`. -/
def untilFinish (k : Nat) : M (Option (Context × Bool)) := do
  let (_, l) ← bootUntil p e k
  iterationUntilFinish p e l

def untilInstall (k : Nat) : M (Option Context) := do
  let (_, l) ← bootUntil p e k
  iterationUntilInstall p e l

/-! ### The two parts are the whole -/

variable {p e}

/-- **The check-in** by its two parts. -/
theorem aknanoCheckin_eq (c : Context) (executedOnce : Bool) :
    aknanoCheckin p e c executedOnce
      = checkinUntilFinish p e c >>= checkinFromFinish p e executedOnce := by
  unfold aknanoCheckin checkinUntilFinish
  rw [bind_assoc]
  refine bind_congr fun connected => ?_
  split
  · simp only [bind_assoc]
    refine bind_congr fun s => bind_congr fun _ => bind_congr fun _ => bind_congr fun _ =>
      bind_congr fun _ => bind_congr fun r => ?_
    split
    · unfold handleRefreshed
      simp only [bind_assoc]
      refine bind_congr fun _ => ?_
      split
      · simp only [bind_assoc, pure_bind, checkinFromFinish, if_true]
      · simp only [pure_bind, checkinFromFinish, Bool.false_eq_true, if_false]
    · simp only [pure_bind, checkinFromFinish, Bool.false_eq_true, if_false]
  · simp only [pure_bind, checkinFromFinish, Bool.false_eq_true, if_false]

/-- **An iteration** by its three parts. -/
theorem loopBody_eq (startupEpoch : BitVec 64) (l : Loop) :
    loopBody p e startupEpoch l = emit .iteration >>= fun _ =>
      checkinUntilFinish p e (aknanoInitContext l.settings) >>= fun r =>
        checkinFromFinish p e l.executedOnce r >>=
          loopFromCheckin p e startupEpoch l.anyCheckinOk := by
  unfold loopBody
  refine bind_congr fun _ => ?_
  dsimp only
  rw [aknanoCheckin_eq, bind_assoc]
  rfl

/-- **The loop** goes on from each of its iterations. -/
theorem sampleLoop_add (startupEpoch : BitVec 64) (k n : Nat) (l : Loop) :
    sampleLoop p e startupEpoch (k + (n + 1)) l
      = firstIterations p e startupEpoch k l >>= sampleLoop p e startupEpoch (n + 1) := by
  induction k generalizing l with
  | zero => rw [Nat.zero_add, firstIterations, pure_bind]
  | succ k ih =>
    rw [show k + 1 + (n + 1) = k + (n + 1) + 1 by omega, sampleLoop, firstIterations, bind_assoc]
    refine bind_congr fun l' => ?_
    rw [if_pos (by omega), bind_assoc]
    exact bind_congr fun _ => ih l'

/-- **A boot** goes on from each of its iterations. -/
theorem bootOnce_add (k n : Nat) :
    bootOnce p e (k + (n + 1)) = bootUntil p e k >>= fun r => sampleLoop p e r.1 (n + 1) r.2 := by
  unfold bootOnce aknanoSampleLoop bootUntil
  rw [bind_assoc]
  refine bind_congr fun _ => ?_
  rw [bind_assoc]
  refine bind_congr fun startupEpoch => ?_
  rw [bind_assoc]
  refine bind_congr fun s => ?_
  rw [sampleLoop_add, bind_assoc]
  refine bind_congr fun l => ?_
  rw [pure_bind]

theorem bootOnce_eq (n : Nat) :
    bootOnce p e n = bootUntil p e 0 >>= fun r => sampleLoop p e r.1 n r.2 := by
  unfold bootOnce aknanoSampleLoop bootUntil firstIterations
  rw [bind_assoc]
  refine bind_congr fun _ => ?_
  rw [bind_assoc]
  refine bind_congr fun startupEpoch => ?_
  rw [bind_assoc]
  refine bind_congr fun s => ?_
  rw [pure_bind, pure_bind]

/-- Its iterations, by those after the first. -/
theorem bootUntil_of_first {k : Nat} {startupEpoch : BitVec 64} {l l' : Loop} {w w₁ w' : World}
    (hboot : bootUntil p e 0 w = .ok (startupEpoch, l) w₁)
    (hfirst : firstIterations p e startupEpoch k l w₁ = .ok l' w') :
    bootUntil p e k w = .ok (startupEpoch, l') w' := by
  obtain ⟨_, w₂, hpower, hboot⟩ := ok_of_bind hboot
  obtain ⟨_, w₃, hepoch, hboot⟩ := ok_of_bind hboot
  obtain ⟨s, w₄, hinit, hboot⟩ := ok_of_bind hboot
  cases hboot
  rw [bootUntil, bind_of_ok hpower, bind_of_ok hepoch, bind_of_ok hinit, bind_of_ok hfirst]
  rfl

/-- **Every call of the completion handler** stands in the boot so. -/
theorem bootOnce_finish {k n : Nat} {c : Context} {executedOnce : Bool} {w w' : World}
    (hcall : untilFinish p e k w = .ok (some (c, executedOnce)) w') :
    ∃ rest, bootOnce p e (k + (n + 1)) w
      = (aknanoSendInstallationFinishedEvent p e c.settings executedOnce >>= rest) w' := by
  obtain ⟨⟨startupEpoch, l⟩, w₁, hiteration, hcall⟩ := ok_of_bind hcall
  obtain ⟨_, w₂, hemit, hcheckin⟩ := ok_of_bind hcall
  obtain ⟨⟨tufRet, finishes, c'⟩, w₃, hfinish, hpoint⟩ := ok_of_bind hcheckin
  cases finishes with
  | false => cases hpoint
  | true =>
    cases hpoint
    rw [bootOnce_add, bind_of_ok hiteration, sampleLoop, loopBody, bind_assoc, bind_of_ok hemit]
    dsimp only
    rw [aknanoCheckin_eq, bind_assoc, bind_assoc, bind_of_ok hfinish, checkinFromFinish]
    simp only [if_true, bind_assoc]
    exact ⟨_, rfl⟩

/-- **Every call of the installation** stands in the boot so. -/
theorem bootOnce_install {k n : Nat} {c : Context} {w w' : World}
    (hcall : untilInstall p e k w = .ok (some c) w') :
    ∃ rest, bootOnce p e (k + (n + 1)) w = (aknanoInstallSelectedTarget p e c >>= fun r =>
      (if r.1 then aknanoRebootCommand e else pure r.2) >>= rest) w' := by
  obtain ⟨⟨startupEpoch, l⟩, w₁, hiteration, hcall⟩ := ok_of_bind hcall
  obtain ⟨_, w₂, hemit, hcheckin⟩ := ok_of_bind hcall
  obtain ⟨⟨checkinResult, c', executedOnce⟩, w₃, hresult, hrequired⟩ := ok_of_bind hcheckin
  by_cases hok : checkinResult = 0
  · dsimp only at hrequired
    rw [if_pos hok] at hrequired
    obtain ⟨updateRequired, w₄, hupdate, hpoint⟩ := ok_of_bind hrequired
    cases updateRequired with
    | false => cases hpoint
    | true =>
      cases hpoint
      rw [bootOnce_add, bind_of_ok hiteration, sampleLoop, loopBody, bind_assoc, bind_of_ok hemit]
      dsimp only
      rw [bind_assoc, bind_of_ok hresult]
      dsimp only
      rw [if_pos hok, handleCheckin]
      simp only [bind_assoc]
      rw [bind_of_ok hupdate]
      simp only [if_true, bind_assoc]
      exact ⟨_, rfl⟩
  · dsimp only at hrequired
    rw [if_neg hok] at hrequired
    cases hrequired

end AktualizrNano
