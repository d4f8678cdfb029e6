/-
AktualizrNano/AgentTask.lean

EdgeLock 2GO: one task waits for the device certificate, another one fetches
it.  `agent_start_task` runs the agent of the secure element until its check
finds a certificate, and then stops for good; `aknano_init` waits until it has.
They share two flags, `is_certificate_available_cache` and
`el2go_agent_stopped`, without a lock, and the secure element.

Each access to a flag is a step of its own, and so is each use of the secure
element, so that the tasks can be interleaved in between.  Two results: the
secure element is never used by both (`secureElement_exclusive`), and
`aknano_init` goes on exactly in those runs in which the agent finds a
certificate (`init_proceeds_iff`).
-/
import AktualizrNano.Certificate
import AktualizrNano.Interleaving

namespace AktualizrNano

open CLib Interleaving

/-! ### The two tasks -/

inductive TaskId
  | agent
  | init
  deriving DecidableEq

/-- Where `is_valid_certificate_available(false)` is.  In `store` the result of
`is_valid_certificate_available_` has not been written to the cache yet. -/
inductive CheckPc
  | lookUp
  | read
  | store (valid : Bool)
  | result
  deriving DecidableEq

/-- Where `agent_start_task` is; `first` is its check in front of the loop. -/
inductive AgentPc
  | delay
  | check (first : Bool) (pc : CheckPc)
  | boot
  | start
  | pause
  | stop
  | stopped
  deriving DecidableEq

/-- Where `aknano_init` is.  With `use_cached_value` the check is one access to
the cache; the second flag is looked at only if it is set. -/
inductive InitPc
  | begin
  | lookUp
  | lookAtAgent
  | delay
  | proceed
  deriving DecidableEq

structure Tasks where
  isCertificateAvailableCache : Bool
  el2goAgentStopped : Bool
  /-- what the secure element answers at present -/
  token : Pkcs11
  agent : AgentPc
  init : InitPc

/-- What a step may take from outside: what the stack holds, and what
`agent_start` and the service it talks to leave on the secure element. -/
structure TaskInput where
  deviceCertificate : CharArray aknanoCertBufSize
  token : Pkcs11

variable (enc : PemEncoder)

/-- The check of the certificate; `done` is where its caller goes on. -/
def checkStep (x : TaskInput) (first : Bool) (pc : CheckPc) (s : Tasks) : Tasks :=
  match pc with
  | .lookUp =>
    { s with agent := .check first (if s.isCertificateAvailableCache then .result else .read) }
  | .read =>
    { s with agent := .check first (.store
        (isValidCertificateAvailable_ s.token enc x.deviceCertificate)) }
  | .store valid =>
    { s with isCertificateAvailableCache := valid, agent := .check first .result }
  | .result =>
    { s with agent :=
        if s.isCertificateAvailableCache then .stop else if first then .boot else .start }

/-- `agent_start_task`; in front of the loop the certificate may be there
already. -/
def agentStep (x : TaskInput) (s : Tasks) : Tasks :=
  match s.agent with
  | .delay => { s with agent := .check true .lookUp }
  | .check first pc => checkStep enc x first pc s
  | .boot => { s with agent := .start }
  | .start => { s with token := x.token, agent := .pause }
  | .pause => { s with agent := .check false .lookUp }
  | .stop => { s with el2goAgentStopped := true, agent := .stopped }
  | .stopped => s

/-- The part of `aknano_init` that waits for the agent. -/
def initStep (s : Tasks) : Tasks :=
  match s.init with
  | .begin => { s with init := .lookUp }
  | .lookUp => { s with init := if s.isCertificateAvailableCache then .lookAtAgent else .delay }
  | .lookAtAgent => { s with init := if s.el2goAgentStopped then .proceed else .delay }
  | .delay => { s with init := .lookUp }
  | .proceed => s

def taskStep : TaskId → TaskInput → Tasks → Tasks
  | .agent, x, s => agentStep enc x s
  | .init, _, s => initStep s

/-- Both tasks at their beginning. -/
def Tasks.start (token : Pkcs11) : Tasks := ⟨false, false, token, .delay, .begin⟩

/-- The agent holds a session of the secure element, or reads from it. -/
def AgentPc.UsesSecureElement : AgentPc → Prop
  | .check _ .read => True
  | .boot => True
  | .start => True
  | _ => False

/-- The agent finds a certificate at this step. -/
def FindsCertificateNow (i : TaskId) (x : TaskInput) (s : Tasks) : Prop :=
  i = .agent ∧ (∃ first, s.agent = .check first .read) ∧
    isValidCertificateAvailable_ s.token enc x.deviceCertificate = true

variable {enc}

/-! ### Safety -/

/-- The invariant.  The agent sets its flag on the way to where it stays, and
the cache is set only there and right in front of it; who has seen a flag set
can rely on it. -/
structure Tasks.Consistent (s : Tasks) : Prop where
  flag : s.el2goAgentStopped = true ↔ s.agent = .stopped
  cached : s.isCertificateAvailableCache = true →
    (∃ first, s.agent = .check first .result) ∨ s.agent = .stop ∨ s.agent = .stopped
  stopping : s.agent = .stop ∨ s.agent = .stopped → s.isCertificateAvailableCache = true
  waiting : s.init = .lookAtAgent → s.isCertificateAvailableCache = true
  proceeding : s.init = .proceed → s.el2goAgentStopped = true

namespace Tasks.Consistent

variable {s : Tasks}

theorem start (token : Pkcs11) : (Tasks.start token).Consistent where
  flag := ⟨nofun, nofun⟩
  cached := nofun
  stopping h := by rcases h with h | h <;> cases h
  waiting := nofun
  proceeding := nofun

/-- The cache is set at the end only. -/
theorem notCached (h : s.Consistent) (hresult : ∀ first, s.agent ≠ .check first .result)
    (hstop : s.agent ≠ .stop) (hstopped : s.agent ≠ .stopped) :
    s.isCertificateAvailableCache = false := by
  apply Bool.eq_false_iff.mpr
  intro hset
  rcases h.cached hset with ⟨first, heq⟩ | heq | heq
  · exact hresult first heq
  · exact hstop heq
  · exact hstopped heq

/-- As long as the cache is not set nobody relies on anything, and the agent
may go where it has not finished. -/
theorem move (h : s.Consistent) (hcache : s.isCertificateAvailableCache = false) {pc : AgentPc}
    {token : Pkcs11} {valid : Bool} (hstop : pc ≠ .stop) (hstopped : pc ≠ .stopped)
    (hvalid : valid = true → ∃ first, pc = .check first .result) :
    ({ s with agent := pc, token := token, isCertificateAvailableCache := valid } :
      Tasks).Consistent := by
  have hflag : s.el2goAgentStopped = false := by
    apply Bool.eq_false_iff.mpr
    intro hset
    exact Bool.noConfusion (hcache.symm.trans (h.stopping (Or.inr (h.flag.mp hset))))
  constructor
  · exact ⟨fun hset => Bool.noConfusion (hflag.symm.trans hset), fun heq => absurd heq hstopped⟩
  · exact fun hset => Or.inl (hvalid hset)
  · rintro (heq | heq)
    · exact absurd heq hstop
    · exact absurd heq hstopped
  · exact fun heq => Bool.noConfusion (hcache.symm.trans (h.waiting heq))
  · exact fun heq => Bool.noConfusion (hflag.symm.trans (h.proceeding heq))

/-- The same, with the cache as it was. -/
theorem go (h : s.Consistent) (hcache : s.isCertificateAvailableCache = false) {pc : AgentPc}
    {token : Pkcs11} (hstop : pc ≠ .stop) (hstopped : pc ≠ .stopped) :
    ({ s with agent := pc, token := token } : Tasks).Consistent :=
  h.move hcache hstop hstopped fun hset => Bool.noConfusion (hcache.symm.trans hset)

/-- The other task looks at the flags only. -/
theorem look (h : s.Consistent) {pc : InitPc}
    (hwaiting : pc = .lookAtAgent → s.isCertificateAvailableCache = true)
    (hproceeding : pc = .proceed → s.el2goAgentStopped = true) :
    ({ s with init := pc } : Tasks).Consistent :=
  ⟨h.flag, h.cached, h.stopping, hwaiting, hproceeding⟩

/-- The end of a check. -/
theorem checked (h : s.Consistent) {first : Bool} (heq : s.agent = .check first .result)
    {next : AgentPc} (hstop : next ≠ .stop) (hstopped : next ≠ .stopped) :
    ({ s with agent := if s.isCertificateAvailableCache then .stop else next } :
      Tasks).Consistent := by
  by_cases hcache : s.isCertificateAvailableCache = true
  · have hflag : s.el2goAgentStopped = false := by
      apply Bool.eq_false_iff.mpr
      intro hset
      cases heq.symm.trans (h.flag.mp hset)
    rw [if_pos hcache]
    exact ⟨⟨fun hset => Bool.noConfusion (hflag.symm.trans hset), nofun⟩,
      fun _ => Or.inr (Or.inl rfl), fun _ => hcache, fun _ => hcache, h.proceeding⟩
  · rw [if_neg hcache]
    exact h.go (Bool.eq_false_iff.mpr hcache) hstop hstopped

/-- A step of the agent keeps the invariant. -/
theorem agentStep (h : s.Consistent) (x : TaskInput) : (agentStep enc x s).Consistent := by
  -- where the agent has not finished, the cache says so
  have hnot : ∀ {pc : AgentPc}, s.agent = pc → (∀ first, pc ≠ .check first .result) →
      pc ≠ .stop → pc ≠ .stopped → s.isCertificateAvailableCache = false := by
    rintro pc rfl hresult hstop hstopped
    exact h.notCached hresult hstop hstopped
  unfold AktualizrNano.agentStep
  split
  · next heq => exact h.go (hnot heq nofun nofun nofun) nofun nofun
  · next first pc heq =>
    unfold checkStep
    split
    · have hcache := hnot heq nofun nofun nofun
      rw [if_neg (Bool.eq_false_iff.mp hcache)]
      exact h.go hcache nofun nofun
    · exact h.go (hnot heq nofun nofun nofun) nofun nofun
    · exact h.move (hnot heq nofun nofun nofun) nofun nofun fun _ => ⟨first, rfl⟩
    · apply h.checked heq
      · split <;> exact nofun
      · split <;> exact nofun
  · next heq => exact h.go (hnot heq nofun nofun nofun) nofun nofun
  · next heq => exact h.go (hnot heq nofun nofun nofun) nofun nofun
  · next heq => exact h.go (hnot heq nofun nofun nofun) nofun nofun
  · next heq =>
    have hcache := h.stopping (Or.inl heq)
    exact ⟨⟨fun _ => rfl, fun _ => rfl⟩, fun _ => Or.inr (Or.inr rfl), fun _ => hcache,
      fun _ => hcache, fun _ => rfl⟩
  · exact h

/-- And so does one of the other task. -/
theorem initStep (h : s.Consistent) : (initStep s).Consistent := by
  unfold AktualizrNano.initStep
  split
  · exact h.look nofun nofun
  · by_cases hcache : s.isCertificateAvailableCache = true
    · rw [if_pos hcache]
      exact h.look (fun _ => hcache) nofun
    · rw [if_neg hcache]
      exact h.look nofun nofun
  · by_cases hflag : s.el2goAgentStopped = true
    · rw [if_pos hflag]
      exact h.look nofun fun _ => hflag
    · rw [if_neg hflag]
      exact h.look nofun nofun
  · exact h.look nofun nofun
  · exact h

end Tasks.Consistent

theorem taskStep_consistent (i : TaskId) (x : TaskInput) (s : Tasks) (h : s.Consistent) :
    (taskStep enc i x s).Consistent := by
  cases i with
  | agent => exact h.agentStep x
  | init => exact h.initStep

variable {who : Nat → TaskId} {input : Nat → TaskInput} {token : Pkcs11}

theorem run_consistent (n : Nat) :
    (run (taskStep enc) who input (.start token) n).Consistent :=
  always (.start token) taskStep_consistent n

/-- An agent that has stopped makes no step, and the flags stay set. -/
def Tasks.Settled (s : Tasks) : Prop :=
  s.agent = .stopped ∧ s.isCertificateAvailableCache = true ∧ s.el2goAgentStopped = true

theorem Tasks.Settled.step {s : Tasks} (h : s.Settled) (i : TaskId) (x : TaskInput) :
    (taskStep enc i x s).Settled := by
  obtain ⟨hagent, hcache, hflag⟩ := h
  cases i with
  | agent =>
    have hstep : agentStep enc x s = s := by
      unfold agentStep
      rw [hagent]
    rw [taskStep, hstep]
    exact ⟨hagent, hcache, hflag⟩
  | init =>
    rw [taskStep]
    unfold initStep
    split <;> exact ⟨hagent, hcache, hflag⟩

/-- A certificate was found: the cache says so, or is about to. -/
def Tasks.Found (s : Tasks) : Prop :=
  s.isCertificateAvailableCache = true ∨ ∃ first, s.agent = .check first (.store true)

/-- It is found by reading it. -/
theorem findsCertificateNow_of_found {i : TaskId} {x : TaskInput} {s : Tasks} (hnot : ¬ s.Found)
    (h : (taskStep enc i x s).Found) : FindsCertificateNow enc i x s := by
  have hcache : s.isCertificateAvailableCache ≠ true := fun hset => hnot (Or.inl hset)
  have hstore : ∀ first, s.agent ≠ .check first (.store true) := fun first heq =>
    hnot (Or.inr ⟨first, heq⟩)
  cases i with
  | init =>
    refine absurd ?_ hnot
    rw [taskStep] at h
    unfold initStep at h
    split at h <;> exact h
  | agent =>
    rw [taskStep] at h
    unfold agentStep at h
    split at h
    · rcases h with h | ⟨first, h⟩
      · exact absurd h hcache
      · cases h
    · next first pc heq =>
      unfold checkStep at h
      split at h
      · rw [if_neg hcache] at h
        rcases h with h | ⟨first', h⟩
        · exact absurd h hcache
        · cases h
      · rcases h with h | ⟨first', h⟩
        · exact absurd h hcache
        · exact ⟨rfl, ⟨first, heq⟩, CheckPc.store.inj (AgentPc.check.inj h).2⟩
      · rcases h with h | ⟨first', h⟩
        · obtain rfl : _ = true := h
          exact absurd heq (hstore first)
        · cases h
      · rw [if_neg hcache] at h
        rcases h with h | ⟨first', h⟩
        · exact absurd h hcache
        · rcases first with - | -
          · cases h
          · cases h
    · rcases h with h | ⟨first, h⟩
      · exact absurd h hcache
      · cases h
    · rcases h with h | ⟨first, h⟩
      · exact absurd h hcache
      · cases h
    · rcases h with h | ⟨first, h⟩
      · exact absurd h hcache
      · cases h
    · rcases h with h | ⟨first, h⟩
      · exact absurd h hcache
      · cases h
    · exact absurd h hnot

theorem exists_findsCertificate {n : Nat}
    (h : (run (taskStep enc) who input (.start token) n).isCertificateAvailableCache = true) :
    ∃ m < n, FindsCertificateNow enc (who m) (input m)
      (run (taskStep enc) who input (.start token) m) := by
  have hstart : ¬ (Tasks.start token).Found := by
    rintro (h | ⟨first, h⟩) <;> cases h
  obtain ⟨m, hm, hnot, hfound⟩ := exists_cause hstart (P := Tasks.Found) (Or.inl h)
  exact ⟨m, hm, findsCertificateNow_of_found hnot hfound⟩

/-- **The secure element has one user.**  From the moment `aknano_init` goes on,
in whatever way the tasks are interleaved, the agent has stopped for good and
does not use the secure element again; its check has found a valid certificate
by then. -/
theorem secureElement_exclusive (enc : PemEncoder) (who : Nat → TaskId) (input : Nat → TaskInput)
    (token : Pkcs11) (n : Nat)
    (h : (run (taskStep enc) who input (.start token) n).init = .proceed) :
    (∀ m, n ≤ m → (run (taskStep enc) who input (.start token) m).agent = .stopped ∧
      ¬ (run (taskStep enc) who input (.start token) m).agent.UsesSecureElement) ∧
    ∃ m < n, FindsCertificateNow enc (who m) (input m)
      (run (taskStep enc) who input (.start token) m) := by
  have hinv : (run (taskStep enc) who input (.start token) n).Consistent := run_consistent n
  have hflag := hinv.proceeding h
  have hagent := hinv.flag.mp hflag
  have hcache := hinv.stopping (Or.inr hagent)
  refine ⟨fun m hle => ?_, exists_findsCertificate hcache⟩
  obtain ⟨hstopped, -, -⟩ := always_from (P := Tasks.Settled) ⟨hagent, hcache, hflag⟩
    (fun i x s hs => hs.step i x) hle
  refine ⟨hstopped, ?_⟩
  rw [hstopped]
  exact id

/-! ### A token that holds a certificate -/

/-- The tasks take turns. -/
def takeTurns (n : Nat) : TaskId := if n % 2 = 0 then .agent else .init

theorem takeTurns_fair : Fair takeTurns := by
  intro i n
  cases i with
  | agent => exact ⟨2 * n, by omega, if_pos (Nat.mul_mod_right 2 n)⟩
  | init => exact ⟨2 * n + 1, by omega, if_neg (by omega)⟩

/-- An encoder that puts dashes in front of the digits of the data. -/
def dashEncoder : PemEncoder where
  text data := List.replicate 200 0x2D ++ data.flatMap hex2
  clean data b hb := by
    rcases List.mem_append.mp hb with hb | hb
    · rw [List.eq_of_mem_replicate hb]
      decide
    · exact hexEncoder.clean data b hb
  injective data data' h := flatMap_hex2_injective (List.append_cancel_left h)
  write {n} data dst :=
    if 200 + (data.flatMap hex2).length < n then
      (0, dst.store (List.replicate 200 0x2D ++ data.flatMap hex2 ++ [0]))
    else (-0x2A, dst)
  status data dst dst' := by split <;> rfl
  writes {n} data dst h := by
    split at h
    · next hfits =>
      have hlen : (List.replicate 200 (0x2D : Byte) ++ data.flatMap hex2 ++ [0]).length ≤ n := by
        rw [List.length_append, List.length_append, List.length_replicate]
        exact hfits
      rw [if_pos hfits, CharArray.store_bytes_of_le hlen, List.append_assoc]
      exact ⟨_, rfl⟩
    · have hstatus : (-0x2A : Int) = 0 := h
      exact absurd hstatus (by decide)

/-- There is one object, of two bytes. -/
def heldToken : Pkcs11 :=
  { emptyToken with
    cFindObjects := fun _ => (ckrOk, some 1, 1)
    cGetAttributeLength := fun _ _ _ => (ckrOk, 2)
    cGetAttributeValue := fun _ _ _ _ => (ckrOk, 2, fun _ => 0x30) }

theorem secureElement_exclusive_turns :
    ∃ m < 16, FindsCertificateNow dashEncoder (takeTurns m) ⟨.zero _, heldToken⟩
      (run (taskStep dashEncoder) takeTurns (fun _ => ⟨.zero _, heldToken⟩) (.start heldToken) m) :=
  (secureElement_exclusive dashEncoder takeTurns (fun _ => ⟨.zero _, heldToken⟩) heldToken 16
    (by decide +kernel)).2

/-! ### Progress -/

/-- The agent has found a certificate and is on its way to the end. -/
def Tasks.Ending (s : Tasks) : Prop :=
  (∃ first, s.agent = .check first (.store true)) ∨
    (s.isCertificateAvailableCache = true ∧
      ((∃ first, s.agent = .check first .result) ∨ s.agent = .stop))

/-- How many steps of the agent are left. -/
def AgentPc.stepsToEnd : AgentPc → Nat
  | .check _ (.store _) => 3
  | .check _ .result => 2
  | .stop => 1
  | _ => 0

theorem Tasks.Ending.agentStep {s : Tasks} (h : s.Ending) (x : TaskInput) :
    (agentStep enc x s).Settled ∨
      (agentStep enc x s).Ending ∧ (agentStep enc x s).agent.stepsToEnd < s.agent.stepsToEnd := by
  unfold AktualizrNano.agentStep
  rcases h with ⟨first, heq⟩ | ⟨hcache, ⟨first, heq⟩ | heq⟩
  · rw [heq]
    exact Or.inr ⟨Or.inr ⟨rfl, Or.inl ⟨first, rfl⟩⟩, Nat.lt_succ_self 2⟩
  · rw [heq]
    right
    unfold checkStep
    dsimp only
    rw [if_pos hcache]
    exact ⟨Or.inr ⟨hcache, Or.inr rfl⟩, Nat.lt_succ_self 1⟩
  · rw [heq]
    exact Or.inl ⟨rfl, hcache, rfl⟩

/-- How many steps of the other task are left, once the agent has stopped. -/
def InitPc.stepsToEnd : InitPc → Nat
  | .begin => 3
  | .delay => 3
  | .lookUp => 2
  | .lookAtAgent => 1
  | .proceed => 0

theorem Tasks.Settled.initStep {s : Tasks} (h : s.Settled) :
    (initStep s).init = .proceed ∨ (initStep s).init.stepsToEnd < s.init.stepsToEnd := by
  obtain ⟨-, hcache, hflag⟩ := h
  unfold AktualizrNano.initStep
  rcases hinit : s.init with - | - | - | - | -
  · exact Or.inr (Nat.lt_succ_self 2)
  · dsimp only
    rw [if_pos hcache]
    exact Or.inr (Nat.lt_succ_self 1)
  · dsimp only
    rw [if_pos hflag]
    exact Or.inl rfl
  · exact Or.inr (Nat.lt_succ_self 2)
  · exact Or.inl hinit

/-- The other task does not hold the agent up. -/
theorem Tasks.Ending.others {s : Tasks} (h : s.Ending) {i : TaskId} (hi : i ≠ .agent)
    (x : TaskInput) :
    (taskStep enc i x s).Ending ∧ (taskStep enc i x s).agent.stepsToEnd ≤ s.agent.stepsToEnd := by
  cases i with
  | agent => exact absurd rfl hi
  | init =>
    rw [taskStep]
    unfold AktualizrNano.initStep
    split <;> exact ⟨h, le_rfl⟩

/-- Nor does a stopped agent the other task. -/
theorem Tasks.Settled.others {s : Tasks} (h : s.Settled) {i : TaskId} (hi : i ≠ .init)
    (x : TaskInput) :
    (taskStep enc i x s).Settled ∧ (taskStep enc i x s).init.stepsToEnd ≤ s.init.stepsToEnd := by
  refine ⟨h.step i x, ?_⟩
  cases i with
  | agent =>
    rw [taskStep]
    unfold AktualizrNano.agentStep
    rw [h.1]
  | init => exact absurd rfl hi

/-- A certificate that was found lets `aknano_init` go on. -/
theorem proceeds_of_finds (hfair : Fair who) {n : Nat}
    (h : FindsCertificateNow enc (who n) (input n) (run (taskStep enc) who input (.start token) n)) :
    ∃ m, (run (taskStep enc) who input (.start token) m).init = .proceed := by
  obtain ⟨hwho, ⟨first, hread⟩, hvalid⟩ := h
  have hending : (run (taskStep enc) who input (.start token) (n + 1)).Ending := by
    rw [run, hwho, taskStep, agentStep, hread]
    exact Or.inl ⟨first, by unfold checkStep; dsimp only; rw [hvalid]⟩
  obtain ⟨m, -, hsettled⟩ := eventually_of_rank (Q := Tasks.Settled) .agent
    (fun s => s.agent.stepsToEnd) hfair (fun i x s hi hs => hs.others hi x)
    (fun x s hs => hs.agentStep x) hending
  obtain ⟨m', -, hproceed⟩ := eventually_of_rank (Q := fun s => s.init = .proceed) .init
    (fun s => s.init.stepsToEnd) hfair (fun i x s hi hs => hs.others hi x)
    (fun x s hs => hs.initStep.imp id fun hlt => ⟨hs.step .init x, hlt⟩) hsettled
  exact ⟨m', hproceed⟩

/-- **Waiting ends exactly when there is something to wait for**: in a fair run
`aknano_init` goes on if and only if the agent finds a certificate at some
time. -/
theorem init_proceeds_iff (enc : PemEncoder) {who : Nat → TaskId} (hfair : Fair who)
    (input : Nat → TaskInput) (token : Pkcs11) :
    (∃ n, (run (taskStep enc) who input (.start token) n).init = .proceed) ↔
      ∃ n, FindsCertificateNow enc (who n) (input n)
        (run (taskStep enc) who input (.start token) n) := by
  constructor
  · rintro ⟨n, hproceed⟩
    have hinv : (run (taskStep enc) who input (.start token) n).Consistent := run_consistent n
    have hcache := hinv.stopping (Or.inr (hinv.flag.mp (hinv.proceeding hproceed)))
    obtain ⟨m, -, hfinds⟩ := exists_findsCertificate hcache
    exact ⟨m, hfinds⟩
  · rintro ⟨n, hfinds⟩
    exact proceeds_of_finds hfair hfinds

theorem init_proceeds_turns :
    ∃ n, FindsCertificateNow dashEncoder (takeTurns n) ⟨.zero _, heldToken⟩
      (run (taskStep dashEncoder) takeTurns (fun _ => ⟨.zero _, heldToken⟩) (.start heldToken) n) :=
  (init_proceeds_iff dashEncoder takeTurns_fair (fun _ => ⟨.zero _, heldToken⟩) heldToken).mp
    ⟨16, by decide +kernel⟩

end AktualizrNano
