/-
AktualizrNano/ReportOnce.lean

The outcome of an update is reported once, and truthfully.

A device owes a report from the moment an image is armed (`OwesReport`): it
will be on trial, and then either confirmed or taken back.  The first check-in
that succeeds behind that sends the event and saves the settings, and what they
say then leaves nothing to report (`Ends.completes`), in this boot and in all that
follow (`Settled.lifetime`).  Before it, the device only polls.

So the events of a whole life are the attempts at one (`lifetime_reportsOnce`).
If an attempt gets through it is the last.  The report says that the update was
successful exactly if in the end the device runs another version than the one
that was confirmed before.  Power and the flash work, as in `lifetime_recovers`,
and the bootloader makes an image permanent when it is asked to; a cut between
sending and saving is what would cause a second report.
-/
import AktualizrNano.Recovery

namespace AktualizrNano

open CLib NorFlash Outcome Trace Transcripts

variable {p : Platform} {e : Env}

/-! ### Events among the exchanges -/

/-- The exchanges that post an event. -/
def posts (xs : List Exchange) : List Exchange :=
  xs.filter fun x => x.request.method = ascii "POST"

/-- The events that were posted make a word of `L`. -/
def Posted (L : Language Exchange) (w w' : World) : Prop :=
  ∃ u, w'.net = u.reverse ++ w.net ∧ posts u ∈ L

section Posted

variable {L K : Language Exchange} {w w' w'' : World}

theorem Posted.trans (h : Posted L w w') (h' : Posted K w' w'') : Posted (L * K) w w'' := by
  obtain ⟨u, hnet, hu⟩ := h
  obtain ⟨v, hnet', hv⟩ := h'
  refine ⟨u ++ v, ?_, posts u, hu, posts v, hv, (List.filter_append u v).symm⟩
  rw [hnet', hnet, List.reverse_append, List.append_assoc]

/-- Polls are no events. -/
theorem Sends.posted (h : Sends (IsPoll p) w w') : Posted 1 w w' := by
  obtain ⟨new, hnet, hpolls⟩ := h
  refine ⟨new.reverse, by rw [List.reverse_reverse, hnet], List.filter_eq_nil_iff.mpr ?_⟩
  intro x hx hpost
  obtain ⟨method, path, body, s, hmethod, hasks⟩ := hpolls x (List.mem_reverse.mp hx)
  rw [hasks] at hpost
  exact hmethod (of_decide_eq_true hpost)

theorem Posted.sends (h : Posted L w w') (h' : Sends (IsPoll p) w' w'') : Posted L w w'' :=
  mul_one L ▸ h.trans h'.posted

theorem Sends.then_posted (h : Sends (IsPoll p) w w') (h' : Posted L w' w'') : Posted L w w'' :=
  one_mul L ▸ h.posted.trans h'

end Posted

/-- What attempts are. -/
theorem attempts_spec {P : Exchange → Prop} {n : Nat} {u : List Exchange} (h : u ∈ attempts P n) :
    (∀ x ∈ u, P x) ∧ u.length ≤ n ∧ ∀ x ∈ u.dropLast, x.reply.passed = false := by
  induction n generalizing u with
  | zero =>
    obtain rfl : u = [] := h
    exact ⟨nofun, le_rfl, nofun⟩
  | succ n ih =>
    rcases h with ⟨x, ⟨hx, -⟩, rfl⟩ | ⟨a, ha, b, hb, rfl⟩
    · exact ⟨fun y hy => List.mem_singleton.mp hy ▸ hx, Nat.succ_pos n, nofun⟩
    obtain ⟨hall, hlength, hfailed⟩ := ih hb
    rcases ha with rfl | ⟨x, ⟨hx, hlost⟩, rfl⟩
    · exact ⟨hall, hlength.trans n.le_succ, hfailed⟩
    · refine ⟨List.forall_mem_cons.mpr ⟨hx, hall⟩, Nat.succ_le_succ hlength, ?_⟩
      rcases b with - | ⟨z, b⟩
      · exact nofun
      · exact List.forall_mem_cons.mpr ⟨hlost, hfailed⟩

/-- **An event** that is sent. -/
theorem posted_sendEvent (s : Settings) (eventType : EventType) (newVersion : Version)
    (success : Bool) (w : World) :
    wp (aknanoSendEvent p e s eventType newVersion success)
      (fun _ w' => Posted (eventWords p e eventType newVersion success) w w')
      (fun _ _ => True) w := by
  have hone : ([] : List Exchange) ∈ (1 : Language Exchange) := rfl
  have hnil : [] ∈ eventWords p e eventType newVersion success * 1 :=
    nil_mem_mul_iff.mpr ⟨nil_mem_eventWords _ _ _, hone⟩
  refine wp_mono ((speaks_sendEvent s eventType newVersion success hone).said hnil w) ?_
    fun _ _ _ => trivial
  rintro _ w' ⟨u, hu, hnet⟩
  rw [mul_one] at hu
  have hposts : posts u = u := by
    refine List.filter_eq_self.mpr fun x hx => ?_
    obtain ⟨_, _, _, _, _, -, hasks⟩ := (attempts_spec hu).1 x hx
    rw [hasks]
    exact decide_eq_true rfl
  exact ⟨u, hnet, hposts.symm ▸ hu⟩

/-! ### What is owed -/

/-- A report is due, now or after the trial to come. -/
inductive OwesReport (p : Platform) (e : Env) (s : Stored) (b : Boot) : Prop
  | rolledBack (harmed : b.armed = none) (hfallback : b.fallback = none)
    (hconfirmed : s.confirmed = runningVersionOf b.running)
    (hrolledBack : s.indicatesRollback (runningVersionOf b.running) = true)
    (hinsists : Insists p e (runningVersionOf b.running) s.applied)
  | updated (harmed : b.armed = none) (hfallback : b.fallback = none)
    (hconfirmed : s.confirmed ≠ runningVersionOf b.running)
    (hclean : s.indicatesRollback (runningVersionOf b.running) = false)
    (hfits : runningVersionOf b.running ≤ 999999999)
    (hinsists : Insists p e (runningVersionOf b.running) 0)
  | onTrial (old : Version) (harmed : b.armed = none) (hfallback : b.fallback = some old)
    (happlied : s.applied = runningVersionOf b.running)
    (hconfirmed : s.confirmed = runningVersionOf old)
    (hunderWay : s.indicatesRollback (runningVersionOf old) = true)
    (hinsists : Insists p e (runningVersionOf b.running) 0)
    (hold : Insists p e (runningVersionOf old) s.applied)
  | armed (new : Version) (harmed : b.armed = some new) (hfallback : b.fallback = none)
    (happlied : s.applied = runningVersionOf new)
    (hconfirmed : s.confirmed = runningVersionOf b.running)
    (hunderWay : s.indicatesRollback (runningVersionOf b.running) = true)
    (hinsists : Insists p e (runningVersionOf new) 0)
    (hold : Insists p e (runningVersionOf b.running) s.applied)

/-- A reset carries it on. -/
theorem OwesReport.reset {s : Stored} {b : Boot} (h : OwesReport p e s b) :
    OwesReport p e s b.reset ∧ b.reset.armed = none := by
  cases h with
  | rolledBack harmed hfallback hconfirmed hrolledBack hinsists =>
    rw [show b.reset = b by rw [Boot.reset, harmed, hfallback]]
    exact ⟨.rolledBack harmed hfallback hconfirmed hrolledBack hinsists, harmed⟩
  | updated harmed hfallback hconfirmed hclean hfits hinsists =>
    rw [show b.reset = b by rw [Boot.reset, harmed, hfallback]]
    exact ⟨.updated harmed hfallback hconfirmed hclean hfits hinsists, harmed⟩
  | onTrial old harmed hfallback happlied hconfirmed hunderWay hinsists hold =>
    rw [show b.reset = ⟨b.active.other, old, none, some b.running, none⟩ by
      rw [Boot.reset, harmed, hfallback]]
    exact ⟨.rolledBack rfl rfl hconfirmed hunderWay hold, rfl⟩
  | armed new harmed hfallback happlied hconfirmed hunderWay hinsists hold =>
    rw [show b.reset = ⟨b.active.other, new, some b.running, some b.running, none⟩ by
      rw [Boot.reset, harmed]]
    exact ⟨.onTrial b.running rfl rfl happlied hconfirmed hunderWay hinsists hold, rfl⟩

/-- How the update ends in this boot: what the completion handler reports, and
what it leaves. -/
structure Ends (p : Platform) (e : Env) (s : Stored) (v : Version) : Prop where
  due : ¬ (s.indicatesRollback v = false ∧ s.confirmed = v)
  /-- the report is the truth -/
  truth : (!s.indicatesRollback v) = decide (v ≠ s.confirmed)
  confirmed : (s.load v).completed.confirmed = v
  applied_le : (s.load v).completed.applied ≤ 999999999
  running_le : v ≤ 999999999
  insists : Insists p e v (s.load v).completed.applied

theorem OwesReport.ends {s : Stored} {b : Boot} (h : OwesReport p e s b) (harmed : b.armed = none)
    (happlied : s.applied ≤ 999999999) (hconfirmed : s.confirmed ≤ 999999999) :
    Ends p e s (runningVersionOf b.running) := by
  have hfresh : s.indicatesRollback (runningVersionOf b.running) = false →
      s.confirmed ≠ runningVersionOf b.running → runningVersionOf b.running ≤ 999999999 →
      Insists p e (runningVersionOf b.running) 0 → Ends p e s (runningVersionOf b.running) := by
    intro hclean hother hfits hinsists
    have hrolledBack : (s.load (runningVersionOf b.running)).rolledBack = false := hclean
    refine ⟨fun h => hother h.2, ?_, ?_, ?_, hfits, ?_⟩
    · rw [hclean, decide_eq_true hother.symm]
      rfl
    · rw [Ram.completed, hrolledBack]
      rfl
    · rw [Ram.completed, hrolledBack]
      exact (by decide : (0 : Version) ≤ 999999999)
    · rw [Ram.completed, hrolledBack]
      exact hinsists
  cases h with
  | rolledBack _ _ hsame hflag hinsists =>
    have hrolledBack : (s.load (runningVersionOf b.running)).rolledBack = true := hflag
    refine ⟨fun h => absurd h.1 (by rw [hflag]; decide), ?_, ?_, ?_, hsame ▸ hconfirmed, ?_⟩
    · rw [hflag, decide_eq_false (not_not_intro hsame.symm)]
      rfl
    · rw [Ram.completed, hrolledBack]
      exact hsame
    · rw [Ram.completed, hrolledBack]
      exact happlied
    · rw [Ram.completed, hrolledBack]
      exact hinsists
  | updated _ _ hother hclean hfits hinsists => exact hfresh hclean hother hfits hinsists
  | onTrial old _ _ htried hold hunderWay hinsists _ =>
    obtain ⟨-, hdifferent, -⟩ := of_decide_eq_true hunderWay
    refine hfresh ?_ ?_ (htried ▸ happlied) hinsists
    · exact Bool.eq_false_iff.mpr fun hflag => (of_decide_eq_true hflag).2.1 htried
    · rw [hold, ← htried]
      exact hdifferent.symm
  | armed new hsome => exact absurd (harmed.symm.trans hsome) (Option.some_ne_none new).symm

/-! ### The completion -/

/-- The settings of a loop that has reported nothing so far. -/
structure Loaded (p : Platform) (s : Stored) (b : Boot) (x : Settings) : Prop where
  hwid : x.hwid = some (aknanoGetBoardName p)
  retryCount : x.rollbackRetryCount.slt 0 = false
  selfTest : x.applicationSelfTestOk = true
  ram : ramOf x false = s.load (runningVersionOf b.running)
  permanent : x.isImagePermanent = true → b.fallback = none

theorem Reconfigured.loaded {s : Stored} {b : Boot} {x x' : Settings} (h : Reconfigured x x')
    (hx : Loaded p s b x) : Loaded p s b x' := by
  obtain ⟨tag, n, rfl⟩ := h
  exact ⟨hx.hwid, hx.retryCount, hx.selfTest, hx.ram, hx.permanent⟩

/-- The event of the completion. -/
abbrev completionWords (p : Platform) (e : Env) (s : Stored) (b : Boot) : Language Exchange :=
  eventWords p e .installationCompleted 0 (decide (runningVersionOf b.running ≠ s.confirmed))

/-- The report was made, which led to `w₂`, and nothing has happened since. -/
structure Done (p : Platform) (e : Env) (w₁ w₂ : World) (x : Settings) (executedOnce : Bool)
    (w : World) : Prop where
  settled : Settled p e (storedOf p w₂.flash.mem) w₂.boot
  posted : Posted (completionWords p e (storedOf p w₁.flash.mem) w₂.boot) w₁ w₂
  wary : Wary p True (runningVersionOf w₂.boot.running) w₂ x executedOnce
  spared : Spared p True w₂.boot w₂ w

theorem endOfUpdate_retryCount {s : Settings} (h : s.rollbackRetryCount.slt 0 = false) :
    (endOfUpdate s).rollbackRetryCount.slt 0 = false := by
  unfold endOfUpdate
  dsimp only
  split
  · rfl
  · exact h

section Ends

variable {s : Stored} {b : Boot} {v : Version} {x : Settings}

/-- The completion handler has something to report. -/
theorem Ends.due_loaded (h : Ends p e s (runningVersionOf b.running)) (hx : Loaded p s b x) :
    ¬ (¬ x.isRunningRolledBackImage = true ∧ x.lastConfirmedVersion = x.runningVersion) := by
  rintro ⟨hgood, hreported⟩
  refine h.due ⟨?_, ?_⟩
  · exact (congrArg Ram.rolledBack hx.ram).symm.trans (Bool.eq_false_iff.mpr hgood)
  · exact (congrArg Ram.confirmed hx.ram).symm.trans
      (hreported.trans (congrArg Ram.running hx.ram))

theorem Ends.truth_loaded (h : Ends p e s (runningVersionOf b.running)) (hx : Loaded p s b x) :
    (!x.isRunningRolledBackImage) = decide (runningVersionOf b.running ≠ s.confirmed) := by
  rw [← h.truth]
  exact congrArg (fun r : Ram => !r.rolledBack) hx.ram

theorem Ends.applied_stored (h : Ends p e s v) :
    (s.load v).completed.stored.applied = (s.load v).completed.applied :=
  checkedVersion_eq_iff.mpr h.applied_le

/-- What it saves then leaves nothing to report. -/
theorem Ends.settled (h : Ends p e s v) (hrunning : runningVersionOf b.running = v)
    (harmed : b.armed = none) (hfallback : b.fallback = none) :
    Settled p e (s.load v).completed.stored b := by
  have hconfirmed : (s.load v).completed.stored.confirmed = v :=
    (congrArg checkedVersion h.confirmed).trans (checkedVersion_eq_iff.mpr h.running_le)
  refine ⟨harmed, hfallback, hconfirmed.trans hrunning.symm, ?_, ?_⟩
  · exact Bool.eq_false_iff.mpr fun hflag => Bool.false_ne_true (of_decide_eq_true hflag).2.2
  · rw [hrunning, h.applied_stored]
    exact h.insists

/-- **The completion handler** settles what was owed. -/
theorem Ends.completes (h : Ends p e s (runningVersionOf b.running)) (hx : Loaded p s b x)
    {w : World} (hrunning : w.boot.running = b.running) (harmed : w.boot.armed = none)
    (hfallback : w.boot.fallback = none) :
    wp (aknanoSendInstallationFinishedEvent p e x false)
      (fun r w' => r.2 = true ∧ Settled p e (storedOf p w'.flash.mem) w'.boot ∧
        Posted (completionWords p e s w'.boot) w w' ∧
        Wary p True (runningVersionOf w'.boot.running) w' r.1 true)
      (fun _ _ => False) w := by
  have hworks := h.insists.works
  unfold aknanoSendInstallationFinishedEvent
  rw [if_neg Bool.false_ne_true]
  dsimp only
  rw [if_neg (h.due_loaded hx)]
  refine (hworks.returns_sendEvent x .installationCompleted 0 _).wp_bind
    (wp_and (wp_and (talks_sendEvent x _ _ _ w) (aknanoSendEvent_spec x _ _ _ w))
      (wp_mono (posted_sendEvent (p := p) (e := e) x _ _ _ w) (fun _ _ hQ => hQ)
        fun _ _ _ => trivial)) ?_
  rintro ⟨sent, x₁⟩ w₁ ⟨⟨htalks, -, id, hx₁, -⟩, hposted⟩
  dsimp only at hx₁ ⊢
  subst hx₁
  have hram : ramOf (endOfUpdate { x with ongoingUpdateCorrelationId := id }) true
      = (s.load (runningVersionOf b.running)).completed :=
    (ramOf_endOfUpdate x id).trans (congrArg Ram.completed hx.ram)
  have hadvanced := endOfUpdate_advanced { x with ongoingUpdateCorrelationId := id }
  have hcount := endOfUpdate_retryCount (s := { x with ongoingUpdateCorrelationId := id })
    hx.retryCount
  have hplain := endOfUpdate_plain { x with ongoingUpdateCorrelationId := id }
  generalize endOfUpdate { x with ongoingUpdateCorrelationId := id } = x₂
    at hram hadvanced hcount hplain ⊢
  rw [wp_bind, during, wp_onError]
  refine wp_mono (wp_and (hworks.saveSettings (p := p) hplain w₁)
    (sends_onFlash (P := IsPoll p) _ w₁)) ?_ fun _ _ hE => hE.1
  rintro ret w₂ ⟨⟨hboot₂, hstored, -⟩, hsends⟩
  rw [wp_bind, wp_emit, wp_pure]
  dsimp only
  have hboot : w₂.boot = w.boot := hboot₂.trans htalks.stores.boot
  have hrun : runningVersionOf w₂.boot.running = runningVersionOf b.running := by
    rw [hboot, hrunning]
  rw [hram] at hstored
  have hsettled : Settled p e (storedOf p w₂.flash.mem) w₂.boot := by
    rw [hstored]
    exact h.settled hrun (hboot ▸ harmed) (hboot ▸ hfallback)
  refine ⟨rfl, hsettled, ?_, ⟨?_, ?_, ?_, ?_, hcount,
    fun _ hno => Bool.noConfusion hno⟩⟩
  · rw [completionWords, hrun, ← h.truth_loaded hx]
    exact hposted.sends hsends
  · exact hadvanced.hwid.trans hx.hwid
  · rw [hrun]
    exact congrArg Ram.running hram
  · rw [hstored, h.applied_stored]
    exact congrArg Ram.applied hram
  · rw [hrun]
    exact (congrArg Ram.confirmed hram).trans h.confirmed

end Ends

/-! ### A boot that owes a report -/

section Boot

variable {w₁ : World}

theorem OwesReport.handleRefreshed (h : OwesReport p e (storedOf p w₁.flash.mem) w₁.boot)
    (harmed : w₁.boot.armed = none) (hupdates : ∀ t, e.updateStatus t = 0) {c : Context}
    (hx : Loaded p (storedOf p w₁.flash.mem) w₁.boot c.settings)
    (hzero : c.selectedTarget = .zero) {userBuffer : List Byte}
    (hfresh : Refreshed e (userBuffer.takeWhile (· ≠ 0))) {w : World} (hpolls : Polls p w₁ w) :
    wp (AktualizrNano.handleRefreshed p e c false userBuffer)
      (fun r w' => (∃ w₂, Done p e w₁ w₂ r.1.settings r.2 w') ∧
        Declined r.1.settings.runningVersion r.1.settings.lastAppliedVersion r.1.selectedTarget)
      (fun _ _ => False) w := by
  have hends := h.ends harmed (checkedVersion_le _) (checkedVersion_le _)
  have hworks := hends.insists.works
  unfold AktualizrNano.handleRefreshed
  rw [wp_bind, wp_emit]
  dsimp only
  generalize hparsed : parseTargetsMetadata p.overflow _ _ _ _ = parsed
  obtain ⟨ret, selectedTarget⟩ := parsed
  rw [if_pos hx.selfTest, wp_bind]
  refine wp_mono (hworks.setImageConfirmed hupdates c.settings.isImagePermanent _) ?_
    fun _ _ hE => hE
  rintro isImagePermanent w₃ ⟨rfl, hboot₃, -, hnet₃⟩
  have hfallback₃ : w₃.boot.fallback = none := by
    rw [hboot₃]
    split
    · next hpermanent => exact (congrArg Boot.fallback hpolls.boot).trans (hx.permanent hpermanent)
    · rfl
  have hkept : w₃.boot.running = w₁.boot.running ∧ w₃.boot.armed = w₁.boot.armed := by
    rw [hboot₃, ← hpolls.boot]
    split <;> exact ⟨rfl, rfl⟩
  have hx₃ : Loaded p (storedOf p w₁.flash.mem) w₃.boot
      { c.settings with isImagePermanent := true } :=
    ⟨hx.hwid, hx.retryCount, hx.selfTest, hkept.1 ▸ hx.ram, fun _ => hfallback₃⟩
  have hsends₃ : Sends (IsPoll p) w₁ w₃ := hpolls.sends.trans (.of_eq hnet₃)
  rw [wp_bind]
  refine wp_mono ((hkept.1 ▸ hends).completes hx₃ rfl (hkept.2.trans harmed) hfallback₃) ?_
    fun _ _ hE => hE
  rintro ⟨x, executedOnce⟩ w₄ ⟨rfl, hsettled, hposted, hwary⟩
  rw [wp_pure]
  refine ⟨⟨w₄, hsettled, hsends₃.then_posted hposted, hwary, .start True w₄⟩, ?_⟩
  have hdeclined := hsettled.insists.declined hfresh c.settings.tag.str
  rw [← hx.hwid, ← hzero, hparsed] at hdeclined
  dsimp only at hwary ⊢
  rw [hwary.running, hwary.applied]
  exact hdeclined

theorem Done.still {w₂ w w' : World} {x : Settings} {executedOnce : Bool}
    (h : Done p e w₁ w₂ x executedOnce w) (hstill : Still w w') :
    Done p e w₁ w₂ x executedOnce w' :=
  ⟨h.settled, h.posted, h.wary, h.spared.still hstill⟩

/-- What is known of a boot, however it ends. -/
def Reports (p : Platform) (e : Env) (w₁ w : World) : Prop :=
  Polls p w₁ w ∨ Settled p e (storedOf p w.flash.mem) w.boot ∧
    Posted (completionWords p e (storedOf p w₁.flash.mem) w.boot) w₁ w

theorem Spared.reports {w₂ w : World} (h : Spared p True w₂.boot w₂ w)
    (hsettled : Settled p e (storedOf p w₂.flash.mem) w₂.boot)
    (hposted : Posted (completionWords p e (storedOf p w₁.flash.mem) w₂.boot) w₁ w₂) :
    Settled p e (storedOf p w.flash.mem) w.boot ∧
      Posted (completionWords p e (storedOf p w₁.flash.mem) w.boot) w₁ w := by
  obtain ⟨hsector, hsends⟩ := h.idle trivial
  rw [storedOf_congr hsector, h.boot]
  exact ⟨hsettled, hposted.sends hsends⟩

/-- Before the report, or behind it. -/
def AroundReport (p : Platform) (e : Env) (w₁ : World) (l : Loop) (w : World) : Prop :=
  (l.executedOnce = false ∧ Loaded p (storedOf p w₁.flash.mem) w₁.boot l.settings ∧
    Polls p w₁ w) ∨ ∃ w₂, Done p e w₁ w₂ l.settings l.executedOnce w

theorem AroundReport.still {l : Loop} {w w' : World} (h : AroundReport p e w₁ l w)
    (hstill : Still w w') : AroundReport p e w₁ l w' := by
  rcases h with ⟨honce, hx, hpolls⟩ | ⟨w₂, hdone⟩
  · exact Or.inl ⟨honce, hx, hpolls.trans hstill.polls⟩
  · exact Or.inr ⟨w₂, hdone.still hstill⟩

theorem AroundReport.reports {l : Loop} {w : World} (h : AroundReport p e w₁ l w) :
    Reports p e w₁ w := by
  rcases h with ⟨-, -, hpolls⟩ | ⟨w₂, hdone⟩
  · exact Or.inl hpolls
  · exact Or.inr (hdone.spared.reports hdone.settled hdone.posted)

/-- **An iteration** of such a boot. -/
theorem OwesReport.loopBody (h : OwesReport p e (storedOf p w₁.flash.mem) w₁.boot)
    (harmed : w₁.boot.armed = none) (hupdates : ∀ t, e.updateStatus t = 0)
    (startupEpoch : BitVec 64) {l : Loop} {w : World} (hl : AroundReport p e w₁ l w) :
    wp (AktualizrNano.loopBody p e startupEpoch l) (AroundReport p e w₁) (fun _ => Reports p e w₁)
      w := by
  have hends := h.ends harmed (checkedVersion_le _) (checkedVersion_le _)
  rcases hl with ⟨honce, hx, hpolls⟩ | ⟨w₂, hdone⟩
  · have hpolls : Polls p w₁ { w with log := .iteration :: w.log } :=
      hpolls.trans (.emit (fun _ => nofun : ∀ es, NotInstalling .iteration es) w)
    refine loopBody_rule (fun _ _ _ hl => hl.still) (fun _ _ hl => hl.reports) startupEpoch ?_
    rw [honce]
    refine wp_mono (hends.insists.works.checkin_rule
      (Q := fun r w' => (∃ w₂, Done p e w₁ w₂ r.1.settings r.2 w') ∧
        Declined r.1.settings.runningVersion r.1.settings.lastAppliedVersion r.1.selectedTarget)
      (fun _ _ _ hQ hstill => ⟨hQ.1.imp fun _ hdone => hdone.still hstill, hQ.2⟩) _ false
      (fun _ hnext => Or.inl (hpolls.trans hnext)) fun x userBuffer w' hreconfigured hfresh hnext =>
        wp_mono (h.handleRefreshed harmed hupdates (hreconfigured.loaded hx) rfl hfresh
          (hpolls.trans hnext)) (fun _ _ hQ => hQ) fun _ _ hE => hE.elim) ?_ fun _ _ hE => hE
    rintro ⟨checkinResult, c, executed⟩ w' hQ
    dsimp only at hQ ⊢
    split at hQ
    · obtain ⟨⟨w₂, hdone⟩, hdeclined⟩ := hQ
      exact ⟨fun _ => ⟨hdone.wary.retryCount, hdeclined⟩, fun _ => Or.inr ⟨w₂, hdone⟩⟩
    · next hfailed =>
      obtain ⟨hreconfigured, rfl, hnext⟩ := hQ
      exact ⟨fun hok => absurd hok hfailed, fun _ =>
        Or.inl ⟨rfl, hreconfigured.loaded hx, hpolls.trans hnext⟩⟩
  · refine wp_mono (hdone.settled.insists.loopBody rfl hdone.settled.confirmed
      hdone.settled.fallback startupEpoch ⟨hdone.wary, hdone.spared⟩) ?_ fun _ _ hspared =>
        Or.inr (hspared.reports hdone.settled hdone.posted)
    rintro l' w' ⟨hwary, hspared⟩
    exact Or.inr ⟨w₂, hdone.settled, hdone.posted, hwary, hspared⟩

/-- **A boot** of a device that owes a report. -/
theorem OwesReport.bootOnce (hupdates : ∀ t, e.updateStatus t = 0) {w : World}
    (h : OwesReport p e (storedOf p w.powered.flash.mem) w.powered.boot)
    (harmed : w.powered.boot.armed = none) (n : Nat) :
    Reports p e w.powered (final (AktualizrNano.bootOnce p e n) w) := by
  have hends := h.ends harmed (checkedVersion_le _) (checkedVersion_le _)
  refine bootOnce_rule (fun _ hstill => Or.inl hstill.polls) (fun w' hstill => ?_)
    (fun startupEpoch _ _ hl => h.loopBody harmed hupdates startupEpoch hl)
    (fun _ _ _ hl => hl.still) (fun _ _ hl => hl.reports) n
  refine wp_mono (wp_and (hends.insists.works.init w') (polls_init w')) ?_ fun _ _ hE =>
    Or.inl (hstill.polls.trans hE.2)
  rintro x w₂ ⟨hstarted, hhwid, hcount, hpolls⟩
  have hsame : w'.boot = w.powered.boot ∧ w'.flash = w.powered.flash := by
    rw [hstill]
    exact ⟨rfl, rfl⟩
  have hram := hstarted.ram
  rw [hsame.1, hsame.2] at hram
  exact Or.inl ⟨rfl, ⟨hhwid, hcount, rfl, hram, fun hpermanent =>
    hsame.1 ▸ hstarted.permanent hpermanent⟩, hstill.polls.trans hpolls⟩

end Boot

/-! ### The life of a device -/

theorem OwesReport.lifetime (hupdates : ∀ t, e.updateStatus t = 0) (boots : List Nat) {w : World}
    (h : OwesReport p e (storedOf p w.flash.mem) w.boot) :
    Posted (completionWords p e (storedOf p w.flash.mem) (AktualizrNano.lifetime p e boots w).boot)
      w (AktualizrNano.lifetime p e boots w) := by
  induction boots generalizing w with
  | nil => exact ⟨[], rfl, nil_mem_eventWords _ _ _⟩
  | cons n boots ih =>
    obtain ⟨hpowered, harmed⟩ := h.reset
    have hboot := OwesReport.bootOnce (w := w) hupdates hpowered harmed n
    generalize hw' : final (AktualizrNano.bootOnce p e n) w = w' at hboot
    have hlifetime : AktualizrNano.lifetime p e (n :: boots) w
        = AktualizrNano.lifetime p e boots w' := by
      rw [← hw']
      rfl
    rw [hlifetime]
    have hnet : Sends (IsPoll p) w w.powered := .of_eq rfl
    rcases hboot with hpolls | ⟨hsettled, hposted⟩
    · have hstored : storedOf p w'.flash.mem = storedOf p w.flash.mem :=
        storedOf_congr hpolls.sector
      have hrest := ih (w := w') (by rw [hstored, hpolls.boot]; exact hpowered)
      rw [hstored] at hrest
      exact (hnet.trans hpolls.sends).then_posted hrest
    · exact hnet.then_posted
        ((hsettled.lifetime boots (.start True w')).reports hsettled hposted).2

/-- **The outcome of an update is reported once.**  From the moment an image is
armed, or of any device that has an outcome left to report, the events of its
whole life are the attempts at one completion: at most as many as there are
retries, and behind one that gets through there is none.  It reports success
exactly if in the end the device runs another version than the one that was
confirmed before. -/
theorem lifetime_reportsOnce {w : World} (h : OwesReport p e (storedOf p w.flash.mem) w.boot)
    (hupdates : ∀ t, e.updateStatus t = 0) (boots : List Nat) :
    ∃ said, (lifetime p e boots w).net = said.reverse ++ w.net ∧
      (∀ x ∈ posts said, PostsEvent p e .installationCompleted 0
        (decide (runningVersionOf (lifetime p e boots w).boot.running
          ≠ (storedOf p w.flash.mem).confirmed)) x) ∧
      (posts said).length ≤ aknanoEventSendingRetries ∧
      ∀ x ∈ (posts said).dropLast, x.reply.passed = false := by
  obtain ⟨said, hnet, hsaid⟩ := h.lifetime hupdates boots
  exact ⟨said, hnet, attempts_spec hsaid⟩

/-- Version 7 has been installed, and is offered on and on. -/
theorem lifetime_reportsOnce_seven :
    ∃ said, (lifetime .sample .cooperating [1, 0, 2]
          (lifetime .sample .cooperating [1] (.factory 5))).net
        = said.reverse ++ (lifetime .sample .cooperating [1] (.factory 5)).net ∧
      (posts said).length ≤ 5 ∧ ∀ x ∈ (posts said).dropLast, x.reply.passed = false := by
  have hworks := Env.cooperating_spec.works
  obtain ⟨hboot, hstored⟩ := Env.cooperating_armed
  generalize lifetime .sample .cooperating [1] (.factory 5) = w at hboot hstored ⊢
  have howes : OwesReport .sample .cooperating (storedOf .sample w.flash.mem) w.boot := by
    rw [hboot, hstored]
    refine .armed 7 rfl rfl rfl rfl rfl ⟨hworks, fun _ _ hfresh hoffered => Or.inr ?_⟩
      ⟨hworks, fun _ _ hfresh hoffered => Or.inl (Env.cooperating_offers hfresh hoffered)⟩
    rw [Env.cooperating_offers hfresh hoffered]
    decide
  obtain ⟨said, hnet, -, hlength, hfailed⟩ :=
    lifetime_reportsOnce howes Env.cooperating_spec.updates [1, 0, 2]
  exact ⟨said, hnet, hlength, hfailed⟩

end AktualizrNano
