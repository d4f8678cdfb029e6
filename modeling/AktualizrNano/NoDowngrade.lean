/-
AktualizrNano/NoDowngrade.lean

Versions go up.  Nothing is assumed of the device here: settings may be lost,
calls may fail and power may be cut anywhere, in the middle of an installation
as well.  What carries the result is the order of three versions: the image to
fall back to is below the running one, and the image that is armed above it.
-/
import AktualizrNano.Lifetime

namespace AktualizrNano

open CLib Trace

/-- The version that is permanent after a step that may change it. -/
def Event.permanent? : Event → Option Version
  | .reset _ permanent => some permanent
  | .confirmed _ _ permanent => some permanent
  | _ => none

/-- What was refreshed before is not of the current iteration any more. -/
def Event.StartsOver : Event → Prop
  | .reset _ _ => True
  | .iteration => True
  | _ => False

/-- `tuf_refresh` has succeeded with these metadata, in this iteration. -/
def RefreshedHere (e : Env) (metadata : List Byte) : List Event → Prop :=
  Since (fun ev _ => ev = .refreshed metadata ∧ Refreshed e metadata) Event.StartsOver

theorem refreshedHere_iff {e : Env} {metadata : List Byte} {es : List Event} :
    RefreshedHere e metadata es ↔ Refreshed e metadata ∧ ∃ newer older,
      es = newer ++ .refreshed metadata :: older ∧ ∀ ev ∈ newer, ¬ ev.StartsOver := by
  rw [RefreshedHere, since_iff]
  constructor
  · rintro ⟨newer, ev, older, hes, ⟨rfl, hfresh⟩, hnewer⟩
    exact ⟨hfresh, newer, older, hes, hnewer⟩
  · rintro ⟨hfresh, newer, older, hes, hnewer⟩
    exact ⟨newer, _, older, hes, ⟨rfl, hfresh⟩, hnewer⟩

/-- `UINT_MAX` stands for no build number. -/
abbrev noBuildNum : Version := 0xFFFFFFFF

/-- The versions the bootloader knows are in order. -/
structure Ordered (b : Boot) : Prop where
  running : b.running ≠ noBuildNum
  fallback : ∀ u, b.fallback = some u → u < b.running
  armed : ∀ v, b.armed = some v → b.running < v ∧ v ≠ noBuildNum

namespace Ordered

variable {b : Boot}

/-- A version below another one is not the highest of all. -/
theorem ne_of_lt {u v : Version} (h : u < v) : u ≠ noBuildNum := by
  rintro rfl
  exact BitVec.not_le.mpr h (BitVec.le_def.mpr (Nat.le_pred_of_lt v.isLt))

theorem permanent_le_running (h : Ordered b) : b.permanent ≤ b.running := by
  unfold Boot.permanent
  rcases hf : b.fallback with - | u
  · exact BitVec.le_refl _
  · exact BitVec.le_of_lt (h.fallback u hf)

/-- **A reset** keeps the order, and what is permanent does not go down. -/
theorem reset (h : Ordered b) : Ordered b.reset ∧ b.permanent ≤ b.reset.permanent := by
  rcases b.reset_cases with ⟨v, harmed, -, hreset⟩ | ⟨u, -, hfallback, -, hreset⟩ |
    ⟨-, -, -, hreset⟩
  · -- the running image becomes the one to fall back to
    obtain ⟨hlt, hne⟩ := h.armed v harmed
    rw [hreset]
    refine ⟨⟨hne, ?_, nofun⟩, h.permanent_le_running⟩
    rintro u ⟨⟩
    exact hlt
  · have hpermanent : b.permanent = u := by rw [Boot.permanent, hfallback]; rfl
    rw [hreset, hpermanent]
    exact ⟨⟨ne_of_lt (h.fallback u hfallback), nofun, nofun⟩, BitVec.le_refl _⟩
  · rw [hreset]
    exact ⟨h, BitVec.le_refl _⟩

theorem confirm (h : Ordered b) : Ordered b.confirm := ⟨h.running, nofun, h.armed⟩

/-- Arming an image that is newer than the running one. -/
theorem arm {v : Version} (h : Ordered b) (hheld : b.inactive = some v) (hlt : b.running < v)
    (hne : v ≠ noBuildNum) : Ordered b.arm := by
  refine ⟨h.running, h.fallback, fun v' hv' => ?_⟩
  obtain rfl : v = v' := Option.some.inj (hheld.symm.trans hv')
  exact ⟨hlt, hne⟩

end Ordered

/-- What each point of an iteration rests on. -/
def Task.Justified (e : Env) (b : Boot) (es : List Event) : Task → Prop
  | .refreshed metadata _ => RefreshedHere e metadata es
  | .downloading target => b.running < target.version ∧ target.version ≠ noBuildNum
  | .fetched target => b.running < target.version ∧ target.version ≠ noBuildNum
  | _ => True

/-- **The invariant.**  `first` is what was permanent at the start. -/
structure NoDowngrade (e : Env) (first : Version) (es : List Event) (m : Machine) : Prop where
  ordered : Ordered m.boot
  monotone : (m.boot.permanent :: (es.filterMap Event.permanent? ++ [first])).Pairwise (· ≥ ·)
  awake : ∀ ram task, m.phase = .awake ram task →
    ram.running = m.boot.running ∧ task.Justified e m.boot es

/-- No build number is `UINT_MAX`. -/
def Event.IsBuild : Event → Prop
  | .install target _ => target.version ≠ noBuildNum
  | _ => True

section Step

variable {p : Platform} {e : Env} {first : Version} {es : List Event} {m m' : Machine} {ev : Event}

theorem pairwise_grow {a a' : Version} {l : List Version} (h : (a :: l).Pairwise (· ≥ ·))
    (hle : a ≤ a') : (a' :: l).Pairwise (· ≥ ·) := by
  obtain ⟨ha, hl⟩ := List.pairwise_cons.mp h
  exact List.pairwise_cons.mpr ⟨fun b hb => BitVec.le_trans (ha b hb) hle, hl⟩

/-- A step that can change what is permanent says so. -/
theorem step_permanent (hord : Ordered m.boot) (hstep : Step p e m ev m') :
    ev.permanent? = none ∧ m'.boot.permanent = m.boot.permanent ∨
      ev.permanent? = some m'.boot.permanent ∧ m.boot.permanent ≤ m'.boot.permanent := by
  cases hstep with
  | reset hfree => exact Or.inr ⟨rfl, hord.reset.2⟩
  | @confirmed _ b _ _ _ ok hboot =>
    refine Or.inr ⟨rfl, ?_⟩
    rw [hboot]
    cases ok with
    | true => exact hord.permanent_le_running
    | false => exact BitVec.le_refl _
  | @readyForTest _ b _ _ ok hheld =>
    refine Or.inl ⟨rfl, ?_⟩
    cases ok with
    | true => rfl
    | false => rfl
  | loaded hrunning hread => exact Or.inl ⟨rfl, rfl⟩
  | iteration hfree => exact Or.inl ⟨rfl, rfl⟩
  | refreshed hfresh => exact Or.inl ⟨rfl, rfl⟩
  | settled => exact Or.inl ⟨rfl, rfl⟩
  | completed => exact Or.inl ⟨rfl, rfl⟩
  | install => exact Or.inl ⟨rfl, rfl⟩
  | downloaded => exact Or.inl ⟨rfl, rfl⟩
  | installed => exact Or.inl ⟨rfl, rfl⟩
  | cut => exact Or.inl ⟨rfl, rfl⟩

/-- An event that does not start over leaves a refresh in force. -/
theorem RefreshedHere.next {metadata : List Byte} (h : RefreshedHere e metadata es)
    (hev : ¬ ev.StartsOver) : RefreshedHere e metadata (ev :: es) := Or.inr ⟨hev, h⟩

/-- The record of permanent versions after a step. -/
theorem NoDowngrade.monotone_step (h : NoDowngrade e first es m) (hstep : Step p e m ev m') :
    (m'.boot.permanent :: ((ev :: es).filterMap Event.permanent? ++ [first])).Pairwise
      (· ≥ ·) := by
  rcases step_permanent h.ordered hstep with ⟨hnone, heq⟩ | ⟨hsome, hle⟩
  · rw [List.filterMap_cons_none hnone, heq]
    exact h.monotone
  · rw [List.filterMap_cons_some hsome]
    have hgrown := pairwise_grow h.monotone hle
    refine List.pairwise_cons.mpr ⟨fun v hv => ?_, hgrown⟩
    rcases List.mem_cons.mp hv with rfl | hv
    · exact BitVec.le_refl _
    · exact (List.pairwise_cons.mp hgrown).1 v hv

theorem NoDowngrade.of_awake {s : Stored} {b : Boot} {ram : Ram} {task : Task} (hord : Ordered b)
    (hmono : (b.permanent :: (es.filterMap Event.permanent? ++ [first])).Pairwise (· ≥ ·))
    (hrunning : ram.running = b.running) (hjustified : task.Justified e b es) :
    NoDowngrade e first es ⟨s, b, .awake ram task⟩ := by
  refine ⟨hord, hmono, ?_⟩
  rintro _ _ ⟨⟩
  exact ⟨hrunning, hjustified⟩

/-- **One step.** -/
theorem NoDowngrade.step (h : NoDowngrade e first es m) (hbuild : ev.IsBuild)
    (hstep : Step p e m ev m') : NoDowngrade e first (ev :: es) m' := by
  have hmono := h.monotone_step hstep
  have hord := h.ordered
  cases hstep with
  | reset hfree => exact ⟨hord.reset.1, hmono, nofun⟩
  | loaded hrunning hread =>
    exact .of_awake hord hmono (hrunning.trans (if_neg hord.running)) trivial
  | iteration hfree =>
    -- what was refreshed before is not needed any more
    exact .of_awake hord hmono (h.awake _ _ rfl).1 trivial
  | refreshed hfresh => exact .of_awake hord hmono (h.awake _ _ rfl).1 (Or.inl ⟨rfl, hfresh⟩)
  | @confirmed s b b' ram metadata ok hboot =>
    obtain ⟨hrunning, hjustified⟩ := h.awake _ _ rfl
    cases ok with
    | true =>
      subst hboot
      exact .of_awake hord.confirm hmono hrunning (RefreshedHere.next hjustified id)
    | false =>
      subst hboot
      exact .of_awake hord hmono hrunning (RefreshedHere.next hjustified id)
  | settled =>
    obtain ⟨hrunning, hjustified⟩ := h.awake _ _ rfl
    exact .of_awake hord hmono hrunning (RefreshedHere.next hjustified id)
  | completed =>
    obtain ⟨hrunning, hjustified⟩ := h.awake _ _ rfl
    exact .of_awake hord hmono hrunning (RefreshedHere.next hjustified id)
  | install hperm hfinished hoffered hnewer hother =>
    obtain ⟨hrunning, -⟩ := h.awake _ _ rfl
    exact .of_awake hord hmono hrunning ⟨hrunning ▸ hnewer, hbuild⟩
  | @downloaded s b ram target ok =>
    obtain ⟨hrunning, hjustified⟩ := h.awake _ _ rfl
    have hord' : Ordered { b with inactive := if ok then some target.version else none } :=
      ⟨hord.running, hord.fallback, hord.armed⟩
    cases ok with
    | true => exact .of_awake hord' hmono hrunning hjustified
    | false => exact .of_awake hord' hmono hrunning trivial
  | @readyForTest s b ram target ok hheld =>
    obtain ⟨hrunning, hlt, hne⟩ := h.awake _ _ rfl
    cases ok with
    -- the slot holds the version that was found to be above the running one
    | true => exact .of_awake (hord.arm hheld hlt hne) hmono hrunning trivial
    | false => exact .of_awake hord hmono hrunning trivial
  | @installed s s' b ram target armed saved hsaved =>
    cases armed with
    | true => exact ⟨hord, hmono, nofun⟩
    | false => exact .of_awake hord hmono (h.awake _ _ rfl).1 trivial
  | cut => exact ⟨hord, hmono, nofun⟩

end Step

variable {p : Platform} {e : Env} {w : World}

theorem NoDowngrade.start (hstart : StartsPermanent w) (hrunning : w.boot.running ≠ noBuildNum) :
    NoDowngrade e w.boot.permanent [] (machineOf p w) := by
  have hord : Ordered w.boot := by
    refine ⟨hrunning, ?_, ?_⟩
    · rw [hstart.fallback]
      exact nofun
    · rw [hstart.armed]
      exact nofun
  exact ⟨hord, List.pairwise_pair.mpr (BitVec.le_refl _), nofun⟩

/-- **Versions go up.**  On a device that starts from a permanent image, in
every life of it: an installation is of a version above the running one, taken
from metadata that were refreshed in the same iteration; an image is confirmed
only after such a refresh; and the version that is permanent never decreases. -/
theorem lifetime_noDowngrade (boots : List Nat) (hstart : StartsPermanent w)
    (hrunning : w.boot.running ≠ noBuildNum)
    (hbuild : ∀ ev ∈ (lifetime p e boots w).log, ev.IsBuild) :
    (∀ newer target running older,
      (lifetime p e boots w).log = newer ++ .install target running :: older →
        running < target.version ∧
          ∃ metadata, RefreshedHere e metadata older ∧ Offered p e metadata target) ∧
    (∀ newer ok onTrial permanent older,
      (lifetime p e boots w).log = newer ++ .confirmed ok onTrial permanent :: older →
        ∃ metadata, RefreshedHere e metadata older) ∧
    ((lifetime p e boots w).boot.permanent ::
      ((lifetime p e boots w).log.filterMap Event.permanent? ++ [w.boot.permanent])).Pairwise
        (· ≥ ·) := by
  obtain ⟨phase, hrun⟩ := lifetime_run (p := p) (e := e) boots hstart.new
  have hinv : ∀ {es m}, Run (Step p e) (machineOf p w) es m → (∀ ev ∈ es, ev.IsBuild) →
      NoDowngrade e w.boot.permanent es m := fun hrun hes =>
    hrun.invariant (NoDowngrade.start hstart hrunning) NoDowngrade.step hes
  refine ⟨?_, ?_, (hinv hrun hbuild).monotone⟩
  · intro newer target running older hlog
    rw [hlog] at hrun hbuild
    obtain ⟨m₁, m₂, hrun₁, hstep⟩ := hrun.split
    have h₁ := hinv hrun₁ fun ev hev => hbuild ev (by simp [hev])
    cases hstep with
    | install hperm hfinished hoffered hnewer hother =>
      exact ⟨hnewer, _, (h₁.awake _ _ rfl).2, hoffered⟩
  · intro newer ok onTrial permanent older hlog
    rw [hlog] at hrun hbuild
    obtain ⟨m₁, m₂, hrun₁, hstep⟩ := hrun.split
    have h₁ := hinv hrun₁ fun ev hev => hbuild ev (by simp [hev])
    cases hstep with
    | confirmed hboot => exact ⟨_, (h₁.awake _ _ rfl).2⟩

/-- In the life of `offering_log`. -/
theorem lifetime_noDowngrade_offering :
    (∃ metadata, RefreshedHere .offering metadata (offeringLog.drop 5) ∧
      Offered .sample .offering metadata ⟨3, 9, ⟨List.replicate 32 0xAA, rfl⟩⟩) ∧
    (offeringLog.filterMap Event.permanent? ++ [5]).Pairwise (· ≥ ·) := by
  have hbuild : ∀ ev ∈ (lifetime .sample .offering [1, 0, 1, 0] (.factory 5)).log,
      ev.IsBuild := by
    rw [offering_log]
    simp [offeringLog, Event.IsBuild]
  obtain ⟨hinstall, -, hmono⟩ := lifetime_noDowngrade [1, 0, 1, 0] (startsPermanent_factory 5)
    (by decide) hbuild
  rw [offering_log] at hinstall hmono
  exact ⟨(hinstall (offeringLog.take 4) _ 5 (offeringLog.drop 5) rfl).2, hmono.tail⟩

end AktualizrNano
