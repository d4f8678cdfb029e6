/-
AktualizrNano/Interleaving.lean

Tasks that run on one processor and share a state.  At each moment the
scheduler picks a task, and that task makes its next step; what a step takes
from outside is an input of its own.  A run is a function of the schedule and
of the inputs, so a statement for every schedule and all inputs is one for
every interleaving.

A task never waits in this model: it loops and looks again.  So the only
fairness there is to assume is that every task is picked again and again
(`Fair`).  `always` is the induction for safety, `eventually_of_rank` the one
for progress: a measure that one task brings down and that no other raises.
-/
import Mathlib.Data.Nat.Find
import Mathlib.Order.Basic

namespace Interleaving

variable {ι ω σ : Type}

/-- The state at each moment. -/
def run (step : ι → ω → σ → σ) (who : Nat → ι) (input : Nat → ω) (s₀ : σ) : Nat → σ
  | 0 => s₀
  | n + 1 => step (who n) (input n) (run step who input s₀ n)

/-- Every task is picked again and again. -/
def Fair (who : Nat → ι) : Prop := ∀ i n, ∃ m, n ≤ m ∧ who m = i

variable {step : ι → ω → σ → σ} {who : Nat → ι} {input : Nat → ω} {s₀ : σ}

/-- **Safety**: what every step of every task keeps holds at all times. -/
theorem always {P : σ → Prop} (hstart : P s₀) (hstep : ∀ i x s, P s → P (step i x s))
    (n : Nat) : P (run step who input s₀ n) := by
  induction n with
  | zero => exact hstart
  | succ n ih => exact hstep _ _ _ ih

/-- The same, from some moment on. -/
theorem always_from {P : σ → Prop} {n : Nat} (hnow : P (run step who input s₀ n))
    (hstep : ∀ i x s, P s → P (step i x s)) {m : Nat} (hle : n ≤ m) :
    P (run step who input s₀ m) := by
  induction hle with
  | refl => exact hnow
  | step _ ih => exact hstep _ _ _ ih

/-- As long as a task is not picked, what the others keep stays. -/
theorem until_picked {P : σ → Prop} {i : ι} (hothers : ∀ j x s, j ≠ i → P s → P (step j x s))
    {n m : Nat} (hle : n ≤ m) (hnow : P (run step who input s₀ n))
    (hidle : ∀ k, n ≤ k → k < m → who k ≠ i) : P (run step who input s₀ m) := by
  induction hle with
  | refl => exact hnow
  | @step m hle ih =>
    have hP := ih fun k hk hkm => hidle k hk (Nat.lt_succ_of_lt hkm)
    exact hothers _ _ _ (hidle m hle (Nat.lt_succ_self m)) hP

/-- The first time a task is picked after a moment. -/
theorem exists_first_pick (hfair : Fair who) (i : ι) (n : Nat) :
    ∃ m, n ≤ m ∧ who m = i ∧ ∀ k, n ≤ k → k < m → who k ≠ i := by
  classical
  have hex : ∃ m, n ≤ m ∧ who m = i := hfair i n
  refine ⟨Nat.find hex, (Nat.find_spec hex).1, (Nat.find_spec hex).2, fun k hk hlt hpick => ?_⟩
  exact Nat.find_min hex hlt ⟨hk, hpick⟩

/-- **Progress**: task `i` brings the measure down until `Q` holds, the other
tasks do not raise it, and all of them keep `P` until then. -/
theorem eventually_of_rank {P Q : σ → Prop} (i : ι) (rank : σ → Nat) (hfair : Fair who)
    (hothers : ∀ j x s, j ≠ i → P s → P (step j x s) ∧ rank (step j x s) ≤ rank s)
    (hown : ∀ x s, P s → Q (step i x s) ∨ P (step i x s) ∧ rank (step i x s) < rank s)
    {n : Nat} (hnow : P (run step who input s₀ n)) :
    ∃ m, n ≤ m ∧ Q (run step who input s₀ m) := by
  generalize hk : rank (run step who input s₀ n) = k
  induction k using Nat.strongRecOn generalizing n with
  | ind k ih =>
    obtain ⟨m, hle, hpick, hidle⟩ := exists_first_pick hfair i n
    -- up to that moment the others have kept `P` and not raised the measure
    have hbefore : P (run step who input s₀ m) ∧ rank (run step who input s₀ m) ≤ k := by
      apply until_picked (P := fun s => P s ∧ rank s ≤ k) (i := i) _ hle ⟨hnow, hk.le⟩ hidle
      rintro j x s hj ⟨hP, hrank⟩
      obtain ⟨hP', hrank'⟩ := hothers j x s hj hP
      exact ⟨hP', hrank'.trans hrank⟩
    have hnext : run step who input s₀ (m + 1) = step i (input m) (run step who input s₀ m) := by
      rw [run, hpick]
    rcases hown (input m) _ hbefore.1 with hQ | ⟨hP, hlt⟩
    · exact ⟨m + 1, by omega, hnext ▸ hQ⟩
    · rw [← hnext] at hP hlt
      obtain ⟨m', hle', hQ⟩ := ih _ (hlt.trans_le hbefore.2) hP rfl
      exact ⟨m', by omega, hQ⟩

/-- What holds at the start or is brought about by a step was brought about at
some moment. -/
theorem exists_cause {P : σ → Prop} (hstart : ¬ P s₀) {n : Nat}
    (h : P (run step who input s₀ n)) :
    ∃ m < n, ¬ P (run step who input s₀ m) ∧ P (run step who input s₀ (m + 1)) := by
  induction n with
  | zero => exact absurd h hstart
  | succ n ih =>
    by_cases hn : P (run step who input s₀ n)
    · obtain ⟨m, hm, hcause⟩ := ih hn
      exact ⟨m, Nat.lt_succ_of_lt hm, hcause⟩
    · exact ⟨n, Nat.lt_succ_self n, hn, h⟩

end Interleaving
