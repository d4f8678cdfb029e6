/-
AktualizrNano/RunningMax.lean

A scan over a list that keeps the best value so far and may stop early.

A *judge* says of each item what it is, independently of the scan: it stops
the scan, it stops the scan unless its rank is beaten already (`fault`), it is
passed over, or it offers a value.  A value replaces the best one if its key
is strictly greater.  Which items have an effect therefore depends on the
running maximum; the results below say what comes out without it:

* `taken_eq_some_iff` — the item the result is taken from is the first of
  greatest key among the values that the live items offer, if that key is
  above the start;
* `live_eq_iff` — the live items are the longest prefix in which no item
  stops the scan, said in terms of the list alone;
* `scan_eq_of_perm` — if no two live items offer equal keys, their order does
  not matter.

Nothing here is about a particular program.
-/
import Mathlib.Data.List.Infix
import Mathlib.Order.Lattice

namespace RunningMax

/-- What an item is to a scan. -/
inductive Verdict (ρ α : Type*)
  | stop
  | fault (rank : ρ)
  | pass
  | take (value : α)

variable {ρ α β : Type*} [LinearOrder ρ] (key : α → ρ) (judge : β → Verdict ρ α)

/-- The best value after one item; `none` when the scan stops. -/
def Verdict.effect (best : α) : Verdict ρ α → Option α
  | .stop => none
  | .fault r => if r ≤ key best then some best else none
  | .pass => some best
  | .take a => some (if key a ≤ key best then best else a)

/-- The best value in the end. -/
def scan (best : α) : List β → α
  | [] => best
  | x :: xs =>
    match (judge x).effect key best with
    | none => best
    | some b => scan b xs

/-- The items the scan gets past. -/
def live (best : α) : List β → List β
  | [] => []
  | x :: xs =>
    match (judge x).effect key best with
    | none => []
    | some b => x :: live b xs

/-- The item the result was taken from, if it is not the start. -/
def taken (best : α) : List β → Option β
  | [] => none
  | x :: xs =>
    match (judge x).effect key best with
    | none => none
    | some b => (taken b xs).or (if key best < key b then some x else none)

/-! ### The outcome without the scan -/

/-- `r` is above the start and above every value that the items offer. -/
def Above (best : α) (xs : List β) (r : ρ) : Prop :=
  key best < r ∧ ∀ y ∈ xs, ∀ b, judge y = .take b → key b < r

/-- `x` is the first of greatest key above the start among the values that the
items offer. -/
def Tops (best : α) (xs : List β) (x : β) : Prop :=
  ∃ pre post a, xs = pre ++ x :: post ∧ judge x = .take a ∧ Above key judge best pre (key a) ∧
    ∀ y ∈ post, ∀ b, judge y = .take b → key b ≤ key a

/-- `x`, reached after the items of `pre`, stops the scan. -/
def Stops (best : α) (pre : List β) (x : β) : Prop :=
  judge x = .stop ∨ ∃ r, judge x = .fault r ∧ Above key judge best pre r

variable {key judge}

/-- What one item can do: leave the best value, which then beats whatever the
item offers, or replace it by a greater one. -/
theorem Verdict.effect_cases {best b : α} {v : Verdict ρ α} (h : v.effect key best = some b) :
    (b = best ∧ ∀ a, v = .take a → key a ≤ key best) ∨ (v = .take b ∧ key best < key b) := by
  cases v with
  | stop => cases h
  | fault r =>
    rw [effect] at h
    split at h
    · exact Or.inl ⟨(Option.some.inj h).symm, fun a ha => by cases ha⟩
    · cases h
  | pass => exact Or.inl ⟨(Option.some.inj h).symm, fun a ha => by cases ha⟩
  | take a =>
    obtain rfl := Option.some.inj h
    by_cases hle : key a ≤ key best
    · rw [if_pos hle]
      exact Or.inl ⟨rfl, by rintro _ ⟨⟩; exact hle⟩
    · rw [if_neg hle]
      exact Or.inr ⟨rfl, not_le.mp hle⟩

/-- An item stops the scan at `best` exactly when it has no effect there. -/
theorem Verdict.effect_eq_none_iff {best : α} {x : β} :
    (judge x).effect key best = none ↔ Stops key judge best [] x := by
  rcases hx : judge x with - | r | - | a <;> simp [effect, Stops, Above, hx]

/-- A step keeps the maximum. -/
theorem above_step {best b : α} {x : β} (h : (judge x).effect key best = some b)
    (xs : List β) (r : ρ) : Above key judge b xs r ↔ Above key judge best (x :: xs) r := by
  simp only [Above, List.forall_mem_cons]
  rcases Verdict.effect_cases h with ⟨rfl, hle⟩ | ⟨hx, hlt⟩
  · exact ⟨fun ⟨hb, hxs⟩ => ⟨hb, fun a ha => lt_of_le_of_lt (hle a ha) hb, hxs⟩,
      fun ⟨hb, _, hxs⟩ => ⟨hb, hxs⟩⟩
  · refine ⟨fun ⟨hb, hxs⟩ => ⟨lt_trans hlt hb, ?_, hxs⟩, fun ⟨_, hb, hxs⟩ => ⟨hb _ hx, hxs⟩⟩
    intro a ha
    obtain rfl := Verdict.take.inj (hx.symm.trans ha)
    exact hb

theorem stops_step {best b : α} {x : β} (h : (judge x).effect key best = some b)
    (xs : List β) (y : β) : Stops key judge b xs y ↔ Stops key judge best (x :: xs) y := by
  simp only [Stops, above_step h]

/-! ### The live items -/

theorem live_isPrefix (best : α) (xs : List β) : live key judge best xs <+: xs := by
  induction xs generalizing best with
  | nil => exact List.prefix_refl _
  | cons x xs ih =>
    rw [live]
    rcases (judge x).effect key best with - | b
    · exact List.nil_prefix
    · exact List.cons_prefix_cons.mpr ⟨rfl, ih b⟩

/-- **The live items, without the scan**: no item among them stops it, and the
next one, if there is one, does. -/
theorem live_eq_iff {best : α} {xs pre : List β} :
    live key judge best xs = pre ↔
      (∀ p x s, pre = p ++ x :: s → ¬ Stops key judge best p x) ∧
        (xs = pre ∨ ∃ x s, xs = pre ++ x :: s ∧ Stops key judge best pre x) := by
  induction xs generalizing best pre with
  | nil =>
    rw [live]
    constructor
    · rintro rfl
      exact ⟨by simp, Or.inl rfl⟩
    · rintro ⟨-, h | ⟨x, s, h, -⟩⟩
      · exact h
      · simp at h
  | cons y ys ih =>
    rw [live]
    rcases hy : (judge y).effect key best with - | b
    · -- the first item stops the scan
      have hstop := Verdict.effect_eq_none_iff.mp hy
      dsimp only
      constructor
      · rintro rfl
        exact ⟨by simp, Or.inr ⟨y, ys, rfl, hstop⟩⟩
      · rintro ⟨hpre, h⟩
        rcases pre with - | ⟨z, pre⟩
        · rfl
        · obtain rfl : y = z := by
            rcases h with h | ⟨x, s, h, -⟩
            · exact (List.cons.inj h).1
            · exact (List.cons.inj h).1
          exact absurd hstop (hpre [] y pre rfl)
    -- the first item is passed; behind it everything is said by `stops_step`
    · have hgo : ¬ Stops key judge best [] y := fun h => by
        rw [Verdict.effect_eq_none_iff.mpr h] at hy; cases hy
      dsimp only
      rcases pre with - | ⟨z, pre⟩
      · constructor
        · intro h; cases h
        · rintro ⟨-, h | ⟨x, s, h, hstop⟩⟩
          · cases h
          · obtain ⟨rfl, -⟩ := List.cons.inj h
            exact absurd hstop hgo
      · rw [List.cons.injEq, ih]
        constructor
        · rintro ⟨rfl, hpre, h⟩
          refine ⟨?_, ?_⟩
          · intro p x s hp
            rcases p with - | ⟨z, p⟩
            · obtain ⟨rfl, -⟩ := List.cons.inj hp
              exact hgo
            · obtain ⟨rfl, hp'⟩ := List.cons.inj hp
              rw [← stops_step hy]
              exact hpre p x s hp'
          · rcases h with rfl | ⟨x, s, rfl, hstop⟩
            · exact Or.inl rfl
            · exact Or.inr ⟨x, s, rfl, (stops_step hy _ _).mp hstop⟩
        · rintro ⟨hpre, h⟩
          obtain ⟨rfl, h'⟩ : y = z ∧ (ys = pre ∨
              ∃ x s, ys = pre ++ x :: s ∧ Stops key judge best (y :: pre) x) := by
            rcases h with h | ⟨x, s, h, hstop⟩
            · obtain ⟨rfl, rfl⟩ := List.cons.inj h
              exact ⟨rfl, Or.inl rfl⟩
            · obtain ⟨rfl, rfl⟩ := List.cons.inj h
              exact ⟨rfl, Or.inr ⟨x, s, rfl, hstop⟩⟩
          refine ⟨rfl, ?_, ?_⟩
          · intro p x s hp
            rw [stops_step hy]
            exact hpre (y :: p) x s (by rw [hp]; rfl)
          · simpa only [stops_step hy] using h'

/-- A scan with nothing to stop it gets past every item. -/
theorem live_eq_self {xs : List β} (h : ∀ x ∈ xs, judge x ≠ .stop ∧ ∀ r, judge x ≠ .fault r)
    (best : α) : live key judge best xs = xs := by
  refine live_eq_iff.mpr ⟨?_, Or.inl rfl⟩
  rintro p x s rfl (hstop | ⟨r, hfault, -⟩)
  · exact (h x (by simp)).1 hstop
  · exact (h x (by simp)).2 r hfault

/-! ### What is taken -/

theorem taken_eq_none_iff {best : α} {xs : List β} :
    taken key judge best xs = none ↔
      ∀ y ∈ live key judge best xs, ∀ a, judge y = .take a → key a ≤ key best := by
  induction xs generalizing best with
  | nil => simp [taken, live]
  | cons x xs ih =>
    rw [taken, live]
    rcases hx : (judge x).effect key best with - | b
    · simp
    · simp only [Option.or_eq_none_iff, ite_eq_right_iff, reduceCtorEq, imp_false,
        List.forall_mem_cons, ih]
      rcases Verdict.effect_cases hx with ⟨rfl, hle⟩ | ⟨htake, hlt⟩
      · exact ⟨fun h => ⟨hle, h.1⟩, fun h => ⟨h.2, lt_irrefl _⟩⟩
      · exact ⟨fun h => absurd hlt h.2, fun h => absurd hlt (not_lt.mpr (h.1 b htake))⟩

/-- **Where the result comes from**: the first of greatest key among the
values that the live items offer. -/
theorem taken_eq_some_iff {best : α} {xs : List β} {x : β} :
    taken key judge best xs = some x ↔ Tops key judge best (live key judge best xs) x := by
  induction xs generalizing best with
  | nil => simp [taken, live, Tops]
  | cons y ys ih =>
    rw [taken, live]
    rcases hy : (judge y).effect key best with - | b
    · simp [Tops]
    · simp only [Option.or_eq_some_iff, ih, Option.ite_none_right_eq_some, Option.some.injEq]
      constructor
      · rintro (⟨pre, post, a, hsplit, hx, habove, hpost⟩ | ⟨hnone, hlt, rfl⟩)
        · exact ⟨y :: pre, post, a, by rw [hsplit]; rfl, hx, (above_step hy _ _).mp habove, hpost⟩
        · -- the item itself, and nothing later
          obtain ⟨rfl, -⟩ | ⟨htake, -⟩ := Verdict.effect_cases hy
          · exact absurd hlt (lt_irrefl _)
          · exact ⟨[], _, b, rfl, htake, ⟨hlt, by simp⟩, taken_eq_none_iff.mp hnone⟩
      · rintro ⟨pre, post, a, hsplit, hx, habove, hpost⟩
        rcases pre with - | ⟨z, pre⟩
        · obtain ⟨rfl, rfl⟩ := List.cons.inj hsplit
          obtain ⟨rfl, hle⟩ | ⟨htake, hlt⟩ := Verdict.effect_cases hy
          · exact absurd habove.1 (not_lt.mpr (hle a hx))
          · obtain rfl := Verdict.take.inj (hx.symm.trans htake)
            exact Or.inr ⟨taken_eq_none_iff.mpr hpost, hlt, rfl⟩
        · obtain ⟨rfl, hsplit'⟩ := List.cons.inj hsplit
          exact Or.inl ⟨pre, post, a, hsplit', hx, (above_step hy _ _).mpr habove, hpost⟩

theorem scan_of_taken_none {best : α} {xs : List β} (h : taken key judge best xs = none) :
    scan key judge best xs = best := by
  induction xs generalizing best with
  | nil => rfl
  | cons y ys ih =>
    rw [taken] at h
    rw [scan]
    rcases hy : (judge y).effect key best with - | b
    · rfl
    · rw [hy] at h
      obtain ⟨hnone, hlt⟩ := Option.or_eq_none_iff.mp h
      obtain ⟨rfl, -⟩ | ⟨-, hlt'⟩ := Verdict.effect_cases hy
      · exact ih hnone
      · rw [if_pos hlt'] at hlt; cases hlt

/-- The result is what the taken item offers. -/
theorem judge_of_taken {best : α} {xs : List β} {x : β}
    (h : taken key judge best xs = some x) : judge x = .take (scan key judge best xs) := by
  induction xs generalizing best with
  | nil => cases h
  | cons y ys ih =>
    rw [taken] at h
    rw [scan]
    rcases hy : (judge y).effect key best with - | b
    · rw [hy] at h; cases h
    · rw [hy] at h
      rcases Option.or_eq_some_iff.mp h with h | ⟨hnone, hsome⟩
      · exact ih h
      · -- nothing was taken later, so the scan ends where it was
        obtain ⟨hlt, rfl⟩ : key best < key b ∧ y = x := by simpa using hsome
        obtain ⟨rfl, -⟩ | ⟨htake, -⟩ := Verdict.effect_cases hy
        · exact absurd hlt (lt_irrefl _)
        · exact htake.trans (congrArg Verdict.take (scan_of_taken_none hnone).symm)

/-- No live item offers more than the result. -/
theorem key_le_scan {best : α} {xs : List β} {y : β} (hy : y ∈ live key judge best xs) {a : α}
    (ha : judge y = .take a) : key a ≤ key (scan key judge best xs) := by
  rcases h : taken key judge best xs with - | x
  · rw [scan_of_taken_none h]
    exact taken_eq_none_iff.mp h y hy a ha
  · have hx := judge_of_taken h
    obtain ⟨pre, post, b, hsplit, hb, habove, hpost⟩ := taken_eq_some_iff.mp h
    obtain rfl := Verdict.take.inj (hb.symm.trans hx)
    rw [hsplit, List.mem_append, List.mem_cons] at hy
    rcases hy with hy | rfl | hy
    · exact le_of_lt (habove.2 y hy a ha)
    · rw [Verdict.take.inj (hb.symm.trans ha)]
    · exact hpost y hy a ha

/-- The order of the live items does not matter when no two of them offer
equal keys. -/
theorem scan_eq_of_perm {best : α} {xs ys : List β}
    (hperm : (live key judge best xs).Perm (live key judge best ys))
    (hdistinct : (live key judge best xs).Pairwise fun x y => ∀ a b, judge x = .take a →
      judge y = .take b → key a ≠ key b) :
    scan key judge best xs = scan key judge best ys := by
  rcases h : taken key judge best xs with - | x
  · have h' : taken key judge best ys = none := taken_eq_none_iff.mpr fun y hy =>
      taken_eq_none_iff.mp h y (hperm.mem_iff.mpr hy)
    rw [scan_of_taken_none h, scan_of_taken_none h']
  -- the item taken in one order is live in the other
  · have hx := judge_of_taken h
    have hmem : x ∈ live key judge best ys := by
      obtain ⟨pre, post, -, hsplit, -⟩ := taken_eq_some_iff.mp h
      exact hperm.mem_iff.mp (by rw [hsplit]; simp)
    have habove : key best < key (scan key judge best xs) := by
      obtain ⟨pre, post, a, -, ha, habove, -⟩ := taken_eq_some_iff.mp h
      rw [← Verdict.take.inj (ha.symm.trans hx)]
      exact habove.1
    -- the same item tops the other list: all others offer strictly less
    obtain ⟨pre, post, hsplit⟩ := List.append_of_mem hmem
    have hdistinct' := (hperm.pairwise_iff (by
      intro u v huv a b ha hb
      exact (huv b a hb ha).symm)).mp hdistinct
    rw [hsplit, List.pairwise_append, List.pairwise_cons] at hdistinct'
    obtain ⟨-, -, hcross⟩ := hdistinct'
    have hle : ∀ y ∈ live key judge best ys, ∀ b, judge y = .take b →
        key b ≤ key (scan key judge best xs) := fun y hy b hb =>
      key_le_scan (hperm.mem_iff.mpr hy) hb
    have htaken : taken key judge best ys = some x := by
      refine taken_eq_some_iff.mpr ⟨pre, post, _, hsplit, hx, ⟨habove, ?_⟩, ?_⟩
      · intro y hy b hb
        apply lt_of_le_of_ne (hle y (by rw [hsplit]; simp [hy]) b hb)
        exact hcross y hy x (List.mem_cons_self ..) b _ hb hx
      · exact fun y hy b hb => hle y (by rw [hsplit]; simp [hy]) b hb
    exact Verdict.take.inj (hx.symm.trans (judge_of_taken htaken))

end RunningMax
