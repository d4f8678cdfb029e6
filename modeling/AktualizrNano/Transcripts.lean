/-
AktualizrNano/Transcripts.lean

What a program says, as a language.  The state keeps a record of letters,
newest first; a grammar is a `Language` over the letters; and a program can be
stopped at any moment, so what it has said by then must be a word as well.

`Expects G R u` is the bookkeeping of a parser: `u` is a word of `G`, and so is
`u` with any word of `R` behind it.  `Speaks record x A B` is the triple made of
it: started where the words of `A` are expected, `x` returns where those of `B`
are.  A procedure that says a word of `L` has the triple
`Speaks record x (L * R) fun _ => R` for every rest `R` that may be left out, and
so its calls compose by `Speaks.bind` alone.  Languages and their operations are
Mathlib's.
-/
import AktualizrNano.Outcome
import Mathlib.Computability.MyhillNerode
import Mathlib.Order.CompletePartialOrder

namespace Transcripts

open Outcome
open scoped Computability

variable {α : Type}

/-! ### Languages -/

/-- The words of one letter that satisfies `P`. -/
def letter (P : α → Prop) : Language α := fun u => ∃ x, P x ∧ u = [x]

variable {G R A B K L : Language α} {P : α → Prop} {u v : List α} {x : α}

theorem mem_letter (h : P x) : [x] ∈ letter P := ⟨x, h, rfl⟩

@[simp] theorem nil_mem_mul_iff : [] ∈ L * R ↔ [] ∈ L ∧ [] ∈ R := by
  constructor
  · rintro ⟨a, ha, b, hb, hnil⟩
    obtain ⟨rfl, rfl⟩ := List.append_eq_nil_iff.mp hnil
    exact ⟨ha, hb⟩
  · rintro ⟨hL, hR⟩
    exact ⟨[], hL, [], hR, rfl⟩

/-- Something optional in front. -/
theorem nil_mem_optional (h : [] ∈ R) : [] ∈ (1 + L) * R :=
  nil_mem_mul_iff.mpr ⟨Or.inl rfl, h⟩

/-- What may be left out. -/
theorem le_mul_of_nil (h : [] ∈ L) : R ≤ L * R := fun w hw => ⟨[], h, w, hw, rfl⟩

/-- One more round. -/
theorem mul_kstar_mul_le : L * (L∗ * R) ≤ L∗ * R := by
  rw [← mul_assoc]
  exact mul_le_mul' mul_kstar_le_kstar le_rfl

/-! ### What may follow -/

/-- `u` may be all, or any word of `R` may follow. -/
structure Expects (G R : Language α) (u : List α) : Prop where
  follows : R ≤ G.leftQuotient u
  stops : u ∈ G

namespace Expects

theorem start (h : [] ∈ G) : Expects G G [] := ⟨le_rfl, h⟩

/-- Decide for less. -/
theorem narrow (h : Expects G A u) (hle : B ≤ A) : Expects G B u := ⟨hle.trans h.follows, h.stops⟩

/-- `v` is said, or nothing. -/
theorem advance (h : Expects G A u) (hv : v = [] ∨ v ∈ A) (hB : ∀ w ∈ B, v ++ w ∈ A) :
    Expects G B (u ++ v) := by
  refine ⟨fun w hw => ?_, ?_⟩
  · show u ++ v ++ w ∈ G
    rw [List.append_assoc]
    exact h.follows (hB w hw)
  · rcases hv with rfl | hv
    · rw [List.append_nil]
      exact h.stops
    · exact h.follows hv

end Expects

/-! ### Programs -/

variable {ε σ β γ : Type} {record : σ → List α}

/-- Nothing was said. -/
def Silent (record : σ → List α) (s s' : σ) : Prop := record s' = record s

theorem Silent.refl (s : σ) : Silent record s s := rfl

instance : Trans (Silent record) (Silent record) (Silent record) where
  trans h h' := h'.trans h

/-- What was said behind `base` is known up to the words of `R`. -/
def Stands (record : σ → List α) (G R : Language α) (base : List α) (s : σ) : Prop :=
  ∃ u, record s = u.reverse ++ base ∧ Expects G R u

theorem Stands.narrow {base : List α} {s : σ} (h : Stands record G A base s) (hle : B ≤ A) :
    Stands record G B base s := by
  obtain ⟨u, hrecord, hexpects⟩ := h
  exact ⟨u, hrecord, hexpects.narrow hle⟩

theorem Stands.advance {base : List α} {s s' : σ} (h : Stands record G A base s)
    (hsaid : record s' = v.reverse ++ record s) (hv : v = [] ∨ v ∈ A)
    (hB : ∀ w ∈ B, v ++ w ∈ A) : Stands record G B base s' := by
  obtain ⟨u, hrecord, hexpects⟩ := h
  refine ⟨u ++ v, ?_, hexpects.advance hv hB⟩
  rw [hsaid, hrecord, List.reverse_append, List.append_assoc]

theorem Stands.silent {G : Language α} {base : List α} {s s' : σ} (h : Stands record G A base s)
    (hsilent : Silent record s s') : Stands record G A base s' := by
  obtain ⟨u, hrecord, hexpects⟩ := h
  exact ⟨u, hsilent.trans hrecord, hexpects⟩

/-- The triple; a program that was stopped says nothing more. -/
def Speaks (record : σ → List α) (x : EStateM ε σ β) (A : Language α) (B : β → Language α) :
    Prop :=
  ∀ G base s, Stands record G A base s →
    wp x (fun b s' => Stands record G (B b) base s') (fun _ s' => Stands record G 0 base s') s

namespace Speaks

variable {x : EStateM ε σ β} {f : β → EStateM ε σ γ} {B : β → Language α} {C : γ → Language α}

/-- From what a program has said. -/
theorem intro
    (h : ∀ s, wp x
      (fun b s' => ∃ v, (v = [] ∨ v ∈ A) ∧ record s' = v.reverse ++ record s ∧
        ∀ w ∈ B b, v ++ w ∈ A)
      (fun _ s' => ∃ v, (v = [] ∨ v ∈ A) ∧ record s' = v.reverse ++ record s) s) :
    Speaks record x A B := by
  intro G base s hs
  refine wp_mono (h s) ?_ ?_
  · rintro b s' ⟨v, hv, hsaid, hB⟩
    exact hs.advance hsaid hv hB
  · rintro err s' ⟨v, hv, hsaid⟩
    exact hs.advance hsaid hv fun w hw => absurd hw (Language.notMem_zero w)

theorem pure (b : β) : Speaks record (pure b : EStateM ε σ β) (B b) B := fun _ _ _ hs =>
  (wp_pure b).mpr hs

theorem idle (b : β) : Speaks record (Pure.pure b : EStateM ε σ β) A fun _ => A :=
  pure (B := fun _ => A) b

theorem throw (err : ε) : Speaks record (throw err : EStateM ε σ β) A B := fun _ _ _ hs =>
  (wp_throw err).mpr (hs.narrow bot_le)

theorem bind (hx : Speaks record x A B) (hf : ∀ b, Speaks record (f b) (B b) C) :
    Speaks record (x >>= f) A C := by
  intro G base s hs
  rw [Outcome.wp_bind]
  exact wp_mono (hx G base s hs) (fun b s' hs' => hf b G base s' hs') fun _ _ h => h

/-- Less is expected. -/
theorem narrow (hx : Speaks record x K B) (hle : K ≤ A) : Speaks record x A B :=
  fun G base s hs => hx G base s (hs.narrow hle)

/-- A program that says nothing, in front of another, which knows that it has
returned. -/
theorem silent_bind_ok {C : γ → Language α} (hx : Keeps (Silent record) x)
    (hf : ∀ b s s', x s = .ok b s' → Speaks record (f b) A C) : Speaks record (x >>= f) A C := by
  intro G base s hs
  rw [Outcome.wp_bind]
  refine wp_mono (wp_and wp_self (hx s)) ?_ fun _ s' h => (hs.silent h.2).narrow bot_le
  rintro b s' ⟨hrun, hsilent⟩
  exact hf b s s' hrun G base s' (hs.silent hsilent)

theorem silent_bind {C : γ → Language α} (hx : Keeps (Silent record) x)
    (hf : ∀ b, Speaks record (f b) A C) : Speaks record (x >>= f) A C :=
  silent_bind_ok hx fun b _ _ _ => hf b

theorem silent (hx : Keeps (Silent record) x) :
    Speaks record x A fun _ => A := fun _ _ s hs =>
  wp_mono (hx s) (fun _ _ h => hs.silent h) fun _ _ h => (hs.silent h).narrow bot_le

theorem onError {g : σ → σ} (hx : Speaks record x A B) (hg : ∀ s, Silent record s (g s)) :
    Speaks record (onError x g) A B := by
  intro G base s hs
  rw [wp_onError]
  exact wp_mono (hx G base s hs) (fun _ _ h => h) fun _ s' h => h.silent (hg s')

/-- **However the program ends, it has said a word.** -/
theorem said (hx : Speaks record x A B) (hnil : [] ∈ A) (s : σ) :
    wp x (fun _ s' => ∃ u ∈ A, record s' = u.reverse ++ record s)
      (fun _ s' => ∃ u ∈ A, record s' = u.reverse ++ record s) s := by
  have hstops : ∀ {R : Language α} {s' : σ}, Stands record A R (record s) s' →
      ∃ u ∈ A, record s' = u.reverse ++ record s := by
    rintro R s' ⟨u, hrecord, hexpects⟩
    exact ⟨u, hexpects.stops, hrecord⟩
  exact wp_mono (hx A (record s) s ⟨[], rfl, .start hnil⟩) (fun _ _ h => hstops h)
    fun _ _ h => hstops h

theorem final (hx : Speaks record x A B) (hnil : [] ∈ A) (s : σ) :
    ∃ u ∈ A, record (final x s) = u.reverse ++ record s :=
  wp.final (P := fun s' => ∃ u ∈ A, record s' = u.reverse ++ record s) (hx.said hnil s)

end Speaks

/-- **A sequence of programs** says a sequence of words. -/
theorem said_foldl {ι : Type} {step : σ → ι → σ}
    (hstep : ∀ s i, ∃ u ∈ L∗, record (step s i) = u.reverse ++ record s) (is : List ι) (s : σ) :
    ∃ u ∈ L∗, record (is.foldl step s) = u.reverse ++ record s := by
  induction is generalizing s with
  | nil => exact ⟨[], Language.nil_mem_kstar L, rfl⟩
  | cons i is ih =>
    obtain ⟨u, hu, hfirst⟩ := hstep s i
    obtain ⟨v, hv, hrest⟩ := ih (step s i)
    refine ⟨u ++ v, ?_, ?_⟩
    · rw [← kstar_mul_kstar L]
      exact ⟨u, hu, v, hv, rfl⟩
    · rw [List.foldl_cons, hrest, hfirst, List.reverse_append, List.append_assoc]

end Transcripts
