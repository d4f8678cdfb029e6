/-
AktualizrNano/Trace.lean

Runs of a labelled transition system, with the labels of a run on record,
newest first.  A safety property of a system is often about what stands in
front of a label in its record: "`e` happens only if `holds` did before, and
nothing in between spoiled it".  `Since` is that property, by recursion over
the record, so that an invariant that mentions the past is preserved by
looking at the newest label only.

`Run.invariant` is the induction, `Run.split` reads a step off the middle of a
record.  No system is named here.
-/
import Mathlib.Logic.Basic

namespace Trace

variable {σ ε : Type} {step : σ → ε → σ → Prop} {s₀ s : σ} {es : List ε}

/-- A run from `s₀`, its labels newest first. -/
inductive Run (step : σ → ε → σ → Prop) (s₀ : σ) : List ε → σ → Prop
  | start : Run step s₀ [] s₀
  | next {es : List ε} {s : σ} {e : ε} {s' : σ} :
      Run step s₀ es s → step s e s' → Run step s₀ (e :: es) s'

namespace Run

/-- **Induction over a run** whose labels all satisfy `P`. -/
theorem invariant {Inv : List ε → σ → Prop} {P : ε → Prop} (hstart : Inv [] s₀)
    (hstep : ∀ {es s e s'}, Inv es s → P e → step s e s' → Inv (e :: es) s')
    (h : Run step s₀ es s) (hP : ∀ e ∈ es, P e) : Inv es s := by
  induction h with
  | start => exact hstart
  | @next es s e s' _ hlast ih =>
    have hPes : ∀ e' ∈ es, P e' := fun e' he' => hP e' (List.mem_cons_of_mem e he')
    exact hstep (ih hPes) (hP e List.mem_cons_self) hlast

/-- A run in two parts. -/
theorem exists_append {newer older : List ε} (h : Run step s₀ (newer ++ older) s) :
    ∃ s₁, Run step s₀ older s₁ ∧ Run step s₁ newer s := by
  induction newer generalizing s with
  | nil => exact ⟨s, h, start⟩
  | cons e newer ih =>
    cases h with
    | next hrun hstep =>
      obtain ⟨s₁, holder, hnewer⟩ := ih hrun
      exact ⟨s₁, holder, hnewer.next hstep⟩

/-- The step in the middle of a record. -/
theorem split {newer older : List ε} {e : ε} (h : Run step s₀ (newer ++ e :: older) s) :
    ∃ s₁ s₂, Run step s₀ older s₁ ∧ step s₁ e s₂ := by
  obtain ⟨s₂, hrun, -⟩ := h.exists_append
  cases hrun with
  | next hrun hstep => exact ⟨_, s₂, hrun, hstep⟩

end Run

/-! ### The past -/

/-- At some label `holds` was true of the record in front of it, and no label
since then spoils it. -/
def Since (holds : ε → List ε → Prop) (spoils : ε → Prop) : List ε → Prop
  | [] => False
  | e :: es => holds e es ∨ ¬ spoils e ∧ Since holds spoils es

variable {holds : ε → List ε → Prop} {spoils : ε → Prop}

@[simp] theorem since_nil : ¬ Since holds spoils [] := id

@[simp] theorem since_cons {e : ε} :
    Since holds spoils (e :: es) ↔ holds e es ∨ ¬ spoils e ∧ Since holds spoils es := Iff.rfl

/-- `Since` by the place where it became true. -/
theorem since_iff : Since holds spoils es ↔
    ∃ newer e older, es = newer ++ e :: older ∧ holds e older ∧ ∀ e' ∈ newer, ¬ spoils e' := by
  induction es with
  | nil => simp
  | cons e es ih =>
    rw [since_cons, ih]
    constructor
    · rintro (h | ⟨hspoils, newer, e', older, rfl, hholds, hnewer⟩)
      · exact ⟨[], e, es, rfl, h, by simp⟩
      · refine ⟨e :: newer, e', older, rfl, hholds, ?_⟩
        rintro e'' (- | ⟨-, he''⟩)
        · exact hspoils
        · exact hnewer e'' he''
    · rintro ⟨newer, e', older, heq, hholds, hnewer⟩
      cases newer with
      | nil =>
        cases heq
        exact Or.inl hholds
      | cons e'' newer =>
        cases heq
        exact Or.inr ⟨hnewer _ List.mem_cons_self, newer, e', older, rfl, hholds,
          fun x hx => hnewer x (List.mem_cons_of_mem _ hx)⟩

/-! ### Growth -/

/-- `es'` is `es` and newer labels, each of which satisfies `P` of the record in
front of it. -/
inductive Extends (P : ε → List ε → Prop) (es : List ε) : List ε → Prop
  | refl : Extends P es es
  | cons {e : ε} {es' : List ε} : Extends P es es' → P e es' → Extends P es (e :: es')

namespace Extends

variable {P Q : ε → List ε → Prop} {es' es'' : List ε}

theorem trans (h : Extends P es es') (h' : Extends P es' es'') : Extends P es es'' := by
  induction h' with
  | refl => exact h
  | cons _ hP ih => exact ih.cons hP

theorem exists_append (h : Extends P es es') : ∃ newer, es' = newer ++ es := by
  induction h with
  | refl => exact ⟨[], rfl⟩
  | @cons e es' _ _ ih =>
    obtain ⟨newer, rfl⟩ := ih
    exact ⟨e :: newer, rfl⟩

/-- A condition on the labels alone. -/
theorem of_forall {Q : ε → Prop} {newer : List ε} (h : ∀ e ∈ newer, Q e) :
    Extends (fun e _ => Q e) es (newer ++ es) := by
  induction newer with
  | nil => exact refl
  | cons e newer ih =>
    exact (ih fun e' he' => h e' (List.mem_cons_of_mem e he')).cons (h e List.mem_cons_self)

/-- The last label. -/
theorem of_cons {e : ε} (h : Extends P es (e :: es)) : P e es := by
  generalize hes : e :: es = es' at h
  cases h with
  | refl => exact absurd (congrArg List.length hes) (by simp)
  | cons _ hP =>
    cases hes
    exact hP

/-- Growth in two parts is growth in each. -/
theorem split {mid newer : List ε} (h : Extends P es (newer ++ (mid ++ es))) :
    Extends P es (mid ++ es) ∧ Extends P (mid ++ es) (newer ++ (mid ++ es)) := by
  induction newer with
  | nil => exact ⟨h, refl⟩
  | cons e newer ih =>
    generalize hes : e :: newer ++ (mid ++ es) = es' at h
    cases h with
    | refl =>
      -- with `e` in front it is longer than `es`
      have hlen := congrArg List.length hes
      simp only [List.cons_append, List.length_cons, List.length_append] at hlen
      omega
    | cons h hP =>
      cases hes
      exact ⟨(ih h).1, (ih h).2.cons hP⟩

/-- The labels of a record that has grown from nothing. -/
theorem of_split {newer older : List ε} {e : ε} (h : Extends P [] (newer ++ e :: older)) :
    P e older := by
  induction newer with
  | nil =>
    cases h with
    | cons _ hP => exact hP
  | cons e' newer ih =>
    cases h with
    | cons h _ => exact ih h

end Extends

end Trace
