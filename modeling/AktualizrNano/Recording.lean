/-
AktualizrNano/Recording.lean

Programs that keep a record of the calls they make, and what a discipline on
the calls says of them.

A program over `σ` becomes one over `σ × List κ`: `silently` runs a program
that makes none of these calls, `record` notes one.  `Erases y x` says that
without its record `y` is `x`, so that a statement about the record of `y` is
one about the calls of `x`.

A `Discipline` is a typestate: what has been called so far is summed up in a
state, and the state decides which call may come next.  `Takes` follows it
through a program from state to state, also through one that is cut short.
-/
import AktualizrNano.Outcome

namespace Recording

open Outcome

variable {ε σ κ γ α β : Type}

/-! ### The record -/

/-- Run a program that makes no call of the record. -/
def silently (x : EStateM ε σ α) : EStateM ε (σ × List κ) α :=
  zoom Prod.fst (fun s st => (s, st.2)) x

/-- Note a call, in front of the earlier ones. -/
def record (call : κ) : EStateM ε (σ × List κ) PUnit :=
  modify fun st => (st.1, call :: st.2)

/-- Without its record, `y` is `x`. -/
structure Erases (y : EStateM ε (σ × List κ) α) (x : EStateM ε σ α) : Prop where
  runs : ∀ s calls,
    wp y (fun a st => x s = .ok a st.1) (fun h st => x s = .error h st.1) (s, calls)

namespace Erases

variable {y : EStateM ε (σ × List κ) α} {x : EStateM ε σ α}

theorem pure (a : α) : Erases (pure a : EStateM ε (σ × List κ) α) (pure a) :=
  ⟨fun _ _ => (wp_pure a).mpr rfl⟩

theorem throw (h : ε) : Erases (throw h : EStateM ε (σ × List κ) α) (throw h) :=
  ⟨fun _ _ => (wp_throw h).mpr rfl⟩

theorem silently (x : EStateM ε σ α) :
    Erases (Recording.silently x : EStateM ε (σ × List κ) α) x := by
  refine ⟨fun s calls => ?_⟩
  rw [Recording.silently, wp_zoom]
  exact wp_self

theorem bind {g : α → EStateM ε (σ × List κ) β} {f : α → EStateM ε σ β} (hy : Erases y x)
    (hg : ∀ a, Erases (g a) (f a)) : Erases (y >>= g) (x >>= f) := by
  refine ⟨fun s calls => ?_⟩
  rw [wp_bind]
  refine wp_mono (hy.runs s calls) ?_ fun _ _ h => bind_of_error h
  rintro a ⟨s', calls'⟩ h
  refine wp_mono ((hg a).runs s' calls') ?_ ?_
  · intro b st h'
    rw [bind_of_ok h, h']
  · intro e st h'
    rw [bind_of_ok h, h']

/-- A note makes no difference. -/
theorem record_bind (call : κ) {g : PUnit → EStateM ε (σ × List κ) α} (hg : Erases (g ⟨⟩) x) :
    Erases (record call >>= g) x := by
  refine ⟨fun s calls => ?_⟩
  rw [wp_bind, record, wp_modify]
  exact hg.runs s (call :: calls)

/-- A note behind a call, with what the call returned. -/
theorem bind_record (hy : Erases y x) (call : α → κ) :
    Erases (y >>= fun a => record (call a) >>= fun _ => Pure.pure a) x := by
  refine ⟨fun s calls => ?_⟩
  rw [wp_bind]
  refine wp_mono (hy.runs s calls) ?_ fun _ _ h => h
  rintro a ⟨s', calls'⟩ h
  rw [wp_bind, record, wp_modify, wp_pure]
  exact h

end Erases

/-! ### Disciplines -/

/-- Which call may follow which. -/
structure Discipline (κ γ : Type) where
  start : γ
  next : γ → κ → γ
  Allowed : γ → κ → Prop

namespace Discipline

variable (D : Discipline κ γ)

/-- What the calls, newest first, come to. -/
def state : List κ → γ
  | [] => D.start
  | call :: older => D.next (state older) call

/-- Each call was allowed when it was made. -/
def Follows : List κ → Prop
  | [] => True
  | call :: older => D.Allowed (D.state older) call ∧ Follows older

/-- From the state `c` the program gets, within the discipline, to a state that
belongs to its result; cut short, it has kept to the discipline so far. -/
structure Takes (c : γ) (y : EStateM ε (σ × List κ) α) (Q : α → γ → Prop) : Prop where
  runs : ∀ s calls, D.Follows calls → D.state calls = c →
    wp y (fun a st => D.Follows st.2 ∧ Q a (D.state st.2)) (fun _ st => D.Follows st.2) (s, calls)

namespace Takes

variable {D} {c : γ} {y : EStateM ε (σ × List κ) α} {Q Q' : α → γ → Prop}

theorem pure {a : α} (h : Q a c) : D.Takes c (pure a : EStateM ε (σ × List κ) α) Q := by
  refine ⟨?_⟩
  rintro s calls hfollows rfl
  exact (wp_pure a).mpr ⟨hfollows, h⟩

theorem throw (h : ε) : D.Takes c (throw h : EStateM ε (σ × List κ) α) Q :=
  ⟨fun _ _ hfollows _ => (wp_throw h).mpr hfollows⟩

theorem silently {x : EStateM ε σ α} (h : ∀ a, Q a c) :
    D.Takes c (Recording.silently x) Q := by
  refine ⟨?_⟩
  rintro s calls hfollows rfl
  rw [Recording.silently, wp_zoom]
  exact wp_mono wp_true (fun a _ _ => ⟨hfollows, h a⟩) fun _ _ _ => hfollows

theorem record {call : κ} {Q : PUnit → γ → Prop} (hallowed : D.Allowed c call)
    (h : Q ⟨⟩ (D.next c call)) :
    D.Takes c (record call : EStateM ε (σ × List κ) PUnit) Q := by
  refine ⟨?_⟩
  rintro s calls hfollows rfl
  rw [Recording.record, wp_modify]
  exact ⟨⟨hallowed, hfollows⟩, h⟩

theorem bind {g : α → EStateM ε (σ × List κ) β} {R : β → γ → Prop} (hy : D.Takes c y Q)
    (hg : ∀ a c', Q a c' → D.Takes c' (g a) R) : D.Takes c (y >>= g) R := by
  refine ⟨fun s calls hfollows hstate => ?_⟩
  rw [wp_bind]
  refine wp_mono (hy.runs s calls hfollows hstate) ?_ fun _ _ h => h
  rintro a ⟨s', calls'⟩ ⟨hfollows', hQ⟩
  exact (hg a _ hQ).runs s' calls' hfollows' rfl

/-- When the first part gets to one state whatever it returns. -/
theorem bind_of_eq {g : α → EStateM ε (σ × List κ) β} {R : β → γ → Prop} {c' : γ}
    (hy : D.Takes c y fun _ c'' => c'' = c') (hg : ∀ a, D.Takes c' (g a) R) :
    D.Takes c (y >>= g) R := by
  apply hy.bind
  rintro a _ rfl
  exact hg a

theorem mono (hy : D.Takes c y Q) (h : ∀ a c', Q a c' → Q' a c') : D.Takes c y Q' := by
  refine ⟨fun s calls hfollows hstate => ?_⟩
  exact wp_mono (hy.runs s calls hfollows hstate) (fun a _ h' => ⟨h'.1, h a _ h'.2⟩)
    fun _ _ h' => h'

end Takes

end Discipline

end Recording
