/-
AktualizrNano/Outcome.lean

A program logic for stateful programs that can be cut short.  A program is
an `EStateM ε σ α`: from a state it either returns a value or stops with an
exception, and in both cases the state it has reached survives.  That is the
shape of code on a device with persistent storage: an exception is a power
cut or a reboot, and the state is what the next boot will find.

`wp x Q E s` says that `x`, started at `s`, returns with `Q` or stops with
`E`.  The rules below are the ones a proof over such a program uses; they
name no particular program.
-/
import Mathlib.Logic.Basic

namespace Outcome

variable {ε σ α β : Type}

/-- `x` started at `s` returns with `Q`, or is stopped with `E`.  Irreducible,
so that a statement about a program never makes the checker run it. -/
@[irreducible] def wp (x : EStateM ε σ α) (Q : α → σ → Prop) (E : ε → σ → Prop) (s : σ) : Prop :=
  match x s with
  | .ok a s' => Q a s'
  | .error e s' => E e s'

variable {x : EStateM ε σ α} {f : α → EStateM ε σ β}
variable {Q Q' : α → σ → Prop} {E E' : ε → σ → Prop} {s : σ}

@[simp] theorem wp_pure (a : α) : wp (pure a) Q E s ↔ Q a s := by
  unfold wp; rfl

@[simp] theorem wp_throw (e : ε) :
    wp (throw e : EStateM ε σ α) Q E s ↔ E e s := by
  unfold wp; rfl

@[simp] theorem wp_bind {R : β → σ → Prop} :
    wp (x >>= f) R E s ↔ wp x (fun a => wp (f a) R E) E s := by
  unfold wp
  simp only [bind, EStateM.bind]
  cases x s <;> rfl

/-- Weaken both postconditions. -/
theorem wp_mono (h : wp x Q E s) (hQ : ∀ a s', Q a s' → Q' a s')
    (hE : ∀ e s', E e s' → E' e s') : wp x Q' E' s := by
  unfold wp at h ⊢
  cases hx : x s with
  | ok a s' => rw [hx] at h; exact hQ a s' h
  | error e s' => rw [hx] at h; exact hE e s' h

theorem wp_and (h : wp x Q E s) (h' : wp x Q' E' s) :
    wp x (fun a s' => Q a s' ∧ Q' a s') (fun e s' => E e s' ∧ E' e s') s := by
  unfold wp at h h' ⊢
  cases hx : x s with
  | ok a s' => rw [hx] at h h'; exact ⟨h, h'⟩
  | error e s' => rw [hx] at h h'; exact ⟨h, h'⟩

/-- A run is its own postcondition. -/
theorem wp_self : wp x (fun a s' => x s = .ok a s') (fun e s' => x s = .error e s') s := by
  unfold wp
  cases x s <;> rfl

/-- Read a postcondition off a run that returned. -/
theorem wp.of_ok {a : α} {s' : σ} (h : wp x Q E s) (hx : x s = .ok a s') : Q a s' := by
  unfold wp at h
  rwa [hx] at h

theorem wp.of_error {e : ε} {s' : σ} (h : wp x Q E s) (hx : x s = .error e s') : E e s' := by
  unfold wp at h
  rwa [hx] at h

/-- The run is known. -/
theorem wp_iff_of_ok {a : α} {s' : σ} (hx : x s = .ok a s') : wp x Q E s ↔ Q a s' := by
  unfold wp
  rw [hx]

theorem wp_iff_of_error {e : ε} {s' : σ} (hx : x s = .error e s') : wp x Q E s ↔ E e s' := by
  unfold wp
  rw [hx]

/-- A run that cannot be stopped returns. -/
theorem wp.returns (h : wp x Q (fun _ _ => False) s) : ∃ a s', x s = .ok a s' := by
  unfold wp at h
  cases hx : x s with
  | ok a s' => exact ⟨a, s', rfl⟩
  | error e s' => rw [hx] at h; exact h.elim

/-- Run a program over a part of the state. -/
def zoom {τ : Type} (get : σ → τ) (put : τ → σ → σ) (x : EStateM ε τ α) : EStateM ε σ α :=
  fun s =>
    match x (get s) with
    | .ok a t => .ok a (put t s)
    | .error e t => .error e (put t s)

@[simp] theorem wp_zoom {τ : Type} {get : σ → τ} {put : τ → σ → σ} {x : EStateM ε τ α} :
    wp (zoom get put x) Q E s ↔
      wp x (fun a t => Q a (put t s)) (fun e t => E e (put t s)) (get s) := by
  unfold wp zoom
  cases x (get s) <;> rfl

/-- Change the state in which a program was stopped. -/
def onError (x : EStateM ε σ α) (f : σ → σ) : EStateM ε σ α := fun s =>
  match x s with
  | .ok a s' => .ok a s'
  | .error e s' => .error e (f s')

@[simp] theorem wp_onError {g : σ → σ} :
    wp (onError x g) Q E s ↔ wp x Q (fun e s' => E e (g s')) s := by
  unfold wp onError
  cases x s <;> rfl

@[simp] theorem wp_modify {g : σ → σ} {Q : PUnit → σ → Prop} :
    wp (modify g : EStateM ε σ PUnit) Q E s ↔ Q ⟨⟩ (g s) := by
  unfold wp; rfl

@[simp] theorem wp_get {Q : σ → σ → Prop} :
    wp (get : EStateM ε σ σ) Q E s ↔ Q s s := by
  unfold wp; rfl

/-- Continuations that agree on what `x` can return are interchangeable. -/
theorem bind_congr {g : α → EStateM ε σ β}
    (h : wp x (fun a s' => f a s' = g a s') (fun _ _ => True) s) : (x >>= f) s = (x >>= g) s := by
  unfold wp at h
  simp only [bind, EStateM.bind]
  cases hx : x s with
  | ok a s' => rw [hx] at h; exact h
  | error e s' => rfl

/-- A run that goes on from where its first part returned. -/
theorem bind_of_ok {a : α} {s' : σ} (h : x s = .ok a s') : (x >>= f) s = f a s' := by
  simp only [bind, EStateM.bind, h]

/-- A run that returned has returned from its first part. -/
theorem ok_of_bind {b : β} {s' : σ} (h : (x >>= f) s = .ok b s') :
    ∃ a s₁, x s = .ok a s₁ ∧ f a s₁ = .ok b s' := by
  simp only [bind, EStateM.bind] at h
  cases hx : x s with
  | ok a s₁ =>
    rw [hx] at h
    exact ⟨a, s₁, rfl, h⟩
  | error e s₁ =>
    rw [hx] at h
    cases h

theorem bind_of_error {e : ε} {s' : σ} (h : x s = .error e s') : (x >>= f) s = .error e s' := by
  simp only [bind, EStateM.bind, h]

/-- A run that was stopped was stopped in one of its parts. -/
theorem error_of_bind {e : ε} {s' : σ} (h : (x >>= f) s = .error e s') :
    x s = .error e s' ∨ ∃ a s₁, x s = .ok a s₁ ∧ f a s₁ = .error e s' := by
  simp only [bind, EStateM.bind] at h
  cases hx : x s with
  | ok a s₁ =>
    rw [hx] at h
    exact Or.inr ⟨a, s₁, rfl, h⟩
  | error e₁ s₁ =>
    rw [hx] at h
    cases h
    exact Or.inl rfl

/-- Every run ends. -/
theorem wp_true : wp x (fun _ _ => True) (fun _ _ => True) s :=
  wp_mono wp_self (fun _ _ _ => trivial) fun _ _ _ => trivial

/-- What does not depend on the run holds if it holds of one. -/
theorem wp_const {P : Prop} : wp x (fun _ _ => P) (fun _ _ => P) s ↔ P := by
  unfold wp
  cases x s <;> exact Iff.rfl

/-! ### What a program keeps -/

/-- However the program ends, its last state is related to its first. -/
def Keeps (R : σ → σ → Prop) (x : EStateM ε σ α) : Prop :=
  ∀ s, wp x (fun _ s' => R s s') (fun _ s' => R s s') s

namespace Keeps

variable {R R' : σ → σ → Prop}

theorem pure (hrefl : ∀ s, R s s) (a : α) : Keeps R (pure a : EStateM ε σ α) :=
  fun s => (wp_pure a).mpr (hrefl s)

theorem throw (hrefl : ∀ s, R s s) (e : ε) : Keeps R (throw e : EStateM ε σ α) :=
  fun s => (wp_throw e).mpr (hrefl s)

theorem bind [Trans R R R] (hx : Keeps R x) (hf : ∀ a, Keeps R (f a)) : Keeps R (x >>= f) := by
  intro s
  rw [Outcome.wp_bind]
  refine wp_mono (hx s) ?_ fun _ _ h => h
  intro a s' h
  exact wp_mono (hf a s') (fun _ _ h' => Trans.trans h h') fun _ _ h' => Trans.trans h h'

theorem mono (hx : Keeps R x) (h : ∀ s s', R s s' → R' s s') : Keeps R' x := fun s =>
  wp_mono (hx s) (fun _ s' => h s s') fun _ s' => h s s'

/-- Such a program in front of another. -/
theorem wp_bind {Q : β → σ → Prop} (hx : Keeps R x)
    (hf : ∀ a s', R s s' → wp (f a) Q E s') (hE : ∀ e s', R s s' → E e s') :
    wp (x >>= f) Q E s := by
  rw [Outcome.wp_bind]
  exact wp_mono (hx s) (fun a s' h => hf a s' h) hE

end Keeps

/-! ### Programs that are not stopped -/

/-- Wherever it is started, the program returns. -/
def Finishes (x : EStateM ε σ α) : Prop := ∀ s, wp x (fun _ _ => True) (fun _ _ => False) s

namespace Finishes

theorem pure (a : α) : Finishes (pure a : EStateM ε σ α) := fun _ => (wp_pure a).mpr trivial

theorem get : Finishes (get : EStateM ε σ σ) := fun _ => wp_get.mpr trivial

theorem modify (g : σ → σ) : Finishes (modify g : EStateM ε σ PUnit) := fun _ =>
  wp_modify.mpr trivial

theorem bind (hx : Finishes x) (hf : ∀ a, Finishes (f a)) : Finishes (x >>= f) := by
  intro s
  rw [Outcome.wp_bind]
  exact wp_mono (hx s) (fun a s' _ => hf a s') fun _ _ h => h

theorem onError {g : σ → σ} (hx : Finishes x) : Finishes (onError x g) := fun s =>
  wp_onError.mpr (hx s)

theorem zoom {τ : Type} {get : σ → τ} {put : τ → σ → σ} {x : EStateM ε τ α} (hx : Finishes x) :
    Finishes (zoom get put x) := fun s => wp_zoom.mpr (hx (get s))

/-- What is known of such a program, without the case that it is stopped. -/
theorem spec (hx : Finishes x) (h : wp x Q E s) : wp x Q (fun _ _ => False) s :=
  wp_mono (wp_and h (hx s)) (fun _ _ h => h.1) fun _ _ h => h.2

/-- Such a program in front of another. -/
theorem wp_bind {R : β → σ → Prop} (hx : Finishes x) (h : wp x Q E s)
    (hf : ∀ a s', Q a s' → wp (f a) R E' s') : wp (x >>= f) R E' s := by
  rw [Outcome.wp_bind]
  exact wp_mono (hx.spec h) hf fun _ _ h => h.elim

end Finishes

/-! ### Programs without their interruptions -/

/-- As far as `x` is not stopped, `y` does the same. -/
def Completes (y x : EStateM ε σ α) : Prop := ∀ s a s', x s = .ok a s' → y s = .ok a s'

namespace Completes

theorem refl (x : EStateM ε σ α) : Completes x x := fun _ _ _ h => h

theorem bind {y : EStateM ε σ α} {g : α → EStateM ε σ β} (hx : Completes y x)
    (hf : ∀ a, Completes (g a) (f a)) : Completes (y >>= g) (x >>= f) := by
  intro s b s' h
  obtain ⟨a, s₁, hfirst, hrest⟩ := ok_of_bind h
  rw [bind_of_ok (hx s a s₁ hfirst)]
  exact hf a s₁ b s' hrest

/-- What is known of `y` holds of `x`, if it returns. -/
theorem wp {y : EStateM ε σ α} (h : Completes y x) (hy : wp y Q E s) :
    Outcome.wp x Q (fun _ _ => True) s :=
  wp_mono wp_self (fun a s' hx => hy.of_ok (h s a s' hx)) fun _ _ _ => trivial

end Completes

/-- The state a run ends in, however it ends. -/
def final (x : EStateM ε σ α) (s : σ) : σ :=
  match x s with
  | .ok _ s' => s'
  | .error _ s' => s'

@[simp] theorem final_pure (a : α) : final (pure a : EStateM ε σ α) s = s := rfl

/-- A run that goes on ends where its second part does. -/
theorem final_bind {a : α} {s' : σ} (h : x s = .ok a s') :
    final (x >>= f) s = final (f a) s' := by
  rw [final, bind_of_ok h, ← final]

/-- The value a run returns, if it does. -/
def returned (x : EStateM ε σ α) (s : σ) : Option α :=
  match x s with
  | .ok a _ => some a
  | .error _ _ => none

theorem eq_ok_of_returned {a : α} (h : returned x s = some a) : x s = .ok a (final x s) := by
  unfold returned at h
  unfold final
  rcases hx : x s with ⟨b, s'⟩ | ⟨e, s'⟩
  · rw [hx] at h
    cases h
    rfl
  · rw [hx] at h
    cases h

/-- The same, of a part of the value. -/
theorem eq_ok_of_returned_fst {γ : Type} {x : EStateM ε σ (α × γ)} {a : α}
    (h : (returned x s).map Prod.fst = some a) : ∃ c, x s = .ok (a, c) (final x s) := by
  obtain ⟨⟨a', c⟩, hreturned, rfl⟩ := Option.map_eq_some_iff.mp h
  exact ⟨c, eq_ok_of_returned hreturned⟩

theorem returned_of_ok {a : α} {s' : σ} (h : x s = .ok a s') : returned x s = some a := by
  rw [returned, h]

/-- Why a run was stopped, if it was. -/
def halted (x : EStateM ε σ α) (s : σ) : Option ε :=
  match x s with
  | .ok _ _ => none
  | .error e _ => some e

theorem halted_of_error {e : ε} {s' : σ} (h : x s = .error e s') : halted x s = some e := by
  rw [halted, h]

theorem eq_error_of_halted {e : ε} (h : halted x s = some e) : x s = .error e (final x s) := by
  unfold halted at h
  unfold final
  rcases hx : x s with ⟨a, s'⟩ | ⟨e', s'⟩
  · rw [hx] at h
    cases h
  · rw [hx] at h
    cases h
    rfl

/-- A property of the state alone that holds either way. -/
theorem wp.final {P : σ → Prop} (h : wp x (fun _ => P) (fun _ => P) s) : P (final x s) := by
  unfold wp at h
  unfold Outcome.final
  cases hx : x s with
  | ok a s' => rwa [hx] at h
  | error e s' => rwa [hx] at h

theorem Keeps.final {R : σ → σ → Prop} (hx : Keeps R x) (s : σ) : R s (final x s) :=
  wp.final (P := R s) (hx s)

end Outcome
