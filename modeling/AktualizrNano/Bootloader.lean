/-
AktualizrNano/Bootloader.lean

MCUboot, as far as the agent can see it.  It is not part of the repository;
what the agent relies on is this.  The running image changes at a reset only.
An image that was armed goes on trial at the next reset.  At the reset after
that the device falls back to the image that armed it, unless the image on
trial was made permanent.

An image is known here by its build number.
-/
import AktualizrNano.Layout

namespace AktualizrNano

open CLib

abbrev Version := BitVec 32

/-- The two places an image can run from. -/
inductive Slot
  | primary
  | secondary
  deriving DecidableEq

/-- The slot that is not running. -/
def Slot.other : Slot → Slot
  | .primary => .secondary
  | .secondary => .primary

/-- What the bootloader keeps across resets. -/
structure Boot where
  active : Slot
  running : Version
  /-- the image to fall back to; `none` when the running image is permanent -/
  fallback : Option Version
  /-- what the other slot holds, if it can be booted -/
  inactive : Option Version
  /-- the image to run on trial after the next reset -/
  armed : Option Version
  deriving DecidableEq

/-- What a reset did. -/
inductive Pick
  | same
  | trial (version : Version)
  /-- the image of this version was given up -/
  | reverted (version : Version)
  deriving DecidableEq

namespace Boot

/-- A device as it leaves the factory. -/
def factory (version : Version) : Boot := ⟨.primary, version, none, none, none⟩

/-- The version that is back whatever happens to an image on trial. -/
def permanent (b : Boot) : Version := b.fallback.getD b.running

/-- `bl_update_image_state(kSwapType_ReadyForTest)`. -/
def arm (b : Boot) : Boot := { b with armed := b.inactive }

/-- `bl_update_image_state(kSwapType_Permanent)`. -/
def confirm (b : Boot) : Boot := { b with fallback := none }

/-- What the next reset will do. -/
def pick (b : Boot) : Pick :=
  match b.armed, b.fallback with
  | some v, _ => .trial v
  | none, some _ => .reverted b.running
  | none, none => .same

/-- The state after a reset. -/
def reset (b : Boot) : Boot :=
  match b.armed, b.fallback with
  | some v, _ => ⟨b.active.other, v, some b.running, some b.running, none⟩
  | none, some u => ⟨b.active.other, u, none, some b.running, none⟩
  | none, none => b

/-- `get_active_image`. -/
def activeImage (b : Boot) : BitVec 8 :=
  match b.active with
  | .primary => 0
  | .secondary => 1

/-- The states `bl_get_image_state` can report. -/
inductive SwapType
  | readyForTest
  | testing
  | permanent
  deriving DecidableEq

/-- `bl_get_image_state`, when it succeeds. -/
def imageState (b : Boot) : SwapType :=
  if b.armed.isSome then .readyForTest
  else if b.fallback.isSome then .testing
  else .permanent

@[simp] theorem factory_permanent (v : Version) : (factory v).permanent = v := rfl

@[simp] theorem confirm_permanent (b : Boot) : b.confirm.permanent = b.running := rfl

/-- A state reported as permanent has no trial going on. -/
theorem fallback_of_imageState {b : Boot} (h : b.imageState = .permanent) :
    b.fallback = none := by
  unfold imageState at h
  split at h
  · cases h
  split at h
  · cases h
  · simpa using ‹¬ b.fallback.isSome = true›

/-- The three things a reset can do. -/
theorem reset_cases (b : Boot) :
    (∃ v, b.armed = some v ∧ b.pick = .trial v ∧
      b.reset = ⟨b.active.other, v, some b.running, some b.running, none⟩) ∨
    (∃ u, b.armed = none ∧ b.fallback = some u ∧ b.pick = .reverted b.running ∧
      b.reset = ⟨b.active.other, u, none, some b.running, none⟩) ∨
    (b.armed = none ∧ b.fallback = none ∧ b.pick = .same ∧ b.reset = b) := by
  unfold pick reset
  rcases b.armed with - | v
  · rcases b.fallback with - | u
    · exact Or.inr (Or.inr ⟨rfl, rfl, rfl, rfl⟩)
    · exact Or.inr (Or.inl ⟨u, rfl, rfl, rfl, rfl⟩)
  · exact Or.inl ⟨v, rfl, rfl, rfl⟩

/-- After a reset nothing is armed. -/
theorem reset_armed (b : Boot) : b.reset.armed = none := by
  rcases b.reset_cases with ⟨v, -, -, h⟩ | ⟨u, -, -, -, h⟩ | ⟨harmed, -, -, h⟩
  · rw [h]
  · rw [h]
  · rw [h, harmed]

end Boot

end AktualizrNano
