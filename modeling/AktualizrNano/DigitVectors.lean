/-
AktualizrNano/DigitVectors.lean

Numbers as vectors of places, lowest first, the way a program computes with
them that has no wide integers.  A place may hold more than a digit; a pass of
carries from the low end brings every place back below the base.  The value of
a vector is Mathlib's `Nat.ofDigits`.

`ofDigits_carry` says what a pass keeps of the value, `carryWords_toNat` when a
pass over machine words is the pass over numbers, and `dropZeros_reverse` that
the places without their leading zeros are the digits of the value.
-/
import Mathlib.Data.Nat.Digits.Lemmas

namespace DigitVectors

open Nat (ofDigits)

/-! ### A pass of carries -/

/-- A pass over the places, with `rem` coming in at the low end. -/
def carry (b : Nat) : (rem : Nat) → List Nat → List Nat
  | _, [] => []
  | rem, d :: ds => (rem + d) % b :: carry b ((rem + d) / b) ds

/-- What is left over at the high end. -/
def carryOut (b : Nat) : (rem : Nat) → List Nat → Nat
  | rem, [] => rem
  | rem, d :: ds => carryOut b ((rem + d) / b) ds

variable {b : Nat}

@[simp] theorem carry_length (rem : Nat) (ds : List Nat) : (carry b rem ds).length = ds.length := by
  induction ds generalizing rem with
  | nil => rfl
  | cons d ds ih => rw [carry, List.length_cons, List.length_cons, ih]

theorem carry_lt (hb : 0 < b) (rem : Nat) (ds : List Nat) : ∀ d ∈ carry b rem ds, d < b := by
  induction ds generalizing rem with
  | nil => exact fun d hd => absurd hd List.not_mem_nil
  | cons d ds ih =>
    intro c hc
    rcases List.mem_cons.mp hc with rfl | hc
    · exact Nat.mod_lt _ hb
    · exact ih _ c hc

/-- **A pass keeps the value**, up to what it carries out at the high end. -/
theorem ofDigits_carry_add (rem : Nat) (ds : List Nat) :
    ofDigits b (carry b rem ds) + b ^ ds.length * carryOut b rem ds = rem + ofDigits b ds := by
  induction ds generalizing rem with
  | nil => simp [carry, carryOut]
  | cons d ds ih =>
    have hplace := Nat.mod_add_div (rem + d) b
    rw [carry, carryOut, List.length_cons, Nat.ofDigits_cons, Nat.ofDigits_cons, pow_succ']
    calc (rem + d) % b + b * ofDigits b (carry b ((rem + d) / b) ds)
          + b * b ^ ds.length * carryOut b ((rem + d) / b) ds
        = (rem + d) % b + b * (ofDigits b (carry b ((rem + d) / b) ds)
          + b ^ ds.length * carryOut b ((rem + d) / b) ds) := by ring
      _ = (rem + d) % b + b * ((rem + d) / b) + b * ofDigits b ds := by
        rw [ih]
        ring
      _ = rem + (d + b * ofDigits b ds) := by
        rw [hplace]
        ring

/-- In as many places as there are, a pass leaves the value in digits. -/
theorem ofDigits_carry (hb : 1 < b) (rem : Nat) (ds : List Nat) :
    ofDigits b (carry b rem ds) = (rem + ofDigits b ds) % b ^ ds.length := by
  have hlt := Nat.ofDigits_lt_base_pow_length hb (carry_lt (by omega) rem ds)
  rw [carry_length] at hlt
  rw [← ofDigits_carry_add rem ds, Nat.add_mul_mod_self_left, Nat.mod_eq_of_lt hlt]

/-! ### Machine words -/

/-- A pass over words of `w` bits. -/
def carryWords {w : Nat} (b : BitVec w) : (rem : BitVec w) → List (BitVec w) → List (BitVec w)
  | _, [] => []
  | rem, d :: ds => (rem + d) % b :: carryWords b ((rem + d) / b) ds

/-- **No sum wraps** if the places are bounded by `m` and the carries by `r`:
then a pass over words is the pass over the numbers they hold. -/
theorem carryWords_toNat {w r m : Nat} {b : BitVec w} (hfits : r + m < 2 ^ w)
    (hstep : (r + m) / b.toNat ≤ r) {rem : BitVec w} {ds : List (BitVec w)}
    (hrem : rem.toNat ≤ r) (hplaces : ∀ d ∈ ds, d.toNat ≤ m) :
    (carryWords b rem ds).map BitVec.toNat = carry b.toNat rem.toNat (ds.map BitVec.toNat) := by
  induction ds generalizing rem with
  | nil => rfl
  | cons d ds ih =>
    have hd := hplaces d List.mem_cons_self
    have hsum : (rem + d).toNat = rem.toNat + d.toNat := by
      rw [BitVec.toNat_add, Nat.mod_eq_of_lt (by omega)]
    have hcarry : ((rem + d) / b).toNat ≤ r := by
      rw [BitVec.toNat_udiv, hsum]
      exact (Nat.div_le_div_right (by omega)).trans hstep
    rw [carryWords, List.map_cons, List.map_cons, carry,
      ih hcarry fun c hc => hplaces c (List.mem_cons_of_mem _ hc), BitVec.toNat_umod,
      BitVec.toNat_udiv, hsum]

/-! ### Without leading zeros -/

/-- Zeros at the high end do not count. -/
theorem dropZeros_reverse (hb : 1 < b) {ds : List Nat} (hdigits : ∀ d ∈ ds, d < b) :
    ds.reverse.dropWhile (· = 0) = (Nat.digits b (ofDigits b ds)).reverse := by
  induction ds using List.reverseRecOn with
  | nil => simp
  | append_singleton ds d ih =>
    rw [List.reverse_concat, List.dropWhile_cons]
    by_cases hd : d = 0
    · subst hd
      rw [if_pos (decide_eq_true rfl), ih fun c hc => hdigits c (List.mem_append_left _ hc),
        Nat.ofDigits_append_zero]
    · rw [if_neg (by simpa using hd), Nat.digits_ofDigits b hb _ hdigits, List.reverse_concat]
      intro hne
      rw [List.getLast_concat]
      exact hd

end DigitVectors
