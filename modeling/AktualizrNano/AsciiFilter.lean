/-
AktualizrNano/AsciiFilter.lean

`string_is_ascii` at its pointer: a machine with one step for each turn of the
loop, over a memory that goes on behind the body.

The bound is compared with a counter that no turn changes, so only the bytes
decide where the walk stops.  `reaches_walk` and `AsciiRun` say which
configurations are reached; from them

* `reads_iff`: the byte at `j` is looked at when `len` is not `0` and all
  bytes in front of it pass;
* `obeysLength_iff`: the walk stays within the length, and then answers for
  it, exactly when one of the first `len` bytes stops it;
* `returns_memOf`: on a NUL-terminated body the answer is the one that
  `aknanoMtlsSendHttpRequest` goes by.
-/
import AktualizrNano.Device
import Mathlib.Computability.StateTransition

namespace AktualizrNano

open CLib StateTransition

/-! ### The loop -/

/-- `MAX_ASCII`. -/
abbrev maxAscii : Byte := 126

/-- `MIN_ASCII`. -/
abbrev minAscii : Byte := 9

/-- The locals of `string_is_ascii`: how far `s` has moved, `i`, and the value
returned once there is one. -/
structure AsciiLoop where
  s : Nat
  i : Nat
  ret : Option Bool
  deriving DecidableEq

def AsciiLoop.start : AsciiLoop := ⟨0, 0, none⟩

/-- One turn of the loop: the condition, which looks at `*s` first, and the
body.  Where `char` is signed, the bytes from `0x80` on are below `minAscii`
instead of above `maxAscii`. -/
def asciiStep (mem : Nat → Byte) (len : Nat) (c : AsciiLoop) : Option AsciiLoop :=
  if c.ret.isSome then none
  else if mem c.s ≠ 0 ∧ c.i < len then
    if mem c.s > maxAscii ∨ mem c.s < minAscii then some { c with ret := some false }
    -- the source moves the pointer and leaves `i` where it is
    else some { c with s := c.s + 1 }
  else some { c with ret := some true }

/-- The byte at index `j` is read in some turn. -/
def ReadsAt (mem : Nat → Byte) (len j : Nat) : Prop :=
  Reaches (asciiStep mem len) .start ⟨j, 0, none⟩

/-- The function returns `b`. -/
def Returns (mem : Nat → Byte) (len : Nat) (b : Bool) : Prop :=
  ∃ c, Reaches (asciiStep mem len) .start c ∧ c.ret = some b

/-- A byte that the body of the loop lets pass. -/
def IsAscii (c : Byte) : Prop := minAscii ≤ c ∧ c ≤ maxAscii

instance : DecidablePred IsAscii := fun _ => inferInstanceAs (Decidable (_ ∧ _))

/-- A filter of the first `len` bytes: what its length promises. -/
structure ObeysLength (mem : Nat → Byte) (len : Nat) : Prop where
  reads : ∀ j, ReadsAt mem len j → j < len
  ends : ∃ b, Returns mem len b
  answer : ∀ b, Returns mem len b →
    (b = true ↔ ∀ k < len, (∀ j ≤ k, mem j ≠ 0) → IsAscii (mem k))
  agrees : ∀ mem' : Nat → Byte, (∀ j < len, mem' j = mem j) →
    ∀ b, Returns mem' len b ↔ Returns mem len b

/-! ### Single turns -/

theorem not_isAscii_iff {c : Byte} : ¬ IsAscii c ↔ c > maxAscii ∨ c < minAscii := by
  rw [IsAscii, not_and_or, or_comm, BitVec.not_le, BitVec.not_le, gt_iff_lt]

theorem IsAscii.ne_zero {c : Byte} (h : IsAscii c) : c ≠ 0 := by
  rintro rfl
  exact absurd h.1 (by decide)

variable {mem : Nat → Byte} {len : Nat}

theorem asciiStep_running (k : Nat) :
    asciiStep mem len ⟨k, 0, none⟩ =
      if mem k ≠ 0 ∧ 0 < len then
        if mem k > maxAscii ∨ mem k < minAscii then some ⟨k, 0, some false⟩
        else some ⟨k + 1, 0, none⟩
      else some ⟨k, 0, some true⟩ := rfl

/-- A byte that passes, while the length is not `0`, moves the pointer on. -/
theorem asciiStep_pass {k : Nat} (hlen : 0 < len) (h : IsAscii (mem k)) :
    asciiStep mem len ⟨k, 0, none⟩ = some ⟨k + 1, 0, none⟩ := by
  have hrange : ¬ (mem k > maxAscii ∨ mem k < minAscii) :=
    fun hout => not_isAscii_iff.mpr hout h
  rw [asciiStep_running, if_pos ⟨h.ne_zero, hlen⟩, if_neg hrange]

/-- A byte out of range ends the walk with `false`. -/
theorem asciiStep_reject {k : Nat} (hlen : 0 < len) (hne : mem k ≠ 0) (h : ¬ IsAscii (mem k)) :
    asciiStep mem len ⟨k, 0, none⟩ = some ⟨k, 0, some false⟩ := by
  rw [asciiStep_running, if_pos ⟨hne, hlen⟩, if_pos (not_isAscii_iff.mp h)]

/-- A NUL, or the length `0`, ends it with `true`. -/
theorem asciiStep_accept {k : Nat} (h : mem k = 0 ∨ len = 0) :
    asciiStep mem len ⟨k, 0, none⟩ = some ⟨k, 0, some true⟩ := by
  have hcond : ¬ (mem k ≠ 0 ∧ 0 < len) := by
    rintro ⟨hne, hlen⟩
    exact h.elim hne hlen.ne'
  rw [asciiStep_running, if_neg hcond]

/-! ### The walk -/

/-- A configuration in a run: the bytes passed, and why it has ended. -/
structure AsciiRun (mem : Nat → Byte) (len : Nat) (c : AsciiLoop) : Prop where
  i_eq : c.i = 0
  passed : ∀ j < c.s, 0 < len ∧ IsAscii (mem j)
  accepted : c.ret = some true → mem c.s = 0 ∨ len = 0
  rejected : c.ret = some false → 0 < len ∧ mem c.s ≠ 0 ∧ ¬ IsAscii (mem c.s)

theorem AsciiRun.start : AsciiRun mem len .start where
  i_eq := rfl
  passed := fun j hj => absurd hj (Nat.not_lt_zero j)
  accepted := fun h => by cases h
  rejected := fun h => by cases h

theorem AsciiRun.step {c c' : AsciiLoop} (h : AsciiRun mem len c)
    (hstep : asciiStep mem len c = some c') : AsciiRun mem len c' := by
  obtain ⟨k, i, ret⟩ := c
  obtain rfl : i = 0 := h.i_eq
  rcases ret with - | b
  · by_cases hstop : mem k = 0 ∨ len = 0
    · rw [asciiStep_accept hstop] at hstep
      cases hstep
      exact ⟨rfl, h.passed, fun _ => hstop, fun hret => by cases hret⟩
    · push Not at hstop
      have hlen : 0 < len := Nat.pos_of_ne_zero hstop.2
      by_cases hin : IsAscii (mem k)
      · rw [asciiStep_pass hlen hin] at hstep
        cases hstep
        refine ⟨rfl, ?_, fun hret => (by cases hret), fun hret => (by cases hret)⟩
        intro j hj
        rcases Nat.lt_succ_iff_lt_or_eq.mp hj with hlt | rfl
        · exact h.passed j hlt
        · exact ⟨hlen, hin⟩
      · rw [asciiStep_reject hlen hstop.1 hin] at hstep
        cases hstep
        exact ⟨rfl, h.passed, fun hret => (by cases hret), fun _ => ⟨hlen, hstop.1, hin⟩⟩
  · simp [asciiStep] at hstep

theorem AsciiRun.of_reaches {c : AsciiLoop} (h : Reaches (asciiStep mem len) .start c) :
    AsciiRun mem len c := by
  induction h with
  | refl => exact .start
  | tail _ hstep ih => exact ih.step hstep

/-- Bytes that pass are all walked over. -/
theorem reaches_walk {k : Nat} (h : ∀ j < k, 0 < len ∧ IsAscii (mem j)) :
    Reaches (asciiStep mem len) .start ⟨k, 0, none⟩ := by
  induction k with
  | zero => exact .refl
  | succ k ih =>
    obtain ⟨hlen, hk⟩ := h k (Nat.lt_succ_self k)
    exact (ih fun j hj => h j (Nat.lt_succ_of_lt hj)).tail (asciiStep_pass hlen hk)

theorem reads_iff {j : Nat} : ReadsAt mem len j ↔ ∀ k < j, 0 < len ∧ IsAscii (mem k) :=
  ⟨fun h => (AsciiRun.of_reaches h).passed, reaches_walk⟩

theorem returns_true_iff :
    Returns mem len true ↔
      ∃ k, (∀ j < k, 0 < len ∧ IsAscii (mem j)) ∧ (mem k = 0 ∨ len = 0) := by
  constructor
  · rintro ⟨c, hreach, hret⟩
    have hrun := AsciiRun.of_reaches hreach
    exact ⟨c.s, hrun.passed, hrun.accepted hret⟩
  · rintro ⟨k, hwalk, hstop⟩
    exact ⟨_, (reaches_walk hwalk).tail (asciiStep_accept hstop), rfl⟩

theorem returns_false_iff :
    Returns mem len false ↔
      ∃ k, (∀ j < k, IsAscii (mem j)) ∧ 0 < len ∧ mem k ≠ 0 ∧ ¬ IsAscii (mem k) := by
  constructor
  · rintro ⟨c, hreach, hret⟩
    have hrun := AsciiRun.of_reaches hreach
    exact ⟨c.s, fun j hj => (hrun.passed j hj).2, hrun.rejected hret⟩
  · rintro ⟨k, hwalk, hlen, hne, hout⟩
    have hreach : Reaches (asciiStep mem len) .start ⟨k, 0, none⟩ :=
      reaches_walk fun j hj => ⟨hlen, hwalk j hj⟩
    exact ⟨_, hreach.tail (asciiStep_reject hlen hne hout), rfl⟩

/-! ### The length -/

/-- The first byte that does not pass. -/
theorem exists_first_stop {k : Nat} (h : ¬ IsAscii (mem k)) :
    ∃ n ≤ k, ¬ IsAscii (mem n) ∧ ∀ j < n, IsAscii (mem j) := by
  have hex : ∃ n, ¬ IsAscii (mem n) := ⟨k, h⟩
  exact ⟨Nat.find hex, Nat.find_min' hex h, Nat.find_spec hex,
    fun j hj => not_not.mp (Nat.find_min hex hj)⟩

/-- Where the walk stops is also where it returns: `true` at a NUL. -/
theorem returns_at_stop {n : Nat} (hlen : 0 < len) (hstop : ¬ IsAscii (mem n))
    (hwalk : ∀ j < n, IsAscii (mem j)) (b : Bool) :
    Returns mem len b ↔ (b = true ↔ mem n = 0) := by
  have first {k : Nat} (hk : ∀ j < k, IsAscii (mem j)) (hout : ¬ IsAscii (mem k)) : k = n := by
    rcases lt_trichotomy k n with hlt | heq | hlt
    · exact absurd (hwalk k hlt) hout
    · exact heq
    · exact absurd (hk n hlt) hstop
  cases b with
  | true =>
    rw [returns_true_iff]
    constructor
    · rintro ⟨k, hk, hzero⟩
      have hmem : mem k = 0 := hzero.resolve_right hlen.ne'
      have hkn : k = n := first (fun j hj => (hk j hj).2) fun hin => hin.ne_zero hmem
      simpa [hkn] using hmem
    · intro h
      exact ⟨n, fun j hj => ⟨hlen, hwalk j hj⟩, .inl (h.mp rfl)⟩
  | false =>
    rw [returns_false_iff]
    constructor
    · rintro ⟨k, hk, -, hne, hout⟩
      obtain rfl : k = n := first hk hout
      simpa using hne
    · intro h
      exact ⟨n, hwalk, hlen, fun hzero => Bool.false_ne_true (h.mpr hzero), hstop⟩

/-- **The filter obeys its length exactly when a byte within the length stops
it.**  Otherwise it reads the byte at index `len`, and goes on from there. -/
theorem obeysLength_iff : ObeysLength mem len ↔ ∃ k < len, ¬ IsAscii (mem k) := by
  constructor
  · intro h
    by_contra hall
    push Not at hall
    have hreads : ReadsAt mem len len :=
      reads_iff.mpr fun k hk => ⟨Nat.zero_lt_of_lt hk, hall k hk⟩
    exact absurd (h.reads len hreads) (lt_irrefl len)
  · rintro ⟨k, hk, hout⟩
    obtain ⟨n, hnk, hstop, hwalk⟩ := exists_first_stop hout
    have hn : n < len := lt_of_le_of_lt hnk hk
    have hlen : 0 < len := Nat.zero_lt_of_lt hn
    refine ⟨?_, ?_, ?_, ?_⟩
    · intro j hj
      by_contra hge
      have hnj : n < j := hn.trans_le (not_lt.mp hge)
      exact hstop (reads_iff.mp hj n hnj).2
    · exact ⟨decide (mem n = 0), (returns_at_stop hlen hstop hwalk _).mpr (by simp)⟩
    · intro b hb
      rw [(returns_at_stop hlen hstop hwalk b).mp hb]
      constructor
      · intro hzero i _ hnul
        rcases lt_or_ge i n with hlt | hge
        · exact hwalk i hlt
        · exact absurd hzero (hnul n hge)
      · intro hall
        by_contra hne
        refine hstop (hall n hn fun j hj => ?_)
        rcases hj.lt_or_eq with hlt | rfl
        · exact (hwalk j hlt).ne_zero
        · exact hne
    · intro mem' hagree b
      have hsame : ∀ j ≤ n, mem' j = mem j := fun j hj => hagree j (lt_of_le_of_lt hj hn)
      have hstop' : ¬ IsAscii (mem' n) := by rwa [hsame n le_rfl]
      have hwalk' : ∀ j < n, IsAscii (mem' j) := by
        intro j hj
        rw [hsame j hj.le]
        exact hwalk j hj
      rw [returns_at_stop hlen hstop' hwalk', returns_at_stop hlen hstop hwalk, hsame n le_rfl]

/-- Only `'a'` is within the length; the byte behind it is read, and turns the
answer. -/
theorem length_not_obeyed : ¬ ObeysLength (memOf [0x61, 0x01]) 1 := by
  intro h
  have hreads : ReadsAt (memOf [0x61, 0x01]) 1 1 := by
    refine reads_iff.mpr fun k hk => ⟨Nat.one_pos, ?_⟩
    obtain rfl : k = 0 := Nat.lt_one_iff.mp hk
    decide
  exact absurd (h.reads 1 hreads) (lt_irrefl 1)

/-! ### NUL-terminated bodies -/

theorem stringIsAscii_cons {c : Byte} {len : Nat} (hlen : 0 < len) (hne : c ≠ 0) (s : List Byte) :
    stringIsAscii (c :: s) len = (decide (IsAscii c) && stringIsAscii s len) := by
  have hin : decide (IsAscii c) = (decide (9 ≤ c) && decide (c ≤ 126)) := Bool.decide_and ..
  rw [stringIsAscii, stringIsAscii, List.takeWhile_cons, if_pos (decide_eq_true hne),
    List.all_cons, decide_eq_false hlen.ne', Bool.false_or, Bool.false_or, hin]

/-- The walk over the rest of a string, from any point of it. -/
theorem reaches_rest {len : Nat} (hlen : 0 < len) (front s : List Byte) :
    ∃ k, Reaches (asciiStep (memOf (front ++ s)) len) ⟨front.length, 0, none⟩
      ⟨k, 0, some (stringIsAscii s len)⟩ := by
  induction s generalizing front with
  | nil =>
    have hmem : memOf (front ++ []) front.length = 0 := by simp [memOf]
    have hret : stringIsAscii [] len = true := by simp [stringIsAscii]
    rw [hret]
    exact ⟨_, .single (asciiStep_accept (.inl hmem))⟩
  | cons c s ih =>
    have hmem : memOf (front ++ c :: s) front.length = c := by simp [memOf]
    by_cases hzero : c = 0
    · have hret : stringIsAscii (c :: s) len = true := by simp [stringIsAscii, hzero]
      rw [hret]
      exact ⟨_, .single (asciiStep_accept (.inl (hmem.trans hzero)))⟩
    · by_cases hin : IsAscii c
      · have hret : stringIsAscii (c :: s) len = stringIsAscii s len := by
          rw [stringIsAscii_cons hlen hzero, decide_eq_true hin, Bool.true_and]
        obtain ⟨k, hk⟩ := ih (front ++ [c])
        rw [List.append_assoc, List.singleton_append, List.length_append, List.length_singleton] at hk
        rw [hret]
        exact ⟨k, .head (asciiStep_pass hlen (hmem.symm ▸ hin)) hk⟩
      · have hret : stringIsAscii (c :: s) len = false := by
          rw [stringIsAscii_cons hlen hzero, decide_eq_false hin, Bool.false_and]
        rw [hret]
        exact ⟨_, .single (asciiStep_reject hlen (by rwa [hmem]) (by rwa [hmem]))⟩

/-- The answer on a NUL-terminated body, whatever the length says. -/
theorem returns_memOf (s : List Byte) (len : Nat) :
    Returns (memOf s) len (stringIsAscii s len) := by
  rcases Nat.eq_zero_or_pos len with rfl | hlen
  · refine ⟨_, .single (asciiStep_accept (k := 0) (.inr rfl)), ?_⟩
    simp [stringIsAscii]
  · obtain ⟨k, hk⟩ := reaches_rest hlen [] s
    exact ⟨_, hk, rfl⟩

/-- On such a body nothing behind the NUL is read. -/
theorem reads_memOf {s : List Byte} {len j : Nat} (h : ReadsAt (memOf s) len j) :
    j ≤ s.length := by
  by_contra hgt
  have hin := (reads_iff.mp h s.length (not_le.mp hgt)).2
  exact hin.ne_zero (by simp [memOf])

end AktualizrNano
