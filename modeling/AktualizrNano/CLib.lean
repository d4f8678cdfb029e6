/-
AktualizrNano/CLib.lean

Bytes, little-endian scalars and the handful of C library functions that a
byte-level model of a C program keeps meeting: `strnlen`, `strncmp`,
`snprintf` (the bytes it stores) and the `%u` / `%d` conversions of `sscanf`.

Nothing here is about a particular program.  A C string is the list of the
bytes in front of its NUL; a `char` array is a `CharArray n`, a byte list of
fixed length, so that a buffer of the wrong size cannot be written down.

Scalars go through `leBytes` and `leNat`, which are inverse to each other on
lists of the right length; the base-256 value itself is Mathlib's
`Nat.ofDigits`.
-/
import Mathlib.Data.Nat.Digits.Lemmas
import Mathlib.Tactic.Linarith

namespace CLib

/-- One byte of memory. -/
abbrev Byte := BitVec 8

/-- The bytes of an ASCII literal. -/
def ascii (s : String) : List Byte := s.toList.map fun c => BitVec.ofNat 8 c.toNat

/-! ### Little-endian scalars -/

/-- The `n` low bytes of `v`, least significant first. -/
def leBytes : Nat → Nat → List Byte
  | 0, _ => []
  | n + 1, v => BitVec.ofNat 8 v :: leBytes n (v / 256)

/-- The number a little-endian byte string spells. -/
def leNat (bs : List Byte) : Nat := Nat.ofDigits 256 (bs.map BitVec.toNat)

@[simp] theorem leNat_nil : leNat [] = 0 := rfl

@[simp] theorem leNat_cons (b : Byte) (bs : List Byte) :
    leNat (b :: bs) = b.toNat + 256 * leNat bs := by
  simp [leNat, Nat.ofDigits_cons]

@[simp] theorem leBytes_length (n v : Nat) : (leBytes n v).length = n := by
  induction n generalizing v with
  | zero => rfl
  | succ n ih => simp [leBytes, ih]

theorem leNat_append (as bs : List Byte) :
    leNat (as ++ bs) = leNat as + 256 ^ as.length * leNat bs := by
  simp [leNat, Nat.ofDigits_append]

theorem leNat_lt (bs : List Byte) : leNat bs < 256 ^ bs.length := by
  have h := Nat.ofDigits_lt_base_pow_length (b := 256) (l := bs.map BitVec.toNat) (by decide)
    (by intro x hx; obtain ⟨b, -, rfl⟩ := List.mem_map.mp hx; exact b.isLt)
  simpa [leNat] using h

/-- Decoding keeps exactly the bytes that were written. -/
@[simp] theorem leNat_leBytes (n v : Nat) : leNat (leBytes n v) = v % 256 ^ n := by
  induction n generalizing v with
  | zero => simp [leBytes, Nat.mod_one]
  | succ n ih =>
    rw [leBytes, leNat_cons, BitVec.toNat_ofNat, ih, pow_succ' 256 n, Nat.mod_mul]

/-- A wide scalar is its low bytes followed by its high bytes. -/
theorem leBytes_add (m n v : Nat) :
    leBytes (m + n) v = leBytes m v ++ leBytes n (v / 256 ^ m) := by
  induction m generalizing v with
  | zero => simp [leBytes]
  | succ m ih =>
    rw [Nat.succ_add, leBytes, leBytes, ih, Nat.div_div_eq_div_mul, ← Nat.pow_succ']
    rfl

/-! ### Character arrays -/

/-- `char a[n]`: exactly `n` bytes. -/
structure CharArray (n : Nat) where
  bytes : List Byte
  length_eq : bytes.length = n

namespace CharArray

variable {n : Nat}

@[ext] theorem ext {a b : CharArray n} (h : a.bytes = b.bytes) : a = b := by
  cases a; cases b; cases h; rfl

attribute [simp] length_eq

instance : DecidableEq (CharArray n) := fun a b =>
  decidable_of_iff (a.bytes = b.bytes) ⟨CharArray.ext, congrArg _⟩

/-- `memset(a, 0, sizeof(a))`. -/
def zero (n : Nat) : CharArray n := ⟨List.replicate n 0, List.length_replicate ..⟩

/-- Copy `bs` to the front of the array; what lies past the end is cut. -/
def store (a : CharArray n) (bs : List Byte) : CharArray n :=
  ⟨(bs ++ a.bytes.drop bs.length).take n, by simp; omega⟩

/-- The C string held by the array. -/
def str (a : CharArray n) : List Byte := a.bytes.takeWhile (· ≠ 0)

@[simp] theorem zero_bytes : (zero n).bytes = List.replicate n 0 := rfl

theorem store_bytes_of_le {a : CharArray n} {bs : List Byte} (h : bs.length ≤ n) :
    (a.store bs).bytes = bs ++ a.bytes.drop bs.length := by
  apply List.take_of_length_le
  simp; omega

/-- Storing the whole new contents, or only what is new of them, is the same. -/
theorem store_append_drop {a : CharArray n} {bs : List Byte} (h : bs.length ≤ n) :
    a.store (bs ++ a.bytes.drop bs.length) = a.store bs := by
  apply CharArray.ext
  rw [store_bytes_of_le h, store_bytes_of_le (by simp; omega)]
  simp; omega

/-- A string that is stored with its NUL is the string the array holds. -/
theorem str_store {a : CharArray n} {text : List Byte} (hclean : ∀ b ∈ text, b ≠ 0)
    (hfits : text.length < n) : (a.store (text ++ [0])).str = text := by
  have hclean' : ∀ b ∈ text, decide (b ≠ 0) = true := fun b hb => decide_eq_true (hclean b hb)
  rw [str, store_bytes_of_le (by simpa using hfits), List.append_assoc,
    List.takeWhile_append_of_pos hclean']
  simp

@[simp] theorem zero_str : (zero n).str = [] := by
  cases n <;> simp [str, List.replicate_succ]

/-- A string that is stored in a cleared array needs no NUL of its own. -/
theorem str_store_zero {text : List Byte} (hclean : ∀ b ∈ text, b ≠ 0) (hfits : text.length < n) :
    ((zero n).store text).str = text := by
  have hclean' : ∀ b ∈ text, decide (b ≠ 0) = true := fun b hb => decide_eq_true (hclean b hb)
  obtain ⟨k, hk⟩ : ∃ k, n - text.length = k + 1 := ⟨n - text.length - 1, by omega⟩
  rw [str, store_bytes_of_le hfits.le, List.takeWhile_append_of_pos hclean', zero_bytes,
    List.drop_replicate, hk, List.replicate_succ]
  simp

theorem ne_zero_of_mem_str {a : CharArray n} {b : Byte} (h : b ∈ a.str) : b ≠ 0 :=
  of_decide_eq_true (List.all_eq_true.mp List.all_takeWhile b h)

/-- A string that ends within its array is shorter than the array. -/
theorem str_length_lt {a : CharArray n} (h : 0 ∈ a.bytes) : a.str.length < n := by
  by_contra hnot
  have hall := (List.takeWhile_prefix (p := (· ≠ 0)) (l := a.bytes)).eq_of_length_le
    (a.length_eq.le.trans (Nat.le_of_not_lt hnot))
  have hmem : (0 : Byte) ∈ a.str := by
    rw [str, hall]
    exact h
  exact ne_zero_of_mem_str hmem rfl

end CharArray

/-! ### Strings -/

/-- The memory that starts with `s`, with NULs behind it. -/
def memOf (s : List Byte) : Nat → Byte := fun k => s.getD k 0

/-- `bs` is written from address `d` on. -/
def place : (d : Nat) → (bs : List Byte) → (dst : Nat → Byte) → Nat → Byte
  | _, [], dst => dst
  | d, c :: bs, dst => place (d + 1) bs (Function.update dst d c)

theorem place_apply (d : Nat) (bs : List Byte) (dst : Nat → Byte) (k : Nat) :
    place d bs dst k = if d ≤ k ∧ k < d + bs.length then bs.getD (k - d) 0 else dst k := by
  induction bs generalizing d dst with
  | nil => exact (if_neg (by rw [List.length_nil]; omega)).symm
  | cons c bs ih =>
    rw [place, ih, List.length_cons]
    rcases lt_trichotomy k d with hlt | rfl | hgt
    · rw [if_neg (by omega), if_neg (by omega), Function.update_of_ne hlt.ne]
    · rw [if_neg (by omega), if_pos (by omega), Function.update_self, Nat.sub_self,
        List.getD_cons_zero]
    · have hsub : k - d = k - (d + 1) + 1 := by omega
      rw [Function.update_of_ne hgt.ne', hsub, List.getD_cons_succ]
      refine if_congr ?_ rfl rfl
      omega

/-- `strnlen(buf, n)`. -/
def strnlen (buf : List Byte) (n : Nat) : Nat := ((buf.take n).takeWhile (· ≠ 0)).length

theorem strnlen_le (buf : List Byte) (n : Nat) : strnlen buf n ≤ n :=
  (List.takeWhile_sublist _).length_le.trans (List.length_take_le ..)

/-- The length of the string in an array, bounded by its size. -/
theorem strnlen_bytes {n : Nat} (a : CharArray n) : strnlen a.bytes n = a.str.length := by
  rw [strnlen, List.take_of_length_le a.length_eq.le]
  rfl

theorem takeWhile_cons_string {b : Byte} (hb : b ≠ 0) (text : List Byte) :
    (b :: text).takeWhile (· ≠ 0) = b :: text.takeWhile (· ≠ 0) :=
  List.takeWhile_cons_of_pos (decide_eq_true hb)

/-- What stands in front of the first NUL. -/
theorem takeWhile_string {text : List Byte} (hclean : ∀ b ∈ text, b ≠ 0) (rest : List Byte) :
    (text ++ 0 :: rest).takeWhile (· ≠ 0) = text := by
  rw [List.takeWhile_append_of_pos fun b hb => decide_eq_true (hclean b hb)]
  simp

theorem strnlen_string {s : List Byte} (hs : ∀ b ∈ s, b ≠ 0) (rest : List Byte) (n : Nat) :
    strnlen (s ++ 0 :: rest) n = min n s.length := by
  induction s generalizing n with
  | nil => cases n <;> simp [strnlen]
  | cons c s ih =>
    cases n with
    | zero => simp [strnlen]
    | succ n =>
      have hc : c ≠ 0 := hs c List.mem_cons_self
      have htail := ih (fun b hb => hs b (List.mem_cons_of_mem _ hb)) n
      unfold strnlen at htail ⊢
      simp only [List.cons_append, List.take_succ_cons, List.takeWhile_cons, hc, ne_eq,
        not_false_eq_true, decide_true, if_true, List.length_cons, htail]
      omega

/-- How many bytes at `buf` are looked at by a function that stops at the NUL
or after `n` bytes. -/
def scanned (buf : List Byte) (n : Nat) : Nat := min n (strnlen buf n + 1)

/-- `strncmp(s, t, n)` on strings given without their NUL: the difference of
the first bytes that differ, `0` when a common NUL or the bound comes first. -/
def strncmp : List Byte → List Byte → Nat → Int
  | _, _, 0 => 0
  | s, t, n + 1 =>
    let a := s.headD 0
    let b := t.headD 0
    if a ≠ b then (a.toNat : Int) - b.toNat
    -- a common NUL ends both strings
    else if a = 0 then 0
    else strncmp s.tail t.tail n

@[simp] theorem strncmp_self (s : List Byte) (n : Nat) : strncmp s s n = 0 := by
  induction n generalizing s with
  | zero => rfl
  | succ n ih => simp [strncmp, ih]

theorem strncmp_cons_eq_zero_iff {a : Byte} {s t : List Byte} {n : Nat} :
    strncmp (a :: s) t (n + 1) = 0 ↔ a = t.headD 0 ∧ (a = 0 ∨ strncmp s t.tail n = 0) := by
  rw [strncmp, List.headD_cons, List.tail_cons]
  by_cases hne : a ≠ t.headD 0
  · rw [if_pos hne]
    exact iff_of_false (fun h => hne (BitVec.eq_of_toNat_eq (by omega))) fun h => hne h.1
  · rw [if_neg hne, and_iff_right (not_not.mp hne)]
    by_cases hnul : a = 0
    · rw [if_pos hnul]
      exact iff_of_true rfl (Or.inl hnul)
    · rw [if_neg hnul, or_iff_right hnul]

/-- **A comparison bounded by the first string**: it finds no difference if that
string begins the second one, or if a NUL ends both at the same place. -/
theorem strncmp_length_eq_zero_iff {s t : List Byte} :
    strncmp s t s.length = 0 ↔
      s <+: t ∨ 0 ∈ s ∧ s.takeWhile (· ≠ 0) = t.takeWhile (· ≠ 0) := by
  induction s generalizing t with
  | nil => exact iff_of_true rfl (Or.inl List.nil_prefix)
  | cons a s ih =>
    rw [List.length_cons, strncmp_cons_eq_zero_iff, ih]
    by_cases hnul : a = 0
    -- both have to end here, and what is behind does not count
    · subst hnul
      rw [and_iff_left (Or.inl rfl), and_iff_right List.mem_cons_self,
        List.takeWhile_cons_of_neg (by decide)]
      cases t with
      | nil => exact iff_of_true rfl (Or.inr rfl)
      | cons b t =>
        by_cases hb : 0 = b
        · subst hb
          exact iff_of_true rfl (Or.inr (List.takeWhile_cons_of_neg (by decide)).symm)
        · rw [takeWhile_cons_string (Ne.symm hb)]
          refine iff_of_false hb fun h => h.elim (fun h => ?_) fun h => ?_
          · exact hb (List.cons_prefix_cons.mp h).1
          · exact List.cons_ne_nil _ _ h.symm
    · have hmem : 0 ∈ a :: s ↔ 0 ∈ s := by
        rw [List.mem_cons, or_iff_right (Ne.symm hnul)]
      rw [or_iff_right hnul, hmem, takeWhile_cons_string hnul]
      cases t with
      | nil =>
        refine iff_of_false (fun h => hnul h.1) fun h => h.elim (fun h => ?_) fun h => ?_
        · exact absurd (List.prefix_nil.mp h) (List.cons_ne_nil a s)
        · exact List.cons_ne_nil _ _ h.2
      | cons b t =>
        by_cases hb : a = b
        · subst hb
          rw [List.cons_prefix_cons, takeWhile_cons_string hnul, List.cons_inj_right]
          exact ⟨fun h => h.2.imp_left (And.intro rfl), fun h => ⟨rfl, h.imp_left And.right⟩⟩
        · refine iff_of_false (fun h => hb h.1) fun h => h.elim (fun h => ?_) fun h => ?_
          · exact hb (List.cons_prefix_cons.mp h).1
          · obtain ⟨-, h⟩ := h
            rw [List.takeWhile_cons] at h
            split at h
            · exact hb (List.cons.inj h).1
            · cases h

theorem eq_of_strncmp {s t : List Byte} {n : Nat} (hs : ∀ b ∈ s, b ≠ 0) (ht : ∀ b ∈ t, b ≠ 0)
    (hlen : t.length < n) (h : strncmp s t n = 0) : s = t := by
  induction n generalizing s t with
  | zero => exact absurd hlen (Nat.not_lt_zero _)
  | succ n ih =>
    rw [strncmp] at h
    by_cases hne : s.headD 0 ≠ t.headD 0
    · rw [if_pos hne] at h
      exact absurd (BitVec.eq_of_toNat_eq (by omega)) hne
    · rw [if_neg hne] at h
      push Not at hne
      cases s with
      | nil =>
        cases t with
        | nil => rfl
        | cons b t => exact absurd hne.symm (ht b List.mem_cons_self)
      | cons a s =>
        have ha : a ≠ 0 := hs a List.mem_cons_self
        cases t with
        | nil => exact absurd hne ha
        | cons b t =>
          rw [List.headD_cons, if_neg ha, List.tail_cons, List.tail_cons] at h
          rw [show a = b from hne, ih (fun c hc => hs c (List.mem_cons_of_mem _ hc))
            (fun c hc => ht c (List.mem_cons_of_mem _ hc)) (Nat.lt_of_succ_lt_succ hlen) h]

/-- The bytes `snprintf(dst, size, ..)` stores for a formatted `text`. -/
def snprintf (size : Nat) (text : List Byte) : List Byte := text.take (size - 1) ++ [0]

/-- `%u`, `%d` of a non-negative number. -/
def decimal (n : Nat) : List Byte := (Nat.toDigits 10 n).map fun c => BitVec.ofNat 8 c.toNat

theorem decimal_digits {n : Nat} : ∀ b ∈ decimal n, 0x30 ≤ b.toNat ∧ b.toNat ≤ 0x39 := by
  intro b hb
  obtain ⟨c, hc, rfl⟩ := List.mem_map.mp hb
  have hdigit := Nat.isDigit_of_mem_toDigits (by decide) (by decide) hc
  rw [Char.isDigit, Bool.and_eq_true, decide_eq_true_eq, decide_eq_true_eq] at hdigit
  have hlow : 0x30 ≤ c.toNat := hdigit.1
  have hhigh : c.toNat ≤ 0x39 := hdigit.2
  rw [BitVec.toNat_ofNat, Nat.mod_eq_of_lt (by omega)]
  exact ⟨hlow, hhigh⟩

theorem decimal_length_le {n k : Nat} (hk : 0 < k) (h : n < 10 ^ k) : (decimal n).length ≤ k := by
  rw [decimal, List.length_map]
  exact (Nat.length_toDigits_le_iff (by decide) hk).mpr h

/-- `%d`. -/
def signedDecimal (n : BitVec 32) : List Byte :=
  if n.msb then ascii "-" ++ decimal (2 ^ 32 - n.toNat) else decimal n.toNat

/-- `%02x`. -/
def hex2 (b : Byte) : List Byte :=
  let digit (n : Nat) : Byte := BitVec.ofNat 8 (if n < 10 then 0x30 + n else 0x57 + n)
  [digit (b.toNat / 16), digit (b.toNat % 16)]

/-! ### `sscanf` -/

/-- `isspace` in the C locale. -/
def isSpace (b : Byte) : Bool := b = 0x20 || (0x09 ≤ b && b ≤ 0x0D)

/-- `isdigit`. -/
def isDigit (b : Byte) : Bool := 0x30 ≤ b && b ≤ 0x39

/-- `isxdigit`. -/
def isXDigit (b : Byte) : Bool :=
  isDigit b || (0x41 ≤ b && b ≤ 0x46) || (0x61 ≤ b && b ≤ 0x66)

/-- `tolower` in the C locale. -/
def toLower (b : Byte) : Byte := if 0x41 ≤ b ∧ b ≤ 0x5A then b + 0x20 else b

/-- The value of a run of decimal digits. -/
def digitsValue (ds : List Byte) : Nat := ds.foldl (fun v d => 10 * v + (d.toNat - 0x30)) 0

/-- What a decimal conversion of `sscanf` reads: white space, an optional
sign, decimal digits up to the first other character.  `none` when there is
no digit (matching failure: nothing is stored). -/
def scanDecimal (text : List Byte) : Option (Bool × Nat) :=
  let body := text.dropWhile isSpace
  let negative := body.head? = some 0x2D
  let digits := (if negative ∨ body.head? = some 0x2B then body.tail else body).takeWhile isDigit
  if digits = [] then none else some (negative, digitsValue digits)

/-- `sscanf(text, "%u", &x)`: the value stored, if any.  The language leaves
a magnitude of `2^32` or more undefined: `overflow` is what this C library
stores then. -/
def sscanfU (overflow : Bool → Nat → BitVec 32) (text : List Byte) : Option (BitVec 32) :=
  (scanDecimal text).map fun (negative, n) =>
    if 2 ^ 32 ≤ n then overflow negative n
    else if negative then -BitVec.ofNat 32 n else BitVec.ofNat 32 n

/-- `sscanf(text, "%d", &x)`, where `2^31` is the bound. -/
def sscanfD (overflow : Bool → Nat → BitVec 32) (text : List Byte) : Option (BitVec 32) :=
  (scanDecimal text).map fun (negative, n) =>
    if 2 ^ 31 ≤ n then overflow negative n
    else if negative then -BitVec.ofNat 32 n else BitVec.ofNat 32 n

end CLib
