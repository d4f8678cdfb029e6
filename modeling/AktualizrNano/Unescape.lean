/-
AktualizrNano/Unescape.lean

`replace_escaped_chars` at its two pointers: what it writes, how much, and what
stays as it was.  `replaceEscapedCharsAt_eq` says that the loop writes the bytes
of `replaceEscapedChars` and a NUL.

The source of the bytes is the body of a JSON string, a list of pieces that are
one character or one escape.  The loop knows four of the eight escapes and
writes nothing for the others, so it gives a body back exactly when it has none
of these (`unescapes_iff`).
-/
import AktualizrNano.Checkin
import AktualizrNano.JsonText
import Mathlib.Data.List.GetD

namespace AktualizrNano

open CLib JsonText

/-! ### The loop -/

/-- The `switch`: what is written for the character behind a backslash. -/
def switchEscape (c : Byte) : Option Byte :=
  if c = 0x6E then some 0x0A
  else if c = 0x72 then some 0x0D
  else if c = 0x22 then some 0x22
  else if c = 0x5C then some 0x5C
  else none

/-- The loop from `p` and `d` on, and the NUL behind it: the number of bytes
that `dst` holds then, and the memory. -/
def replaceEscapedCharsFrom (src : Nat → Byte) (len p d : Nat) (dst : Nat → Byte) :
    Nat × (Nat → Byte) :=
  if p < len then
    -- `p < src + len - 1`: one character more belongs to the text
    if src p = 0x5C ∧ p + 1 < len then
      match switchEscape (src (p + 1)) with
      | some c => replaceEscapedCharsFrom src len (p + 2) (d + 1) (Function.update dst d c)
      | none => replaceEscapedCharsFrom src len (p + 2) d dst
    else replaceEscapedCharsFrom src len (p + 1) (d + 1) (Function.update dst d (src p))
  else (d + 1, Function.update dst d 0)
termination_by len - p

/-- `replace_escaped_chars(dst, e, strlen(e))`. -/
def replaceEscapedCharsAt (dst : Nat → Byte) (e : List Byte) : Nat × (Nat → Byte) :=
  replaceEscapedCharsFrom (memOf e) e.length 0 0 dst

theorem replaceEscapedChars_escape (c : Byte) (rest : List Byte) :
    replaceEscapedChars (0x5C :: c :: rest)
      = (switchEscape c).toList ++ replaceEscapedChars rest := by
  rw [replaceEscapedChars, if_pos rfl, switchEscape]
  split_ifs <;> rfl

theorem replaceEscapedChars_char {c : Byte} (hc : c ≠ 0x5C) (rest : List Byte) :
    replaceEscapedChars (c :: rest) = c :: replaceEscapedChars rest := by
  cases rest with
  | nil => rfl
  | cons c' rest => rw [replaceEscapedChars, if_neg hc]

theorem memOf_append (front : List Byte) (c : Byte) (rest : List Byte) :
    memOf (front ++ c :: rest) front.length = c := by
  simp [memOf]

/-- The loop deals with the text `rest` behind `front`: it writes what
`replaceEscapedChars` says, and a NUL. -/
def Unescaped (front rest : List Byte) : Prop :=
  ∀ (d : Nat) (dst : Nat → Byte),
    replaceEscapedCharsFrom (memOf (front ++ rest)) (front ++ rest).length front.length d dst
      = (d + (replaceEscapedChars rest).length + 1,
          place d (replaceEscapedChars rest ++ [0]) dst)

theorem unescaped_nil (front : List Byte) : Unescaped front [] := by
  intro d dst
  rw [replaceEscapedCharsFrom, if_neg (by simp)]
  rfl

/-- A character that is copied. -/
theorem Unescaped.char {front rest : List Byte} {c : Byte} (h : Unescaped (front ++ [c]) rest)
    (hc : c ≠ 0x5C ∨ rest = []) : Unescaped front (c :: rest) := by
  intro d dst
  have hin : front.length < (front ++ c :: rest).length := by simp
  have hcopied : ¬ (memOf (front ++ c :: rest) front.length = 0x5C
      ∧ front.length + 1 < (front ++ c :: rest).length) := by
    rw [memOf_append]
    rintro ⟨hesc, hmore⟩
    rcases hc with hc | rfl
    · exact hc hesc
    · simp at hmore
  have hout : replaceEscapedChars (c :: rest) = c :: replaceEscapedChars rest := by
    rcases hc with hc | rfl
    · exact replaceEscapedChars_char hc rest
    · rfl
  have hfront : (front ++ [c]).length = front.length + 1 := by simp
  have hrest := h (d + 1) (Function.update dst d c)
  rw [List.append_assoc, List.singleton_append, hfront] at hrest
  rw [replaceEscapedCharsFrom, if_pos hin, if_neg hcopied, memOf_append, hout, List.cons_append,
    place]
  refine hrest.trans (Prod.ext ?_ rfl)
  rw [List.length_cons]
  omega

/-- An escape, known or not. -/
theorem Unescaped.escape {front rest : List Byte} {c : Byte}
    (h : Unescaped (front ++ [0x5C, c]) rest) : Unescaped front (0x5C :: c :: rest) := by
  intro d dst
  have hin : front.length < (front ++ 0x5C :: c :: rest).length := by simp
  have hesc : memOf (front ++ 0x5C :: c :: rest) front.length = 0x5C
      ∧ front.length + 1 < (front ++ 0x5C :: c :: rest).length :=
    ⟨memOf_append .., by simp⟩
  have hnext : memOf (front ++ 0x5C :: c :: rest) (front.length + 1) = c := by simp [memOf]
  have hfront : (front ++ [0x5C, c]).length = front.length + 2 := by simp
  have hrest := fun d dst => h d dst
  simp only [hfront, List.append_assoc, List.cons_append, List.nil_append] at hrest
  rw [replaceEscapedCharsFrom, if_pos hin, if_pos hesc, hnext, replaceEscapedChars_escape]
  cases switchEscape c with
  | none => exact hrest d dst
  | some b =>
    refine (hrest (d + 1) (Function.update dst d b)).trans (Prod.ext ?_ rfl)
    rw [Option.toList_some, List.singleton_append, List.length_cons]
    omega

theorem unescaped : ∀ rest front : List Byte, Unescaped front rest
  | [], front => unescaped_nil front
  | [c], front => (unescaped [] (front ++ [c])).char (.inr rfl)
  | c :: c' :: rest, front => by
    by_cases hc : c = 0x5C
    · subst hc
      exact (unescaped rest (front ++ [0x5C, c'])).escape
    · exact (unescaped (c' :: rest) (front ++ [c])).char (.inl hc)

/-- **What the function writes**: the bytes of `replaceEscapedChars` and a NUL,
from the start of `dst` on. -/
theorem replaceEscapedCharsAt_eq (dst : Nat → Byte) (e : List Byte) :
    replaceEscapedCharsAt dst e
      = ((replaceEscapedChars e).length + 1, place 0 (replaceEscapedChars e ++ [0]) dst) := by
  have h := unescaped e [] 0 dst
  rwa [List.nil_append, Nat.zero_add] at h

/-- What is written is no longer than the source. -/
theorem replaceEscapedChars_length : ∀ e : List Byte, (replaceEscapedChars e).length ≤ e.length
  | [] => le_rfl
  | [_] => le_rfl
  | c :: c' :: rest => by
    by_cases hc : c = 0x5C
    · subst hc
      have hlen : (switchEscape c').toList.length ≤ 1 := by cases switchEscape c' <;> simp
      have hrest := replaceEscapedChars_length rest
      rw [replaceEscapedChars_escape, List.length_append, List.length_cons, List.length_cons]
      omega
    · have hrest := replaceEscapedChars_length (c' :: rest)
      rw [replaceEscapedChars_char hc]
      exact Nat.succ_le_succ hrest

/-- What `parse_config` unescapes fits the array it passes. -/
theorem replaceEscapedCharsAt_fits {e : List Byte} (h : e.length < unescapedTomlSize)
    (dst : Nat → Byte) : (replaceEscapedCharsAt dst e).1 ≤ unescapedTomlSize := by
  have hshort := replaceEscapedChars_length e
  rw [replaceEscapedCharsAt_eq]
  show _ + 1 ≤ unescapedTomlSize
  omega

/-! ### Bodies of JSON strings -/

/-- A character that stands for itself. -/
structure LiteralChar where
  char : Byte
  ne_zero : char ≠ 0
  ne_quotationMark : char ≠ 0x22
  ne_reverseSolidus : char ≠ 0x5C

/-- A piece of the body. -/
inductive Piece
  | literal (c : LiteralChar)
  | escape (x : Escape)

/-- How it is written. -/
def Piece.text : Piece → List Byte
  | literal c => [c.char]
  | escape x => [0x5C, x.letter]

/-- What it stands for. -/
def Piece.char : Piece → Byte
  | literal c => c.char
  | escape x => x.char

theorem Piece.char_ne_zero (piece : Piece) : piece.char ≠ 0 := by
  cases piece with
  | literal c => exact c.ne_zero
  | escape x => exact x.char_ne_zero

/-- The encoding. -/
def textOf (body : List Piece) : List Byte := body.flatMap Piece.text

/-- The string that it encodes. -/
def stringOf (body : List Piece) : List Byte := body.map Piece.char

theorem stringOf_ne_zero {body : List Piece} : ∀ c ∈ stringOf body, c ≠ 0 := by
  intro c hc
  obtain ⟨piece, -, rfl⟩ := List.mem_map.mp hc
  exact piece.char_ne_zero

/-- The escapes that the `switch` has a case for. -/
def KnownEscape (x : Escape) : Prop :=
  x = .lineFeed ∨ x = .carriageReturn ∨ x = .quotationMark ∨ x = .reverseSolidus

theorem switchEscape_letter (x : Escape) :
    (KnownEscape x → switchEscape x.letter = some x.char) ∧
      (¬ KnownEscape x → switchEscape x.letter = none) := by
  unfold KnownEscape
  cases x <;> decide

/-- What the function makes of a piece. -/
def Piece.unescaped : Piece → Option Byte
  | literal c => some c.char
  | escape x => switchEscape x.letter

/-- Piece by piece. -/
theorem replaceEscapedChars_textOf (body : List Piece) :
    replaceEscapedChars (textOf body) = body.filterMap Piece.unescaped := by
  induction body with
  | nil => rfl
  | cons piece body ih =>
    rw [textOf, List.flatMap_cons]
    cases piece with
    | literal c =>
      rw [List.filterMap_cons, ← ih]
      exact replaceEscapedChars_char c.ne_reverseSolidus _
    | escape x =>
      rw [Piece.text, List.cons_append, List.singleton_append, replaceEscapedChars_escape,
        List.filterMap_cons, Piece.unescaped]
      cases switchEscape x.letter with
      | none => exact ih
      | some c => exact congrArg (c :: ·) ih

theorem unescaped_isSome_iff (piece : Piece) :
    piece.unescaped.isSome ↔ ∀ x, piece = .escape x → KnownEscape x := by
  cases piece with
  | literal c => exact iff_of_true rfl fun x h => by cases h
  | escape x =>
    obtain ⟨hknown, hunknown⟩ := switchEscape_letter x
    constructor
    · rintro h y ⟨⟩
      by_contra hx
      rw [Piece.unescaped, hunknown hx] at h
      exact Bool.false_ne_true h
    · intro h
      rw [Piece.unescaped, hknown (h x rfl)]
      rfl

theorem unescaped_eq_char {piece : Piece} (h : piece.unescaped.isSome) :
    piece.unescaped = some piece.char := by
  cases piece with
  | literal c => rfl
  | escape x => exact (switchEscape_letter x).1 ((unescaped_isSome_iff _).mp h x rfl)

/-! ### The decoder -/

/-- `replace_escaped_chars(dst, e, |e|)` decodes `e`: `dst` holds `s` and a NUL,
and no more of it than `|e| + 1` bytes has been written. -/
structure UnescapesTo (e s : List Byte) : Prop where
  string : ∀ dst, ∀ k ≤ s.length, (replaceEscapedCharsAt dst e).2 k = memOf s k
  bytes : ∀ dst, (replaceEscapedCharsAt dst e).1 ≤ e.length + 1
  frame : ∀ dst, ∀ k, e.length < k → (replaceEscapedCharsAt dst e).2 k = dst k

/-- The function decodes `e` to `s` when that is what it writes. -/
theorem unescapesTo_iff {e s : List Byte} (hs : ∀ c ∈ s, c ≠ 0)
    (hlen : (replaceEscapedChars e).length ≤ s.length) :
    UnescapesTo e s ↔ replaceEscapedChars e = s := by
  have hshort := replaceEscapedChars_length e
  have hat : ∀ dst k, (replaceEscapedCharsAt dst e).2 k
      = if k < (replaceEscapedChars e).length + 1 then memOf (replaceEscapedChars e ++ [0]) k
        else dst k := by
    intro dst k
    rw [replaceEscapedCharsAt_eq]
    show place 0 _ dst k = _
    rw [place_apply, Nat.zero_add, Nat.sub_zero, List.length_append, List.length_singleton]
    exact if_congr (and_iff_right (Nat.zero_le k)) rfl rfl
  constructor
  · intro h
    -- the NUL in `dst` shows how long the string is
    have hfull : s.length ≤ (replaceEscapedChars e).length := by
      by_contra hlt
      have hnul := h.string (fun _ => 0) (replaceEscapedChars e).length hlen
      rw [hat, if_pos (Nat.lt_succ_self _), memOf_append, memOf,
        List.getD_eq_getElem _ _ (not_le.mp hlt)] at hnul
      exact hs _ (List.getElem_mem _) hnul.symm
    refine List.ext_getElem (le_antisymm hlen hfull) fun k hk hk' => ?_
    have hbyte := h.string (fun _ => 0) k hk'.le
    rwa [hat, if_pos (Nat.lt_succ_of_lt hk), memOf, memOf, List.getD_append _ _ _ _ hk,
      List.getD_eq_getElem _ _ hk, List.getD_eq_getElem _ _ hk'] at hbyte
  · rintro rfl
    refine ⟨fun dst k hk => ?_, fun dst => ?_, fun dst k hk => ?_⟩
    · rw [hat, if_pos (Nat.lt_succ_of_le hk)]
      rcases hk.lt_or_eq with hlt | rfl
      · rw [memOf, memOf, List.getD_append _ _ _ _ hlt]
      · rw [memOf_append, memOf, List.getD_eq_default _ _ le_rfl]
    · rw [replaceEscapedCharsAt_eq]
      exact Nat.succ_le_succ hshort
    · rw [hat, if_neg (by omega)]

/-- **Unescaping inverts the encoding exactly for the escapes it knows.**  A
body that has another one loses a character there. -/
theorem unescapes_iff (body : List Piece) :
    UnescapesTo (textOf body) (stringOf body) ↔ ∀ x, Piece.escape x ∈ body → KnownEscape x := by
  have hlen : (replaceEscapedChars (textOf body)).length ≤ (stringOf body).length := by
    rw [replaceEscapedChars_textOf, stringOf, List.length_map]
    exact List.length_filterMap_le ..
  rw [unescapesTo_iff stringOf_ne_zero hlen, replaceEscapedChars_textOf]
  constructor
  · intro h x hx
    have hall : ∀ piece ∈ body, piece.unescaped.isSome := by
      rw [← List.filterMap_length_eq_length, h, stringOf, List.length_map]
    exact (unescaped_isSome_iff _).mp (hall _ hx) x rfl
  · intro h
    have hkept : ∀ piece ∈ body, piece.unescaped = some piece.char := by
      intro piece hpiece
      refine unescaped_eq_char ((unescaped_isSome_iff piece).mpr ?_)
      rintro x rfl
      exact h x hpiece
    rw [List.filterMap_congr hkept]
    exact congrFun List.filterMap_eq_map' body

/-- The body `\/` stands for a slash; nothing is written for it. -/
theorem solidus_lost :
    ¬ UnescapesTo (textOf [.escape .solidus]) (stringOf [.escape .solidus]) := by
  intro h
  have hout : replaceEscapedChars (textOf [.escape .solidus]) = stringOf [.escape .solidus] :=
    (unescapesTo_iff stringOf_ne_zero (by decide)).mp h
  exact absurd hout (by decide)

end AktualizrNano
