/-
AktualizrNano/JsonText.lean

JSON as a text of bytes: the grammar of strings, numbers and values as a
relation between a text, what is read from it and what is left.

A value can be printed with its strings as they are.  The body of a string that
consists of characters that stand for themselves is `Plain`, and only such a
body is read as the very bytes it is made of: every escape is longer than what
it stands for, and a quotation mark ends the string (`ReadsString.outcome`).  So
a text printed without escapes decodes to its value exactly if all strings of
the value are plain (`decodes_raw_iff`).
-/
import AktualizrNano.CLib

namespace JsonText

open CLib

/-! ### Escapes -/

/-- The escapes of two characters. -/
inductive Escape
  | quotationMark
  | reverseSolidus
  | solidus
  | backspace
  | formFeed
  | lineFeed
  | carriageReturn
  | tab
  deriving DecidableEq

/-- What follows the backslash. -/
def Escape.letter : Escape → Byte
  | quotationMark => 0x22
  | reverseSolidus => 0x5C
  | solidus => 0x2F
  | backspace => 0x62
  | formFeed => 0x66
  | lineFeed => 0x6E
  | carriageReturn => 0x72
  | tab => 0x74

/-- What the escape stands for. -/
def Escape.char : Escape → Byte
  | quotationMark => 0x22
  | reverseSolidus => 0x5C
  | solidus => 0x2F
  | backspace => 0x08
  | formFeed => 0x0C
  | lineFeed => 0x0A
  | carriageReturn => 0x0D
  | tab => 0x09

theorem Escape.char_ne_zero (x : Escape) : x.char ≠ 0 := by
  cases x <;> decide

/-! ### Characters -/

/-- The code of a character. -/
def utf8 (c : Char) : List Byte := (String.utf8EncodeChar c).map UInt8.toBitVec

/-- The characters that stand for themselves in a string. -/
def Unescaped (c : Char) : Prop := 0x20 ≤ c.toNat ∧ c.toNat ≠ 0x22 ∧ c.toNat ≠ 0x5C

theorem utf8_ascii {c : Char} (h : c.toNat < 0x80) : utf8 c = [BitVec.ofNat 8 c.toNat] := by
  have hle : c.val.toNat ≤ 0x7F := Nat.le_of_lt_succ h
  rw [utf8, String.utf8EncodeChar, if_pos hle]
  rfl

/-- All bytes of another character have their highest bit set. -/
theorem utf8_high {c : Char} (h : 0x80 ≤ c.toNat) {b : Byte} (hb : b ∈ utf8 c) :
    0x80 ≤ b.toNat := by
  have hbyte : ∀ n base : Nat, 0x80 ≤ base → n + base < 0x100 →
      0x80 ≤ (UInt8.ofNat (n + base)).toBitVec.toNat := by
    intro n base hbase hlt
    show 0x80 ≤ (n + base) % 2 ^ 8
    omega
  have hlong : ¬ c.val.toNat ≤ 0x7F := Nat.not_le_of_gt h
  obtain ⟨x, hx, rfl⟩ := List.mem_map.mp hb
  rw [String.utf8EncodeChar, if_neg hlong] at hx
  have hfollowing : ∀ n : Nat, n % 0x40 + 0x80 < 0x100 := fun n => by omega
  split at hx
  · rcases List.mem_pair.mp hx with rfl | rfl
    · exact hbyte _ _ (by decide) (by omega)
    · exact hbyte _ _ (by decide) (hfollowing _)
  split at hx
  · rcases List.mem_cons.mp hx with rfl | hx
    · exact hbyte _ _ (by decide) (by omega)
    rcases List.mem_pair.mp hx with rfl | rfl
    · exact hbyte _ _ (by decide) (hfollowing _)
    · exact hbyte _ _ (by decide) (hfollowing _)
  · rcases List.mem_cons.mp hx with rfl | hx
    · exact hbyte _ _ (by decide) (by omega)
    rcases List.mem_cons.mp hx with rfl | hx
    · exact hbyte _ _ (by decide) (hfollowing _)
    rcases List.mem_pair.mp hx with rfl | rfl
    · exact hbyte _ _ (by decide) (hfollowing _)
    · exact hbyte _ _ (by decide) (hfollowing _)

theorem utf8_ne_nil (c : Char) : utf8 c ≠ [] :=
  List.map_eq_nil_iff.not.mpr String.utf8EncodeChar_ne_nil

theorem utf8_length_le (c : Char) : (utf8 c).length ≤ 4 := by
  rw [utf8, List.length_map, String.length_utf8EncodeChar]
  exact Char.utf8Size_le_four c

/-- A byte of ASCII stands alone: the code of a character is in front of it or
behind it. -/
theorem utf8_append_cases {c : Char} {t front rest : List Byte} {b : Byte} (hb : b.toNat < 0x80)
    (h : utf8 c ++ t = front ++ b :: rest) :
    (front = [] ∧ utf8 c = [b] ∧ t = rest) ∨ ∃ front', front = utf8 c ++ front' ∧
      t = front' ++ b :: rest := by
  rcases List.append_eq_append_iff.mp h with ⟨front', hfront, ht⟩ | ⟨code, hcode, hrest⟩
  · exact .inr ⟨front', hfront, ht⟩
  · rcases code with - | ⟨b', code⟩
    · exact .inr ⟨[], hcode.symm ▸ by simp, hrest.symm⟩
    · obtain ⟨rfl, htail⟩ := List.cons.inj hrest
      have hmem : b ∈ utf8 c := hcode ▸ List.mem_append_right _ List.mem_cons_self
      have hascii : c.toNat < 0x80 := by
        by_contra hhigh
        exact absurd (utf8_high (Nat.le_of_not_lt hhigh) hmem) (Nat.not_le_of_gt hb)
      have hsingle := utf8_ascii hascii
      rw [hsingle] at hcode
      have hlength := congrArg List.length hcode
      rw [List.length_singleton, List.length_append, List.length_cons] at hlength
      obtain rfl : front = [] := List.length_eq_zero_iff.mp (by omega)
      obtain rfl : code = [] := List.length_eq_zero_iff.mp (by omega)
      exact .inl ⟨rfl, hsingle.trans hcode, htail.symm⟩

theorem toNat_of_utf8_eq {c : Char} {b : Byte} (hb : b.toNat < 0x80) (h : utf8 c = [b]) :
    c.toNat = b.toNat := by
  have hascii : c.toNat < 0x80 := by
    by_contra hhigh
    have hmem : b ∈ utf8 c := h ▸ List.mem_singleton_self b
    exact absurd (utf8_high (Nat.le_of_not_lt hhigh) hmem) (Nat.not_le_of_gt hb)
  rw [utf8_ascii hascii] at h
  rw [← (List.cons.inj h).1, BitVec.toNat_ofNat]
  exact (Nat.mod_eq_of_lt (by omega)).symm

/-- Characters that stand for themselves. -/
def Plain (text : List Byte) : Prop :=
  ∃ cs : List Char, (∀ c ∈ cs, Unescaped c) ∧ text = cs.flatMap utf8

theorem Plain.nil : Plain [] := ⟨[], by rintro _ ⟨⟩, rfl⟩

theorem Plain.cons {c : Char} {text : List Byte} (hc : Unescaped c) (h : Plain text) :
    Plain (utf8 c ++ text) := by
  obtain ⟨cs, hcs, rfl⟩ := h
  exact ⟨c :: cs, List.forall_mem_cons.mpr ⟨hc, hcs⟩, rfl⟩

theorem Plain.append {front rest : List Byte} (hfront : Plain front) (hrest : Plain rest) :
    Plain (front ++ rest) := by
  obtain ⟨cs, hcs, rfl⟩ := hfront
  obtain ⟨cs', hcs', rfl⟩ := hrest
  refine ⟨cs ++ cs', ?_, List.flatMap_append.symm⟩
  rintro c hc
  rcases List.mem_append.mp hc with hc | hc
  · exact hcs c hc
  · exact hcs' c hc

/-- A byte of ASCII parts a text. -/
theorem Plain.split {front rest : List Byte} {b : Byte} (hb : b.toNat < 0x80)
    (h : Plain (front ++ b :: rest)) : Plain front ∧ Plain rest := by
  obtain ⟨cs, hcs, htext⟩ := h
  induction cs generalizing front with
  | nil => exact absurd (congrArg List.length htext) (by simp)
  | cons c cs ih =>
    obtain ⟨hc, hcs⟩ := List.forall_mem_cons.mp hcs
    rcases utf8_append_cases hb htext.symm with ⟨rfl, -, rfl⟩ | ⟨front', rfl, ht⟩
    · exact ⟨Plain.nil, cs, hcs, rfl⟩
    · obtain ⟨hfront, hrest⟩ := ih hcs ht.symm
      exact ⟨hfront.cons hc, hrest⟩

/-- The characters of ASCII that stand for themselves. -/
def PlainByte (b : Byte) : Prop :=
  0x20 ≤ b.toNat ∧ b.toNat < 0x80 ∧ b.toNat ≠ 0x22 ∧ b.toNat ≠ 0x5C

instance (b : Byte) : Decidable (PlainByte b) := inferInstanceAs (Decidable (_ ∧ _))

theorem plainBytes_of_all {text : List Byte} (h : text.all (fun b => decide (PlainByte b)) = true) :
    ∀ b ∈ text, PlainByte b :=
  fun b hb => of_decide_eq_true (List.all_eq_true.mp h b hb)

theorem PlainByte.exists_char {b : Byte} (h : PlainByte b) : ∃ c, Unescaped c ∧ utf8 c = [b] := by
  obtain ⟨hlow, hhigh, hquote, hbackslash⟩ := h
  have hvalid : b.toNat.isValidChar := .inl (by omega)
  have hc : (Char.ofNatAux b.toNat hvalid).toNat = b.toNat := rfl
  refine ⟨Char.ofNatAux b.toNat hvalid, ⟨hlow, hquote, hbackslash⟩, ?_⟩
  have hcode := utf8_ascii (c := Char.ofNatAux b.toNat hvalid) hhigh
  rwa [hc, BitVec.ofNat_toNat, BitVec.setWidth_eq] at hcode

theorem plain_of_bytes {text : List Byte} (h : ∀ b ∈ text, PlainByte b) : Plain text := by
  induction text with
  | nil => exact Plain.nil
  | cons b text ih =>
    obtain ⟨hb, htext⟩ := List.forall_mem_cons.mp h
    obtain ⟨c, hc, hcode⟩ := hb.exists_char
    have hplain := (ih htext).cons hc
    rwa [hcode] at hplain

/-- The ASCII of a plain text is plain. -/
theorem Plain.plainByte {text : List Byte} (h : Plain text) {b : Byte} (hmem : b ∈ text)
    (hb : b.toNat < 0x80) : PlainByte b := by
  obtain ⟨cs, hcs, rfl⟩ := h
  obtain ⟨c, hc, hcode⟩ := List.mem_flatMap.mp hmem
  obtain ⟨front, rest, hsplit⟩ := List.append_of_mem hcode
  have hparts : utf8 c ++ [] = front ++ b :: rest := by rw [List.append_nil, hsplit]
  rcases utf8_append_cases hb hparts with ⟨-, hsingle, -⟩ | ⟨front', -, hnil⟩
  · have hnat := toNat_of_utf8_eq hb hsingle
    obtain ⟨hlow, hquote, hbackslash⟩ := hcs c hc
    exact ⟨hnat ▸ hlow, hb, hnat ▸ hquote, hnat ▸ hbackslash⟩
  · exact absurd hnil.symm (List.append_ne_nil_of_right_ne_nil _ (List.cons_ne_nil _ _))

theorem plain_bytes_append_iff {front text : List Byte} (h : ∀ b ∈ front, PlainByte b) :
    Plain (front ++ text) ↔ Plain text := by
  constructor
  · intro hplain
    induction front with
    | nil => exact hplain
    | cons b front ih =>
      obtain ⟨hb, hfront⟩ := List.forall_mem_cons.mp h
      have hparts : Plain ([] ++ b :: (front ++ text)) := hplain
      exact ih hfront (hparts.split hb.2.1).2
  · exact (plain_of_bytes h).append

theorem plain_append_bytes_iff {text rest : List Byte} (h : ∀ b ∈ rest, PlainByte b) :
    Plain (text ++ rest) ↔ Plain text := by
  constructor
  · intro hplain
    cases rest with
    | nil => rwa [List.append_nil] at hplain
    | cons b rest => exact (hplain.split (h b List.mem_cons_self).2.1).1
  · exact fun hplain => hplain.append (plain_of_bytes h)

/-! ### Escapes with a number -/

/-- The value of a hexadecimal digit. -/
def hexValue (b : Byte) : Nat :=
  if b ≤ 0x39 then b.toNat - 0x30 else if b ≤ 0x46 then b.toNat - 0x37 else b.toNat - 0x57

/-- Four digits, and the number they spell. -/
def IsHex4 (digits : List Byte) (v : Nat) : Prop :=
  digits.length = 4 ∧ (∀ b ∈ digits, isXDigit b) ∧
    digits.foldl (fun v b => 16 * v + hexValue b) 0 = v

/-- What follows a backslash, and the text it stands for.  A character has no
surrogate as its number, so a surrogate needs another one. -/
inductive ReadsEscape : List Byte → List Byte → Prop
  | letter (x : Escape) : ReadsEscape [x.letter] [x.char]
  | number {c : Char} {digits : List Byte} (h : IsHex4 digits c.toNat) :
    ReadsEscape (0x75 :: digits) (utf8 c)
  | pair {c : Char} {high low : List Byte} {hi lo : Nat} (hhigh : IsHex4 high (0xD800 + hi))
    (hlow : IsHex4 low (0xDC00 + lo)) (hhi : hi < 0x400) (hlo : lo < 0x400)
    (hc : c.toNat = 0x10000 + 0x400 * hi + lo) :
    ReadsEscape (0x75 :: high ++ 0x5C :: 0x75 :: low) (utf8 c)

/-- What an escape stands for is shorter. -/
theorem ReadsEscape.length_le {e text : List Byte} (h : ReadsEscape e text) :
    text.length ≤ e.length := by
  cases h with
  | letter x => exact le_rfl
  | @number c digits h =>
    have hlength := utf8_length_le c
    rw [List.length_cons, h.1]
    omega
  | @pair c high low _ _ hhigh =>
    have hlength := utf8_length_le c
    rw [List.length_append, List.length_cons, hhigh.1]
    omega

/-- A quotation mark in an escape is the whole of it. -/
theorem ReadsEscape.quote {e text : List Byte} (h : ReadsEscape e text) (hmem : 0x22 ∈ e) :
    e = [0x22] ∧ text = [0x22] := by
  have hdigits : ∀ {digits : List Byte} {v : Nat}, IsHex4 digits v → 0x22 ∉ digits :=
    fun h hmem => absurd (h.2.1 _ hmem) (by decide)
  cases h with
  | letter x => cases x <;> first | exact ⟨rfl, rfl⟩ | exact absurd hmem (by decide)
  | number h =>
    rcases List.mem_cons.mp hmem with heq | hmem
    · exact absurd heq (by decide)
    · exact absurd hmem (hdigits h)
  | pair hhigh hlow =>
    simp only [List.mem_append, List.mem_cons, hdigits hhigh, hdigits hlow] at hmem
    exact absurd hmem (by decide)

/-- A quotation mark stands behind an escape, or is the escaped character. -/
theorem ReadsEscape.append_cases {e text t front rest : List Byte} (he : ReadsEscape e text)
    (h : 0x5C :: e ++ t = front ++ 0x22 :: rest) :
    (front = [0x5C] ∧ text = [0x22] ∧ t = rest) ∨ ∃ front', front = 0x5C :: e ++ front' ∧
      t = front' ++ 0x22 :: rest := by
  rcases List.append_eq_append_iff.mp h with ⟨front', hfront, ht⟩ | ⟨code, hcode, hrest⟩
  · exact .inr ⟨front', hfront, ht⟩
  rcases code with - | ⟨b, code⟩
  · exact .inr ⟨[], by rw [hcode, List.append_nil, List.append_nil], hrest.symm⟩
  obtain ⟨rfl, htail⟩ : 0x22 = b ∧ rest = code ++ t := List.cons.inj hrest
  rcases front with - | ⟨b, front⟩
  · exact absurd (List.cons.inj hcode).1 (by decide)
  obtain ⟨rfl, he'⟩ : 0x5C = b ∧ e = front ++ 0x22 :: code := List.cons.inj hcode
  obtain ⟨rfl, rfl⟩ := he.quote (he' ▸ List.mem_append_right _ List.mem_cons_self)
  have hlength := congrArg List.length he'
  rw [List.length_singleton, List.length_append, List.length_cons] at hlength
  obtain rfl : front = [] := List.length_eq_zero_iff.mp (by omega)
  obtain rfl : code = [] := List.length_eq_zero_iff.mp (by omega)
  exact .inl ⟨rfl, rfl, htail.symm⟩

/-! ### Strings -/

/-- The body of a string is read up to the quotation mark that ends it: the
text, the body and what is left. -/
inductive ReadsString : List Byte → List Byte → List Byte → Prop
  | quote (rest : List Byte) : ReadsString (0x22 :: rest) [] rest
  | char {c : Char} {t body rest : List Byte} (hc : Unescaped c) (h : ReadsString t body rest) :
    ReadsString (utf8 c ++ t) (utf8 c ++ body) rest
  | escape {e text t body rest : List Byte} (he : ReadsEscape e text)
    (h : ReadsString t body rest) : ReadsString (0x5C :: e ++ t) (text ++ body) rest

theorem Plain.reads {text : List Byte} (h : Plain text) (rest : List Byte) :
    ReadsString (text ++ 0x22 :: rest) text rest := by
  obtain ⟨cs, hcs, rfl⟩ := h
  induction cs with
  | nil => exact ReadsString.quote rest
  | cons c cs ih =>
    obtain ⟨hc, hcs⟩ := List.forall_mem_cons.mp hcs
    rw [List.flatMap_cons, List.append_assoc]
    exact ReadsString.char hc (ih hcs)

/-- What can be read where `front` and a quotation mark stand: `front` itself,
if it is plain; something shorter; or, if it ends with a backslash, a text that
ends where `rest` has its quotation mark. -/
theorem ReadsString.outcome {text body r : List Byte} (h : ReadsString text body r)
    {front rest : List Byte} (htext : text = front ++ 0x22 :: rest) :
    (Plain front ∧ body = front ∧ r = rest) ∨ body.length < front.length ∨
      ∃ front' body₁ body₂, front = front' ++ [0x5C] ∧ body = body₁ ++ body₂ ∧
        ReadsString rest body₂ r := by
  induction h generalizing front with
  | quote rest' =>
    rcases front with - | ⟨b, front⟩
    · exact .inl ⟨Plain.nil, rfl, (List.cons.inj htext).2⟩
    · exact .inr (.inl (Nat.succ_pos _))
  | @char c t body r hc _ ih =>
    rcases utf8_append_cases (by decide) htext with ⟨-, hquote, -⟩ | ⟨front', rfl, ht⟩
    · exact absurd (toNat_of_utf8_eq (by decide) hquote) hc.2.1
    rcases ih ht with ⟨hplain, rfl, rfl⟩ | hshort | ⟨front, body₁, body₂, rfl, rfl, hrest⟩
    · exact .inl ⟨hplain.cons hc, rfl, rfl⟩
    · refine .inr (.inl ?_)
      rw [List.length_append, List.length_append]
      omega
    · exact .inr (.inr ⟨utf8 c ++ front, utf8 c ++ body₁, body₂, (List.append_assoc ..).symm,
        (List.append_assoc ..).symm, hrest⟩)
  | @escape e stands t body r he hbody ih =>
    rcases he.append_cases htext with ⟨rfl, rfl, rfl⟩ | ⟨front', rfl, ht⟩
    · exact .inr (.inr ⟨[], [0x22], body, rfl, rfl, hbody⟩)
    have hlength := he.length_le
    rcases ih ht with ⟨-, rfl, -⟩ | hshort | ⟨front, body₁, body₂, rfl, rfl, hrest⟩
    · refine .inr (.inl ?_)
      rw [List.length_append, List.length_append, List.length_cons]
      omega
    · refine .inr (.inl ?_)
      rw [List.length_append, List.length_append, List.length_cons]
      omega
    · exact .inr (.inr ⟨0x5C :: e ++ front, stands ++ body₁, body₂, (List.append_assoc ..).symm,
        (List.append_assoc ..).symm, hrest⟩)

/-- A body is read as it is exactly if it is plain, when nothing that could be
read behind it ends like a body that takes the quotation mark with it. -/
theorem readsString_iff_of_rest {front rest : List Byte}
    (hrest : ∀ body r, ReadsString rest body r → body ≠ [] ∧ 0x5C ∉ body) {r : List Byte} :
    ReadsString (front ++ 0x22 :: rest) front r ↔ Plain front ∧ r = rest := by
  constructor
  · intro h
    rcases h.outcome rfl with ⟨hplain, -, hr⟩ | hshort | ⟨front', body₁, body₂, rfl, hbody, hread⟩
    · exact ⟨hplain, hr⟩
    · exact absurd hshort (Nat.lt_irrefl _)
    · obtain ⟨hne, hnot⟩ := hrest body₂ r hread
      -- the backslash would have to come from behind the quotation mark
      have hlast := congrArg List.getLast? hbody
      rw [List.getLast?_concat, List.getLast?_append_of_ne_nil _ hne] at hlast
      exact absurd (List.mem_of_getLast? hlast.symm) hnot
  · rintro ⟨hplain, rfl⟩
    exact hplain.reads _

/-! ### What stands between two strings -/

/-- Plain ASCII up to the next quotation mark, or to the end. -/
inductive ToQuote : List Byte → Prop
  | done : ToQuote []
  | quote (rest : List Byte) : ToQuote (0x22 :: rest)
  | byte {b : Byte} {rest : List Byte} (hb : PlainByte b) (h : ToQuote rest) : ToQuote (b :: rest)

theorem ToQuote.bytes_append {gap rest : List Byte} (h : ToQuote rest)
    (hgap : ∀ b ∈ gap, PlainByte b) : ToQuote (gap ++ rest) := by
  induction gap with
  | nil => exact h
  | cons b gap ih =>
    obtain ⟨hb, hgap⟩ := List.forall_mem_cons.mp hgap
    exact ToQuote.byte hb (ih hgap)

/-- A plain byte is read as it is. -/
theorem ReadsString.plainByte {b : Byte} {t body r : List Byte} (hb : PlainByte b)
    (h : ReadsString (b :: t) body r) : ∃ body', body = b :: body' ∧ ReadsString t body' r := by
  obtain ⟨-, hhigh, hquote, hbackslash⟩ := hb
  generalize htext : b :: t = text at h
  cases h with
  | quote rest => exact absurd (congrArg BitVec.toNat (List.cons.inj htext).1) hquote
  | @char c _ _ _ hc h =>
    have hsplit : utf8 c ++ _ = [] ++ b :: t := htext.symm
    rcases utf8_append_cases hhigh hsplit with ⟨-, hcode, rfl⟩ | ⟨front', hfront, -⟩
    · exact ⟨_, hcode ▸ rfl, h⟩
    · exact absurd (List.append_eq_nil_iff.mp hfront.symm).1 (utf8_ne_nil c)
  | escape => exact absurd (congrArg BitVec.toNat (List.cons.inj htext).1) hbackslash

theorem ReadsString.ne_nil {text body r : List Byte} (h : ReadsString text body r) :
    text ≠ [] := by
  cases h with
  | quote rest => exact List.cons_ne_nil _ _
  | @char c _ _ _ hc h => exact List.append_ne_nil_of_left_ne_nil (utf8_ne_nil c) _
  | escape he h => exact List.cons_ne_nil _ _

/-- What is read there has no backslash. -/
theorem ToQuote.reads {text : List Byte} (htext : ToQuote text) {body r : List Byte}
    (h : ReadsString text body r) : 0x5C ∉ body := by
  induction htext generalizing body with
  | done => exact absurd rfl h.ne_nil
  | quote rest =>
    have hparts : 0x22 :: rest = [] ++ 0x22 :: rest := rfl
    rcases h.outcome hparts with ⟨-, rfl, -⟩ | hshort | ⟨front', _, _, hfront, -, -⟩
    · exact List.not_mem_nil
    · exact absurd hshort (Nat.not_lt_zero _)
    · exact absurd hfront.symm (List.append_ne_nil_of_right_ne_nil _ (List.cons_ne_nil _ _))
  | byte hb _ ih =>
    obtain ⟨body', rfl, hread⟩ := h.plainByte hb
    rintro hmem
    rcases List.mem_cons.mp hmem with rfl | hmem
    · exact absurd hb (by decide)
    · exact ih hread hmem

/-- With a plain byte behind the quotation mark a body is read as it is exactly
if it is plain. -/
theorem readsString_self_iff {front rest : List Byte} {b : Byte} (hb : PlainByte b)
    (hrest : ToQuote rest) {r : List Byte} :
    ReadsString (front ++ 0x22 :: b :: rest) front r ↔ Plain front ∧ r = b :: rest := by
  refine readsString_iff_of_rest fun body r h => ?_
  obtain ⟨body', rfl, -⟩ := h.plainByte hb
  exact ⟨List.cons_ne_nil _ _, (ToQuote.byte hb hrest).reads h⟩

/-! ### Values -/

/-- The bytes a number is made of. -/
def IsNumberByte (b : Byte) : Prop := isDigit b ∨ b ∈ ascii "+-.eE"

instance (b : Byte) : Decidable (IsNumberByte b) := inferInstanceAs (Decidable (_ ∨ _))

/-- Digits, at least one. -/
def IsDigits (text : List Byte) : Prop := text ≠ [] ∧ ∀ b ∈ text, isDigit b

/-- Sign, integer, fraction and exponent; no zero stands in front of an integer. -/
def IsNumber (text : List Byte) : Prop :=
  ∃ sign integer fraction exponent, text = sign ++ integer ++ fraction ++ exponent ∧
    (sign = [] ∨ sign = ascii "-") ∧
    (integer = ascii "0" ∨ IsDigits integer ∧ integer.head? ≠ some 0x30) ∧
    (fraction = [] ∨ ∃ digits, fraction = ascii "." ++ digits ∧ IsDigits digits) ∧
    (exponent = [] ∨ ∃ mark sign digits, exponent = mark ++ sign ++ digits ∧
      (mark = ascii "e" ∨ mark = ascii "E") ∧
      (sign = [] ∨ sign = ascii "+" ∨ sign = ascii "-") ∧ IsDigits digits)

/-- A number, as it is written. -/
structure Number where
  text : List Byte
  isNumber : IsNumber text

/-- A value of JSON.  Members keep their order. -/
inductive Value
  | null
  | bool (b : Bool)
  | number (n : Number)
  | string (text : List Byte)
  | array (elements : List Value)
  | object (members : List (List Byte × Value))

/-- Arrays and objects are made of smaller values. -/
theorem Value.induction {P : Value → Prop} (null : P .null) (bool : ∀ b, P (.bool b))
    (number : ∀ n, P (.number n)) (string : ∀ text, P (.string text))
    (array : ∀ elements, (∀ v ∈ elements, P v) → P (.array elements))
    (object : ∀ members, (∀ m ∈ members, P m.2) → P (.object members)) (v : Value) : P v := by
  refine @Value.rec P (fun vs => ∀ v ∈ vs, P v) (fun ms => ∀ m ∈ ms, P m.2) (fun m => P m.2)
    null bool number string array object ?_ ?_ ?_ ?_ ?_ v
  · rintro _ ⟨⟩
  · exact fun _ _ hv hvs => List.forall_mem_cons.mpr ⟨hv, hvs⟩
  · rintro _ ⟨⟩
  · exact fun _ _ hm hms => List.forall_mem_cons.mpr ⟨hm, hms⟩
  · exact fun _ _ hv => hv

theorem IsDigits.numberBytes {text : List Byte} (h : IsDigits text) :
    ∀ b ∈ text, IsNumberByte b := fun b hb => .inl (h.2 b hb)

theorem Number.bytes (n : Number) : ∀ b ∈ n.text, IsNumberByte b := by
  obtain ⟨text, sign, integer, fraction, exponent, rfl, hsign, hinteger, hfraction, hexponent⟩ := n
  have happend : ∀ {front rest : List Byte}, (∀ b ∈ front, IsNumberByte b) →
      (∀ b ∈ rest, IsNumberByte b) → ∀ b ∈ front ++ rest, IsNumberByte b :=
    fun hfront hrest b hb => (List.mem_append.mp hb).elim (hfront b) (hrest b)
  refine happend (happend (happend ?_ ?_) ?_) ?_
  · rcases hsign with rfl | rfl <;> decide
  · rcases hinteger with rfl | ⟨hdigits, -⟩
    · decide
    · exact hdigits.numberBytes
  · rcases hfraction with rfl | ⟨digits, rfl, hdigits⟩
    · decide
    · exact happend (by decide) hdigits.numberBytes
  · rcases hexponent with rfl | ⟨mark, sign, digits, rfl, hmark, hsign, hdigits⟩
    · decide
    · refine happend (happend ?_ ?_) hdigits.numberBytes
      · rcases hmark with rfl | rfl <;> decide
      · rcases hsign with rfl | rfl | rfl <;> decide

theorem Number.ne_nil (n : Number) : n.text ≠ [] := by
  obtain ⟨text, sign, integer, fraction, exponent, rfl, -, hinteger, -⟩ := n
  have hne : integer ≠ [] := by
    rcases hinteger with rfl | ⟨hdigits, -⟩
    · decide
    · exact hdigits.1
  exact List.append_ne_nil_of_left_ne_nil
    (List.append_ne_nil_of_left_ne_nil (List.append_ne_nil_of_right_ne_nil _ hne) _) _

theorem IsNumberByte.plain {b : Byte} : IsNumberByte b → PlainByte b := by
  revert b
  decide

def isJsonSpace (b : Byte) : Bool := b = 0x20 || b = 0x09 || b = 0x0A || b = 0x0D

def skipSpace (text : List Byte) : List Byte := text.dropWhile isJsonSpace

mutual
/-- A value is read from the front of a text, up to what is left. -/
inductive Reads : List Byte → Value → List Byte → Prop
  | null {text rest} (h : text = ascii "null" ++ rest) : Reads text .null rest
  | bool {text rest} (b : Bool)
    (h : text = (if b then ascii "true" else ascii "false") ++ rest) : Reads text (.bool b) rest
  | number {text rest} {n : Number} (h : text = n.text ++ rest)
    (hend : ∀ b ∈ rest.head?, ¬ IsNumberByte b) : Reads text (.number n) rest
  | string {text t body rest} (h : text = 0x22 :: t) (hbody : ReadsString t body rest) :
    Reads text (.string body) rest
  | array {text t elements rest} (h : text = 0x5B :: t)
    (helements : ReadsElements (skipSpace t) elements rest) : Reads text (.array elements) rest
  | object {text t members rest} (h : text = 0x7B :: t)
    (hmembers : ReadsMembers (skipSpace t) members rest) : Reads text (.object members) rest

/-- The elements of an array and the bracket that ends it. -/
inductive ReadsElements : List Byte → List Value → List Byte → Prop
  | none {text rest} (h : text = 0x5D :: rest) : ReadsElements text [] rest
  | last {text v t rest} (h : Reads text v t) (hend : skipSpace t = 0x5D :: rest) :
    ReadsElements text [v] rest
  | more {text v v' vs t t' rest} (h : Reads text v t) (hcomma : skipSpace t = 0x2C :: t')
    (hmore : ReadsElements (skipSpace t') (v' :: vs) rest) : ReadsElements text (v :: v' :: vs) rest

/-- The members of an object and the brace that ends it. -/
inductive ReadsMembers : List Byte → List (List Byte × Value) → List Byte → Prop
  | none {text rest} (h : text = 0x7D :: rest) : ReadsMembers text [] rest
  | last {text m t rest} (h : ReadsMember text m t) (hend : skipSpace t = 0x7D :: rest) :
    ReadsMembers text [m] rest
  | more {text m m' ms t t' rest} (h : ReadsMember text m t) (hcomma : skipSpace t = 0x2C :: t')
    (hmore : ReadsMembers (skipSpace t') (m' :: ms) rest) : ReadsMembers text (m :: m' :: ms) rest

inductive ReadsMember : List Byte → List Byte × Value → List Byte → Prop
  | member {text t key t' t'' v rest} (h : text = 0x22 :: t) (hkey : ReadsString t key t')
    (hcolon : skipSpace t' = 0x3A :: t'') (hvalue : Reads (skipSpace t'') v rest) :
    ReadsMember text (key, v) rest
end

/-- The text is that of `v`, with space around it. -/
def Decodes (text : List Byte) (v : Value) : Prop :=
  ∃ rest, Reads (skipSpace text) v rest ∧ skipSpace rest = []

/-! ### Values printed without escapes -/

mutual
/-- The text of a value whose strings are printed as they are. -/
def Value.raw : Value → List Byte
  | .null => ascii "null"
  | .bool b => if b then ascii "true" else ascii "false"
  | .number n => n.text
  | .string text => 0x22 :: text ++ [0x22]
  | .array elements => 0x5B :: rawElements elements
  | .object members => 0x7B :: rawMembers members

def rawElements : List Value → List Byte
  | [] => [0x5D]
  | [v] => v.raw ++ [0x5D]
  | v :: v' :: vs => v.raw ++ 0x2C :: rawElements (v' :: vs)

def rawMembers : List (List Byte × Value) → List Byte
  | [] => [0x7D]
  | [(key, v)] => 0x22 :: key ++ [0x22, 0x3A, 0x20] ++ v.raw ++ [0x7D]
  | (key, v) :: m :: ms =>
    0x22 :: key ++ [0x22, 0x3A, 0x20] ++ v.raw ++ 0x2C :: rawMembers (m :: ms)
end

mutual
/-- The strings of a value, with the keys. -/
def Value.strings : Value → List (List Byte)
  | .string text => [text]
  | .array elements => stringsOfElements elements
  | .object members => stringsOfMembers members
  | _ => []

def stringsOfElements : List Value → List (List Byte)
  | [] => []
  | v :: vs => v.strings ++ stringsOfElements vs

def stringsOfMembers : List (List Byte × Value) → List (List Byte)
  | [] => []
  | (key, v) :: ms => key :: v.strings ++ stringsOfMembers ms
end

theorem skipSpace_cons {b : Byte} (hb : isJsonSpace b = false) (t : List Byte) :
    skipSpace (b :: t) = b :: t :=
  List.dropWhile_cons_of_neg (by rw [hb]; exact Bool.false_ne_true)

/-- Nothing starts with space. -/
theorem Value.skipSpace_raw (v : Value) (rest : List Byte) :
    skipSpace (v.raw ++ rest) = v.raw ++ rest := by
  have hnumber : ∀ b, IsNumberByte b → isJsonSpace b = false := by decide
  cases v with
  | null => rfl
  | bool b => cases b <;> rfl
  | number n =>
    obtain ⟨b, t, htext⟩ := List.exists_cons_of_ne_nil n.ne_nil
    rw [Value.raw, htext]
    exact skipSpace_cons (hnumber b (n.bytes b (htext ▸ List.mem_cons_self))) _
  | string text => exact skipSpace_cons rfl _
  | array elements => exact skipSpace_cons rfl _
  | object members => exact skipSpace_cons rfl _

theorem skipSpace_rawElements (vs : List Value) (rest : List Byte) :
    skipSpace (rawElements vs ++ rest) = rawElements vs ++ rest := by
  rcases vs with - | ⟨v, - | ⟨v', vs⟩⟩
  · exact skipSpace_cons rfl _
  · rw [rawElements, List.append_assoc]
    exact v.skipSpace_raw _
  · rw [rawElements, List.append_assoc]
    exact v.skipSpace_raw _

theorem skipSpace_rawMembers (ms : List (List Byte × Value)) (rest : List Byte) :
    skipSpace (rawMembers ms ++ rest) = rawMembers ms ++ rest := by
  rcases ms with - | ⟨⟨key, v⟩, - | ⟨m, ms⟩⟩ <;> exact skipSpace_cons rfl _

theorem toQuote_rawMembers (ms : List (List Byte × Value)) {rest : List Byte}
    (h : ToQuote rest) : ToQuote (rawMembers ms ++ rest) := by
  rcases ms with - | ⟨⟨key, v⟩, - | ⟨m, ms⟩⟩
  · exact ToQuote.byte (by decide) h
  · exact ToQuote.quote _
  · exact ToQuote.quote _

theorem toQuote_rawElements {vs : List Value} {rest : List Byte} (h : ToQuote rest)
    (hvs : ∀ v ∈ vs, ∀ rest, ToQuote rest → ToQuote (v.raw ++ rest)) :
    ToQuote (rawElements vs ++ rest) := by
  induction vs with
  | nil => exact ToQuote.byte (by decide) h
  | cons v vs ih =>
    obtain ⟨hv, hvs⟩ := List.forall_mem_cons.mp hvs
    rcases vs with - | ⟨v', vs⟩
    · rw [rawElements, List.append_assoc]
      exact hv _ (ToQuote.byte (by decide) h)
    · rw [rawElements, List.append_assoc]
      exact hv _ (ToQuote.byte (by decide) (ih hvs))

/-- There is nothing but plain ASCII between the strings. -/
theorem Value.toQuote_raw (v : Value) : ∀ rest, ToQuote rest → ToQuote (v.raw ++ rest) := by
  induction v using Value.induction with
  | null => exact fun _ h => h.bytes_append (by decide)
  | bool b => cases b <;> exact fun _ h => h.bytes_append (by decide)
  | number n => exact fun _ h => h.bytes_append fun b hb => (n.bytes b hb).plain
  | string text => exact fun _ _ => ToQuote.quote _
  | array elements ih =>
    exact fun _ h => ToQuote.byte (by decide) (toQuote_rawElements h ih)
  | object members _ =>
    exact fun _ h => ToQuote.byte (by decide) (toQuote_rawMembers members h)

/-! ### Reading them back -/

/-- What may stand behind a value. -/
inductive Follows : List Byte → Prop
  | done : Follows []
  | byte {b : Byte} {t : List Byte} (hb : b ∈ ascii ",]\x7d") (h : ToQuote t) : Follows (b :: t)

/-- Such a byte ends a string and a number. -/
theorem follows_byte : ∀ b ∈ ascii ",]\x7d", PlainByte b ∧ ¬ IsNumberByte b := by decide

theorem Follows.toQuote {rest : List Byte} (h : Follows rest) : ToQuote rest := by
  cases h with
  | done => exact ToQuote.done
  | @byte b t hb h => exact ToQuote.byte (follows_byte b hb).1 h

/-- The value of this text is read exactly if its strings are plain. -/
def ReadsBack (v : Value) : Prop :=
  ∀ rest, Follows rest → ∀ r, Reads (v.raw ++ rest) v r ↔ (∀ s ∈ v.strings, Plain s) ∧ r = rest

theorem readsBack_string (text : List Byte) : ReadsBack (.string text) := by
  intro rest hrest r
  have hplain : (∀ s ∈ (Value.string text).strings, Plain s) ↔ Plain text := List.forall_mem_singleton
  have hraw : (Value.string text).raw ++ rest = 0x22 :: (text ++ 0x22 :: rest) := by
    rw [Value.raw, List.append_assoc]
    rfl
  have hiff : ReadsString (text ++ 0x22 :: rest) text r ↔ Plain text ∧ r = rest := by
    cases hrest with
    | done => exact readsString_iff_of_rest fun _ _ h => absurd rfl h.ne_nil
    | @byte b t hb h => exact readsString_self_iff (follows_byte b hb).1 h
  rw [hplain, hraw, ← hiff]
  constructor
  · intro h
    cases h with
    | string h hbody => exact (List.cons.inj h).2 ▸ hbody
  · exact Reads.string rfl

theorem readsBack_number (n : Number) : ReadsBack (.number n) := by
  intro rest hrest r
  have hend : ∀ b ∈ rest.head?, ¬ IsNumberByte b := by
    cases hrest with
    | done => rintro _ ⟨⟩
    | @byte b t hb _ =>
      intro b' hb'
      exact Option.some.inj hb' ▸ (follows_byte b hb).2
  constructor
  · intro h
    cases h with
    | number h _ => exact ⟨by rintro _ ⟨⟩, (List.append_cancel_left h).symm⟩
  · rintro ⟨-, rfl⟩
    exact Reads.number rfl hend

theorem readsElements_raw_iff {vs : List Value} (hvs : ∀ v ∈ vs, ReadsBack v) {rest : List Byte}
    (hrest : ToQuote rest) {r : List Byte} :
    ReadsElements (rawElements vs ++ rest) vs r
      ↔ (∀ s ∈ stringsOfElements vs, Plain s) ∧ r = rest := by
  have hclose : Follows (0x5D :: rest) := Follows.byte (by decide) hrest
  induction vs with
  | nil =>
    constructor
    · intro h
      cases h with
      | none h => exact ⟨by rintro _ ⟨⟩, (List.cons.inj h).2.symm⟩
    · rintro ⟨-, rfl⟩
      exact ReadsElements.none rfl
  | cons v vs ih =>
    obtain ⟨hv, hvs⟩ := List.forall_mem_cons.mp hvs
    rcases vs with - | ⟨v', vs⟩
    · have hlast := hv _ hclose
      rw [rawElements, List.append_assoc, stringsOfElements, stringsOfElements, List.append_nil]
      constructor
      · intro h
        cases h with
        | last h hend =>
          obtain ⟨hplain, rfl⟩ := (hlast _).mp h
          rw [skipSpace_cons rfl] at hend
          exact ⟨hplain, (List.cons.inj hend).2.symm⟩
      · rintro ⟨hplain, rfl⟩
        exact ReadsElements.last ((hlast _).mpr ⟨hplain, rfl⟩) (skipSpace_cons rfl _)
    · have hcomma : Follows (0x2C :: (rawElements (v' :: vs) ++ rest)) :=
        Follows.byte (by decide) (toQuote_rawElements hrest fun v _ => v.toQuote_raw)
      have hfirst := hv _ hcomma
      rw [rawElements, List.append_assoc, List.cons_append, stringsOfElements,
        List.forall_mem_append]
      constructor
      · intro h
        cases h with
        | more h hcomma hmore =>
          obtain ⟨hplain, rfl⟩ := (hfirst _).mp h
          rw [skipSpace_cons rfl] at hcomma
          rw [← (List.cons.inj hcomma).2, skipSpace_rawElements] at hmore
          obtain ⟨hplains, rfl⟩ := (ih hvs).mp hmore
          exact ⟨⟨hplain, hplains⟩, rfl⟩
      · rintro ⟨⟨hplain, hplains⟩, rfl⟩
        refine ReadsElements.more ((hfirst _).mpr ⟨hplain, rfl⟩) (skipSpace_cons rfl _) ?_
        rw [skipSpace_rawElements]
        exact (ih hvs).mpr ⟨hplains, rfl⟩

theorem readsMember_raw_iff {key : List Byte} {v : Value} (hv : ReadsBack v) {rest : List Byte}
    (hrest : Follows rest) {r : List Byte} :
    ReadsMember (0x22 :: key ++ [0x22, 0x3A, 0x20] ++ v.raw ++ rest) (key, v) r
      ↔ (∀ s ∈ key :: v.strings, Plain s) ∧ r = rest := by
  have htext : 0x22 :: key ++ [0x22, 0x3A, 0x20] ++ v.raw ++ rest
      = 0x22 :: (key ++ 0x22 :: 0x3A :: 0x20 :: (v.raw ++ rest)) := by
    rw [List.append_assoc, List.append_assoc]
    rfl
  have hspace : skipSpace (0x20 :: (v.raw ++ rest)) = v.raw ++ rest := v.skipSpace_raw rest
  have hquote : ToQuote (0x20 :: (v.raw ++ rest)) :=
    ToQuote.byte (by decide) (v.toQuote_raw _ hrest.toQuote)
  rw [htext, List.forall_mem_cons]
  constructor
  · intro h
    cases h with
    | member h hkey hcolon hvalue =>
      rw [← (List.cons.inj h).2] at hkey
      obtain ⟨hplain, rfl⟩ := (readsString_self_iff (by decide) hquote).mp hkey
      rw [skipSpace_cons rfl] at hcolon
      rw [← (List.cons.inj hcolon).2, hspace] at hvalue
      obtain ⟨hplains, rfl⟩ := (hv rest hrest _).mp hvalue
      exact ⟨⟨hplain, hplains⟩, rfl⟩
  · rintro ⟨⟨hplain, hplains⟩, rfl⟩
    refine ReadsMember.member rfl ((readsString_self_iff (by decide) hquote).mpr ⟨hplain, rfl⟩)
      (skipSpace_cons rfl _) ?_
    rw [hspace]
    exact (hv _ hrest _).mpr ⟨hplains, rfl⟩

theorem readsMembers_raw_iff {ms : List (List Byte × Value)} (hms : ∀ m ∈ ms, ReadsBack m.2)
    {rest : List Byte} (hrest : ToQuote rest) {r : List Byte} :
    ReadsMembers (rawMembers ms ++ rest) ms r
      ↔ (∀ s ∈ stringsOfMembers ms, Plain s) ∧ r = rest := by
  have hclose : Follows (0x7D :: rest) := Follows.byte (by decide) hrest
  induction ms with
  | nil =>
    constructor
    · intro h
      cases h with
      | none h => exact ⟨by rintro _ ⟨⟩, (List.cons.inj h).2.symm⟩
    · rintro ⟨-, rfl⟩
      exact ReadsMembers.none rfl
  | cons m ms ih =>
    obtain ⟨key, v⟩ := m
    obtain ⟨hv, hms⟩ := List.forall_mem_cons.mp hms
    rcases ms with - | ⟨m', ms⟩
    · have hlast := @readsMember_raw_iff key v hv _ hclose
      rw [rawMembers, List.append_assoc, stringsOfMembers, stringsOfMembers, List.append_nil]
      constructor
      · intro h
        cases h with
        | last h hend =>
          obtain ⟨hplain, rfl⟩ := hlast.mp h
          rw [skipSpace_cons rfl] at hend
          exact ⟨hplain, (List.cons.inj hend).2.symm⟩
      · rintro ⟨hplain, rfl⟩
        exact ReadsMembers.last (hlast.mpr ⟨hplain, rfl⟩) (skipSpace_cons rfl _)
    · have hcomma : Follows (0x2C :: (rawMembers (m' :: ms) ++ rest)) :=
        Follows.byte (by decide) (toQuote_rawMembers _ hrest)
      have hfirst := @readsMember_raw_iff key v hv _ hcomma
      rw [rawMembers, List.append_assoc, List.cons_append, stringsOfMembers,
        List.forall_mem_append]
      constructor
      · intro h
        cases h with
        | more h hcomma hmore =>
          obtain ⟨hplain, rfl⟩ := hfirst.mp h
          rw [skipSpace_cons rfl] at hcomma
          rw [← (List.cons.inj hcomma).2, skipSpace_rawMembers] at hmore
          obtain ⟨hplains, rfl⟩ := (ih hms).mp hmore
          exact ⟨⟨hplain, hplains⟩, rfl⟩
      · rintro ⟨⟨hplain, hplains⟩, rfl⟩
        refine ReadsMembers.more (hfirst.mpr ⟨hplain, rfl⟩) (skipSpace_cons rfl _) ?_
        rw [skipSpace_rawMembers]
        exact (ih hms).mpr ⟨hplains, rfl⟩

theorem Value.readsBack (v : Value) : ReadsBack v := by
  induction v using Value.induction with
  | null =>
    intro rest _ r
    constructor
    · intro h
      cases h with
      | null h => exact ⟨by rintro _ ⟨⟩, (List.append_cancel_left h).symm⟩
    · rintro ⟨-, rfl⟩
      exact Reads.null rfl
  | bool b =>
    intro rest _ r
    constructor
    · intro h
      cases h with
      | bool _ h => exact ⟨by rintro _ ⟨⟩, (List.append_cancel_left h).symm⟩
    · rintro ⟨-, rfl⟩
      exact Reads.bool b rfl
  | number n => exact readsBack_number n
  | string text => exact readsBack_string text
  | array elements ih =>
    intro rest hrest r
    have hiff := readsElements_raw_iff ih hrest.toQuote (r := r)
    rw [← skipSpace_rawElements] at hiff
    rw [Value.strings, ← hiff]
    constructor
    · intro h
      cases h with
      | array h helements =>
        obtain rfl := (List.cons.inj h).2
        exact helements
    · exact Reads.array rfl
  | object members ih =>
    intro rest hrest r
    have hiff := readsMembers_raw_iff ih hrest.toQuote (r := r)
    rw [← skipSpace_rawMembers] at hiff
    rw [Value.strings, ← hiff]
    constructor
    · intro h
      cases h with
      | object h hmembers =>
        obtain rfl := (List.cons.inj h).2
        exact hmembers
    · exact Reads.object rfl

/-- **A value printed without escapes** is what its text decodes to exactly if
all its strings are plain. -/
theorem decodes_raw_iff (v : Value) : Decodes v.raw v ↔ ∀ s ∈ v.strings, Plain s := by
  have hraw : skipSpace v.raw = v.raw := by
    have h := v.skipSpace_raw []
    rwa [List.append_nil] at h
  have hiff := v.readsBack [] Follows.done
  rw [List.append_nil] at hiff
  constructor
  · rintro ⟨rest, hreads, -⟩
    rw [hraw] at hreads
    exact ((hiff rest).mp hreads).1
  · intro hplain
    exact ⟨[], hraw.symm ▸ (hiff []).mpr ⟨hplain, rfl⟩, rfl⟩

end JsonText
