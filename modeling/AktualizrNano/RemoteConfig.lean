/-
AktualizrNano/RemoteConfig.lean

The tag that a remote configuration sets, byte by byte.  `toml_handler` gets
the text behind `tags =` with its quotes, skips the first character by moving
the pointer and the last one by copying one byte less than is left.

`tomlHandler` says what the handler leaves in the settings.  Here are the
memory accesses that go with it: which bytes of the value are looked at and
how many bytes are copied.  Both come out right exactly when there are two
characters to skip.
-/
import AktualizrNano.Checkin

namespace AktualizrNano

open CLib

/-! ### The accesses of the handler -/

/-- The length that is passed to `strncpy`: it wraps around when nothing is
left of the value behind its first character. -/
def tomlHandlerCopies (value : List Byte) : Nat :=
  uint32 ((strnlen (value.drop 1) aknanoMaxTagLength : Int) - 1)

/-- The indices of `value` that are read for the tag: by `strnlen`, then by
`strncpy`. -/
def tomlHandlerReads (value : List Byte) : List Nat :=
  (List.range (scanned (value.drop 1) aknanoMaxTagLength)
    ++ List.range (scanned (value.drop 1) (tomlHandlerCopies value))).map (1 + ·)

/-- The handler goes wrong exactly when it copies more than the array holds. -/
theorem tomlHandler_eq_none_iff (s : Settings) (value : List Byte) :
    tomlHandler s (ascii "pacman", ascii "tags", value) = none ↔
      aknanoMaxTagLength < tomlHandlerCopies value := by
  have hle := strnlen_le (value.drop 1) aknanoMaxTagLength
  have htag : aknanoMaxTagLength = 40 := rfl
  simp only [tomlHandler, tomlHandlerCopies, and_self, if_pos]
  by_cases hzero : strnlen (value.drop 1) aknanoMaxTagLength = 0
  · rw [if_pos hzero, hzero]
    exact iff_of_true rfl (by decide)
  · rw [if_neg hzero, uint32_eq (by omega) (by omega)]
    refine iff_of_false ?_ (by omega)
    split <;> simp

/-! ### A value of two characters or more -/

/-- What reading a tag has to do with the value `str`, behind whose NUL the
memory goes on with `rest`. -/
structure TagRead (s : Settings) (str rest : List Byte) : Prop where
  /-- nothing behind the NUL is looked at -/
  inside : ∀ i ∈ tomlHandlerReads (str ++ 0 :: rest), i ≤ str.length
  copied : tomlHandlerCopies (str ++ 0 :: rest) ≤ aknanoMaxTagLength - 1
  /-- the tag is a string, the value without its first and last character -/
  tag : ∃ tag, tomlHandler s (ascii "pacman", ascii "tags", str ++ 0 :: rest)
      = some { s with tag := tag } ∧ tag.str.length < aknanoMaxTagLength ∧
    tag.str = (str.drop 1).dropLast.take (aknanoMaxTagLength - 1)

theorem strnlen_value {t : List Byte} (ht : ∀ b ∈ t, b ≠ 0) (c : Byte) (rest : List Byte) :
    strnlen ((c :: t ++ 0 :: rest).drop 1) aknanoMaxTagLength = min aknanoMaxTagLength t.length :=
  strnlen_string ht rest _

theorem tomlHandlerCopies_value {t : List Byte} (ht : ∀ b ∈ t, b ≠ 0) (hne : t ≠ []) (c : Byte)
    (rest : List Byte) :
    tomlHandlerCopies (c :: t ++ 0 :: rest) = min aknanoMaxTagLength t.length - 1 := by
  have hpos := List.length_pos_of_ne_nil hne
  have htag : aknanoMaxTagLength = 40 := rfl
  rw [tomlHandlerCopies, strnlen_value ht, uint32_eq (by omega) (by omega)]
  omega

/-- The bytes that are copied are the tag. -/
theorem take_value {t : List Byte} (hne : t ≠ []) (c : Byte) (rest : List Byte) :
    ((c :: t ++ 0 :: rest).drop 1).take (min aknanoMaxTagLength t.length - 1)
      = t.dropLast.take (aknanoMaxTagLength - 1) := by
  have hpos := List.length_pos_of_ne_nil hne
  have htag : aknanoMaxTagLength = 40 := rfl
  show (t ++ 0 :: rest).take _ = _
  rw [List.take_append_of_le_length (by omega), List.dropLast_eq_take, List.take_take]
  congr 1
  omega

theorem tagRead_value {t : List Byte} (ht : ∀ b ∈ t, b ≠ 0) (hne : t ≠ []) (s : Settings) (c : Byte)
    (rest : List Byte) : TagRead s (c :: t) rest := by
  have hpos := List.length_pos_of_ne_nil hne
  have htag : aknanoMaxTagLength = 40 := rfl
  have hlen := strnlen_value ht c rest
  have hcopies := tomlHandlerCopies_value ht hne c rest
  refine ⟨fun i hi => ?_, by rw [hcopies]; omega, ?_⟩
  · obtain ⟨j, hj, rfl⟩ := List.mem_map.mp hi
    rw [List.length_cons]
    rcases List.mem_append.mp hj with hj | hj
    · rw [List.mem_range, scanned, hlen] at hj
      omega
    · rw [List.mem_range, scanned, hcopies] at hj
      omega
  · -- the array was cleared, so what is copied is a string
    have hclean : ∀ b ∈ t.dropLast.take (aknanoMaxTagLength - 1), b ≠ 0 := fun b hb =>
      ht b (List.mem_of_mem_dropLast (List.mem_of_mem_take hb))
    have hfits : (t.dropLast.take (aknanoMaxTagLength - 1)).length < aknanoMaxTagLength := by
      rw [List.length_take]; omega
    have hstr := CharArray.str_store_zero hclean hfits
    have hnew : ¬ min aknanoMaxTagLength t.length = 0 := by omega
    simp only [tomlHandler, and_self, if_pos, hlen, if_neg hnew, take_value hne]
    generalize (CharArray.zero aknanoMaxTagLength).store _ = newTag at hstr ⊢
    by_cases hcmp : strncmp s.tag.str newTag.str aknanoMaxTagLength ≠ 0
    · exact ⟨newTag, if_pos hcmp, hstr ▸ hfits, hstr⟩
    · -- the tag stays, because it is the same string
      have hsame : s.tag.str = newTag.str := by
        refine eq_of_strncmp (fun _ => CharArray.ne_zero_of_mem_str)
          (fun _ => CharArray.ne_zero_of_mem_str) (hstr ▸ hfits) (not_not.mp hcmp)
      exact ⟨s.tag, if_neg hcmp, hsame ▸ hstr ▸ hfits, hsame.trans hstr⟩

/-! ### Any value -/

/-- **Reading the tag is safe and exact from two characters on**, and goes
wrong for every shorter value: of one character the wrapped length is copied,
and of none the byte behind the NUL is read. -/
theorem tagRead_iff {str : List Byte} (hstr : ∀ b ∈ str, b ≠ 0) (s : Settings)
    (rest : List Byte) : TagRead s str rest ↔ 2 ≤ str.length := by
  constructor
  · intro h
    rcases str with - | ⟨c, - | ⟨d, t⟩⟩
    · have hfirst : 1 ∈ tomlHandlerReads ([] ++ 0 :: rest) := by
        refine List.mem_map.mpr ⟨0, List.mem_append_left _ (List.mem_range.mpr ?_), rfl⟩
        exact Nat.lt_min.mpr ⟨by decide, Nat.succ_pos _⟩
      exact absurd (h.inside 1 hfirst) (by decide)
    · exact absurd h.copied (by simp [tomlHandlerCopies, strnlen, uint32])
    · exact Nat.le_add_left 2 _
  · intro h
    rcases str with - | ⟨c, - | ⟨d, t⟩⟩
    · cases h
    · exact absurd h (by decide : ¬ 2 ≤ 1)
    · exact tagRead_value (fun b hb => hstr b (List.mem_cons_of_mem _ hb)) (by simp) s c rest

theorem tagRead_main : TagRead .zero (ascii "\"main\"") [] :=
  (tagRead_iff (by decide) .zero []).mpr (by decide)

/-- `tags = "` with nothing behind the quote: all but one of 2^32 bytes would
be copied to the 40 of the array. -/
theorem not_tagRead_quote :
    tomlHandlerCopies (ascii "\"" ++ [0]) = 4294967295 ∧
      tomlHandler .zero (ascii "pacman", ascii "tags", ascii "\"" ++ [0]) = none ∧
      ¬ TagRead .zero (ascii "\"") [] := by
  refine ⟨by decide, (tomlHandler_eq_none_iff .zero _).mpr (by decide), fun h => ?_⟩
  exact absurd h.copied (by decide)

end AktualizrNano
