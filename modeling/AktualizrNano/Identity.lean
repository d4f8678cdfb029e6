/-
AktualizrNano/Identity.lean

Serial and uuid spell the random bytes they are made from.

`btox` and `hex_to_bin` are loops over single digits, one backwards and one
forwards, that find their byte by the index of the digit: `btoxRounds` and
`hexToBinRounds`.  They compute what the list definitions say that
`identity_lossless` and `relativePath_hexToBin` are about: `btoxRounds_eq` and
`hexToBinRounds_eq` are the connection.  Those take apart two digits at a time,
so that `hexToBin_btox` is an induction on the bytes.

A uuid is the serial with dashes put in; without its dashes it is the serial
again (`serialStringToUuidString_digits`), so whatever tells two serials apart
tells two uuids apart.
-/
import AktualizrNano.DeviceGateway

namespace AktualizrNano

open CLib Outcome

/-! ### The loops -/

/-- Digit `n`: a `char`, which is signed here, is shifted as an `int`. -/
def btoxDigit (bb : List Byte) (n : Nat) : Byte :=
  (ascii "0123456789ABCDEF").getD
    ((((bb.getD (n >>> 1) 0).signExtend 32).sshiftRight ((1 - (n &&& 1)) <<< 2)) &&& 0xF).toNat 0

/-- `while (--n >= 0)`: the last digit is written first. -/
def btoxRounds (bb : List Byte) : (n : Nat) → (xp : Nat → Byte) → Nat → Byte
  | 0, xp => xp
  | n + 1, xp => btoxRounds bb n (Function.update xp n (btoxDigit bb n))

/-- The loop of `hex_to_bin` from digit `i` on. -/
def hexToBinRounds (s : List Byte) : (rounds i : Nat) → (dst : Nat → Byte) → Option (Nat → Byte)
  | 0, _, dst => some dst
  | rounds + 1, i, dst => do
    let j ← hexDigit (s.getD i 0)
    let k := if i &&& 1 ≠ 0 then j else j <<< 4
    hexToBinRounds s rounds (i + 1) (Function.update dst (i >>> 1) (dst (i >>> 1) ||| k))

/-! ### Single digits -/

/-- The digit of a nibble. -/
def upperHexChar (k : Byte) : Byte := (ascii "0123456789ABCDEF").getD k.toNat 0

/-- Whether `char` is signed makes no difference to a nibble. -/
theorem signed_nibbles : ∀ b : Byte,
    ((b.signExtend 32).sshiftRight 4 &&& 0xF).toNat = (b >>> 4 &&& 0xF).toNat ∧
      ((b.signExtend 32).sshiftRight 0 &&& 0xF).toNat = (b >>> 0 &&& 0xF).toNat := by
  decide +kernel

theorem hexDigit_nibbles : ∀ b : Byte,
    hexDigit (upperHexChar (b >>> 4 &&& 0xF)) = some (b >>> 4) ∧
      hexDigit (upperHexChar (b >>> 0 &&& 0xF)) = some (b &&& 0xF) ∧
      (b >>> 4) <<< 4 ||| (b &&& 0xF) = b := by
  decide +kernel

theorem even_or_odd (i : Nat) :
    (i &&& 1 = 0 ∧ i = 2 * (i >>> 1)) ∨ (i &&& 1 = 1 ∧ i = 2 * (i >>> 1) + 1) := by
  rw [Nat.and_one_is_mod, Nat.shiftRight_eq_div_pow]
  omega

theorem btoxDigit_eq (bb : List Byte) (n : Nat) :
    btoxDigit bb n = upperHexChar (bb.getD (n >>> 1) 0 >>> ((1 - (n &&& 1)) <<< 2) &&& 0xF) := by
  obtain ⟨hhi, hlo⟩ := signed_nibbles (bb.getD (n >>> 1) 0)
  rcases even_or_odd n with ⟨hn, -⟩ | ⟨hn, -⟩
  · rw [btoxDigit, upperHexChar, hn]
    exact congrArg (List.getD _ · 0) hhi
  · rw [btoxDigit, upperHexChar, hn]
    exact congrArg (List.getD _ · 0) hlo

theorem btox_getElem? (bb : List Byte) {n k : Nat} (h : k < n) :
    (btox bb n)[k]? = some (btoxDigit bb k) := by
  rw [btoxDigit_eq, btox, List.getElem?_map, List.getElem?_range h]
  rfl

/-- Backwards or forwards, the same digits are written. -/
theorem btoxRounds_eq (bb : List Byte) (n : Nat) (xp : Nat → Byte) (k : Nat) :
    btoxRounds bb n xp k = if k < n then (btox bb n).getD k 0 else xp k := by
  have hrounds : ∀ m xp, btoxRounds bb m xp k = if k < m then btoxDigit bb k else xp k := by
    intro m
    induction m with
    | zero => exact fun xp => rfl
    | succ m ih =>
      intro xp
      rw [btoxRounds, ih]
      rcases lt_trichotomy k m with hlt | rfl | hgt
      · rw [if_pos hlt, if_pos (Nat.lt_succ_of_lt hlt)]
      · rw [if_neg (lt_irrefl k), if_pos (Nat.lt_succ_self k), Function.update_self]
      · rw [if_neg hgt.not_gt, if_neg (by omega), Function.update_of_ne hgt.ne']
  rw [hrounds]
  split
  · next h => rw [List.getD_eq_getElem?_getD, btox_getElem? bb h, Option.getD_some]
  · rfl

/-! ### Two digits a byte -/

theorem btox_cons (b : Byte) (bb : List Byte) (n : Nat) :
    btox (b :: bb) (n + 2) =
      upperHexChar (b >>> 4 &&& 0xF) :: upperHexChar (b >>> 0 &&& 0xF) :: btox bb n := by
  refine List.ext_getElem? fun k => ?_
  rcases k with - | - | k
  · rw [btox_getElem? _ (Nat.succ_pos _), btoxDigit_eq]
    rfl
  · rw [btox_getElem? _ (by omega), btoxDigit_eq]
    rfl
  · rw [List.getElem?_cons_succ, List.getElem?_cons_succ]
    by_cases hk : k < n
    · have hand : (k + 2) &&& 1 = k &&& 1 := by
        rw [Nat.and_one_is_mod, Nat.and_one_is_mod]
        omega
      have hshift : (k + 2) >>> 1 = k >>> 1 + 1 := by
        rw [Nat.shiftRight_eq_div_pow, Nat.shiftRight_eq_div_pow]
        omega
      rw [btox_getElem? _ hk, btox_getElem? _ (by omega), btoxDigit, btoxDigit, hand, hshift,
        List.getD_cons_succ]
    · rw [List.getElem?_eq_none (by rw [btox_length]; omega),
        List.getElem?_eq_none (by rw [btox_length]; omega)]

theorem hexToBin_btox_list (bb : List Byte) :
    (hexToBin (btox bb (2 * bb.length)) bb.length).map CharArray.bytes = some bb := by
  induction bb with
  | nil => rfl
  | cons b bb ih =>
    obtain ⟨hhi, hlo, hsplit⟩ := hexDigit_nibbles b
    obtain ⟨rest, hrest, hbytes⟩ := Option.map_eq_some_iff.mp ih
    rw [List.length_cons, Nat.mul_succ, btox_cons, hexToBin]
    simp only [List.getD_cons_zero, List.getD_cons_succ, List.drop_succ_cons, List.drop_zero, hhi,
      hlo, hrest, Option.bind_eq_bind, Option.bind_some, Option.map_some, hsplit, hbytes]

/-- **Decoding gives the bytes back.** -/
theorem hexToBin_btox {n : Nat} (bytes : CharArray n) :
    hexToBin (btox bytes.bytes (2 * n)) n = some bytes := by
  obtain ⟨bb, rfl⟩ := bytes
  obtain ⟨bin, hbin, hbytes⟩ := Option.map_eq_some_iff.mp (hexToBin_btox_list bb)
  rw [hbin]
  exact congrArg some (CharArray.ext hbytes)

theorem btox_injective {n : Nat} {bytes bytes' : CharArray n}
    (h : btox bytes.bytes (2 * n) = btox bytes'.bytes (2 * n)) : bytes = bytes' := by
  have hback := hexToBin_btox bytes
  rw [h, hexToBin_btox] at hback
  exact (Option.some.inj hback).symm

/-- The two rounds of byte `m`. -/
theorem hexToBinRounds_pair (s : List Byte) (rounds m : Nat) (dst : Nat → Byte)
    (hclear : dst m = 0) :
    hexToBinRounds s (rounds + 2) (2 * m) dst =
      (hexDigit (s.getD (2 * m) 0)).bind fun hi =>
        (hexDigit (s.getD (2 * m + 1) 0)).bind fun lo =>
          hexToBinRounds s rounds (2 * (m + 1)) (Function.update dst m (hi <<< 4 ||| lo)) := by
  have heven : (2 * m) &&& 1 = 0 ∧ (2 * m) >>> 1 = m := by
    rw [Nat.and_one_is_mod, Nat.shiftRight_eq_div_pow]
    omega
  have hodd : (2 * m + 1) &&& 1 = 1 ∧ (2 * m + 1) >>> 1 = m := by
    rw [Nat.and_one_is_mod, Nat.shiftRight_eq_div_pow]
    omega
  rw [hexToBinRounds]
  refine congrArg _ (funext fun hi => ?_)
  rw [hexToBinRounds]
  refine congrArg _ (funext fun lo => ?_)
  have hzero : (0 : Byte) ||| hi <<< 4 = hi <<< 4 := BitVec.zero_or
  dsimp only
  rw [heven.1, heven.2, hodd.1, hodd.2, Function.update_self, Function.update_idem, hclear,
    if_neg (not_not.mpr rfl), if_pos Nat.one_ne_zero, hzero]
  rfl

theorem hexToBinRounds_from (s : List Byte) (m len : Nat) (dst : Nat → Byte)
    (hclear : ∀ k, m ≤ k → dst k = 0) :
    hexToBinRounds s (2 * len) (2 * m) dst =
      (hexToBin (s.drop (2 * m)) len).map fun bin k =>
        if k < m then dst k else bin.bytes.getD (k - m) 0 := by
  induction len generalizing m dst with
  | zero =>
    refine congrArg some (funext fun k => ?_)
    by_cases hk : k < m
    · exact (if_pos hk).symm
    · exact (hclear k (not_lt.mp hk)).trans (if_neg hk).symm
  | succ len ih =>
    have hhi : (s.drop (2 * m)).getD 0 0 = s.getD (2 * m) 0 := by
      simp [List.getD_eq_getElem?_getD]
    have hlo : (s.drop (2 * m)).getD 1 0 = s.getD (2 * m + 1) 0 := by
      simp [List.getD_eq_getElem?_getD]
    rw [Nat.mul_succ, hexToBinRounds_pair s _ m dst (hclear m le_rfl), hexToBin, hhi, hlo,
      List.drop_drop]
    rcases hexDigit (s.getD (2 * m) 0) with - | hi
    · rfl
    rcases hexDigit (s.getD (2 * m + 1) 0) with - | lo
    · rfl
    have hclear' : ∀ k, m + 1 ≤ k → Function.update dst m (hi <<< 4 ||| lo) k = 0 := by
      intro k hk
      rw [Function.update_of_ne (by omega)]
      exact hclear k (by omega)
    show hexToBinRounds s (2 * len) (2 * (m + 1)) _ = _
    rw [ih (m + 1) _ hclear', Nat.mul_succ]
    rcases hexToBin (s.drop (2 * m + 2)) len with - | rest
    · rfl
    refine congrArg some (funext fun k => ?_)
    show (if k < m + 1 then _ else _) = if k < m then _ else _
    rcases lt_trichotomy k m with hlt | rfl | hgt
    · rw [if_pos (by omega), if_pos hlt, Function.update_of_ne hlt.ne]
    · rw [if_pos (by omega), if_neg (by omega), Function.update_self, Nat.sub_self,
        List.getD_cons_zero]
    · have hsub : k - m = k - (m + 1) + 1 := by omega
      rw [if_neg (by omega), if_neg (by omega), hsub, List.getD_cons_succ]

theorem hexToBinRounds_eq (s : List Byte) (len : Nat) :
    hexToBinRounds s (2 * len) 0 (fun _ => 0) =
      (hexToBin s len).map fun bin k => bin.bytes.getD k 0 := by
  have h := hexToBinRounds_from s 0 len (fun _ => 0) fun _ _ => rfl
  simpa only [Nat.mul_zero, List.drop_zero, Nat.not_lt_zero, if_false, Nat.sub_zero] using h

/-! ### Serial and uuid -/

/-- Position `i` of a uuid holds a dash. -/
def IsDash (i : Nat) : Prop := i = 8 ∨ i = 13 ∨ i = 18 ∨ i = 23

/-- An upper-case hexadecimal digit. -/
def IsUpperHex (b : Byte) : Prop := (0x30 ≤ b ∧ b ≤ 0x39) ∨ (0x41 ≤ b ∧ b ≤ 0x46)

instance : DecidablePred IsUpperHex := fun _ => inferInstanceAs (Decidable (_ ∨ _))

theorem upperHexChar_isUpperHex : ∀ b : Byte, IsUpperHex (upperHexChar (b &&& 0xF)) := by
  decide +kernel

theorem btox_isUpperHex {bb : List Byte} {n : Nat} : ∀ b ∈ btox bb n, IsUpperHex b := by
  intro b hb
  obtain ⟨i, -, rfl⟩ := List.mem_map.mp hb
  exact upperHexChar_isUpperHex _

theorem IsUpperHex.ne_dash {b : Byte} (h : IsUpperHex b) : b ≠ 0x2D := by
  rintro rfl
  exact absurd h (by decide)

/-- The dashes stand where they should, and nowhere else. -/
theorem uuidRounds_dashes {rounds i : Nat} {s : List Byte} (hs : ∀ b ∈ s, b ≠ 0x2D) {k : Nat}
    (hk : k < rounds) : (uuidRounds rounds i s)[k]? = some 0x2D ↔ IsDash (i + k) := by
  induction rounds generalizing i s k with
  | zero => exact absurd hk (Nat.not_lt_zero k)
  | succ rounds ih =>
    rw [uuidRounds]
    rcases k with - | k
    · split
      · next hpos => exact iff_of_true rfl hpos
      · next hpos =>
        refine iff_of_false (fun hhead => ?_) hpos
        rcases s with - | ⟨d, ds⟩
        · exact absurd (Option.some.inj hhead) (by decide)
        · exact hs d List.mem_cons_self (Option.some.inj hhead)
    · rw [show i + (k + 1) = i + 1 + k by omega]
      split
      · exact ih hs (Nat.lt_of_succ_lt_succ hk)
      · exact ih (fun b hb => hs b (List.mem_of_mem_tail hb)) (Nat.lt_of_succ_lt_succ hk)

/-- Without its dashes, a uuid is what has been copied of the serial. -/
theorem uuidRounds_digits {rounds i : Nat} {s : List Byte} (hs : ∀ b ∈ s, b ≠ 0x2D)
    (hi : i + rounds = 36) (hlast : s.length + dashesFrom i = rounds) :
    (uuidRounds rounds i s).filter (· ≠ 0x2D) = s := by
  induction rounds generalizing i s with
  | zero => exact (List.eq_nil_of_length_eq_zero (by omega)).symm
  | succ rounds ih =>
    rw [uuidRounds]
    split
    · next hpos =>
      have hnext : dashesFrom i = dashesFrom (i + 1) + 1 := by
        rcases hpos with rfl | rfl | rfl | rfl <;> rfl
      rw [List.filter_cons_of_neg (by simp)]
      exact ih hs (by omega) (by omega)
    · next hpos =>
      have hnext : dashesFrom i = dashesFrom (i + 1) ∧ dashesFrom i ≤ 36 - i - 1 := by
        unfold dashesFrom
        split_ifs <;> omega
      rcases s with - | ⟨d, ds⟩
      · -- there are fewer dashes than positions left
        rw [List.length_nil] at hlast
        omega
      · rw [List.length_cons] at hlast
        rw [List.headD_cons, List.tail_cons, List.filter_cons,
          if_pos (decide_eq_true (hs d List.mem_cons_self)),
          ih (fun b hb => hs b (List.mem_cons_of_mem _ hb)) (by omega) (by omega)]

/-- **A uuid without its dashes is the serial.** -/
theorem serialStringToUuidString_digits {serial : List Byte} (hlen : serial.length = 32)
    (hdigits : ∀ b ∈ serial, b ≠ 0x2D) :
    (serialStringToUuidString serial).filter (· ≠ 0x2D) = serial := by
  apply uuidRounds_digits hdigits rfl
  rw [hlen]
  rfl

/-- The strings `aknano_gen_serial_and_uuid` makes of 16 bytes: uuid and
serial, each with its NUL. -/
def identityOf (serialBytes : CharArray 16) : List Byte × List Byte :=
  let serialString := btox serialBytes.bytes (16 * 2)
  (serialStringToUuidString serialString ++ [0], serialString ++ [0])

/-- A uuid with its NUL, and the serial it belongs to. -/
structure IsIdentity (uuid serial : List Byte) : Prop where
  serial_length : serial.length = 32
  serial_digits : ∀ b ∈ serial, IsUpperHex b
  uuid_length : uuid.length = 36
  uuid_dashes : ∀ k < 36, uuid[k]? = some 0x2D ↔ IsDash k
  uuid_digits : uuid.filter (· ≠ 0x2D) = serial

theorem isIdentity_of (serialBytes : CharArray 16) :
    IsIdentity (serialStringToUuidString (btox serialBytes.bytes (16 * 2)))
      (btox serialBytes.bytes (16 * 2)) where
  serial_length := btox_length ..
  serial_digits := btox_isUpperHex
  uuid_length := uuidRounds_length ..
  uuid_dashes := by
    intro k hk
    have hdigits : ∀ b ∈ btox serialBytes.bytes (16 * 2), b ≠ 0x2D := fun b hb =>
      (btox_isUpperHex b hb).ne_dash
    have h := uuidRounds_dashes (i := 0) hdigits hk
    rwa [Nat.zero_add] at h
  uuid_digits :=
    serialStringToUuidString_digits (btox_length ..) fun b hb => (btox_isUpperHex b hb).ne_dash

theorem IsIdentity.uuid_clean {uuid serial : List Byte} (h : IsIdentity uuid serial) :
    ∀ b ∈ uuid, b ≠ 0 := by
  rintro b hb rfl
  have hmem : 0 ∈ uuid.filter (· ≠ 0x2D) := List.mem_filter.mpr ⟨hb, by decide⟩
  rw [h.uuid_digits] at hmem
  exact absurd (h.serial_digits 0 hmem) (by decide)

/-- The id an installation is given. -/
theorem IsIdentity.str_store {uuid serial : List Byte} (h : IsIdentity uuid serial)
    (id : CharArray aknanoMaxUpdateCorrelationIdLength) : (id.store (uuid ++ [0])).str = uuid :=
  CharArray.str_store h.uuid_clean (by rw [h.uuid_length]; decide)

/-- The id that is made up when there is none: target and uuid, if they fit. -/
theorem fillCorrelationId_str {s : Settings} {target : List Byte}
    (hid : s.ongoingUpdateCorrelationId.str = [])
    (htarget : ∀ b ∈ target, b ≠ 0)
    (hfits : target.length + s.uuidStr.length + 1 < aknanoMaxUpdateCorrelationIdLength) :
    (fillCorrelationId s target).ongoingUpdateCorrelationId.str
      = target ++ ascii "-" ++ s.uuidStr := by
  have hlen : (target ++ ascii "-" ++ s.uuidStr).length = target.length + 1 + s.uuidStr.length := by
    rw [List.length_append, List.length_append]
    rfl
  have hclean : ∀ b ∈ target ++ ascii "-" ++ s.uuidStr, b ≠ 0 := by
    intro b hb
    rcases List.mem_append.mp hb with hb | hb
    · rcases List.mem_append.mp hb with hb | hb
      · exact htarget b hb
      · obtain rfl : b = 0x2D := List.mem_singleton.mp hb
        decide
    · exact of_decide_eq_true (List.all_eq_true.mp List.all_takeWhile b hb)
  rw [fillCorrelationId, strnlen_bytes, if_pos (List.length_eq_zero_iff.mpr hid)]
  dsimp only
  rw [snprintf, List.take_of_length_le (by omega), CharArray.str_store hclean (by omega)]

/-- What tells the bytes apart tells the strings apart. -/
theorem btox_ne {bytes bytes' : CharArray 16} (h : bytes ≠ bytes') :
    btox bytes.bytes (16 * 2) ≠ btox bytes'.bytes (16 * 2) :=
  fun heq => h (btox_injective heq)

theorem uuid_ne {bytes bytes' : CharArray 16} (h : bytes ≠ bytes') :
    serialStringToUuidString (btox bytes.bytes (16 * 2))
      ≠ serialStringToUuidString (btox bytes'.bytes (16 * 2)) := by
  intro heq
  apply btox_ne h
  rw [← (isIdentity_of bytes).uuid_digits, heq, (isIdentity_of bytes').uuid_digits]

/-- **Serial and uuid encode the random bytes without loss.**  Digits are
decoded to the bytes they were made from; a call delivers the identity of the
random bytes of that moment, unless power is lost; an identity is a serial of
32 digits and the uuid that spells it with four dashes; and identities of
different bytes differ, with the correlation ids an installation stores and
those made up of a target and the uuid. -/
theorem identity_lossless :
    (∀ (n : Nat) (bytes : CharArray n), hexToBin (btox bytes.bytes (2 * n)) n = some bytes) ∧
      (∀ (e : Env) (w : World), wp (aknanoGenSerialAndUuid e)
        (fun r _ => r = identityOf (e.random w.tick 16)) (fun _ _ => e.cut w.tick = true) w) ∧
      (∀ bytes : CharArray 16, ∃ uuid serial, identityOf bytes = (uuid ++ [0], serial ++ [0]) ∧
        IsIdentity uuid serial) ∧
      ∀ bytes bytes' : CharArray 16, bytes ≠ bytes' →
        (identityOf bytes).2 ≠ (identityOf bytes').2 ∧
          (identityOf bytes).1 ≠ (identityOf bytes').1 ∧
          (∀ id id' : CharArray aknanoMaxUpdateCorrelationIdLength,
            (id.store (identityOf bytes).1).str ≠ (id'.store (identityOf bytes').1).str) ∧
          ∀ (s s' : Settings) (target target' : List Byte),
            s.uuidStr ++ [0] = (identityOf bytes).1 → s'.uuidStr ++ [0] = (identityOf bytes').1 →
            s.ongoingUpdateCorrelationId.str = [] → s'.ongoingUpdateCorrelationId.str = [] →
            (∀ b ∈ target, b ≠ 0) → (∀ b ∈ target', b ≠ 0) →
            target.length < aknanoMaxTargetNameLength →
            target'.length < aknanoMaxTargetNameLength →
            (fillCorrelationId s target).ongoingUpdateCorrelationId.str
              ≠ (fillCorrelationId s' target').ongoingUpdateCorrelationId.str := by
  refine ⟨fun n => hexToBin_btox, fun e w => ?_, fun bytes => ⟨_, _, rfl, isIdentity_of bytes⟩, ?_⟩
  · unfold wp aknanoGenSerialAndUuid aknanoCliGenRandomBytes tick
    cases hcut : e.cut w.tick with
    | true => simp [bind, EStateM.bind, hcut]
    | false => simp [bind, EStateM.bind, hcut, pure, EStateM.pure, identityOf]
  · intro bytes bytes' hne
    have huuid := uuid_ne hne
    refine ⟨fun h => btox_ne hne (List.append_cancel_right h),
      fun h => huuid (List.append_cancel_right h), fun id id' h => huuid ?_, ?_⟩
    · rwa [identityOf, identityOf, (isIdentity_of bytes).str_store,
        (isIdentity_of bytes').str_store] at h
    · intro s s' target target' hs hs' hid hid' htarget htarget' hlen hlen' h
      replace hs := List.append_cancel_right hs
      replace hs' := List.append_cancel_right hs'
      have hfits : target.length + s.uuidStr.length + 1 < aknanoMaxUpdateCorrelationIdLength := by
        rw [hs, (isIdentity_of bytes).uuid_length]
        change target.length < 61 at hlen
        change _ < 102
        omega
      have hfits' : target'.length + s'.uuidStr.length + 1
          < aknanoMaxUpdateCorrelationIdLength := by
        rw [hs', (isIdentity_of bytes').uuid_length]
        change target'.length < 61 at hlen'
        change _ < 102
        omega
      rw [fillCorrelationId_str hid htarget hfits, fillCorrelationId_str hid' htarget' hfits',
        hs, hs'] at h
      exact huuid (List.append_inj_right' h (by rw [(isIdentity_of bytes).uuid_length,
        (isIdentity_of bytes').uuid_length]))

end AktualizrNano
