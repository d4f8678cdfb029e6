/-
AktualizrNano/UidInteger.lean

The unique id of the secure element, printed as a decimal number.

`iot_agent_print_uid_integer` has no wide integers.  It keeps the weight of the
current hexadecimal digit as 44 decimal places, adds for each place what the
digit contributes to it, and carries once at the end.  Both passes of carries
are those of `DigitVectors`; `uidRounds_value` is the invariant of the loop
over the characters, modulo the 44 places.

The 18 bytes of a unique id fit in the 44 places (`printUid_exact`).
-/
import AktualizrNano.DigitVectors
import AktualizrNano.Identity

namespace AktualizrNano

open CLib DigitVectors
open Nat (ofDigits)

/-! ### The conversion -/

abbrev maxUidDecimalStringSize : Nat := 44

/-- What a character contributes to the place of weight one; one that is no
hexadecimal digit contributes nothing. -/
def charContrib (pickChar : Byte) : BitVec 32 :=
  if 0x30 ≤ pickChar ∧ pickChar ≤ 0x39 then (pickChar - 0x30).setWidth 32
  else if 0x41 ≤ pickChar ∧ pickChar ≤ 0x46 then (pickChar - 0x41).setWidth 32 + 10
  else if 0x61 ≤ pickChar ∧ pickChar ≤ 0x66 then (pickChar - 0x61).setWidth 32 + 10
  else 0

/-- The inner loop over the places, for one character. -/
def addContribs (contrib : BitVec 32) (decimalDigitWeightedSum weigthValueArray : List (BitVec 32)) :
    List (BitVec 32) :=
  List.zipWith (fun sum weight => sum + contrib * weight) decimalDigitWeightedSum weigthValueArray

/-- The weights for the next character. -/
def nextWeights (weigthValueArray : List (BitVec 32)) : List (BitVec 32) :=
  carryWords 10 0 (weigthValueArray.map fun weight : BitVec 32 => weight <<< 4)

/-- The loop over the characters, the last one of the string first. -/
def uidRounds : (picked : List Byte) →
    (decimalDigitWeightedSum weigthValueArray : List (BitVec 32)) → List (BitVec 32)
  | [], sums, _ => sums
  | pickChar :: picked, sums, weights =>
    uidRounds picked (addContribs (charContrib pickChar) sums weights) (nextWeights weights)

/-- The digits of `decimalString`, the lowest first: each is added to a `'0'`. -/
def decimalPlaces (decimalDigitWeightedSum : List (BitVec 32)) : List Byte :=
  (carryWords 10 0 decimalDigitWeightedSum).map fun digit => 0x30 + digit.setWidth 8

/-- What is printed: the string without its leading zeros. -/
def iotAgentPrintUidInteger (hexString : List Byte) : List Byte :=
  let weigthValueArray := 1 :: List.replicate (maxUidDecimalStringSize - 1) 0
  let decimalDigitWeightedSum := List.replicate maxUidDecimalStringSize 0
  let sums := uidRounds hexString.reverse decimalDigitWeightedSum weigthValueArray
  (decimalPlaces sums).reverse.dropWhile (· = 0x30)

/-! ### The value of a string -/

/-- The number that hexadecimal digits spell; other characters count as 0. -/
def hexValue (hexString : List Byte) : Nat :=
  ofDigits 16 (hexString.reverse.map fun c => (charContrib c).toNat)

/-- A number without leading zeros, and so nothing for zero. -/
def decimalText (n : Nat) : List Byte := if n = 0 then [] else decimal n

theorem charContrib_lt : ∀ c : Byte, (charContrib c).toNat < 16 := by
  decide +kernel

/-! ### The loop -/

/-- The places of the weights are digits, so their carries stay small. -/
theorem nextWeights_toNat {weights : List (BitVec 32)} (hdigits : ∀ d ∈ weights, d.toNat < 10) :
    (nextWeights weights).map BitVec.toNat
      = carry 10 0 ((weights.map BitVec.toNat).map (16 * ·)) := by
  have hshift : ∀ d ∈ weights, (d <<< 4).toNat = 16 * d.toNat := fun d hd => by
    have hd := hdigits d hd
    rw [BitVec.toNat_shiftLeft, Nat.shiftLeft_eq, Nat.mod_eq_of_lt (by omega)]
    omega
  have hplaces : ∀ d ∈ weights.map (fun weight : BitVec 32 => weight <<< 4), d.toNat ≤ 144 := by
    intro d hd
    obtain ⟨c, hc, rfl⟩ := List.mem_map.mp hd
    have hlt := hdigits c hc
    rw [hshift c hc]
    omega
  rw [nextWeights, carryWords_toNat (r := 16) (by decide) (by decide) (by decide) hplaces,
    List.map_map, List.map_map]
  refine congrArg (carry 10 0) (List.map_congr_left fun d hd => ?_)
  exact hshift d hd

/-- A character adds its value times the weight of its position. -/
theorem addContribs_toNat {contrib : BitVec 32} {sums weights : List (BitVec 32)} {k : Nat}
    (hcontrib : contrib.toNat < 16) (hlen : sums.length = weights.length)
    (hsums : ∀ s ∈ sums, s.toNat ≤ 135 * k) (hdigits : ∀ d ∈ weights, d.toNat < 10)
    (hfits : 135 * (k + 1) < 2 ^ 32) :
    (addContribs contrib sums weights).map BitVec.toNat =
        List.zipWith (· + ·) (sums.map BitVec.toNat)
          ((weights.map BitVec.toNat).map (contrib.toNat * ·)) ∧
      ∀ s ∈ addContribs contrib sums weights, s.toNat ≤ 135 * (k + 1) := by
  induction sums generalizing weights with
  | nil => exact ⟨rfl, fun s hs => absurd hs List.not_mem_nil⟩
  | cons s sums ih =>
    rcases weights with - | ⟨d, weights⟩
    · cases hlen
    have hs := hsums s List.mem_cons_self
    have hd := hdigits d List.mem_cons_self
    have hmul : contrib.toNat * d.toNat ≤ 15 * 9 := Nat.mul_le_mul (by omega) (by omega)
    have hsum : (s + contrib * d).toNat = s.toNat + contrib.toNat * d.toNat := by
      rw [BitVec.toNat_add, BitVec.toNat_mul, Nat.mod_eq_of_lt (a := contrib.toNat * _) (by omega),
        Nat.mod_eq_of_lt (by omega)]
    obtain ⟨htail, hbound⟩ := ih (Nat.succ.inj hlen)
      (fun c hc => hsums c (List.mem_cons_of_mem _ hc))
      fun c hc => hdigits c (List.mem_cons_of_mem _ hc)
    unfold addContribs at htail hbound ⊢
    rw [List.zipWith_cons_cons, List.map_cons, htail, hsum]
    refine ⟨rfl, fun c hc => ?_⟩
    rcases List.mem_cons.mp hc with rfl | hc
    · omega
    · exact hbound c hc

/-- The places of a vector, as numbers. -/
abbrev places (ds : List (BitVec 32)) : List Nat := ds.map BitVec.toNat

theorem nextWeights_value {weights : List (BitVec 32)} (hdigits : ∀ d ∈ weights, d.toNat < 10) :
    (nextWeights weights).length = weights.length ∧ (∀ d ∈ nextWeights weights, d.toNat < 10) ∧
      ofDigits 10 (places (nextWeights weights))
        = 16 * ofDigits 10 (places weights) % 10 ^ weights.length := by
  have hpass := nextWeights_toNat hdigits
  refine ⟨?_, fun d hd => ?_, ?_⟩
  · have hlen := congrArg List.length hpass
    rwa [List.length_map, carry_length, List.length_map, List.length_map] at hlen
  · apply carry_lt (by decide) 0 ((places weights).map (16 * ·))
    rw [← hpass]
    exact List.mem_map_of_mem hd
  · rw [places, hpass, ofDigits_carry (by decide), Nat.zero_add, List.length_map, List.length_map,
      ← Nat.mul_ofDigits]

/-- **The loop**: what the sums are worth at the end, as far as the places
reach, is what they were worth before and the value of the characters at the
weight they begin with. -/
theorem uidRounds_value {picked : List Byte} {sums weights : List (BitVec 32)} {k : Nat}
    (hlen : sums.length = weights.length) (hsums : ∀ s ∈ sums, s.toNat ≤ 135 * k)
    (hdigits : ∀ d ∈ weights, d.toNat < 10) (hfits : 135 * (k + picked.length) < 2 ^ 32) :
    (uidRounds picked sums weights).length = weights.length ∧
      (∀ s ∈ uidRounds picked sums weights, s.toNat ≤ 135 * (k + picked.length)) ∧
      ofDigits 10 (places (uidRounds picked sums weights)) ≡
        ofDigits 10 (places sums) + ofDigits 10 (places weights)
          * ofDigits 16 (picked.map fun c => (charContrib c).toNat) [MOD 10 ^ weights.length] := by
  induction picked generalizing sums weights k with
  | nil => exact ⟨hlen, hsums, by simp [uidRounds, Nat.ModEq]⟩
  | cons c picked ih =>
    rw [List.length_cons] at hfits ⊢
    obtain ⟨hadd, hsums'⟩ := addContribs_toNat (charContrib_lt c) hlen hsums hdigits (by omega)
    obtain ⟨hlen', hdigits', hweights⟩ := nextWeights_value hdigits
    have hlen'' : (addContribs (charContrib c) sums weights).length
        = (nextWeights weights).length := by
      rw [addContribs, List.length_zipWith, hlen, hlen', min_self]
    have hfits' : 135 * (k + 1 + picked.length) < 2 ^ 32 := by omega
    obtain ⟨hlength, hbound, hvalue⟩ := ih hlen'' hsums' hdigits' hfits'
    have hsucc : k + (picked.length + 1) = k + 1 + picked.length := by omega
    rw [uidRounds, hsucc, hlength, hlen']
    refine ⟨rfl, hbound, ?_⟩
    rw [hlen'] at hvalue
    apply hvalue.trans
    have hsum : ofDigits 10 (places (addContribs (charContrib c) sums weights))
        = ofDigits 10 (places sums) + (charContrib c).toNat * ofDigits 10 (places weights) := by
      rw [places, hadd, ← Nat.ofDigits_add_ofDigits_eq_ofDigits_zipWith_of_length_eq
        (by simpa using hlen), ← Nat.mul_ofDigits]
    rw [hsum, hweights, List.map_cons, Nat.ofDigits_cons]
    generalize ofDigits 10 (places sums) = s
    generalize ofDigits 10 (places weights) = w
    generalize ofDigits 16 (picked.map _) = rest
    have hexpand : s + w * ((charContrib c).toNat + 16 * rest)
        = s + (charContrib c).toNat * w + 16 * w * rest := by ring
    rw [hexpand]
    exact Nat.ModEq.add_left _ ((Nat.mod_modEq _ _).mul_right rest)

/-! ### The printed text -/

/-- The digits in front of each other, the highest first. -/
theorem decimal_eq_digits {n : Nat} (hn : n ≠ 0) :
    decimal n = (Nat.digits 10 n).reverse.map fun d => 0x30 + BitVec.ofNat 8 d := by
  have hdigit : ∀ d < 10, BitVec.ofNat 8 d.digitChar.toNat = 0x30 + BitVec.ofNat 8 d := by
    decide
  induction n using Nat.strongRecOn with
  | ind n ih =>
    rw [decimal]
    by_cases hlt : n < 10
    · rw [Nat.toDigits_of_lt_base hlt, Nat.digits_of_lt 10 n hn hlt, List.map_singleton,
        List.reverse_singleton, List.map_singleton, hdigit n hlt]
    · have hdiv : n / 10 ≠ 0 := by omega
      have htail := ih (n / 10) (by omega) hdiv
      have hdigits : Nat.digits 10 n = n % 10 :: Nat.digits 10 (n / 10) :=
        Nat.digits_def' (by decide) (by omega)
      rw [decimal] at htail
      rw [Nat.toDigits_of_base_le (by decide) (by omega), List.map_append, htail, hdigits,
        List.reverse_cons, List.map_append, List.map_singleton, List.map_singleton,
        hdigit (n % 10) (Nat.mod_lt _ (by decide))]

theorem decimalText_eq (n : Nat) :
    decimalText n = (Nat.digits 10 n).reverse.map fun d => 0x30 + BitVec.ofNat 8 d := by
  by_cases hn : n = 0
  · subst hn
    rfl
  · rw [decimalText, if_neg hn, decimal_eq_digits hn]

/-- The last pass: the places with their carries are the digits of the sum, as
characters. -/
theorem decimalPlaces_eq {sums : List (BitVec 32)} {m : Nat} (hsums : ∀ s ∈ sums, s.toNat ≤ 9 * m)
    (hfits : 10 * m < 2 ^ 32) :
    decimalPlaces sums = (carry 10 0 (places sums)).map fun d => 0x30 + BitVec.ofNat 8 d := by
  have hpass : places (carryWords 10 0 sums) = carry 10 0 (places sums) := by
    refine carryWords_toNat (r := m) (m := 9 * m) (by omega) ?_ (Nat.zero_le m) hsums
    show (m + 9 * m) / 10 ≤ m
    omega
  rw [← hpass, places, List.map_map, decimalPlaces]
  refine List.map_congr_left fun d _ => ?_
  rw [Function.comp_apply, BitVec.ofNat_toNat]

/-- Zeros are dropped before or after they are characters. -/
theorem dropZeros_map {ds : List Nat} (hdigits : ∀ d ∈ ds, d < 10) :
    (ds.map fun d => 0x30 + BitVec.ofNat 8 d).dropWhile (· = 0x30)
      = (ds.dropWhile (· = 0)).map fun d => 0x30 + BitVec.ofNat 8 d := by
  have hzero : ∀ d < 10, decide ((0x30 : Byte) + BitVec.ofNat 8 d = 0x30) = decide (d = 0) := by
    decide
  induction ds with
  | nil => rfl
  | cons d ds ih =>
    rw [List.map_cons, List.dropWhile_cons, List.dropWhile_cons,
      hzero d (hdigits d List.mem_cons_self), ih fun c hc => hdigits c (List.mem_cons_of_mem _ hc)]
    split
    · rfl
    · rw [List.map_cons]

/-- **The conversion is exact** as far as the places reach: what is printed of
a string is the decimal number it spells, modulo 10^44. -/
theorem printUidInteger_eq (hexString : List Byte) (hfits : 150 * hexString.length < 2 ^ 32) :
    iotAgentPrintUidInteger hexString
      = decimalText (hexValue hexString % 10 ^ maxUidDecimalStringSize) := by
  have hlen : (List.replicate maxUidDecimalStringSize (0 : BitVec 32)).length
      = (1 :: List.replicate (maxUidDecimalStringSize - 1) (0 : BitVec 32)).length := rfl
  have hstart : ∀ s ∈ List.replicate maxUidDecimalStringSize (0 : BitVec 32), s.toNat ≤ 135 * 0 :=
    fun s hs => (congrArg BitVec.toNat (List.eq_of_mem_replicate hs)).le
  have hone : ∀ d ∈ 1 :: List.replicate (maxUidDecimalStringSize - 1) (0 : BitVec 32),
      d.toNat < 10 := by
    intro d hd
    rcases List.mem_cons.mp hd with rfl | hd
    · decide
    · rw [List.eq_of_mem_replicate hd]
      decide
  have hrounds : 135 * (0 + hexString.reverse.length) < 2 ^ 32 := by
    rw [List.length_reverse]
    omega
  obtain ⟨hlength, hbound, hvalue⟩ := uidRounds_value hlen hstart hone hrounds
  rw [iotAgentPrintUidInteger]
  generalize uidRounds hexString.reverse _ _ = sums at hlength hbound hvalue
  rw [List.length_reverse, Nat.zero_add] at hbound
  have hweight : ofDigits 10 (places (1 :: List.replicate (maxUidDecimalStringSize - 1) 0)) = 1 :=
    rfl
  have hsum : ofDigits 10 (places (List.replicate maxUidDecimalStringSize 0)) = 0 := rfl
  rw [hweight, hsum, Nat.zero_add, Nat.one_mul] at hvalue
  have hdigits : ∀ d ∈ carry 10 0 (places sums), d < 10 := carry_lt (by decide) 0 _
  have hplaces : decimalPlaces sums
      = (carry 10 0 (places sums)).map fun d => 0x30 + BitVec.ofNat 8 d :=
    decimalPlaces_eq (m := 15 * hexString.length) (fun s hs => (hbound s hs).trans (by omega))
      (by omega)
  rw [hplaces, ← List.map_reverse, dropZeros_map fun d hd => hdigits d (List.mem_reverse.mp hd),
    dropZeros_reverse (by decide) hdigits, ofDigits_carry (by decide), Nat.zero_add,
    List.length_map, hlength, decimalText_eq]
  exact congrArg _ (congrArg List.reverse (congrArg _ hvalue))

/-! ### The unique id -/

/-- `SE050_MODULE_UNIQUE_ID_LEN`, of the secure element's headers. -/
abbrev se050ModuleUniqueIdLen : Nat := 18

/-- `%02X`. -/
def hex2Upper (b : Byte) : List Byte :=
  [upperHexChar (b >>> 4 &&& 0xF), upperHexChar (b &&& 0xF)]

/-- What the secure element answers: the status of `Se05x_API_CheckObjectExists`,
and of `Se05x_API_ReadObject` with the bytes it delivers. -/
structure Se05x where
  checkObjectExists : BitVec 16
  readObject : BitVec 16 × List Byte

abbrev smOk : BitVec 16 := 0x9000

/-- The two texts that are printed; `none` on failure.  `uid` is the array on
the stack, of which the bytes that are read replace the front. -/
def iotAgentPrintUid (s : Se05x) (uid : CharArray se050ModuleUniqueIdLen) :
    Option (List Byte × List Byte) :=
  if s.checkObjectExists ≠ smOk then none
  else if s.readObject.1 ≠ smOk then none
  else
    let uid := uid.store s.readObject.2
    let uidHexString := uid.bytes.flatMap hex2Upper
    some (uidHexString, iotAgentPrintUidInteger uidHexString)

/-- The number an id is, its first byte the highest. -/
def uidNumber {n : Nat} (uid : CharArray n) : Nat := leNat uid.bytes.reverse

theorem charContrib_upper : ∀ b : Byte,
    (charContrib (upperHexChar (b >>> 4 &&& 0xF))).toNat = b.toNat / 16 ∧
      (charContrib (upperHexChar (b &&& 0xF))).toNat = b.toNat % 16 := by
  decide +kernel

theorem hex2Upper_length (bytes : List Byte) :
    (bytes.flatMap hex2Upper).length = 2 * bytes.length := by
  induction bytes with
  | nil => rfl
  | cons b bytes ih =>
    rw [List.flatMap_cons, List.length_append, ih, List.length_cons, hex2Upper, List.length_cons,
      List.length_singleton]
    omega

/-- The digits of the bytes spell the number of the bytes. -/
theorem hexValue_hex2Upper (bytes : List Byte) :
    hexValue (bytes.flatMap hex2Upper) = leNat bytes.reverse := by
  induction bytes with
  | nil => rfl
  | cons b bytes ih =>
    obtain ⟨hhi, hlo⟩ := charContrib_upper b
    have hlen : ((bytes.flatMap hex2Upper).reverse.map fun c => (charContrib c).toNat).length
        = 2 * bytes.length := by
      rw [List.length_map, List.length_reverse, hex2Upper_length]
    have hbyte : ofDigits 16 ((hex2Upper b).reverse.map fun c => (charContrib c).toNat)
        = b.toNat := by
      show ofDigits 16 [(charContrib _).toNat, (charContrib _).toNat] = _
      rw [hlo, hhi, Nat.ofDigits_cons, Nat.ofDigits_singleton]
      exact Nat.mod_add_div b.toNat 16
    rw [hexValue] at ih
    rw [hexValue, List.flatMap_cons, List.reverse_append, List.map_append, Nat.ofDigits_append,
      hlen, ih, hbyte, List.reverse_cons, leNat_append, leNat_cons, leNat_nil, List.length_reverse,
      pow_mul]
    simp

theorem decimalText_injective : Function.Injective decimalText := by
  have hread : ∀ n, (decimalText n).map (fun c => (c - 0x30).toNat) = (Nat.digits 10 n).reverse := by
    intro n
    have hdigit : ∀ d < 10, ((0x30 : Byte) + BitVec.ofNat 8 d - 0x30).toNat = d := by decide
    rw [decimalText_eq, List.map_map]
    apply (List.map_congr_left fun d hd => ?_).trans (List.map_id _)
    exact hdigit d (Nat.digits_lt_base (by decide) (List.mem_reverse.mp hd))
  intro n m h
  apply Nat.digits.injective 10
  apply List.reverse_injective
  rw [← hread n, ← hread m, h]

theorem uidNumber_lt (uid : CharArray se050ModuleUniqueIdLen) :
    uidNumber uid < 10 ^ maxUidDecimalStringSize := by
  have hlt := leNat_lt uid.bytes.reverse
  rw [List.length_reverse, uid.length_eq] at hlt
  exact hlt.trans (by norm_num)

theorem uidNumber_injective {n : Nat} :
    Function.Injective (uidNumber : CharArray n → Nat) := by
  intro uid uid' h
  have hdigits : ∀ u : CharArray n, ∀ d ∈ u.bytes.reverse.map BitVec.toNat, d < 256 := by
    intro u d hd
    obtain ⟨b, -, rfl⟩ := List.mem_map.mp hd
    exact b.isLt
  have hbytes := Nat.ofDigits_inj_of_len_eq (by decide) (by simp) (hdigits uid) (hdigits uid') h
  apply CharArray.ext
  apply List.reverse_injective
  exact List.map_injective_iff.mpr (fun b c => BitVec.eq_of_toNat_eq) hbytes

/-- Of 18 bytes no digit is lost. -/
theorem printUidInteger_hex2Upper (uid : CharArray se050ModuleUniqueIdLen) :
    iotAgentPrintUidInteger (uid.bytes.flatMap hex2Upper) = decimalText (uidNumber uid) := by
  rw [printUidInteger_eq _ (by rw [hex2Upper_length, uid.length_eq]; decide), hexValue_hex2Upper]
  exact congrArg decimalText (Nat.mod_eq_of_lt (uidNumber_lt uid))

/-- **A unique id is printed exactly**: as the decimal number its 18 bytes are,
without leading zeros, so that no two ids are printed alike.  What was read is
looked at only if both calls succeed. -/
theorem printUid_exact (s : Se05x) (uid : CharArray se050ModuleUniqueIdLen) :
    (iotAgentPrintUid s uid =
      if s.checkObjectExists = smOk ∧ s.readObject.1 = smOk then
        some ((uid.store s.readObject.2).bytes.flatMap hex2Upper,
          decimalText (uidNumber (uid.store s.readObject.2)))
      else none) ∧
    ∀ id id' : CharArray se050ModuleUniqueIdLen,
      iotAgentPrintUidInteger (id.bytes.flatMap hex2Upper)
        = iotAgentPrintUidInteger (id'.bytes.flatMap hex2Upper) → id = id' := by
  constructor
  · rw [iotAgentPrintUid]
    by_cases hexists : s.checkObjectExists = smOk
    · by_cases hread : s.readObject.1 = smOk
      · rw [if_neg (not_not_intro hexists), if_neg (not_not_intro hread), if_pos ⟨hexists, hread⟩]
        dsimp only
        rw [printUidInteger_hex2Upper]
      · rw [if_neg (not_not_intro hexists), if_pos hread, if_neg fun h => hread h.2]
    · rw [if_pos hexists, if_neg fun h => hexists h.1]
  · intro id id' h
    rw [printUidInteger_hex2Upper, printUidInteger_hex2Upper] at h
    exact uidNumber_injective (decimalText_injective h)

/-- The id of zeros is printed as nothing. -/
example : iotAgentPrintUidInteger (ascii "000000000000000000000000000000000000") = [] := by
  decide +kernel

end AktualizrNano
