import Lox.Number.Binary64
import Mathlib

/-!
Doubles and their words: the bits of a double make it up again, negation changes the sign
alone, each finite word is the one nearest to what it stands for, and the whole numbers from
`overflow` on have none.
-/

namespace Lox.Binary64

theorem toFloat_magnitude (x : Float) : toFloat (isNegative x) (magnitude x) = x := by
  have bound : x.toBits.toNat < 2 * signWeight := x.toBits.toNat_lt
  have bits : (if isNegative x then signWeight + magnitude x else magnitude x) =
      x.toBits.toNat := by
    simp only [isNegative, magnitude, decide_eq_true_eq]
    split
    next negative =>
      have rest : x.toBits.toNat % signWeight = x.toBits.toNat - signWeight := by
        rw [Nat.mod_eq_sub_mod negative, Nat.mod_eq_of_lt (by omega)]
      omega
    next positive => exact Nat.mod_eq_of_lt (by omega)
  rw [toFloat, bits, UInt64.ofNat_toNat, Float.ofBits_toBits]

theorem eq_nan_of_infinity_lt {x : Float} (beyond : infinity < magnitude x) : x = nan := by
  have bound : x.toBits.toNat % 0x8000000000000000 > 0x7ff0000000000000 := beyond
  let bits : BitVec Float.Model.Format.binary64.numBits := x.toBits.toBitVec
  have exponent : Float.Model.UnpackedFloat.unpackExponent bits = -1#11 := by
    apply BitVec.eq_of_toNat_eq
    simp [bits, Float.Model.UnpackedFloat.unpackExponent, Nat.shiftRight_eq_div_pow]
    omega
  have mantissa : Float.Model.UnpackedFloat.unpackMantissa bits ≠ 0#52 := by
    intro empty
    replace empty := congrArg BitVec.toNat empty
    simp [bits, Float.Model.UnpackedFloat.unpackMantissa] at empty
    omega
  have bits : x.toBits = UInt64.ofNat (infinity + binadeSize / 2) :=
    UInt64.toBitVec_inj.1 (x.toModel.valid.eq_packedNaN exponent mantissa)
  rw [← Float.ofBits_toBits x, bits]
  rfl

theorem toBits_toFloat (negative : Bool) {word : Nat} (number : word ≤ infinity) :
    (toFloat negative word).toBits.toNat = if negative then signWeight + word else word := by
  let whole := if negative then signWeight + word else word
  have small : whole < 2 ^ 64 := by
    have : infinity < signWeight := by decide
    have : 2 * signWeight = 2 ^ 64 := by decide
    dsimp only [whole]
    split <;> omega
  let bits : UInt64 := UInt64.ofNat whole
  have value : bits.toBitVec.toNat = whole := UInt64.toNat_ofNat_of_lt small
  have valid : Float.Model.Format.binary64.Valid bits.toBitVec := by
    refine ⟨fun exponent mantissa => absurd ?_ mantissa⟩
    replace exponent := congrArg BitVec.toNat exponent
    apply BitVec.eq_of_toNat_eq
    simp only [infinity, binadeSize] at number
    simp only [whole, signWeight] at value
    simp [Float.Model.UnpackedFloat.unpackExponent, Float.Model.UnpackedFloat.unpackMantissa,
      Nat.shiftRight_eq_div_pow] at exponent ⊢
    cases negative <;> simp at value <;> omega
  have same := Float.Model.UnpackedFloat.pack_unpack_of_valid valid
  change (UInt64.ofBitVec _).toNat = _
  rw [same]
  exact value

theorem magnitude_toFloat (negative : Bool) {word : Nat} (number : word ≤ infinity) :
    magnitude (toFloat negative word) = word := by
  have below : word < signWeight := Nat.lt_of_le_of_lt number (by decide)
  rw [magnitude, toBits_toFloat negative number]
  split
  · rw [Nat.add_mod_left, Nat.mod_eq_of_lt below]
  · exact Nat.mod_eq_of_lt below

theorem isNegative_toFloat (negative : Bool) {word : Nat} (number : word ≤ infinity) :
    isNegative (toFloat negative word) = negative := by
  have below : word < signWeight := Nat.lt_of_le_of_lt number (by decide)
  rw [isNegative, toBits_toFloat negative number]
  cases negative <;> simp [below]

section Unpacked

open Float.Model (Format)
open Float.Model.UnpackedFloat (unpackExponent unpackMantissa unpackSign Sign unpack pack)

variable {negative : Bool} {word : Nat} {bits : BitVec Format.binary64.numBits}

theorem toNat_bits (number : word ≤ infinity)
    (made : (toFloat negative word).toBits.toBitVec = bits) :
    bits.toNat = if negative then signWeight + word else word := by
  rw [← made]
  exact toBits_toFloat negative number

theorem toNat_unpackExponent (number : word ≤ infinity)
    (made : (toFloat negative word).toBits.toBitVec = bits) :
    (unpackExponent bits).toNat = word / binadeSize := by
  have value := toNat_bits number made
  simp only [infinity, signWeight, binadeSize] at number value ⊢
  cases negative <;> simp [unpackExponent, Nat.shiftRight_eq_div_pow] at value ⊢ <;> omega

theorem toNat_unpackMantissa (number : word ≤ infinity)
    (made : (toFloat negative word).toBits.toBitVec = bits) :
    (unpackMantissa bits).toNat = word % binadeSize := by
  have value := toNat_bits number made
  simp only [infinity, signWeight, binadeSize] at number value ⊢
  cases negative <;> simp [unpackMantissa] at value ⊢ <;> omega

theorem unpackSign_eq (number : word ≤ infinity)
    (made : (toFloat negative word).toBits.toBitVec = bits) :
    unpackSign bits = BitVec.ofBool negative := by
  have value := toNat_bits number made
  apply BitVec.eq_of_toNat_eq
  simp only [infinity, signWeight, binadeSize] at number value
  cases negative <;> simp [unpackSign, Nat.shiftRight_eq_div_pow] at value ⊢ <;> omega

theorem neg_unpack {b b' : BitVec Format.binary64.numBits}
    (exponent : unpackExponent b' = unpackExponent b)
    (mantissa : unpackMantissa b' = unpackMantissa b)
    (sign : Sign.ofBitVec (unpackSign b') = -Sign.ofBitVec (unpackSign b)) :
    (unpack Format.binary64 b).neg = unpack Format.binary64 b' := by
  simp only [unpack, sign, exponent, mantissa]
  split_ifs <;> rfl

theorem neg_toFloat {word : Nat} (number : word ≤ infinity) :
    -toFloat false word = toFloat true word := by
  let plain : BitVec Format.binary64.numBits := (toFloat false word).toBits.toBitVec
  let signed : BitVec Format.binary64.numBits := (toFloat true word).toBits.toBitVec
  have madePlain : (toFloat false word).toBits.toBitVec = plain := rfl
  have madeSigned : (toFloat true word).toBits.toBitVec = signed := rfl
  have exponent : unpackExponent signed = unpackExponent plain := by
    apply BitVec.eq_of_toNat_eq
    rw [toNat_unpackExponent number madeSigned, toNat_unpackExponent number madePlain]
  have mantissa : unpackMantissa signed = unpackMantissa plain := by
    apply BitVec.eq_of_toNat_eq
    rw [toNat_unpackMantissa number madeSigned, toNat_unpackMantissa number madePlain]
  have sign : Sign.ofBitVec (unpackSign signed) = -Sign.ofBitVec (unpackSign plain) := by
    rw [unpackSign_eq number madeSigned, unpackSign_eq number madePlain]
    rfl
  have packed : pack Format.binary64 (unpack Format.binary64 signed) = signed :=
    Float.Model.UnpackedFloat.pack_unpack_of_valid (toFloat true word).toModel.valid
  have bits : (-toFloat false word).toBits = (toFloat true word).toBits := by
    apply UInt64.toBitVec_inj.1
    change pack Format.binary64 (unpack Format.binary64 plain).neg = signed
    rw [neg_unpack exponent mantissa sign, packed]
  rw [← Float.ofBits_toBits (-toFloat false word), bits, Float.ofBits_toBits]

theorem unpack_of_ne_zero (number : word ≤ infinity) (nonzero : word ≠ 0)
    (made : (toFloat negative word).toBits.toBitVec = bits) :
    unpack Format.binary64 bits = .infinity (.ofBitVec (.ofBool negative)) ∨
      ∃ mantissa exponent positive, unpack Format.binary64 bits =
        .finite (.ofBitVec (.ofBool negative)) mantissa exponent positive := by
  have exponent := toNat_unpackExponent number made
  have mantissa := toNat_unpackMantissa number made
  have parts := Nat.div_add_mod word binadeSize
  simp only [unpack, unpackSign_eq number made]
  split
  next last =>
    have binade : word / binadeSize = 0x7ff := by
      rw [← exponent, last]
      rfl
    have empty : unpackMantissa bits = 0#_ := by
      apply BitVec.eq_of_toNat_eq
      change _ = 0
      simp only [infinity, binadeSize] at number parts binade mantissa
      omega
    rw [if_pos empty]
    exact .inl rfl
  next =>
    split
    next first =>
      have binade : word / binadeSize = 0 := by
        rw [← exponent, first]
        rfl
      have positive : 0 < (unpackMantissa bits).toNat := by
        rw [mantissa]
        rw [binade] at parts
        omega
      have full : unpackMantissa bits ≠ 0#_ := by
        intro empty
        rw [empty] at positive
        exact absurd positive (by decide)
      rw [dif_neg full]
      exact .inr ⟨_, _, positive, rfl⟩
    next =>
      have positive : 0 < (1#1 ++ unpackMantissa bits).toNat := by
        rw [BitVec.toNat_append]
        exact Nat.lt_of_lt_of_le (by decide) Nat.left_le_or
      exact .inr ⟨_, _, positive, rfl⟩

theorem eq_zero_of_beq_zero (number : word ≤ infinity) (zero : toFloat negative word == 0) :
    word = 0 := by
  by_contra nonzero
  change (unpack Format.binary64 (toFloat negative word).toBits.toBitVec).beq
    (.zero .positive) = true at zero
  rcases unpack_of_ne_zero number nonzero rfl with infinite | ⟨mantissa, exponent, positive, finite⟩
  · rw [infinite] at zero
    cases negative <;> cases zero
  · rw [finite] at zero
    cases negative <;> cases zero

theorem eq_toFloat_zero {x : Float} (zero : x == 0) : x = toFloat (isNegative x) 0 := by
  by_cases number : magnitude x ≤ infinity
  · have whole := toFloat_magnitude x
    rw [← whole] at zero
    rw [eq_zero_of_beq_zero number zero] at whole
    exact whole.symm
  · rw [eq_nan_of_infinity_lt (Nat.lt_of_not_le number)] at zero
    exact absurd zero (by decide)

theorem isNaN_toFloat (number : word ≤ infinity) (nonzero : word ≠ 0) :
    (toFloat negative word).isNaN = false := by
  change (unpack Format.binary64 (toFloat negative word).toBits.toBitVec).isNaN = false
  rcases unpack_of_ne_zero number nonzero rfl with infinite | ⟨mantissa, exponent, positive, finite⟩
  · rw [infinite]
    rfl
  · rw [finite]
    rfl

theorem toBits_div (x y : Float) :
    (x / y).toBits.toBitVec = pack Format.binary64
      ((unpack Format.binary64 x.toBits.toBitVec).div Format.binary64
        (unpack Format.binary64 y.toBits.toBitVec)) := rfl

theorem toBits_mul (x y : Float) :
    (x * y).toBits.toBitVec = pack Format.binary64
      ((unpack Format.binary64 x.toBits.toBitVec).mul Format.binary64
        (unpack Format.binary64 y.toBits.toBitVec)) := rfl

/-- A number that is not zero, divided by zero, is infinite, and so is the infinite number of its
sign times one with the sign of the zero. -/
theorem toFloat_div_zero (number : word ≤ infinity) (nonzero : word ≠ 0) (other : Bool) :
    toFloat negative word / toFloat other 0 =
      toFloat negative infinity * toFloat other (1023 * binadeSize) := by
  have zero : unpack Format.binary64 (toFloat other 0).toBits.toBitVec =
      .zero (.ofBitVec (.ofBool other)) := by
    cases other <;> rfl
  have infinite : unpack Format.binary64 (toFloat negative infinity).toBits.toBitVec =
      .infinity (.ofBitVec (.ofBool negative)) := by
    cases negative <;> rfl
  have one : ∃ mantissa exponent positive,
      unpack Format.binary64 (toFloat other (1023 * binadeSize)).toBits.toBitVec =
        .finite (.ofBitVec (.ofBool other)) mantissa exponent positive := by
    cases other <;> exact ⟨_, _, _, rfl⟩
  obtain ⟨_, _, _, one⟩ := one
  have bits : (toFloat negative word / toFloat other 0).toBits =
      (toFloat negative infinity * toFloat other (1023 * binadeSize)).toBits := by
    apply UInt64.toBitVec_inj.1
    rw [toBits_div, toBits_mul, zero, infinite, one]
    rcases unpack_of_ne_zero number nonzero rfl with large | ⟨_, _, _, finite⟩
    · rw [large]
      cases negative <;> cases other <;> rfl
    · rw [finite]
      cases negative <;> cases other <;> rfl
  rw [← Float.ofBits_toBits (toFloat negative word / _), bits, Float.ofBits_toBits]

end Unpacked

section Nearest

theorem roundDiv_mul_self (n : Nat) {d : Nat} (positive : 0 < d) : roundDiv (n * d) d = n := by
  simp [roundDiv, Nat.mul_div_cancel _ positive, positive]

theorem roundDiv_mul_right (n d : Nat) {k : Nat} (positive : 0 < k) :
    roundDiv (n * k) (d * k) = roundDiv n d := by
  have twice : 2 * (n * k % (d * k)) = 2 * (n % d) * k := by
    rw [Nat.mul_mod_mul_right, Nat.mul_assoc]
  simp only [roundDiv, Nat.mul_div_mul_right _ _ positive, twice, Nat.mul_lt_mul_right positive]

theorem nearest_mul_right (n d : Nat) {k : Nat} (positive : 0 < k) :
    nearest (n * k) (d * k) = nearest n d := by
  have units : n * k * unitsOfOne = n * unitsOfOne * k := Nat.mul_right_comm ..
  have steps (p : Nat) : d * k * p = d * p * k := Nat.mul_right_comm ..
  simp only [nearest, units, steps, Nat.mul_div_mul_right _ _ positive,
    roundDiv_mul_right _ _ positive]

theorem nearest_congr {n d n' d' : Nat} (positive : 0 < d) (positive' : 0 < d')
    (same : n * d' = n' * d) : nearest n d = nearest n' d' := by
  rw [← nearest_mul_right n d positive', same, Nat.mul_comm d, nearest_mul_right n' d' positive]

-- The exponent is too large for anything but the kernel to multiply out.
theorem unitsOfOne_pos : 0 < unitsOfOne := by
  decide +kernel

theorem unitsOfOne_eq : unitsOfOne = 2 ^ 1074 := by
  decide +kernel

theorem scaled_of_div_eq_zero {word : Nat} (subnormal : word / binadeSize = 0) :
    scaled word = word :=
  if_pos subnormal

theorem scaled_of_div_eq_succ {word binade : Nat} (normal : word / binadeSize = binade + 1) :
    scaled word = (binadeSize + word % binadeSize) * 2 ^ binade := by
  simp [scaled, normal]

theorem log2_scaled {word binade : Nat} (normal : word / binadeSize = binade + 1) :
    (scaled word).log2 = 52 + binade := by
  have rest : word % binadeSize < binadeSize := Nat.mod_lt _ (by decide)
  have size : binadeSize = 2 ^ 52 := rfl
  have power := Nat.two_pow_pos binade
  rw [scaled_of_div_eq_succ normal, Nat.log2_eq_iff (Nat.mul_ne_zero (by omega) (by omega))]
  constructor
  · rw [Nat.pow_add]
    exact Nat.mul_le_mul_right _ (by omega)
  · rw [Nat.add_right_comm, Nat.pow_add]
    exact Nat.mul_lt_mul_of_pos_right (by omega) power

theorem log2_le_of_div_eq_zero {word : Nat} (subnormal : word / binadeSize = 0) :
    word.log2 ≤ 52 := by
  have small : word < 2 ^ 52 := by simpa [binadeSize] using subnormal
  by_cases zero : word = 0
  · simp [zero]
  · exact Nat.le_of_lt ((Nat.log2_lt zero).2 small)

theorem scaled_pos {word : Nat} (nonzero : word ≠ 0) : 0 < scaled word := by
  cases binade : word / binadeSize with
  | zero => simpa [scaled_of_div_eq_zero binade] using Nat.pos_of_ne_zero nonzero
  | succ binade' =>
    rw [scaled_of_div_eq_succ binade]
    exact Nat.mul_pos (Nat.add_pos_left (by decide) _) (Nat.two_pow_pos _)

theorem nearest_scaled {word : Nat} (finite : word < infinity) :
    nearest (scaled word) unitsOfOne = word := by
  have units := Nat.mul_div_cancel (scaled word) unitsOfOne_pos
  simp only [nearest, units]
  have rounded (p : Nat) (positive : 0 < p) (whole : Nat) :
      roundDiv (whole * p * unitsOfOne) (unitsOfOne * p) = whole := by
    rw [Nat.mul_assoc, Nat.mul_comm p, roundDiv_mul_self _ (Nat.mul_pos unitsOfOne_pos positive)]
  have kept : min word infinity = word := Nat.min_eq_left (Nat.le_of_lt finite)
  cases binade : word / binadeSize with
  | zero =>
    have low : word.log2 - 52 = 0 := Nat.sub_eq_zero_of_le (log2_le_of_div_eq_zero binade)
    have same := rounded 1 (by decide) word
    rw [Nat.mul_one] at same
    simp only [scaled_of_div_eq_zero binade, low, Nat.pow_eq, Nat.pow_zero, same, Nat.zero_mul,
      Nat.zero_add, kept]
  | succ binade' =>
    have low : (scaled word).log2 - 52 = binade' := by
      rw [log2_scaled binade, Nat.add_sub_cancel_left]
    have same : binade' * binadeSize + (binadeSize + word % binadeSize) = word := by
      have parts := Nat.div_add_mod word binadeSize
      rw [binade, Nat.mul_succ, Nat.mul_comm, Nat.add_assoc] at parts
      exact parts
    rw [low, scaled_of_div_eq_succ binade]
    simp only [Nat.pow_eq, rounded _ (Nat.two_pow_pos binade'), same, kept]

end Nearest

section Overflow

/-- The least whole number that is too large for a double: half a step beyond the last one. -/
def overflow : Nat := 2 ^ 1024 - 2 ^ 970

theorem le_roundDiv_iff {num den whole : Nat} (positive : 0 < den) (even : whole % 2 = 0)
    (nonzero : 0 < whole) : whole ≤ roundDiv num den ↔ (2 * whole - 1) * den ≤ 2 * num := by
  have parts := Nat.div_add_mod num den
  have rest := Nat.mod_lt num positive
  obtain ⟨less, rfl⟩ : ∃ less, whole = less + 1 := ⟨whole - 1, by omega⟩
  have odd : 2 * (less + 1) - 1 = 2 * less + 1 := by omega
  simp only [roundDiv, odd]
  generalize num / den = quotient, num % den = left at parts rest ⊢
  rcases Nat.lt_trichotomy quotient less with below | rfl | above
  · have gap : den * (quotient + 1) ≤ den * less := Nat.mul_le_mul_left den below
    constructor
    · intro reached
      split at reached
      · omega
      · split at reached <;> omega
    · intro reached
      nlinarith
  · have product : (2 * quotient + 1) * den = 2 * (den * quotient) + den := by ring
    split
    · omega
    · split <;> omega
  · have gap : den * (less + 1) ≤ den * quotient := Nat.mul_le_mul_left den above
    constructor
    · intro _
      nlinarith
    · intro _
      split
      · omega
      · split <;> omega

theorem div_le_roundDiv (num den : Nat) : num / den ≤ roundDiv num den := by
  simp only [roundDiv]
  split
  · exact Nat.le_refl _
  · split <;> omega

theorem roundDiv_le_div_succ (num den : Nat) : roundDiv num den ≤ num / den + 1 := by
  simp only [roundDiv]
  split
  · omega
  · split <;> omega

theorem log2_mul_two_pow {n : Nat} (nonzero : n ≠ 0) (k : Nat) :
    (n * 2 ^ k).log2 = n.log2 + k := by
  rw [Nat.log2_eq_iff (Nat.mul_ne_zero nonzero (Nat.ne_of_gt (Nat.two_pow_pos k)))]
  constructor
  · rw [Nat.pow_add]
    exact Nat.mul_le_mul_right _ (Nat.log2_self_le nonzero)
  · rw [Nat.add_right_comm, Nat.pow_add]
    exact Nat.mul_lt_mul_of_pos_right Nat.lt_log2_self (Nat.two_pow_pos k)

theorem nearest_one {whole : Nat} (nonzero : whole ≠ 0) :
    nearest whole 1 = min ((whole.log2 + 1022) * binadeSize +
      roundDiv (whole * 2 ^ 1074) (2 ^ (whole.log2 + 1022))) infinity := by
  have log := log2_mul_two_pow nonzero 1074
  simp only [nearest, unitsOfOne_eq, Nat.div_one, Nat.one_mul, Nat.pow_eq, log]
  rfl

theorem overflow_eq : overflow = (2 * 2 ^ 53 - 1) * 2 ^ 970 := by
  decide +kernel

theorem le_roundDiv_last (whole : Nat) :
    2 ^ 53 ≤ roundDiv (whole * 2 ^ 1074) (2 ^ (1023 + 1022)) ↔ overflow ≤ whole := by
  have steps : 2 ^ (1023 + 1022) = 2 ^ 970 * 2 * 2 ^ 1074 := by
    rw [← Nat.pow_succ, ← Nat.pow_add]
  rw [le_roundDiv_iff (Nat.two_pow_pos _) (by decide) (by decide), overflow_eq, steps]
  generalize 2 * 2 ^ 53 - 1 = odd
  have left : odd * (2 ^ 970 * 2 * 2 ^ 1074) = odd * 2 ^ 970 * (2 * 2 ^ 1074) := by ring
  have right : 2 * (whole * 2 ^ 1074) = whole * (2 * 2 ^ 1074) := by ring
  rw [left, right]
  exact Nat.mul_le_mul_right_iff (Nat.mul_pos (by decide) (Nat.two_pow_pos _))

theorem nearest_eq_infinity_iff (whole : Nat) : nearest whole 1 = infinity ↔ overflow ≤ whole := by
  by_cases zero : whole = 0
  · subst zero
    decide +kernel
  rw [nearest_one zero, min_eq_right_iff]
  have last := le_roundDiv_last whole
  have low := Nat.log2_self_le zero
  have high := Nat.lt_log2_self (n := whole)
  generalize whole.log2 = log at low high ⊢
  have steps : 0 < 2 ^ (log + 1022) := Nat.two_pow_pos _
  have atLeast : 2 ^ 52 ≤ whole * 2 ^ 1074 / 2 ^ (log + 1022) := by
    rw [Nat.le_div_iff_mul_le steps, ← Nat.pow_add, show 52 + (log + 1022) = log + 1074 by omega,
      Nat.pow_add]
    exact Nat.mul_le_mul_right _ low
  have atMost : whole * 2 ^ 1074 / 2 ^ (log + 1022) < 2 ^ 53 := by
    rw [Nat.div_lt_iff_lt_mul steps, ← Nat.pow_add,
      show 53 + (log + 1022) = log + 1 + 1074 by omega, Nat.pow_add]
    exact Nat.mul_lt_mul_of_pos_right high (Nat.two_pow_pos _)
  have below := div_le_roundDiv (whole * 2 ^ 1074) (2 ^ (log + 1022))
  have above := roundDiv_le_div_succ (whole * 2 ^ 1074) (2 ^ (log + 1022))
  rcases Nat.lt_trichotomy log 1023 with small | rfl | large
  · have finite : whole < overflow :=
      calc whole < 2 ^ (log + 1) := high
        _ ≤ 2 ^ 1023 := Nat.pow_le_pow_right (by decide) small
        _ ≤ overflow := by decide +kernel
    simp only [infinity, binadeSize]
    omega
  · rw [← last]
    simp only [infinity, binadeSize]
    omega
  · have beyond : overflow ≤ whole :=
      calc overflow ≤ 2 ^ 1024 := Nat.sub_le _ _
        _ ≤ 2 ^ log := Nat.pow_le_pow_right (by decide) large
        _ ≤ whole := low
    simp only [infinity, binadeSize]
    omega

end Overflow

end Lox.Binary64
