import Lox.Number.Decimal
import Lox.Proofs.Number.Rounding

/-!
Decimals read as doubles: zeros at the end of the digits do not matter, and the
shortest digits of a finite double read back as that double.
-/

namespace Lox.Decimal

theorem length_le_iff {n k : Nat} (positive : 0 < k) : length n ≤ k ↔ n < 10 ^ k :=
  Nat.length_toDigits_le_iff (by decide) positive

theorem length_pos (n : Nat) : 0 < length n :=
  Nat.length_toDigits_pos

theorem lt_pow_length (n : Nat) : n < 10 ^ length n :=
  (length_le_iff (length_pos n)).1 (Nat.le_refl _)

theorem pow_le_of_lt_length {n k : Nat} (nonzero : n ≠ 0) (longer : k < length n) :
    10 ^ k ≤ n := by
  by_cases zero : k = 0
  · subst zero
    rw [Nat.pow_zero]
    omega
  · by_contra below
    have short := (length_le_iff (by omega)).2 (Nat.not_le.1 below)
    omega

theorem nearest_eq_infinity {d : Decimal} (nonzero : d.digits ≠ 0)
    (high : 310 < (length d.digits : Int) + d.exponent) :
    Binary64.nearest (d.digits * 10 ^ d.exponent.toNat) (10 ^ (-d.exponent).toNat) =
      Binary64.infinity := by
  have positive : 0 < 10 ^ (-d.exponent).toNat := Nat.pow_pos (by decide)
  have overflow : Binary64.overflow ≤ 10 ^ 310 := by decide +kernel
  have first := length_pos d.digits
  have leading := pow_le_of_lt_length nonzero (Nat.sub_lt first Nat.one_pos)
  apply Binary64.nearest_eq_infinity positive
  calc Binary64.overflow * 10 ^ (-d.exponent).toNat
      ≤ 10 ^ 310 * 10 ^ (-d.exponent).toNat := Nat.mul_le_mul_right _ overflow
    _ = 10 ^ (310 + (-d.exponent).toNat) := (Nat.pow_add ..).symm
    _ ≤ 10 ^ (length d.digits - 1 + d.exponent.toNat) :=
        Nat.pow_le_pow_right (by decide) (by omega)
    _ = 10 ^ (length d.digits - 1) * 10 ^ d.exponent.toNat := Nat.pow_add ..
    _ ≤ d.digits * 10 ^ d.exponent.toNat := Nat.mul_le_mul_right _ leading

theorem nearest_eq_zero {d : Decimal} (low : (length d.digits : Int) + d.exponent < -325) :
    Binary64.nearest (d.digits * 10 ^ d.exponent.toNat) (10 ^ (-d.exponent).toNat) = 0 := by
  have positive : 0 < 10 ^ (-d.exponent).toNat := Nat.pow_pos (by decide)
  have units : 2 * Binary64.unitsOfOne ≤ 10 ^ 324 := by decide +kernel
  have none : d.exponent.toNat = 0 := by omega
  apply Binary64.nearest_eq_zero positive
  rw [none, Nat.pow_zero, Nat.mul_one]
  calc 2 * (d.digits * Binary64.unitsOfOne) = d.digits * (2 * Binary64.unitsOfOne) := by ring
    _ ≤ d.digits * 10 ^ 324 := Nat.mul_le_mul_left _ units
    _ < 10 ^ length d.digits * 10 ^ 324 :=
        Nat.mul_lt_mul_of_pos_right (lt_pow_length _) (Nat.pow_pos (by decide))
    _ = 10 ^ (length d.digits + 324) := (Nat.pow_add ..).symm
    _ ≤ 10 ^ (-d.exponent).toNat := Nat.pow_le_pow_right (by decide) (by omega)

/-- Reading a decimal is rounding its value. -/
theorem toWord_eq_nearest (d : Decimal) :
    d.toWord =
      Binary64.nearest (d.digits * 10 ^ d.exponent.toNat) (10 ^ (-d.exponent).toNat) := by
  unfold toWord
  dsimp only
  split
  next zero =>
    rw [zero, Nat.zero_mul, Binary64.nearest_eq_zero (Nat.pow_pos (by decide))]
    rw [Nat.zero_mul, Nat.mul_zero]
    exact Nat.pow_pos (by decide)
  next nonzero =>
    split
    next high => exact (nearest_eq_infinity nonzero high).symm
    next =>
      split
      next low => exact (nearest_eq_zero low).symm
      next =>
        simp only [Nat.pow_eq]
        split
        next whole =>
          have none : (-d.exponent).toNat = 0 := by omega
          rw [none, Nat.pow_zero]
        next fraction =>
          have none : d.exponent.toNat = 0 := by omega
          rw [none, Nat.pow_zero, Nat.mul_one]

theorem toWord_le_infinity (d : Decimal) : d.toWord ≤ Binary64.infinity := by
  rw [toWord_eq_nearest]
  exact Nat.min_le_right _ _

theorem toWord_mul_pow (n : Nat) (e : Int) (k : Nat) :
    toWord ⟨n * 10 ^ k, e - k⟩ = toWord ⟨n, e⟩ := by
  rw [toWord_eq_nearest, toWord_eq_nearest]
  apply Binary64.nearest_congr (Nat.pow_pos (by decide)) (Nat.pow_pos (by decide))
  have places : k + (e - k).toNat + (-e).toNat = e.toNat + (-(e - k)).toNat := by omega
  simp only [Nat.mul_assoc, ← Nat.pow_add, places]

theorem toWord_trim (n : Nat) (e : Int) : (trim n e).toWord = toWord ⟨n, e⟩ := by
  fun_induction trim n e with
  | case1 n e last ih =>
    have same := toWord_mul_pow (n / 10) (e + 1) 1
    rw [Nat.pow_one, Nat.div_mul_cancel (Nat.dvd_of_mod_eq_zero last.2)] at same
    simpa [ih] using same.symm
  | case2 => rfl

theorem toWord_of_closest? {word : Nat} {e : Int} {d : Decimal} (found : closest? word e = some d) :
    d.toWord = word := by
  simp only [closest?] at found
  split at found
  next lower =>
    cases found
    exact lower.1
  next =>
    split at found
    next upper =>
      cases found
      exact upper
    next => cases found

theorem nearest_mul_fives {word : Nat} (finite : word < Binary64.infinity) {k : Nat}
    (units : Binary64.unitsOfOne = 2 ^ k) :
    Binary64.nearest (Binary64.scaled word * 5 ^ k) (10 ^ k) = word := by
  have tens : 10 ^ k = Binary64.unitsOfOne * 5 ^ k := by rw [units, ← Nat.mul_pow]
  rw [tens, Binary64.nearest_mul_right _ _ (Nat.pow_pos (by decide)),
    Binary64.nearest_scaled finite]

theorem toWord_exact {word : Nat} (finite : word < Binary64.infinity) :
    (exact word).toWord = word := by
  have exponent : (exact word).exponent = -1074 := rfl
  have digits : (exact word).digits = Binary64.scaled word * Nat.pow 5 1074 := rfl
  rw [toWord_eq_nearest, exponent]
  simpa [digits] using nearest_mul_fives finite Binary64.unitsOfOne_eq

theorem toWord_shortest {word : Nat} (finite : word < Binary64.infinity) :
    (shortest word).toWord = word := by
  rw [shortest]
  split
  next zero => simp [toWord, zero]
  next nonzero =>
    dsimp only
    split
    next d found =>
      obtain ⟨more, -, closest⟩ := List.exists_of_findSome?_eq_some found
      rw [toWord_trim]
      exact toWord_of_closest? closest
    next => rw [toWord_trim]; exact toWord_exact finite

theorem shortest_of_digits_eq_zero {word : Nat} (finite : word < Binary64.infinity)
    (zero : (shortest word).digits = 0) : shortest word = ⟨0, 0⟩ := by
  have same := toWord_shortest finite
  rw [toWord, if_pos zero] at same
  simp [shortest, ← same]

end Lox.Decimal
