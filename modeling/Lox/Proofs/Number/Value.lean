import Lox.Proofs.Number.Decimal

/-!
Exact values of doubles and decimals.  Reading decimals keeps their order, so that what lies
between two decimals of one double, or close enough to a double, is read as that double.
-/

namespace Lox

def Binary64.value (word : Nat) : ℚ :=
  scaled word / unitsOfOne

theorem Binary64.cast_unitsOfOne_pos : (0 : ℚ) < unitsOfOne := by
  exact_mod_cast unitsOfOne_pos

theorem Binary64.value_pos {word : Nat} (nonzero : word ≠ 0) : 0 < value word := by
  have positive : (0 : ℚ) < scaled word := by exact_mod_cast scaled_pos nonzero
  exact div_pos positive cast_unitsOfOne_pos

namespace Decimal

def value (d : Decimal) : ℚ :=
  d.digits * 10 ^ d.exponent

variable {d d' : Decimal} {word : Nat}

theorem ten_pow_mul {k : Nat} {e f : Int} (sum : k + e = f) : (10 : ℚ) ^ k * 10 ^ e = 10 ^ f := by
  rw [← zpow_natCast, ← zpow_add₀ (by norm_num), sum]

theorem value_eq_div (d : Decimal) :
    d.value = (d.digits * 10 ^ d.exponent.toNat : ℕ) / (10 ^ (-d.exponent).toNat : ℕ) := by
  obtain ⟨n, e⟩ := d
  rcases Int.le_total 0 e with whole | fraction
  · obtain ⟨k, rfl⟩ := Int.eq_ofNat_of_zero_le whole
    simp [value]
  · obtain ⟨k, rfl⟩ := Int.exists_eq_neg_ofNat fraction
    simp [value, div_eq_mul_inv]

theorem toWord_le_toWord (ordered : d.value ≤ d'.value) : d.toWord ≤ d'.toWord := by
  rw [value_eq_div, value_eq_div, div_le_div_iff₀ (by positivity) (by positivity)] at ordered
  rw [toWord_eq_nearest, toWord_eq_nearest]
  apply Binary64.nearest_le_nearest (Nat.pow_pos (by decide)) (Nat.pow_pos (by decide))
  exact_mod_cast ordered

theorem toWord_congr (same : d.value = d'.value) : d.toWord = d'.toWord :=
  Nat.le_antisymm (toWord_le_toWord same.le) (toWord_le_toWord same.ge)

theorem value_mul_pow (n : Nat) (e : Int) (k : Nat) : value ⟨n * 10 ^ k, e - k⟩ = value ⟨n, e⟩ := by
  rw [value, value, Nat.cast_mul, Nat.cast_pow, Nat.cast_ofNat, mul_assoc,
    ten_pow_mul (add_sub_cancel _ _)]

theorem toWord_le_of_value_le (finite : word < Binary64.infinity)
    (ordered : d.value ≤ Binary64.value word) : d.toWord ≤ word := by
  rw [value_eq_div, Binary64.value,
    div_le_div_iff₀ (by positivity) Binary64.cast_unitsOfOne_pos] at ordered
  rw [← Binary64.nearest_scaled finite, toWord_eq_nearest]
  apply Binary64.nearest_le_nearest (Nat.pow_pos (by decide)) Binary64.unitsOfOne_pos
  exact_mod_cast ordered

theorem le_toWord_of_le_value (finite : word < Binary64.infinity)
    (ordered : Binary64.value word ≤ d.value) : word ≤ d.toWord := by
  rw [value_eq_div, Binary64.value,
    div_le_div_iff₀ Binary64.cast_unitsOfOne_pos (by positivity)] at ordered
  rw [← Binary64.nearest_scaled finite, toWord_eq_nearest]
  apply Binary64.nearest_le_nearest Binary64.unitsOfOne_pos (Nat.pow_pos (by decide))
  exact_mod_cast ordered

theorem toWord_eq_of_le_value (finite : word < Binary64.infinity) (reads : d.toWord = word)
    (low : d.value ≤ d'.value) (high : d'.value ≤ Binary64.value word) : d'.toWord = word := by
  apply Nat.le_antisymm
  · exact toWord_le_of_value_le finite high
  · calc word = d.toWord := reads.symm
      _ ≤ d'.toWord := toWord_le_toWord low

theorem toWord_eq_of_value_le (finite : word < Binary64.infinity) (reads : d.toWord = word)
    (low : Binary64.value word ≤ d'.value) (high : d'.value ≤ d.value) : d'.toWord = word := by
  apply Nat.le_antisymm
  · calc d'.toWord ≤ d.toWord := toWord_le_toWord high
      _ = word := reads
  · exact le_toWord_of_le_value finite low

theorem toWord_le_of_lt_middle
    (below : 2 * (d.value * Binary64.unitsOfOne) < Binary64.middle word) : d.toWord ≤ word := by
  have den : (0 : ℚ) < (10 ^ (-d.exponent).toNat : ℕ) := by positivity
  rw [value_eq_div, div_mul_eq_mul_div, mul_div_assoc', div_lt_iff₀ den] at below
  rw [toWord_eq_nearest]
  apply Binary64.nearest_le_of_lt_middle (Nat.pow_pos (by decide))
  exact_mod_cast below

theorem lt_toWord_of_middle_lt (finite : word < Binary64.infinity)
    (above : Binary64.middle word < 2 * (d.value * Binary64.unitsOfOne)) : word < d.toWord := by
  have den : (0 : ℚ) < (10 ^ (-d.exponent).toNat : ℕ) := by positivity
  rw [value_eq_div, div_mul_eq_mul_div, mul_div_assoc', lt_div_iff₀ den] at above
  rw [toWord_eq_nearest]
  apply Binary64.lt_nearest_of_middle_lt (Nat.pow_pos (by decide)) finite
  exact_mod_cast above

theorem cast_middle (word : Nat) :
    (Binary64.middle word : ℚ) = 2 * Binary64.scaled word + Binary64.spacing word := by
  rw [Binary64.middle, Binary64.scaled_succ]
  push_cast
  ring

/-- What differs from a double by less than one part in `2 ^ 54` is read as the double. -/
theorem toWord_eq_of_near (finite : word < Binary64.infinity) (nonzero : word ≠ 0)
    (near : |d.value - Binary64.value word| * 2 ^ 54 < Binary64.value word) :
    d.toWord = word := by
  obtain ⟨before, rfl⟩ := Nat.exists_eq_succ_of_ne_zero nonzero
  have units := Binary64.cast_unitsOfOne_pos
  have exact := div_mul_cancel₀ (Binary64.scaled (before + 1) : ℚ) units.ne'
  have steps : (Binary64.scaled (before + 1) : ℚ) ≤ 2 ^ 53 * Binary64.spacing before := by
    exact_mod_cast Binary64.scaled_succ_le before
  have steps' : (Binary64.scaled (before + 1) : ℚ) < 2 ^ 53 * Binary64.spacing (before + 1) := by
    exact_mod_cast Nat.lt_of_lt_of_le (Binary64.strictMono_scaled (Nat.lt_succ_self _))
      (Binary64.scaled_succ_le (before + 1))
  have next : (Binary64.scaled (before + 1) : ℚ) =
      Binary64.scaled before + Binary64.spacing before := by
    exact_mod_cast Binary64.scaled_succ before
  have apart : |d.value * Binary64.unitsOfOne - Binary64.scaled (before + 1)| * 2 ^ 54 <
      Binary64.scaled (before + 1) := by
    have scaled := mul_lt_mul_of_pos_right near units
    rw [Nat.succ_eq_add_one, Binary64.value, exact, mul_right_comm, ← abs_of_pos units,
      ← abs_mul, abs_of_pos units, sub_mul, exact] at scaled
    exact scaled
  obtain ⟨low, high⟩ := abs_lt.1 ((lt_div_iff₀ (by norm_num)).2 apart)
  apply Nat.le_antisymm
  · apply toWord_le_of_lt_middle
    rw [Nat.succ_eq_add_one, cast_middle]
    linarith
  · apply lt_toWord_of_middle_lt (Nat.lt_of_succ_lt finite)
    rw [cast_middle]
    linarith

end Decimal

end Lox
