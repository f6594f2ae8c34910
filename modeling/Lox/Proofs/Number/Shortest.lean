import Lox.Proofs.Number.Value

/-!
The digits that numbers are written with.  Read back they are the number, and no decimal with
fewer digits is.
-/

namespace Lox.Decimal

variable {d : Decimal} {word : Nat} {e : Int}

section Place

theorem pow_length_le {n : Nat} (nonzero : n ≠ 0) : (10 : ℚ) ^ ((length n : ℤ) - 1) ≤ n := by
  have first := length_pos n
  have leading := pow_le_of_lt_length nonzero (Nat.sub_lt first Nat.one_pos)
  have power : (length n : ℤ) - 1 = (length n - 1 : ℕ) := by omega
  rw [power, zpow_natCast]
  exact_mod_cast leading

theorem succ_le_pow_length (n : Nat) : (n + 1 : ℚ) ≤ 10 ^ (length n : ℤ) := by
  rw [zpow_natCast]
  exact_mod_cast lt_pow_length n

theorem value_bounds (nonzero : d.digits ≠ 0) :
    (10 : ℚ) ^ ((length d.digits : ℤ) + d.exponent - 1) ≤ d.value ∧
      d.value < 10 ^ ((length d.digits : ℤ) + d.exponent) := by
  have scale : (0 : ℚ) < 10 ^ d.exponent := by positivity
  constructor
  · rw [← sub_add_eq_add_sub, zpow_add₀ (by norm_num), value]
    exact mul_le_mul_of_nonneg_right (pow_length_le nonzero) scale.le
  · rw [zpow_add₀ (by norm_num), value]
    exact mul_lt_mul_of_pos_right (lt_of_lt_of_le (lt_add_one _) (succ_le_pow_length _)) scale

theorem unitsOfOne_le_shifted {units k : Nat} (nonzero : units ≠ 0)
    (one : Binary64.unitsOfOne = 2 ^ k) :
    Binary64.unitsOfOne ≤ units * 10 ^ ((k - units.log2) / 3 + 1) := by
  have places : k ≤ units.log2 + 3 * ((k - units.log2) / 3 + 1) := by omega
  generalize (k - units.log2) / 3 + 1 = shift at places ⊢
  calc Binary64.unitsOfOne = 2 ^ k := one
    _ ≤ 2 ^ (units.log2 + 3 * shift) := Nat.pow_le_pow_right (by decide) places
    _ = 2 ^ units.log2 * 8 ^ shift := by rw [Nat.pow_add, Nat.pow_mul]
    _ ≤ units * 10 ^ shift :=
        Nat.mul_le_mul (Nat.log2_self_le nonzero) (Nat.pow_le_pow_left (by decide) shift)

theorem place_spec (nonzero : word ≠ 0) :
    (10 : ℚ) ^ (place word - 1) ≤ Binary64.value word ∧
      Binary64.value word < (10 : ℚ) ^ place word := by
  have units := Binary64.cast_unitsOfOne_pos
  have enough := unitsOfOne_le_shifted (Nat.ne_of_gt (Binary64.scaled_pos nonzero))
    Binary64.unitsOfOne_eq
  rw [Binary64.value, le_div_iff₀ units, div_lt_iff₀ units]
  simp only [place, Nat.pow_eq]
  generalize (1074 - (Binary64.scaled word).log2) / 3 + 1 = shift at enough ⊢
  have whole : Binary64.scaled word * 10 ^ shift / Binary64.unitsOfOne ≠ 0 :=
    Nat.ne_of_gt (Nat.div_pos enough Binary64.unitsOfOne_pos)
  have low := Nat.div_mul_le_self (Binary64.scaled word * 10 ^ shift) Binary64.unitsOfOne
  have high := Nat.lt_mul_div_succ (Binary64.scaled word * 10 ^ shift) Binary64.unitsOfOne_pos
  generalize Binary64.scaled word * 10 ^ shift / Binary64.unitsOfOne = n at whole low high ⊢
  have leading := pow_length_le whole
  have bound := succ_le_pow_length n
  have shifted : (0 : ℚ) < 10 ^ shift := by positivity
  have moved (power : ℤ) : (10 : ℚ) ^ (power - shift) * 10 ^ shift = 10 ^ power := by
    rw [mul_comm, ten_pow_mul (add_sub_cancel _ _)]
  constructor
  · apply le_of_mul_le_mul_right _ shifted
    calc (10 : ℚ) ^ ((length n : ℤ) - shift - 1) * Binary64.unitsOfOne * 10 ^ shift
        = 10 ^ ((length n : ℤ) - 1 - shift) * 10 ^ shift * Binary64.unitsOfOne := by
          rw [mul_right_comm, sub_right_comm]
      _ = 10 ^ ((length n : ℤ) - 1) * Binary64.unitsOfOne := by rw [moved]
      _ ≤ n * Binary64.unitsOfOne := mul_le_mul_of_nonneg_right leading units.le
      _ ≤ Binary64.scaled word * 10 ^ shift := by exact_mod_cast low
  · apply lt_of_mul_lt_mul_right _ shifted.le
    calc (Binary64.scaled word * 10 ^ shift : ℚ) < Binary64.unitsOfOne * (n + 1) := by
          exact_mod_cast high
      _ ≤ Binary64.unitsOfOne * 10 ^ (length n : ℤ) := mul_le_mul_of_nonneg_left bound units.le
      _ = 10 ^ ((length n : ℤ) - shift) * Binary64.unitsOfOne * 10 ^ shift := by
          rw [mul_right_comm, moved, mul_comm]

end Place

section Closest

theorem value_le_value {n m : Nat} (ordered : n ≤ m) (e : Int) : value ⟨n, e⟩ ≤ value ⟨m, e⟩ := by
  have cast : (n : ℚ) ≤ m := by exact_mod_cast ordered
  exact mul_le_mul_of_nonneg_right cast (by positivity)

def floor (word : Nat) (e : Int) : Nat :=
  Binary64.scaled word * Nat.pow 10 (-e).toNat / (Binary64.unitsOfOne * Nat.pow 10 e.toNat)

theorem floor_spec (word : Nat) (e : Int) :
    value ⟨floor word e, e⟩ ≤ Binary64.value word ∧
      Binary64.value word < value ⟨floor word e + 1, e⟩ := by
  have units := Binary64.cast_unitsOfOne_pos
  have den : (0 : ℚ) < (10 ^ (-e).toNat : ℕ) := by positivity
  have step : 0 < Binary64.unitsOfOne * 10 ^ e.toNat :=
    Nat.mul_pos Binary64.unitsOfOne_pos (Nat.pow_pos (by decide))
  have low := Nat.div_mul_le_self (Binary64.scaled word * 10 ^ (-e).toNat)
    (Binary64.unitsOfOne * 10 ^ e.toNat)
  have high := Nat.lt_mul_div_succ (Binary64.scaled word * 10 ^ (-e).toNat) step
  have same : floor word e = Binary64.scaled word * 10 ^ (-e).toNat /
      (Binary64.unitsOfOne * 10 ^ e.toNat) := rfl
  rw [← same] at low high
  rw [value_eq_div, value_eq_div, Binary64.value, div_le_div_iff₀ den units,
    div_lt_div_iff₀ units den]
  constructor
  · calc ((floor word e * 10 ^ e.toNat : ℕ) : ℚ) * Binary64.unitsOfOne
        = (floor word e * (Binary64.unitsOfOne * 10 ^ e.toNat) : ℕ) := by push_cast; ring
      _ ≤ (Binary64.scaled word * 10 ^ (-e).toNat : ℕ) := by exact_mod_cast low
      _ = Binary64.scaled word * (10 ^ (-e).toNat : ℕ) := by push_cast; ring
  · calc (Binary64.scaled word : ℚ) * (10 ^ (-e).toNat : ℕ)
        = (Binary64.scaled word * 10 ^ (-e).toNat : ℕ) := by push_cast; ring
      _ < (Binary64.unitsOfOne * 10 ^ e.toNat * (floor word e + 1) : ℕ) := by exact_mod_cast high
      _ = ((floor word e + 1) * 10 ^ e.toNat : ℕ) * Binary64.unitsOfOne := by push_cast; ring

theorem closest?_eq (word : Nat) (e : Int) : ∃ (nearer : Prop) (_ : Decidable nearer),
    closest? word e =
      if toWord ⟨floor word e, e⟩ = word ∧ (nearer ∨ toWord ⟨floor word e + 1, e⟩ ≠ word) then
        some ⟨floor word e, e⟩
      else if toWord ⟨floor word e + 1, e⟩ = word then some ⟨floor word e + 1, e⟩
      else none :=
  ⟨_, _, rfl⟩

theorem eq_of_closest? (found : closest? word e = some d) :
    d = ⟨floor word e, e⟩ ∨ d = ⟨floor word e + 1, e⟩ := by
  obtain ⟨nearer, _, closest⟩ := closest?_eq word e
  rw [closest] at found
  split_ifs at found
  · exact .inl (Option.some.inj found).symm
  · exact .inr (Option.some.inj found).symm

/-- If any decimal down to a place reads back, one of the two around the double does. -/
theorem closest?_ne_none (finite : word < Binary64.infinity) {n : Nat}
    (reads : toWord ⟨n, e⟩ = word) : closest? word e ≠ none := by
  obtain ⟨lower, upper⟩ := floor_spec word e
  have reached : toWord ⟨floor word e, e⟩ = word ∨ toWord ⟨floor word e + 1, e⟩ = word := by
    rcases Nat.lt_or_ge (floor word e) n with above | below
    · right
      exact toWord_eq_of_value_le finite reads upper.le (value_le_value above e)
    · left
      exact toWord_eq_of_le_value finite reads (value_le_value below e) lower
  obtain ⟨nearer, _, closest⟩ := closest?_eq word e
  intro missing
  rw [closest] at missing
  split_ifs at missing with lowerReads upperReads
  rcases reached with reads | reads
  · exact lowerReads ⟨reads, .inr upperReads⟩
  · exact upperReads reads

theorem closest?_ne_none_of_place (finite : word < Binary64.infinity) (nonzero : word ≠ 0) :
    closest? word (place word - 1 - 16) ≠ none := by
  obtain ⟨leading, -⟩ := place_spec nonzero
  obtain ⟨lower, upper⟩ := floor_spec word (place word - 1 - 16)
  have positive := Binary64.value_pos nonzero
  have step : (10 : ℚ) ^ 16 * 10 ^ (place word - 1 - 16) = 10 ^ (place word - 1) :=
    ten_pow_mul (by omega)
  have gap : value ⟨floor word (place word - 1 - 16) + 1, place word - 1 - 16⟩ =
      value ⟨floor word (place word - 1 - 16), place word - 1 - 16⟩ +
        10 ^ (place word - 1 - 16) := by
    simp only [value]
    push_cast
    ring
  generalize place word - 1 - 16 = e at lower upper step gap ⊢
  generalize (10 : ℚ) ^ (place word - 1) = least at leading step
  by_cases nearer : Binary64.value word - value ⟨floor word e, e⟩ ≤ 10 ^ e / 2
  · have near : |value ⟨floor word e, e⟩ - Binary64.value word| * 2 ^ 54 < Binary64.value word := by
      rw [abs_sub_comm, abs_of_nonneg (by linarith)]
      linarith
    exact closest?_ne_none finite (toWord_eq_of_near finite nonzero near)
  · have near : |value ⟨floor word e + 1, e⟩ - Binary64.value word| * 2 ^ 54 <
        Binary64.value word := by
      rw [abs_of_pos (by linarith)]
      linarith
    exact closest?_ne_none finite (toWord_eq_of_near finite nonzero near)

end Closest

section Trim

theorem digits_trim_le (n : Nat) (e : Int) : (trim n e).digits ≤ n := by
  fun_induction trim n e with
  | case1 n e last ih => exact Nat.le_trans ih (Nat.div_le_self n 10)
  | case2 => exact Nat.le_refl _

theorem digits_trim_mod {n : Nat} (nonzero : n ≠ 0) (e : Int) : (trim n e).digits % 10 ≠ 0 := by
  fun_induction trim n e with
  | case1 n e last ih => exact ih (by omega)
  | case2 n e last =>
    intro zero
    exact last ⟨nonzero, zero⟩

theorem trim_pow (k : Nat) (e : Int) : (trim (10 ^ k) e).digits = 1 := by
  induction k generalizing e with
  | zero =>
    unfold trim
    simp
  | succ k ih =>
    have positive : 0 < 10 ^ k := Nat.pow_pos (by decide)
    rw [trim, if_pos (by omega), Nat.pow_succ, Nat.mul_div_cancel _ (by decide), ih]

theorem length_trim_le {n k : Nat} (positive : 0 < k) (bounded : n ≤ 10 ^ k) (e : Int) :
    length (trim n e).digits ≤ k := by
  rw [length_le_iff positive]
  rcases Nat.lt_or_eq_of_le bounded with below | rfl
  · exact Nat.lt_of_le_of_lt (digits_trim_le n e) below
  · rw [trim_pow]
    exact Nat.one_lt_pow (by omega) (by decide)

end Trim

section Fewest

theorem findSome?_range_eq_some {α : Type} {n : Nat} {f : Nat → Option α} {found : α}
    (search : (List.range n).findSome? f = some found) :
    ∃ i < n, f i = some found ∧ ∀ j < i, f j = none := by
  obtain ⟨before, i, behind, split, here, nothing⟩ := List.findSome?_eq_some_iff.1 search
  have inside : i ∈ List.range n := by simp [split]
  refine ⟨i, List.mem_range.1 inside, here, ?_⟩
  intro j less
  have listed : j ∈ List.range n := List.mem_range.2 (Nat.lt_trans less (List.mem_range.1 inside))
  have sorted := List.pairwise_lt_range (n := n)
  rw [split] at listed sorted
  rcases List.mem_append.1 listed with earlier | later
  · exact nothing j earlier
  · have ordered := (List.pairwise_cons.1 (List.pairwise_append.1 sorted).2.1).1 j
    rcases List.mem_cons.1 later with rfl | later
    · exact absurd less (Nat.lt_irrefl _)
    · exact absurd (ordered later) (Nat.lt_asymm less)

/-- The search down the places finds nothing before the digits it ends with. -/
theorem shortest_eq_trim (finite : word < Binary64.infinity) (nonzero : word ≠ 0) :
    ∃ (more : Nat) (d : Decimal), shortest word = trim d.digits d.exponent ∧
      closest? word (place word - 1 - more) = some d ∧
      ∀ fewer : Nat, fewer < more → closest? word (place word - 1 - fewer) = none := by
  rw [shortest, if_neg nonzero]
  dsimp only
  split
  next d found =>
    obtain ⟨more, -, closest, first⟩ := findSome?_range_eq_some found
    exact ⟨more, d, rfl, closest, first⟩
  next missing =>
    have last := List.findSome?_eq_none_iff.1 missing 16 (by decide)
    exact absurd last (closest?_ne_none_of_place finite nonzero)

theorem digits_le_of_closest? (nonzero : word ≠ 0) {more : Nat}
    (found : closest? word (place word - 1 - more) = some d) : d.digits ≤ 10 ^ (more + 1) := by
  obtain ⟨lower, -⟩ := floor_spec word (place word - 1 - more)
  obtain ⟨-, bound⟩ := place_spec nonzero
  have places : ((more + 1 : ℕ) : ℤ) + (place word - 1 - more) = place word := by omega
  have split : ((10 ^ (more + 1) : ℕ) : ℚ) * 10 ^ (place word - 1 - more) = 10 ^ place word := by
    rw [Nat.cast_pow, Nat.cast_ofNat, ten_pow_mul places]
  have below : floor word (place word - 1 - more) < 10 ^ (more + 1) := by
    have ordered := lt_of_le_of_lt lower bound
    rw [← split, value] at ordered
    exact_mod_cast lt_of_mul_lt_mul_right ordered (by positivity)
  rcases eq_of_closest? found with rfl | rfl
  · exact below.le
  · exact below

theorem digits_ne_zero_of_toWord (nonzero : d.toWord ≠ 0) : d.digits ≠ 0 := by
  intro zero
  rw [toWord, if_pos zero] at nonzero
  exact nonzero rfl

theorem exists_closest? (finite : word < Binary64.infinity) (nonzero : word ≠ 0)
    (reads : d.toWord = word) :
    ∃ more < length d.digits, closest? word (place word - 1 - more) ≠ none := by
  obtain ⟨low, high⟩ := place_spec nonzero
  obtain ⟨leading, bound⟩ := value_bounds (digits_ne_zero_of_toWord (reads ▸ nonzero))
  have first := length_pos d.digits
  rcases lt_trichotomy ((length d.digits : ℤ) + d.exponent) (place word) with less | same | more
  · -- The decimal is below the leading place, so one at that place lies between.
    have power : value ⟨1, place word - 1⟩ = 10 ^ (place word - 1) := by simp [value]
    have short : d.value ≤ value ⟨1, place word - 1⟩ := by
      rw [power]
      exact bound.le.trans (zpow_le_zpow_right₀ (by norm_num) (by omega))
    have reads' := toWord_eq_of_le_value finite reads short (by rwa [power])
    refine ⟨0, first, ?_⟩
    rw [Nat.cast_zero, sub_zero]
    exact closest?_ne_none finite reads'
  · refine ⟨length d.digits - 1, by omega, ?_⟩
    have here : place word - 1 - (length d.digits - 1 : ℕ) = d.exponent := by omega
    rw [here]
    exact closest?_ne_none finite reads
  · -- The decimal is beyond the leading place, so the next power of ten lies between.
    have power : value ⟨10, place word - 1⟩ = 10 ^ place word := by
      rw [value, Nat.cast_ofNat, ← zpow_one_add₀ (by norm_num), add_sub_cancel]
    have long : value ⟨10, place word - 1⟩ ≤ d.value := by
      rw [power]
      exact (zpow_le_zpow_right₀ (by norm_num) (by omega)).trans leading
    have reads' := toWord_eq_of_value_le finite reads (by rw [power]; exact high.le) long
    refine ⟨0, first, ?_⟩
    rw [Nat.cast_zero, sub_zero]
    exact closest?_ne_none finite reads'

/-- No decimal that reads back as a double has fewer digits than the one it is written with. -/
theorem length_shortest_le (finite : word < Binary64.infinity) (reads : d.toWord = word) :
    length (shortest word).digits ≤ length d.digits := by
  by_cases nonzero : word = 0
  · have single : length (shortest word).digits = 1 := by
      rw [shortest, if_pos nonzero]
      rfl
    rw [single]
    exact length_pos d.digits
  · obtain ⟨more, found, written, closest, first⟩ := shortest_eq_trim finite nonzero
    obtain ⟨enough, within, hit⟩ := exists_closest? finite nonzero reads
    have reached : more ≤ enough := by
      by_contra further
      exact hit (first enough (Nat.not_le.1 further))
    rw [written]
    calc length (trim found.digits found.exponent).digits
        ≤ more + 1 := length_trim_le more.succ_pos (digits_le_of_closest? nonzero closest) _
      _ ≤ length d.digits := by omega

theorem digits_shortest_mod (finite : word < Binary64.infinity)
    (fraction : (shortest word).exponent < 0) : (shortest word).digits % 10 ≠ 0 := by
  by_cases zero : word = 0
  · simp [shortest, zero] at fraction
  · obtain ⟨more, found, written, closest, -⟩ := shortest_eq_trim finite zero
    have reads := toWord_of_closest? closest
    rw [written]
    exact digits_trim_mod (digits_ne_zero_of_toWord (reads ▸ zero)) _

end Fewest

end Lox.Decimal
