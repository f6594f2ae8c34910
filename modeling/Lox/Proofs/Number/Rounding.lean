import Lox.Proofs.Number.Binary64

/-!
How ratios are rounded to doubles.  Every ratio lies between two neighbouring words and is
rounded to one of them: to the nearer one, and in the middle to the even one.  So rounding
keeps the order of ratios, and a word takes all that is nearer to it than to its neighbours.
-/

namespace Lox.Binary64

section Spacing

def spacing (word : Nat) : Nat :=
  2 ^ (word / binadeSize - 1)

theorem spacing_pos (word : Nat) : 0 < spacing word :=
  Nat.two_pow_pos _

theorem scaled_zero : scaled 0 = 0 :=
  scaled_of_div_eq_zero rfl

theorem scaled_succ (word : Nat) : scaled (word + 1) = scaled word + spacing word := by
  have parts := Nat.div_add_mod word binadeSize
  have rest := Nat.mod_lt word (show 0 < binadeSize by decide)
  have parts' := Nat.div_add_mod (word + 1) binadeSize
  have rest' := Nat.mod_lt (word + 1) (show 0 < binadeSize by decide)
  by_cases carry : word % binadeSize + 1 = binadeSize
  · have next : (word + 1) / binadeSize = word / binadeSize + 1 := by
      rw [Nat.div_eq_iff (by decide)]
      rw [Nat.mul_comm] at parts
      constructor
      · rw [Nat.add_mul, Nat.one_mul]
        omega
      · rw [Nat.add_mul, Nat.one_mul]
        omega
    have none : (word + 1) % binadeSize = 0 := by
      rw [next, Nat.mul_succ] at parts'
      omega
    rw [scaled_of_div_eq_succ next, none, Nat.add_zero, spacing]
    cases binade : word / binadeSize with
    | zero =>
        rw [scaled_of_div_eq_zero binade]
        rw [binade] at parts
        omega
    | succ binade' =>
        rw [scaled_of_div_eq_succ binade, Nat.add_sub_cancel, Nat.pow_succ]
        have last : binadeSize + word % binadeSize + 1 = 2 * binadeSize := by omega
        calc binadeSize * (2 ^ binade' * 2) = 2 * binadeSize * 2 ^ binade' := by ring
          _ = (binadeSize + word % binadeSize + 1) * 2 ^ binade' := by rw [last]
          _ = (binadeSize + word % binadeSize) * 2 ^ binade' + 2 ^ binade' := by ring
  · have next : (word + 1) / binadeSize = word / binadeSize := by
      rw [Nat.div_eq_iff (by decide)]
      rw [Nat.mul_comm] at parts
      omega
    have more : (word + 1) % binadeSize = word % binadeSize + 1 := by
      rw [next] at parts'
      omega
    cases binade : word / binadeSize with
    | zero =>
        rw [scaled_of_div_eq_zero binade, scaled_of_div_eq_zero (next.trans binade), spacing,
          binade, Nat.zero_sub, Nat.pow_zero]
    | succ binade' =>
        rw [scaled_of_div_eq_succ binade, scaled_of_div_eq_succ (next.trans binade), spacing,
          binade, more, Nat.add_sub_cancel]
        ring

theorem strictMono_scaled : StrictMono scaled := by
  apply strictMono_nat_of_lt_succ
  intro word
  have positive := spacing_pos word
  rw [scaled_succ]
  omega

theorem scaled_binade (binade : Nat) : scaled ((binade + 1) * binadeSize) = 2 ^ (52 + binade) := by
  have quotient : (binade + 1) * binadeSize / binadeSize = binade + 1 :=
    Nat.mul_div_cancel _ (by decide)
  rw [scaled_of_div_eq_succ quotient, Nat.mul_mod_left, Nat.add_zero, Nat.pow_add]
  rfl

def mantissa (word : Nat) : Nat :=
  word - (word / binadeSize - 1) * binadeSize

theorem binade_add_mantissa (word : Nat) :
    (word / binadeSize - 1) * binadeSize + mantissa word = word := by
  have below := Nat.div_mul_le_self word binadeSize
  have less : (word / binadeSize - 1) * binadeSize ≤ word / binadeSize * binadeSize :=
    Nat.mul_le_mul_right _ (Nat.sub_le _ _)
  rw [mantissa]
  omega

theorem scaled_eq_mantissa_mul (word : Nat) : scaled word = mantissa word * spacing word := by
  have parts := Nat.div_add_mod word binadeSize
  rw [mantissa, spacing]
  cases binade : word / binadeSize with
  | zero => simp [scaled_of_div_eq_zero binade]
  | succ binade' =>
      rw [scaled_of_div_eq_succ binade, Nat.add_sub_cancel]
      rw [binade, Nat.mul_succ, Nat.mul_comm] at parts
      have left : word - binade' * binadeSize = binadeSize + word % binadeSize := by omega
      rw [left]

theorem mantissa_lt (word : Nat) : mantissa word < 2 * binadeSize := by
  have parts := Nat.div_add_mod word binadeSize
  have rest := Nat.mod_lt word (show 0 < binadeSize by decide)
  have whole := binade_add_mantissa word
  cases binade : word / binadeSize with
  | zero =>
      rw [binade] at parts whole
      omega
  | succ binade' =>
      rw [binade, Nat.mul_succ, Nat.mul_comm] at parts
      rw [binade, Nat.add_sub_cancel] at whole
      omega

theorem scaled_succ_le (word : Nat) : scaled (word + 1) ≤ 2 ^ 53 * spacing word := by
  have bound : mantissa word + 1 ≤ 2 ^ 53 := mantissa_lt word
  calc scaled (word + 1) = (mantissa word + 1) * spacing word := by
        rw [scaled_succ, scaled_eq_mantissa_mul]
        ring
    _ ≤ 2 ^ 53 * spacing word := Nat.mul_le_mul_right _ bound

theorem exists_between (units : Nat) :
    ∃ word, scaled word ≤ units ∧ units < scaled (word + 1) := by
  have reached : ∃ word, units < scaled (word + 1) :=
    ⟨units, Nat.lt_of_lt_of_le (Nat.lt_succ_self units) (strictMono_scaled.le_apply)⟩
  refine ⟨Nat.find reached, ?_, Nat.find_spec reached⟩
  cases first : Nat.find reached with
  | zero => simp [scaled_zero]
  | succ word =>
      have before := Nat.find_min reached (show word < Nat.find reached by omega)
      omega

theorem log2_of_between {word units : Nat} (low : scaled word ≤ units)
    (high : units < scaled (word + 1)) : units.log2 - 52 = word / binadeSize - 1 := by
  have parts := Nat.div_add_mod word binadeSize
  have rest := Nat.mod_lt word (show 0 < binadeSize by decide)
  have upTo (binade : Nat) (last : word / binadeSize ≤ binade) :
      units < 2 ^ (52 + binade) := by
    have inside : word + 1 ≤ (binade + 1) * binadeSize := by
      have := Nat.mul_le_mul_left binadeSize last
      rw [Nat.add_mul, Nat.one_mul, Nat.mul_comm]
      omega
    rw [← scaled_binade]
    exact Nat.lt_of_lt_of_le high (strictMono_scaled.monotone inside)
  by_cases small : word / binadeSize ≤ 1
  · have below := upTo 1 small
    by_cases zero : units = 0
    · subst zero
      simp
      omega
    · have := (Nat.log2_lt zero).2 below
      omega
  · obtain ⟨binade, top⟩ : ∃ binade, word / binadeSize = binade + 1 :=
      ⟨word / binadeSize - 1, by omega⟩
    have below := upTo (binade + 1) (Nat.le_of_eq top)
    have above : 2 ^ (52 + binade) ≤ units := by
      rw [← scaled_binade, ← top]
      exact Nat.le_trans (strictMono_scaled.monotone (Nat.div_mul_le_self _ _)) low
    have positive := Nat.two_pow_pos (52 + binade)
    have log : units.log2 = 52 + binade :=
      (Nat.log2_eq_iff (by omega)).2 ⟨above, below⟩
    rw [log, top]
    omega

end Spacing

section Order

variable {num den num' den' word : Nat}

def middle (word : Nat) : Nat :=
  scaled word + scaled (word + 1)

theorem middle_eq (word : Nat) : middle word = (2 * mantissa word + 1) * spacing word := by
  rw [middle, scaled_succ, scaled_eq_mantissa_mul]
  ring

theorem middle_lt {other : Nat} (behind : word < other) : middle word < 2 * scaled other := by
  have first := strictMono_scaled (Nat.lt_succ_self word)
  have further := strictMono_scaled.monotone (Nat.succ_le_of_lt behind)
  simp only [middle, Nat.succ_eq_add_one] at first further ⊢
  omega

theorem lt_middle {other : Nat} (before : other < word) : 2 * scaled (other + 1) < middle word := by
  have last := strictMono_scaled (Nat.lt_succ_self word)
  have further := strictMono_scaled.monotone (Nat.succ_le_of_lt before)
  simp only [middle, Nat.succ_eq_add_one] at last further ⊢
  omega

/-- Of the two words around a ratio the nearer one is taken, and the even one in the middle. -/
theorem nearest_of_between (positive : 0 < den) (low : scaled word * den ≤ num * unitsOfOne)
    (high : num * unitsOfOne < scaled (word + 1) * den) :
    nearest num den = min
      (if 2 * (num * unitsOfOne) < middle word * den then word
        else if middle word * den < 2 * (num * unitsOfOne) then word + 1
        else word + word % 2) infinity := by
  have below := (Nat.le_div_iff_mul_le positive).2 low
  have above := (Nat.div_lt_iff_lt_mul positive).2 high
  have binade := log2_of_between below above
  have steps : 0 < den * spacing word := Nat.mul_pos positive (spacing_pos word)
  have low' : mantissa word * (den * spacing word) ≤ num * unitsOfOne := by
    rw [scaled_eq_mantissa_mul] at low
    calc mantissa word * (den * spacing word) = mantissa word * spacing word * den := by ring
      _ ≤ _ := low
  have high' : num * unitsOfOne < (mantissa word + 1) * (den * spacing word) := by
    rw [scaled_succ, scaled_eq_mantissa_mul] at high
    calc num * unitsOfOne < (mantissa word * spacing word + spacing word) * den := high
      _ = _ := by ring
  have quotient : num * unitsOfOne / (den * spacing word) = mantissa word :=
    (Nat.div_eq_iff steps).2 ⟨low', by
      have := Nat.sub_add_cancel steps
      rw [Nat.succ_mul] at high'
      omega⟩
  have whole := binade_add_mantissa word
  have even : mantissa word % 2 = word % 2 := by
    have size : binadeSize = 2 * 0x8000000000000 := rfl
    rw [size] at whole
    omega
  have split := Nat.div_add_mod (num * unitsOfOne) (den * spacing word)
  have middleEq : middle word * den = 2 * (den * spacing word * mantissa word) +
      den * spacing word := by
    rw [middle_eq]
    ring
  rw [quotient] at split
  have power : 2 ^ (word / binadeSize - 1) = spacing word := rfl
  simp only [nearest, binade, Nat.pow_eq, power, roundDiv, quotient, middleEq]
  generalize num * unitsOfOne % (den * spacing word) = left at split ⊢
  generalize den * spacing word = step at split ⊢
  congr 1
  split_ifs <;> omega

theorem exists_between_ratio (num : Nat) (positive : 0 < den) :
    ∃ word, scaled word * den ≤ num * unitsOfOne ∧ num * unitsOfOne < scaled (word + 1) * den := by
  obtain ⟨word, low, high⟩ := exists_between (num * unitsOfOne / den)
  exact ⟨word, (Nat.le_div_iff_mul_le positive).1 low, (Nat.div_lt_iff_lt_mul positive).1 high⟩

theorem nearest_le_of_lt_middle (positive : 0 < den)
    (below : 2 * (num * unitsOfOne) < middle word * den) : nearest num den ≤ word := by
  obtain ⟨found, low, high⟩ := exists_between_ratio num positive
  rw [nearest_of_between positive low high]
  rcases Nat.lt_trichotomy found word with before | rfl | behind
  · apply Nat.le_trans (Nat.min_le_left _ _)
    split_ifs <;> omega
  · rw [if_pos below]
    exact Nat.min_le_left _ _
  · have further := Nat.mul_le_mul_right den (middle_lt behind).le
    rw [Nat.mul_assoc] at further
    omega

theorem lt_nearest_of_middle_lt (positive : 0 < den) (finite : word < infinity)
    (above : middle word * den < 2 * (num * unitsOfOne)) : word < nearest num den := by
  obtain ⟨found, low, high⟩ := exists_between_ratio num positive
  rw [nearest_of_between positive low high, lt_min_iff]
  refine ⟨?_, finite⟩
  rcases Nat.lt_trichotomy found word with before | rfl | behind
  · have further := Nat.mul_le_mul_right den (lt_middle before).le
    rw [Nat.mul_assoc] at further
    omega
  · rw [if_neg (by omega), if_pos above]
    exact Nat.lt_succ_self found
  · split_ifs <;> omega

theorem nearest_le_nearest (positive : 0 < den) (positive' : 0 < den')
    (ordered : num * den' ≤ num' * den) : nearest num den ≤ nearest num' den' := by
  by_cases same : num * den' = num' * den
  · exact Nat.le_of_eq (nearest_congr positive positive' same)
  by_cases below : 2 * (num * unitsOfOne) < middle (nearest num' den') * den
  · exact nearest_le_of_lt_middle positive below
  -- The greater ratio lies above the middle behind its own word, so that is the last one.
  have above : middle (nearest num' den') * den' < 2 * (num' * unitsOfOne) := by
    apply Nat.lt_of_mul_lt_mul_right (a := den)
    calc middle (nearest num' den') * den' * den
        = middle (nearest num' den') * den * den' := Nat.mul_right_comm ..
      _ ≤ 2 * (num * unitsOfOne) * den' := Nat.mul_le_mul_right _ (Nat.not_lt.1 below)
      _ = num * den' * (2 * unitsOfOne) := by ring
      _ < num' * den * (2 * unitsOfOne) := by
          apply Nat.mul_lt_mul_of_pos_right (Nat.lt_of_le_of_ne ordered same)
          exact Nat.mul_pos (by decide) unitsOfOne_pos
      _ = 2 * (num' * unitsOfOne) * den := by ring
  have last : infinity ≤ nearest num' den' := by
    by_contra finite
    exact Nat.lt_irrefl _ (lt_nearest_of_middle_lt positive' (Nat.not_le.1 finite) above)
  exact Nat.le_trans (Nat.min_le_right _ _) last

theorem nearest_eq_zero (positive : 0 < den) (small : 2 * (num * unitsOfOne) < den) :
    nearest num den = 0 := by
  have middleEq : middle 0 = 1 := (middle_eq 0).trans (by decide)
  apply Nat.le_zero.1
  apply nearest_le_of_lt_middle positive
  rwa [middleEq, Nat.one_mul]

theorem nearest_eq_infinity (positive : 0 < den) (large : overflow * den ≤ num) :
    nearest num den = infinity := by
  have least : nearest overflow 1 = infinity := (nearest_eq_infinity_iff overflow).2 (Nat.le_refl _)
  have reached : nearest overflow 1 ≤ nearest num den :=
    nearest_le_nearest Nat.one_pos positive (by rwa [Nat.mul_one])
  exact Nat.le_antisymm (Nat.min_le_right _ _) (least ▸ reached)

end Order

end Lox.Binary64
