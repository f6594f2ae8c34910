import Lox.Proofs.Number.Text

/-!
What written numbers stand for, exactly and before any rounding: digits in their places and
digits with an exponent stand for the decimal that they were written for.
-/

namespace Lox.Number

def exponentOf : List Char → Int
  | '-' :: digits => -(digitsValue digits : Int)
  | '+' :: digits => digitsValue digits
  | digits => digitsValue digits

def valueOf (text : List Char) : ℚ :=
  let mantissa := text.takeWhile (· ≠ 'e')
  let power := (text.dropWhile (· ≠ 'e')).drop 1
  (Decimal.ofDigits mantissa).value * 10 ^ exponentOf power

def denoted : List Char → Bool × ℚ
  | '-' :: digits => (true, valueOf digits)
  | digits => (false, valueOf digits)

variable {text mantissa : List Char} {d : Decimal}

theorem valueOf_of_unmarked (unmarked : 'e' ∉ text) :
    valueOf text = (Decimal.ofDigits text).value := by
  have passed := Piece.passes_of_not_mem unmarked
  rw [valueOf, List.takeWhile_eq_self_iff.2 passed, List.dropWhile_eq_nil_iff.2 passed]
  simp [exponentOf, digitsValue]

theorem valueOf_of_marked (unmarked : 'e' ∉ mantissa) (power : List Char) :
    valueOf (mantissa ++ 'e' :: power) =
      (Decimal.ofDigits mantissa).value * 10 ^ exponentOf power := by
  have passed := Piece.passes_of_not_mem unmarked
  rw [valueOf, Piece.takeWhile_until passed (by simp), Piece.dropWhile_until passed (by simp)]
  rfl

theorem denoted_of_unsigned (unsigned : text.head? ≠ some '-') :
    denoted text = (false, valueOf text) := by
  unfold denoted
  split
  next => exact absurd rfl unsigned
  next => rfl

section Layouts

theorem valueOf_positional (d : Decimal) : valueOf (positional d) = d.value := by
  obtain ⟨spelling, value⟩ := positional_reads d
  rw [valueOf_of_unmarked (spelling.not_mem rfl (by decide)), value]

theorem valueOf_positional_point (whole : 0 ≤ d.exponent) :
    valueOf (positional d ++ ['.', '0']) = d.value := by
  have all := isDigit_of_mem_positional whole
  have nonempty : positional d ≠ [] := by simp [positional_of_whole whole]
  have zero : ∀ c ∈ ['0'], Piece.isDigit c := List.forall_mem_singleton.2 (by decide)
  have spelling : Spelling (positional d ++ '.' :: ['0']) := .fraction nonempty all (by simp) zero
  have value : digitsValue (positional d ++ ['0']) = digitsValue (positional d) * 10 ^ 1 :=
    digitsValue_append_replicate (positional d) 1
  have same := Decimal.value_mul_pow (digitsValue (positional d)) 0 1
  rw [valueOf_of_unmarked (spelling.not_mem rfl (by decide)),
    Decimal.ofDigits_fraction (Decimal.pointless all), value]
  exact same.trans (value_digitsValue_positional whole)

theorem exponentOf_signed (power : Int) :
    exponentOf ((if power < 0 then '-' else '+') :: Json.exponentDigits power.natAbs) = power := by
  split
  next =>
    rw [exponentOf, Json.digitsValue_exponentDigits]
    omega
  next =>
    rw [exponentOf, Json.digitsValue_exponentDigits]
    omega

theorem fractionText_reads {c : Char} {more : List Char}
    (all : ∀ digit ∈ c :: more, Piece.isDigit digit) :
    Spelling ([c] ++ Json.fractionText more) ∧
      Decimal.ofDigits ([c] ++ Json.fractionText more) =
        ⟨digitsValue (c :: more), -(more.length : Int)⟩ := by
  obtain ⟨first, others⟩ := List.forall_mem_cons.1 all
  have single : ∀ digit ∈ [c], Piece.isDigit digit := List.forall_mem_singleton.2 first
  unfold Json.fractionText
  split
  next none =>
    rw [none, List.append_nil, Decimal.ofDigits_whole (Decimal.pointless single)]
    exact ⟨.whole (by simp) single, rfl⟩
  next some =>
    rw [Decimal.ofDigits_fraction (Decimal.pointless single)]
    exact ⟨.fraction (by simp) single some others, rfl⟩

theorem scientific_reads (d : Decimal) :
    (∃ front rest, Spelling front ∧ scientific d = front ++ rest) ∧
      valueOf (scientific d) = d.value := by
  have all : ∀ c ∈ Nat.toDigits 10 d.digits, Piece.isDigit c :=
    fun _ => Piece.isDigit_of_mem_toDigits
  have value := digitsValue_toDigits d.digits
  obtain ⟨first, more, digits⟩ :=
    List.exists_cons_of_ne_nil (Nat.toDigits_ne_nil (n := d.digits) (b := 10))
  rw [digits] at all value
  obtain ⟨spelling, read⟩ := fractionText_reads all
  have unmarked := spelling.not_mem (c := 'e') rfl (by decide)
  have exponent : -(more.length : ℤ) + (more.length + d.exponent) = d.exponent :=
    neg_add_cancel_left _ _
  rw [Json.scientific_eq digits, ← List.append_assoc]
  refine ⟨⟨_, _, spelling, rfl⟩, ?_⟩
  rw [Json.exponentText, valueOf_of_marked unmarked, read, exponentOf_signed, value,
    Decimal.value, Decimal.value, mul_assoc, ← zpow_add₀ (by norm_num), exponent]

theorem dataDigits_reads (d : Decimal) :
    (∃ front rest, Spelling front ∧ dataDigits d = front ++ rest) ∧
      valueOf (dataDigits d) = d.value := by
  obtain ⟨spelling, -⟩ := positional_reads d
  simp only [dataDigits]
  split
  next => exact scientific_reads d
  next =>
    split
    next whole => exact ⟨⟨_, _, spelling, rfl⟩, valueOf_positional_point whole⟩
    next => exact ⟨⟨_, [], spelling, (List.append_nil _).symm⟩, valueOf_positional d⟩

end Layouts

end Lox.Number
