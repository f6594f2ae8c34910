import Lox.Proofs.Json.ReadBack

/-!
Line ends in written JSON: a carriage return in a text is escaped and none is written
elsewhere, so unifying the line ends of a written file leaves it as it is.
-/

namespace Lox

theorem Text.unifyLineEnds_eq_self {text : List Char} (clean : '\r' ∉ text) :
    unifyLineEnds text = text := by
  fun_induction unifyLineEnds text with
  | case1 => simp at clean
  | case2 => simp at clean
  | case3 c rest _ _ ih => rw [ih fun member => clean (by simp [member])]
  | case4 => rfl

namespace Json

theorem return_not_mem_of_digits {digits : List Char} (all : ∀ c ∈ digits, Piece.isDigit c) :
    '\r' ∉ digits :=
  fun member => absurd (all '\r' member) (by decide)

theorem return_not_mem_toDigits {base : Nat} (low : 1 < base) (high : base ≤ 16) (n : Nat) :
    '\r' ∉ Nat.toDigits base n := by
  have digit : ∀ m < 16, '\r' ≠ Nat.digitChar m := by decide
  induction n using Nat.strongRecOn with
  | ind n ih =>
    rw [Nat.toDigits_eq_if low]
    split
    next small => simp [digit n (Nat.lt_of_lt_of_le small high)]
    next large =>
      have less : n / base < n := Nat.div_lt_self (by omega) low
      have last : n % base < 16 := Nat.lt_of_lt_of_le (Nat.mod_lt n (by omega)) high
      simp [ih _ less, digit _ last]

theorem return_not_mem_positional (d : Decimal) : '\r' ∉ Number.positional d := by
  have digits := return_not_mem_toDigits (by decide : 1 < 10) (by decide) d.digits
  have before (count : Nat) : '\r' ∉ (Nat.toDigits 10 d.digits).take count :=
    fun member => digits (List.mem_of_mem_take member)
  have after (count : Nat) : '\r' ∉ (Nat.toDigits 10 d.digits).drop count :=
    fun member => digits (List.mem_of_mem_drop member)
  simp only [Number.positional]
  split
  · simp [digits]
  · split <;> simp [digits, before, after]

theorem return_not_mem_scientific (d : Decimal) : '\r' ∉ Number.scientific d := by
  have digits := return_not_mem_toDigits (by decide : 1 < 10) (by decide) d.digits
  have exponent (n : Nat) : '\r' ∉ exponentDigits n :=
    return_not_mem_of_digits isDigit_of_mem_exponentDigits
  cases letters : Nat.toDigits 10 d.digits with
  | nil => exact absurd letters Nat.toDigits_ne_nil
  | cons first more =>
    rw [letters, List.mem_cons, not_or] at digits
    rw [scientific_eq letters, exponentText, fractionText]
    split <;> split <;> simp_all

theorem return_not_mem_dataDigits (d : Decimal) : '\r' ∉ Number.dataDigits d := by
  have positional := return_not_mem_positional d
  have scientific := return_not_mem_scientific d
  simp only [Number.dataDigits]
  split
  · exact scientific
  · split <;> simp [positional]

theorem return_not_mem_writeInt (value : Int) : '\r' ∉ writeInt value := by
  have digits := return_not_mem_toDigits (by decide : 1 < 10) (by decide) value.natAbs
  simp only [writeInt]
  split <;> simp [digits]

theorem return_not_mem_writeFloat (x : Float) : '\r' ∉ writeFloat x := by
  have digits := return_not_mem_dataDigits (Decimal.shortest (Binary64.magnitude x))
  simp only [writeFloat]
  split
  next => decide
  next within =>
    split
    next finite =>
      have unequal : Binary64.magnitude x ≠ Binary64.infinity := by omega
      simp only [Number.dataText, Number.write, within, unequal, if_false, String.toList_ofList]
      split <;> simp [digits]
    next => split <;> decide

theorem return_not_mem_escape (code : Nat) : '\r' ∉ escape code := by
  rcases escape_cases code with ⟨letter, written, -, found⟩ | ⟨written, -⟩ |
    ⟨c, written, itself, -, -, shown⟩
  · have other : '\r' ≠ letter := by
      rintro rfl
      cases found
    simp [written, other]
  · simp [written, Text.hex, return_not_mem_toDigits]
  · have other : '\r' ≠ c := by
      rintro rfl
      exact absurd (itself ▸ shown) (by decide)
    simp [written, other]

theorem return_not_mem_writeString (text : Text) : '\r' ∉ writeString text := by
  have codes : '\r' ∉ text.codes.flatMap escape := by
    simp only [List.mem_flatMap, not_exists, not_and]
    exact fun code _ => return_not_mem_escape code
  simp [writeString, codes]

theorem return_not_mem_newLine (depth : Nat) : '\r' ∉ newLine depth := by
  simp [newLine]

mutual

theorem return_not_mem_writeOnto (depth : Nat) {rest : List Char} (clean : '\r' ∉ rest) :
    (value : Json) → '\r' ∉ writeOnto depth rest value
  | .null => by simp [writeOnto, clean]
  | .bool value => by cases value <;> simp [writeOnto, clean]
  | .int value => by simp [writeOnto, return_not_mem_writeInt, clean]
  | .float value => by simp [writeOnto, return_not_mem_writeFloat, clean]
  | .string value => by simp [writeOnto, return_not_mem_writeString, clean]
  | .list [] => by simp [writeOnto, clean]
  | .list (item :: items) => by
      have others := return_not_mem_writeItems (depth + 1)
        (show '\r' ∉ newLine depth ++ ']' :: rest by simp [return_not_mem_newLine, clean]) items
      have first := return_not_mem_writeOnto (depth + 1) others item
      simp [writeOnto, return_not_mem_newLine, first]
  | .object [] => by simp [writeOnto, clean]
  | .object ((key, value) :: fields) => by
      have others := return_not_mem_writeFields (depth + 1)
        (show '\r' ∉ newLine depth ++ '\x7d' :: rest by simp [return_not_mem_newLine, clean])
        fields
      have first := return_not_mem_writeOnto (depth + 1) others value
      simp [writeOnto, return_not_mem_newLine, return_not_mem_writeString, first]

theorem return_not_mem_writeItems (depth : Nat) {rest : List Char} (clean : '\r' ∉ rest) :
    (items : List Json) → '\r' ∉ writeItems depth rest items
  | [] => by simpa [writeItems] using clean
  | item :: items => by
      have others := return_not_mem_writeItems depth clean items
      have first := return_not_mem_writeOnto depth others item
      simp [writeItems, return_not_mem_newLine, first]

theorem return_not_mem_writeFields (depth : Nat) {rest : List Char} (clean : '\r' ∉ rest) :
    (fields : List (Text × Json)) → '\r' ∉ writeFields depth rest fields
  | [] => by simpa [writeFields] using clean
  | (key, value) :: fields => by
      have others := return_not_mem_writeFields depth clean fields
      have first := return_not_mem_writeOnto depth others value
      simp [writeFields, return_not_mem_newLine, return_not_mem_writeString, first]

end

end Json

end Lox
