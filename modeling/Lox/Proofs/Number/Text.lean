import Lox.Number.Text
import Lox.Proofs.Json.Number
import Lox.Proofs.Number.Value
import Lox.Proofs.Token.Alone
import Lox.Proofs.Token.Written

/-!
Numbers as programs print them: the text of a number that is finite and not negative is one
token, and its value is the number.
-/

namespace Lox

open Lexical

namespace Decimal

theorem magnitude_toFloat (d : Decimal) : Binary64.magnitude d.toFloat = d.toWord :=
  Binary64.magnitude_toFloat false d.toWord_le_infinity

theorem isNegative_toFloat (d : Decimal) : Binary64.isNegative d.toFloat = false :=
  Binary64.isNegative_toFloat false d.toWord_le_infinity

end Decimal

namespace Number

inductive Spelling : List Char → Prop
  | whole {digits : List Char} :
      digits ≠ [] → (∀ c ∈ digits, Piece.isDigit c) → Spelling digits
  | fraction {digits places : List Char} :
      digits ≠ [] → (∀ c ∈ digits, Piece.isDigit c) →
      places ≠ [] → (∀ c ∈ places, Piece.isDigit c) → Spelling (digits ++ '.' :: places)

namespace Spelling

variable {text : List Char}

theorem terminal (spelling : Spelling text) : Terminal (.token .number text) := by
  cases spelling with
  | whole nonempty all =>
    obtain ⟨digit, digits, rfl⟩ := List.exists_cons_of_ne_nil nonempty
    obtain ⟨first, others⟩ := List.forall_mem_cons.1 all
    exact .whole first others
  | fraction nonempty all nonempty' all' =>
    obtain ⟨digit, digits, rfl⟩ := List.exists_cons_of_ne_nil nonempty
    obtain ⟨place, places, rfl⟩ := List.exists_cons_of_ne_nil nonempty'
    obtain ⟨first, others⟩ := List.forall_mem_cons.1 all
    obtain ⟨firstPlace, otherPlaces⟩ := List.forall_mem_cons.1 all'
    exact .fraction first others firstPlace otherPlaces

theorem first (spelling : Spelling text) {tail : List Char} (ends : Piece.EndsNumber tail) :
    ∃ c rest, text ++ tail = c :: rest ∧ Piece.first c rest = .token .number text := by
  cases spelling with
  | whole nonempty all =>
    obtain ⟨digit, digits, rfl⟩ := List.exists_cons_of_ne_nil nonempty
    obtain ⟨first, others⟩ := List.forall_mem_cons.1 all
    exact ⟨_, _, rfl, Piece.first_whole first others ends⟩
  | fraction nonempty all nonempty' all' =>
    obtain ⟨digit, digits, rfl⟩ := List.exists_cons_of_ne_nil nonempty
    obtain ⟨place, places, rfl⟩ := List.exists_cons_of_ne_nil nonempty'
    obtain ⟨first, others⟩ := List.forall_mem_cons.1 all
    obtain ⟨firstPlace, otherPlaces⟩ := List.forall_mem_cons.1 all'
    exact ⟨_, _, rfl, Piece.first_fraction first others firstPlace otherPlaces ends⟩

theorem digit_or_point (spelling : Spelling text) {c : Char} (member : c ∈ text) :
    Piece.isDigit c ∨ c = '.' := by
  cases spelling with
  | whole _ all => exact .inl (all c member)
  | fraction _ all _ all' =>
    rcases List.mem_append.1 member with front | behind
    · exact .inl (all c front)
    · rcases List.mem_cons.1 behind with rfl | behind
      · exact .inr rfl
      · exact .inl (all' c behind)

theorem not_mem (spelling : Spelling text) {c : Char} (undigit : Piece.isDigit c = false)
    (unlike : c ≠ '.') : c ∉ text := by
  intro member
  rcases spelling.digit_or_point member with digit | point
  · simp [undigit] at digit
  · exact unlike point

theorem head?_append (spelling : Spelling text) (rest : List Char) :
    (text ++ rest).head? ≠ some '-' := by
  have nonempty : text ≠ [] := by
    cases spelling <;> simp [*]
  rw [List.head?_append_of_ne_nil _ nonempty]
  intro sign
  exact spelling.not_mem rfl (by decide) (List.mem_of_head? sign)

end Spelling

section Whole

variable {d : Decimal}

theorem positional_of_whole (whole : 0 ≤ d.exponent) :
    positional d = Nat.toDigits 10 d.digits ++ List.replicate d.exponent.toNat '0' :=
  if_pos whole

theorem isDigit_of_mem_positional (whole : 0 ≤ d.exponent) :
    ∀ c ∈ positional d, Piece.isDigit c := by
  intro c member
  rw [positional_of_whole whole] at member
  rcases List.mem_append.1 member with digit | zero
  · exact Piece.isDigit_of_mem_toDigits digit
  · rw [List.eq_of_mem_replicate zero]
    decide

theorem value_digitsValue_positional (whole : 0 ≤ d.exponent) :
    Decimal.value ⟨digitsValue (positional d), 0⟩ = d.value := by
  obtain ⟨n, e⟩ := d
  obtain ⟨count, rfl⟩ := Int.eq_ofNat_of_zero_le whole
  have same := Decimal.value_mul_pow n count count
  rwa [positional_of_whole whole, digitsValue_append_replicate, digitsValue_toDigits,
    Int.toNat_natCast, ← Int.sub_self count]

end Whole

/-- Digits in their places are a number, and they stand for what they were written for. -/
theorem positional_reads (d : Decimal) :
    Spelling (positional d) ∧ (Decimal.ofDigits (positional d)).value = d.value := by
  by_cases fraction : d.exponent < 0
  · obtain ⟨whole, places, written, plain, nonempty, all, value, exponent⟩ :=
      Json.positional_fraction fraction
    rw [written, Decimal.ofDigits_fraction (Decimal.pointless plain.all), value, exponent]
    exact ⟨.fraction plain.nonempty plain.all nonempty all, rfl⟩
  · have whole := Int.not_lt.1 fraction
    have all := isDigit_of_mem_positional whole
    rw [Decimal.ofDigits_whole (Decimal.pointless all), value_digitsValue_positional whole]
    exact ⟨.whole (by simp [positional_of_whole whole]) all, rfl⟩

theorem text_of_infinite {x : Float} (infinite : Binary64.magnitude x = Binary64.infinity)
    (positive : Binary64.isNegative x = false) : text x = "inf" := by
  simp only [text, write, infinite, positive]
  rfl

def signText (negative : Bool) : List Char :=
  if negative then ['-'] else []

theorem toList_write {x : Float} (finite : Binary64.magnitude x < Binary64.infinity)
    (layout : Decimal → List Char) (nan : String) :
    (write layout nan x).toList =
      signText (Binary64.isNegative x) ++ layout (Decimal.shortest (Binary64.magnitude x)) := by
  cases negative : Binary64.isNegative x with
  | false => simp [write, signText, negative, Nat.not_lt_of_lt finite, Nat.ne_of_lt finite]
  | true => simp [write, signText, negative, Nat.not_lt_of_lt finite, Nat.ne_of_lt finite]

theorem literalOf_positional {word : Nat} (finite : word < Binary64.infinity) :
    Token.literalOf .number (positional (Decimal.shortest word)) =
      .number (Binary64.toFloat false word) := by
  obtain ⟨-, exact⟩ := positional_reads (Decimal.shortest word)
  rw [Token.literalOf, Decimal.toFloat, Decimal.toWord_congr exact, Decimal.toWord_shortest finite]

theorem scanned_text {x : Float} (finite : Binary64.magnitude x < Binary64.infinity)
    (positive : Binary64.isNegative x = false) (line : Int) :
    Token.Scanned ⟨.number, text x, line, .number x⟩ := by
  obtain ⟨spelling, -⟩ := positional_reads (Decimal.shortest (Binary64.magnitude x))
  have value := Binary64.toFloat_magnitude x
  have written : (text x).toList = positional (Decimal.shortest (Binary64.magnitude x)) := by
    rw [text, toList_write finite, positive]
    rfl
  rw [positive] at value
  constructor
  · simpa only [written] using spelling.terminal
  · simp only [written, literalOf_positional finite, value]

end Number

end Lox
