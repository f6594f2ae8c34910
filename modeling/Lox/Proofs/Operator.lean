import Lox.Operator
import Lox.Proofs.Number.Binary64

/-!
What the operators can come to.  An operator gives a boolean, a number or a text, or it fails
at its token.  No zero divisor reaches the host, and what division gives instead is the
quotient of the standard.
-/

namespace Lox.Operator

open Binary64

theorem quotient_of_ne_zero {left right : Float} (nonzero : (right == 0) = false) :
    quotient left right = .ok (left / right) := by
  rw [quotient, nonzero]
  rfl

theorem copySign_toFloat {word word' : Nat} (number : word ≤ infinity) (number' : word' ≤ infinity)
    (negative negative' : Bool) :
    copySign (toFloat negative word) (toFloat negative' word') = toFloat negative' word := by
  rw [copySign, magnitude_toFloat negative number, isNegative_toFloat negative' number']

theorem divide_zero (left : Float) (negative : Bool) :
    divide left (toFloat negative 0) = .ok (left / toFloat negative 0) := by
  by_cases number : magnitude left ≤ infinity
  · rw [← toFloat_magnitude left]
    generalize isNegative left = sign, magnitude left = word at number
    by_cases zero : word = 0
    · subst zero
      cases sign <;> cases negative <;> rfl
    · have finite : (toFloat sign word == 0) = false :=
        Bool.eq_false_iff.2 fun same => zero (eq_zero_of_beq_zero number same)
      have one : (1 : Float) = toFloat false (1023 * binadeSize) := rfl
      have guarded : (toFloat negative 0 != 0) = false := by cases negative <;> rfl
      rw [toFloat_div_zero number zero, divide, guarded, finite, isNaN_toFloat number zero,
        copySign_toFloat (Nat.le_refl _) number, one,
        copySign_toFloat (by decide) (Nat.zero_le _)]
      rfl
  · rw [eq_nan_of_infinity_lt (Nat.lt_of_not_le number)]
    cases negative <;> rfl

/-- Division never fails and is that of the standard, for every divisor. -/
theorem divide_eq (left right : Float) : divide left right = .ok (left / right) := by
  by_cases zero : right == 0
  · rw [eq_toFloat_zero zero]
    exact divide_zero left _
  · have nonzero : (right == 0) = false := Bool.eq_false_iff.2 zero
    rw [divide, bne, nonzero]
    exact quotient_of_ne_zero nonzero

/-- What an operator can come to.  Only one that is not among the known kinds fails for that. -/
inductive Gives (known : List Kind) (operator : SavedToken) : Except Failure Value → Prop
  | bool (value : Bool) : Gives known operator (.ok (.bool value))
  | number (value : Float) : Gives known operator (.ok (.number value))
  | text (value : Text) : Gives known operator (.ok (.text value))
  | operand : Gives known operator (.error (operator.error "Operand must be a number."))
  | operands :
      Gives known operator
        (.error (operator.error "Operands must be two numbers or two strings."))
  | unknown {title : String} :
      title ∈ ["Unknown unary operator '", "Unknown operator '"] → operator.kind ∉ known →
      Gives known operator (.error (operator.error (title ++ operator.lexeme.display ++ "'.")))

theorem gives_unary (operator : SavedToken) (operand : Value) :
    Gives [.bang, .minus] operator (unary operator operand) := by
  unfold unary
  split
  · exact .bool _
  · exact .number _
  · exact .operand
  next notBang notMinus _ =>
    refine .unknown (by decide) fun listed => ?_
    simp only [List.mem_cons, List.not_mem_nil, or_false] at listed
    exact listed.elim notBang notMinus

theorem gives_arithmetic {operator : SavedToken} (notPlus : operator.kind ≠ .plus)
    (notEqual : operator.kind ≠ .equalEqual) (notDiffer : operator.kind ≠ .bangEqual)
    (left right : Float) :
    Gives [.bangEqual, .equalEqual, .greater, .greaterEqual, .less, .lessEqual, .minus, .plus,
      .slash, .star] operator (arithmetic operator left right) := by
  unfold arithmetic
  rw [divide_eq]
  split
  · exact .number _
  · exact .number _
  · exact .number _
  · exact .bool _
  · exact .bool _
  · exact .bool _
  · exact .bool _
  · exact .unknown (by decide) (by simp_all)

theorem gives_binary (operator : SavedToken) (left right : Value) :
    Gives [.bangEqual, .equalEqual, .greater, .greaterEqual, .less, .lessEqual, .minus, .plus,
      .slash, .star] operator (binary operator left right) := by
  unfold binary
  split
  · split
    · exact .number _
    · exact .text _
    · exact .operands
  · exact .bool _
  · exact .bool _
  next notPlus notEqual notDiffer =>
    split
    · exact gives_arithmetic notPlus notEqual notDiffer _ _
    · exact .operand

end Lox.Operator
