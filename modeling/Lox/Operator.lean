import Lox.Failure
import Lox.Value

/-!
What the operators compute.
-/

namespace Lox

def SavedToken.error (token : SavedToken) (message : Text) : Failure :=
  .error { message, line := token.line }

namespace Operator

def unary (operator : SavedToken) (operand : Value) : Except Failure Value :=
  match operator.kind, operand with
  | .bang, _ => .ok (.bool (!operand.isTruthy))
  | .minus, .number value => .ok (.number (-value))
  | .minus, _ => .error (operator.error "Operand must be a number.")
  | _, _ =>
      .error (operator.error ("Unknown unary operator '" ++ operator.lexeme.display ++ "'."))

/-- The quotient as the host computes it, which refuses a zero divisor of either sign. -/
def quotient (left right : Float) : Except Failure Float :=
  if right == 0 then .error (.fault .zeroDivision) else .ok (left / right)

def copySign (size sign : Float) : Float :=
  Binary64.toFloat (Binary64.isNegative sign) (Binary64.magnitude size)

/-- The quotient of any two numbers: zero divisors are kept from the host. -/
def divide (left right : Float) : Except Failure Float :=
  if right != 0 then quotient left right
  else if left == 0 || left.isNaN then .ok Binary64.nan
  else .ok (copySign (Binary64.toFloat false Binary64.infinity) left * copySign 1 right)

def arithmetic (operator : SavedToken) (left right : Float) : Except Failure Value :=
  match operator.kind with
  | .minus => .ok (.number (left - right))
  | .star => .ok (.number (left * right))
  | .slash => (divide left right).map .number
  | .greater => .ok (.bool (right < left))
  | .greaterEqual => .ok (.bool (right ≤ left))
  | .less => .ok (.bool (left < right))
  | .lessEqual => .ok (.bool (left ≤ right))
  | _ => .error (operator.error ("Unknown operator '" ++ operator.lexeme.display ++ "'."))

def binary (operator : SavedToken) (left right : Value) : Except Failure Value :=
  match operator.kind with
  | .plus =>
      match left, right with
      | .number left, .number right => .ok (.number (left + right))
      | .text left, .text right => .ok (.text (left ++ right))
      | _, _ => .error (operator.error "Operands must be two numbers or two strings.")
  | .equalEqual => .ok (.bool (left.equal right))
  | .bangEqual => .ok (.bool (!left.equal right))
  | _ =>
      match left, right with
      | .number left, .number right => arithmetic operator left right
      | _, _ => .error (operator.error "Operand must be a number.")

end Operator

end Lox
