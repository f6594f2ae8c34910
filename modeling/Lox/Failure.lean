import Lox.Json.Display
import Lox.Tree

/-!
How a run can fail.  A runtime error is the program's own fault and is reported
with its line; a fault is an exception of the host, which is not reported.  Most faults
are trees whose parts do not fit together, which only a saved file can hold.
-/

namespace Lox

/-- A failure of a running program.  The line is that of the token it points at;
`feature` names what the language does not support. -/
structure RuntimeError where
  message : Text
  line : Json
  feature : Option String := none

namespace RuntimeError

def undefined (lexeme : Text) (line : Json) : RuntimeError :=
  { message := "Undefined variable '" ++ lexeme ++ "'.", line }

def text (error : RuntimeError) : Text :=
  error.message ++ "\n[line " ++ error.line.display ++ "]"

end RuntimeError

inductive Fault where
  | notToken
  | notSequence
  | notName
  | notText
  | notCallable
  | clockOverflow
  | zeroDivision
  | notStatement (shape : Shape)
  | notExpression (shape : Shape)
  | notPrintable (shape : Shape)
  | notSavable (shape : Shape)
  deriving DecidableEq, Repr

namespace Fault

def message : Fault → String
  | notToken => "a token is needed here"
  | notSequence => "a sequence is needed here"
  | notName => "this cannot be a name"
  | notText => "a text is needed here"
  | notCallable => "this cannot be called"
  | clockOverflow => "the clock is too large for a number"
  | zeroDivision => "float division by zero"
  | notStatement shape => "execute: unexpected node type " ++ shape.name
  | notExpression shape => "evaluate: unexpected node type " ++ shape.name
  | notPrintable shape => "Unsupported node for printing: " ++ shape.name
  | notSavable shape => "Unsupported node for serialization: " ++ shape.name

end Fault

inductive Failure where
  | error (error : RuntimeError)
  | fault (fault : Fault)

end Lox
