import Lox.Json.Same
import Lox.Token.Listing
import Lox.Tree.OfSyntax

/-!
Run-time values and the rules on them: what counts as true, what is equal, and how
values are shown.
-/

namespace Lox

/-- A function with the scope it was declared in.  The serial number tells apart
functions made by one declaration. -/
structure Closure where
  name : Text
  params : Tree
  body : Tree
  scope : Nat
  serial : Nat

/-- A value.  `foreign` is what a saved program gives in place of a constant. -/
inductive Value where
  | nil
  | bool (value : Bool)
  | number (value : Float)
  | text (value : Text)
  | function (closure : Closure)
  | clock
  | foreign (tree : Tree)
  deriving Inhabited

namespace Value

def ofTree : Tree → Value
  | .nil => nil
  | .bool value => bool value
  | .number value => number value
  | .text value => text value
  | other => foreign other

def ofLiteral : Literal → Value
  | .nil => nil
  | .bool value => bool value
  | .number value => number value
  | .text value => text value

def isTruthy : Value → Bool
  | nil => false
  | bool value => value
  | _ => true

def isNumber : Value → Bool
  | number _ => true
  | _ => false

def equal : Value → Value → Bool
  | nil, nil => true
  | bool left, bool right => left == right
  | number left, number right => left == right
  | text left, text right => left == right
  | function left, function right => left.serial == right.serial
  | clock, clock => true
  | foreign left, foreign right => left.toJson.same right.toJson
  | _, _ => false

def typeName : Value → String
  | nil => "nil"
  | bool _ => "boolean"
  | number _ => "number"
  | text _ => "string"
  | _ => "function"

def display : Value → Text
  | nil => "nil"
  | bool value => if value then "true" else "false"
  | number value => Number.text value
  | text value => value
  | function closure => "<fn " ++ closure.name ++ ">"
  | clock => "<native fn>"
  | foreign tree => tree.valueText

end Value

def Closure.arity? (closure : Closure) : Option Nat :=
  closure.params.elements?.map List.length

end Lox
