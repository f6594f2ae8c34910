import Lox.Number.Binary64
import Lox.Text

/-!
The data of saved programs: JSON values, with whole numbers kept apart from
numbers that have a fraction or an exponent.
-/

namespace Lox

inductive Json where
  | null
  | bool (value : Bool)
  | int (value : Int)
  | float (value : Float)
  | string (value : Text)
  | list (items : List Json)
  | object (fields : List (Text × Json))
  deriving Inhabited

namespace Json

def field? (key : String) (fields : List (Text × Json)) : Option Json :=
  fields.lookup (Text.ofString key)

def get? (key : String) : Json → Option Json
  | object fields => field? key fields
  | _ => none

def insert (key : Text) (value : Json) : List (Text × Json) → List (Text × Json)
  | [] => [(key, value)]
  | (other, old) :: rest =>
      if other = key then (key, value) :: rest else (other, old) :: insert key value rest

end Json

end Lox
