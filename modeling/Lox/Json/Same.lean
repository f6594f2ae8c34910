import Lox.Json
import Lox.Number.Binary64

/-!
When two pieces of data are the same: numbers by value, lists item by item, objects
by their fields in any order.  A number is the same whether it is whole, has a fraction
of zero, or stands for truth.
-/

namespace Lox

inductive Numeral where
  | whole (value : Int)
  | other (value : Float)
  deriving DecidableEq

namespace Numeral

def ofBool (value : Bool) : Numeral :=
  whole (if value then 1 else 0)

def ofFloat (x : Float) : Numeral :=
  let word := Binary64.magnitude x
  let units := Binary64.scaled word
  if word < Binary64.infinity ∧ units % Binary64.unitsOfOne = 0 then
    let size : Int := (units / Binary64.unitsOfOne : Nat)
    whole (if Binary64.isNegative x then -size else size)
  else other x

end Numeral

namespace Json

def numeral? : Json → Option Numeral
  | bool value => some (.ofBool value)
  | int value => some (.whole value)
  | float value => some (.ofFloat value)
  | _ => none

mutual

def same : Json → Json → Bool
  | null, null => true
  | string left, string right => left == right
  | list left, list right => sameItems left right
  | object left, object right => left.length == right.length && sameFields left right
  | left, right =>
      match left.numeral?, right.numeral? with
      | some left, some right => left == right
      | _, _ => false

def sameItems : List Json → List Json → Bool
  | [], [] => true
  | left :: lefts, right :: rights => same left right && sameItems lefts rights
  | _, _ => false

def sameFields : List (Text × Json) → List (Text × Json) → Bool
  | [], _ => true
  | (key, value) :: rest, others =>
      match others.lookup key with
      | some other => same value other && sameFields rest others
      | none => false

end

end Json

end Lox
