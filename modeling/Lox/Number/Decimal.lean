import Lox.Number.Binary64

/-!
Decimal numbers `digits * 10 ^ exponent`.  Reading one rounds it to the nearest
double; `shortest` goes back with the fewest digits that read as the same double.
-/

namespace Lox

structure Decimal where
  digits : Nat
  exponent : Int
  deriving DecidableEq, Repr

namespace Decimal

def length (n : Nat) : Nat :=
  (Nat.toDigits 10 n).length

/-- The magnitude word of the double nearest to a decimal.  The two bounds lie
outside the finite doubles and keep the powers of ten small. -/
def toWord (d : Decimal) : Nat :=
  if d.digits = 0 then 0
  else
    let point := length d.digits + d.exponent
    if 310 < point then Binary64.infinity
    else if point < -325 then 0
    else if 0 ≤ d.exponent then Binary64.nearest (d.digits * Nat.pow 10 d.exponent.toNat) 1
    else Binary64.nearest d.digits (Nat.pow 10 (-d.exponent).toNat)

def toFloat (d : Decimal) : Float :=
  Binary64.toFloat false d.toWord

def trim (digits : Nat) (exponent : Int) : Decimal :=
  if digits ≠ 0 ∧ digits % 10 = 0 then trim (digits / 10) (exponent + 1)
  else ⟨digits, exponent⟩
termination_by digits
decreasing_by omega

/-- The place of the leading digit: a positive finite double lies from
`10 ^ (place - 1)` up to `10 ^ place`.  The shift by powers of ten brings the double
to one or above, where its whole part has as many digits as the place says. -/
def place (word : Nat) : Int :=
  let units := Binary64.scaled word
  let shift := (1074 - units.log2) / 3 + 1
  length (units * Nat.pow 10 shift / Binary64.unitsOfOne) - shift

/-- The decimal with the given exponent closest to a double among its two neighbours
on that grid, if one of them reads back. -/
def closest? (word : Nat) (exponent : Int) : Option Decimal :=
  let units := Binary64.scaled word
  let num := units * Nat.pow 10 (-exponent).toNat
  let den := Binary64.unitsOfOne * Nat.pow 10 exponent.toNat
  let below := num / den
  let lower : Decimal := ⟨below, exponent⟩
  let upper : Decimal := ⟨below + 1, exponent⟩
  let twice := 2 * (num % den)
  let lowerIsNearer := twice < den ∨ (twice = den ∧ below % 2 = 0)
  if lower.toWord = word ∧ (lowerIsNearer ∨ upper.toWord ≠ word) then some lower
  else if upper.toWord = word then some upper
  else none

def exact (word : Nat) : Decimal :=
  ⟨Binary64.scaled word * Nat.pow 5 1074, -1074⟩

def shortest (word : Nat) : Decimal :=
  if word = 0 then ⟨0, 0⟩
  else
    let top := place word - 1
    match (List.range 17).findSome? fun (more : Nat) => closest? word (top - more) with
    | some d => trim d.digits d.exponent
    | none => let d := exact word; trim d.digits d.exponent

end Decimal

end Lox
