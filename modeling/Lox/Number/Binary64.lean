/-!
Double-precision numbers as words.  The magnitude of a finite double is a whole
number of units of `2 ^ (-1074)`, and its word (the bits below the sign) orders
doubles as their magnitudes do.  `scaled` reads a word as a number of units, and
`nearest` gives the word closest to a ratio.
-/

namespace Lox.Binary64

def signWeight : Nat := 0x8000000000000000

def binadeSize : Nat := 0x10000000000000

def unitsOfOne : Nat := Nat.pow 2 1074

def infinity : Nat := 0x7ff * binadeSize

def magnitude (x : Float) : Nat :=
  x.toBits.toNat % signWeight

def isNegative (x : Float) : Bool :=
  signWeight ≤ x.toBits.toNat

def toFloat (negative : Bool) (word : Nat) : Float :=
  Float.ofBits (UInt64.ofNat (if negative then signWeight + word else word))

def nan : Float :=
  toFloat false (infinity + binadeSize / 2)

/-- The number of units of `2 ^ (-1074)` that a finite magnitude word stands for. -/
def scaled (word : Nat) : Nat :=
  let binade := word / binadeSize
  if binade = 0 then word else (binadeSize + word % binadeSize) * Nat.pow 2 (binade - 1)

def roundDiv (num den : Nat) : Nat :=
  let quotient := num / den
  let twice := 2 * (num % den)
  if twice < den then quotient
  else if den < twice then quotient + 1
  else quotient + quotient % 2

/-- The magnitude word nearest to `num / den`.  A mantissa that rounds up to the
next power of two carries into the exponent bits by itself, and whatever reaches
the word of infinity is infinity. -/
def nearest (num den : Nat) : Nat :=
  let units := num * unitsOfOne
  let binade := (units / den).log2 - 52
  min (binade * binadeSize + roundDiv units (den * Nat.pow 2 binade)) infinity

end Lox.Binary64
