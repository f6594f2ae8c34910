import Lox.Number.Decimal

/-!
The two ways numbers are written.  `Number.text` is what programs print: all
digits in their places and no exponent.  `Number.dataText` is used in saved files
and listings: it always shows a point or an exponent.
-/

namespace Lox.Number

def positional (d : Decimal) : List Char :=
  let digits := Nat.toDigits 10 d.digits
  let point := digits.length + d.exponent
  if 0 ≤ d.exponent then digits ++ List.replicate d.exponent.toNat '0'
  else if 0 < point then digits.take point.toNat ++ '.' :: digits.drop point.toNat
  else '0' :: '.' :: List.replicate (-point).toNat '0' ++ digits

def scientific (d : Decimal) : List Char :=
  let digits := Nat.toDigits 10 d.digits
  let power := digits.length + d.exponent - 1
  let mantissa :=
    match digits with
    | [] => []
    | [only] => [only]
    | first :: rest => first :: '.' :: rest
  let size := Nat.toDigits 10 power.natAbs
  let padded := if size.length < 2 then '0' :: size else size
  mantissa ++ 'e' :: (if power < 0 then '-' else '+') :: padded

def dataDigits (d : Decimal) : List Char :=
  let power := Decimal.length d.digits + d.exponent - 1
  if power < -4 ∨ 16 ≤ power then scientific d
  else if 0 ≤ d.exponent then positional d ++ ['.', '0']
  else positional d

def write (layout : Decimal → List Char) (nan : String) (x : Float) : String :=
  let word := Binary64.magnitude x
  if Binary64.infinity < word then nan
  else
    let digits :=
      if word = Binary64.infinity then ['i', 'n', 'f'] else layout (Decimal.shortest word)
    String.ofList (if Binary64.isNegative x then '-' :: digits else digits)

def text (x : Float) : String :=
  write positional "NaN" x

def dataText (x : Float) : String :=
  write dataDigits "nan" x

end Lox.Number
