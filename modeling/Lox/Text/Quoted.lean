import Lox.Text
import Lox.Text.Printable

/-!
Texts in quotes, as listings show them.  The quotes are single unless the text
holds a single quote and no double one; what cannot be shown is escaped by its
code point.
-/

namespace Lox.Text

def hex (width : Nat) (n : Nat) : List Char :=
  let digits := Nat.toDigits 16 n
  List.replicate (width - digits.length) '0' ++ digits

def quoteFor (text : Text) : Char :=
  if '\''.toNat ∈ text.codes ∧ '"'.toNat ∉ text.codes then '"' else '\''

def escape (quote : Char) (code : Nat) : List Char :=
  if code = quote.toNat then ['\\', quote]
  else if code = '\\'.toNat then ['\\', '\\']
  else if code = '\n'.toNat then ['\\', 'n']
  else if code = '\r'.toNat then ['\\', 'r']
  else if code = '\t'.toNat then ['\\', 't']
  else if isPrintable code then [toChar code]
  else if code < 0x100 then '\\' :: 'x' :: hex 2 code
  else if code < 0x10000 then '\\' :: 'u' :: hex 4 code
  else '\\' :: 'U' :: hex 8 code

def quoted (text : Text) : String :=
  let quote := quoteFor text
  String.ofList (quote :: text.codes.flatMap (escape quote) ++ [quote])

end Lox.Text
