import Lox.Json
import Lox.Number.Text
import Lox.Text.Quoted

/-!
Writing JSON text.  Saved files put each item and field on a line of its own, two
spaces deeper than what holds it, and escape only what must be escaped.
-/

namespace Lox.Json

def escape (code : Nat) : List Char :=
  if code = '"'.toNat then ['\\', '"']
  else if code = '\\'.toNat then ['\\', '\\']
  else if code = '\n'.toNat then ['\\', 'n']
  else if code = '\r'.toNat then ['\\', 'r']
  else if code = '\t'.toNat then ['\\', 't']
  else if code = 0x08 then ['\\', 'b']
  else if code = 0x0c then ['\\', 'f']
  else if code < 0x20 ∨ ¬code.isValidChar then '\\' :: 'u' :: Text.hex 4 code
  else [Char.ofNat code]

def writeString (text : Text) : List Char :=
  '"' :: text.codes.flatMap escape ++ ['"']

def writeInt (value : Int) : List Char :=
  let digits := Nat.toDigits 10 value.natAbs
  if value < 0 then '-' :: digits else digits

def writeFloat (x : Float) : List Char :=
  let word := Binary64.magnitude x
  if Binary64.infinity < word then "NaN".toList
  else if word < Binary64.infinity then (Number.dataText x).toList
  else if Binary64.isNegative x then "-Infinity".toList
  else "Infinity".toList

def newLine (depth : Nat) : List Char :=
  '\n' :: List.replicate (2 * depth) ' '

mutual

def writeOnto (depth : Nat) (rest : List Char) : Json → List Char
  | null => "null".toList ++ rest
  | bool value => (if value then "true" else "false").toList ++ rest
  | int value => writeInt value ++ rest
  | float value => writeFloat value ++ rest
  | string value => writeString value ++ rest
  | list [] => '[' :: ']' :: rest
  | list (item :: items) =>
      let ending := newLine depth ++ ']' :: rest
      '[' :: newLine (depth + 1) ++
        writeOnto (depth + 1) (writeItems (depth + 1) ending items) item
  | object [] => '\x7b' :: '\x7d' :: rest
  | object ((key, value) :: fields) =>
      let ending := newLine depth ++ '\x7d' :: rest
      '\x7b' :: newLine (depth + 1) ++ writeString key ++ ':' :: ' ' ::
        writeOnto (depth + 1) (writeFields (depth + 1) ending fields) value

def writeItems (depth : Nat) (rest : List Char) : List Json → List Char
  | [] => rest
  | item :: items => ',' :: newLine depth ++ writeOnto depth (writeItems depth rest items) item

def writeFields (depth : Nat) (rest : List Char) : List (Text × Json) → List Char
  | [] => rest
  | (key, value) :: fields =>
      ',' :: newLine depth ++ writeString key ++ ':' :: ' ' ::
        writeOnto depth (writeFields depth rest fields) value

end

def write (value : Json) : String :=
  String.ofList (writeOnto 0 [] value)

end Lox.Json
