import Lox.Json
import Lox.Token.Scan

/-!
Reading JSON text.  Besides the standard forms the words `NaN`, `Infinity` and
`-Infinity` are numbers; of two fields with one key the last one counts; control
characters must be escaped.
-/

namespace Lox.Json

inductive ReadError where
  | malformed
  | longInteger (digits : Nat)
  deriving DecidableEq, Repr

def maxDigits : Nat := 4300

def isBlank (c : Char) : Bool :=
  c == ' ' || c == '\t' || c == '\n' || c == '\r'

def skipBlanks (text : List Char) : List Char :=
  text.dropWhile isBlank

def hexDigit? (c : Char) : Option Nat :=
  if '0' ≤ c ∧ c ≤ '9' then some (c.toNat - '0'.toNat)
  else if 'a' ≤ c ∧ c ≤ 'f' then some (c.toNat - 'a'.toNat + 10)
  else if 'A' ≤ c ∧ c ≤ 'F' then some (c.toNat - 'A'.toNat + 10)
  else none

def hexValue? (digits : List Char) : Option Nat :=
  digits.foldlM (fun value c => (hexDigit? c).map (16 * value + ·)) 0

def escapeCode? : Char → Option Nat
  | '"' => some 0x22
  | '\\' => some 0x5c
  | '/' => some 0x2f
  | 'b' => some 0x08
  | 'f' => some 0x0c
  | 'n' => some 0x0a
  | 'r' => some 0x0d
  | 't' => some 0x09
  | _ => none

def readCodes : List Char → Option (List Nat × List Char)
  | [] => none
  | '"' :: rest => some ([], rest)
  | '\\' :: 'u' :: a :: b :: c :: d :: rest => do
      let code ← hexValue? [a, b, c, d]
      let (codes, rest) ← readCodes rest
      some (code :: codes, rest)
  | '\\' :: c :: rest => do
      let code ← escapeCode? c
      let (codes, rest) ← readCodes rest
      some (code :: codes, rest)
  | c :: rest =>
      if c = '\\' ∨ c.toNat < 0x20 then none
      else (readCodes rest).map fun (codes, rest) => (c.toNat :: codes, rest)

def isHighSurrogate (code : Nat) : Bool :=
  0xd800 ≤ code && code < 0xdc00

def isLowSurrogate (code : Nat) : Bool :=
  0xdc00 ≤ code && code < 0xe000

/-- Joins the halves of each pair of codes that stands for one character. -/
def joinCodes : List Nat → List Nat
  | high :: low :: rest =>
      if isHighSurrogate high && isLowSurrogate low then
        (0x10000 + (high - 0xd800) * 0x400 + (low - 0xdc00)) :: joinCodes rest
      else high :: joinCodes (low :: rest)
  | codes => codes

def readText (text : List Char) : Except ReadError (Text × List Char) :=
  match readCodes text with
  | some (codes, rest) => .ok (⟨joinCodes codes⟩, rest)
  | none => .error .malformed

def spanDigits (text : List Char) : List Char × List Char :=
  (text.takeWhile Piece.isDigit, text.dropWhile Piece.isDigit)

def readExponent (text : List Char) : Option (Int × List Char) :=
  match text with
  | mark :: rest =>
      if mark = 'e' ∨ mark = 'E' then
        let (negative, rest) :=
          match rest with
          | '-' :: rest => (true, rest)
          | '+' :: rest => (false, rest)
          | rest => (false, rest)
        let (digits, rest) := spanDigits rest
        if digits.isEmpty then none
        else
          let value : Int := digitsValue digits
          some (if negative then -value else value, rest)
      else none
  | [] => none

def readFraction (text : List Char) : Option (List Char × List Char) :=
  match text with
  | '.' :: rest =>
      let (digits, rest) := spanDigits rest
      if digits.isEmpty then none else some (digits, rest)
  | _ => none

def readNumber (negative : Bool) (text : List Char) : Except ReadError (Json × List Char) :=
  let (run, afterRun) := spanDigits text
  if run.isEmpty then .error .malformed
  else
    let (whole, afterWhole) :=
      if run.head? = some '0' then (run.take 1, run.drop 1 ++ afterRun) else (run, afterRun)
    let fraction := readFraction afterWhole
    let (fractionDigits, afterFraction) := fraction.getD ([], afterWhole)
    let exponent := readExponent afterFraction
    let (power, rest) := exponent.getD (0, afterFraction)
    if fraction.isNone && exponent.isNone then
      if maxDigits < whole.length then .error (.longInteger whole.length)
      else
        let value : Int := digitsValue whole
        .ok (int (if negative then -value else value), rest)
    else
      let decimal : Decimal :=
        ⟨digitsValue (whole ++ fractionDigits), power - fractionDigits.length⟩
      .ok (float (Binary64.toFloat negative decimal.toWord), rest)

def dropWord? (word : String) (text : List Char) : Option (List Char) :=
  if word.toList.isPrefixOf text then some (text.drop word.length) else none

def words : List (String × Json) :=
  [("null", null), ("true", bool true), ("false", bool false),
   ("NaN", float Binary64.nan), ("Infinity", float (Binary64.toFloat false Binary64.infinity)),
   ("-Infinity", float (Binary64.toFloat true Binary64.infinity))]

def readWord? (text : List Char) : Option (Json × List Char) :=
  words.findSome? fun (word, value) => (dropWord? word text).map fun rest => (value, rest)

mutual

def readValue : Nat → List Char → Except ReadError (Json × List Char)
  | 0, _ => .error .malformed
  | _ + 1, [] => .error .malformed
  | fuel + 1, c :: rest =>
      if c = '"' then (readText rest).map fun (text, rest) => (string text, rest)
      else if c = '[' then
        match skipBlanks rest with
        | ']' :: rest => .ok (list [], rest)
        | rest => (readItems fuel rest).map fun (items, rest) => (list items, rest)
      else if c = '\x7b' then
        match skipBlanks rest with
        | '\x7d' :: rest => .ok (object [], rest)
        | rest => (readFields fuel [] rest).map fun (fields, rest) => (object fields, rest)
      else
        match readWord? (c :: rest) with
        | some found => .ok found
        | none => if c = '-' then readNumber true rest else readNumber false (c :: rest)

def readItems : Nat → List Char → Except ReadError (List Json × List Char)
  | 0, _ => .error .malformed
  | fuel + 1, text => do
      let (item, rest) ← readValue fuel (skipBlanks text)
      match skipBlanks rest with
      | ']' :: rest => .ok ([item], rest)
      | ',' :: rest =>
          let (items, rest) ← readItems fuel rest
          .ok (item :: items, rest)
      | _ => .error .malformed

def readFields :
    Nat → List (Text × Json) → List Char → Except ReadError (List (Text × Json) × List Char)
  | 0, _, _ => .error .malformed
  | fuel + 1, before, text =>
      match skipBlanks text with
      | '"' :: rest => do
          let (key, rest) ← readText rest
          match skipBlanks rest with
          | ':' :: rest =>
              let (value, rest) ← readValue fuel (skipBlanks rest)
              let fields := insert key value before
              match skipBlanks rest with
              | '\x7d' :: rest => .ok (fields, rest)
              | ',' :: rest => readFields fuel fields rest
              | _ => .error .malformed
          | _ => .error .malformed
      | _ => .error .malformed

end

def read (text : String) : Except ReadError Json := do
  let characters := text.toList
  let (value, rest) ← readValue (2 * characters.length + 2) (skipBlanks characters)
  if (skipBlanks rest).isEmpty then .ok value else .error .malformed

end Lox.Json
