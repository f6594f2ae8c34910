import Lox.Diagnostic
import Lox.Number.Decimal
import Lox.Token.Piece

/-!
Scanning a source text into tokens and diagnostics.  Stray characters and an
unclosed string are reported and left out, so one pass finds every such problem.
-/

namespace Lox

def digitsValue (digits : List Char) : Nat :=
  digits.foldl (fun value digit => 10 * value + (digit.toNat - '0'.toNat)) 0

def Decimal.ofDigits (text : List Char) : Decimal :=
  let whole := text.takeWhile (· ≠ '.')
  let fraction := (text.dropWhile (· ≠ '.')).drop 1
  ⟨digitsValue (whole ++ fraction), -(fraction.length : Int)⟩

namespace Token

def literalOf (kind : Kind) (text : List Char) : Literal :=
  match kind with
  | .number => .number (Decimal.ofDigits text).toFloat
  | .string => .text (String.ofList (text.drop 1).dropLast)
  | _ => .nil

def ofPiece? : Nat × Piece → Option Token
  | (line, .token kind text) =>
      some { kind, lexeme := String.ofList text, line, literal := literalOf kind text }
  | _ => none

end Token

def Diagnostic.ofPiece? : Nat × Piece → Option Diagnostic
  | (line, .stray character) => some ⟨line, .unnamed, .unexpectedCharacter character⟩
  | (line, .unclosed _) => some ⟨line, .unnamed, .unterminatedString⟩
  | _ => none

structure Scanned where
  tokens : List Token
  diagnostics : List Diagnostic

def endToken (source : List Char) : Token :=
  { kind := .eof, lexeme := "", line := source.count '\n' + 1 }

def scan (source : String) : Scanned :=
  let text := source.toList
  let pieces := Piece.locate 1 (Piece.cut text)
  ⟨pieces.filterMap Token.ofPiece? ++ [endToken text], pieces.filterMap Diagnostic.ofPiece?⟩

end Lox
