import Lox.Token.Scan

/-!
The words of source texts: which pieces there are, how a text is covered by them, and what
is found in it.  Each piece is the longest one that starts where it stands; a character with
which none starts is a piece of its own.
-/

namespace Lox.Lexical

def operators : List (Kind × List Char) :=
  [(.leftParen, ['(']), (.rightParen, [')']), (.leftBrace, ['\x7b']), (.rightBrace, ['\x7d']),
   (.comma, [',']), (.dot, ['.']), (.minus, ['-']), (.plus, ['+']), (.semicolon, [';']),
   (.slash, ['/']), (.star, ['*']), (.bang, ['!']), (.bangEqual, ['!', '=']), (.equal, ['=']),
   (.equalEqual, ['=', '=']), (.greater, ['>']), (.greaterEqual, ['>', '=']), (.less, ['<']),
   (.lessEqual, ['<', '='])]

inductive Terminal : Piece → Prop
  | operator {kind : Kind} {text : List Char} :
      (kind, text) ∈ operators → Terminal (.token kind text)
  /-- A word that is spelled as a keyword is that keyword, any other an identifier. -/
  | word {letter : Char} {parts : List Char} :
      Piece.isLetter letter → (∀ part ∈ parts, Piece.isWordPart part) →
      Terminal (.token (Kind.ofWord (String.ofList (letter :: parts))) (letter :: parts))
  | whole {digit : Char} {digits : List Char} :
      Piece.isDigit digit → (∀ digit ∈ digits, Piece.isDigit digit) →
      Terminal (.token .number (digit :: digits))
  | fraction {digit place : Char} {digits places : List Char} :
      Piece.isDigit digit → (∀ digit ∈ digits, Piece.isDigit digit) →
      Piece.isDigit place → (∀ place ∈ places, Piece.isDigit place) →
      Terminal (.token .number (digit :: digits ++ '.' :: place :: places))
  | string {body : List Char} :
      '"' ∉ body → Terminal (.token .string ('"' :: body ++ ['"']))
  | unclosed {body : List Char} : '"' ∉ body → Terminal (.unclosed ('"' :: body))
  | comment {body : List Char} : '\n' ∉ body → Terminal (.comment ('/' :: '/' :: body))
  | blank {space : Char} {spaces : List Char} :
      Piece.isBlank space → (∀ space ∈ spaces, Piece.isBlank space) →
      Terminal (.blank (space :: spaces))

/-- The piece is the longest one at its place, where the text goes on with `rest`. -/
inductive Longest : Piece → List Char → Prop
  | terminal {piece : Piece} {rest : List Char} :
      Terminal piece →
      (∀ other, Terminal other → other.text <+: piece.text ++ rest →
        other.text.length ≤ piece.text.length) →
      Longest piece rest
  | stray {character : Char} {rest : List Char} :
      (∀ other, Terminal other → ¬ other.text <+: character :: rest) →
      Longest (.stray character) rest

inductive Tiles : List Piece → List Char → Prop
  | nil : Tiles [] []
  | cons {piece : Piece} {pieces : List Piece} {rest : List Char} :
      Longest piece rest → Tiles pieces rest → Tiles (piece :: pieces) (piece.text ++ rest)

def lineAt (pieces : List Piece) (index : Nat) : Nat :=
  1 + ((pieces.take index).flatMap Piece.text).count '\n'

def located (pieces : List Piece) : List (Nat × Piece) :=
  pieces.zipIdx.map fun (piece, index) => (lineAt pieces index, piece)

structure Lexeme where
  kind : Kind
  text : List Char
  literal : Literal

/-- How tokens of each kind are spelled, and what the spelling stands for. -/
inductive Spelled : Lexeme → Prop
  | operator {kind : Kind} {text : List Char} :
      (kind, text) ∈ operators → Spelled ⟨kind, text, .nil⟩
  | keyword {word : String} {kind : Kind} :
      (word, kind) ∈ Kind.keywords → Spelled ⟨kind, word.toList, .nil⟩
  | identifier {letter : Char} {parts : List Char} :
      Piece.isLetter letter → (∀ part ∈ parts, Piece.isWordPart part) →
      String.ofList (letter :: parts) ∉ Kind.keywords.map Prod.fst →
      Spelled ⟨.identifier, letter :: parts, .nil⟩
  | whole {digit : Char} {digits : List Char} :
      Piece.isDigit digit → (∀ digit ∈ digits, Piece.isDigit digit) →
      Spelled ⟨.number, digit :: digits,
        .number (Decimal.toFloat ⟨digitsValue (digit :: digits), 0⟩)⟩
  | fraction {digit place : Char} {digits places : List Char} :
      Piece.isDigit digit → (∀ digit ∈ digits, Piece.isDigit digit) →
      Piece.isDigit place → (∀ place ∈ places, Piece.isDigit place) →
      Spelled ⟨.number, digit :: digits ++ '.' :: place :: places,
        .number (Decimal.toFloat
          ⟨digitsValue (digit :: digits ++ place :: places), -(places.length + 1)⟩)⟩
  | string {body : List Char} :
      '"' ∉ body → Spelled ⟨.string, '"' :: body ++ ['"'], .text (String.ofList body)⟩

end Lox.Lexical
