import Lox.Token

/-!
A source text cut into pieces: tokens, blanks, comments, stray characters and an
unclosed string.  Each piece is the longest one that starts where it stands, and
the texts of the pieces put together are the source.
-/

namespace Lox

inductive Piece where
  | token (kind : Kind) (text : List Char)
  | blank (text : List Char)
  | comment (text : List Char)
  | stray (character : Char)
  | unclosed (text : List Char)
  deriving DecidableEq, Repr

namespace Piece

def text : Piece → List Char
  | token _ text => text
  | blank text => text
  | comment text => text
  | stray character => [character]
  | unclosed text => text

def isBlank (c : Char) : Bool :=
  c == ' ' || c == '\t' || c == '\r' || c == '\n'

def isDigit (c : Char) : Bool :=
  '0' ≤ c && c ≤ '9'

def isLetter (c : Char) : Bool :=
  ('a' ≤ c && c ≤ 'z') || ('A' ≤ c && c ≤ 'Z') || c == '_'

def isWordPart (c : Char) : Bool :=
  isLetter c || isDigit c

/-- The fraction at the front of a text: a point counts only before a digit. -/
def fraction : List Char → List Char
  | '.' :: digit :: rest => if isDigit digit then '.' :: digit :: rest.takeWhile isDigit else []
  | _ => []

def number (first : Char) (rest : List Char) : List Char :=
  first :: rest.takeWhile isDigit ++ fraction (rest.dropWhile isDigit)

def operator? (first : Char) (rest : List Char) : Option (Kind × List Char) :=
  match if rest.head? = some '=' then Kind.double? first else none with
  | some kind => some (kind, [first, '='])
  | none => (Kind.single? first).map fun kind => (kind, [first])

def first (c : Char) (rest : List Char) : Piece :=
  if isBlank c then blank (c :: rest.takeWhile isBlank)
  else if c = '/' ∧ rest.head? = some '/' then comment (c :: rest.takeWhile (· ≠ '\n'))
  else if isDigit c then token .number (number c rest)
  else if isLetter c then
    let word := c :: rest.takeWhile isWordPart
    token (Kind.ofWord (String.ofList word)) word
  else if c = '"' then
    let body := rest.takeWhile (· ≠ '"')
    if body.length < rest.length then token .string (c :: body ++ ['"']) else unclosed (c :: body)
  else
    match operator? c rest with
    | some (kind, text) => token kind text
    | none => stray c

theorem operator?_ne_nil {c : Char} {rest : List Char} {kind : Kind} {text : List Char}
    (found : operator? c rest = some (kind, text)) : text ≠ [] := by
  unfold operator? at found
  split at found
  · rintro rfl
    simp at found
  · rintro rfl
    simp at found

theorem number_ne_nil (c : Char) (rest : List Char) : number c rest ≠ [] :=
  List.cons_ne_nil _ _

theorem text_first_ne_nil (c : Char) (rest : List Char) : (first c rest).text ≠ [] := by
  unfold first
  split
  · exact List.cons_ne_nil _ _
  split
  · exact List.cons_ne_nil _ _
  split
  · exact number_ne_nil c rest
  split
  · exact List.cons_ne_nil _ _
  split
  · dsimp only
    split <;> exact List.cons_ne_nil _ _
  split
  next found => exact operator?_ne_nil found
  next => exact List.cons_ne_nil _ _

def cut : List Char → List Piece
  | [] => []
  | c :: rest =>
      let piece := first c rest
      piece :: cut ((c :: rest).drop piece.text.length)
termination_by text => text.length
decreasing_by
  have nonempty := List.length_pos_iff.2 (text_first_ne_nil c rest)
  simp only [List.length_drop, List.length_cons]
  omega

def lineBreaks (piece : Piece) : Nat :=
  piece.text.count '\n'

def locate (line : Nat) : List Piece → List (Nat × Piece)
  | [] => []
  | piece :: rest => (line, piece) :: locate (line + piece.lineBreaks) rest

end Piece

end Lox
