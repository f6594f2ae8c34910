/-!
Texts of running programs: sequences of code points.  An escape in a saved program
can put half of a surrogate pair into a text, which no string can hold.  What is read
from a file or a prompt is cut into lines as characters, before it is a text.
-/

namespace Lox

structure Text where
  codes : List Nat
  deriving DecidableEq, Inhabited

namespace Text

def ofChars (characters : List Char) : Text :=
  ⟨characters.map Char.toNat⟩

def ofString (string : String) : Text :=
  ofChars string.toList

instance : Coe String Text where
  coe := ofString

def isWhole (text : Text) : Bool :=
  text.codes.all Nat.isValidChar

def string? (text : Text) : Option String :=
  if text.isWhole then some (String.ofList (text.codes.map Char.ofNat)) else none

def toChar (code : Nat) : Char :=
  if code.isValidChar then Char.ofNat code else '\ufffd'

def toString (text : Text) : String :=
  String.ofList (text.codes.map toChar)

protected def append (left right : Text) : Text :=
  ⟨left.codes ++ right.codes⟩

instance : Append Text where
  append := Text.append

def pieces (text : Text) : List Text :=
  text.codes.map fun code => ⟨[code]⟩

def intercalate (separator : String) (texts : List Text) : Text :=
  ⟨(ofString separator).codes.intercalate (texts.map codes)⟩

def unlines (lines : List Text) : Text :=
  ⟨lines.flatMap fun line => line.codes ++ ['\n'.toNat]⟩

/-- Cuts a text after each line feed; the pieces put together are the text. -/
def lines : List Char → List (List Char)
  | [] => []
  | c :: rest =>
      if c = '\n' then [c] :: lines rest
      else
        match lines rest with
        | [] => [[c]]
        | line :: more => (c :: line) :: more

def unifyLineEnds : List Char → List Char
  | '\r' :: '\n' :: rest => '\n' :: unifyLineEnds rest
  | '\r' :: rest => '\n' :: unifyLineEnds rest
  | c :: rest => c :: unifyLineEnds rest
  | [] => []

end Text

end Lox
