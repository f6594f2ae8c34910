/-!
Tokens: the kinds of words a source text is made of, with their names in saved
files, the tables of keywords and operators, and the token itself.
-/

namespace Lox

inductive Kind where
  | leftParen | rightParen | leftBrace | rightBrace | comma | dot | minus | plus
  | semicolon | slash | star
  | bang | bangEqual | equal | equalEqual | greater | greaterEqual | less | lessEqual
  | identifier | string | number
  | andWord | classWord | elseWord | falseWord | funWord | forWord | ifWord | nilWord
  | orWord | printWord | returnWord | superWord | thisWord | trueWord | varWord | whileWord
  | eof | unknown
  deriving DecidableEq, Repr

namespace Kind

def table : List (Kind × String) :=
  [(leftParen, "LEFT_PAREN"), (rightParen, "RIGHT_PAREN"), (leftBrace, "LEFT_BRACE"),
   (rightBrace, "RIGHT_BRACE"), (comma, "COMMA"), (dot, "DOT"), (minus, "MINUS"),
   (plus, "PLUS"), (semicolon, "SEMICOLON"), (slash, "SLASH"), (star, "STAR"),
   (bang, "BANG"), (bangEqual, "BANG_EQUAL"), (equal, "EQUAL"),
   (equalEqual, "EQUAL_EQUAL"), (greater, "GREATER"), (greaterEqual, "GREATER_EQUAL"),
   (less, "LESS"), (lessEqual, "LESS_EQUAL"),
   (identifier, "IDENTIFIER"), (string, "STRING"), (number, "NUMBER"),
   (andWord, "AND"), (classWord, "CLASS"), (elseWord, "ELSE"), (falseWord, "FALSE"),
   (funWord, "FUN"), (forWord, "FOR"), (ifWord, "IF"), (nilWord, "NIL"), (orWord, "OR"),
   (printWord, "PRINT"), (returnWord, "RETURN"), (superWord, "SUPER"),
   (thisWord, "THIS"), (trueWord, "TRUE"), (varWord, "VAR"), (whileWord, "WHILE"),
   (eof, "EOF"), (unknown, "UNKNOWN")]

def name (kind : Kind) : String :=
  (table.lookup kind).getD ""

def ordinal (kind : Kind) : Nat :=
  table.findIdx (·.1 == kind) + 1

def ofName? (name : String) : Option Kind :=
  (table.find? (·.2 == name)).map (·.1)

def keywords : List (String × Kind) :=
  [("and", andWord), ("class", classWord), ("else", elseWord), ("false", falseWord),
   ("fun", funWord), ("for", forWord), ("if", ifWord), ("nil", nilWord), ("or", orWord),
   ("print", printWord), ("return", returnWord), ("super", superWord),
   ("this", thisWord), ("true", trueWord), ("var", varWord), ("while", whileWord)]

def ofWord (word : String) : Kind :=
  (keywords.lookup word).getD identifier

def single? : Char → Option Kind
  | '(' => some leftParen
  | ')' => some rightParen
  | '\x7b' => some leftBrace
  | '\x7d' => some rightBrace
  | ',' => some comma
  | '.' => some dot
  | '-' => some minus
  | '+' => some plus
  | ';' => some semicolon
  | '/' => some slash
  | '*' => some star
  | '!' => some bang
  | '=' => some equal
  | '>' => some greater
  | '<' => some less
  | _ => none

def double? : Char → Option Kind
  | '!' => some bangEqual
  | '=' => some equalEqual
  | '>' => some greaterEqual
  | '<' => some lessEqual
  | _ => none

end Kind

inductive Literal where
  | nil
  | bool (value : Bool)
  | number (value : Float)
  | text (value : String)
  deriving DecidableEq, Inhabited

/-- A word of the source with the line it starts on.  The literal is the value of
a number or string and nil for every other kind. -/
structure Token where
  kind : Kind
  lexeme : String
  line : Int
  literal : Literal := .nil
  deriving DecidableEq

end Lox
