import Lox.Token

/-!
What is reported about a source text before it runs: the line, the place and the
problem, with the wording of each.
-/

namespace Lox

inductive Problem where
  | unterminatedString
  | unexpectedCharacter (character : Char)
  | expected (what : String)
  | invalidTarget
  | tooManyArguments
  | tooManyParameters
  deriving DecidableEq, Repr

def maxArguments : Nat := 255

namespace Problem

def message : Problem → String
  | unterminatedString => "Unterminated string."
  | unexpectedCharacter character => "Unexpected character: " ++ String.singleton character
  | expected what => "Expect " ++ what ++ "."
  | invalidTarget => "Invalid assignment target."
  | tooManyArguments => "Can't have more than " ++ toString maxArguments ++ " arguments."
  | tooManyParameters => "Can't have more than " ++ toString maxArguments ++ " parameters."

/-- A fatal problem breaks the declaration it is found in; the others are noted
and parsing goes on in place. -/
def isFatal : Problem → Bool
  | expected _ => true
  | _ => false

end Problem

inductive Place where
  | unnamed
  | atEnd
  | atLexeme (lexeme : String)
  deriving DecidableEq, Repr

namespace Place

def text : Place → String
  | unnamed => ""
  | atEnd => " at end"
  | atLexeme lexeme => " at '" ++ lexeme ++ "'"

end Place

structure Diagnostic where
  line : Int
  place : Place
  problem : Problem
  deriving DecidableEq, Repr

namespace Diagnostic

def atToken (token : Token) (problem : Problem) : Diagnostic :=
  ⟨token.line, if token.kind = .eof then .atEnd else .atLexeme token.lexeme, problem⟩

def text (diagnostic : Diagnostic) : String :=
  "[line " ++ toString diagnostic.line ++ "] Error" ++ diagnostic.place.text ++ ": " ++
    diagnostic.problem.message

end Diagnostic

end Lox
