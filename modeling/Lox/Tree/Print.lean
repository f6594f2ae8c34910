import Lox.Failure
import Lox.Token.Listing

/-!
The bracketed form of a program, one statement to a line: `-1 * (2);` is printed
as `(; (* (- 1) (group 2)))`.  A lexeme that is not a text is refused only when the
form around it is put together, after all parts of that form have been printed.
-/

namespace Lox.Tree

def lexeme : Tree → Except Fault Json
  | token saved => .ok saved.lexeme
  | _ => .error .notToken

def joined (separator : String) (parts : List Json) : Except Fault Text := do
  let texts ← parts.mapM fun
    | .string value => .ok value
    | _ => .error .notText
  return Text.intercalate separator texts

def form (head : Json) (parts : List Json) : Except Fault Json := do
  return .string ("(" ++ (← joined " " (head :: parts)) ++ ")")

def wordForm (head : String) (parts : List Json) : Except Fault Json :=
  form (.string head) parts

def namePart : Json → Except Fault Json
  | .string value => .ok (.string value)
  | other => .error (.notPrintable other.shape)

def checkSequence (tree : Tree) : Except Fault Unit :=
  if tree.elements?.isSome then .ok () else .error .notSequence

def paramPart (params : Tree) : Except Fault Json :=
  match params.elements? with
  | some items => do
      let names ← items.mapM lexeme
      return .string ("(" ++ (← joined " " names) ++ ")")
  | none => .error .notSequence

mutual

def printedPart : Tree → Except Fault Json
  | text value => .ok (.string value)
  | literal (text value) => .ok (.string ("\"" ++ value ++ "\""))
  | literal value => .ok (.string value.valueText)
  | grouping inner => do wordForm "group" [← printedPart inner]
  | unary operator operand => do
      let head ← lexeme operator
      form head [← printedPart operand]
  | binary left operator right => do
      let head ← lexeme operator
      form head [← printedPart left, ← printedPart right]
  | logical left operator right => do
      let head ← lexeme operator
      form head [← printedPart left, ← printedPart right]
  | ident name => lexeme name
  | assign name value => do
      let name ← lexeme name
      wordForm "=" [← namePart name, ← printedPart value]
  | call callee _ arguments => do
      checkSequence arguments
      wordForm "call" ((← printedPart callee) :: (← printedAll arguments))
  | member target name => do
      let name ← lexeme name
      wordForm "." [← printedPart target, ← namePart name]
  | setMember target name value => do
      let name ← lexeme name
      wordForm "=" [← printedPart target, ← namePart name, ← printedPart value]
  | this _ => .ok (.string "this")
  | super _ method => do
      let name ← lexeme method
      wordForm "super" [← namePart name]
  | expr value => do wordForm ";" [← printedPart value]
  | print value => do wordForm "print" [← printedPart value]
  | var name nil => do
      let name ← lexeme name
      wordForm "var" [← namePart name]
  | var name initial => do
      let name ← lexeme name
      wordForm "var" [← namePart name, .string "=", ← printedPart initial]
  | block statements => do wordForm "block" (← printedAll statements)
  | ifThen condition thenBranch nil => do
      wordForm "if" [← printedPart condition, ← printedPart thenBranch]
  | ifThen condition thenBranch elseBranch => do
      wordForm "if-else"
        [← printedPart condition, ← printedPart thenBranch, ← printedPart elseBranch]
  | whileLoop condition body => do
      wordForm "while" [← printedPart condition, ← printedPart body]
  | function name params body => do
      let params ← paramPart params
      let name ← lexeme name
      checkSequence body
      wordForm "fun" ((← namePart name) :: params :: (← printedAll body))
  | returnStmt _ nil => .ok (.string "(return)")
  | returnStmt _ value => do wordForm "return" [← printedPart value]
  | classDecl name nil methods => do
      let name ← lexeme name
      checkSequence methods
      wordForm "class" ((← namePart name) :: (← printedAll methods))
  | classDecl name superclass methods => do
      let name ← lexeme name
      checkSequence methods
      let name ← namePart name
      let superclass ← printedPart superclass
      wordForm "class" (name :: .string "<" :: superclass :: (← printedAll methods))
  | other => .error (.notPrintable other.shape)

def printedAll : Tree → Except Fault (List Json)
  | list items => printedParts items
  | text value => .ok (value.pieces.map .string)
  | _ => .error .notSequence

def printedParts : List Tree → Except Fault (List Json)
  | [] => .ok []
  | first :: rest => return (← printedPart first) :: (← printedParts rest)

end

def printed : Tree → Except Fault Json
  | text _ => .error (.notPrintable .text)
  | other => printedPart other

def printedProgram (statements : List Tree) : Except Fault Text := do
  joined "\n" (← statements.mapM printed)

end Lox.Tree
