import Lox.Failure
import Lox.Json.Display
import Lox.Number.Binary64

/-!
Trees as data.  A node is an object with its kind under `type` and its children
under their names; a token is marked by `__type__`.  Loading takes absent children
as nil, ignores fields it does not know, and reads every number outside tokens as
a double; what a token holds is kept as it stands.
-/

namespace Lox

inductive LoadError where
  | notObject
  | notProgram
  | unknownNode (kind : Json)
  | unknownKind (kind : Json)
  | notAName
  | missingKey (key : String)
  | notSequence
  | hugeInteger

namespace LoadError

def message : LoadError → Text
  | notObject => "the top level is not an object"
  | notProgram => "AST file does not hold a Program"
  | unknownNode kind => "Unknown AST node type: " ++ kind.display
  | unknownKind kind => kind.listing
  | notAName => "a kind is neither a name nor a number"
  | missingKey key => Text.quoted key
  | notSequence => "the body is not a sequence"
  | hugeInteger => "an integer is too large for a number"

end LoadError

def SavedToken.toJson (token : SavedToken) : Json :=
  .object
    [("__type__", .string "Token"), ("kind", .string token.kind.name), ("lexeme", token.lexeme),
     ("line", token.line), ("literal", token.literal)]

def Json.require (key : String) (fields : List (Text × Json)) : Except LoadError Json :=
  match field? key fields with
  | some value => .ok value
  | none => .error (.missingKey key)

def SavedToken.ofFields (fields : List (Text × Json)) : Except LoadError SavedToken := do
  let kind ←
    match ← Json.require "kind" fields with
    | .string name =>
        match name.string?.bind Kind.ofName? with
        | some kind => .ok kind
        | none => .error (.unknownKind (.string name))
    | .list _ | .object _ => .error .notAName
    | other => .error (.unknownKind other)
  let lexeme ← Json.require "lexeme" fields
  let line ← Json.require "line" fields
  .ok ⟨kind, lexeme, line, (Json.field? "literal" fields).getD .null⟩

namespace Tree

def nodeObject (kind : NodeKind) (children : List (Text × Json)) : Json :=
  .object (("type", .string kind.name) :: children)

mutual

def toJson : Tree → Json
  | nil => .null
  | bool value => .bool value
  | number value => .float value
  | text value => .string value
  | list items => .list (toJsonList items)
  | token saved => saved.toJson
  | literal value => nodeObject .literal [("value", toJson value)]
  | grouping inner => nodeObject .grouping [("expression", toJson inner)]
  | unary operator operand =>
      nodeObject .unary [("operator", toJson operator), ("operand", toJson operand)]
  | binary left operator right =>
      nodeObject .binary
        [("left", toJson left), ("operator", toJson operator), ("right", toJson right)]
  | logical left operator right =>
      nodeObject .logical
        [("left", toJson left), ("operator", toJson operator), ("right", toJson right)]
  | ident name => nodeObject .ident [("name", toJson name)]
  | assign name value => nodeObject .assign [("name", toJson name), ("value", toJson value)]
  | call callee paren arguments =>
      nodeObject .call
        [("callee", toJson callee), ("paren", toJson paren), ("arguments", toJson arguments)]
  | member target name => nodeObject .member [("target", toJson target), ("name", toJson name)]
  | setMember target name value =>
      nodeObject .setMember
        [("target", toJson target), ("name", toJson name), ("value", toJson value)]
  | this keyword => nodeObject .this [("keyword", toJson keyword)]
  | super keyword method =>
      nodeObject .super [("keyword", toJson keyword), ("method", toJson method)]
  | expr value => nodeObject .expr [("expression", toJson value)]
  | print value => nodeObject .print [("expression", toJson value)]
  | var name initial => nodeObject .var [("name", toJson name), ("initializer", toJson initial)]
  | block statements => nodeObject .block [("statements", toJson statements)]
  | ifThen condition thenBranch elseBranch =>
      nodeObject .ifThen
        [("condition", toJson condition), ("then_branch", toJson thenBranch),
         ("else_branch", toJson elseBranch)]
  | whileLoop condition body =>
      nodeObject .whileLoop [("condition", toJson condition), ("body", toJson body)]
  | function name params body =>
      nodeObject .function
        [("name", toJson name), ("params", toJson params), ("body", toJson body)]
  | returnStmt keyword value =>
      nodeObject .returnStmt [("keyword", toJson keyword), ("value", toJson value)]
  | classDecl name superclass methods =>
      nodeObject .classDecl
        [("name", toJson name), ("superclass", toJson superclass), ("methods", toJson methods)]

def toJsonList : List Tree → List Json
  | [] => []
  | first :: rest => toJson first :: toJsonList rest

end

def ofChildren (kind : NodeKind) (child : String → Except LoadError Tree) :
    Except LoadError Tree :=
  match kind with
  | .literal => return literal (← child "value")
  | .grouping => return grouping (← child "expression")
  | .unary => return unary (← child "operator") (← child "operand")
  | .binary => return binary (← child "left") (← child "operator") (← child "right")
  | .logical => return logical (← child "left") (← child "operator") (← child "right")
  | .ident => return ident (← child "name")
  | .assign => return assign (← child "name") (← child "value")
  | .call => return call (← child "callee") (← child "paren") (← child "arguments")
  | .member => return member (← child "target") (← child "name")
  | .setMember => return setMember (← child "target") (← child "name") (← child "value")
  | .this => return this (← child "keyword")
  | .super => return super (← child "keyword") (← child "method")
  | .expr => return expr (← child "expression")
  | .print => return print (← child "expression")
  | .var => return var (← child "name") (← child "initializer")
  | .block => return block (← child "statements")
  | .ifThen =>
      return ifThen (← child "condition") (← child "then_branch") (← child "else_branch")
  | .whileLoop => return whileLoop (← child "condition") (← child "body")
  | .function => return function (← child "name") (← child "params") (← child "body")
  | .returnStmt => return returnStmt (← child "keyword") (← child "value")
  | .classDecl => return classDecl (← child "name") (← child "superclass") (← child "methods")

def isText (expected : String) : Option Json → Bool
  | some (.string value) => value = Text.ofString expected
  | _ => false

def ofFields (fields : List (Text × Json)) (loaded : List (Text × Except LoadError Tree)) :
    Except LoadError Tree :=
  if isText "Token" (Json.field? "__type__" fields) then token <$> SavedToken.ofFields fields
  else
      match Json.field? "type" fields with
      | some (.string name) =>
          match name.string?.bind NodeKind.ofName? with
          | some kind =>
              ofChildren kind fun key => (loaded.lookup (Text.ofString key)).getD (.ok nil)
          | none => .error (.unknownNode (.string name))
      | some (.list _) | some (.object _) => .error .notAName
      | some other => .error (.unknownNode other)
      | none => .error (.unknownNode .null)

def ofInt (value : Int) : Except LoadError Tree :=
  let word := Binary64.nearest value.natAbs 1
  if word = Binary64.infinity then .error .hugeInteger
  else .ok (number (Binary64.toFloat (value < 0) word))

mutual

def ofJson : Json → Except LoadError Tree
  | .null => .ok nil
  | .bool value => .ok (bool value)
  | .int value => ofInt value
  | .float value => .ok (number value)
  | .string value => .ok (text value)
  | .list items => list <$> ofJsonList items
  | .object fields => ofFields fields (ofJsonFields fields)

def ofJsonList : List Json → Except LoadError (List Tree)
  | [] => .ok []
  | first :: rest => return (← ofJson first) :: (← ofJsonList rest)

def ofJsonFields : List (Text × Json) → List (Text × Except LoadError Tree)
  | [] => []
  | (key, value) :: rest => (key, ofJson value) :: ofJsonFields rest

end

mutual

def ofPlain : Json → Except Fault Tree
  | .null => .ok nil
  | .bool value => .ok (bool value)
  | .float value => .ok (number value)
  | .string value => .ok (text value)
  | .list items => list <$> ofPlainList items
  | .int _ => .error (.notSavable .int)
  | .object _ => .error (.notSavable .object)

def ofPlainList : List Json → Except Fault (List Tree)
  | [] => .ok []
  | first :: rest => return (← ofPlain first) :: (← ofPlainList rest)

end

def programToJson (statements : List Tree) : Json :=
  .object [("type", .string "Program"), ("body", .list (toJsonList statements))]

/-- Loads a program.  A text in place of the statements counts as its characters,
an object as its keys. -/
def programOfJson : Json → Except LoadError (List Tree)
  | .object fields =>
      if isText "Program" (Json.field? "type" fields) then do
        match ← Json.require "body" fields with
        | .list items => ofJsonList items
        | .string value => .ok (value.pieces.map text)
        | .object members => .ok (members.map fun (key, _) => text key)
        | _ => .error .notSequence
      else .error .notProgram
  | _ => .error .notObject

end Tree

end Lox
