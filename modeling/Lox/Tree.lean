import Lox.Json
import Lox.Token

/-!
Program trees as saved files hold them.  A file is loaded without checking what
stands where, so any part of a tree may hold any other: a child that does not fit
is found only when the program gets to it.
-/

namespace Lox

structure SavedToken where
  kind : Kind
  lexeme : Json
  line : Json
  literal : Json

inductive NodeKind where
  | literal | grouping | unary | binary | logical | ident | assign | call | member | setMember
  | this | super
  | expr | print | var | block | ifThen | whileLoop | function | returnStmt | classDecl
  deriving DecidableEq, Repr

namespace NodeKind

def table : List (NodeKind × String) :=
  [(literal, "Literal"), (grouping, "Grouping"), (unary, "UnaryOp"), (binary, "BinaryOp"),
   (logical, "Logical"), (ident, "Ident"), (assign, "Assign"), (call, "Call"),
   (member, "Member"), (setMember, "SetMember"), (this, "This"), (super, "Super"),
   (expr, "ExprStmt"), (print, "PrintStmt"), (var, "VarDecl"), (block, "Block"),
   (ifThen, "IfStmt"), (whileLoop, "WhileStmt"), (function, "FuncDecl"),
   (returnStmt, "ReturnStmt"), (classDecl, "ClassDecl")]

def name (kind : NodeKind) : String :=
  (table.lookup kind).getD ""

def ofName? (name : String) : Option NodeKind :=
  (table.find? (·.2 == name)).map (·.1)

end NodeKind

inductive Tree where
  | nil
  | bool (value : Bool)
  | number (value : Float)
  | text (value : Text)
  | list (items : List Tree)
  | token (token : SavedToken)
  | literal (value : Tree)
  | grouping (inner : Tree)
  | unary (operator operand : Tree)
  | binary (left operator right : Tree)
  | logical (left operator right : Tree)
  | ident (name : Tree)
  | assign (name value : Tree)
  | call (callee paren arguments : Tree)
  | member (target name : Tree)
  | setMember (target name value : Tree)
  | this (keyword : Tree)
  | super (keyword method : Tree)
  | expr (value : Tree)
  | print (value : Tree)
  | var (name initial : Tree)
  | block (statements : Tree)
  | ifThen (condition thenBranch elseBranch : Tree)
  | whileLoop (condition body : Tree)
  | function (name params body : Tree)
  | returnStmt (keyword value : Tree)
  | classDecl (name superclass methods : Tree)
  deriving Inhabited

inductive Shape where
  | nil | bool | int | float | text | list | object | sequence | token
  | node (kind : NodeKind)
  deriving DecidableEq, Repr

namespace Shape

def name : Shape → String
  | nil => "NoneType"
  | bool => "bool"
  | int => "int"
  | float => "float"
  | text => "str"
  | list => "list"
  | object => "dict"
  | sequence => "tuple"
  | token => "Token"
  | node kind => kind.name

end Shape

def Json.shape : Json → Shape
  | null => .nil
  | bool _ => .bool
  | int _ => .int
  | float _ => .float
  | string _ => .text
  | list _ => .list
  | object _ => .object

namespace Tree

def shape : Tree → Shape
  | nil => .nil
  | bool _ => .bool
  | number _ => .float
  | text _ => .text
  | list _ => .sequence
  | token _ => .token
  | literal .. => .node .literal
  | grouping .. => .node .grouping
  | unary .. => .node .unary
  | binary .. => .node .binary
  | logical .. => .node .logical
  | ident .. => .node .ident
  | assign .. => .node .assign
  | call .. => .node .call
  | member .. => .node .member
  | setMember .. => .node .setMember
  | this .. => .node .this
  | super .. => .node .super
  | expr .. => .node .expr
  | print .. => .node .print
  | var .. => .node .var
  | block .. => .node .block
  | ifThen .. => .node .ifThen
  | whileLoop .. => .node .whileLoop
  | function .. => .node .function
  | returnStmt .. => .node .returnStmt
  | classDecl .. => .node .classDecl

/-- The elements of what can be gone through one by one: a list, or a text by its
characters. -/
def elements? : Tree → Option (List Tree)
  | list items => some items
  | text value => some (value.pieces.map text)
  | _ => none

def isNil : Tree → Bool
  | nil => true
  | _ => false

end Tree

end Lox
