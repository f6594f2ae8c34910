import Lox.Syntax
import Lox.Tree

/-!
The tree of a parsed program: what a saved file of it holds.
-/

namespace Lox

def Literal.toJson : Literal → Json
  | .nil => .null
  | .bool value => .bool value
  | .number value => .float value
  | .text value => .string value

def Literal.toTree : Literal → Tree
  | .nil => .nil
  | .bool value => .bool value
  | .number value => .number value
  | .text value => .text value

def Token.saved (token : Token) : SavedToken :=
  ⟨token.kind, .string token.lexeme, .int token.line, token.literal.toJson⟩

def Token.toTree (token : Token) : Tree :=
  .token token.saved

namespace Expr

mutual

def toTree : Expr → Tree
  | literal value => .literal value.toTree
  | grouping inner => .grouping (toTree inner)
  | unary operator operand => .unary operator.toTree (toTree operand)
  | binary left operator right => .binary (toTree left) operator.toTree (toTree right)
  | logical left operator right => .logical (toTree left) operator.toTree (toTree right)
  | ident name => .ident name.toTree
  | assign name value => .assign name.toTree (toTree value)
  | call callee paren arguments => .call (toTree callee) paren.toTree (.list (toTrees arguments))
  | member target name => .member (toTree target) name.toTree
  | setMember target name value => .setMember (toTree target) name.toTree (toTree value)
  | this keyword => .this keyword.toTree
  | super keyword method => .super keyword.toTree method.toTree

def toTrees : List Expr → List Tree
  | [] => []
  | first :: rest => toTree first :: toTrees rest

end

def optionTree : Option Expr → Tree
  | some expr => expr.toTree
  | none => .nil

end Expr

mutual

def Stmt.toTree : Stmt → Tree
  | .expr value => .expr value.toTree
  | .print value => .print value.toTree
  | .var name initial => .var name.toTree (Expr.optionTree initial)
  | .block body => .block (.list (Stmt.toTrees body))
  | .ifThen condition thenBranch => .ifThen condition.toTree thenBranch.toTree .nil
  | .ifElse condition thenBranch elseBranch =>
      .ifThen condition.toTree thenBranch.toTree elseBranch.toTree
  | .whileLoop condition body => .whileLoop condition.toTree body.toTree
  | .function declaration => declaration.toTree
  | .returnStmt keyword value => .returnStmt keyword.toTree (Expr.optionTree value)
  | .classDecl name superclass methods =>
      .classDecl name.toTree
        (match superclass with
        | some superclass => .ident superclass.toTree
        | none => .nil)
        (.list (Function.toTrees methods))

def Stmt.toTrees : List Stmt → List Tree
  | [] => []
  | first :: rest => first.toTree :: Stmt.toTrees rest

def Function.toTree : Function → Tree
  | .mk name params body =>
      .function name.toTree (.list (params.map Token.toTree)) (.list (Stmt.toTrees body))

def Function.toTrees : List Function → List Tree
  | [] => []
  | first :: rest => first.toTree :: Function.toTrees rest

end

theorem Expr.toTrees_eq_map (exprs : List Expr) : Expr.toTrees exprs = exprs.map Expr.toTree := by
  induction exprs with
  | nil => rfl
  | cons first rest ih => rw [Expr.toTrees, ih, List.map_cons]

theorem Stmt.toTrees_eq_map (statements : List Stmt) :
    Stmt.toTrees statements = statements.map Stmt.toTree := by
  induction statements with
  | nil => rfl
  | cons first rest ih => rw [Stmt.toTrees, ih, List.map_cons]

end Lox
