import Lox.Token

/-!
Programs as the parser builds them.  Each node keeps the tokens that run-time
errors point at.  There is no `for` statement: the parser spells it with `while`.
-/

namespace Lox

inductive Expr where
  | literal (value : Literal)
  | grouping (inner : Expr)
  | unary (operator : Token) (operand : Expr)
  | binary (left : Expr) (operator : Token) (right : Expr)
  | logical (left : Expr) (operator : Token) (right : Expr)
  | ident (name : Token)
  | assign (name : Token) (value : Expr)
  | call (callee : Expr) (paren : Token) (arguments : List Expr)
  | member (target : Expr) (name : Token)
  | setMember (target : Expr) (name : Token) (value : Expr)
  | this (keyword : Token)
  | super (keyword : Token) (method : Token)

mutual

inductive Stmt where
  | expr (value : Expr)
  | print (value : Expr)
  | var (name : Token) (initial : Option Expr)
  | block (body : List Stmt)
  | ifThen (condition : Expr) (thenBranch : Stmt)
  | ifElse (condition : Expr) (thenBranch elseBranch : Stmt)
  | whileLoop (condition : Expr) (body : Stmt)
  | function (declaration : Function)
  | returnStmt (keyword : Token) (value : Option Expr)
  | classDecl (name : Token) (superclass : Option Token) (methods : List Function)

inductive Function where
  | mk (name : Token) (params : List Token) (body : List Stmt)

end

/-- The statement a `for` loop stands for: its parts that are absent leave no trace,
but a missing condition is true. -/
def Stmt.forLoop (initial : Option Stmt) (condition increment : Option Expr) (body : Stmt) :
    Stmt :=
  let body :=
    match increment with
    | some increment => .block [body, .expr increment]
    | none => body
  let loop := .whileLoop (condition.getD (.literal (.bool true))) body
  match initial with
  | some initial => .block [initial, loop]
  | none => loop

end Lox
