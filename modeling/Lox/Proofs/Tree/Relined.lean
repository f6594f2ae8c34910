import Lox.Proofs.Operator
import Lox.Proofs.Run.Steps
import Lox.Proofs.Syntax.Relined

/-!
Trees and values on other lines.  Nothing that a program can find out about a value
depends on lines; an operator that fails reports the line of its token.
-/

namespace Lox

section Trees

variable (relabel : Int → Int)

def Json.relined : Json → Json
  | int line => int (relabel line)
  | other => other

def SavedToken.relined (token : SavedToken) : SavedToken :=
  { token with line := token.line.relined relabel }

namespace Tree

mutual

def relined : Tree → Tree
  | list items => list (relinedAll items)
  | token saved => token (saved.relined relabel)
  | grouping inner => grouping (relined inner)
  | unary operator operand => unary (relined operator) (relined operand)
  | binary left operator right => binary (relined left) (relined operator) (relined right)
  | logical left operator right => logical (relined left) (relined operator) (relined right)
  | ident name => ident (relined name)
  | assign name value => assign (relined name) (relined value)
  | call callee paren arguments => call (relined callee) (relined paren) (relined arguments)
  | member target name => member (relined target) (relined name)
  | setMember target name value => setMember (relined target) (relined name) (relined value)
  | this keyword => this (relined keyword)
  | super keyword method => super (relined keyword) (relined method)
  | expr value => expr (relined value)
  | print value => print (relined value)
  | var name initial => var (relined name) (relined initial)
  | block statements => block (relined statements)
  | ifThen condition thenBranch elseBranch =>
      ifThen (relined condition) (relined thenBranch) (relined elseBranch)
  | whileLoop condition body => whileLoop (relined condition) (relined body)
  | function name params body => function (relined name) (relined params) (relined body)
  | returnStmt keyword value => returnStmt (relined keyword) (relined value)
  | classDecl name superclass methods =>
      classDecl (relined name) (relined superclass) (relined methods)
  | literal value => literal value
  | nil => nil
  | bool value => bool value
  | number value => number value
  | text value => text value

def relinedAll : List Tree → List Tree
  | [] => []
  | first :: rest => relined first :: relinedAll rest

end

theorem relinedAll_eq_map (trees : List Tree) :
    relinedAll relabel trees = trees.map (relined relabel) := by
  induction trees with
  | nil => rfl
  | cons first rest ih => rw [relinedAll, ih, List.map_cons]

mutual

theorem relined_relined (other : Int → Int) (tree : Tree) :
    (tree.relined relabel).relined other = tree.relined (other ∘ relabel) := by
  cases tree with
  | list items => simp only [relined, relinedAll_relinedAll other items]
  | token saved =>
      obtain ⟨kind, lexeme, line, literal⟩ := saved
      cases line <;> rfl
  | grouping part | ident part | this part | expr part | print part | block part =>
      simp only [relined, relined_relined other part]
  | unary first second | assign first second | member first second | super first second
  | var first second | whileLoop first second | returnStmt first second =>
      simp only [relined, relined_relined other first, relined_relined other second]
  | binary first second third | logical first second third | call first second third
  | setMember first second third | ifThen first second third | function first second third
  | classDecl first second third =>
      simp only [relined, relined_relined other first, relined_relined other second,
        relined_relined other third]
  | literal | nil | bool | number | text => rfl

theorem relinedAll_relinedAll (other : Int → Int) (trees : List Tree) :
    relinedAll other (relinedAll relabel trees) = relinedAll (other ∘ relabel) trees := by
  cases trees with
  | nil => rfl
  | cons first rest =>
      simp only [relinedAll, relined_relined other first, relinedAll_relinedAll other rest]

end

@[simp] theorem shape_relined (tree : Tree) : (tree.relined relabel).shape = tree.shape := by
  cases tree <;> rfl

@[simp] theorem isNil_relined (tree : Tree) : (tree.relined relabel).isNil = tree.isNil := by
  cases tree <;> rfl

@[simp] theorem elements?_relined (tree : Tree) :
    (tree.relined relabel).elements? = tree.elements?.map (List.map (relined relabel)) := by
  cases tree with
  | list items => exact congrArg some (relinedAll_eq_map relabel items)
  | text value =>
      simp only [relined, elements?, Option.map_some, List.map_map]
      rfl
  | _ => rfl

end Tree

theorem Token.toTree_relined (token : Token) :
    (token.relined relabel).toTree = token.toTree.relined relabel := rfl

namespace Expr

mutual

theorem toTree_relined (expr : Expr) :
    (expr.relined relabel).toTree = expr.toTree.relined relabel := by
  cases expr with
  | grouping inner => simp only [relined, toTree, Tree.relined, toTree_relined inner]
  | unary operator operand =>
      simp only [relined, toTree, Tree.relined, toTree_relined operand, Token.toTree_relined]
  | binary left operator right | logical left operator right =>
      simp only [relined, toTree, Tree.relined, toTree_relined left, toTree_relined right,
        Token.toTree_relined]
  | assign name value =>
      simp only [relined, toTree, Tree.relined, toTree_relined value, Token.toTree_relined]
  | call callee paren arguments =>
      simp only [relined, toTree, Tree.relined, toTree_relined callee, toTrees_relined arguments,
        Token.toTree_relined]
  | member target name =>
      simp only [relined, toTree, Tree.relined, toTree_relined target, Token.toTree_relined]
  | setMember target name value =>
      simp only [relined, toTree, Tree.relined, toTree_relined target, toTree_relined value,
        Token.toTree_relined]
  | literal | ident | this | super => rfl

theorem toTrees_relined (exprs : List Expr) :
    toTrees (relinedAll relabel exprs) = Tree.relinedAll relabel (toTrees exprs) := by
  cases exprs with
  | nil => rfl
  | cons first rest =>
      simp only [relinedAll, toTrees, Tree.relinedAll, toTree_relined first, toTrees_relined rest]

end

theorem optionTree_relined (value : Option Expr) :
    optionTree (value.map (relined relabel)) = (optionTree value).relined relabel := by
  cases value with
  | none => rfl
  | some value => exact toTree_relined relabel value

end Expr

mutual

theorem Stmt.toTree_relined (statement : Stmt) :
    (statement.relined relabel).toTree = statement.toTree.relined relabel := by
  cases statement with
  | expr value | print value =>
      simp only [Stmt.relined, Stmt.toTree, Tree.relined, Expr.toTree_relined]
  | var name initial | returnStmt name initial =>
      simp only [Stmt.relined, Stmt.toTree, Tree.relined, Expr.optionTree_relined,
        Token.toTree_relined]
  | block body =>
      simp only [Stmt.relined, Stmt.toTree, Tree.relined, Stmt.toTrees_relined body]
  | ifThen condition thenBranch =>
      simp only [Stmt.relined, Stmt.toTree, Tree.relined, Expr.toTree_relined,
        Stmt.toTree_relined thenBranch]
  | ifElse condition thenBranch elseBranch =>
      simp only [Stmt.relined, Stmt.toTree, Tree.relined, Expr.toTree_relined,
        Stmt.toTree_relined thenBranch, Stmt.toTree_relined elseBranch]
  | whileLoop condition body =>
      simp only [Stmt.relined, Stmt.toTree, Tree.relined, Expr.toTree_relined,
        Stmt.toTree_relined body]
  | function declaration =>
      simp only [Stmt.relined, Stmt.toTree, Function.toTree_relined declaration]
  | classDecl name superclass methods =>
      simp only [Stmt.relined, Stmt.toTree, Tree.relined, Function.toTrees_relined methods,
        Token.toTree_relined]
      cases superclass <;> rfl

theorem Stmt.toTrees_relined (statements : List Stmt) :
    Stmt.toTrees (Stmt.relinedAll relabel statements) =
      Tree.relinedAll relabel (Stmt.toTrees statements) := by
  cases statements with
  | nil => rfl
  | cons first rest =>
      simp only [Stmt.relinedAll, Stmt.toTrees, Tree.relinedAll, Stmt.toTree_relined first,
        Stmt.toTrees_relined rest]

theorem Function.toTree_relined (function : Function) :
    (function.relined relabel).toTree = function.toTree.relined relabel := by
  cases function with
  | mk name params body =>
      simp only [Function.relined, Function.toTree, Tree.relined, Stmt.toTrees_relined body,
        Token.toTree_relined, Tree.relinedAll_eq_map, List.map_map]
      rfl

theorem Function.toTrees_relined (functions : List Function) :
    Function.toTrees (Function.relinedAll relabel functions) =
      Tree.relinedAll relabel (Function.toTrees functions) := by
  cases functions with
  | nil => rfl
  | cons first rest =>
      simp only [Function.relinedAll, Function.toTrees, Tree.relinedAll,
        Function.toTree_relined first, Function.toTrees_relined rest]

end

def Value.relined : Value → Value
  | function closure => function { closure with
      params := closure.params.relined relabel, body := closure.body.relined relabel }
  | other => other

def RuntimeError.relined (error : RuntimeError) : RuntimeError :=
  { error with line := error.line.relined relabel }

def Failure.relined : Failure → Failure
  | error raised => error { raised with line := raised.line.relined relabel }
  | fault cause => fault cause

end Trees

def Value.unlined (value : Value) : Value :=
  value.relined fun _ => 0

/-- The second is the first with its lines changed in one of the allowed ways. -/
def Upto {α : Type} (allowed : (Int → Int) → Prop) (relined : (Int → Int) → α → α)
    (first second : α) : Prop :=
  ∃ relabel, allowed relabel ∧ second = relined relabel first

theorem Stmt.forall₂_toTrees_relined {allowed : (Int → Int) → Prop} {relabel : Int → Int}
    (permitted : allowed relabel) (statements : List Stmt) :
    List.Forall₂ (Upto allowed Tree.relined) (toTrees statements)
      (toTrees (statements.map (relined relabel))) := by
  rw [toTrees_eq_map, toTrees_eq_map, List.map_map, List.forall₂_map_left_iff,
    List.forall₂_map_right_iff, List.forall₂_same]
  intro statement _
  exact ⟨relabel, permitted, toTree_relined relabel statement⟩

section Values

variable {allowed : (Int → Int) → Prop}

inductive Value.Moved (allowed : (Int → Int) → Prop) : Value → Value → Prop
  | simple {value : Value} : value.Simple → Moved allowed value value
  | function {closure : Closure} {params body : Tree} :
      Upto allowed Tree.relined closure.params params →
      Upto allowed Tree.relined closure.body body →
      Moved allowed (.function closure) (.function { closure with params, body })

namespace Value.Moved

variable {value value' other other' : Value}

theorem isTruthy (moved : Moved allowed value value') : value.isTruthy = value'.isTruthy := by
  cases moved <;> rfl

theorem display (moved : Moved allowed value value') : value.display = value'.display := by
  cases moved <;> rfl

theorem typeName (moved : Moved allowed value value') : value.typeName = value'.typeName := by
  cases moved <;> rfl

theorem callable? (moved : Moved allowed value value') : value.callable? = value'.callable? := by
  cases moved with
  | simple => rfl
  | function params _ =>
      obtain ⟨relabel, -, rfl⟩ := params
      simp [Value.callable?, Closure.arity?, Function.comp_def]

theorem equal (moved : Moved allowed value value') (otherMoved : Moved allowed other other') :
    value'.equal other' = value.equal other := by
  cases moved with
  | simple simple =>
      cases otherMoved with
      | simple => rfl
      | function => cases value <;> rfl
  | function =>
      cases otherMoved with
      | simple simple =>
          cases other with
          | function closure => exact absurd rfl (simple closure)
          | _ => rfl
      | function => rfl

theorem unlined (moved : Moved allowed value value') : value.unlined = value'.unlined := by
  cases moved with
  | simple => rfl
  | function params body =>
      obtain ⟨relabel, -, rfl⟩ := params
      obtain ⟨other, -, rfl⟩ := body
      simp only [Value.unlined, Value.relined, Tree.relined_relined]
      rfl

end Value.Moved

namespace Operator

variable {operand operand' left left' right right' : Value}

theorem unary_relined (relabel : Int → Int) (operator : SavedToken)
    (moved : Value.Moved allowed operand operand') :
    unary (operator.relined relabel) operand' =
      (unary operator operand).mapError (Failure.relined relabel) := by
  have kind : (operator.relined relabel).kind = operator.kind := rfl
  unfold unary
  rw [kind]
  cases moved with
  | simple => cases operand <;> cases operator.kind <;> rfl
  | function => cases operator.kind <;> rfl

theorem arithmetic_relined (relabel : Int → Int) (operator : SavedToken) (left right : Float) :
    arithmetic (operator.relined relabel) left right =
      (arithmetic operator left right).mapError (Failure.relined relabel) := by
  have kind : (operator.relined relabel).kind = operator.kind := rfl
  unfold arithmetic
  rw [kind, divide_eq]
  cases operator.kind <;> rfl

theorem binary_of_ne {operator : SavedToken} (plus : operator.kind ≠ .plus)
    (equal : operator.kind ≠ .equalEqual) (differ : operator.kind ≠ .bangEqual)
    (left right : Value) :
    binary operator left right =
      match left, right with
      | .number left, .number right => arithmetic operator left right
      | _, _ => .error (operator.error "Operand must be a number.") := by
  unfold binary
  split <;> first | contradiction | rfl

theorem Gives.simple {known : List Kind} {operator : SavedToken} {value : Value}
    (gives : Gives known operator (.ok value)) : value.Simple := by
  cases gives <;> exact nofun

theorem simple_of_unary {operator : SavedToken} {operand value : Value}
    (found : unary operator operand = .ok value) : value.Simple :=
  (found ▸ gives_unary operator operand).simple

theorem simple_of_binary {operator : SavedToken} {left right value : Value}
    (found : binary operator left right = .ok value) : value.Simple :=
  (found ▸ gives_binary operator left right).simple

theorem binary_relined_self (relabel : Int → Int) (operator : SavedToken) (left right : Value) :
    binary (operator.relined relabel) left right =
      (binary operator left right).mapError (Failure.relined relabel) := by
  have kind : (operator.relined relabel).kind = operator.kind := rfl
  by_cases plus : operator.kind = .plus
  · simp only [binary, kind, plus]
    split <;> rfl
  by_cases equal : operator.kind = .equalEqual
  · simp only [binary, kind, equal]
    rfl
  by_cases differ : operator.kind = .bangEqual
  · simp only [binary, kind, differ]
    rfl
  rw [binary_of_ne plus equal differ, @binary_of_ne (operator.relined relabel) plus equal differ]
  split
  · exact arithmetic_relined relabel operator _ _
  · rfl

/-- An operator looks at a function only to compare it. -/
theorem binary_moved_values (operator : SavedToken) (leftMoved : Value.Moved allowed left left')
    (rightMoved : Value.Moved allowed right right') :
    binary operator left' right' = binary operator left right := by
  unfold binary
  rw [leftMoved.equal rightMoved]
  cases leftMoved with
  | simple =>
      cases rightMoved with
      | simple => rfl
      | function => cases left <;> rfl
  | function => rfl

theorem binary_relined (relabel : Int → Int) (operator : SavedToken)
    (leftMoved : Value.Moved allowed left left')
    (rightMoved : Value.Moved allowed right right') :
    binary (operator.relined relabel) left' right' =
      (binary operator left right).mapError (Failure.relined relabel) := by
  rw [binary_moved_values _ leftMoved rightMoved, binary_relined_self]

end Operator

end Values

end Lox
