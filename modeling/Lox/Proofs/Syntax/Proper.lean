import Lox.Proofs.Syntax.MadeOf

/-!
Whatever the parser builds, also next to problems, only puts operators where they
belong.
-/

namespace Lox

inductive Expr.Proper : Expr → Prop
  | literal (value : Literal) : Proper (.literal value)
  | grouping {inner : Expr} : Proper inner → Proper (.grouping inner)
  | unary {operator : Token} {operand : Expr} :
      operator.kind ∈ [.bang, .minus] → Proper operand → Proper (.unary operator operand)
  | binary {left right : Expr} {operator : Token} :
      Proper left →
      operator.kind ∈ [.bangEqual, .equalEqual, .greater, .greaterEqual, .less, .lessEqual,
        .minus, .plus, .slash, .star] →
      Proper right → Proper (.binary left operator right)
  | logical {left right : Expr} (operator : Token) :
      Proper left → Proper right → Proper (.logical left operator right)
  | ident (name : Token) : Proper (.ident name)
  | assign (name : Token) {value : Expr} : Proper value → Proper (.assign name value)
  | call {callee : Expr} (paren : Token) {arguments : List Expr} :
      Proper callee → (∀ argument ∈ arguments, Proper argument) →
      Proper (.call callee paren arguments)
  | member {target : Expr} (name : Token) : Proper target → Proper (.member target name)
  | setMember {target value : Expr} (name : Token) :
      Proper target → Proper value → Proper (.setMember target name value)
  | this (keyword : Token) : Proper (.this keyword)
  | super (keyword method : Token) : Proper (.super keyword method)

inductive Stmt.Proper : Stmt → Prop
  | expr {value : Expr} : value.Proper → Proper (.expr value)
  | print {value : Expr} : value.Proper → Proper (.print value)
  | var (name : Token) {initial : Option Expr} :
      (∀ value ∈ initial, value.Proper) → Proper (.var name initial)
  | block {body : List Stmt} : (∀ statement ∈ body, Proper statement) → Proper (.block body)
  | ifThen {condition : Expr} {thenBranch : Stmt} :
      condition.Proper → Proper thenBranch → Proper (.ifThen condition thenBranch)
  | ifElse {condition : Expr} {thenBranch elseBranch : Stmt} :
      condition.Proper → Proper thenBranch → Proper elseBranch →
      Proper (.ifElse condition thenBranch elseBranch)
  | whileLoop {condition : Expr} {body : Stmt} :
      condition.Proper → Proper body → Proper (.whileLoop condition body)
  | function (name : Token) (params : List Token) {body : List Stmt} :
      (∀ statement ∈ body, Proper statement) → Proper (.function (.mk name params body))
  | returnStmt (keyword : Token) {value : Option Expr} :
      (∀ result ∈ value, result.Proper) → Proper (.returnStmt keyword value)
  | classDecl (name : Token) (superclass : Option Token) {methods : List Function} :
      (∀ method ∈ methods, Proper (.function method)) →
      Proper (.classDecl name superclass methods)

theorem Expr.MadeOf.proper {fit : Token → Prop} {expr : Expr} (made : expr.MadeOf fit) :
    expr.Proper := by
  induction made with
  | literal => exact .literal _
  | grouping _ ih => exact .grouping ih
  | unary fits _ ih => exact .unary fits.2 ih
  | binary _ fits _ left right => exact .binary left fits.2 right
  | logical _ _ _ left right => exact .logical _ left right
  | ident => exact .ident _
  | assign _ _ ih => exact .assign _ ih
  | call _ _ _ callee arguments => exact .call _ callee arguments
  | member _ _ ih => exact .member _ ih
  | setMember _ _ _ target value => exact .setMember _ target value
  | this => exact .this _
  | super => exact .super _ _

theorem Stmt.MadeOf.proper {fit : Token → Prop} {statement : Stmt}
    (made : statement.MadeOf fit) : statement.Proper := by
  induction made with
  | expr value => exact .expr value.proper
  | print value => exact .print value.proper
  | var _ initial => exact .var _ fun value found => (initial value found).proper
  | block _ body => exact .block body
  | ifThen condition _ ih => exact .ifThen condition.proper ih
  | ifElse condition _ _ thenIh elseIh => exact .ifElse condition.proper thenIh elseIh
  | whileLoop condition _ ih => exact .whileLoop condition.proper ih
  | function _ _ _ body => exact .function _ _ body
  | returnStmt _ value => exact .returnStmt _ fun result found => (value result found).proper
  | classDecl _ _ _ methods => exact .classDecl _ _ methods

/-- Every statement of a program is proper, also where there are problems in others. -/
theorem Program.ofSource_proper (source : String) :
    ∀ statement ∈ (Program.ofSource source).statements, statement.Proper := by
  have made := @Program.ofSource_made (fun _ => True) source fun _ _ => trivial
  exact fun statement member => (made statement member).proper

end Lox
