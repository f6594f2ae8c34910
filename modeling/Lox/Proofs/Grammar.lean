import Lox.Syntax

/-!
The grammar of programs: which tokens derive which trees.  Binary operators group to
the left and assignments to the right, and an `else` belongs to the nearest `if` that
is still open.
-/

namespace Lox.Grammar

inductive Grade where
  | assignment | logicOr | logicAnd | equality | comparison | term | factor | unary | call
  | primary

namespace Grade

def operand? : Grade → Option Grade
  | logicOr => some logicAnd
  | logicAnd => some equality
  | equality => some comparison
  | comparison => some term
  | term => some factor
  | factor => some unary
  | _ => none

def operators : Grade → List Kind
  | logicOr => [.orWord]
  | logicAnd => [.andWord]
  | equality => [.bangEqual, .equalEqual]
  | comparison => [.greater, .greaterEqual, .less, .lessEqual]
  | term => [.minus, .plus]
  | factor => [.slash, .star]
  | _ => []

def node : Grade → Expr → Token → Expr → Expr
  | logicOr | logicAnd => .logical
  | _ => .binary

end Grade

abbrev Parts (α : Type) :=
  List (List Token × α)

namespace Parts

variable {α : Type}

def tokens (parts : Parts α) : List Token :=
  parts.flatMap Prod.fst

def trees (parts : Parts α) : List α :=
  parts.map Prod.snd

end Parts

inductive Separated : List (List Token) → List Token → Prop
  | none : Separated [] []
  | one (part : List Token) : Separated [part] part
  | more {part next : List Token} {comma : Token} {parts : List (List Token)}
      {tokens : List Token} :
      comma.kind = .comma → Separated (next :: parts) tokens →
      Separated (part :: next :: parts) (part ++ comma :: tokens)

inductive Expression : Grade → List Token → Expr → Prop
  | assign {name equals : Token} {tokens : List Token} {value : Expr} :
      name.kind = .identifier → equals.kind = .equal →
      Expression .assignment tokens value →
      Expression .assignment (name :: equals :: tokens) (.assign name value)
  | setMember {object tokens : List Token} {dot name equals : Token} {target value : Expr} :
      Expression .call object target → dot.kind = .dot → name.kind = .identifier →
      equals.kind = .equal → Expression .assignment tokens value →
      Expression .assignment (object ++ dot :: name :: equals :: tokens)
        (.setMember target name value)
  | logicOr {tokens : List Token} {tree : Expr} :
      Expression .logicOr tokens tree → Expression .assignment tokens tree
  | operand {grade tighter : Grade} {tokens : List Token} {tree : Expr} :
      grade.operand? = some tighter → Expression tighter tokens tree →
      Expression grade tokens tree
  | operator {grade tighter : Grade} {left right : List Token} {operator : Token}
      {leftTree rightTree : Expr} :
      grade.operand? = some tighter → Expression grade left leftTree →
      operator.kind ∈ grade.operators → Expression tighter right rightTree →
      Expression grade (left ++ operator :: right) (grade.node leftTree operator rightTree)
  | unary {operator : Token} {tokens : List Token} {operand : Expr} :
      operator.kind ∈ [.bang, .minus] → Expression .unary tokens operand →
      Expression .unary (operator :: tokens) (.unary operator operand)
  | call {tokens : List Token} {tree : Expr} :
      Expression .call tokens tree → Expression .unary tokens tree
  | primary {tokens : List Token} {tree : Expr} :
      Expression .primary tokens tree → Expression .call tokens tree
  | invocation {callee tokens : List Token} {opening closing : Token} {tree : Expr}
      {arguments : Parts Expr} :
      Expression .call callee tree → opening.kind = .leftParen →
      (∀ argument ∈ arguments, Expression .assignment argument.1 argument.2) →
      Separated (arguments.map Prod.fst) tokens → arguments.length ≤ 255 →
      closing.kind = .rightParen →
      Expression .call (callee ++ opening :: tokens ++ [closing])
        (.call tree closing arguments.trees)
  | member {object : List Token} {dot name : Token} {target : Expr} :
      Expression .call object target → dot.kind = .dot → name.kind = .identifier →
      Expression .call (object ++ [dot, name]) (.member target name)
  | trueWord {word : Token} :
      word.kind = .trueWord → Expression .primary [word] (.literal (.bool true))
  | falseWord {word : Token} :
      word.kind = .falseWord → Expression .primary [word] (.literal (.bool false))
  | nilWord {word : Token} :
      word.kind = .nilWord → Expression .primary [word] (.literal .nil)
  | number {word : Token} :
      word.kind = .number → Expression .primary [word] (.literal word.literal)
  | string {word : Token} :
      word.kind = .string → Expression .primary [word] (.literal word.literal)
  | this {keyword : Token} :
      keyword.kind = .thisWord → Expression .primary [keyword] (.this keyword)
  | ident {name : Token} :
      name.kind = .identifier → Expression .primary [name] (.ident name)
  | grouping {opening closing : Token} {tokens : List Token} {inner : Expr} :
      opening.kind = .leftParen → Expression .assignment tokens inner →
      closing.kind = .rightParen →
      Expression .primary (opening :: tokens ++ [closing]) (.grouping inner)
  | super {keyword dot method : Token} :
      keyword.kind = .superWord → dot.kind = .dot → method.kind = .identifier →
      Expression .primary [keyword, dot, method] (.super keyword method)

inductive Optional : List Token → Option Expr → Prop
  | absent : Optional [] none
  | present {tokens : List Token} {value : Expr} :
      Expression .assignment tokens value → Optional tokens (some value)

inductive Variable : List Token → Stmt → Prop
  | plain {keyword name semicolon : Token} :
      keyword.kind = .varWord → name.kind = .identifier → semicolon.kind = .semicolon →
      Variable [keyword, name, semicolon] (.var name none)
  | initialized {keyword name equals semicolon : Token} {tokens : List Token} {value : Expr} :
      keyword.kind = .varWord → name.kind = .identifier → equals.kind = .equal →
      Expression .assignment tokens value → semicolon.kind = .semicolon →
      Variable (keyword :: name :: equals :: tokens ++ [semicolon]) (.var name (some value))

inductive Initial : List Token → Option Stmt → Prop
  | absent {semicolon : Token} : semicolon.kind = .semicolon → Initial [semicolon] none
  | varDecl {tokens : List Token} {tree : Stmt} :
      Variable tokens tree → Initial tokens (some tree)
  | expr {tokens : List Token} {semicolon : Token} {value : Expr} :
      Expression .assignment tokens value → semicolon.kind = .semicolon →
      Initial (tokens ++ [semicolon]) (some (.expr value))

structure Clauses where
  initial : Option Stmt
  condition : Option Expr
  increment : Option Expr

/-- What a `for` loop with the given body means: a `while` loop, the increment behind
the body, in a scope of its own with the first clause before it. -/
def Clauses.loop (body : Stmt) : Clauses → Stmt
  | ⟨none, condition, none⟩ => .whileLoop (condition.getD (.literal (.bool true))) body
  | ⟨none, condition, some increment⟩ =>
      .whileLoop (condition.getD (.literal (.bool true))) (.block [body, .expr increment])
  | ⟨some initial, condition, none⟩ =>
      .block [initial, .whileLoop (condition.getD (.literal (.bool true))) body]
  | ⟨some initial, condition, some increment⟩ =>
      .block [initial, .whileLoop (condition.getD (.literal (.bool true)))
        (.block [body, .expr increment])]

inductive Header : List Token → Clauses → Prop
  | mk {opening semicolon closing : Token} {first second third : List Token}
      {initial : Option Stmt} {condition increment : Option Expr} :
      opening.kind = .leftParen → Initial first initial → Optional second condition →
      semicolon.kind = .semicolon → Optional third increment → closing.kind = .rightParen →
      Header (opening :: first ++ second ++ semicolon :: third ++ [closing])
        ⟨initial, condition, increment⟩

inductive Superclass : List Token → Option Token → Prop
  | absent : Superclass [] none
  | present {less name : Token} :
      less.kind = .less → name.kind = .identifier → Superclass [less, name] (some name)

/-- Whether a statement ends in an `if` that an `else` behind it would belong to. -/
inductive Ending where
  | closed
  | dangling

inductive Phrase where
  | declaration
  | function
  | statement (ending : Ending)

/-- Declarations and statements.  A function stands for its declaration. -/
inductive Statement : Phrase → List Token → Stmt → Prop
  | classDecl {keyword name opening closing : Token} {header : List Token}
      {superclass : Option Token} {methods : Parts Function} :
      keyword.kind = .classWord → name.kind = .identifier → Superclass header superclass →
      opening.kind = .leftBrace →
      (∀ method ∈ methods, Statement .function method.1 (.function method.2)) →
      closing.kind = .rightBrace →
      Statement .declaration (keyword :: name :: header ++ opening :: methods.tokens ++ [closing])
        (.classDecl name superclass methods.trees)
  | function {keyword : Token} {tokens : List Token} {tree : Stmt} :
      keyword.kind = .funWord → Statement .function tokens tree →
      Statement .declaration (keyword :: tokens) tree
  | varDecl {tokens : List Token} {tree : Stmt} :
      Variable tokens tree → Statement .declaration tokens tree
  | statement {ending : Ending} {tokens : List Token} {tree : Stmt} :
      Statement (.statement ending) tokens tree → Statement .declaration tokens tree
  | definition {name opening closing begin finish : Token} {list params : List Token}
      {body : Parts Stmt} :
      name.kind = .identifier → opening.kind = .leftParen →
      (∀ param ∈ params, param.kind = .identifier) →
      Separated (params.map fun param => [param]) list → params.length ≤ 255 →
      closing.kind = .rightParen → begin.kind = .leftBrace →
      (∀ part ∈ body, Statement .declaration part.1 part.2) → finish.kind = .rightBrace →
      Statement .function
        (name :: opening :: list ++ closing :: begin :: body.tokens ++ [finish])
        (.function (.mk name params body.trees))
  | expr {tokens : List Token} {semicolon : Token} {value : Expr} :
      Expression .assignment tokens value → semicolon.kind = .semicolon →
      Statement (.statement .closed) (tokens ++ [semicolon]) (.expr value)
  | print {keyword semicolon : Token} {tokens : List Token} {value : Expr} :
      keyword.kind = .printWord → Expression .assignment tokens value →
      semicolon.kind = .semicolon →
      Statement (.statement .closed) (keyword :: tokens ++ [semicolon]) (.print value)
  | returnStmt {keyword semicolon : Token} {tokens : List Token} {value : Option Expr} :
      keyword.kind = .returnWord → Optional tokens value → semicolon.kind = .semicolon →
      Statement (.statement .closed) (keyword :: tokens ++ [semicolon])
        (.returnStmt keyword value)
  | block {opening closing : Token} {body : Parts Stmt} :
      opening.kind = .leftBrace → (∀ part ∈ body, Statement .declaration part.1 part.2) →
      closing.kind = .rightBrace →
      Statement (.statement .closed) (opening :: body.tokens ++ [closing]) (.block body.trees)
  | whileLoop {keyword opening closing : Token} {tokens inner : List Token} {condition : Expr}
      {body : Stmt} {ending : Ending} :
      keyword.kind = .whileWord → opening.kind = .leftParen →
      Expression .assignment tokens condition → closing.kind = .rightParen →
      Statement (.statement ending) inner body →
      Statement (.statement ending) (keyword :: opening :: tokens ++ closing :: inner)
        (.whileLoop condition body)
  | forLoop {keyword : Token} {header inner : List Token} {clauses : Clauses} {body : Stmt}
      {ending : Ending} :
      keyword.kind = .forWord → Header header clauses →
      Statement (.statement ending) inner body →
      Statement (.statement ending) (keyword :: header ++ inner) (clauses.loop body)
  | ifThen {keyword opening closing : Token} {tokens inner : List Token} {condition : Expr}
      {thenBranch : Stmt} {ending : Ending} :
      keyword.kind = .ifWord → opening.kind = .leftParen →
      Expression .assignment tokens condition → closing.kind = .rightParen →
      Statement (.statement ending) inner thenBranch →
      Statement (.statement .dangling) (keyword :: opening :: tokens ++ closing :: inner)
        (.ifThen condition thenBranch)
  | ifElse {keyword opening closing separator : Token} {tokens first second : List Token}
      {condition : Expr} {thenBranch elseBranch : Stmt} {ending : Ending} :
      keyword.kind = .ifWord → opening.kind = .leftParen →
      Expression .assignment tokens condition → closing.kind = .rightParen →
      Statement (.statement .closed) first thenBranch → separator.kind = .elseWord →
      Statement (.statement ending) second elseBranch →
      Statement (.statement ending)
        (keyword :: opening :: tokens ++ closing :: first ++ separator :: second)
        (.ifElse condition thenBranch elseBranch)

def Derives (tokens : List Token) (statements : List Stmt) : Prop :=
  ∃ parts : Parts Stmt, (∀ part ∈ parts, Statement .declaration part.1 part.2) ∧
    parts.tokens = tokens ∧ parts.trees = statements

end Lox.Grammar
