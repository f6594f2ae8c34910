import Lox.Diagnostic
import Lox.Proofs.Grammar

/-!
The grammar without its limits.  Lists of arguments and parameters may be of any length and
anything may stand to the left of an equals sign; each derivation says what is to be noted,
in the order in which it is found.
-/

namespace Lox

namespace Expr

def isAssignable : Expr → Bool
  | ident _ | member .. => true
  | _ => false

/-- What the assignment of a value stands for.  A target that nothing can be assigned to
stands for itself, and the value is lost. -/
def assigned (target value : Expr) : Expr :=
  match target with
  | ident name => assign name value
  | member object name => setMember object name value
  | other => other

@[simp] theorem isAssignable_ident (name : Token) : (ident name).isAssignable = true := rfl

@[simp] theorem isAssignable_member (object : Expr) (name : Token) :
    (member object name).isAssignable = true := rfl

@[simp] theorem assigned_ident (name : Token) (value : Expr) :
    (ident name).assigned value = assign name value := rfl

@[simp] theorem assigned_member (object : Expr) (name : Token) (value : Expr) :
    (member object name).assigned value = setMember object name value := rfl

end Expr

namespace Grammar

structure Noted (α : Type) where
  tokens : List Token
  tree : α
  notes : List Diagnostic

namespace Noted

variable {α : Type}

def limit (problem : Problem) (index : Nat) (element : Noted α) : List Diagnostic :=
  if 255 ≤ index then (element.tokens.head?.map (Diagnostic.atToken · problem)).toList else []

/-- What is noted in a list that goes on with the given elements: each one that is too many,
at its first token, and what is noted in the elements themselves. -/
def elements (problem : Problem) : Nat → List (Noted α) → List Diagnostic
  | _, [] => []
  | index, element :: rest =>
      limit problem index element ++ element.notes ++ elements problem (index + 1) rest

def param (name : Token) : Noted Token :=
  ⟨[name], name, []⟩

end Noted

namespace Lenient

def targetNotes (equals : Token) (target : Expr) : List Diagnostic :=
  if target.isAssignable then [] else [Diagnostic.atToken equals .invalidTarget]

inductive Expression : Grade → List Token → Expr → List Diagnostic → Prop
  | assign {left right : List Token} {equals : Token} {target value : Expr}
      {leftNotes rightNotes : List Diagnostic} :
      Expression .logicOr left target leftNotes → equals.kind = .equal →
      Expression .assignment right value rightNotes →
      Expression .assignment (left ++ equals :: right) (target.assigned value)
        (leftNotes ++ (rightNotes ++ targetNotes equals target))
  | logicOr {tokens : List Token} {tree : Expr} {notes : List Diagnostic} :
      Expression .logicOr tokens tree notes → Expression .assignment tokens tree notes
  | operand {grade tighter : Grade} {tokens : List Token} {tree : Expr}
      {notes : List Diagnostic} :
      grade.operand? = some tighter → Expression tighter tokens tree notes →
      Expression grade tokens tree notes
  | operator {grade tighter : Grade} {left right : List Token} {operator : Token}
      {leftTree rightTree : Expr} {leftNotes rightNotes : List Diagnostic} :
      grade.operand? = some tighter → Expression grade left leftTree leftNotes →
      operator.kind ∈ grade.operators → Expression tighter right rightTree rightNotes →
      Expression grade (left ++ operator :: right) (grade.node leftTree operator rightTree)
        (leftNotes ++ rightNotes)
  | unary {operator : Token} {tokens : List Token} {operand : Expr} {notes : List Diagnostic} :
      operator.kind ∈ [.bang, .minus] → Expression .unary tokens operand notes →
      Expression .unary (operator :: tokens) (.unary operator operand) notes
  | call {tokens : List Token} {tree : Expr} {notes : List Diagnostic} :
      Expression .call tokens tree notes → Expression .unary tokens tree notes
  | primary {tokens : List Token} {tree : Expr} {notes : List Diagnostic} :
      Expression .primary tokens tree notes → Expression .call tokens tree notes
  | invocation {callee tokens : List Token} {opening closing : Token} {tree : Expr}
      {arguments : List (Noted Expr)} {notes : List Diagnostic} :
      Expression .call callee tree notes → opening.kind = .leftParen →
      (∀ argument ∈ arguments,
        Expression .assignment argument.tokens argument.tree argument.notes) →
      Separated (arguments.map Noted.tokens) tokens → closing.kind = .rightParen →
      Expression .call (callee ++ opening :: tokens ++ [closing])
        (.call tree closing (arguments.map Noted.tree))
        (notes ++ Noted.elements .tooManyArguments 0 arguments)
  | member {object : List Token} {dot name : Token} {target : Expr} {notes : List Diagnostic} :
      Expression .call object target notes → dot.kind = .dot → name.kind = .identifier →
      Expression .call (object ++ [dot, name]) (.member target name) notes
  | word {word : Token} {tree : Expr} :
      Grammar.Expression .primary [word] tree → Expression .primary [word] tree []
  | grouping {opening closing : Token} {tokens : List Token} {inner : Expr}
      {notes : List Diagnostic} :
      opening.kind = .leftParen → Expression .assignment tokens inner notes →
      closing.kind = .rightParen →
      Expression .primary (opening :: tokens ++ [closing]) (.grouping inner) notes
  | super {keyword dot method : Token} :
      keyword.kind = .superWord → dot.kind = .dot → method.kind = .identifier →
      Expression .primary [keyword, dot, method] (.super keyword method) []

inductive Optional : List Token → Option Expr → List Diagnostic → Prop
  | absent : Optional [] none []
  | present {tokens : List Token} {value : Expr} {notes : List Diagnostic} :
      Expression .assignment tokens value notes → Optional tokens (some value) notes

inductive Variable : List Token → Stmt → List Diagnostic → Prop
  | plain {keyword name semicolon : Token} :
      keyword.kind = .varWord → name.kind = .identifier → semicolon.kind = .semicolon →
      Variable [keyword, name, semicolon] (.var name none) []
  | initialized {keyword name equals semicolon : Token} {tokens : List Token} {value : Expr}
      {notes : List Diagnostic} :
      keyword.kind = .varWord → name.kind = .identifier → equals.kind = .equal →
      Expression .assignment tokens value notes → semicolon.kind = .semicolon →
      Variable (keyword :: name :: equals :: tokens ++ [semicolon]) (.var name (some value)) notes

inductive Initial : List Token → Option Stmt → List Diagnostic → Prop
  | absent {semicolon : Token} : semicolon.kind = .semicolon → Initial [semicolon] none []
  | varDecl {tokens : List Token} {tree : Stmt} {notes : List Diagnostic} :
      Variable tokens tree notes → Initial tokens (some tree) notes
  | expr {tokens : List Token} {semicolon : Token} {value : Expr} {notes : List Diagnostic} :
      Expression .assignment tokens value notes → semicolon.kind = .semicolon →
      Initial (tokens ++ [semicolon]) (some (.expr value)) notes

inductive Header : List Token → Clauses → List Diagnostic → Prop
  | mk {opening semicolon closing : Token} {first second third : List Token}
      {initial : Option Stmt} {condition increment : Option Expr}
      {firstNotes secondNotes thirdNotes : List Diagnostic} :
      opening.kind = .leftParen → Initial first initial firstNotes →
      Optional second condition secondNotes → semicolon.kind = .semicolon →
      Optional third increment thirdNotes → closing.kind = .rightParen →
      Header (opening :: first ++ second ++ semicolon :: third ++ [closing])
        ⟨initial, condition, increment⟩ (firstNotes ++ (secondNotes ++ thirdNotes))

inductive Statement : Phrase → List Token → Stmt → List Diagnostic → Prop
  | classDecl {keyword name opening closing : Token} {header : List Token}
      {superclass : Option Token} {methods : List (Noted Function)} :
      keyword.kind = .classWord → name.kind = .identifier → Superclass header superclass →
      opening.kind = .leftBrace →
      (∀ method ∈ methods,
        Statement .function method.tokens (.function method.tree) method.notes) →
      closing.kind = .rightBrace →
      Statement .declaration
        (keyword :: name :: header ++ opening :: methods.flatMap Noted.tokens ++ [closing])
        (.classDecl name superclass (methods.map Noted.tree)) (methods.flatMap Noted.notes)
  | function {keyword : Token} {tokens : List Token} {tree : Stmt} {notes : List Diagnostic} :
      keyword.kind = .funWord → Statement .function tokens tree notes →
      Statement .declaration (keyword :: tokens) tree notes
  | varDecl {tokens : List Token} {tree : Stmt} {notes : List Diagnostic} :
      Variable tokens tree notes → Statement .declaration tokens tree notes
  | statement {ending : Ending} {tokens : List Token} {tree : Stmt} {notes : List Diagnostic} :
      Statement (.statement ending) tokens tree notes → Statement .declaration tokens tree notes
  | definition {name opening closing begin finish : Token} {list params : List Token}
      {body : List (Noted Stmt)} :
      name.kind = .identifier → opening.kind = .leftParen →
      (∀ param ∈ params, param.kind = .identifier) →
      Separated (params.map fun param => [param]) list →
      closing.kind = .rightParen → begin.kind = .leftBrace →
      (∀ part ∈ body, Statement .declaration part.tokens part.tree part.notes) →
      finish.kind = .rightBrace →
      Statement .function
        (name :: opening :: list ++ closing :: begin :: body.flatMap Noted.tokens ++ [finish])
        (.function (.mk name params (body.map Noted.tree)))
        (Noted.elements .tooManyParameters 0 (params.map Noted.param) ++
          body.flatMap Noted.notes)
  | expr {tokens : List Token} {semicolon : Token} {value : Expr} {notes : List Diagnostic} :
      Expression .assignment tokens value notes → semicolon.kind = .semicolon →
      Statement (.statement .closed) (tokens ++ [semicolon]) (.expr value) notes
  | print {keyword semicolon : Token} {tokens : List Token} {value : Expr}
      {notes : List Diagnostic} :
      keyword.kind = .printWord → Expression .assignment tokens value notes →
      semicolon.kind = .semicolon →
      Statement (.statement .closed) (keyword :: tokens ++ [semicolon]) (.print value) notes
  | returnStmt {keyword semicolon : Token} {tokens : List Token} {value : Option Expr}
      {notes : List Diagnostic} :
      keyword.kind = .returnWord → Optional tokens value notes → semicolon.kind = .semicolon →
      Statement (.statement .closed) (keyword :: tokens ++ [semicolon])
        (.returnStmt keyword value) notes
  | block {opening closing : Token} {body : List (Noted Stmt)} :
      opening.kind = .leftBrace →
      (∀ part ∈ body, Statement .declaration part.tokens part.tree part.notes) →
      closing.kind = .rightBrace →
      Statement (.statement .closed) (opening :: body.flatMap Noted.tokens ++ [closing])
        (.block (body.map Noted.tree)) (body.flatMap Noted.notes)
  | whileLoop {keyword opening closing : Token} {tokens inner : List Token} {condition : Expr}
      {body : Stmt} {ending : Ending} {notes bodyNotes : List Diagnostic} :
      keyword.kind = .whileWord → opening.kind = .leftParen →
      Expression .assignment tokens condition notes → closing.kind = .rightParen →
      Statement (.statement ending) inner body bodyNotes →
      Statement (.statement ending) (keyword :: opening :: tokens ++ closing :: inner)
        (.whileLoop condition body) (notes ++ bodyNotes)
  | forLoop {keyword : Token} {header inner : List Token} {clauses : Clauses} {body : Stmt}
      {ending : Ending} {notes bodyNotes : List Diagnostic} :
      keyword.kind = .forWord → Header header clauses notes →
      Statement (.statement ending) inner body bodyNotes →
      Statement (.statement ending) (keyword :: header ++ inner) (clauses.loop body)
        (notes ++ bodyNotes)
  | ifThen {keyword opening closing : Token} {tokens inner : List Token} {condition : Expr}
      {thenBranch : Stmt} {ending : Ending} {notes thenNotes : List Diagnostic} :
      keyword.kind = .ifWord → opening.kind = .leftParen →
      Expression .assignment tokens condition notes → closing.kind = .rightParen →
      Statement (.statement ending) inner thenBranch thenNotes →
      Statement (.statement .dangling) (keyword :: opening :: tokens ++ closing :: inner)
        (.ifThen condition thenBranch) (notes ++ thenNotes)
  | ifElse {keyword opening closing separator : Token} {tokens first second : List Token}
      {condition : Expr} {thenBranch elseBranch : Stmt} {ending : Ending}
      {notes thenNotes elseNotes : List Diagnostic} :
      keyword.kind = .ifWord → opening.kind = .leftParen →
      Expression .assignment tokens condition notes → closing.kind = .rightParen →
      Statement (.statement .closed) first thenBranch thenNotes →
      separator.kind = .elseWord → Statement (.statement ending) second elseBranch elseNotes →
      Statement (.statement ending)
        (keyword :: opening :: tokens ++ closing :: first ++ separator :: second)
        (.ifElse condition thenBranch elseBranch) (notes ++ (thenNotes ++ elseNotes))

def Derives (tokens : List Token) (statements : List Stmt) (notes : List Diagnostic) : Prop :=
  ∃ parts : List (Noted Stmt),
    (∀ part ∈ parts, Statement .declaration part.tokens part.tree part.notes) ∧
    parts.flatMap Noted.tokens = tokens ∧ parts.map Noted.tree = statements ∧
    parts.flatMap Noted.notes = notes

end Lenient

section Strict

variable {α : Type}

def Parts.noted (parts : Parts α) : List (Noted α) :=
  parts.map fun part => ⟨part.1, part.2, []⟩

namespace Parts

@[simp] theorem map_tokens_noted (parts : Parts α) :
    parts.noted.map Noted.tokens = parts.map Prod.fst := by
  simp [noted]

@[simp] theorem flatMap_tokens_noted (parts : Parts α) :
    parts.noted.flatMap Noted.tokens = parts.tokens := by
  simp [noted, tokens, List.flatMap_map]

@[simp] theorem map_tree_noted (parts : Parts α) : parts.noted.map Noted.tree = parts.trees := by
  simp [noted, trees]

@[simp] theorem flatMap_notes_noted (parts : Parts α) : parts.noted.flatMap Noted.notes = [] := by
  simp [noted, List.flatMap_map]

theorem forall_noted {parts : Parts α} {derived : Noted α → Prop}
    (each : ∀ part ∈ parts, derived ⟨part.1, part.2, []⟩) : ∀ part ∈ parts.noted, derived part := by
  intro part member
  obtain ⟨given, inside, rfl⟩ := List.mem_map.1 member
  exact each given inside

end Parts

theorem Noted.elements_eq_nil {problem : Problem} {index : Nat} {elements : List (Noted α)}
    (few : index + elements.length ≤ 255) (silent : ∀ element ∈ elements, element.notes = []) :
    Noted.elements problem index elements = [] := by
  induction elements generalizing index with
  | nil => rfl
  | cons element rest ih =>
    obtain ⟨elementSilent, restSilent⟩ := List.forall_mem_cons.1 silent
    rw [List.length_cons] at few
    rw [Noted.elements, elementSilent, ih (by omega) restSilent, Noted.limit, if_neg (by omega)]
    rfl

namespace Lenient

theorem Expression.logicOrOf {tokens : List Token} {tree : Expr} {notes : List Diagnostic}
    (derived : Expression .call tokens tree notes) : Expression .logicOr tokens tree notes := by
  have factor : Expression .factor tokens tree notes := .operand rfl derived.call
  have comparison : Expression .comparison tokens tree notes := .operand rfl (.operand rfl factor)
  have logicAnd : Expression .logicAnd tokens tree notes := .operand rfl (.operand rfl comparison)
  exact .operand rfl logicAnd

end Lenient

/-- What derives within the limits derives without them, and nothing is noted. -/
theorem Expression.lenient {grade : Grade} {tokens : List Token} {tree : Expr}
    (derived : Expression grade tokens tree) : Lenient.Expression grade tokens tree [] := by
  induction derived with
  | assign nameKind equalsKind _ ih =>
    have target : Lenient.Expression .call _ _ [] := .primary (.word (.ident nameKind))
    simpa [Lenient.targetNotes] using Lenient.Expression.assign target.logicOrOf equalsKind ih
  | setMember _ dotKind nameKind equalsKind _ objectIh ih =>
    have target := Lenient.Expression.member objectIh dotKind nameKind
    simpa [Lenient.targetNotes] using Lenient.Expression.assign target.logicOrOf equalsKind ih
  | logicOr _ ih => exact .logicOr ih
  | operand next _ ih => exact .operand next ih
  | operator next _ member _ leftIh rightIh => exact .operator next leftIh member rightIh
  | unary member _ ih => exact .unary member ih
  | call _ ih => exact .call ih
  | primary _ ih => exact .primary ih
  | @invocation _ _ _ _ _ arguments _ openingKind _ separated few closingKind ih argumentsIh =>
    have silent : Noted.elements .tooManyArguments 0 arguments.noted = [] :=
      Noted.elements_eq_nil (by simpa [Parts.noted] using few)
        (Parts.forall_noted fun _ _ => rfl)
    have derived := Lenient.Expression.invocation ih openingKind
      (Parts.forall_noted argumentsIh) (by simpa using separated) closingKind
    simpa [silent] using derived
  | member _ dotKind nameKind ih => exact .member ih dotKind nameKind
  | grouping openingKind _ closingKind ih => exact .grouping openingKind ih closingKind
  | super kind dotKind methodKind => exact .super kind dotKind methodKind
  | trueWord kind => exact .word (.trueWord kind)
  | falseWord kind => exact .word (.falseWord kind)
  | nilWord kind => exact .word (.nilWord kind)
  | number kind => exact .word (.number kind)
  | string kind => exact .word (.string kind)
  | this kind => exact .word (.this kind)
  | ident kind => exact .word (.ident kind)

theorem Optional.lenient {tokens : List Token} {value : Option Expr}
    (derived : Optional tokens value) : Lenient.Optional tokens value [] := by
  cases derived with
  | absent => exact .absent
  | present derived => exact .present derived.lenient

theorem Variable.lenient {tokens : List Token} {tree : Stmt} (derived : Variable tokens tree) :
    Lenient.Variable tokens tree [] := by
  cases derived with
  | plain kind nameKind semicolonKind => exact .plain kind nameKind semicolonKind
  | initialized kind nameKind equalsKind derived semicolonKind =>
    exact .initialized kind nameKind equalsKind derived.lenient semicolonKind

theorem Initial.lenient {tokens : List Token} {tree : Option Stmt}
    (derived : Initial tokens tree) : Lenient.Initial tokens tree [] := by
  cases derived with
  | absent kind => exact .absent kind
  | varDecl derived => exact .varDecl derived.lenient
  | expr derived kind => exact .expr derived.lenient kind

theorem Header.lenient {tokens : List Token} {clauses : Clauses} (derived : Header tokens clauses) :
    Lenient.Header tokens clauses [] := by
  cases derived with
  | mk openingKind first second semicolonKind third closingKind =>
    exact .mk openingKind first.lenient second.lenient semicolonKind third.lenient closingKind

theorem Statement.lenient {phrase : Phrase} {tokens : List Token} {tree : Stmt}
    (derived : Statement phrase tokens tree) : Lenient.Statement phrase tokens tree [] := by
  induction derived with
  | classDecl kind nameKind inherits openingKind _ closingKind ih =>
    simpa using Lenient.Statement.classDecl kind nameKind inherits openingKind
      (Parts.forall_noted ih) closingKind
  | function kind _ ih => exact .function kind ih
  | varDecl derived => exact .varDecl derived.lenient
  | statement _ ih => exact .statement ih
  | @definition _ _ _ _ _ _ params body nameKind openingKind identifiers separated few closingKind
      beginKind _ finishKind ih =>
    have silent : Noted.elements .tooManyParameters 0 (params.map Noted.param) = [] :=
      Noted.elements_eq_nil (by simpa using few) (by simp [Noted.param])
    simpa [silent] using Lenient.Statement.definition nameKind openingKind identifiers separated
      closingKind beginKind (Parts.forall_noted ih) finishKind
  | expr derived kind => exact .expr derived.lenient kind
  | print kind derived semicolonKind => exact .print kind derived.lenient semicolonKind
  | returnStmt kind derived semicolonKind => exact .returnStmt kind derived.lenient semicolonKind
  | block kind _ closingKind ih =>
    simpa using Lenient.Statement.block kind (Parts.forall_noted ih) closingKind
  | whileLoop kind openingKind derived closingKind _ ih =>
    exact .whileLoop kind openingKind derived.lenient closingKind ih
  | forLoop kind headed _ ih => exact .forLoop kind headed.lenient ih
  | ifThen kind openingKind derived closingKind _ ih =>
    exact .ifThen kind openingKind derived.lenient closingKind ih
  | ifElse kind openingKind derived closingKind _ separatorKind _ thenIh elseIh =>
    exact .ifElse kind openingKind derived.lenient closingKind thenIh separatorKind elseIh

theorem Derives.lenient {tokens : List Token} {statements : List Stmt}
    (derived : Derives tokens statements) : Lenient.Derives tokens statements [] := by
  obtain ⟨parts, each, rfl, rfl⟩ := derived
  exact ⟨parts.noted, Parts.forall_noted fun part member => (each part member).lenient, by simp,
    by simp, by simp⟩

end Strict

end Grammar

end Lox
