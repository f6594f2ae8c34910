import Lox.Proofs.Syntax.Exact
import Lox.Proofs.Token.Lines
import Mathlib.Data.List.Forall2

/-!
Programs on other lines.  The grammar does not look at line numbers, so a program whose
tokens are moved to other lines has the same tree on those lines; hence the program of a
text is that of its lines, one behind the other.
-/

namespace Lox

open Lox.Grammar

variable (relabel : Int → Int)

namespace Expr

mutual

def relined : Expr → Expr
  | literal value => literal value
  | grouping inner => grouping (relined inner)
  | unary operator operand => unary (operator.relined relabel) (relined operand)
  | binary left operator right =>
      binary (relined left) (operator.relined relabel) (relined right)
  | logical left operator right =>
      logical (relined left) (operator.relined relabel) (relined right)
  | ident name => ident (name.relined relabel)
  | assign name value => assign (name.relined relabel) (relined value)
  | call callee paren arguments =>
      call (relined callee) (paren.relined relabel) (relinedAll arguments)
  | member target name => member (relined target) (name.relined relabel)
  | setMember target name value =>
      setMember (relined target) (name.relined relabel) (relined value)
  | this keyword => this (keyword.relined relabel)
  | super keyword method => super (keyword.relined relabel) (method.relined relabel)

def relinedAll : List Expr → List Expr
  | [] => []
  | first :: rest => relined first :: relinedAll rest

end

theorem relinedAll_eq_map (exprs : List Expr) :
    relinedAll relabel exprs = exprs.map (relined relabel) := by
  induction exprs with
  | nil => rfl
  | cons first rest ih => rw [relinedAll, ih, List.map_cons]

end Expr

mutual

def Stmt.relined : Stmt → Stmt
  | .expr value => .expr (value.relined relabel)
  | .print value => .print (value.relined relabel)
  | .var name initial => .var (name.relined relabel) (initial.map (Expr.relined relabel))
  | .block body => .block (Stmt.relinedAll body)
  | .ifThen condition thenBranch => .ifThen (condition.relined relabel) thenBranch.relined
  | .ifElse condition thenBranch elseBranch =>
      .ifElse (condition.relined relabel) thenBranch.relined elseBranch.relined
  | .whileLoop condition body => .whileLoop (condition.relined relabel) body.relined
  | .function declaration => .function declaration.relined
  | .returnStmt keyword value =>
      .returnStmt (keyword.relined relabel) (value.map (Expr.relined relabel))
  | .classDecl name superclass methods =>
      .classDecl (name.relined relabel) (superclass.map (Token.relined relabel))
        (Function.relinedAll methods)

def Stmt.relinedAll : List Stmt → List Stmt
  | [] => []
  | first :: rest => first.relined :: Stmt.relinedAll rest

def Function.relined : Function → Function
  | .mk name params body =>
      .mk (name.relined relabel) (params.map (Token.relined relabel)) (Stmt.relinedAll body)

def Function.relinedAll : List Function → List Function
  | [] => []
  | first :: rest => first.relined :: Function.relinedAll rest

end

theorem Stmt.relinedAll_eq_map (statements : List Stmt) :
    Stmt.relinedAll relabel statements = statements.map (Stmt.relined relabel) := by
  induction statements with
  | nil => rfl
  | cons first rest ih => rw [Stmt.relinedAll, ih, List.map_cons]

theorem Function.relinedAll_eq_map (functions : List Function) :
    Function.relinedAll relabel functions = functions.map (Function.relined relabel) := by
  induction functions with
  | nil => rfl
  | cons first rest ih => rw [Function.relinedAll, ih, List.map_cons]

namespace Grammar

variable {relabel}

theorem Grade.node_relined (grade : Grade) (left right : Expr) (operator : Token) :
    (grade.node left operator right).relined relabel =
      grade.node (left.relined relabel) (operator.relined relabel) (right.relined relabel) := by
  cases grade <;> rfl

namespace Parts

variable {α : Type}

def relined (relabel : Int → Int) (change : α → α) (parts : Parts α) : Parts α :=
  parts.map fun part => (part.1.map (Token.relined relabel), change part.2)

variable {change : α → α} {parts : Parts α}

theorem tokens_relined (change : α → α) :
    (parts.relined relabel change).tokens = parts.tokens.map (Token.relined relabel) := by
  rw [tokens, tokens, relined, List.flatMap_map, List.map_flatMap]

theorem trees_relined : (parts.relined relabel change).trees = parts.trees.map change := by
  rw [trees, trees, relined, List.map_map, List.map_map]
  rfl

theorem forall_relined (derived : List Token → α → Prop)
    (all : ∀ part ∈ parts, derived (part.1.map (Token.relined relabel)) (change part.2)) :
    ∀ part ∈ parts.relined relabel change, derived part.1 part.2 := by
  intro part member
  obtain ⟨old, oldMember, rfl⟩ := List.mem_map.1 member
  exact all old oldMember

end Parts

theorem Separated.relined {parts : List (List Token)} {tokens : List Token}
    (separated : Separated parts tokens) (relabel : Int → Int) :
    Separated (parts.map (List.map (Token.relined relabel)))
      (tokens.map (Token.relined relabel)) := by
  induction separated with
  | none => exact .none
  | one part => exact .one _
  | more kind _ ih =>
      rw [List.map_append, List.map_cons]
      exact .more kind ih

theorem Expression.relined {grade : Grade} {tokens : List Token} {tree : Expr}
    (derived : Expression grade tokens tree) :
    Expression grade (tokens.map (Token.relined relabel)) (tree.relined relabel) := by
  induction derived with
  | assign nameKind equalsKind _ ih => exact .assign nameKind equalsKind ih
  | setMember _ dotKind nameKind equalsKind _ targetIh valueIh =>
      rw [List.map_append]
      exact .setMember targetIh dotKind nameKind equalsKind valueIh
  | logicOr _ ih => exact .logicOr ih
  | operand tighter _ ih => exact .operand tighter ih
  | operator tighter _ kind _ leftIh rightIh =>
      rw [List.map_append, Grade.node_relined]
      exact .operator tighter leftIh kind rightIh
  | unary kind _ ih => exact .unary kind ih
  | call _ ih => exact .call ih
  | primary _ ih => exact .primary ih
  | @invocation _ _ _ _ _ arguments _ openingKind _ separated few closingKind calleeIh ih =>
      have moved := separated.relined relabel
      rw [List.map_map] at moved
      rw [List.map_append, List.map_append, Expr.relined, Expr.relinedAll_eq_map,
        ← Parts.trees_relined]
      refine .invocation calleeIh openingKind (Parts.forall_relined _ ih) ?_ ?_ closingKind
      · rwa [Parts.relined, List.map_map]
      · rwa [Parts.relined, List.length_map]
  | member _ dotKind nameKind ih =>
      rw [List.map_append]
      exact .member ih dotKind nameKind
  | trueWord kind => exact .trueWord kind
  | falseWord kind => exact .falseWord kind
  | nilWord kind => exact .nilWord kind
  | @number word kind => exact @Expression.number (word.relined relabel) kind
  | @string word kind => exact @Expression.string (word.relined relabel) kind
  | this kind => exact .this kind
  | ident kind => exact .ident kind
  | grouping openingKind _ closingKind ih =>
      rw [List.map_append]
      exact .grouping openingKind ih closingKind
  | super keywordKind dotKind methodKind => exact .super keywordKind dotKind methodKind

theorem Optional.relined {tokens : List Token} {value : Option Expr}
    (derived : Optional tokens value) :
    Optional (tokens.map (Token.relined relabel)) (value.map (Expr.relined relabel)) := by
  cases derived with
  | absent => exact .absent
  | present derived => exact .present derived.relined

theorem Variable.relined {tokens : List Token} {tree : Stmt} (derived : Variable tokens tree) :
    Variable (tokens.map (Token.relined relabel)) (tree.relined relabel) := by
  cases derived with
  | plain keywordKind nameKind semicolonKind =>
      exact .plain keywordKind nameKind semicolonKind
  | initialized keywordKind nameKind equalsKind derived semicolonKind =>
      rw [List.map_append]
      exact .initialized keywordKind nameKind equalsKind derived.relined semicolonKind

theorem Initial.relined {tokens : List Token} {tree : Option Stmt}
    (derived : Initial tokens tree) :
    Initial (tokens.map (Token.relined relabel)) (tree.map (Stmt.relined relabel)) := by
  cases derived with
  | absent kind => exact .absent kind
  | varDecl derived => exact .varDecl derived.relined
  | expr derived kind =>
      rw [List.map_append]
      exact .expr derived.relined kind

def Clauses.relined (relabel : Int → Int) (clauses : Clauses) : Clauses :=
  ⟨clauses.initial.map (Stmt.relined relabel), clauses.condition.map (Expr.relined relabel),
    clauses.increment.map (Expr.relined relabel)⟩

theorem Clauses.loop_relined (clauses : Clauses) (body : Stmt) :
    (clauses.loop body).relined relabel =
      (clauses.relined relabel).loop (body.relined relabel) := by
  obtain ⟨initial, condition, increment⟩ := clauses
  cases initial <;> cases condition <;> cases increment <;> rfl

theorem Header.relined {tokens : List Token} {clauses : Clauses} (derived : Header tokens clauses) :
    Header (tokens.map (Token.relined relabel)) (clauses.relined relabel) := by
  cases derived with
  | mk openingKind initial condition semicolonKind increment closingKind =>
      simp only [List.map_append, List.map_cons, List.map_nil]
      exact .mk openingKind initial.relined condition.relined semicolonKind increment.relined
        closingKind

theorem Superclass.relined {tokens : List Token} {superclass : Option Token}
    (derived : Superclass tokens superclass) :
    Superclass (tokens.map (Token.relined relabel)) (superclass.map (Token.relined relabel)) := by
  cases derived with
  | absent => exact .absent
  | present lessKind nameKind => exact .present lessKind nameKind

theorem Statement.relined {phrase : Phrase} {tokens : List Token} {tree : Stmt}
    (derived : Statement phrase tokens tree) :
    Statement phrase (tokens.map (Token.relined relabel)) (tree.relined relabel) := by
  induction derived with
  | classDecl keywordKind nameKind superclass openingKind _ closingKind ih =>
      simp only [List.map_append, List.map_cons, List.map_nil, Stmt.relined,
        Function.relinedAll_eq_map]
      rw [← Parts.trees_relined, ← Parts.tokens_relined (Function.relined relabel)]
      exact .classDecl keywordKind nameKind superclass.relined openingKind
        (Parts.forall_relined (fun tokens method => Statement .function tokens (.function method))
          ih) closingKind
  | function kind _ ih => exact .function kind ih
  | varDecl derived => exact .varDecl derived.relined
  | statement _ ih => exact .statement ih
  | @definition _ _ _ _ _ list params body nameKind openingKind identifiers separated few
      closingKind beginKind _ finishKind ih =>
      have moved := separated.relined relabel
      rw [List.map_map] at moved
      simp only [List.map_append, List.map_cons, List.map_nil, Stmt.relined, Function.relined,
        Stmt.relinedAll_eq_map]
      rw [← Parts.trees_relined, ← Parts.tokens_relined (Stmt.relined relabel)]
      refine .definition nameKind openingKind ?_ ?_ ?_ closingKind beginKind
        (Parts.forall_relined _ ih) finishKind
      · intro param member
        obtain ⟨old, oldMember, rfl⟩ := List.mem_map.1 member
        exact identifiers old oldMember
      · rwa [List.map_map]
      · rwa [List.length_map]
  | expr derived kind =>
      rw [List.map_append]
      exact .expr derived.relined kind
  | print keywordKind derived kind =>
      rw [List.map_append]
      exact .print keywordKind derived.relined kind
  | returnStmt keywordKind derived kind =>
      rw [List.map_append]
      exact .returnStmt keywordKind derived.relined kind
  | block openingKind _ closingKind ih =>
      simp only [List.map_append, List.map_cons, List.map_nil, Stmt.relined,
        Stmt.relinedAll_eq_map]
      rw [← Parts.trees_relined, ← Parts.tokens_relined (Stmt.relined relabel)]
      exact .block openingKind (Parts.forall_relined _ ih) closingKind
  | whileLoop keywordKind openingKind derived closingKind _ ih =>
      simp only [List.map_append, List.map_cons]
      exact .whileLoop keywordKind openingKind derived.relined closingKind ih
  | forLoop keywordKind header _ ih =>
      rw [List.map_append, Clauses.loop_relined]
      exact .forLoop keywordKind header.relined ih
  | ifThen keywordKind openingKind derived closingKind _ ih =>
      simp only [List.map_append, List.map_cons]
      exact .ifThen keywordKind openingKind derived.relined closingKind ih
  | ifElse keywordKind openingKind derived closingKind _ separatorKind _ thenIh elseIh =>
      simp only [List.map_append, List.map_cons]
      exact .ifElse keywordKind openingKind derived.relined closingKind thenIh separatorKind elseIh

namespace Derives

variable {tokens others : List Token} {trees more : List Stmt}

theorem relined (derived : Derives tokens trees) :
    Derives (tokens.map (Token.relined relabel)) (trees.map (Stmt.relined relabel)) := by
  obtain ⟨parts, partsDerived, rfl, rfl⟩ := derived
  refine ⟨parts.relined relabel (Stmt.relined relabel), ?_, Parts.tokens_relined _,
    Parts.trees_relined⟩
  exact Parts.forall_relined _ fun part member => (partsDerived part member).relined

theorem append (derived : Derives tokens trees) (derivedMore : Derives others more) :
    Derives (tokens ++ others) (trees ++ more) := by
  obtain ⟨parts, partsDerived, rfl, rfl⟩ := derived
  obtain ⟨moreParts, moreDerived, rfl, rfl⟩ := derivedMore
  refine ⟨parts ++ moreParts, ?_, List.flatMap_append, List.map_append⟩
  exact List.forall_mem_append.2 ⟨partsDerived, moreDerived⟩

end Derives

end Grammar

namespace Program

open Piece

theorem kind_ne_eof_of_marks {text : List Char} {token : Token}
    (member : token ∈ marks Token.ofPiece? 1 text) : token.kind ≠ .eof := by
  unfold marks at member
  rw [locate_eq] at member
  exact Token.kind_ne_eof_of_located (tiles_cut text) member

theorem parse?_scan (source : String) :
    parse? (scan source).tokens =
      some (parseBody (endToken source.toList) (marks Token.ofPiece? 1 source.toList)) :=
  parse?_body rfl fun _ => kind_ne_eof_of_marks

theorem silent_of_ofSource {source : String} (silent : (ofSource source).diagnostics = []) :
    marks Diagnostic.ofPiece? 1 source.toList = [] := by
  change (scan source).diagnostics = []
  by_cases none : (scan source).diagnostics.isEmpty
  · exact List.isEmpty_iff.1 none
  · have kept : ofSource source = ⟨[], (scan source).diagnostics⟩ := if_neg none
    rwa [kept] at silent

theorem derives_of_ofSource {source : String} (silent : (ofSource source).diagnostics = []) :
    Derives (marks Token.ofPiece? 1 source.toList) (ofSource source).statements := by
  have none : (scan source).diagnostics = [] := silent_of_ofSource silent
  unfold ofSource at silent ⊢
  simp only [none, List.isEmpty_nil, if_true, parse?_scan, Option.getD_some] at silent ⊢
  exact derives_of_parseBody rfl silent

theorem ofSource_of_derives {source : String} {trees : List Stmt}
    (silent : marks Diagnostic.ofPiece? 1 source.toList = [])
    (derived : Derives (marks Token.ofPiece? 1 source.toList) trees) :
    ofSource source = ⟨trees, []⟩ := by
  have none : (scan source).diagnostics = [] := silent
  unfold ofSource
  simp only [none, List.isEmpty_nil, if_true, parse?_scan, Option.getD_some]
  exact parseBody_of_derives _ derived

theorem relined_statements {source : String} {relabel : Int → Int}
    (silent : (ofSource source).diagnostics = [])
    (fixed : ∀ token ∈ marks Token.ofPiece? 1 source.toList, relabel token.line = token.line) :
    (ofSource source).statements.map (Stmt.relined relabel) = (ofSource source).statements := by
  have moved : Derives ((marks Token.ofPiece? 1 source.toList).map (Token.relined relabel))
      ((ofSource source).statements.map (Stmt.relined relabel)) :=
    (derives_of_ofSource silent).relined
  have same : (marks Token.ofPiece? 1 source.toList).map (Token.relined relabel) =
      marks Token.ofPiece? 1 source.toList := by
    refine (List.map_congr_left fun token member => ?_).trans (List.map_id _)
    rw [Token.relined, fixed token member, id]
  rw [same] at moved
  exact (congrArg statements (ofSource_of_derives (silent_of_ofSource silent) moved)).symm

/-- The statements of a line as they stand in a text: as it has them alone, but for the numbers
of the lines. -/
def Lined (line : List Char) (part : List Stmt) : Prop :=
  ∃ relabel, part = (ofSource (String.ofList line)).statements.map (Stmt.relined relabel)

theorem marks_line {text : List Char} (raised : Nat)
    (clean : (ofSource (String.ofList text)).diagnostics = []) :
    marks Diagnostic.ofPiece? (1 + raised) text = [] ∧
      ∃ part, Lined text part ∧ Derives (marks Token.ofPiece? (1 + raised) text) part := by
  have silent := silent_of_ofSource clean
  have derived := derives_of_ofSource clean
  rw [String.toList_ofList] at silent derived
  rw [marks_add (Diagnostic.ofPiece?_add raised), marks_add (Token.ofPiece?_add raised), silent]
  exact ⟨rfl, _, ⟨_, rfl⟩, derived.relined⟩

/-- A text whose lines have no problems has none, and its statements are those of the lines. -/
theorem marks_lines {text : List Char} (raised : Nat)
    (clean : ∀ line ∈ Text.lines text, (ofSource (String.ofList line)).diagnostics = []) :
    marks Diagnostic.ofPiece? (1 + raised) text = [] ∧ ∃ parts : List (List Stmt),
      List.Forall₂ Lined (Text.lines text) parts ∧
        Derives (marks Token.ofPiece? (1 + raised) text) parts.flatten := by
  induction text using Text.lines_induction generalizing raised with
  | nil =>
      rw [marks_nil, marks_nil]
      exact ⟨rfl, [], .nil, [], by simp, rfl, rfl⟩
  | last text within nonempty =>
      rw [Text.lines_of_notMem within nonempty] at clean ⊢
      obtain ⟨silent, part, lined, derived⟩ := marks_line raised (clean text (by simp))
      exact ⟨silent, [part], .cons lined .nil, by simpa using derived⟩
  | line text tail within ih =>
      rw [Text.lines_append_line within] at clean ⊢
      obtain ⟨first, others⟩ := List.forall_mem_cons.1 clean
      obtain ⟨silent, part, lined, derived⟩ := marks_line raised first
      obtain ⟨silentOthers, parts, linedOthers, derivedOthers⟩ := ih (raised + 1) others
      have closed := closed_of_silent silent
      rw [marks_line_append (fun _ _ => rfl) closed within, silent,
        marks_line_append (fun _ _ => rfl) closed within]
      exact ⟨silentOthers, part :: parts, .cons lined linedOthers, derived.append derivedOthers⟩

theorem ofSource_lines {source : String}
    (clean : ∀ line ∈ Text.lines source.toList,
      (ofSource (String.ofList line)).diagnostics = []) :
    ∃ parts : List (List Stmt), List.Forall₂ Lined (Text.lines source.toList) parts ∧
      ofSource source = ⟨parts.flatten, []⟩ := by
  obtain ⟨silent, parts, lined, derived⟩ := marks_lines 0 clean
  exact ⟨parts, lined, ofSource_of_derives silent derived⟩

end Program

end Lox
