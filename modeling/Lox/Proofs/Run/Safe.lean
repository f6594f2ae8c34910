import Lox.Proofs.Run.Realm
import Lox.Proofs.Syntax.Proper

/-!
Parsed programs run without a fault: a run that ends gives a plain value or fails with
one of the errors of the language.
-/

namespace Lox

inductive RuntimeError.Known : Text → Prop
  | operand : Known "Operand must be a number."
  | operands : Known "Operands must be two numbers or two strings."
  | ordinary {message : Text} : Likeness.Ordinary message → Known message
  | topReturn : Known "Can't return from top-level code."
  | undefined (lexeme : Text) : Known ("Undefined variable '" ++ lexeme ++ "'.")
  | unsupported {feature : String} : feature ∈ Likeness.unsupported →
      Known (feature ++ " is not supported.")

def Failure.Known : Failure → Prop
  | .error raised => RuntimeError.Known raised.message
  | .fault _ => False

def Closure.Plain (closure : Closure) : Prop :=
  ∃ (params : List Token) (body : List Stmt), closure.params = .list (params.map Token.toTree) ∧
    closure.body = .list (Stmt.toTrees body) ∧ ∀ statement ∈ body, statement.Proper

def Value.Plain : Value → Prop
  | function closure => closure.Plain
  | foreign _ => False
  | _ => True

def Flow.Plain : Flow → Prop
  | completed => True
  | returned value => value.Plain

def State.Plain (state : State) : Prop :=
  ∀ scope entry, entry ∈ state.scopes.own scope → entry.2.Plain

theorem RuntimeError.Known.starts {message : Text} (known : Known message) :
    message.codes.take 3 ≠ (Text.ofString "Unknown").codes.take 3 := by
  cases known with
  | ordinary ordinary => cases ordinary <;> exact ne_of_beq_false rfl
  | unsupported member =>
      simp only [Likeness.unsupported, List.mem_cons, List.not_mem_nil, or_false] at member
      rcases member with rfl | rfl | rfl | rfl | rfl <;> decide
  | undefined => exact ne_of_beq_false rfl
  | _ => decide

def Result.Safe {α : Type} (form : α → Prop) : Result α → Prop
  | .done value after => after.Plain ∧ form value
  | .failed failure after => after.Plain ∧ failure.Known
  | .spent => True

namespace Run

variable {α β : Type}

def Safe (form : α → Prop) (step : Run α) : Prop :=
  ∀ state, state.Plain → (step state).Safe form

theorem gives_operator {known : List Kind} {operator : SavedToken}
    {result : Except Failure Value} (gives : Operator.Gives known operator result)
    (kind : operator.kind ∈ known) : Gives Value.Plain Failure.Known (ofExcept result) := by
  cases gives with
  | bool | number | text => exact .pure trivial
  | operand => exact .fail RuntimeError.Known.operand
  | operands => exact .fail RuntimeError.Known.operands
  | unknown _ unlisted => exact absurd kind unlisted

end Run

def Realm.parsed (failures : Failure → Prop) : Realm where
  exprs tree := ∃ expr : Expr, expr.Proper ∧ tree = expr.toTree
  stmts tree := ∃ statement : Stmt, statement.Proper ∧ tree = statement.toTree
  params tree := ∃ params : List Token, tree = .list (params.map Token.toTree)
  bodies tree := ∃ body : List Stmt, (∀ statement ∈ body, statement.Proper) ∧
    tree = .list (Stmt.toTrees body)
  constants tree := ∃ literal : Literal, tree = literal.toTree
  sites tree := ∃ token : Token, tree = token.toTree
  unaryOperators tree := ∃ token : Token, token.kind ∈ [.bang, .minus] ∧ tree = token.toTree
  binaryOperators tree := ∃ token : Token,
    token.kind ∈ [.bangEqual, .equalEqual, .greater, .greaterEqual, .less, .lessEqual, .minus,
      .plus, .slash, .star] ∧ tree = token.toTree
  lexemes lexeme := ∃ text : Text, lexeme = .string text
  values := Value.Plain
  failures := failures

namespace Realm.Parsed

open Likeness

variable {failures : Failure → Prop} {traces : Array TraceEntry → Array TraceEntry → Prop}
  {tree : Tree}

theorem optional {value : Option Expr} (proper : ∀ expr ∈ value, expr.Proper) :
    Optional ((parsed failures).likeness traces).exprs (Expr.optionTree value)
      (Expr.optionTree value) := by
  refine ⟨rfl, fun present => ?_⟩
  cases value with
  | none => simp [Expr.optionTree, Tree.isNil] at present
  | some value => exact ⟨rfl, value, proper value rfl, rfl⟩

theorem items {α : Type} {holds : Tree → Prop} {parts : List α} {toTree : α → Tree}
    (found : ∀ part ∈ parts, holds (toTree part)) :
    ((parsed failures).likeness traces).Sequence (Same holds) (.list (parts.map toTree))
      (.list (parts.map toTree)) := by
  refine .items rfl rfl (List.forall₂_same.2 fun tree member => ⟨rfl, ?_⟩)
  obtain ⟨part, partMember, rfl⟩ := List.mem_map.1 member
  exact found part partMember

theorem expr_fits (parses : (parsed failures).exprs tree) :
    ((parsed failures).likeness traces).ExprFits tree tree := by
  obtain ⟨expr, proper, rfl⟩ := parses
  cases proper with
  | literal value => exact .literal ⟨rfl, value, rfl⟩
  | grouping inner => exact .grouping ⟨rfl, _, inner, rfl⟩
  | @unary operator _ kind operand =>
    exact .unary ⟨rfl, operator, kind, rfl⟩ ⟨rfl, _, operand, rfl⟩
  | @binary _ _ operator left kind right =>
    exact .binary ⟨rfl, _, left, rfl⟩ ⟨rfl, operator, kind, rfl⟩ ⟨rfl, _, right, rfl⟩
  | logical operator left right =>
    exact .logical ⟨rfl, _, left, rfl⟩ ⟨rfl, operator, rfl⟩ ⟨rfl, _, right, rfl⟩
  | ident name => exact .ident ⟨rfl, name, rfl⟩
  | assign name value => exact .assign ⟨rfl, name, rfl⟩ ⟨rfl, _, value, rfl⟩
  | call paren callee arguments =>
    rw [Expr.toTree, Expr.toTrees_eq_map]
    exact .call ⟨rfl, _, callee, rfl⟩ ⟨rfl, paren, rfl⟩
      (items fun argument member => ⟨argument, arguments argument member, rfl⟩)
  | member name _ => exact .member ⟨rfl, name, rfl⟩
  | setMember name _ _ => exact .setMember ⟨rfl, name, rfl⟩
  | this keyword => exact .this ⟨rfl, keyword, rfl⟩
  | super keyword _ => exact .super ⟨rfl, keyword, rfl⟩

theorem stmt_fits (parses : (parsed failures).stmts tree) :
    ((parsed failures).likeness traces).StmtFits tree tree := by
  obtain ⟨statement, proper, rfl⟩ := parses
  cases proper with
  | expr value => exact .expr ⟨rfl, _, value, rfl⟩
  | print value => exact .print ⟨rfl, _, value, rfl⟩
  | var name initial => exact .var ⟨rfl, name, rfl⟩ (optional initial)
  | block body =>
    rw [Stmt.toTree, Stmt.toTrees_eq_map]
    exact .block (items fun statement member => ⟨statement, body statement member, rfl⟩)
  | ifThen condition thenBranch =>
    exact .ifThen ⟨rfl, _, condition, rfl⟩ ⟨rfl, _, thenBranch, rfl⟩ ⟨rfl, by simp [Tree.isNil]⟩
  | ifElse condition thenBranch elseBranch =>
    exact .ifThen ⟨rfl, _, condition, rfl⟩ ⟨rfl, _, thenBranch, rfl⟩
      ⟨rfl, fun _ => ⟨rfl, _, elseBranch, rfl⟩⟩
  | whileLoop condition body => exact .whileLoop ⟨rfl, _, condition, rfl⟩ ⟨rfl, _, body, rfl⟩
  | function name params body =>
    exact .function ⟨rfl, name, rfl⟩ ⟨rfl, params, rfl⟩ ⟨rfl, _, body, rfl⟩
  | returnStmt keyword value => exact .returnStmt ⟨rfl, keyword, rfl⟩ (optional value)
  | classDecl name => exact .classDecl ⟨rfl, name, rfl⟩

theorem callee {closure : Closure} (plain : closure.Plain) :
    ((parsed failures).likeness traces).Callees () closure closure := by
  obtain ⟨params, body, paramsEq, bodyEq, proper⟩ := plain
  rw [Stmt.toTrees_eq_map] at bodyEq
  refine ⟨rfl, ?_, ?_⟩
  · rw [paramsEq]
    exact items fun param _ => ⟨param, rfl⟩
  · rw [bodyEq]
    exact items fun statement member => ⟨statement, proper statement member, rfl⟩

theorem closed {left right : Settings} (known : ∀ {failure : Failure}, failure.Known →
      failures failure)
    (clock : ∀ {reads}, left.clock reads = none → failures (.fault .clockOverflow)) :
    (parsed failures).Closed traces left right where
  expr_fits := expr_fits
  stmt_fits := stmt_fits
  nil := trivial
  number _ := trivial
  constant := by
    rintro tree ⟨literal, rfl⟩
    cases literal <;> trivial
  closure := by
    rintro _ _ name scope serial ⟨params, rfl⟩ ⟨body, proper, rfl⟩
    exact ⟨params, body, rfl, rfl, proper⟩
  callee := callee
  arity := by
    rintro closure ⟨params, body, paramsEq, -, -⟩ unknown
    simp [Closure.arity?, paramsEq, Tree.elements?] at unknown
  unary := by
    rintro _ operand ⟨token, kind, rfl⟩ -
    exact (Run.gives_operator (Operator.gives_unary _ operand) kind).mono known
  binary := by
    rintro _ first second ⟨token, kind, rfl⟩ - -
    exact (Run.gives_operator (Operator.gives_binary _ first second) kind).mono known
  token := by
    rintro _ ⟨token, rfl⟩
    exact .pure trivial
  lexeme := by
    rintro _ ⟨token, rfl⟩
    exact .pure ⟨token.lexeme, rfl⟩
  name := by
    rintro _ ⟨text, rfl⟩
    exact .pure trivial
  undefined := by
    rintro _ α ⟨token, rfl⟩
    exact .fail (known (RuntimeError.Known.undefined _))
  raise := by
    rintro _ message α ⟨token, rfl⟩ (ordinary | rfl)
    · exact .fail (known (RuntimeError.Known.ordinary ordinary))
    · exact .fail (known RuntimeError.Known.topReturn)
  unsupported := by
    rintro _ feature α ⟨token, rfl⟩ member
    exact .fail (known (RuntimeError.Known.unsupported member))
  clock := clock

theorem lawful {settings : Settings} (total : ∀ reads, settings.clock reads ≠ none) :
    ((parsed Failure.Known).likeness Eq).Lawful settings settings :=
  (closed id fun missing => absurd missing (total _)).lawful (traces_eq settings)

theorem safe_of_alike {α : Type} {form : α → Prop} {related : Unit → α → α → Prop} {step : Run α}
    (alike : ((parsed Failure.Known).likeness Eq).Alike (fun _ _ => True) () related step step)
    (formed : ∀ {value other}, related () value other → form value) : Run.Safe form step := by
  intro state plain
  have ends := alike state state (.intro state.trace plain rfl)
  generalize step state = result at ends ⊢
  cases ends with
  | done _ _ twins found => exact ⟨twins.every, formed found⟩
  | failed _ _ twins failed => exact ⟨twins.every, failed.2⟩
  | spent => trivial
  | slack impossible | lag impossible => exact impossible.elim

theorem plain_of_flows {first second : Flow}
    (flows : ((parsed failures).likeness traces).Flows () first second) : first.Plain := by
  cases flows with
  | completed => trivial
  | returned found => exact found.2

end Realm.Parsed

theorem RuntimeError.Known.ne_unknown {message : Text} (known : Known message) (lexeme : Text) :
    message ≠ "Unknown operator '" ++ lexeme ++ "'." ∧
      message ≠ "Unknown unary operator '" ++ lexeme ++ "'." := by
  constructor
  · rintro rfl
    exact known.starts rfl
  · rintro rfl
    exact known.starts rfl

theorem Expr.Proper.safe_evaluate {expr : Expr} (proper : expr.Proper) {settings : Settings}
    (total : ∀ reads, settings.clock reads ≠ none) (budget : Nat) :
    Run.Safe Value.Plain (expr.toTree.evaluate settings budget) := by
  have runs := (Realm.Parsed.lawful total).runs budget budget (.inl rfl)
  exact Realm.Parsed.safe_of_alike (runs.evaluate ⟨rfl, expr, proper, rfl⟩) fun found => found.2

theorem Stmt.Proper.safe_execute {statement : Stmt} (proper : statement.Proper)
    {settings : Settings} (total : ∀ reads, settings.clock reads ≠ none) (budget : Nat) :
    Run.Safe Flow.Plain (statement.toTree.execute settings budget) := by
  have runs := (Realm.Parsed.lawful total).runs budget budget (.inl rfl)
  exact Realm.Parsed.safe_of_alike (runs.execute ⟨rfl, statement, proper, rfl⟩ (.inl trivial))
    Realm.Parsed.plain_of_flows

namespace Session

def Contained {α : Type} (step : Run α) : Prop :=
  ∀ state, state.Plain → step state = .spent ∨ ∃ value after, step state = .done value after ∧
    after.Plain

theorem contained_pure {α : Type} (value : α) : Contained (pure value) :=
  fun state plain => .inr ⟨value, state, rfl, plain⟩

theorem Contained.bind {α β : Type} {first : Run α} {next : α → Run β}
    (contained : Contained first) (containedNext : ∀ value, Contained (next value)) :
    Contained (first >>= next) := by
  intro state plain
  change Run.bind first next state = .spent ∨ ∃ value after,
    Run.bind first next state = .done value after ∧ after.Plain
  unfold Run.bind
  rcases contained state plain with ended | ⟨value, middle, ended, middlePlain⟩
  · rw [ended]
    exact .inl rfl
  · rw [ended]
    exact containedNext value middle middlePlain

theorem contained_traceAt (settings : Settings) (level : Nat) (message : Text) :
    Contained (Run.traceAt settings level message) := by
  unfold Run.traceAt
  split
  · exact fun state plain => .inr ⟨(), _, rfl, plain⟩
  · exact contained_pure ()

theorem contained_attempt {α : Type} {form : α → Prop} {step : Run α}
    (safe : Run.Safe form step) : Contained (Run.attempt step) := by
  intro state plain
  have ends := safe state plain
  unfold Run.attempt
  generalize step state = result at ends
  cases result with
  | done value after => exact .inr ⟨.ok value, after, rfl, ends.1⟩
  | failed failure after =>
      cases failure with
      | error error => exact .inr ⟨.error error, after, rfl, ends.1⟩
      | fault fault => exact ends.2.elim
  | spent => exact .inl rfl

theorem contained_interpret {settings : Settings} (total : ∀ reads, settings.clock reads ≠ none)
    (budget : Nat) {statements : List Stmt} (proper : ∀ statement ∈ statements, statement.Proper) :
    Contained (interpret settings budget (Stmt.toTrees statements)) := by
  induction statements with
  | nil => exact contained_pure _
  | cons first rest ih =>
      obtain ⟨firstProper, restProper⟩ := List.forall_mem_cons.1 proper
      rw [Stmt.toTrees, interpret]
      refine (contained_traceAt _ _ _).bind fun _ => ?_
      refine (contained_attempt (firstProper.safe_execute total budget)).bind fun outcome => ?_
      cases outcome with
      | ok flow => exact ih restProper
      | error error => exact (contained_traceAt _ _ _).bind fun _ => contained_pure _

theorem contained_runSource {settings : Settings} (total : ∀ reads, settings.clock reads ≠ none)
    (budget : Nat) (source : String) : Contained (runSource settings budget source) := by
  simp only [runSource]
  split
  · exact (contained_interpret total budget (Program.ofSource_proper source)).bind
      fun _ => contained_pure _
  · exact contained_pure _

/-- The states a machine is in between programs that were parsed, also if there were
problems next to the statements. -/
inductive Parsed (settings : Settings) : State → Prop
  | initial : Parsed settings .initial
  | interpret {state after : State} (budget : Nat) {statements : List Stmt} :
      Parsed settings state →
      (∀ statement ∈ statements, ∃ source, statement ∈ (Program.ofSource source).statements) →
      (interpret settings budget (Stmt.toTrees statements) state).state? = some after →
      Parsed settings after
  | runSource {state after : State} (budget : Nat) (source : String) :
      Parsed settings state → (runSource settings budget source state).state? = some after →
      Parsed settings after

theorem Contained.plain {α : Type} {step : Run α} (contained : Contained step)
    {state after : State} (plain : state.Plain) (ended : (step state).state? = some after) :
    after.Plain := by
  rcases contained state plain with spent | ⟨value, middle, done, middlePlain⟩
  · simp [spent] at ended
  · rw [done] at ended
    cases ended
    exact middlePlain

theorem Parsed.plain {settings : Settings} (total : ∀ reads, settings.clock reads ≠ none)
    {state : State} (parsed : Parsed settings state) : state.Plain := by
  induction parsed with
  | initial =>
      intro scope entry member
      cases scope with
      | zero =>
          simp only [State.initial, Forest.own, List.getElem?_toArray, List.getElem?_cons_zero,
            List.mem_cons, List.not_mem_nil, or_false] at member
          subst member
          trivial
      | succ scope => simp [State.initial, Forest.own] at member
  | interpret budget _ origins ended ih =>
      refine (contained_interpret total budget fun statement member => ?_).plain ih ended
      obtain ⟨source, found⟩ := origins statement member
      exact Program.ofSource_proper source statement found
  | runSource budget source _ ended ih =>
      exact (contained_runSource total budget source).plain ih ended

/-- Parsed programs run without a fault in every state that parsed programs lead to, a division
by zero of the host included: what a statement or an expression of theirs gives is plain, and
what it raises is an error of the language, never one of an operator that is not known. -/
theorem Parsed.safe {settings : Settings} (total : ∀ reads, settings.clock reads ≠ none)
    {state : State} (parsed : Parsed settings state) :
    state.Plain ∧
    (∀ source, ∀ statement ∈ (Program.ofSource source).statements, statement.Proper ∧
      ∀ budget, (statement.toTree.execute settings budget state).Safe Flow.Plain) ∧
    (∀ expr : Expr, expr.Proper →
      ∀ budget, (expr.toTree.evaluate settings budget state).Safe Value.Plain) ∧
    (∀ budget source failure after,
      Session.runSource settings budget source state ≠ .failed failure after) ∧
    (∀ message lexeme, RuntimeError.Known message →
      message ≠ "Unknown operator '" ++ lexeme ++ "'." ∧
        message ≠ "Unknown unary operator '" ++ lexeme ++ "'.") := by
  have plain := parsed.plain total
  refine ⟨plain, ?_, ?_, ?_, ?_⟩
  · intro source statement member
    have proper := Program.ofSource_proper source statement member
    exact ⟨proper, fun budget => proper.safe_execute total budget state plain⟩
  · intro expr proper budget
    exact proper.safe_evaluate total budget state plain
  · intro budget source failure after ended
    rcases contained_runSource total budget source state plain with spent | ⟨_, _, done, -⟩
    · rw [spent] at ended
      cases ended
    · rw [done] at ended
      cases ended
  · intro message lexeme known
    exact known.ne_unknown lexeme

/-- Dividing one by zero on a fresh machine. -/
theorem Parsed.safe_division :
    (∀ reads, (⟨0, fun _ => some 0⟩ : Settings).clock reads ≠ none) ∧
    Parsed ⟨0, fun _ => some 0⟩ .initial ∧
    (Tree.evaluate ⟨0, fun _ => some 0⟩ 3
      (Expr.toTree (.binary (.literal (.number 1)) ⟨.slash, "/", 1, .nil⟩ (.literal (.number 0))))
      .initial).Safe Value.Plain := by
  have proper : Expr.Proper
      (.binary (.literal (.number 1)) ⟨.slash, "/", 1, .nil⟩ (.literal (.number 0))) :=
    .binary (.literal _) (by decide) (.literal _)
  exact ⟨by simp, .initial, (Parsed.safe (by simp) .initial).2.2.1 _ proper 3⟩

end Session

end Lox
