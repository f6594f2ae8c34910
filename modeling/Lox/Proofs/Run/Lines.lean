import Lox.Proofs.Run.Realm
import Lox.Proofs.Run.Relined

/-!
Where the lines of runtime errors come from.  A program on other lines does the same and
reports the other lines; the line of an error is that of a token of the code that runs.
-/

namespace Lox

section Relabelled

variable (relabel : Int → Int)

def Outcome.relined : Outcome → Outcome
  | completed => completed
  | failed error => failed (error.relined relabel)

def State.relined (state : State) : State :=
  { state with scopes := state.scopes.map fun scope =>
      { scope with bindings := scope.bindings.map fun entry =>
          (entry.1, entry.2.relined relabel) } }

inductive Result.RelinedBy {α : Type} (relined : α → α) : Result α → Result α → Prop
  | done {value : α} {state other : State} : state.Relined (Eq relabel) other →
      RelinedBy relined (done value state) (done (relined value) other)
  | failed {failure : Failure} {state other : State} : state.Relined (Eq relabel) other →
      RelinedBy relined (failed failure state) (failed (failure.relined relabel) other)
  | spent : RelinedBy relined spent spent

end Relabelled

section Tokens

namespace Tree

mutual

/-- The tokens of a tree that a run can come upon; those inside a constant are only data. -/
def tokens : Tree → List SavedToken
  | list items => tokensOf items
  | token saved => [saved]
  | grouping a | ident a | this a | expr a | print a | block a => tokens a
  | unary a b | assign a b | member a b | super a b | var a b | whileLoop a b | returnStmt a b =>
      tokens a ++ tokens b
  | binary a b c | logical a b c | call a b c | setMember a b c | ifThen a b c | function a b c
  | classDecl a b c => tokens a ++ tokens b ++ tokens c
  | literal _ | nil | bool _ | number _ | text _ => []

def tokensOf : List Tree → List SavedToken
  | [] => []
  | first :: rest => tokens first ++ tokensOf rest

end

end Tree

/-- A token of the parameters or the body of a function that the state holds. -/
def State.HoldsToken (state : State) (token : SavedToken) : Prop :=
  ∃ scope name closure, (name, Value.function closure) ∈ state.scopes.own scope ∧
    (token ∈ closure.params.tokens ∨ token ∈ closure.body.tokens)

end Tokens

namespace Value.Moved

variable {relabel : Int → Int} {value other : Value}

theorem eq_relined (moved : Moved (Eq relabel) value other) : other = value.relined relabel := by
  cases moved with
  | simple simple =>
    cases value with
    | function closure => exact absurd rfl (simple closure)
    | _ => rfl
  | function params body =>
    obtain ⟨_, rfl, rfl⟩ := params
    obtain ⟨_, rfl, rfl⟩ := body
    rfl

theorem relined (value : Value) : Moved (Eq relabel) value (value.relined relabel) := by
  cases value with
  | function closure => exact .function ⟨relabel, rfl, rfl⟩ ⟨relabel, rfl, rfl⟩
  | _ => exact .simple nofun

end Value.Moved

theorem State.relined_relined (relabel : Int → Int) (state : State) :
    state.Relined (Eq relabel) (state.relined relabel) where
  size := by simp [State.relined]
  linked scope := by
    simp only [Forest.enclosing?, State.relined, Array.getElem?_map]
    cases state.scopes[scope]? <;> rfl
  own scope := by
    have own : (state.relined relabel).scopes.own scope =
        (state.scopes.own scope).map fun entry => (entry.1, entry.2.relined relabel) := by
      simp only [Forest.own, State.relined, Array.getElem?_map]
      cases state.scopes[scope]? <;> rfl
    rw [own, List.forall₂_map_right_iff, List.forall₂_same]
    intro entry _
    exact ⟨rfl, .relined entry.2⟩
  current := rfl
  callDepth := rfl
  functions := rfl
  clockReads := rfl
  printed := rfl

namespace Likeness.Relining

variable {relabel : Int → Int} {α : Type} {related : Unit → α → α → Prop} {relined : α → α}
  {first second : Result α}

theorem relinedBy_of_ends
    (ends : (relining (Eq relabel) False False).Ends (fun _ _ => True) () related first second)
    (moved : ∀ {value other}, related () value other → other = relined value) :
    first.RelinedBy relabel relined second := by
  cases ends with
  | done _ _ reached found =>
    rw [moved found]
    exact .done reached
  | failed _ _ reached found =>
    obtain ⟨_, rfl, rfl⟩ := found
    exact .failed reached
  | spent => exact .spent
  | slack impossible | lag impossible => exact impossible.elim

theorem Outcomes.eq_relined {outcome other : Outcome}
    (outcomes : Outcomes (Eq relabel) outcome other) : other = outcome.relined relabel := by
  cases outcomes with
  | completed => rfl
  | failed moved =>
    obtain ⟨_, rfl, rfl⟩ := moved
    rfl

end Likeness.Relining

namespace Operator

variable {operator : SavedToken} {operand left right : Value} {failure : Failure}

theorem Gives.exists_message {known : List Kind} (gives : Gives known operator (.error failure)) :
    ∃ message, failure = operator.error message := by
  cases gives <;> exact ⟨_, rfl⟩

theorem error_of_unary (failed : unary operator operand = .error failure) :
    ∃ message, failure = operator.error message :=
  (failed ▸ gives_unary operator operand).exists_message

theorem error_of_binary (failed : binary operator left right = .error failure) :
    ∃ message, failure = operator.error message :=
  (failed ▸ gives_binary operator left right).exists_message

end Operator

namespace Session

open Likeness Likeness.Relining

theorem interpret_relinedBy (relabel : Int → Int) (settings : Settings) (budget : Nat)
    (state : State) (statements : List Stmt) :
    (interpret settings budget (Stmt.toTrees statements) state).RelinedBy relabel
      (Outcome.relined relabel)
      (interpret settings budget (Stmt.toTrees (statements.map (Stmt.relined relabel)))
        (state.relined relabel)) := by
  have moved : List.Forall₂ (Upto (Eq relabel) Tree.relined) (Stmt.toTrees statements)
      (Stmt.toTrees (statements.map (Stmt.relined relabel))) :=
    Stmt.forall₂_toTrees_relined rfl statements
  have alike : (relining (Eq relabel) False False).Alike (fun _ _ => True) ()
      (fun _ => Outcomes (Eq relabel)) (interpret settings budget (Stmt.toTrees statements))
      (interpret settings budget (Stmt.toTrees (statements.map (Stmt.relined relabel)))) :=
    alike_interpret ⟨relabel, rfl⟩ settings (.inl rfl) moved
  exact relinedBy_of_ends (alike _ _ (state.relined_relined relabel)) Outcomes.eq_relined

theorem evaluate_relinedBy (relabel : Int → Int) (settings : Settings) (budget : Nat)
    (state : State) (expr : Expr) :
    (evaluate settings budget expr state).RelinedBy relabel (Value.relined relabel)
      (evaluate settings budget (expr.relined relabel) (state.relined relabel)) := by
  have laws : (relining (Eq relabel) False False).Lawful settings settings :=
    lawful False False ⟨relabel, rfl⟩ settings
  have runs := laws.runs budget budget (.inl rfl)
  have moved : Upto (Eq relabel) Tree.relined expr.toTree (expr.relined relabel).toTree :=
    ⟨relabel, rfl, Expr.toTree_relined relabel expr⟩
  exact relinedBy_of_ends (runs.evaluate moved _ _ (state.relined_relined relabel))
    Value.Moved.eq_relined

end Session

section Lines

def Tree.On (allowed : Json → Prop) (tree : Tree) : Prop :=
  ∀ token ∈ tree.tokens, allowed token.line

def Value.On (allowed : Json → Prop) : Value → Prop
  | function closure => closure.params.On allowed ∧ closure.body.On allowed
  | _ => True

def Failure.On (allowed : Json → Prop) : Failure → Prop
  | error raised => allowed raised.line
  | fault _ => True

variable {allowed : Json → Prop}

theorem Tree.mem_tokensOf {trees : List Tree} {token : SavedToken} :
    token ∈ tokensOf trees ↔ ∃ tree ∈ trees, token ∈ tree.tokens := by
  induction trees with
  | nil => simp [tokensOf]
  | cons first rest ih => simp [tokensOf, ih]

theorem Tree.on_items {tree : Tree} {items : List Tree} (on : tree.On allowed)
    (found : tree.elements? = some items) : ∀ item ∈ items, item.On allowed := by
  intro item member token inside
  cases tree with
  | list others =>
    cases found
    exact on token (mem_tokensOf.2 ⟨item, member, inside⟩)
  | text value =>
    cases found
    obtain ⟨piece, -, rfl⟩ := List.mem_map.1 member
    simp [tokens] at inside
  | _ => cases found

def Realm.onLines (allowed : Json → Prop) : Realm where
  exprs := Tree.On allowed
  stmts := Tree.On allowed
  params := Tree.On allowed
  bodies := Tree.On allowed
  constants _ := True
  sites := Tree.On allowed
  unaryOperators := Tree.On allowed
  binaryOperators := Tree.On allowed
  lexemes _ := True
  values := Value.On allowed
  failures := Failure.On allowed

namespace Realm.OnLines

variable {settings : Settings} {tree site : Tree} {α : Type}

theorem sequence (on : tree.On allowed) :
    ((onLines allowed).likeness Eq).Sequence (Same (Tree.On allowed)) tree tree := by
  cases found : tree.elements? with
  | none => exact .strange found found ⟨rfl, trivial⟩
  | some items =>
    refine .items found found (List.forall₂_same.2 fun item member => ⟨rfl, ?_⟩)
    exact Tree.on_items on found item member

theorem expr_fits (on : tree.On allowed) :
    ((onLines allowed).likeness Eq).ExprFits tree tree := by
  simp only [Tree.On] at on
  cases tree <;> simp only [Tree.tokens, List.forall_mem_append] at on
  case literal => exact .literal ⟨rfl, trivial⟩
  case grouping => exact .grouping ⟨rfl, on⟩
  case unary => exact .unary ⟨rfl, on.1⟩ ⟨rfl, on.2⟩
  case binary => exact .binary ⟨rfl, on.1.1⟩ ⟨rfl, on.1.2⟩ ⟨rfl, on.2⟩
  case logical => exact .logical ⟨rfl, on.1.1⟩ ⟨rfl, on.1.2⟩ ⟨rfl, on.2⟩
  case ident => exact .ident ⟨rfl, on⟩
  case assign => exact .assign ⟨rfl, on.1⟩ ⟨rfl, on.2⟩
  case call => exact .call ⟨rfl, on.1.1⟩ ⟨rfl, on.1.2⟩ (sequence on.2)
  case member => exact .member ⟨rfl, on.2⟩
  case setMember => exact .setMember ⟨rfl, on.1.2⟩
  case this => exact .this ⟨rfl, on⟩
  case super => exact .super ⟨rfl, on.1⟩
  all_goals exact .strange rfl rfl ⟨rfl, trivial⟩

theorem stmt_fits (on : tree.On allowed) :
    ((onLines allowed).likeness Eq).StmtFits tree tree := by
  simp only [Tree.On] at on
  cases tree <;> simp only [Tree.tokens, List.forall_mem_append] at on
  case expr => exact .expr ⟨rfl, on⟩
  case print => exact .print ⟨rfl, on⟩
  case var => exact .var ⟨rfl, on.1⟩ ⟨rfl, fun _ => ⟨rfl, on.2⟩⟩
  case block => exact .block (sequence on)
  case ifThen =>
    exact .ifThen ⟨rfl, on.1.1⟩ ⟨rfl, on.1.2⟩ ⟨rfl, fun _ => ⟨rfl, on.2⟩⟩
  case whileLoop => exact .whileLoop ⟨rfl, on.1⟩ ⟨rfl, on.2⟩
  case function => exact .function ⟨rfl, on.1.1⟩ ⟨rfl, on.1.2⟩ ⟨rfl, on.2⟩
  case returnStmt => exact .returnStmt ⟨rfl, on.1⟩ ⟨rfl, fun _ => ⟨rfl, on.2⟩⟩
  case classDecl => exact .classDecl ⟨rfl, on.1.1⟩
  all_goals exact .strange rfl rfl ⟨rfl, trivial⟩

theorem gives_at {form : α → Prop} {step : SavedToken → Run α} (on : site.On allowed)
    (fails : ∀ token, allowed token.line →
      Run.Gives form (Failure.On allowed) (step token)) :
    Run.Gives form (Failure.On allowed) (Run.token site >>= step) := by
  cases site with
  | token saved => exact fails saved (on saved (by simp [Tree.tokens]))
  | _ => exact .fail trivial

theorem gives_ofExcept {token : SavedToken} {outcome : Except Failure Value}
    (on : allowed token.line) (simple : ∀ {value}, outcome = .ok value → value.Simple)
    (raised : ∀ {failure}, outcome = .error failure → ∃ message, failure = token.error message) :
    Run.Gives (Value.On allowed) (Failure.On allowed) (Run.ofExcept outcome) := by
  cases outcome with
  | ok value =>
    refine .pure ?_
    cases value with
    | function closure => exact absurd rfl (simple rfl closure)
    | _ => trivial
  | error failure =>
    obtain ⟨message, rfl⟩ := raised rfl
    exact .fail on

theorem closed (allowed : Json → Prop) (settings : Settings) :
    (onLines allowed).Closed Eq settings settings where
  expr_fits := expr_fits
  stmt_fits := stmt_fits
  nil := trivial
  number _ := trivial
  constant {tree} _ := by cases tree <;> trivial
  closure _ _ _ params body := ⟨params, body⟩
  callee on := ⟨rfl, sequence on.1, sequence on.2⟩
  arity _ _ := ⟨trivial, rfl⟩
  unary on _ := gives_at on fun token line =>
    gives_ofExcept line Operator.simple_of_unary Operator.error_of_unary
  binary on _ _ := gives_at on fun token line =>
    gives_ofExcept line Operator.simple_of_binary Operator.error_of_binary
  token {site} _ := by
    cases site <;> first | exact .pure trivial | exact .fail trivial
  lexeme {site} _ := by
    cases site <;> first | exact .pure trivial | exact .fail trivial
  name {lexeme} _ := by
    unfold Run.name
    split
    · exact .pure trivial
    · exact .fail trivial
  undefined {site} {_} on := by
    cases site with
    | token saved => exact .fail (on saved (by simp [Tree.tokens]))
    | _ => exact .fail trivial
  raise {site} {_} {_} on _ := by
    cases site with
    | token saved => exact .fail (on saved (by simp [Tree.tokens]))
    | _ => exact .fail trivial
  unsupported {site} {_} {_} on _ := by
    cases site with
    | token saved => exact .fail (on saved (by simp [Tree.tokens]))
    | _ => exact .fail trivial
  clock _ := trivial

end Realm.OnLines

namespace Session

variable (settings : Settings) (budget : Nat) {state : State}

theorem interpret_on (every : state.Every (Value.On allowed)) {trees : List Tree}
    (on : ∀ tree ∈ trees, tree.On allowed) {error : RuntimeError} {after : State}
    (ended : interpret settings budget trees state = .done (.failed error) after) :
    allowed error.line := by
  have ends := (Realm.OnLines.closed allowed settings).alike_interpret (Realm.traces_eq settings)
    budget on state state (.intro state.trace every rfl)
  rw [ended] at ends
  cases ends with
  | done _ _ _ found => exact found.2 error rfl

theorem evaluate_on (every : state.Every (Value.On allowed)) {tree : Tree}
    (on : tree.On allowed) {error : RuntimeError} {after : State}
    (ended : tree.evaluate settings budget state = .failed (.error error) after) :
    allowed error.line := by
  have lawful := (Realm.OnLines.closed allowed settings).lawful (Realm.traces_eq settings)
  have alike : ((Realm.onLines allowed).likeness Eq).Alike (fun _ _ => True) ()
      (fun _ => Realm.Same (Value.On allowed)) (tree.evaluate settings budget)
      (tree.evaluate settings budget) :=
    (lawful.runs budget budget (.inl rfl)).evaluate ⟨rfl, on⟩
  have ends := alike state state (.intro state.trace every rfl)
  rw [ended] at ends
  cases ends with
  | failed _ _ _ found => exact found.2

def OfCode (tokens : List SavedToken) (state : State) (line : Json) : Prop :=
  ∃ token, (token ∈ tokens ∨ state.HoldsToken token) ∧ line = token.line

theorem every_ofCode (tokens : List SavedToken) (state : State) :
    state.Every (Value.On (OfCode tokens state)) := by
  rintro scope ⟨name, value⟩ member
  cases value with
  | function closure =>
    constructor
    · intro token inside
      exact ⟨token, .inr ⟨scope, name, closure, member, .inl inside⟩, rfl⟩
    · intro token inside
      exact ⟨token, .inr ⟨scope, name, closure, member, .inr inside⟩, rfl⟩
  | _ => trivial

/-- On other lines a program and an expression do the same and report the other lines, and the
line of an error is that of a token of the code that ran. -/
theorem lines_only_reported (relabel : Int → Int) (state : State) :
    (∀ statements : List Stmt,
      (interpret settings budget (Stmt.toTrees statements) state).RelinedBy relabel
          (Outcome.relined relabel)
          (interpret settings budget (Stmt.toTrees (statements.map (Stmt.relined relabel)))
            (state.relined relabel)) ∧
        ∀ error after,
          interpret settings budget (Stmt.toTrees statements) state = .done (.failed error) after →
            OfCode (Tree.tokensOf (Stmt.toTrees statements)) state error.line) ∧
    ∀ expr : Expr,
      (evaluate settings budget expr state).RelinedBy relabel (Value.relined relabel)
          (evaluate settings budget (expr.relined relabel) (state.relined relabel)) ∧
        ∀ error after, evaluate settings budget expr state = .failed (.error error) after →
          OfCode expr.toTree.tokens state error.line := by
  constructor
  · intro statements
    refine ⟨interpret_relinedBy relabel settings budget state statements, ?_⟩
    intro error after ended
    refine interpret_on settings budget (every_ofCode _ state) ?_ ended
    intro tree member token inside
    exact ⟨token, .inl (Tree.mem_tokensOf.2 ⟨tree, member, inside⟩), rfl⟩
  · intro expr
    refine ⟨evaluate_relinedBy relabel settings budget state expr, ?_⟩
    intro error after ended
    exact evaluate_on settings budget (every_ofCode _ state)
      (fun token inside => ⟨token, .inl inside, rfl⟩) ended

end Session

end Lines

end Lox
