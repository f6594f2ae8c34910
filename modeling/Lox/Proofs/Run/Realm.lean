import Lox.Proofs.Run.Discipline
import Lox.Proofs.Scope

/-!
What the code, the values and the failures of a run are like.  If every single step keeps to
a realm, whole runs do, and two machines in one realm that trace at different levels go the
same way.
-/

namespace Lox

def State.Every (good : Value → Prop) (state : State) : Prop :=
  ∀ scope entry, entry ∈ state.scopes.own scope → good entry.2

namespace State.Every

variable {good : Value → Prop} {state : State}

theorem bound (every : state.Every good) {value : Value} (found : good value) (scope : Nat)
    (name : Name) : (state.bound scope name value).Every good := by
  intro other entry member
  rcases Forest.mem_own_define member with rfl | old
  · exact found
  · exact every other entry old

theorem entered (every : state.Every good) {bindings : Bindings Value}
    (found : ∀ entry ∈ bindings, good entry.2) (enclosing : Nat) :
    (state.entered enclosing bindings).Every good := by
  intro other entry member
  by_cases fresh : other = state.scopes.size
  · subst fresh
    simp only [State.entered, Forest.own_push_size] at member
    exact found entry member
  · simp only [State.entered] at member
    rw [Forest.own_push_of_ne _ fresh] at member
    exact every other entry member

end State.Every

namespace Run

variable {α β : Type}

inductive Gives (form : α → Prop) (failing : Failure → Prop) : Run α → Prop
  | pure {value : α} : form value → Gives form failing (pure value)
  | fail {failure : Failure} : failing failure → Gives form failing (fail failure)

theorem Gives.mono {form : α → Prop} {failing weaker : Failure → Prop} {step : Run α}
    (gives : Gives form failing step) (implies : ∀ {failure}, failing failure → weaker failure) :
    Gives form weaker step := by
  cases gives with
  | pure formed => exact .pure formed
  | fail failed => exact .fail (implies failed)

end Run

structure Realm where
  exprs : Tree → Prop
  stmts : Tree → Prop
  params : Tree → Prop
  bodies : Tree → Prop
  constants : Tree → Prop
  sites : Tree → Prop
  unaryOperators : Tree → Prop
  binaryOperators : Tree → Prop
  lexemes : Json → Prop
  values : Value → Prop
  failures : Failure → Prop

namespace Realm

inductive Twins (realm : Realm) (traces : Array TraceEntry → Array TraceEntry → Prop)
    (state : State) : State → Prop
  | intro (trace : Array TraceEntry) : state.Every realm.values → traces state.trace trace →
      Twins realm traces state { state with trace }

theorem Twins.every {realm : Realm} {traces : Array TraceEntry → Array TraceEntry → Prop}
    {state other : State} (twins : realm.Twins traces state other) : state.Every realm.values := by
  cases twins with
  | intro _ every _ => exact every

abbrev Same {α : Type} (holds : α → Prop) (first second : α) : Prop :=
  first = second ∧ holds first

@[reducible] def likeness (realm : Realm)
    (traces : Array TraceEntry → Array TraceEntry → Prop) : Likeness where
  World := Unit
  carries _ _ := True
  steady _ _ := True
  grows _ _ := True
  states _ := realm.Twins traces
  values _ := Same realm.values
  scopes _ := Eq
  failures := Same realm.failures
  declares _ := True
  atTop _ := True
  exprs := Same realm.exprs
  stmts := Same realm.stmts
  params := Same realm.params
  bodies := Same realm.bodies
  constants := Same realm.constants
  sites := Same realm.sites
  returns := Same realm.sites
  unaryOperators := Same realm.unaryOperators
  binaryOperators := Same realm.binaryOperators
  logicalOperators := Same realm.sites
  lexemes := realm.lexemes
  slack := False
  lag := False

/-- Traces that stay related when both machines trace a message, and when only the second one
does. -/
structure Traces (traces : Array TraceEntry → Array TraceEntry → Prop) (left right : Settings) :
    Prop where
  clock : left.clock = right.clock
  levels : left.traceLevel ≤ right.traceLevel
  both : ∀ {first second} entry, traces first second →
    traces (first.push entry) (second.push entry)
  ahead : ∀ {first second} entry, left.traceLevel < right.traceLevel → traces first second →
    traces first (second.push entry)

theorem traces_eq (settings : Settings) : Traces Eq settings settings where
  clock := rfl
  levels := Nat.le_refl _
  both entry same := congrArg (·.push entry) same
  ahead _ less := absurd less (Nat.lt_irrefl _)

structure Closed (realm : Realm) (traces : Array TraceEntry → Array TraceEntry → Prop)
    (left right : Settings) : Prop where
  expr_fits : ∀ {tree}, realm.exprs tree → (realm.likeness traces).ExprFits tree tree
  stmt_fits : ∀ {tree}, realm.stmts tree → (realm.likeness traces).StmtFits tree tree
  nil : realm.values .nil
  number : ∀ value, realm.values (.number value)
  constant : ∀ {tree}, realm.constants tree → realm.values (.ofTree tree)
  closure : ∀ {params body} name scope serial, realm.params params → realm.bodies body →
    realm.values (.function ⟨name, params, body, scope, serial⟩)
  callee : ∀ {closure}, realm.values (.function closure) →
    (realm.likeness traces).Callees () closure closure
  arity : ∀ {closure}, realm.values (.function closure) → closure.arity? = none →
    realm.failures (.fault .notSequence) ∧ left.traceLevel = right.traceLevel
  unary : ∀ {operator operand}, realm.unaryOperators operator → realm.values operand →
    Run.Gives realm.values realm.failures
      (Run.token operator >>= fun token => Run.ofExcept (Operator.unary token operand))
  binary : ∀ {operator first second}, realm.binaryOperators operator → realm.values first →
    realm.values second → Run.Gives realm.values realm.failures
      (Run.token operator >>= fun token => Run.ofExcept (Operator.binary token first second))
  token : ∀ {site}, realm.sites site →
    Run.Gives (fun _ => True) realm.failures (Run.token site)
  lexeme : ∀ {site}, realm.sites site →
    Run.Gives realm.lexemes realm.failures (Run.lexeme site)
  name : ∀ {lexeme}, realm.lexemes lexeme →
    Run.Gives (fun _ => True) realm.failures (Run.name lexeme)
  undefined : ∀ {site} {α : Type}, realm.sites site →
    Run.Gives (fun _ : α => False) realm.failures (Run.undefined site)
  raise : ∀ {site message} {α : Type}, realm.sites site →
    Likeness.Ordinary message ∨ message = "Can't return from top-level code." →
    Run.Gives (fun _ : α => False) realm.failures (Run.raise site message)
  unsupported : ∀ {site feature} {α : Type}, realm.sites site → feature ∈ Likeness.unsupported →
    Run.Gives (fun _ : α => False) realm.failures (Run.unsupported site feature)
  clock : ∀ {reads}, left.clock reads = none → realm.failures (.fault .clockOverflow)

section Alike

variable {realm : Realm} {traces : Array TraceEntry → Array TraceEntry → Prop}
  {left right : Settings} {world : Unit} {α : Type}

open Likeness

theorem alike_of_gives {form : α → Prop} {related : Unit → α → α → Prop} {step : Run α}
    (gives : Run.Gives form realm.failures step) (formed : ∀ {value}, form value →
      related world value value) :
    (realm.likeness traces).Alike (fun _ _ => True) world related step step := by
  cases gives with
  | pure found => exact alike_pure trivial (formed found)
  | fail failed => exact alike_fail trivial ⟨rfl, failed⟩

theorem alike_of_fails {related : Unit → α → α → Prop} {step : Run α}
    (gives : Run.Gives (fun _ => False) realm.failures step) :
    (realm.likeness traces).Alike (fun _ _ => True) world related step step :=
  alike_of_gives gives False.elim

theorem bound_same {bindings bindings' : Bindings Value}
    (bound : (realm.likeness traces).Bound world bindings bindings') :
    bindings = bindings' ∧ ∀ entry ∈ bindings, realm.values entry.2 := by
  induction bound with
  | nil => exact ⟨rfl, by simp⟩
  | cons same _ ih =>
    obtain ⟨nameEq, valueEq, found⟩ := same
    obtain ⟨rfl, others⟩ := ih
    rw [Prod.ext nameEq valueEq] at found ⊢
    exact ⟨rfl, List.forall_mem_cons.2 ⟨found, others⟩⟩

section Closed

variable (closed : realm.Closed traces left right)
include closed

theorem Closed.alike_lexeme {site : Tree} (admitted : realm.sites site) :
    (realm.likeness traces).Alike (fun _ _ => True) world (fun _ => Same realm.lexemes)
      (Run.lexeme site) (Run.lexeme site) :=
  alike_of_gives (closed.lexeme admitted) fun spelled => ⟨rfl, spelled⟩

theorem Closed.alike_name {lexeme : Json} (admitted : realm.lexemes lexeme) :
    (realm.likeness traces).Alike (fun _ _ => True) world (fun _ => Eq)
      (Run.name lexeme) (Run.name lexeme) :=
  alike_of_gives (closed.name admitted) fun _ => rfl

theorem Closed.alike_lookup {site : Tree} (admitted : realm.sites site) :
    (realm.likeness traces).Alike (fun _ _ => True) world (fun _ => Same realm.values)
      (Run.lookup site) (Run.lookup site) := by
  refine (closed.alike_lexeme admitted).bind (fun _ _ => trivial) ?_
  rintro _ lexeme _ - ⟨rfl, spelled⟩
  refine (closed.alike_name spelled).bind (fun _ _ => trivial) ?_
  rintro _ name _ - rfl state _ ⟨trace, every, traced⟩
  dsimp only
  cases found : state.scopes.get? state.current name with
  | none =>
    exact alike_of_fails (closed.undefined admitted) _ _ (.intro trace every traced)
  | some value =>
    obtain ⟨holder, member⟩ := Forest.mem_own_of_get? found
    exact .done () trivial (.intro trace every traced) ⟨rfl, every holder _ member⟩

theorem Closed.alike_assign {site : Tree} {value : Value} (admitted : realm.sites site)
    (good : realm.values value) :
    (realm.likeness traces).Alike (fun _ _ => True) world (fun _ _ _ => True)
      (Run.assign site value) (Run.assign site value) := by
  refine (closed.alike_lexeme admitted).bind (fun _ _ => trivial) ?_
  rintro _ lexeme _ - ⟨rfl, spelled⟩
  refine (closed.alike_name spelled).bind (fun _ _ => trivial) ?_
  rintro _ name _ - rfl state _ ⟨trace, every, traced⟩
  dsimp only
  cases state.scopes.find? state.current name with
  | none =>
    exact alike_of_fails (closed.undefined admitted) _ _ (.intro trace every traced)
  | some holder =>
    exact .done () trivial (.intro trace (every.bound good holder name) traced) trivial

theorem Closed.alike_readClock (tracing : Traces traces left right) :
    (realm.likeness traces).Alike (fun _ _ => True) world (fun _ => Same realm.values)
      (Run.readClock left) (Run.readClock right) := by
  rintro state _ ⟨trace, every, traced⟩
  unfold Run.readClock
  rw [← tracing.clock]
  dsimp only
  cases reading : left.clock state.clockReads with
  | none =>
    exact .failed () trivial (.intro trace every traced) ⟨rfl, closed.clock reading⟩
  | some value =>
    exact .done () trivial (.intro trace every traced) ⟨rfl, closed.number value⟩

end Closed

theorem alike_record (message : Text)
    (push : ∀ {first second} entry, traces first second →
      traces (first.push entry) (second.push entry)) :
    (realm.likeness traces).Alike (fun _ _ => True) world (fun _ _ _ => True)
      (Run.record message) (Run.record message) := by
  rintro state _ ⟨trace, every, traced⟩
  exact .done () trivial (.intro _ every (push _ traced)) trivial

theorem alike_record_ahead (message : Text)
    (push : ∀ {first second} entry, traces first second → traces first (second.push entry)) :
    (realm.likeness traces).Alike (fun _ _ => True) world (fun _ _ _ => True)
      (Run.pure ()) (Run.record message) := by
  rintro state _ ⟨trace, every, traced⟩
  exact .done () trivial (.intro _ every (push _ traced)) trivial

theorem Traces.alike_traceAt (tracing : Traces traces left right) (level : Nat) (message : Text) :
    (realm.likeness traces).Alike (fun _ _ => True) world (fun _ _ _ => True)
      (Run.traceAt left level message) (Run.traceAt right level message) := by
  have levels := tracing.levels
  unfold Run.traceAt
  by_cases lower : level ≤ left.traceLevel
  · rw [if_pos lower, if_pos (Nat.le_trans lower levels)]
    exact alike_record message tracing.both
  · rw [if_neg lower]
    by_cases higher : level ≤ right.traceLevel
    · rw [if_pos higher]
      exact alike_record_ahead message fun entry => tracing.ahead entry (by omega)
    · rw [if_neg higher]
      exact alike_pure trivial trivial

theorem Closed.alike_traceFunction (closed : realm.Closed traces left right)
    (tracing : Traces traces left right) {closure : Closure}
    (admitted : realm.values (.function closure)) :
    (realm.likeness traces).Alike (fun _ _ => True) world (fun _ _ _ => True)
      (Run.traceFunction left closure) (Run.traceFunction right closure) := by
  have levels := tracing.levels
  unfold Run.traceFunction
  cases known : closure.arity? with
  | none =>
    obtain ⟨failed, same⟩ := closed.arity admitted known
    rw [same]
    by_cases traced : 2 ≤ right.traceLevel
    · rw [if_pos traced]
      exact alike_fail trivial ⟨rfl, failed⟩
    · rw [if_neg traced]
      exact alike_pure trivial trivial
  | some arity =>
    by_cases lower : 2 ≤ left.traceLevel
    · rw [if_pos lower, if_pos (Nat.le_trans lower levels)]
      rintro state _ ⟨trace, every, traced⟩
      exact .done () trivial (.intro _ every (tracing.both _ traced)) trivial
    · rw [if_neg lower]
      by_cases higher : 2 ≤ right.traceLevel
      · rw [if_pos higher]
        rintro state _ ⟨trace, every, traced⟩
        exact .done () trivial (.intro _ every (tracing.ahead _ (by omega) traced)) trivial
      · rw [if_neg higher]
        exact alike_pure trivial trivial

theorem alike_inScope {scope : Nat} {bindings : Bindings Value} {body body' : Run Flow}
    (found : ∀ entry ∈ bindings, realm.values entry.2)
    (alike : (realm.likeness traces).Alike (fun _ _ => True) ()
      (realm.likeness traces).Flows body body') :
    (realm.likeness traces).Alike (fun _ _ => True) world (realm.likeness traces).Flows
      (Run.inScope scope bindings body) (Run.inScope scope bindings body') := by
  rintro state _ ⟨trace, every, traced⟩
  have ends := alike (state.entered scope bindings) _
    (.intro trace (every.entered found scope) traced)
  change (realm.likeness traces).Ends (fun _ _ => True) world (realm.likeness traces).Flows
    ((body (state.entered scope bindings)).mapState state.left)
    ((body' { state.entered scope bindings with trace }).mapState state.left)
  refine ends.mapState fun {_ _ _} _ after => ?_
  obtain ⟨trace, every, traced⟩ := after
  exact ⟨(), trivial, .intro trace every traced, id⟩

theorem alike_inCall {body body' : Run Value}
    (alike : (realm.likeness traces).Alike (fun _ _ => True) ()
      (fun _ => Same realm.values) body body') :
    (realm.likeness traces).Alike (fun _ _ => True) world (fun _ => Same realm.values)
      (Run.inCall body) (Run.inCall body') := by
  rintro state _ ⟨trace, every, traced⟩
  have ends := alike state.deepened _ (.intro trace every traced)
  change (realm.likeness traces).Ends (fun _ _ => True) world (fun _ => Same realm.values)
    ((body state.deepened).mapState State.raised)
    ((body' { state.deepened with trace }).mapState State.raised)
  refine ends.mapState fun {_ _ _} _ after => ?_
  obtain ⟨trace, every, traced⟩ := after
  exact ⟨(), trivial, .intro trace every traced, id⟩

theorem Closed.lawful (closed : realm.Closed traces left right)
    (tracing : Traces traces left right) : (realm.likeness traces).Lawful left right where
  steady_refl := trivial
  steady_trans _ _ := trivial
  grows_of_steady := id
  grows_trans _ _ := trivial
  carries_of_grows _ := trivial
  values_carry _ := id
  scopes_carry _ := id
  declares_grow _ _ := trivial
  expr_fits := by
    rintro tree _ ⟨rfl, admitted⟩
    exact closed.expr_fits admitted
  stmt_fits := by
    rintro tree _ ⟨rfl, admitted⟩
    exact closed.stmt_fits admitted
  nil := ⟨rfl, closed.nil⟩
  constant := by
    rintro world tree _ ⟨rfl, admitted⟩
    exact ⟨rfl, closed.constant admitted⟩
  truthy same := congrArg Value.isTruthy same.1
  display same := congrArg Value.display same.1
  typeName same := congrArg Value.typeName same.1
  callable same := congrArg Value.callable? same.1
  arity := by
    rintro world first _ title ⟨rfl, admitted⟩ callable
    cases first with
    | function closure =>
      have unknown : closure.arity? = none := by
        simp only [Value.callable?, Option.some.injEq, Prod.mk.injEq] at callable
        exact callable.1
      exact ⟨rfl, (closed.arity admitted unknown).1⟩
    | _ => simp [Value.callable?] at callable
  callees := by
    rintro world first _ ⟨rfl, admitted⟩
    cases first with
    | function closure => exact .inl ⟨closure, closure, rfl, rfl, closed.callee admitted⟩
    | _ => exact .inr ⟨nofun, nofun⟩
  unary := by
    rintro world operator _ operand _ ⟨rfl, admitted⟩ ⟨rfl, found⟩
    exact alike_of_gives (closed.unary admitted found) fun good => ⟨rfl, good⟩
  binary := by
    rintro world operator _ first _ second _ ⟨rfl, admitted⟩ ⟨rfl, found⟩ ⟨rfl, otherFound⟩
    exact alike_of_gives (closed.binary admitted found otherFound) fun good => ⟨rfl, good⟩
  logical := by
    rintro world operator _ ⟨rfl, admitted⟩
    exact alike_of_gives (closed.token admitted) fun _ => rfl
  lexeme := by
    rintro world site _ ⟨rfl, admitted⟩
    exact closed.alike_lexeme admitted
  name := closed.alike_name
  lookup := by
    rintro world site _ ⟨rfl, admitted⟩
    exact closed.alike_lookup admitted
  assign := by
    rintro world site _ value _ ⟨rfl, admitted⟩ ⟨rfl, found⟩
    exact closed.alike_assign admitted found
  define := by
    rintro world name value _ - ⟨rfl, found⟩ state _ ⟨trace, every, traced⟩
    exact .done () trivial (.intro trace (every.bound found state.current name) traced) trivial
  close := by
    rintro world name params _ body _ - ⟨rfl, paramsFit⟩ ⟨rfl, bodyFits⟩ state _
      ⟨trace, every, traced⟩
    exact .done () trivial (.intro trace every traced)
      ⟨rfl, closed.closure name state.current state.functions paramsFit bodyFits⟩
  printLine line := by
    rintro state _ ⟨trace, every, traced⟩
    exact .done () trivial (.intro trace every traced) trivial
  readClock := closed.alike_readClock tracing
  traceAt level message := tracing.alike_traceAt level message
  traceFunction := by
    rintro world closure _ ⟨same, admitted⟩
    cases same
    exact closed.alike_traceFunction tracing admitted
  currentScope := by
    rintro world state _ ⟨trace, every, traced⟩
    exact .done () trivial (.intro trace every traced) rfl
  callDepth := by
    rintro world state _ ⟨trace, every, traced⟩
    exact .done () trivial (.intro trace every traced) ⟨Iff.rfl, fun _ => trivial⟩
  raise := by
    rintro world site _ message ⟨rfl, admitted⟩ ordinary
    exact alike_of_fails (closed.raise admitted (.inl ordinary))
  topReturn := by
    rintro world site _ ⟨rfl, admitted⟩ -
    exact alike_of_fails (closed.raise admitted (.inr rfl))
  unsupported := by
    rintro world site _ feature α related ⟨rfl, admitted⟩ member
    exact alike_of_fails (closed.unsupported admitted member)
  inScope := by
    rintro world scope _ bindings bindings' body body' rfl bound alike
    obtain ⟨rfl, found⟩ := bound_same bound
    exact alike_inScope found (alike trivial)
  inCall alike := alike_inCall (alike trivial)

theorem alike_attempt {body body' : Run Flow}
    (alike : (realm.likeness traces).Alike (fun _ _ => True) ()
      (realm.likeness traces).Flows body body') :
    (realm.likeness traces).Alike (fun _ _ => True) world
      (fun _ => Same fun attempt => ∀ error, attempt = .error error →
        realm.failures (.error error))
      (Run.attempt body) (Run.attempt body') := by
  intro state other states
  have ends := alike state other states
  unfold Run.attempt
  generalize body state = result, body' other = answer at ends ⊢
  cases ends with
  | done _ _ reached flows =>
    cases flows with
    | completed => exact .done () trivial reached ⟨rfl, nofun⟩
    | returned found =>
      obtain ⟨rfl, -⟩ := found
      exact .done () trivial reached ⟨rfl, nofun⟩
  | @failed _ failure _ _ _ _ reached failed =>
    obtain ⟨rfl, admitted⟩ := failed
    cases failure with
    | error error =>
      refine .done () trivial reached ⟨rfl, ?_⟩
      rintro _ ⟨⟩
      exact admitted
    | fault fault => exact .failed () trivial reached ⟨rfl, admitted⟩
  | spent => exact .spent
  | slack impossible | lag impossible => exact impossible.elim

/-- How a program of the realm ends, and that it ends so on both machines. -/
theorem Closed.alike_interpret (closed : realm.Closed traces left right)
    (tracing : Traces traces left right) (budget : Nat) {trees : List Tree}
    (admitted : ∀ tree ∈ trees, realm.stmts tree) :
    (realm.likeness traces).Alike (fun _ _ => True) ()
      (fun _ => Same fun outcome => ∀ error, outcome = .failed error →
        realm.failures (.error error))
      (Session.interpret left budget trees) (Session.interpret right budget trees) := by
  have runs := (closed.lawful tracing).runs budget budget (.inl rfl)
  induction trees with
  | nil => exact alike_pure trivial ⟨rfl, nofun⟩
  | cons first rest ih =>
    obtain ⟨firstAdmitted, restAdmitted⟩ := List.forall_mem_cons.1 admitted
    refine (tracing.alike_traceAt 1 _).bind (fun _ _ => trivial) ?_
    rintro ⟨⟩ _ _ - -
    refine (alike_attempt (runs.execute ⟨rfl, firstAdmitted⟩ (.inl trivial))).bind
      (fun _ _ => trivial) ?_
    rintro ⟨⟩ attempt _ - ⟨rfl, failing⟩
    cases attempt with
    | ok flow => exact ih restAdmitted
    | error error =>
      refine (tracing.alike_traceAt 1 _).bind (fun _ _ => trivial) ?_
      rintro ⟨⟩ _ _ - -
      refine alike_pure trivial ⟨rfl, ?_⟩
      rintro _ ⟨⟩
      exact failing error rfl

end Alike

end Realm

end Lox
