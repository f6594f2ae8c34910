import Lox.Proofs.Run.Steps

/-!
What runs do to the state of one machine.  A discipline says how the state may change,
which states are fine, and which values and scopes are good in a state; if every single
step keeps it, every run does.
-/

namespace Lox

structure Discipline where
  steady : State → State → Prop
  grows : State → State → Prop
  fine : State → Prop
  good : State → Value → Prop
  scope : State → Nat → Prop

namespace State

def entered (state : State) (enclosing : Nat) (bindings : Bindings Value) : State :=
  { state with
    scopes := state.scopes.push ⟨some enclosing, bindings⟩, current := state.scopes.size }

def left (state after : State) : State :=
  { after with current := state.current }

def deepened (state : State) : State :=
  { state with callDepth := state.callDepth + 1 }

def raised (after : State) : State :=
  { after with callDepth := after.callDepth - 1 }

def bound (state : State) (scope : Nat) (name : Name) (value : Value) : State :=
  { state with scopes := state.scopes.define scope name value }

end State

namespace Discipline

variable (rule : Discipline)

structure Counts (state after : State) : Prop where
  scopes : after.scopes = state.scopes
  current : after.current = state.current
  callDepth : after.callDepth = state.callDepth
  printed : state.printed.toList <+: after.printed.toList

structure Kept : Prop where
  steady_refl : ∀ state, rule.steady state state
  steady_trans : ∀ {state middle after}, rule.steady state middle → rule.steady middle after →
    rule.steady state after
  grows_of_steady : ∀ {state after}, rule.steady state after → rule.grows state after
  grows_trans : ∀ {state middle after}, rule.grows state middle → rule.grows middle after →
    rule.grows state after
  good_grows : ∀ {state after value}, rule.grows state after → rule.good state value →
    rule.good after value
  scope_grows : ∀ {state after scope}, rule.grows state after → rule.scope state scope →
    rule.scope after scope
  simple : ∀ {state value}, value.Simple → rule.good state value
  counts : ∀ {state after}, Counts state after → rule.fine state →
    rule.steady state after ∧ rule.fine after
  current : ∀ {state}, rule.fine state → rule.scope state state.current
  found : ∀ {state scope name value}, rule.fine state → rule.scope state scope →
    state.scopes.get? scope name = some value → rule.good state value
  callee : ∀ {state closure}, rule.good state (.function closure) →
    rule.scope state closure.scope
  closure : ∀ {state : State} {closure : Closure}, rule.fine state →
    closure.scope = state.current → rule.good state (.function closure)
  assign : ∀ {state : State} {name holder value}, rule.fine state → rule.good state value →
    state.scopes.find? state.current name = some holder →
    rule.steady state (state.bound holder name value) ∧ rule.fine (state.bound holder name value)
  define : ∀ {state : State} {name value}, rule.fine state → rule.good state value →
    rule.grows state (state.bound state.current name value) ∧
      rule.fine (state.bound state.current name value)
  enter : ∀ {state enclosing bindings}, rule.fine state → rule.scope state enclosing →
    (∀ entry ∈ bindings, rule.good state entry.2) → rule.fine (state.entered enclosing bindings)
  leave : ∀ {state after enclosing bindings}, rule.fine state →
    rule.grows (state.entered enclosing bindings) after → rule.fine after →
    rule.steady state (state.left after) ∧ rule.fine (state.left after) ∧
      ∀ {value}, rule.good after value → rule.good (state.left after) value
  deepen : ∀ {state}, rule.fine state → rule.fine state.deepened ∧
    (∀ {value}, rule.good state value → rule.good state.deepened value) ∧
      ∀ {scope}, rule.scope state scope → rule.scope state.deepened scope
  rise : ∀ {state after}, rule.fine state → rule.steady state.deepened after → rule.fine after →
    rule.steady state after.raised ∧ rule.fine after.raised ∧
      ∀ {value}, rule.good after value → rule.good after.raised value

@[reducible] def likeness : Likeness where
  World := State
  carries state after := (∀ {value}, rule.good state value → rule.good after value) ∧
    ∀ {scope}, rule.scope state scope → rule.scope after scope
  steady := rule.steady
  grows := rule.grows
  states world state other := state = world ∧ other = world ∧ rule.fine world
  values world value other := value = other ∧ rule.good world value
  scopes world scope other := scope = other ∧ rule.scope world scope
  failures := Eq
  declares _ := True
  atTop _ := True
  exprs := Eq
  stmts := Eq
  params := Eq
  bodies := Eq
  constants := Eq
  sites := Eq
  returns := Eq
  unaryOperators := Eq
  binaryOperators := Eq
  logicalOperators := Eq
  lexemes _ := True
  slack := False
  lag := False

variable {rule} {α β : Type}

theorem reflexive : rule.likeness.Reflexive := by
  constructor <;> intro _ <;> rfl

def Ends (rule : Discipline) (moves : State → State → Prop) (form : State → α → Prop)
    (state : State) : Result α → Prop
  | .done value after => moves state after ∧ rule.fine after ∧ form after value
  | .failed _ after => moves state after ∧ rule.fine after
  | .spent => True

def Follows (rule : Discipline) (moves : State → State → Prop) (form : State → α → Prop)
    (step : Run α) : Prop :=
  ∀ state, rule.fine state → rule.Ends moves form state (step state)

theorem ends_of_alike {moves : State → State → Prop} {form : State → α → Prop}
    {related : State → α → α → Prop} {step : Run α} {state : State}
    (alike : rule.likeness.Alike moves state related step step) (fine : rule.fine state)
    (formed : ∀ {after value}, related after value value → form after value) :
    rule.Ends moves form state (step state) := by
  have ends := alike state state ⟨rfl, rfl, fine⟩
  generalize step state = result at ends
  cases ends with
  | done after moved states found =>
      obtain ⟨rfl, -, afterFine⟩ := states
      exact ⟨moved, afterFine, formed found⟩
  | failed after moved states =>
      obtain ⟨rfl, -, afterFine⟩ := states
      exact ⟨moved, afterFine⟩
  | spent => trivial
  | slack impossible | lag impossible => exact impossible.elim

theorem Ends.of_state? {moves : State → State → Prop} {form : State → α → Prop}
    {state after : State} {result : Result α} (ends : rule.Ends moves form state result)
    (ended : result.state? = some after) : moves state after ∧ rule.fine after := by
  cases result with
  | done value final =>
      cases ended
      exact ⟨ends.1, ends.2.1⟩
  | failed failure final =>
      cases ended
      exact ends
  | spent => simp at ended

theorem bound_good {world : State} {bindings bindings' : Bindings Value}
    (bound : rule.likeness.Bound world bindings bindings') :
    bindings = bindings' ∧ ∀ entry ∈ bindings, rule.good world entry.2 := by
  induction bound with
  | nil => exact ⟨rfl, by simp⟩
  | cons same _ ih =>
      obtain ⟨nameEq, valueEq, good⟩ := same
      obtain ⟨rfl, others⟩ := ih
      rw [Prod.ext nameEq valueEq] at good ⊢
      exact ⟨rfl, List.forall_mem_cons.2 ⟨good, others⟩⟩

variable {world : State}

theorem Kept.alike_inScope (kept : rule.Kept) {scope : Nat} {bindings : Bindings Value}
    {body body' : Run Flow} (allowed : rule.scope world scope)
    (good : ∀ entry ∈ bindings, rule.good world entry.2)
    (alike : ∀ inner, rule.likeness.Alike rule.grows inner rule.likeness.Flows body body') :
    rule.likeness.Alike rule.steady world rule.likeness.Flows (Run.inScope scope bindings body)
      (Run.inScope scope bindings body') := by
  rintro state other ⟨stateEq, otherEq, fine⟩
  rw [stateEq, otherEq]
  have ends := alike (world.entered scope bindings) _ _ ⟨rfl, rfl, kept.enter fine allowed good⟩
  change rule.likeness.Ends rule.steady world rule.likeness.Flows
    ((body (world.entered scope bindings)).mapState world.left)
    ((body' (world.entered scope bindings)).mapState world.left)
  refine ends.mapState fun moved states => ?_
  obtain ⟨rfl, rfl, afterFine⟩ := states
  obtain ⟨steady, leftFine, carry⟩ := kept.leave fine moved afterFine
  exact ⟨_, steady, ⟨rfl, rfl, leftFine⟩,
    fun flows => flows.mono fun found => ⟨found.1, carry found.2⟩⟩

theorem Kept.alike_inCall (kept : rule.Kept) {body body' : Run Value}
    (alike : rule.likeness.carries world world.deepened →
      rule.likeness.Alike rule.steady world.deepened rule.likeness.values body body') :
    rule.likeness.Alike rule.steady world rule.likeness.values (Run.inCall body)
      (Run.inCall body') := by
  rintro state other ⟨stateEq, otherEq, fine⟩
  rw [stateEq, otherEq]
  obtain ⟨deepFine, carryIn⟩ := kept.deepen fine
  have ends := alike carryIn _ _ ⟨rfl, rfl, deepFine⟩
  change rule.likeness.Ends rule.steady world rule.likeness.values
    ((body world.deepened).mapState State.raised) ((body' world.deepened).mapState State.raised)
  refine ends.mapState fun moved states => ?_
  obtain ⟨rfl, rfl, afterFine⟩ := states
  obtain ⟨steady, raisedFine, carry⟩ := kept.rise fine moved afterFine
  exact ⟨_, steady, ⟨rfl, rfl, raisedFine⟩, fun found => ⟨found.1, carry found.2⟩⟩

theorem Kept.alike_counts (kept : rule.Kept) {related : State → α → α → Prop} {step : Run α}
    {value : α} {after : State} (ended : step world = .done value after)
    (counts : Counts world after)
    (formed : rule.steady world after → rule.fine world → related after value value) :
    rule.likeness.Alike rule.steady world related step step := by
  rintro state other ⟨stateEq, otherEq, fine⟩
  obtain ⟨steady, afterFine⟩ := kept.counts counts fine
  rw [stateEq, otherEq, ended]
  exact .done after steady ⟨rfl, rfl, afterFine⟩ (formed steady fine)

theorem Kept.alike_fixed (kept : rule.Kept) {form : α → Prop} {related : State → α → α → Prop}
    {step : Run α} (fixed : Run.Fixed form step)
    (formed : ∀ value, form value → related world value value) :
    rule.likeness.Alike rule.steady world related step step :=
  Likeness.alike_fixed fixed (kept.steady_refl world) (fun _ => rfl) formed

theorem Kept.alike_same (kept : rule.Kept) {form : α → Prop} {step : Run α}
    (fixed : Run.Fixed form step) :
    rule.likeness.Alike rule.steady world (fun _ => Eq) step step :=
  kept.alike_fixed fixed fun _ _ => rfl

theorem Kept.alike_lookup (kept : rule.Kept) (site : Tree) :
    rule.likeness.Alike rule.steady world rule.likeness.values (Run.lookup site)
      (Run.lookup site) := by
  refine (kept.alike_same (Run.fixed_lexeme site)).bind kept.steady_trans ?_
  rintro middle lexeme _ - rfl
  refine (kept.alike_same (Run.fixed_name lexeme)).bind kept.steady_trans ?_
  rintro world name _ - rfl state other ⟨stateEq, otherEq, fine⟩
  rw [stateEq, otherEq]
  dsimp only
  cases found : world.scopes.get? world.current name with
  | none =>
      exact kept.alike_fixed (Run.fixed_undefined (fun _ => False) site) (fun _ => False.elim) _ _
        ⟨rfl, rfl, fine⟩
  | some value =>
      exact .done world (kept.steady_refl world) ⟨rfl, rfl, fine⟩
        ⟨rfl, kept.found fine (kept.current fine) found⟩

theorem Kept.alike_assign (kept : rule.Kept) (site : Tree) {value : Value}
    (good : rule.good world value) :
    rule.likeness.Alike rule.steady world (fun _ _ _ => True) (Run.assign site value)
      (Run.assign site value) := by
  refine (kept.alike_same (Run.fixed_lexeme site)).bind kept.steady_trans ?_
  rintro spelled lexeme _ first rfl
  refine (kept.alike_same (Run.fixed_name lexeme)).bind kept.steady_trans ?_
  rintro world name _ second rfl state other ⟨stateEq, otherEq, fine⟩
  have grown := kept.grows_of_steady (kept.steady_trans first second)
  rw [stateEq, otherEq]
  dsimp only
  cases found : world.scopes.find? world.current name with
  | none =>
      exact kept.alike_fixed (Run.fixed_undefined (fun _ => False) site) (fun _ => False.elim) _ _
        ⟨rfl, rfl, fine⟩
  | some holder =>
      obtain ⟨steady, afterFine⟩ := kept.assign fine (kept.good_grows grown good) found
      exact .done _ steady ⟨rfl, rfl, afterFine⟩ trivial

theorem Kept.alike_readClock (kept : rule.Kept) (settings : Settings) :
    rule.likeness.Alike rule.steady world rule.likeness.values (Run.readClock settings)
      (Run.readClock settings) := by
  cases reading : settings.clock world.clockReads with
  | none =>
      rintro state other ⟨stateEq, otherEq, fine⟩
      rw [stateEq, otherEq]
      unfold Run.readClock
      rw [reading]
      exact .failed world (kept.steady_refl world) ⟨rfl, rfl, fine⟩ rfl
  | some value =>
      have ended : Run.readClock settings world =
          .done (.number value) { world with clockReads := world.clockReads + 1 } := by
        unfold Run.readClock
        rw [reading]
      exact kept.alike_counts ended ⟨rfl, rfl, rfl, List.prefix_rfl⟩ fun _ _ =>
        ⟨rfl, kept.simple nofun⟩

theorem Kept.alike_traceAt (kept : rule.Kept) (settings : Settings) (level : Nat) (message : Text) :
    rule.likeness.Alike rule.steady world (fun _ _ _ => True) (Run.traceAt settings level message)
      (Run.traceAt settings level message) := by
  unfold Run.traceAt
  split
  · exact kept.alike_counts rfl ⟨rfl, rfl, rfl, List.prefix_rfl⟩ fun _ _ => trivial
  · exact Likeness.alike_pure (kept.steady_refl world) trivial

theorem Kept.alike_traceFunction (kept : rule.Kept) (settings : Settings) (closure : Closure) :
    rule.likeness.Alike rule.steady world (fun _ _ _ => True)
      (Run.traceFunction settings closure) (Run.traceFunction settings closure) := by
  unfold Run.traceFunction
  split
  · split
    · exact Likeness.alike_fail (kept.steady_refl world) rfl
    · exact kept.alike_counts rfl ⟨rfl, rfl, rfl, List.prefix_rfl⟩ fun _ _ => trivial
  · exact Likeness.alike_pure (kept.steady_refl world) trivial

theorem Kept.callees (kept : rule.Kept) {first second : Value}
    (found : rule.likeness.values world first second) :
    (∃ closure closure', first = .function closure ∧ second = .function closure' ∧
      rule.likeness.Callees world closure closure') ∨
    (∀ closure, first ≠ .function closure) ∧ ∀ closure, second ≠ .function closure := by
  obtain ⟨rfl, good⟩ := found
  cases first with
  | function closure =>
      exact .inl ⟨closure, closure, rfl, rfl, ⟨rfl, kept.callee good⟩,
        reflexive.sequence (fun _ => rfl) _, reflexive.sequence (fun _ => rfl) _⟩
  | _ => exact .inr ⟨nofun, nofun⟩

theorem Kept.lawful (kept : rule.Kept) (settings : Settings) :
    rule.likeness.Lawful settings settings where
  steady_refl := kept.steady_refl _
  steady_trans := kept.steady_trans
  grows_of_steady := kept.grows_of_steady
  grows_trans := kept.grows_trans
  carries_of_grows grown := ⟨kept.good_grows grown, kept.scope_grows grown⟩
  values_carry carried found := ⟨found.1, carried.1 found.2⟩
  scopes_carry carried found := ⟨found.1, carried.2 found.2⟩
  declares_grow _ _ := trivial
  expr_fits same := same ▸ reflexive.exprFits _
  stmt_fits same := same ▸ reflexive.stmtFits _
  nil := ⟨rfl, kept.simple nofun⟩
  constant := by
    rintro world tree _ rfl
    refine ⟨rfl, kept.simple ?_⟩
    cases tree <;> exact nofun
  truthy same := congrArg Value.isTruthy same.1
  display same := congrArg Value.display same.1
  typeName same := congrArg Value.typeName same.1
  callable same := congrArg Value.callable? same.1
  arity _ _ := rfl
  callees := kept.callees
  unary := by
    rintro world operator _ operand _ rfl ⟨rfl, -⟩
    exact kept.alike_fixed (Run.fixed_applyUnary operator operand) fun _ simple =>
      ⟨rfl, kept.simple simple⟩
  binary := by
    rintro world operator _ left _ right _ rfl ⟨rfl, -⟩ ⟨rfl, -⟩
    exact kept.alike_fixed (Run.fixed_applyBinary operator left right) fun _ simple =>
      ⟨rfl, kept.simple simple⟩
  logical := by
    rintro world operator _ rfl
    exact kept.alike_fixed (Run.fixed_token operator) fun _ _ => rfl
  lexeme := by
    rintro world site _ rfl
    exact kept.alike_fixed (Run.fixed_lexeme site) fun _ _ => ⟨rfl, trivial⟩
  name := by
    rintro world lexeme -
    exact kept.alike_same (Run.fixed_name lexeme)
  lookup := by
    rintro world site _ rfl
    exact kept.alike_lookup site
  assign := by
    rintro world site _ value _ rfl ⟨rfl, good⟩
    exact kept.alike_assign site good
  define := by
    rintro world name value _ - ⟨rfl, good⟩ state other ⟨stateEq, otherEq, fine⟩
    obtain ⟨grown, afterFine⟩ := kept.define fine good
    rw [stateEq, otherEq]
    exact .done _ grown ⟨rfl, rfl, afterFine⟩ trivial
  close := by
    rintro world name params _ body _ - rfl rfl
    refine kept.alike_counts rfl ⟨rfl, rfl, rfl, List.prefix_rfl⟩ fun steady fine => ⟨rfl, ?_⟩
    exact kept.good_grows (kept.grows_of_steady steady) (kept.closure fine rfl)
  printLine line := kept.alike_counts rfl ⟨rfl, rfl, rfl, by simp⟩ fun _ _ => trivial
  readClock := kept.alike_readClock settings
  traceAt := kept.alike_traceAt settings
  traceFunction := by
    rintro world closure _ ⟨same, -⟩
    cases same
    exact kept.alike_traceFunction settings closure
  currentScope := kept.alike_counts rfl ⟨rfl, rfl, rfl, List.prefix_rfl⟩ fun _ fine =>
    ⟨rfl, kept.current fine⟩
  callDepth := kept.alike_counts rfl ⟨rfl, rfl, rfl, List.prefix_rfl⟩ fun _ _ =>
    ⟨Iff.rfl, fun _ => trivial⟩
  raise := by
    rintro world site _ message rfl -
    exact kept.alike_fixed (Run.fixed_raise (fun _ => False) site message) fun _ => False.elim
  topReturn := by
    rintro world site _ rfl -
    exact kept.alike_fixed (Run.fixed_raise (fun _ => False) site _) fun _ => False.elim
  unsupported := by
    rintro world site _ feature α related rfl -
    exact kept.alike_fixed (Run.fixed_unsupported (fun _ => False) site feature)
      fun _ => False.elim
  inScope := by
    rintro world scope _ bindings bindings' body body' ⟨rfl, allowed⟩ bound alike
    obtain ⟨rfl, good⟩ := bound_good bound
    exact kept.alike_inScope allowed good fun _ => alike trivial
  inCall alike := kept.alike_inCall alike

variable (kept : rule.Kept) (settings : Settings) (budget : Nat)
include kept

theorem Kept.runs : rule.likeness.Runs settings settings budget budget :=
  (kept.lawful settings).runs budget budget (.inl rfl)

theorem Kept.evaluate (tree : Tree) :
    rule.Follows rule.steady rule.good (tree.evaluate settings budget) :=
  fun _ fine => ends_of_alike ((kept.runs settings budget).evaluate rfl) fine And.right

theorem Kept.evaluateAll (trees : List Tree) :
    rule.Follows rule.steady (fun after values => ∀ value ∈ values, rule.good after value)
      (Tree.evaluateAll settings budget trees) := by
  intro state fine
  have same : List.Forall₂ rule.likeness.exprs trees trees := List.forall₂_same.2 fun _ _ => rfl
  refine ends_of_alike ((kept.runs settings budget).evaluateAll same) fine fun related => ?_
  exact fun value member => (List.forall₂_same.1 related value member).2

theorem Kept.execute (tree : Tree) :
    rule.Follows rule.grows (fun after flow => ∀ value, flow = .returned value →
      rule.good after value) (tree.execute settings budget) := by
  intro state fine
  refine ends_of_alike ((kept.runs settings budget).execute rfl (.inl trivial)) fine ?_
  rintro after _ flows value rfl
  cases flows with
  | returned found => exact found.2

theorem Kept.invoke {callee : Value} {arguments : List Value} {state : State}
    (fine : rule.fine state) (goodCallee : rule.good state callee)
    (goodArguments : ∀ argument ∈ arguments, rule.good state argument) :
    rule.Ends rule.steady rule.good state (Tree.invoke settings budget callee arguments state) := by
  refine ends_of_alike ((kept.runs settings budget).invoke ⟨rfl, goodCallee⟩ ?_) fine And.right
  exact List.forall₂_same.2 fun argument member => ⟨rfl, goodArguments argument member⟩

/-- A block is left steadily: what is declared in it is out of reach. -/
theorem Kept.executeBlock (statements : Tree) :
    rule.Follows rule.steady (fun _ _ => True)
      ((Tree.block statements).execute settings budget) := by
  intro state fine
  cases budget with
  | zero => trivial
  | succ budget =>
      have body : rule.likeness.Sequence rule.likeness.stmts statements statements :=
        reflexive.sequence (fun _ => rfl) statements
      have alike (inner : State) : rule.likeness.Alike rule.grows inner rule.likeness.Flows
          (statements.executeAll settings budget) (statements.executeAll settings budget) :=
        (kept.runs settings budget).executeAll body trivial
      rw [Tree.execute]
      change rule.Ends rule.steady _ state
        (Run.inScope state.current [] (Tree.executeAll settings budget statements) state)
      have empty := List.forall_mem_nil fun entry : Name × Value => rule.good state entry.2
      exact ends_of_alike (kept.alike_inScope (kept.current fine) empty alike) fine fun _ => trivial

theorem Kept.follows_pure (value : α) : rule.Follows rule.grows (fun _ _ => True) (pure value) :=
  fun state fine => ⟨kept.grows_of_steady (kept.steady_refl state), fine, trivial⟩

theorem Kept.follows_fixed {form : α → Prop} {step : Run α} (fixed : Run.Fixed form step) :
    rule.Follows rule.grows (fun _ _ => True) step := by
  intro state fine
  have still := kept.grows_of_steady (kept.steady_refl state)
  cases fixed with
  | pure formed => exact ⟨still, fine, trivial⟩
  | fail failure => exact ⟨still, fine⟩

theorem Kept.follows_traceAt (level : Nat) (message : Text) :
    rule.Follows rule.grows (fun _ _ => True) (Run.traceAt settings level message) :=
  fun _ fine => ends_of_alike ((kept.alike_traceAt settings level message).mono
    kept.grows_of_steady id) fine id

theorem Kept.follows_bind {form : State → α → Prop} {result : State → β → Prop} {first : Run α}
    {next : α → Run β} (follows : rule.Follows rule.grows form first)
    (followsNext : ∀ value, rule.Follows rule.grows result (next value)) :
    rule.Follows rule.grows result (first >>= next) := by
  intro state fine
  have ends := follows state fine
  change rule.Ends rule.grows result state (Run.bind first next state)
  unfold Run.bind
  generalize first state = outcome at ends
  cases outcome with
  | done value middle =>
      have later := followsNext value middle ends.2.1
      dsimp only
      generalize next value middle = final at later
      cases final with
      | done value after => exact ⟨kept.grows_trans ends.1 later.1, later.2⟩
      | failed failure after => exact ⟨kept.grows_trans ends.1 later.1, later.2⟩
      | spent => trivial
  | failed failure after => exact ends
  | spent => trivial

end Discipline

end Lox
