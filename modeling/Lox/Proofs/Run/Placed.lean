import Lox.Proofs.Run.Discipline

/-!
Scopes are lexical.  What a called function does depends neither on the scope it is called
in nor on how many calls are running.
-/

namespace Lox

namespace State

def atDepth (state : State) (callDepth : Nat) : State :=
  { state with callDepth }

def placed (state : State) (current callDepth : Nat) : State :=
  { state with current, callDepth }

@[simp] theorem atDepth_self (state : State) : state.atDepth state.callDepth = state := rfl

end State

namespace Run

variable {α β : Type}

def Blind (step : Run α) : Prop :=
  ∀ state depth, step (state.atDepth depth) = (step state).mapState (·.atDepth depth)

theorem Blind.bind {first : Run α} {next : α → Run β} (blind : Blind first)
    (blindNext : ∀ value, Blind (next value)) : Blind (first >>= next) := by
  intro state depth
  change Run.bind first next (state.atDepth depth) = (Run.bind first next state).mapState _
  unfold Run.bind
  rw [blind state depth]
  cases first state with
  | done value after => exact blindNext value after depth
  | failed failure after => rfl
  | spent => rfl

theorem Fixed.blind {form : α → Prop} {step : Run α} (fixed : Fixed form step) : Blind step := by
  cases fixed <;> exact fun _ _ => rfl

theorem blind_lookup (site : Tree) : Blind (lookup site) := by
  refine (fixed_lexeme site).blind.bind fun lexeme => ?_
  refine (fixed_name lexeme).blind.bind fun name state depth => ?_
  dsimp only [State.atDepth]
  cases state.scopes.get? state.current name with
  | none => exact (fixed_undefined (fun _ => False) site).blind state depth
  | some value => rfl

theorem blind_assign (site : Tree) (value : Value) : Blind (assign site value) := by
  refine (fixed_lexeme site).blind.bind fun lexeme => ?_
  refine (fixed_name lexeme).blind.bind fun name state depth => ?_
  dsimp only [State.atDepth]
  cases state.scopes.find? state.current name with
  | none => exact (fixed_undefined (fun _ => False) site).blind state depth
  | some holder => rfl

theorem blind_readClock (settings : Settings) : Blind (readClock settings) := by
  intro state depth
  change readClock settings { state with callDepth := depth } = _
  unfold readClock
  dsimp only
  cases settings.clock state.clockReads <;> rfl

theorem blind_traceAt (settings : Settings) (level : Nat) (message : Text) :
    Blind (traceAt settings level message) := by
  unfold traceAt
  split <;> exact fun _ _ => rfl

theorem blind_traceFunction (settings : Settings) (closure : Closure) :
    Blind (traceFunction settings closure) := by
  unfold traceFunction
  split
  · split <;> exact fun _ _ => rfl
  · exact fun _ _ => rfl

end Run

structure Depths where
  first : Nat
  second : Nat
  first_pos : 0 < first
  second_pos : 0 < second

namespace Depths

def deepened (depths : Depths) : Depths where
  first := depths.first + 1
  second := depths.second + 1
  first_pos := Nat.succ_pos _
  second_pos := Nat.succ_pos _

inductive Apart (depths : Depths) (state : State) : State → Prop
  | intro : state.callDepth = depths.first → Apart depths state (state.atDepth depths.second)

@[reducible] def likeness : Likeness where
  World := Depths
  carries _ _ := True
  steady := Eq
  grows := Eq
  states := Apart
  values _ := Eq
  scopes _ := Eq
  failures := Eq
  declares _ := True
  atTop _ := False
  exprs := Eq
  stmts := Eq
  params := Eq
  bodies := Eq
  constants := Eq
  sites := Eq
  returns := Eq
  unaryOperators := Eq
  binaryOperators := Eq
  logicalOperators := Eq
  lexemes _ := True
  slack := False
  lag := False

variable {α : Type} {form : α → Prop} {depths : Depths} {settings : Settings}

theorem reflexive : likeness.Reflexive := by
  constructor <;> intro _ <;> rfl

theorem eq_of_bound {bindings bindings' : Bindings Value}
    (bound : likeness.Bound depths bindings bindings') : bindings = bindings' := by
  induction bound with
  | nil => rfl
  | cons same _ ih => rw [Prod.ext same.1 same.2, ih]

theorem eq_of_flows {flow flow' : Flow} (flows : likeness.Flows depths flow flow') :
    flow = flow' := by
  cases flows with
  | completed => rfl
  | returned same => rw [same]

theorem ends_eq {related : Depths → α → α → Prop} {result other : Result α}
    (ends : likeness.Ends Eq depths related result other)
    (same : ∀ {value value'}, related depths value value' → value = value') :
    other = result.mapState (·.atDepth depths.second) := by
  cases ends with
  | done _ still reached found =>
    obtain rfl := still
    obtain ⟨-⟩ := reached
    rw [same found]
    rfl
  | failed _ still reached found =>
    obtain rfl := still
    obtain ⟨-⟩ := reached
    rw [found]
    rfl
  | spent => rfl
  | slack impossible | lag impossible => exact impossible.elim

theorem alike_of_blind {related : Depths → α → α → Prop} {step : Run α} (blind : step.Blind)
    (same : ∀ value, related depths value value) :
    likeness.Alike Eq depths related step step := by
  rintro state _ ⟨first⟩
  rw [blind state]
  -- Blindness at the own depth says that the step comes back to it.
  have kept := blind state state.callDepth
  rw [State.atDepth_self, first] at kept
  cases ended : step state with
  | done value after =>
    rw [ended] at kept
    exact .done depths rfl ⟨congrArg State.callDepth (Result.done.inj kept).2⟩ (same _)
  | failed failure after =>
    rw [ended] at kept
    exact .failed depths rfl ⟨congrArg State.callDepth (Result.failed.inj kept).2⟩ rfl
  | spent => exact .spent

theorem alike_fixed {step : Run α} (fixed : Run.Fixed form step) :
    likeness.Alike Eq depths (fun _ => Eq) step step :=
  alike_of_blind fixed.blind fun _ => rfl

theorem alike_inScope {scope : Nat} {bindings : Bindings Value} {body body' : Run Flow}
    (alike : likeness.Alike Eq depths likeness.Flows body body') :
    likeness.Alike Eq depths likeness.Flows (Run.inScope scope bindings body)
      (Run.inScope scope bindings body') := by
  rintro state _ ⟨first⟩
  have ends := alike (state.entered scope bindings) _ ⟨first⟩
  change likeness.Ends Eq depths likeness.Flows
    ((body (state.entered scope bindings)).mapState state.left)
    ((body' ((state.entered scope bindings).atDepth depths.second)).mapState state.left)
  refine ends.mapState fun {_ _ _} still reached => ?_
  obtain rfl := still
  obtain ⟨kept⟩ := reached
  exact ⟨depths, rfl, ⟨kept⟩, id⟩

theorem alike_inCall {body body' : Run Value}
    (alike : likeness.Alike Eq depths.deepened likeness.values body body') :
    likeness.Alike Eq depths likeness.values (Run.inCall body) (Run.inCall body') := by
  rintro state _ ⟨first⟩
  have ends := alike state.deepened _ ⟨congrArg (· + 1) first⟩
  change likeness.Ends Eq depths likeness.values
    ((body state.deepened).mapState State.raised)
    ((body' (state.deepened.atDepth depths.deepened.second)).mapState State.raised)
  refine ends.mapState fun {_ _ _} still reached => ?_
  obtain rfl := still
  obtain ⟨kept⟩ := reached
  refine ⟨depths, rfl, ⟨?_⟩, id⟩
  exact congrArg (· - 1) kept

theorem callees {value value' : Value} (same : value = value') :
    (∃ closure closure', value = .function closure ∧ value' = .function closure' ∧
      likeness.Callees depths closure closure') ∨
    (∀ closure, value ≠ .function closure) ∧ ∀ closure, value' ≠ .function closure := by
  subst same
  cases value with
  | function closure =>
    exact .inl ⟨closure, closure, rfl, rfl, rfl, reflexive.sequence (fun _ => rfl) _,
      reflexive.sequence (fun _ => rfl) _⟩
  | _ => exact .inr ⟨nofun, nofun⟩

theorem lawful (settings : Settings) : likeness.Lawful settings settings where
  steady_refl := rfl
  steady_trans := Eq.trans
  grows_of_steady := id
  grows_trans := Eq.trans
  carries_of_grows _ := trivial
  values_carry _ := id
  scopes_carry _ := id
  declares_grow _ _ := trivial
  expr_fits same := same ▸ reflexive.exprFits _
  stmt_fits same := same ▸ reflexive.stmtFits _
  nil := rfl
  constant same := congrArg Value.ofTree same
  truthy := congrArg Value.isTruthy
  display := congrArg Value.display
  typeName := congrArg Value.typeName
  callable := congrArg Value.callable?
  arity _ _ := rfl
  callees := callees
  unary := by
    rintro depths operator _ operand _ rfl rfl
    exact alike_fixed (Run.fixed_applyUnary operator operand)
  binary := by
    rintro depths operator _ left _ right _ rfl rfl rfl
    exact alike_fixed (Run.fixed_applyBinary operator left right)
  logical := by
    rintro depths operator _ rfl
    exact alike_of_blind (Run.fixed_token operator).blind fun _ => rfl
  lexeme := by
    rintro depths site _ rfl
    exact alike_of_blind (Run.fixed_lexeme site).blind fun _ => ⟨rfl, trivial⟩
  name _ := alike_fixed (Run.fixed_name _)
  lookup := by
    rintro depths site _ rfl
    exact alike_of_blind (Run.blind_lookup site) fun _ => rfl
  assign := by
    rintro depths site _ value _ rfl rfl
    exact alike_of_blind (Run.blind_assign site value) fun _ => trivial
  define := by
    rintro depths name value _ - rfl
    exact alike_of_blind (fun _ _ => rfl) fun _ => trivial
  close := by
    rintro depths name params _ body _ - rfl rfl
    exact alike_of_blind (fun _ _ => rfl) fun _ => rfl
  printLine _ := alike_of_blind (fun _ _ => rfl) fun _ => trivial
  readClock := alike_of_blind (Run.blind_readClock settings) fun _ => rfl
  traceAt level message :=
    alike_of_blind (Run.blind_traceAt settings level message) fun _ => trivial
  traceFunction := by
    rintro depths closure _ same
    cases same
    exact alike_of_blind (Run.blind_traceFunction settings closure) fun _ => trivial
  currentScope := alike_of_blind (fun _ _ => rfl) fun _ => rfl
  callDepth := by
    rintro depths state _ ⟨first⟩
    have one := depths.first_pos
    have two := depths.second_pos
    refine .done depths rfl ⟨first⟩ ⟨?_, ?_⟩
    · change state.callDepth = 0 ↔ depths.second = 0
      omega
    · change state.callDepth = 0 → False
      omega
  raise := by
    rintro depths site _ message rfl -
    exact alike_fixed (Run.fixed_raise (fun _ => False) site message)
  topReturn _ impossible := impossible.elim
  unsupported := by
    rintro depths site _ feature α related rfl -
    exact Likeness.alike_fixed (Run.fixed_unsupported (fun _ => False) site feature) rfl
      (fun _ => rfl) fun _ => False.elim
  inScope := by
    rintro depths scope _ bindings _ body body' rfl bound alike
    obtain rfl := eq_of_bound bound
    exact alike_inScope (alike trivial)
  inCall alike := alike_inCall (alike trivial)

end Depths

namespace Run

variable {α β : Type}

def Placeless (step : Run α) : Prop :=
  ∀ (state : State) (here there depth other : Nat), 0 < depth → 0 < other →
    step (state.placed there other) =
      (step (state.placed here depth)).mapState (·.placed there other)

theorem Placeless.bind {first : Run α} {next : α → Run β} (placeless : Placeless first)
    (placelessNext : ∀ value, Placeless (next value)) : Placeless (first >>= next) := by
  intro state here there depth other running otherRunning
  have moved := placeless state here there depth other running otherRunning
  have kept := placeless state here here depth depth running running
  change Run.bind first next (state.placed there other) =
    (Run.bind first next (state.placed here depth)).mapState _
  unfold Run.bind
  rw [moved]
  cases ended : first (state.placed here depth) with
  | done value after =>
    rw [ended] at kept
    have same : after = after.placed here depth := (Result.done.inj kept).2
    have placed := placelessNext value after here there depth other running otherRunning
    rw [← same] at placed
    exact placed
  | failed failure after => rfl
  | spent => rfl

theorem Fixed.placeless {form : α → Prop} {step : Run α} (fixed : Fixed form step) :
    Placeless step := by
  cases fixed <;> exact fun _ _ _ _ _ _ _ => rfl

theorem fixed_bindParams (params : List Tree) (arguments : List Value)
    (bindings : Bindings Value) : Fixed (fun _ => True) (bindParams params arguments bindings) := by
  induction params generalizing arguments bindings with
  | nil => exact .pure trivial
  | cons param params ih =>
    cases arguments with
    | nil => exact .pure trivial
    | cons argument arguments =>
      refine (fixed_lexeme param).bind fun lexeme _ => ?_
      exact (fixed_name lexeme).bind fun name _ => ih arguments _

theorem placeless_readClock (settings : Settings) : Placeless (readClock settings) := by
  intro state here there depth other _ _
  unfold readClock State.placed
  dsimp only
  cases settings.clock state.clockReads <;> rfl

variable (settings : Settings) (budget : Nat)

/-- A body runs in a new scope of its own, so all that is left of the caller is the depth. -/
theorem placeless_inScope (scope : Nat) (bindings : Bindings Value) (body : Tree) :
    Placeless (inScope scope bindings (body.executeAll settings budget)) := by
  intro state here there depth other running otherRunning
  let depths : Depths := ⟨depth, other, running, otherRunning⟩
  let inner := (state.placed here depth).entered scope bindings
  have runs := (Depths.lawful settings).runs budget budget (.inl rfl)
  have sequence := Depths.reflexive.sequence Depths.reflexive.stmt body
  have alike : Depths.likeness.Alike Eq depths Depths.likeness.Flows
      (body.executeAll settings budget) (body.executeAll settings budget) :=
    runs.executeAll sequence trivial
  have ends := Depths.ends_eq (alike inner _ ⟨rfl⟩) Depths.eq_of_flows
  change (body.executeAll settings budget (inner.atDepth other)).mapState
      (state.placed there other).left =
    ((body.executeAll settings budget inner).mapState (state.placed here depth).left).mapState _
  rw [ends]
  cases body.executeAll settings budget inner <;> rfl

theorem placeless_invoke (callee : Value) (arguments : List Value) :
    Placeless (Tree.invoke settings budget callee arguments) := by
  cases budget with
  | zero => exact fun _ _ _ _ _ _ _ => rfl
  | succ budget =>
    cases callee with
    | function closure =>
      simp only [Tree.invoke]
      refine (fixed_elements closure.params).placeless.bind fun params => ?_
      refine (fixed_bindParams params arguments []).placeless.bind fun bindings => ?_
      refine (placeless_inScope settings budget closure.scope bindings closure.body).bind
        fun flow => ?_
      cases flow <;> exact fun _ _ _ _ _ _ _ => rfl
    | _ =>
      simp only [Tree.invoke]
      exact placeless_readClock settings

end Run

/-- Scopes are lexical: wherever a function is called from, and however many calls are
running, the call ends in the same way and leaves the same machine behind. -/
theorem Tree.invoke_placed (settings : Settings) (budget : Nat) (callee : Value)
    (arguments : List Value) (state : State) (here there depth other : Nat)
    (running : 0 < depth) (otherRunning : 0 < other) :
    invoke settings budget callee arguments (state.placed there other) =
      (invoke settings budget callee arguments (state.placed here depth)).mapState
        fun after => after.placed there other :=
  Run.placeless_invoke settings budget callee arguments state here there depth other running
    otherRunning

/-- A function that returns `x` finds the one it was declared with, also when it is called
where another one is bound. -/
theorem Tree.invoke_placed_shadowed :
    ∃ (state : State) (closure : Closure) (after : State), 0 < 1 ∧ 0 < 2 ∧
      state.scopes.get? 1 (.ofString "x") = some (.text (.ofString "local")) ∧
      invoke ⟨0, fun _ => none⟩ 8 (.function closure) [] (state.placed 1 2) =
        (invoke ⟨0, fun _ => none⟩ 8 (.function closure) [] (state.placed 0 1)).mapState
          (fun after => after.placed 1 2) ∧
      invoke ⟨0, fun _ => none⟩ 8 (.function closure) [] (state.placed 1 2) =
        .done (.text (.ofString "global")) after := by
  let site : Tree := Token.toTree ⟨.identifier, "x", 1, .nil⟩
  let keyword : Tree := Token.toTree ⟨.returnWord, "return", 1, .nil⟩
  let body : Tree := .list [.returnStmt keyword (.ident site)]
  let outer : Scope Value := ⟨none, [(.ofString "x", .text (.ofString "global"))]⟩
  let caller : Scope Value := ⟨some 0, [(.ofString "x", .text (.ofString "local"))]⟩
  let state : State := { State.initial with scopes := #[outer, caller] }
  let inner : State := (state.placed 1 2).entered 0 []
  have seen : state.scopes.get? 1 (.ofString "x") = some (.text (.ofString "local")) := by
    rw [Forest.get?, Forest.find?_of_binds rfl]
    rfl
  have looked : inner.scopes.get? 2 (.ofString "x") = some (.text (.ofString "global")) := by
    rw [Forest.get?, Forest.find?_outward rfl rfl, Forest.find?_of_binds rfl]
    rfl
  have ended : Run.lookup site inner = .done (.text (.ofString "global")) inner :=
    Run.lookup_of_get? rfl looked
  have returned : execute ⟨0, fun _ => none⟩ 5 (.returnStmt keyword (.ident site)) inner =
      .done (.returned (.text (.ofString "global"))) inner := by
    change Run.bind (Run.lookup site) (fun value => pure (Flow.returned value)) inner = _
    unfold Run.bind
    rw [ended]
    rfl
  have ran : executeAll ⟨0, fun _ => none⟩ 7 body inner =
      .done (.returned (.text (.ofString "global"))) inner := by
    change Run.bind (execute ⟨0, fun _ => none⟩ 5 (.returnStmt keyword (.ident site))) _ inner = _
    unfold Run.bind
    rw [returned]
    rfl
  have left : Run.inScope 0 [] (executeAll ⟨0, fun _ => none⟩ 7 body) (state.placed 1 2) =
      .done (.returned (.text (.ofString "global"))) (inner.placed 1 2) := by
    change (executeAll ⟨0, fun _ => none⟩ 7 body inner).mapState (state.placed 1 2).left = _
    rw [ran]
    rfl
  refine ⟨state, ⟨.ofString "show", .list [], body, 0, 0⟩, inner.placed 1 2, by decide, by decide,
    seen, Tree.invoke_placed _ _ _ _ state 0 1 1 2 (by decide) (by decide), ?_⟩
  change Run.bind (Run.inScope 0 [] (executeAll ⟨0, fun _ => none⟩ 7 body)) _ (state.placed 1 2) = _
  unfold Run.bind
  rw [left]
  rfl

end Lox
