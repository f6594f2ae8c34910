import Lox.Proofs.Operator
import Lox.Proofs.Run.Lawful
import Lox.Proofs.Scope

/-!
Steps one behind the other, steps that always complete, and steps that do not look at
the state.
-/

namespace Lox

namespace Result

variable {α : Type}

def state? : Result α → Option State
  | done _ state => some state
  | failed _ state => some state
  | spent => none

@[simp] theorem state?_done (value : α) (state : State) :
    (done value state).state? = some state := rfl

@[simp] theorem state?_failed (failure : Failure) (state : State) :
    (failed failure state : Result α).state? = some state := rfl

@[simp] theorem state?_spent : (spent : Result α).state? = none := rfl

theorem mapState_id (result : Result α) : result.mapState id = result := by
  cases result <;> rfl

end Result

def Value.Simple (value : Value) : Prop :=
  ∀ closure, value ≠ .function closure

namespace Run

variable {α β γ : Type}

theorem bind_bind (first : Run α) (next : α → Run β) (last : β → Run γ) :
    first >>= next >>= last = first >>= fun value => next value >>= last := by
  funext state
  change Run.bind (Run.bind first next) last state =
    Run.bind first (fun value => Run.bind (next value) last) state
  unfold Run.bind
  cases first state <;> rfl

theorem bind_self (step : Run α) : step >>= pure = step := by
  funext state
  change Run.bind step Run.pure state = step state
  unfold Run.bind Run.pure
  cases step state <;> rfl

def Completes (step : Run Flow) : Prop :=
  ∀ state flow after, step state = .done flow after → flow = .completed

theorem completes_pure : Completes (pure .completed) := by
  intro state flow after ended
  cases ended
  rfl

theorem completes_behind (first : Run α) {next : α → Run Flow}
    (completes : ∀ value, Completes (next value)) : Completes (first >>= next) := by
  intro state flow after ended
  change Run.bind first next state = .done flow after at ended
  unfold Run.bind at ended
  cases outcome : first state with
  | done value middle =>
      rw [outcome] at ended
      exact completes value middle flow after ended
  | failed failure final => simp [outcome] at ended
  | spent => simp [outcome] at ended

theorem bind_state? {first : Run α} {next : α → Run β} {state after : State}
    (ended : ((first >>= next) state).state? = some after) :
    (∃ value middle, first state = .done value middle ∧
      (next value middle).state? = some after) ∨
      ∃ failure, first state = .failed failure after := by
  change (Run.bind first next state).state? = some after at ended
  unfold Run.bind at ended
  cases outcome : first state with
  | done value middle =>
      rw [outcome] at ended
      exact .inl ⟨value, middle, rfl, ended⟩
  | failed failure final =>
      rw [outcome] at ended
      cases ended
      exact .inr ⟨failure, rfl⟩
  | spent =>
      rw [outcome] at ended
      simp at ended

theorem bind_of_done {first : Run α} {next : α → Run β} {state middle : State} {value : α}
    (ended : first state = .done value middle) : (first >>= next) state = next value middle := by
  change Run.bind first next state = _
  unfold Run.bind
  rw [ended]

theorem bind_done {first : Run α} {next : α → Run β} {state after : State}
    {result : β} (ended : (first >>= next) state = .done result after) :
    ∃ value middle, first state = .done value middle ∧ next value middle = .done result after := by
  change Run.bind first next state = .done result after at ended
  unfold Run.bind at ended
  cases outcome : first state with
  | done value middle =>
      rw [outcome] at ended
      exact ⟨value, middle, rfl, ended⟩
  | failed failure final => simp [outcome] at ended
  | spent => simp [outcome] at ended

theorem bind_failed {first : Run α} {next : α → Run β} {state after : State} {failure : Failure}
    (ended : (first >>= next) state = .failed failure after) :
    first state = .failed failure after ∨
      ∃ value middle, first state = .done value middle ∧
        next value middle = .failed failure after := by
  change Run.bind first next state = .failed failure after at ended
  unfold Run.bind at ended
  cases outcome : first state with
  | done value middle =>
      rw [outcome] at ended
      exact .inr ⟨value, middle, rfl, ended⟩
  | failed earlier final =>
      rw [outcome] at ended
      cases ended
      exact .inl rfl
  | spent => simp [outcome] at ended

section Named

variable {token : SavedToken} {name : Name} {state : State}

theorem bind_name (named : Name.ofLexeme? token.lexeme = some name) (next : Name → Run α)
    (state : State) :
    (lexeme (.token token) >>= fun lexeme => Run.name lexeme >>= next) state = next name state := by
  have spelled : lexeme (.token token) state = .done token.lexeme state := rfl
  have read : Run.name token.lexeme state = .done name state := by
    rw [Run.name, named]
    rfl
  rw [bind_of_done spelled, bind_of_done read]

theorem lookup_of_get? {value : Value} (named : Name.ofLexeme? token.lexeme = some name)
    (found : state.scopes.get? state.current name = some value) :
    lookup (.token token) state = .done value state := by
  refine (bind_name named _ state).trans ?_
  rw [found]

theorem lookup_of_unbound (named : Name.ofLexeme? token.lexeme = some name)
    (unbound : state.scopes.get? state.current name = none) :
    lookup (.token token) state =
      .failed (.error (.undefined token.lexeme.display token.line)) state := by
  refine (bind_name named _ state).trans ?_
  rw [unbound]
  rfl

theorem assign_of_assign? {value : Value} {scopes : Forest Value}
    (named : Name.ofLexeme? token.lexeme = some name)
    (assigned : state.scopes.assign? state.current name value = some scopes) :
    assign (.token token) value state = .done () { state with scopes } := by
  obtain ⟨holder, found, rfl⟩ := Option.map_eq_some_iff.1 assigned
  refine (bind_name named _ state).trans ?_
  rw [found]

theorem assign_of_unbound {value : Value} (named : Name.ofLexeme? token.lexeme = some name)
    (unbound : state.scopes.assign? state.current name value = none) :
    assign (.token token) value state =
      .failed (.error (.undefined token.lexeme.display token.line)) state := by
  refine (bind_name named _ state).trans ?_
  rw [Option.map_eq_none_iff.1 unbound]
  rfl

end Named

theorem state?_attempt (body : Run α) (state : State) :
    (attempt body state).state? = (body state).state? := by
  unfold attempt
  cases body state with
  | done value after => rfl
  | failed failure after => cases failure <;> rfl
  | spent => rfl

theorem traceAt_done (settings : Settings) (level : Nat) (message : Text) (state : State) :
    ∃ trace, traceAt settings level message state = .done () { state with trace } := by
  unfold traceAt
  split
  · exact ⟨_, rfl⟩
  · exact ⟨state.trace, rfl⟩

theorem traceAt_bind (settings : Settings) (level : Nat) (message : Text) (next : Run α)
    (state : State) : ∃ trace, (traceAt settings level message >>= fun _ => next) state =
      next { state with trace } := by
  obtain ⟨trace, traced⟩ := traceAt_done settings level message state
  refine ⟨trace, ?_⟩
  change Run.bind (traceAt settings level message) (fun _ => next) state = _
  unfold Run.bind
  rw [traced]

/-- The step has the same outcome in every state and leaves it as it is; a value it gives
is of the given form. -/
inductive Fixed (form : α → Prop) : Run α → Prop
  | pure {value : α} : form value → Fixed form (pure value)
  | fail (failure : Failure) : Fixed form (fail failure)

theorem Fixed.bind {middle : α → Prop} {form : β → Prop} {first : Run α} {next : α → Run β}
    (fixed : Fixed middle first) (fixedNext : ∀ value, middle value → Fixed form (next value)) :
    Fixed form (first >>= next) := by
  cases fixed with
  | pure formed => exact fixedNext _ formed
  | fail failure => exact .fail failure

theorem Fixed.done {form : α → Prop} {step : Run α} (fixed : Fixed form step) {state after : State}
    {value : α} (ended : step state = .done value after) : after = state := by
  cases fixed <;> cases ended
  rfl

theorem fixed_token (site : Tree) : Fixed (fun _ => True) (token site) := by
  cases site <;> first | exact .pure trivial | exact .fail _

theorem fixed_lexeme (site : Tree) : Fixed (fun _ => True) (lexeme site) := by
  cases site <;> first | exact .pure trivial | exact .fail _

theorem fixed_name (lexeme : Json) : Fixed (fun _ => True) (name lexeme) := by
  unfold name
  split
  · exact .pure trivial
  · exact .fail _

theorem fixed_elements (tree : Tree) : Fixed (fun _ => True) (elements tree) := by
  unfold elements
  split
  · exact .pure trivial
  · exact .fail _

theorem fixed_raise (form : α → Prop) (site : Tree) (message : Text) :
    Fixed form (raise site message) := by
  cases site <;> exact .fail _

theorem fixed_unsupported (form : α → Prop) (site : Tree) (feature : String) :
    Fixed form (unsupported site feature) := by
  cases site <;> exact .fail _

theorem fixed_undefined (form : α → Prop) (site : Tree) : Fixed form (undefined site) := by
  cases site <;> exact .fail _

theorem fixed_operator {known : List Kind} {operator : SavedToken}
    {result : Except Failure Value} (gives : Operator.Gives known operator result) :
    Fixed Value.Simple (ofExcept result) := by
  cases gives with
  | bool | number | text => exact .pure nofun
  | operand | operands | unknown => exact .fail _

theorem fixed_applyUnary (operator : Tree) (operand : Value) :
    Fixed Value.Simple (token operator >>= fun token =>
      ofExcept (Operator.unary token operand)) :=
  (fixed_token operator).bind fun token _ => fixed_operator (Operator.gives_unary token operand)

theorem fixed_applyBinary (operator : Tree) (left right : Value) :
    Fixed Value.Simple (token operator >>= fun token =>
      ofExcept (Operator.binary token left right)) :=
  (fixed_token operator).bind fun token _ =>
    fixed_operator (Operator.gives_binary token left right)

end Run

theorem bindParams_done {params : List Tree} {arguments : List Value}
    {bindings bound : Bindings Value} {state after : State}
    (ended : bindParams params arguments bindings state = .done bound after) :
    after = state ∧ ∀ entry ∈ bound, entry.2 ∈ arguments ∨ entry ∈ bindings := by
  induction params generalizing arguments bindings with
  | nil =>
      cases ended
      exact ⟨rfl, fun entry member => .inr member⟩
  | cons param params ih =>
      cases arguments with
      | nil =>
          cases ended
          exact ⟨rfl, fun entry member => .inr member⟩
      | cons argument arguments =>
          rw [bindParams] at ended
          obtain ⟨lexeme, spelled, read, ended⟩ := Run.bind_done ended
          have spelledEq := (Run.fixed_lexeme param).done read
          obtain ⟨name, named, read, ended⟩ := Run.bind_done ended
          have namedEq := (Run.fixed_name lexeme).done read
          rw [namedEq, spelledEq] at ended
          obtain ⟨same, origins⟩ := ih ended
          refine ⟨same, fun entry member => ?_⟩
          rcases origins entry member with passed | old
          · exact .inl (List.mem_cons_of_mem _ passed)
          · rcases Bindings.mem_define old with rfl | older
            · exact .inl List.mem_cons_self
            · exact .inr older

theorem Likeness.alike_fixed {like : Likeness} {α : Type} {form : α → Prop} {step : Run α}
    {moves : like.World → like.World → Prop} {world : like.World}
    {related : like.World → α → α → Prop} (fixed : Run.Fixed form step)
    (still : moves world world) (same : ∀ failure, like.failures failure failure)
    (formed : ∀ value, form value → related world value value) :
    like.Alike moves world related step step := by
  cases fixed with
  | pure held => exact alike_pure still (formed _ held)
  | fail failure => exact alike_fail still (same failure)

end Lox
