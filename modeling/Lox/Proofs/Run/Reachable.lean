import Lox.Proofs.Run.Restored
import Lox.Proofs.Scope

/-!
The states a machine can get into, also in the middle of a run, hold no scope that has
not been made.
-/

namespace Lox

def Value.Inside (size : Nat) : Value → Prop
  | function closure => closure.scope < size
  | _ => True

theorem Value.Inside.mono {size larger : Nat} {value : Value} (inside : value.Inside size)
    (atMost : size ≤ larger) : value.Inside larger := by
  cases value with
  | function closure => exact Nat.lt_of_lt_of_le inside atMost
  | _ => trivial

structure State.Scoped (state : State) : Prop where
  current : state.current < state.scopes.size
  values : ∀ scope entry, entry ∈ state.scopes.own scope → entry.2.Inside state.scopes.size

namespace State

def scoping : Discipline where
  steady state after := state.scopes.size ≤ after.scopes.size
  grows state after := state.scopes.size ≤ after.scopes.size
  fine := Scoped
  good state value := value.Inside state.scopes.size
  scope state scope := scope < state.scopes.size

theorem Scoped.bound {state : State} (held : state.Scoped) {value : Value}
    (inside : value.Inside state.scopes.size) (scope : Nat) (name : Name) :
    (state.bound scope name value).Scoped := by
  have size : (state.bound scope name value).scopes.size = state.scopes.size :=
    Forest.size_define scope name value
  constructor
  · rw [size]
    exact held.current
  · intro other entry member
    rw [size]
    rcases Forest.mem_own_define member with rfl | old
    · exact inside
    · exact held.values other entry old

theorem Scoped.entered {state : State} (held : state.Scoped) {bindings : Bindings Value}
    (inside : ∀ entry ∈ bindings, entry.2.Inside state.scopes.size) (enclosing : Nat) :
    (state.entered enclosing bindings).Scoped := by
  have size : (state.entered enclosing bindings).scopes.size = state.scopes.size + 1 :=
    Array.size_push _
  constructor
  · rw [size]
    exact Nat.lt_succ_self _
  · intro other entry member
    rw [size]
    refine Value.Inside.mono ?_ (Nat.le_succ _)
    by_cases fresh : other = state.scopes.size
    · rw [fresh] at member
      exact inside entry (by simpa [State.entered, Forest.own_push_size] using member)
    · exact held.values other entry
        (by simpa [State.entered, Forest.own_push_of_ne _ fresh] using member)

theorem scoping_kept : scoping.Kept where
  steady_refl _ := Nat.le_refl _
  steady_trans := Nat.le_trans
  grows_of_steady := id
  grows_trans := Nat.le_trans
  good_grows grown inside := inside.mono grown
  scope_grows grown inside := Nat.lt_of_lt_of_le inside grown
  simple {_ value} simple := by
    cases value with
    | function closure => exact absurd rfl (simple closure)
    | _ => trivial
  counts := by
    rintro state after ⟨scopes, current, -⟩ held
    change state.scopes.size ≤ after.scopes.size ∧ Scoped after
    rw [scopes]
    refine ⟨Nat.le_refl _, ?_, ?_⟩
    · rw [scopes, current]
      exact held.current
    · rw [scopes]
      exact held.values
  current held := held.current
  found held _ found := by
    obtain ⟨holder, member⟩ := Forest.mem_own_of_get? found
    exact held.values holder _ member
  callee inside := inside
  closure held same := by
    change _ < _
    rw [same]
    exact held.current
  assign held inside _ := ⟨Nat.le_of_eq (Forest.size_define _ _ _).symm, held.bound inside _ _⟩
  define held inside := ⟨Nat.le_of_eq (Forest.size_define _ _ _).symm, held.bound inside _ _⟩
  enter held _ inside := held.entered inside _
  leave := by
    intro state after enclosing bindings held grown afterHeld
    have larger : state.scopes.size ≤ after.scopes.size := by
      have size : (state.entered enclosing bindings).scopes.size = state.scopes.size + 1 :=
        Array.size_push _
      change (state.entered enclosing bindings).scopes.size ≤ after.scopes.size at grown
      omega
    exact ⟨larger, ⟨Nat.lt_of_lt_of_le held.current larger, afterHeld.values⟩, id⟩
  deepen held := ⟨⟨held.current, held.values⟩, id, id⟩
  rise _ grown held := ⟨grown, ⟨held.current, held.values⟩, id⟩

end State

/-- The states in which a statement or an expression may start to run, together with the
values that the expressions around it have given so far. -/
inductive Reachable (settings : Settings) : State → List Value → Prop
  | initial : Reachable settings .initial []
  | executed {state after : State} {values : List Value} (budget : Nat) (tree : Tree) :
      Reachable settings state values →
      (tree.execute settings budget state).state? = some after → Reachable settings after values
  | evaluated {state after : State} {values : List Value} {value : Value} (budget : Nat)
      (tree : Tree) :
      Reachable settings state values → tree.evaluate settings budget state = .done value after →
      Reachable settings after (value :: values)
  | failed {state after : State} {values : List Value} {failure : Failure} (budget : Nat)
      (tree : Tree) :
      Reachable settings state values →
      tree.evaluate settings budget state = .failed failure after → Reachable settings after values
  | traced {state : State} {values : List Value} (trace : Array TraceEntry) :
      Reachable settings state values → Reachable settings { state with trace } values
  | block {state : State} {values : List Value} :
      Reachable settings state values → Reachable settings (state.entered state.current []) values
  | call {state : State} {values arguments : List Value} {closure : Closure}
      {params : List Tree} {bindings : Bindings Value} :
      Reachable settings state values → .function closure ∈ values → arguments ⊆ values →
      bindParams params arguments [] state = .done bindings state →
      Reachable settings (state.deepened.entered closure.scope bindings) values
  | hostCall {state : State} {values arguments : List Value} {closure : Closure}
      {params : List Tree} {bindings : Bindings Value} :
      Reachable settings state values → .function closure ∈ values → arguments ⊆ values →
      bindParams params arguments [] state = .done bindings state →
      Reachable settings (state.entered closure.scope bindings) values

namespace Session

variable {settings : Settings} {budget : Nat}

theorem of_interpret (keeps : State → State → Prop) (reflexive : ∀ state, keeps state state)
    (transitive : ∀ {state middle after}, keeps state middle → keeps middle after →
      keeps state after)
    (executed : ∀ {tree state after},
      (Tree.execute settings budget tree state).state? = some after → keeps state after)
    (traced : ∀ state trace, keeps state { state with trace }) {trees : List Tree}
    {state after : State} (ended : (interpret settings budget trees state).state? = some after) :
    keeps state after := by
  induction trees generalizing state with
  | nil =>
      cases ended
      exact reflexive _
  | cons first rest ih =>
      rw [interpret] at ended
      obtain ⟨trace, begun⟩ := Run.traceAt_bind settings 1 ("execute " ++ first.shape.name) _ state
      rw [begun] at ended
      refine transitive (traced state trace) ?_
      rcases Run.bind_state? ended with ⟨outcome, middle, attempt, ended⟩ | ⟨failure, attempt⟩
      · have ran : (Tree.execute settings budget first { state with trace }).state? =
            some middle := by
          rw [← Run.state?_attempt, attempt]
          rfl
        refine transitive (executed ran) ?_
        cases outcome with
        | ok flow => exact ih ended
        | error error =>
            obtain ⟨trace, noted⟩ := Run.traceAt_bind settings 1
              ("runtime error: " ++ error.message ++ " [line " ++ error.line.display ++ "]")
              (pure (Outcome.failed error)) middle
            dsimp only at ended
            rw [noted] at ended
            cases ended
            exact traced middle trace
      · have ran : (Tree.execute settings budget first { state with trace }).state? =
            some after := by
          rw [← Run.state?_attempt, attempt]
          rfl
        exact executed ran

theorem interpret_of_runSource {source : String} {state after : State}
    (ended : (runSource settings budget source state).state? = some after) :
    after = state ∨ (interpret settings budget
      (Stmt.toTrees (Program.ofSource source).statements) state).state? = some after := by
  simp only [runSource] at ended
  split at ended
  · refine .inr ?_
    rcases Run.bind_state? ended with ⟨outcome, middle, ran, ended⟩ | ⟨failure, ran⟩
    · cases ended
      rw [ran]
      rfl
    · rw [ran]
      rfl
  · cases ended
    exact .inl rfl

end Session

theorem Reachable.interpreted {settings : Settings} {state after : State} {values : List Value}
    {budget : Nat} {trees : List Tree} (reachable : Reachable settings state values)
    (ended : (Session.interpret settings budget trees state).state? = some after) :
    Reachable settings after values := by
  refine Session.of_interpret
    (fun before final => Reachable settings before values → Reachable settings final values)
    (fun _ reached => reached) (fun first second reached => second (first reached)) ?_ ?_ ended
    reachable
  · intro tree before final ran reached
    exact reached.executed budget tree ran
  · intro before trace reached
    exact reached.traced trace

end Lox
