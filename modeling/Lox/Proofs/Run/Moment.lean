import Lox.Proofs.Run.Reachable
import Mathlib.Logic.Relation

/-!
How a machine goes on from one moment to a later one, in the middle of runs and between
them.  Scopes are entered and left at any moment here, so that every moment inside a block
or a call is among the later ones.
-/

namespace Lox

/-- A state of the machine with the values at hand: those that expressions have given and
those that a host has made or has read from a scope. -/
structure Moment where
  state : State
  values : List Value

namespace Moment

def initial : Moment :=
  ⟨.initial, []⟩

inductive Next (settings : Settings) : Moment → Moment → Prop
  | executed {state after : State} {values : List Value} (budget : Nat) (tree : Tree) :
      (tree.execute settings budget state).state? = some after →
      Next settings ⟨state, values⟩ ⟨after, values⟩
  | evaluated {state after : State} {values : List Value} {value : Value} (budget : Nat)
      (tree : Tree) :
      tree.evaluate settings budget state = .done value after →
      Next settings ⟨state, values⟩ ⟨after, value :: values⟩
  | evaluationFailed {state after : State} {values : List Value} {failure : Failure}
      (budget : Nat) (tree : Tree) :
      tree.evaluate settings budget state = .failed failure after →
      Next settings ⟨state, values⟩ ⟨after, values⟩
  | called {state after : State} {values arguments : List Value} {callee value : Value}
      (budget : Nat) :
      callee ∈ values → arguments ⊆ values →
      Tree.invoke settings budget callee arguments state = .done value after →
      Next settings ⟨state, values⟩ ⟨after, value :: values⟩
  | callFailed {state after : State} {values arguments : List Value} {callee : Value}
      {failure : Failure} (budget : Nat) :
      callee ∈ values → arguments ⊆ values →
      Tree.invoke settings budget callee arguments state = .failed failure after →
      Next settings ⟨state, values⟩ ⟨after, values⟩
  | traced {state : State} {values : List Value} (trace : Array TraceEntry) :
      Next settings ⟨state, values⟩ ⟨{ state with trace }, values⟩
  | made {state : State} {values : List Value} {value : Value} :
      value.Simple → Next settings ⟨state, values⟩ ⟨state, value :: values⟩
  | read {state : State} {values : List Value} {scope : Nat} {name : Name} {value : Value} :
      (name, value) ∈ state.scopes.own scope →
      Next settings ⟨state, values⟩ ⟨state, value :: values⟩
  | entered {state : State} {values : List Value} {enclosing : Nat} {bindings : Bindings Value} :
      enclosing < state.scopes.size → (∀ entry ∈ bindings, entry.2 ∈ values) →
      Next settings ⟨state, values⟩ ⟨state.entered enclosing bindings, values⟩
  | moved {state : State} {values : List Value} {current : Nat} (callDepth : Nat) :
      current < state.scopes.size →
      Next settings ⟨state, values⟩ ⟨{ state with current, callDepth }, values⟩

def Later (settings : Settings) : Moment → Moment → Prop :=
  Relation.ReflTransGen (Next settings)

variable {settings : Settings} {state after : State} {values : List Value}

theorem later_of_interpret {budget : Nat} {trees : List Tree}
    (ended : (Session.interpret settings budget trees state).state? = some after) :
    Later settings ⟨state, values⟩ ⟨after, values⟩ := by
  refine Session.of_interpret
    (fun before final => Later settings ⟨before, values⟩ ⟨final, values⟩)
    (fun _ => .refl) Relation.ReflTransGen.trans ?_ ?_ ended
  · intro tree before final ran
    exact .single (.executed budget tree ran)
  · intro before trace
    exact .single (.traced trace)

theorem later_of_runSource {budget : Nat} {source : String}
    (ended : (Session.runSource settings budget source state).state? = some after) :
    Later settings ⟨state, values⟩ ⟨after, values⟩ := by
  rcases Session.interpret_of_runSource ended with rfl | interpreted
  · exact .refl
  · exact later_of_interpret interpreted

theorem later_of_runPrompt {budget : Nat} {lines : List String}
    (ended : (Session.runPrompt settings budget lines state).state? = some after) :
    Later settings ⟨state, values⟩ ⟨after, values⟩ := by
  induction lines generalizing state with
  | nil =>
      cases ended
      exact .refl
  | cons line rest ih =>
      rw [Session.runPrompt] at ended
      rcases Run.bind_state? ended with ⟨report, middle, ran, ended⟩ | ⟨failure, ran⟩
      · have lineRan : Later settings ⟨state, values⟩ ⟨middle, values⟩ :=
          later_of_runSource (by rw [ran]; rfl)
        refine lineRan.trans ?_
        rcases Run.bind_state? ended with ⟨shown, final, others, ended⟩ | ⟨failure, others⟩
        · cases ended
          exact ih (by rw [others]; rfl)
        · exact ih (by rw [others]; rfl)
      · exact later_of_runSource (by rw [ran]; rfl)

theorem later_of_callGlobal {budget : Nat} {name : String} {arguments : List Value}
    (passed : arguments ⊆ values) :
    (∀ value, Session.callGlobal settings budget name arguments state = .done value after →
      ∃ others, value :: values ⊆ others ∧ Later settings ⟨state, values⟩ ⟨after, others⟩) ∧
    (∀ failure, Session.callGlobal settings budget name arguments state = .failed failure after →
      ∃ others, values ⊆ others ∧ Later settings ⟨state, values⟩ ⟨after, others⟩) := by
  unfold Session.callGlobal
  cases found : state.globals.get? (.ofString name) with
  | none =>
      refine ⟨nofun, ?_⟩
      rintro failure ended
      cases ended
      exact ⟨values, List.Subset.refl _, .refl⟩
  | some callee =>
      have fetched : Next settings ⟨state, values⟩ ⟨state, callee :: values⟩ :=
        .read (Bindings.mem_of_get? found)
      have passedOn : arguments ⊆ callee :: values := List.subset_cons_of_subset _ passed
      dsimp only
      split
      · constructor
        · intro value ended
          refine ⟨value :: callee :: values, ?_,
            .tail (.single fetched) (.called budget List.mem_cons_self passedOn ended)⟩
          exact List.cons_subset_cons _ (List.subset_cons_self _ _)
        · intro failure ended
          refine ⟨callee :: values, List.subset_cons_self _ _,
            .tail (.single fetched) (.callFailed budget List.mem_cons_self passedOn ended)⟩
      · refine ⟨nofun, ?_⟩
        rintro failure ended
        cases ended
        exact ⟨values, List.Subset.refl _, .refl⟩

end Moment

end Lox
