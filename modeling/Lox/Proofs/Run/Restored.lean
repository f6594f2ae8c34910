import Lox.Proofs.Run.Discipline

/-!
The current scope and the depth of calls are the same after every run as before it,
however it ends.
-/

namespace Lox

namespace Discipline

variable {rule : Discipline}

theorem follows_attempt {α : Type} {form : State → α → Prop} {body : Run α}
    (follows : rule.Follows rule.grows form body) :
    rule.Follows rule.grows (fun _ _ => True) (Run.attempt body) := by
  intro state fine
  have ends := follows state fine
  unfold Run.attempt
  generalize body state = result at ends
  cases result with
  | done value after => exact ⟨ends.1, ends.2.1, trivial⟩
  | failed failure after =>
      cases failure with
      | error error => exact ⟨ends.1, ends.2, trivial⟩
      | fault fault => exact ends
  | spent => trivial

variable (kept : rule.Kept) (settings : Settings) (budget : Nat)
include kept

theorem Kept.interpret (trees : List Tree) :
    rule.Follows rule.grows (fun _ _ => True) (Session.interpret settings budget trees) := by
  induction trees with
  | nil => exact kept.follows_pure _
  | cons first rest ih =>
      refine kept.follows_bind (kept.follows_traceAt settings _ _) fun _ => ?_
      refine kept.follows_bind (follows_attempt (kept.execute settings budget first))
        fun outcome => ?_
      cases outcome with
      | ok flow => exact ih
      | error error =>
          exact kept.follows_bind (kept.follows_traceAt settings _ _) fun _ => kept.follows_pure _

theorem Kept.runSource (source : String) :
    rule.Follows rule.grows (fun _ _ => True) (Session.runSource settings budget source) := by
  simp only [Session.runSource]
  split
  · exact kept.follows_bind (kept.interpret settings budget _) fun _ => kept.follows_pure _
  · exact kept.follows_pure _

theorem Kept.runPrompt (lines : List String) :
    rule.Follows rule.grows (fun _ _ => True) (Session.runPrompt settings budget lines) := by
  induction lines with
  | nil => exact kept.follows_pure _
  | cons line rest ih =>
      refine kept.follows_bind (kept.runSource settings budget line) fun _ => ?_
      exact kept.follows_bind ih fun _ => kept.follows_pure _

end Discipline

namespace Session

inductive Step (settings : Settings) : State → State → Prop
  | interpret {state after : State} (budget : Nat) (trees : List Tree) :
      (interpret settings budget trees state).state? = some after → Step settings state after
  | runSource {state after : State} (budget : Nat) (source : String) :
      (runSource settings budget source state).state? = some after → Step settings state after
  | runPrompt {state after : State} (budget : Nat) (lines : List String) :
      (runPrompt settings budget lines state).state? = some after → Step settings state after
  | evaluate {state after : State} (budget : Nat) (expr : Expr) :
      (evaluate settings budget expr state).state? = some after → Step settings state after
  | callGlobal {state after : State} (budget : Nat) (name : String) (arguments : List Value) :
      (callGlobal settings budget name arguments state).state? = some after →
      Step settings state after

inductive Reached (settings : Settings) : State → Prop
  | initial : Reached settings .initial
  | step {state after : State} :
      Reached settings state → Step settings state after → Reached settings after

end Session

namespace State

def Restored (state after : State) : Prop :=
  after.current = state.current ∧ after.callDepth = state.callDepth

theorem Restored.trans {state middle after : State} (first : Restored state middle)
    (second : Restored middle after) : Restored state after :=
  ⟨second.1.trans first.1, second.2.trans first.2⟩

def registers : Discipline where
  steady := Restored
  grows := Restored
  fine _ := True
  good _ _ := True
  scope _ _ := True

theorem registers_kept : registers.Kept where
  steady_refl _ := ⟨rfl, rfl⟩
  steady_trans := Restored.trans
  grows_of_steady := id
  grows_trans := Restored.trans
  good_grows _ _ := trivial
  scope_grows _ _ := trivial
  simple _ := trivial
  counts counts _ := ⟨⟨counts.current, counts.callDepth⟩, trivial⟩
  current _ := trivial
  found _ _ _ := trivial
  callee _ := trivial
  closure _ _ := trivial
  assign _ _ _ := ⟨⟨rfl, rfl⟩, trivial⟩
  define _ _ := ⟨⟨rfl, rfl⟩, trivial⟩
  enter _ _ _ := trivial
  leave _ restored _ := ⟨⟨rfl, restored.2⟩, trivial, fun _ => trivial⟩
  deepen _ := ⟨trivial, fun _ => trivial, fun _ => trivial⟩
  rise _ restored _ := ⟨⟨restored.1, by
    change _ - 1 = _
    rw [restored.2]
    rfl⟩, trivial, fun _ => trivial⟩

theorem restored_of_ends {α : Type} {form : State → α → Prop} {result : Result α}
    {state after : State} (ends : registers.Ends Restored form state result)
    (ended : result.state? = some after) : Restored state after :=
  (ends.of_state? ended).1

theorem restored_of_step {settings : Settings} {state after : State}
    (step : Session.Step settings state after) : Restored state after := by
  cases step with
  | interpret budget trees ended =>
      exact restored_of_ends (registers_kept.interpret settings budget trees state trivial) ended
  | runSource budget source ended =>
      exact restored_of_ends (registers_kept.runSource settings budget source state trivial) ended
  | runPrompt budget lines ended =>
      exact restored_of_ends (registers_kept.runPrompt settings budget lines state trivial) ended
  | evaluate budget expr ended =>
      exact restored_of_ends (registers_kept.evaluate settings budget _ state trivial) ended
  | callGlobal budget name arguments ended =>
      unfold Session.callGlobal at ended
      split at ended
      · split at ended
        · exact restored_of_ends (registers_kept.invoke settings budget trivial trivial
            fun _ _ => trivial) ended
        · cases ended
          exact ⟨rfl, rfl⟩
      · cases ended
        exact ⟨rfl, rfl⟩

theorem restored_of_reached {settings : Settings} {state : State}
    (reached : Session.Reached settings state) : Restored initial state := by
  induction reached with
  | initial => exact ⟨rfl, rfl⟩
  | step _ step ih => exact ih.trans (restored_of_step step)

/-- Every run that ends, with a value, a `return` or any failure, leaves the current scope
and the depth of calls as they were; between the steps of a host these are the global
scope and zero. -/
theorem current_and_callDepth_restored (settings : Settings) :
    (∀ budget tree state after, (Tree.execute settings budget tree state).state? = some after →
      after.current = state.current ∧ after.callDepth = state.callDepth) ∧
    (∀ budget tree state after, (Tree.evaluate settings budget tree state).state? = some after →
      after.current = state.current ∧ after.callDepth = state.callDepth) ∧
    (∀ budget callee arguments state after,
      (Tree.invoke settings budget callee arguments state).state? = some after →
      after.current = state.current ∧ after.callDepth = state.callDepth) ∧
    (∀ state, Session.Reached settings state →
      state.current = globalScope ∧ state.callDepth = 0) := by
  refine ⟨?_, ?_, ?_, ?_⟩
  · intro budget tree state after ended
    exact restored_of_ends (registers_kept.execute settings budget tree state trivial) ended
  · intro budget tree state after ended
    exact restored_of_ends (registers_kept.evaluate settings budget tree state trivial) ended
  · intro budget callee arguments state after ended
    exact restored_of_ends (registers_kept.invoke settings budget trivial trivial
      fun _ _ => trivial) ended
  · intro state reached
    exact restored_of_reached reached

/-- A class declared in a block fails there, and the machine is back in the global scope. -/
theorem current_and_callDepth_restored_block :
    (Tree.execute ⟨0, fun _ => none⟩ 5
      (.block (.list [.classDecl (Token.toTree ⟨.identifier, "C", 1, .nil⟩) .nil (.list [])]))
      initial).state? = some { initial with scopes := initial.scopes.push ⟨some 0, []⟩ } ∧
    ({ initial with scopes := initial.scopes.push ⟨some 0, []⟩ } : State).current =
      initial.current ∧
    ({ initial with scopes := initial.scopes.push ⟨some 0, []⟩ } : State).callDepth =
      initial.callDepth :=
  ⟨rfl, (current_and_callDepth_restored ⟨0, fun _ => none⟩).1 5
    (.block (.list [.classDecl (Token.toTree ⟨.identifier, "C", 1, .nil⟩) .nil (.list [])]))
    _ _ rfl⟩

end State

end Lox
