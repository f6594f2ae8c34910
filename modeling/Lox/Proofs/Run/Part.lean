import Lox.Proofs.Run.Restored

/-!
The parts of a run.  Running a tree runs others, each in the state that is left by those
before it; a call runs the body of a function in a scope of its own.
-/

namespace Lox

namespace Tree

variable (settings : Settings) (budget : Nat)

def test (title : Value → Text) (condition : Tree) : Run Value := do
  let value ← condition.evaluate settings budget
  Run.traceAt settings 3 (title value)
  pure value

def ifTitle (value : Value) : Text :=
  "if condition " ++ value.display ++ " -> " ++ (if value.isTruthy then "True" else "False")

def whileTitle (value : Value) : Text :=
  "while condition " ++ value.display

def prepare (callee paren arguments : Tree) : Run (Value × List Value) := do
  let callee ← callee.evaluate settings budget
  match callee.callable? with
  | none => Run.raise paren "Can only call functions and classes."
  | some (arity?, title) =>
      let arguments ← evaluateAll settings budget (← Run.elements arguments)
      match arity? with
      | none => Run.fault .notSequence
      | some arity =>
          if arguments.length = arity then
            Run.traceAt settings 2
              ("call " ++ title ++ " with " ++ toString arity ++ " arguments")
            pure (callee, arguments)
          else
            Run.raise paren
              ("Expected " ++ toString arity ++ " arguments but got " ++
                toString arguments.length ++ ".")

theorem execute_ifThen (condition thenBranch elseBranch : Tree) :
    (ifThen condition thenBranch elseBranch).execute settings (budget + 1) =
      test settings budget ifTitle condition >>= fun value =>
        if value.isTruthy then thenBranch.execute settings budget
        else if elseBranch.isNil then pure .completed
        else elseBranch.execute settings budget := by
  rw [execute, test, Run.bind_bind]
  congr 1
  funext value
  rw [Run.bind_bind]
  rfl

theorem executeWhile_succ (condition body : Tree) :
    executeWhile settings (budget + 1) condition body =
      test settings budget whileTitle condition >>= fun value =>
        if value.isTruthy then
          body.execute settings budget >>= fun flow =>
            match flow with
            | .returned value => pure (.returned value)
            | .completed => executeWhile settings budget condition body
        else pure .completed := by
  rw [executeWhile, test, Run.bind_bind]
  congr 1
  funext value
  rw [Run.bind_bind]
  rfl

theorem evaluate_call (callee paren arguments : Tree) :
    (call callee paren arguments).evaluate settings (budget + 1) =
      prepare settings budget callee paren arguments >>= fun (callee, arguments) =>
        Run.inCall (invoke settings budget callee arguments) := by
  rw [evaluate, prepare, Run.bind_bind]
  congr 1
  funext value
  cases value.callable? with
  | none => cases paren <;> rfl
  | some title =>
      obtain ⟨arity?, title⟩ := title
      dsimp only
      rw [Run.bind_bind]
      congr 1
      funext items
      rw [Run.bind_bind]
      congr 1
      funext values
      cases arity? with
      | none => rfl
      | some arity =>
          dsimp only
          split
          · rw [Run.bind_bind]
            rfl
          · cases paren <;> rfl

end Tree

theorem Run.elements_done {tree : Tree} {items : List Tree} (listed : tree.elements? = some items)
    (state : State) : Run.elements tree state = .done items state := by
  unfold Run.elements
  rw [listed]
  rfl

theorem Run.of_elements_done {tree : Tree} {items : List Tree} {state after : State}
    (ended : Run.elements tree state = .done items after) :
    tree.elements? = some items ∧ after = state := by
  unfold Run.elements at ended
  cases listed : tree.elements? with
  | some found =>
      rw [listed] at ended
      cases ended
      exact ⟨rfl, rfl⟩
  | none =>
      rw [listed] at ended
      cases ended

inductive Task where
  | evaluate (tree : Tree)
  | evaluateAll (trees : List Tree)
  | execute (tree : Tree)
  | executeWhile (condition body : Tree)
  | executeList (statements : List Tree)

structure Job where
  budget : Nat
  task : Task
  state : State

namespace Job

variable (settings : Settings)

/-- Running the first job runs the second one in the same call. -/
inductive Starts : Job → Job → Prop
  | grouping {budget : Nat} {state : State} {inner : Tree} :
      Starts ⟨budget + 1, .evaluate (.grouping inner), state⟩ ⟨budget, .evaluate inner, state⟩
  | operand {budget : Nat} {state : State} {operator operand : Tree} :
      Starts ⟨budget + 1, .evaluate (.unary operator operand), state⟩
        ⟨budget, .evaluate operand, state⟩
  | left {budget : Nat} {state : State} {left operator right : Tree} :
      Starts ⟨budget + 1, .evaluate (.binary left operator right), state⟩
        ⟨budget, .evaluate left, state⟩
  | right {budget : Nat} {state middle : State} {left operator right : Tree} {value : Value} :
      left.evaluate settings budget state = .done value middle →
      Starts ⟨budget + 1, .evaluate (.binary left operator right), state⟩
        ⟨budget, .evaluate right, middle⟩
  | logicalLeft {budget : Nat} {state : State} {left operator right : Tree} :
      Starts ⟨budget + 1, .evaluate (.logical left operator right), state⟩
        ⟨budget, .evaluate left, state⟩
  | logicalRight {budget : Nat} {state middle : State} {left right : Tree} {operator : SavedToken}
      {value : Value} :
      left.evaluate settings budget state = .done value middle →
      value.isTruthy ≠ decide (operator.kind = .orWord) →
      Starts ⟨budget + 1, .evaluate (.logical left (.token operator) right), state⟩
        ⟨budget, .evaluate right, middle⟩
  | assigned {budget : Nat} {state : State} {name value : Tree} :
      Starts ⟨budget + 1, .evaluate (.assign name value), state⟩ ⟨budget, .evaluate value, state⟩
  | callee {budget : Nat} {state : State} {callee paren arguments : Tree} :
      Starts ⟨budget + 1, .evaluate (.call callee paren arguments), state⟩
        ⟨budget, .evaluate callee, state⟩
  | arguments {budget : Nat} {state middle : State} {callee paren arguments : Tree}
      {value : Value} {items : List Tree} :
      callee.evaluate settings budget state = .done value middle → value.callable?.isSome →
      arguments.elements? = some items →
      Starts ⟨budget + 1, .evaluate (.call callee paren arguments), state⟩
        ⟨budget, .evaluateAll items, middle⟩
  | firstArgument {budget : Nat} {state : State} {first : Tree} {rest : List Tree} :
      Starts ⟨budget + 1, .evaluateAll (first :: rest), state⟩ ⟨budget, .evaluate first, state⟩
  | moreArguments {budget : Nat} {state middle : State} {first : Tree} {rest : List Tree}
      {value : Value} :
      first.evaluate settings budget state = .done value middle →
      Starts ⟨budget + 1, .evaluateAll (first :: rest), state⟩ ⟨budget, .evaluateAll rest, middle⟩
  | expr {budget : Nat} {state : State} {value : Tree} :
      Starts ⟨budget + 1, .execute (.expr value), state⟩ ⟨budget, .evaluate value, state⟩
  | print {budget : Nat} {state : State} {value : Tree} :
      Starts ⟨budget + 1, .execute (.print value), state⟩ ⟨budget, .evaluate value, state⟩
  | initial {budget : Nat} {state : State} {name initial : Tree} :
      initial.isNil = false →
      Starts ⟨budget + 1, .execute (.var name initial), state⟩ ⟨budget, .evaluate initial, state⟩
  | block {budget : Nat} {state : State} {statements : Tree} {items : List Tree} :
      statements.elements? = some items →
      Starts ⟨budget + 2, .execute (.block statements), state⟩
        ⟨budget, .executeList items, state.entered state.current []⟩
  | condition {budget : Nat} {state : State} {condition thenBranch elseBranch : Tree} :
      Starts ⟨budget + 1, .execute (.ifThen condition thenBranch elseBranch), state⟩
        ⟨budget, .evaluate condition, state⟩
  | thenBranch {budget : Nat} {state middle : State} {condition thenBranch elseBranch : Tree}
      {value : Value} :
      Tree.test settings budget Tree.ifTitle condition state = .done value middle →
      value.isTruthy = true →
      Starts ⟨budget + 1, .execute (.ifThen condition thenBranch elseBranch), state⟩
        ⟨budget, .execute thenBranch, middle⟩
  | elseBranch {budget : Nat} {state middle : State} {condition thenBranch elseBranch : Tree}
      {value : Value} :
      Tree.test settings budget Tree.ifTitle condition state = .done value middle →
      value.isTruthy = false → elseBranch.isNil = false →
      Starts ⟨budget + 1, .execute (.ifThen condition thenBranch elseBranch), state⟩
        ⟨budget, .execute elseBranch, middle⟩
  | whileLoop {budget : Nat} {state : State} {condition body : Tree} :
      Starts ⟨budget + 1, .execute (.whileLoop condition body), state⟩
        ⟨budget, .executeWhile condition body, state⟩
  | result {budget : Nat} {state : State} {keyword value : Tree} :
      state.callDepth ≠ 0 → value.isNil = false →
      Starts ⟨budget + 1, .execute (.returnStmt keyword value), state⟩
        ⟨budget, .evaluate value, state⟩
  | roundCondition {budget : Nat} {state : State} {condition body : Tree} :
      Starts ⟨budget + 1, .executeWhile condition body, state⟩ ⟨budget, .evaluate condition, state⟩
  | round {budget : Nat} {state middle : State} {condition body : Tree} {value : Value} :
      Tree.test settings budget Tree.whileTitle condition state = .done value middle →
      value.isTruthy = true →
      Starts ⟨budget + 1, .executeWhile condition body, state⟩ ⟨budget, .execute body, middle⟩
  | moreRounds {budget : Nat} {state middle after : State} {condition body : Tree}
      {value : Value} :
      Tree.test settings budget Tree.whileTitle condition state = .done value middle →
      value.isTruthy = true → body.execute settings budget middle = .done .completed after →
      Starts ⟨budget + 1, .executeWhile condition body, state⟩
        ⟨budget, .executeWhile condition body, after⟩
  | firstStatement {budget : Nat} {state : State} {first : Tree} {rest : List Tree} :
      Starts ⟨budget + 1, .executeList (first :: rest), state⟩ ⟨budget, .execute first, state⟩
  | moreStatements {budget : Nat} {state middle : State} {first : Tree} {rest : List Tree} :
      first.execute settings budget state = .done .completed middle →
      Starts ⟨budget + 1, .executeList (first :: rest), state⟩ ⟨budget, .executeList rest, middle⟩

/-- Running the first job, a call, runs the second one, the statements of the function. -/
inductive Calls : Job → Job → Prop
  | body {budget : Nat} {state ready : State} {callee paren arguments : Tree} {closure : Closure}
      {values : List Value} {params items : List Tree} {bindings : Bindings Value} :
      Tree.prepare settings (budget + 2) callee paren arguments state =
        .done (.function closure, values) ready →
      closure.params.elements? = some params →
      bindParams params values [] ready.deepened = .done bindings ready.deepened →
      closure.body.elements? = some items →
      Calls ⟨budget + 3, .evaluate (.call callee paren arguments), state⟩
        ⟨budget, .executeList items, ready.deepened.entered closure.scope bindings⟩

inductive Comes (job : Job) : Nat → Job → Prop
  | self : Comes job 0 job
  | starts {calls : Nat} {middle part : Job} :
      Comes job calls middle → Starts settings middle part → Comes job calls part
  | calls {calls : Nat} {middle part : Job} :
      Comes job calls middle → Calls settings middle part → Comes job (calls + 1) part

end Job

namespace State

variable {settings : Settings} {budget : Nat} {state after : State}

theorem restored_of_follows {α : Type} {form : State → α → Prop} {step : Run α}
    (follows : registers.Follows Restored form step)
    (ended : (step state).state? = some after) : state.Restored after :=
  restored_of_ends (follows state trivial) ended

theorem restored_of_evaluate {tree : Tree} {value : Value}
    (ended : tree.evaluate settings budget state = .done value after) : state.Restored after :=
  restored_of_follows (registers_kept.evaluate settings budget tree) (by rw [ended]; rfl)

theorem restored_of_execute {tree : Tree} {flow : Flow}
    (ended : tree.execute settings budget state = .done flow after) : state.Restored after :=
  restored_of_follows (registers_kept.execute settings budget tree) (by rw [ended]; rfl)

theorem restored_of_test {title : Value → Text} {condition : Tree} {value : Value}
    (ended : Tree.test settings budget title condition state = .done value after) :
    state.Restored after := by
  have kept := registers_kept
  have follows : registers.Follows Restored (fun _ _ => True)
      (Tree.test settings budget title condition) := by
    refine kept.follows_bind (kept.evaluate settings budget condition) fun value => ?_
    exact kept.follows_bind (kept.follows_traceAt settings 3 _) fun _ => kept.follows_pure _
  exact restored_of_follows follows (by rw [ended]; rfl)

theorem restored_of_prepare {callee paren arguments : Tree} {value : Value × List Value}
    (ended : Tree.prepare settings budget callee paren arguments state = .done value after) :
    state.Restored after := by
  have kept := registers_kept
  have follows : registers.Follows Restored (fun _ _ => True)
      (Tree.prepare settings budget callee paren arguments) := by
    refine kept.follows_bind (kept.evaluate settings budget callee) fun value => ?_
    cases value.callable? with
    | none => exact kept.follows_fixed (Run.fixed_raise (fun _ => False) paren _)
    | some title =>
        refine kept.follows_bind (kept.follows_fixed (Run.fixed_elements arguments)) fun items => ?_
        refine kept.follows_bind (kept.evaluateAll settings budget items) fun values => ?_
        obtain ⟨arity?, title⟩ := title
        cases arity? with
        | none => exact kept.follows_fixed (.fail _ : Run.Fixed (fun _ => False) _)
        | some arity =>
            dsimp only
            split
            · exact kept.follows_bind (kept.follows_traceAt settings 2 _) fun _ =>
                kept.follows_pure _
            · exact kept.follows_fixed (Run.fixed_raise (fun _ => False) paren _)
  exact restored_of_follows follows (by rw [ended]; rfl)

end State

namespace Job

variable {settings : Settings} {job middle part : Job}

theorem Starts.callDepth_eq (starts : Starts settings job part) :
    part.state.callDepth = job.state.callDepth := by
  cases starts with
  | right ended => exact (State.restored_of_evaluate ended).2
  | logicalRight ended => exact (State.restored_of_evaluate ended).2
  | arguments ended => exact (State.restored_of_evaluate ended).2
  | moreArguments ended => exact (State.restored_of_evaluate ended).2
  | thenBranch ended => exact (State.restored_of_test ended).2
  | elseBranch ended => exact (State.restored_of_test ended).2
  | round ended => exact (State.restored_of_test ended).2
  | moreRounds tested _ ended =>
      exact (State.restored_of_execute ended).2.trans (State.restored_of_test tested).2
  | moreStatements ended => exact (State.restored_of_execute ended).2
  | _ => rfl

theorem Calls.callDepth_eq (calls : Calls settings job part) :
    part.state.callDepth = job.state.callDepth + 1 := by
  cases calls with
  | body prepared =>
      have restored := State.restored_of_prepare prepared
      exact congrArg (· + 1) restored.2

theorem Comes.callDepth_eq {calls : Nat} (comes : Comes settings job calls part) :
    part.state.callDepth = job.state.callDepth + calls := by
  induction comes with
  | self => rfl
  | starts _ starts ih => exact starts.callDepth_eq.trans ih
  | calls _ called ih =>
      have deeper := called.callDepth_eq
      omega

theorem Comes.trans {calls more : Nat} (first : Comes settings job calls middle)
    (second : Comes settings middle more part) : Comes settings job (calls + more) part := by
  induction second with
  | self => exact first
  | starts _ starts ih => exact ih.starts starts
  | calls _ called ih => exact ih.calls called

theorem Comes.last_call {calls : Nat} (comes : Comes settings job (calls + 1) part) :
    ∃ call body, Comes settings job calls call ∧ Calls settings call body ∧
      Comes settings body 0 part := by
  generalize more : calls + 1 = total at comes
  induction comes with
  | self => cases more
  | starts _ starts ih =>
      obtain ⟨call, body, before, called, behind⟩ := ih more
      exact ⟨call, body, before, called, behind.starts starts⟩
  | @calls fewer call body before called ih =>
      cases more
      exact ⟨call, body, before, called, .self⟩

end Job

end Lox
