import Lox.Proofs.Run.Part

/-!
How a job ends before its time.  What ends a part of it ends it as well, up to the next
call on the way out: that takes a returned value as its own and goes on.
-/

namespace Lox

inductive Ending where
  | returned (value : Value)
  | failed (failure : Failure)

def Ending.atCall (after : State) : Ending → Result Value
  | returned value => .done value after
  | failed failure => .failed failure after

namespace Result

variable {α : Type}

def failing? : Result α → Option (Ending × State)
  | failed failure state => some (.failed failure, state)
  | done _ _ => none
  | spent => none

def leaving? : Result Flow → Option (Ending × State)
  | done (.returned value) state => some (.returned value, state)
  | done .completed _ => none
  | failed failure state => some (.failed failure, state)
  | spent => none

theorem leaving?_mapState {result : Result Flow} {ending : Ending} {after : State}
    (ended : result.leaving? = some (ending, after)) (change : State → State) :
    (result.mapState change).leaving? = some (ending, change after) := by
  cases result with
  | failed failure state =>
      cases ended
      rfl
  | done flow state =>
      cases flow <;> cases ended
      rfl
  | spent => cases ended

theorem leaving?_of_mapState {result : Result Flow} {change : State → State} {ending : Ending}
    {after : State} (ended : (result.mapState change).leaving? = some (ending, after)) :
    ∃ final, result.leaving? = some (ending, final) := by
  cases result with
  | failed failure state =>
      cases ended
      exact ⟨state, rfl⟩
  | done flow state =>
      cases flow <;> cases ended
      exact ⟨state, rfl⟩
  | spent => cases ended

theorem leaving?_eq_returned {result : Result Flow} {value : Value} {after : State}
    (ended : result.leaving? = some (.returned value, after)) :
    result = .done (.returned value) after := by
  cases result with
  | done flow state =>
      cases flow <;> cases ended
      rfl
  | _ => cases ended

theorem leaving?_eq_failed {result : Result Flow} {failure : Failure} {after : State}
    (ended : result.leaving? = some (.failed failure, after)) :
    result = .failed failure after := by
  cases result with
  | failed failure state =>
      cases ended
      rfl
  | done flow state => cases flow <;> cases ended
  | spent => cases ended

theorem failing?_eq_some {result : Result α} {ending : Ending} {after : State}
    (ended : result.failing? = some (ending, after)) :
    ∃ failure, ending = .failed failure ∧ result = .failed failure after := by
  cases result with
  | failed failure state =>
      cases ended
      exact ⟨failure, rfl, rfl⟩
  | _ => cases ended

end Result

namespace Run

variable {α β : Type} {state after : State} {ending : Ending}

theorem bind_of_failed {first : Run α} {next : α → Run β} {failure : Failure}
    (ended : first state = .failed failure after) :
    (first >>= next) state = .failed failure after := by
  change Run.bind first next state = _
  unfold Run.bind
  rw [ended]

theorem failing?_bind {first : Run α} (next : α → Run β)
    (ended : (first state).failing? = some (ending, after)) :
    ((first >>= next) state).failing? = some (ending, after) := by
  obtain ⟨failure, rfl, failed⟩ := Result.failing?_eq_some ended
  rw [bind_of_failed failed]
  rfl

theorem leaving?_bind {first : Run α} (next : α → Run Flow)
    (ended : (first state).failing? = some (ending, after)) :
    ((first >>= next) state).leaving? = some (ending, after) := by
  obtain ⟨failure, rfl, failed⟩ := Result.failing?_eq_some ended
  rw [bind_of_failed failed]
  rfl

theorem leaving?_behind {first : Run Flow} {next : Flow → Run Flow}
    (passes : ∀ value, next (.returned value) = pure (.returned value))
    (ended : (first state).leaving? = some (ending, after)) :
    ((first >>= next) state).leaving? = some (ending, after) := by
  cases ending with
  | returned value =>
      rw [bind_of_done (Result.leaving?_eq_returned ended), passes]
      rfl
  | failed failure =>
      rw [bind_of_failed (Result.leaving?_eq_failed ended)]
      rfl

end Run

namespace Job

variable {settings : Settings} {job part : Job} {ending : Ending} {after : State}

def ending? (settings : Settings) : Job → Option (Ending × State)
  | ⟨budget, .evaluate tree, state⟩ => (tree.evaluate settings budget state).failing?
  | ⟨budget, .evaluateAll trees, state⟩ => (Tree.evaluateAll settings budget trees state).failing?
  | ⟨budget, .execute tree, state⟩ => (tree.execute settings budget state).leaving?
  | ⟨budget, .executeWhile condition body, state⟩ =>
      (Tree.executeWhile settings budget condition body state).leaving?
  | ⟨budget, .executeList statements, state⟩ =>
      (Tree.executeList settings budget statements state).leaving?

theorem Starts.ending?_eq (starts : Starts settings job part)
    (ended : part.ending? settings = some (ending, after)) :
    ∃ current, job.ending? settings = some (ending, { after with current }) := by
  cases starts with
  | grouping =>
      refine ⟨after.current, ?_⟩
      simpa only [ending?, Tree.evaluate] using ended
  | operand | left | logicalLeft | assigned =>
      refine ⟨after.current, ?_⟩
      simp only [ending?, Tree.evaluate] at ended ⊢
      exact Run.failing?_bind _ ended
  | right before =>
      refine ⟨after.current, ?_⟩
      simp only [ending?, Tree.evaluate] at ended ⊢
      rw [Run.bind_of_done before]
      exact Run.failing?_bind _ ended
  | logicalRight before undecided =>
      refine ⟨after.current, ?_⟩
      simp only [ending?, Tree.evaluate] at ended ⊢
      rw [Run.bind_of_done before]
      change Result.failing? ((if _ then _ else _ : Run Value) _) = _
      rw [if_neg undecided]
      exact ended
  | callee =>
      refine ⟨after.current, ?_⟩
      simp only [ending?, Tree.evaluate] at ended ⊢
      exact Run.failing?_bind _ ended
  | arguments before callable listed =>
      refine ⟨after.current, ?_⟩
      obtain ⟨title, named⟩ := Option.isSome_iff_exists.1 callable
      simp only [ending?, Tree.evaluate] at ended ⊢
      rw [Run.bind_of_done before]
      simp only [named]
      rw [Run.bind_of_done (Run.elements_done listed _)]
      exact Run.failing?_bind _ ended
  | firstArgument =>
      refine ⟨after.current, ?_⟩
      simp only [ending?, Tree.evaluateAll] at ended ⊢
      exact Run.failing?_bind _ ended
  | moreArguments before =>
      refine ⟨after.current, ?_⟩
      simp only [ending?, Tree.evaluateAll] at ended ⊢
      rw [Run.bind_of_done before]
      exact Run.failing?_bind _ ended
  | expr | print | condition =>
      refine ⟨after.current, ?_⟩
      simp only [ending?, Tree.execute] at ended ⊢
      exact Run.leaving?_bind _ ended
  | initial present =>
      refine ⟨after.current, ?_⟩
      simp only [ending?, Tree.execute, Run.unlessNil, present] at ended ⊢
      exact Run.leaving?_bind _ ended
  | @block budget state statements items listed =>
      refine ⟨state.current, ?_⟩
      simp only [ending?, Tree.execute] at ended ⊢
      change Result.leaving? ((Tree.executeAll settings (budget + 1) statements
        (state.entered state.current [])).mapState state.left) = _
      refine Result.leaving?_mapState ?_ state.left
      rw [Tree.executeAll, Run.bind_of_done (Run.elements_done listed _)]
      exact ended
  | thenBranch tested truthy =>
      refine ⟨after.current, ?_⟩
      simp only [ending?, Tree.execute_ifThen] at ended ⊢
      rw [Run.bind_of_done tested, if_pos truthy]
      exact ended
  | elseBranch tested falsy present =>
      refine ⟨after.current, ?_⟩
      simp only [ending?, Tree.execute_ifThen] at ended ⊢
      rw [Run.bind_of_done tested]
      simp only [falsy, present]
      exact ended
  | whileLoop =>
      refine ⟨after.current, ?_⟩
      simpa only [ending?, Tree.execute] using ended
  | result inside present =>
      refine ⟨after.current, ?_⟩
      simp only [ending?, Tree.execute] at ended ⊢
      change Result.leaving? ((if _ then _ else _ : Run Flow) _) = _
      rw [if_neg inside]
      simp only [Run.unlessNil, present]
      exact Run.leaving?_bind _ ended
  | roundCondition =>
      refine ⟨after.current, ?_⟩
      simp only [ending?, Tree.executeWhile] at ended ⊢
      exact Run.leaving?_bind _ ended
  | round tested truthy =>
      refine ⟨after.current, ?_⟩
      simp only [ending?, Tree.executeWhile_succ] at ended ⊢
      rw [Run.bind_of_done tested, if_pos truthy]
      exact Run.leaving?_behind (fun _ => rfl) ended
  | moreRounds tested truthy before =>
      refine ⟨after.current, ?_⟩
      simp only [ending?, Tree.executeWhile_succ] at ended ⊢
      rw [Run.bind_of_done tested, if_pos truthy, Run.bind_of_done before]
      exact ended
  | firstStatement =>
      refine ⟨after.current, ?_⟩
      simp only [ending?, Tree.executeList] at ended ⊢
      exact Run.leaving?_behind (fun _ => rfl) ended
  | moreStatements before =>
      refine ⟨after.current, ?_⟩
      simp only [ending?, Tree.executeList] at ended ⊢
      rw [Run.bind_of_done before]
      exact ended

/-- A call takes a returned value as its own; a failure ends it like any other job. -/
theorem Calls.evaluate_eq (calls : Calls settings job part)
    (ended : part.ending? settings = some (ending, after)) :
    ∃ tree current callDepth, job.task = .evaluate tree ∧
      tree.evaluate settings job.budget job.state =
        ending.atCall { after with current, callDepth } := by
  cases calls with
  | @body budget state ready callee paren arguments closure values params items bindings prepared
      listedParams bound listed =>
      refine ⟨_, ready.current, after.callDepth - 1, rfl, ?_⟩
      have left : (Run.inScope closure.scope bindings
          (Tree.executeAll settings (budget + 1) closure.body) ready.deepened).leaving? =
            some (ending, ready.deepened.left after) := by
        change Result.leaving? ((Tree.executeAll settings (budget + 1) closure.body
          (ready.deepened.entered closure.scope bindings)).mapState ready.deepened.left) = _
        refine Result.leaving?_mapState ?_ _
        rw [Tree.executeAll, Run.bind_of_done (Run.elements_done listed _)]
        exact ended
      have invoked : Tree.invoke settings (budget + 2) (.function closure) values ready.deepened =
          ending.atCall (ready.deepened.left after) := by
        rw [Tree.invoke, Run.bind_of_done (Run.elements_done listedParams _),
          Run.bind_of_done bound]
        cases ending with
        | returned value =>
            rw [Run.bind_of_done (Result.leaving?_eq_returned left)]
            rfl
        | failed failure => exact Run.bind_of_failed (Result.leaving?_eq_failed left)
      rw [Tree.evaluate_call, Run.bind_of_done prepared]
      change (Tree.invoke settings (budget + 2) (.function closure) values
        ready.deepened).mapState State.raised = _
      rw [invoked]
      cases ending <;> rfl

end Job

end Lox
