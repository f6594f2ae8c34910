import Lox.Proofs.Run.Blame

/-!
The check on `return` is lexical.  It counts calls while programs run, and what it forbids
are the `return` statements that stand in no function declaration.
-/

namespace Lox

namespace Tree

/-- The statement stands in the tree, and in no function declaration that is a part of it. -/
inductive StandsIn (part : Tree) : Tree → Prop
  | self : StandsIn part part
  | block {statements statement : Tree} {items : List Tree} :
      statements.elements? = some items → statement ∈ items → StandsIn part statement →
      StandsIn part (.block statements)
  | thenBranch {condition thenBranch elseBranch : Tree} :
      StandsIn part thenBranch → StandsIn part (.ifThen condition thenBranch elseBranch)
  | elseBranch {condition thenBranch elseBranch : Tree} :
      StandsIn part elseBranch → StandsIn part (.ifThen condition thenBranch elseBranch)
  | whileLoop {condition body : Tree} :
      StandsIn part body → StandsIn part (.whileLoop condition body)

end Tree

def Task.Has (part : Tree) : Task → Prop
  | evaluate _ => False
  | evaluateAll _ => False
  | execute tree => part.StandsIn tree
  | executeWhile _ body => part.StandsIn body
  | executeList statements => ∃ statement ∈ statements, part.StandsIn statement

namespace Job

variable {settings : Settings} {job part : Job}

structure IsReturn (job : Job) (keyword value : Tree) : Prop where
  budget : 0 < job.budget
  task : job.task = .execute (.returnStmt keyword value)

theorem Starts.has {statement : Tree} (starts : Starts settings job part)
    (has : part.task.Has statement) : job.task.Has statement := by
  cases starts with
  | block listed =>
      obtain ⟨item, member, stands⟩ := has
      exact .block listed member stands
  | thenBranch => exact .thenBranch has
  | elseBranch => exact .elseBranch has
  | whileLoop => exact .whileLoop has
  | round => exact has
  | moreRounds => exact has
  | firstStatement => exact ⟨_, List.mem_cons_self, has⟩
  | moreStatements =>
      obtain ⟨item, member, stands⟩ := has
      exact ⟨item, List.mem_cons_of_mem _ member, stands⟩
  | _ => exact has.elim

theorem Comes.has {statement : Tree} (comes : Comes settings job 0 part)
    (has : part.task.Has statement) : job.task.Has statement := by
  generalize none : 0 = calls at comes
  induction comes with
  | self => exact has
  | starts _ starts ih => exact ih (starts.has has) none
  | calls => cases none

theorem IsReturn.has {keyword value : Tree} (isReturn : job.IsReturn keyword value) :
    job.task.Has (.returnStmt keyword value) := by
  rw [isReturn.task]
  exact .self

theorem Comes.ending?_eq (comes : Comes settings job 0 part) {ending : Ending} {after : State}
    (ended : part.ending? settings = some (ending, after)) :
    ∃ current, job.ending? settings = some (ending, { after with current }) := by
  generalize none : 0 = calls at comes
  induction comes generalizing after with
  | self => exact ⟨after.current, ended⟩
  | starts _ starts ih =>
      obtain ⟨current, left⟩ := starts.ending?_eq ended
      obtain ⟨outer, leftOuter⟩ := ih left none
      exact ⟨outer, leftOuter⟩
  | calls => cases none

theorem Starts.budget_lt (starts : Starts settings job part) : part.budget < job.budget := by
  cases starts <;> simp

theorem Calls.budget_lt (calls : Calls settings job part) : part.budget < job.budget := by
  cases calls
  simp

theorem callDepth_ne_of_returned {value : Value} {after : State}
    (ended : job.ending? settings = some (.returned value, after)) :
    job.state.callDepth ≠ 0 := by
  generalize spare : job.budget = budget
  induction budget using Nat.strongRecOn generalizing job after with
  | ind budget ih =>
      cases blamed ended trivial with
      | inside deep => exact deep
      | part starts partEnded =>
          rw [← starts.callDepth_eq]
          exact ih _ (spare ▸ starts.budget_lt) partEnded rfl

theorem comes_of_ofReturn {failure : Failure} {after : State}
    (ended : job.ending? settings = some (.failed failure, after)) (blamable : failure.OfReturn) :
    ∃ calls part keyword value, Comes settings job calls part ∧
      part.IsReturn (.token keyword) value ∧ part.state.callDepth = 0 ∧
      failure = keyword.error "Can't return from top-level code." := by
  generalize spare : job.budget = budget
  induction budget using Nat.strongRecOn generalizing job after with
  | ind budget ih =>
      cases blamed ended blamable with
      | @outside fewer state keyword value shallow =>
          exact ⟨0, _, keyword, value, .self, ⟨Nat.succ_pos fewer, rfl⟩, shallow, rfl⟩
      | part starts partEnded =>
          obtain ⟨calls, found, keyword, value, comes, rest⟩ :=
            ih _ (spare ▸ starts.budget_lt) partEnded rfl
          exact ⟨_, found, keyword, value, (Comes.self.starts starts).trans comes, rest⟩
      | called called partEnded =>
          obtain ⟨calls, found, keyword, value, comes, rest⟩ :=
            ih _ (spare ▸ called.budget_lt) partEnded rfl
          exact ⟨_, found, keyword, value, (Comes.self.calls called).trans comes, rest⟩

theorem ending?_return {budget : Nat} {state : State} {keyword : SavedToken} {value : Tree}
    (outside : state.callDepth = 0) :
    ending? settings ⟨budget + 1, .execute (.returnStmt (.token keyword) value), state⟩ =
      some (.failed (keyword.error "Can't return from top-level code."), state) := by
  simp only [ending?, Tree.execute]
  change Result.leaving? ((if state.callDepth = 0 then _ else _ : Run Flow) state) = _
  rw [if_pos outside]
  rfl

/-- The `return` stands in the function that the call runs, and if it gives a value, the call
ends at once and gives that value. -/
structure EndsCall (settings : Settings) (job call body : Job) (keyword value : Tree) : Prop where
  called : Calls settings call body
  comes : Comes settings body 0 job
  has : body.task.Has (.returnStmt keyword value)
  gives : ∀ result after,
    (Tree.returnStmt keyword value).execute settings job.budget job.state =
      .done (.returned result) after →
    ∃ tree, call.task = .evaluate tree ∧
      tree.evaluate settings call.budget call.state =
        .done result { after with
          current := call.state.current, callDepth := call.state.callDepth }

theorem IsReturn.endsCall {call body : Job} {keyword value : Tree}
    (isReturn : job.IsReturn keyword value) (called : Calls settings call body)
    (comes : Comes settings body 0 job) : job.EndsCall settings call body keyword value where
  called := called
  comes := comes
  has := comes.has isReturn.has
  gives result after returned := by
    have left : job.ending? settings = some (.returned result, after) := by
      obtain ⟨budget, task, state⟩ := job
      obtain ⟨-, rfl⟩ := isReturn
      change Result.leaving? _ = _
      rw [returned]
      rfl
    obtain ⟨scope, bodyLeft⟩ := comes.ending?_eq left
    obtain ⟨tree, current, callDepth, evaluates, evaluated⟩ := called.evaluate_eq bodyLeft
    obtain ⟨rfl, rfl⟩ := State.restored_of_evaluate evaluated
    exact ⟨tree, evaluates, evaluated⟩

end Job

namespace Session

variable {settings : Settings} {budget : Nat} {trees : List Tree} {state : State}

inductive Executes (settings : Settings) (budget : Nat) :
    List Tree → State → Tree → State → Prop
  | first {first : Tree} {rest : List Tree} {state ready : State} :
      Run.traceAt settings 1 ("execute " ++ first.shape.name) state = .done () ready →
      Executes settings budget (first :: rest) state first ready
  | later {first tree : Tree} {rest : List Tree} {state ready after there : State} {flow : Flow} :
      Run.traceAt settings 1 ("execute " ++ first.shape.name) state = .done () ready →
      first.execute settings budget ready = .done flow after →
      Executes settings budget rest after tree there →
      Executes settings budget (first :: rest) state tree there

def ComesTo (settings : Settings) (budget : Nat) (trees : List Tree) (state : State) (top : Tree)
    (calls : Nat) (job : Job) : Prop :=
  ∃ there, Executes settings budget trees state top there ∧
    Job.Comes settings ⟨budget, .execute top, there⟩ calls job

theorem Executes.mem {tree : Tree} {there : State}
    (executes : Executes settings budget trees state tree there) : tree ∈ trees := by
  induction executes with
  | first => exact List.mem_cons_self
  | later _ _ _ ih => exact List.mem_cons_of_mem _ ih

theorem Executes.callDepth_eq {tree : Tree} {there : State}
    (executes : Executes settings budget trees state tree there) :
    there.callDepth = state.callDepth := by
  have traced {message : Text} {before ready : State}
      (ended : Run.traceAt settings 1 message before = .done () ready) :
      ready.callDepth = before.callDepth := by
    obtain ⟨trace, same⟩ := Run.traceAt_done settings 1 message before
    rw [same] at ended
    cases ended
    rfl
  induction executes with
  | first begun => exact traced begun
  | later begun ended _ ih =>
      exact ih.trans ((State.restored_of_execute ended).2.trans (traced begun))

theorem interpret_failed {error : RuntimeError} {after : State}
    (ended : interpret settings budget trees state = .done (.failed error) after) :
    ∃ tree there final, Executes settings budget trees state tree there ∧
      tree.execute settings budget there = .failed (.error error) final := by
  induction trees generalizing state with
  | nil => cases ended
  | cons first rest ih =>
      rw [interpret] at ended
      obtain ⟨_, ready, begun, ended⟩ := Run.bind_done ended
      obtain ⟨outcome, middle, attempted, ended⟩ := Run.bind_done ended
      unfold Run.attempt at attempted
      cases ran : first.execute settings budget ready with
      | done flow final =>
          rw [ran] at attempted
          cases attempted
          obtain ⟨tree, there, last, executes, failed⟩ := ih ended
          exact ⟨tree, there, last, .later begun ran executes, failed⟩
      | failed failure final =>
          rw [ran] at attempted
          cases failure with
          | error raised =>
              cases attempted
              obtain ⟨_, _, _, ended⟩ := Run.bind_done ended
              cases ended
              exact ⟨first, ready, middle, .first begun, ran⟩
          | fault reason => cases attempted
      | spent =>
          rw [ran] at attempted
          cases attempted

theorem Executes.interpret_eq {tree : Tree} {there final : State} {error : RuntimeError}
    (executes : Executes settings budget trees state tree there)
    (failed : tree.execute settings budget there = .failed (.error error) final) :
    ∃ after, interpret settings budget trees state = .done (.failed error) after := by
  induction executes with
  | @first first rest state ready begun =>
      have attempted : Run.attempt (first.execute settings budget) ready =
          .done (.error error) final := by
        unfold Run.attempt
        rw [failed]
      rw [interpret, Run.bind_of_done begun, Run.bind_of_done attempted]
      obtain ⟨trace, noted⟩ := Run.traceAt_bind settings 1
        ("runtime error: " ++ error.message ++ " [line " ++ error.line.display ++ "]")
        (pure (Outcome.failed error)) final
      exact ⟨_, noted⟩
  | @later first tree rest state ready after there flow begun ran _ ih =>
      have attempted : Run.attempt (first.execute settings budget) ready =
          .done (.ok flow) after := by
        unfold Run.attempt
        rw [ran]
      rw [interpret, Run.bind_of_done begun, Run.bind_of_done attempted]
      exact ih failed

theorem ComesTo.callDepth_eq {top : Tree} {calls : Nat} {job : Job}
    (comesTo : ComesTo settings budget trees state top calls job) (shallow : state.callDepth = 0) :
    job.state.callDepth = calls := by
  obtain ⟨there, executes, comes⟩ := comesTo
  rw [comes.callDepth_eq, executes.callDepth_eq, shallow, Nat.zero_add]

/-- A program fails with the error of a `return` if it comes to one outside of calls. -/
theorem interpret_failed_iff (shallow : state.callDepth = 0) :
    (∃ error after, interpret settings budget trees state = .done (.failed error) after ∧
      error.message = "Can't return from top-level code.") ↔
    ∃ top job keyword value, ComesTo settings budget trees state top 0 job ∧
      job.IsReturn (.token keyword) value := by
  constructor
  · rintro ⟨error, after, ended, message⟩
    obtain ⟨top, there, final, executes, failed⟩ := interpret_failed ended
    have left : Job.ending? settings ⟨budget, .execute top, there⟩ =
        some (.failed (.error error), final) := by
      change Result.leaving? _ = _
      rw [failed]
      rfl
    obtain ⟨calls, job, keyword, value, comes, isReturn, outside, -⟩ :=
      Job.comes_of_ofReturn left message
    have comesTo : ComesTo settings budget trees state top calls job := ⟨there, executes, comes⟩
    have none := comesTo.callDepth_eq shallow
    rw [outside] at none
    subst none
    exact ⟨top, job, keyword, value, comesTo, isReturn⟩
  · rintro ⟨top, ⟨spare, task, current⟩, keyword, value, comesTo, positive, rfl⟩
    have outside := comesTo.callDepth_eq shallow
    obtain ⟨there, executes, comes⟩ := comesTo
    obtain ⟨fewer, rfl⟩ := Nat.exists_eq_add_one_of_ne_zero (Nat.ne_of_gt positive)
    obtain ⟨scope, left⟩ := comes.ending?_eq (Job.ending?_return outside)
    obtain ⟨after, ended⟩ := executes.interpret_eq (Result.leaving?_eq_failed left)
    exact ⟨_, after, ended, rfl⟩

/-- The check on `return` while programs run agrees with how they are written.  No top-level
statement returns; a program fails with the error of a `return` exactly if it comes to one
without a call, which then stands in no function declaration; any other `return` ends the
innermost call, which gives its value. -/
theorem returns_checked_lexically (reached : Reached settings state) (budget : Nat)
    (trees : List Tree) :
    (∀ top there, Executes settings budget trees state top there →
      ∀ value after, top.execute settings budget there ≠ .done (.returned value) after) ∧
    ((∃ error after, interpret settings budget trees state = .done (.failed error) after ∧
        error.message = "Can't return from top-level code.") ↔
      ∃ top job keyword value, ComesTo settings budget trees state top 0 job ∧
        job.IsReturn (.token keyword) value) ∧
    (∀ top calls job keyword value, ComesTo settings budget trees state top calls job →
      job.IsReturn keyword value → job.state.callDepth = calls ∧
        (calls = 0 → (Tree.returnStmt keyword value).StandsIn top) ∧
        ∀ outer, calls = outer + 1 → ∃ call body,
          ComesTo settings budget trees state top outer call ∧
            job.EndsCall settings call body keyword value) ∧
    ((∀ top ∈ trees, ∀ keyword value, ¬ (Tree.returnStmt keyword value).StandsIn top) →
      ∀ error after, interpret settings budget trees state = .done (.failed error) after →
        error.message ≠ "Can't return from top-level code.") := by
  have shallow := (State.restored_of_reached reached).2
  refine ⟨?_, interpret_failed_iff shallow, ?_, ?_⟩
  · intro top there executes value after returned
    have left : Job.ending? settings ⟨budget, .execute top, there⟩ =
        some (.returned value, after) := by
      change Result.leaving? _ = _
      rw [returned]
      rfl
    exact Job.callDepth_ne_of_returned left (executes.callDepth_eq.trans shallow)
  · intro top calls job keyword value comesTo isReturn
    refine ⟨comesTo.callDepth_eq shallow, ?_, ?_⟩
    · rintro rfl
      obtain ⟨there, -, comes⟩ := comesTo
      exact comes.has isReturn.has
    · rintro outer rfl
      obtain ⟨there, executes, comes⟩ := comesTo
      obtain ⟨call, body, before, called, behind⟩ := comes.last_call
      exact ⟨call, body, ⟨there, executes, before⟩, isReturn.endsCall called behind⟩
  · intro bare error after ended message
    obtain ⟨top, job, keyword, value, ⟨there, executes, comes⟩, isReturn⟩ :=
      (interpret_failed_iff shallow).1 ⟨error, after, ended, message⟩
    exact bare top executes.mem _ value (comes.has isReturn.has)

/-- The program `{ return; }` on a fresh machine. -/
theorem returns_checked_lexically_block :
    ∃ error after, interpret ⟨0, fun _ => none⟩ 4
        [.block (.list [.returnStmt (Token.toTree ⟨.returnWord, "return", 1, .nil⟩) .nil])]
        .initial =
          .done (.failed error) after ∧
      error.message = "Can't return from top-level code." := by
  let keyword : SavedToken := Token.saved ⟨.returnWord, "return", 1, .nil⟩
  let top : Tree := .block (.list [.returnStmt (.token keyword) .nil])
  let inner : State := State.initial.entered State.globalScope []
  have comes : Job.Comes ⟨0, fun _ => none⟩ ⟨4, .execute top, .initial⟩ 0
      ⟨1, .execute (.returnStmt (.token keyword) .nil), inner⟩ :=
    (Job.Comes.self.starts (.block rfl)).starts .firstStatement
  have comesTo : ComesTo ⟨0, fun _ => none⟩ 4 [top] .initial top 0
      ⟨1, .execute (.returnStmt (.token keyword) .nil), inner⟩ :=
    ⟨_, .first rfl, comes⟩
  exact (returns_checked_lexically .initial 4 [top]).2.1.2
    ⟨top, _, keyword, .nil, comesTo, Nat.zero_lt_one, rfl⟩

end Session

end Lox
