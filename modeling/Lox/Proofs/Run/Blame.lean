import Lox.Proofs.Run.Ending

/-!
Where early ends come from.  A `return` is the only thing that returns a value, and the
only one that fails for want of a function to return from.
-/

namespace Lox

def Failure.OfReturn : Failure → Prop
  | .error raised => raised.message = "Can't return from top-level code."
  | .fault _ => False

def Ending.OfReturn : Ending → Prop
  | returned _ => True
  | failed failure => failure.OfReturn

theorem Failure.not_ofReturn {raised : RuntimeError}
    (different : raised.message.codes.take 4 ≠
      (Text.ofString "Can't return from top-level code.").codes.take 4) :
    ¬ (Failure.error raised).OfReturn := by
  intro same
  change raised.message = _ at same
  rw [same] at different
  exact different rfl

namespace Run

variable {α β : Type}

def Quiet (step : Run α) : Prop :=
  ∀ state failure after, step state = .failed failure after → ¬ failure.OfReturn

theorem quiet_pure (value : α) : Quiet (pure value) := by
  intro state failure after ended
  cases ended

theorem quiet_fail {failure : Failure} (other : ¬ failure.OfReturn) :
    Quiet (fail failure : Run α) := by
  intro state _ after ended
  cases ended
  exact other

theorem quiet_fault (reason : Fault) : Quiet (fault reason : Run α) :=
  quiet_fail id

theorem Quiet.bind {first : Run α} {next : α → Run β} (quiet : Quiet first)
    (quietNext : ∀ value, Quiet (next value)) : Quiet (first >>= next) := by
  intro state failure after ended
  rcases bind_failed ended with early | ⟨value, middle, -, late⟩
  · exact quiet state failure after early
  · exact quietNext value middle failure after late

theorem quiet_token (site : Tree) : Quiet (token site) := by
  cases site with
  | token token => exact quiet_pure token
  | _ => exact quiet_fault .notToken

theorem quiet_lexeme (site : Tree) : Quiet (lexeme site) := by
  cases site with
  | token token => exact quiet_pure token.lexeme
  | _ => exact quiet_fault .notToken

theorem quiet_name (lexeme : Json) : Quiet (name lexeme) := by
  unfold name
  split
  · exact quiet_pure _
  · exact quiet_fault .notName

theorem quiet_elements (tree : Tree) : Quiet (elements tree) := by
  unfold elements
  split
  · exact quiet_pure _
  · exact quiet_fault .notSequence

theorem quiet_raise (site : Tree) {message : Text}
    (different : message.codes.take 4 ≠
      (Text.ofString "Can't return from top-level code.").codes.take 4) :
    Quiet (raise site message : Run α) := by
  cases site with
  | token token => exact quiet_fail (Failure.not_ofReturn different)
  | _ => exact quiet_fault .notToken

theorem quiet_unsupported (site : Tree) {feature : String}
    (known : feature ∈ Likeness.unsupported) : Quiet (unsupported site feature : Run α) := by
  have different : (Text.ofString feature ++ Text.ofString " is not supported.").codes.take 4 ≠
      (Text.ofString "Can't return from top-level code.").codes.take 4 := by
    simp only [Likeness.unsupported, List.mem_cons, List.not_mem_nil, or_false] at known
    rcases known with rfl | rfl | rfl | rfl | rfl <;> decide
  cases site with
  | token token => exact quiet_fail (Failure.not_ofReturn different)
  | _ => exact quiet_fault .notToken

theorem quiet_undefined (site : Tree) : Quiet (undefined site : Run α) := by
  cases site with
  | token token => exact quiet_fail (Failure.not_ofReturn (ne_of_beq_false rfl))
  | _ => exact quiet_fault .notToken

theorem quiet_operator {known : List Kind} {operator : SavedToken}
    {result : Except Failure Value} (gives : Operator.Gives known operator result) :
    Quiet (ofExcept result) := by
  cases gives with
  | bool | number | text => exact quiet_pure _
  | operand | operands => exact quiet_fail (Failure.not_ofReturn (ne_of_beq_false rfl))
  | unknown title =>
      simp only [List.mem_cons, List.not_mem_nil, or_false] at title
      rcases title with rfl | rfl
      all_goals exact quiet_fail (Failure.not_ofReturn (ne_of_beq_false rfl))

theorem quiet_applyUnary (operator : Tree) (operand : Value) :
    Quiet (token operator >>= fun token => ofExcept (Operator.unary token operand)) :=
  (quiet_token operator).bind fun token =>
    quiet_operator (Operator.gives_unary token operand)

theorem quiet_applyBinary (operator : Tree) (left right : Value) :
    Quiet (token operator >>= fun token => ofExcept (Operator.binary token left right)) :=
  (quiet_token operator).bind fun token =>
    quiet_operator (Operator.gives_binary token left right)

theorem quiet_lookup (site : Tree) : Quiet (lookup site) := by
  refine (quiet_lexeme site).bind fun lexeme => (quiet_name lexeme).bind fun name => ?_
  intro state failure after ended
  dsimp only at ended
  split at ended
  · cases ended
  · exact quiet_undefined site state failure after ended

theorem quiet_assign (site : Tree) (value : Value) : Quiet (assign site value) := by
  refine (quiet_lexeme site).bind fun lexeme => (quiet_name lexeme).bind fun name => ?_
  intro state failure after ended
  dsimp only at ended
  split at ended
  · cases ended
  · exact quiet_undefined site state failure after ended

theorem quiet_define (name : Name) (value : Value) : Quiet (define name value) := by
  intro state failure after ended
  cases ended

theorem quiet_close (name : Text) (params body : Tree) : Quiet (close name params body) := by
  intro state failure after ended
  cases ended

theorem quiet_readClock (settings : Settings) : Quiet (readClock settings) := by
  intro state failure after ended
  unfold readClock at ended
  split at ended
  · cases ended
  · cases ended
    exact id

theorem quiet_traceAt (settings : Settings) (level : Nat) (message : Text) :
    Quiet (traceAt settings level message) := by
  intro state failure after ended
  obtain ⟨trace, traced⟩ := traceAt_done settings level message state
  rw [traced] at ended
  cases ended

theorem quiet_traceFunction (settings : Settings) (closure : Closure) :
    Quiet (traceFunction settings closure) := by
  unfold traceFunction
  split
  · split
    · exact quiet_fault .notSequence
    · intro state failure after ended
      cases ended
  · exact quiet_pure ()

theorem quiet_bindParams (params : List Tree) (arguments : List Value) (bindings : Bindings Value) :
    Quiet (bindParams params arguments bindings) := by
  induction params generalizing arguments bindings with
  | nil => exact quiet_pure bindings
  | cons param params ih =>
      cases arguments with
      | nil => exact quiet_pure bindings
      | cons argument arguments =>
          refine (quiet_lexeme param).bind fun lexeme => (quiet_name lexeme).bind fun name => ?_
          exact ih arguments _

end Run

namespace Job

variable {settings : Settings} {job part : Job}

/-- Why a job returns a value or fails with the error of a `return`: it is that `return`, or
a part of it ends so. -/
inductive Blamed (settings : Settings) : Job → Ending → Prop
  | outside {budget : Nat} {state : State} {keyword : SavedToken} {value : Tree} :
      state.callDepth = 0 →
      Blamed settings ⟨budget + 1, .execute (.returnStmt (.token keyword) value), state⟩
        (.failed (keyword.error "Can't return from top-level code."))
  | inside {budget : Nat} {state : State} {keyword value : Tree} {result : Value} :
      state.callDepth ≠ 0 →
      Blamed settings ⟨budget + 1, .execute (.returnStmt keyword value), state⟩ (.returned result)
  | part {job part : Job} {ending : Ending} {after : State} :
      Starts settings job part → part.ending? settings = some (ending, after) →
      Blamed settings job ending
  | called {job part : Job} {failure : Failure} {after : State} :
      Calls settings job part → part.ending? settings = some (.failed failure, after) →
      Blamed settings job (.failed failure)

def Explained (settings : Settings) (job : Job) (ended? : Option (Ending × State)) : Prop :=
  ∀ ending after, ended? = some (ending, after) → ending.OfReturn → Blamed settings job ending

theorem explained_part (starts : Starts settings job part) :
    Explained settings job (part.ending? settings) :=
  fun _ _ ended _ => .part starts ended

theorem explained_none : Explained settings job none :=
  fun _ _ ended => nomatch ended

section

variable {α β : Type} {state : State}

theorem explained_quiet {step : Run α} (quiet : Run.Quiet step) (state : State) :
    Explained settings job (step state).failing? := by
  intro ending after ended blamable
  obtain ⟨failure, rfl, failed⟩ := Result.failing?_eq_some ended
  exact absurd blamable (quiet state failure after failed)

theorem explained_completes {step : Run Flow} (quiet : Run.Quiet step)
    (completes : Run.Completes step) (state : State) :
    Explained settings job (step state).leaving? := by
  intro ending after ended blamable
  cases ending with
  | returned value => cases completes state _ after (Result.leaving?_eq_returned ended)
  | failed failure =>
      exact absurd blamable (quiet state failure after (Result.leaving?_eq_failed ended))

theorem Explained.bind {first : Run α} {next : α → Run β}
    (explained : Explained settings job (first state).failing?)
    (explainedNext : ∀ value middle, first state = .done value middle →
      Explained settings job (next value middle).failing?) :
    Explained settings job ((first >>= next) state).failing? := by
  intro ending after ended blamable
  obtain ⟨failure, rfl, failed⟩ := Result.failing?_eq_some ended
  rcases Run.bind_failed failed with early | ⟨value, middle, before, late⟩
  · exact explained _ after (by rw [early]; rfl) blamable
  · exact explainedNext value middle before _ after (by rw [late]; rfl) blamable

theorem Explained.bindFlow {first : Run α} {next : α → Run Flow}
    (explained : Explained settings job (first state).failing?)
    (explainedNext : ∀ value middle, first state = .done value middle →
      Explained settings job (next value middle).leaving?) :
    Explained settings job ((first >>= next) state).leaving? := by
  intro ending after ended blamable
  cases ending with
  | returned result =>
      obtain ⟨value, middle, before, late⟩ := Run.bind_done (Result.leaving?_eq_returned ended)
      exact explainedNext value middle before _ after (by rw [late]; rfl) blamable
  | failed failure =>
      rcases Run.bind_failed (Result.leaving?_eq_failed ended) with
        early | ⟨value, middle, before, late⟩
      · exact explained _ after (by rw [early]; rfl) blamable
      · exact explainedNext value middle before _ after (by rw [late]; rfl) blamable

theorem Explained.behind {first : Run Flow} {next : Flow → Run Flow}
    (passes : ∀ value, next (.returned value) = pure (.returned value))
    (explained : Explained settings job (first state).leaving?)
    (explainedNext : ∀ middle, first state = .done .completed middle →
      Explained settings job (next .completed middle).leaving?) :
    Explained settings job ((first >>= next) state).leaving? := by
  cases outcome : first state with
  | done flow middle =>
      rw [Run.bind_of_done outcome]
      cases flow with
      | completed => exact explainedNext middle outcome
      | returned value =>
          rw [outcome] at explained
          rw [passes]
          exact explained
  | failed failure after =>
      rw [Run.bind_of_failed outcome]
      rw [outcome] at explained
      exact explained
  | spent =>
      intro ending after ended
      change Result.leaving? (Run.bind first next state) = _ at ended
      unfold Run.bind at ended
      rw [outcome] at ended
      cases ended

theorem Explained.mapState {result : Result α} (explained : Explained settings job result.failing?)
    (change : State → State) : Explained settings job (result.mapState change).failing? := by
  cases result with
  | failed failure after => exact fun ending _ ended => explained ending after (by cases ended; rfl)
  | _ => exact explained_none

end

theorem explained_prepare (budget : Nat) (state : State) (callee paren arguments : Tree) :
    Explained settings ⟨budget + 1, .evaluate (.call callee paren arguments), state⟩
      (Tree.prepare settings budget callee paren arguments state).failing? := by
  refine (explained_part .callee).bind fun value middle before => ?_
  cases named : value.callable? with
  | none => exact explained_quiet (Run.quiet_raise paren (by decide)) middle
  | some title =>
      have callable : value.callable?.isSome := by rw [named]; rfl
      obtain ⟨arity?, title⟩ := title
      refine (explained_quiet (Run.quiet_elements arguments) middle).bind fun items same ended => ?_
      obtain ⟨listed, rfl⟩ := Run.of_elements_done ended
      refine (explained_part (.arguments before callable listed)).bind fun values ready _ => ?_
      refine explained_quiet ?_ ready
      cases arity? with
      | none => exact Run.quiet_fault .notSequence
      | some arity =>
          dsimp only
          split
          · exact (Run.quiet_traceAt settings 2 _).bind fun _ => Run.quiet_pure _
          · exact Run.quiet_raise paren (ne_of_beq_false rfl)

theorem ending?_of_inScope {budget : Nat} {body : Tree} {state after : State} {ending : Ending}
    {bindings : Bindings Value} {enclosing : Nat}
    (ended : (Run.inScope enclosing bindings
      (Tree.executeAll settings budget body) state).leaving? = some (ending, after))
    (blamable : ending.OfReturn) :
    ∃ fewer items final, budget = fewer + 1 ∧ body.elements? = some items ∧
      ending? settings ⟨fewer, .executeList items, state.entered enclosing bindings⟩ =
        some (ending, final) := by
  change ((Tree.executeAll settings budget body
    (state.entered enclosing bindings)).mapState state.left).leaving? = _ at ended
  obtain ⟨final, left⟩ := Result.leaving?_of_mapState ended
  cases budget with
  | zero => cases left
  | succ fewer =>
      cases listed : body.elements? with
      | none =>
          rw [Tree.executeAll, Run.elements, listed] at left
          cases left
          exact absurd blamable id
      | some items =>
          rw [Tree.executeAll, Run.bind_of_done (Run.elements_done listed _)] at left
          exact ⟨fewer, items, final, rfl, rfl, left⟩

theorem explained_call (budget : Nat) (state : State) (callee paren arguments : Tree) :
    Explained settings ⟨budget + 1, .evaluate (.call callee paren arguments), state⟩
      ((Tree.call callee paren arguments).evaluate settings (budget + 1) state).failing? := by
  rw [Tree.evaluate_call]
  refine (explained_prepare budget state callee paren arguments).bind ?_
  rintro ⟨value, values⟩ ready prepared
  refine Explained.mapState ?_ State.raised
  change Explained settings _ (Tree.invoke settings budget value values ready.deepened).failing?
  cases budget with
  | zero => exact explained_none
  | succ budget =>
      cases value with
      | function closure =>
          rw [Tree.invoke]
          refine (explained_quiet (Run.quiet_elements closure.params) _).bind
            fun params same ended => ?_
          obtain ⟨listedParams, rfl⟩ := Run.of_elements_done ended
          refine (explained_quiet (Run.quiet_bindParams params values []) _).bind
            fun bindings after bound => ?_
          obtain rfl := (bindParams_done bound).1
          intro ending after ended blamable
          obtain ⟨failure, rfl, failed⟩ := Result.failing?_eq_some ended
          rcases Run.bind_failed failed with early | ⟨flow, final, -, late⟩
          · obtain ⟨fewer, items, final, rfl, listed, left⟩ :=
              ending?_of_inScope (by rw [early]; rfl) blamable
            exact .called (.body prepared listedParams bound listed) left
          · cases flow <;> cases late
      | _ => exact explained_quiet (Run.quiet_readClock settings) _

theorem explained_evaluate (budget : Nat) (tree : Tree) (state : State) :
    Explained settings ⟨budget + 1, .evaluate tree, state⟩
      (tree.evaluate settings (budget + 1) state).failing? := by
  by_cases expression : tree.isExpression
  · cases tree with
    | literal value =>
        simp only [Tree.evaluate]
        exact explained_quiet (Run.quiet_pure _) state
    | grouping inner =>
        simp only [Tree.evaluate]
        exact explained_part .grouping
    | unary operator operand =>
        simp only [Tree.evaluate]
        refine (explained_part .operand).bind fun value middle _ => ?_
        exact explained_quiet (Run.quiet_applyUnary operator value) middle
    | binary left operator right =>
        simp only [Tree.evaluate]
        refine (explained_part .left).bind fun first middle before => ?_
        refine (explained_part (.right before)).bind fun second after _ => ?_
        exact explained_quiet (Run.quiet_applyBinary operator first second) after
    | logical left operator right =>
        simp only [Tree.evaluate]
        refine (explained_part .logicalLeft).bind fun value middle before => ?_
        cases operator with
        | token operator =>
            change Explained settings _ (Result.failing? ((if _ then _ else _ : Run Value) middle))
            by_cases decided : value.isTruthy = decide (operator.kind = .orWord)
            · rw [if_pos decided]
              exact explained_none
            · rw [if_neg decided]
              exact explained_part (.logicalRight before decided)
        | _ => exact explained_quiet (Run.quiet_fault (α := Value) .notToken) middle
    | ident name =>
        simp only [Tree.evaluate]
        exact explained_quiet (Run.quiet_lookup name) state
    | assign name value =>
        simp only [Tree.evaluate]
        refine (explained_part .assigned).bind fun value middle _ => ?_
        exact explained_quiet ((Run.quiet_assign name value).bind fun _ => Run.quiet_pure _) middle
    | call callee paren arguments => exact explained_call budget state callee paren arguments
    | member target name | setMember target name value | this name | super name method =>
        simp only [Tree.evaluate]
        exact explained_quiet (Run.quiet_unsupported name (by decide)) state
    | _ => cases expression
  · rw [Tree.evaluate_of_not_isExpression (by simpa using expression)]
    exact explained_quiet (Run.quiet_fault _) state

theorem explained_evaluateAll (budget : Nat) (trees : List Tree) (state : State) :
    Explained settings ⟨budget + 1, .evaluateAll trees, state⟩
      (Tree.evaluateAll settings (budget + 1) trees state).failing? := by
  cases trees with
  | nil => exact explained_none
  | cons first rest =>
      rw [Tree.evaluateAll]
      refine (explained_part .firstArgument).bind fun value middle before => ?_
      refine (explained_part (.moreArguments before)).bind fun values after _ => ?_
      exact explained_quiet (Run.quiet_pure _) after

theorem explained_test {budget : Nat} {condition : Tree} {state : State} (title : Value → Text)
    (starts : Starts settings job ⟨budget, .evaluate condition, state⟩) :
    Explained settings job (Tree.test settings budget title condition state).failing? := by
  refine (explained_part starts).bind fun value middle _ => ?_
  exact explained_quiet ((Run.quiet_traceAt settings 3 _).bind fun _ => Run.quiet_pure _) middle

theorem explained_return (budget : Nat) (keyword value : Tree) (state : State) :
    Explained settings ⟨budget + 1, .execute (.returnStmt keyword value), state⟩
      ((Tree.returnStmt keyword value).execute settings (budget + 1) state).leaving? := by
  simp only [Tree.execute]
  change Explained settings _
    (Result.leaving? ((if state.callDepth = 0 then _ else _ : Run Flow) state))
  by_cases outside : state.callDepth = 0
  · rw [if_pos outside]
    cases keyword with
    | token keyword =>
        intro ending after ended _
        cases ended
        exact .outside outside
    | _ =>
        intro ending after ended blamable
        cases ended
        exact absurd blamable id
  · rw [if_neg outside]
    refine Explained.bindFlow ?_ fun value middle _ => ?_
    · unfold Run.unlessNil
      split
      · exact explained_none
      · next present => exact explained_part (.result outside (by simpa using present))
    · intro ending after ended _
      cases ended
      exact .inside outside

theorem explained_execute (budget : Nat) (tree : Tree) (state : State) :
    Explained settings ⟨budget + 1, .execute tree, state⟩
      (tree.execute settings (budget + 1) state).leaving? := by
  by_cases statement : tree.isStatement
  · cases tree with
    | expr value =>
        simp only [Tree.execute]
        exact (explained_part .expr).bindFlow fun _ middle _ => explained_none
    | print value =>
        simp only [Tree.execute]
        exact (explained_part .print).bindFlow fun _ middle _ => explained_none
    | var name initial =>
        simp only [Tree.execute]
        refine Explained.bindFlow ?_ fun value middle _ => ?_
        · unfold Run.unlessNil
          split
          · exact explained_none
          · next present => exact explained_part (.initial (by simpa using present))
        · refine explained_completes ?_ ?_ middle
          · exact (Run.quiet_lexeme name).bind fun lexeme =>
              (Run.quiet_name lexeme).bind fun bound =>
              (Run.quiet_define bound value).bind fun _ => (Run.quiet_traceAt settings 2 _).bind
                fun _ => Run.quiet_pure _
          · exact Run.completes_behind _ fun _ => Run.completes_behind _ fun _ =>
              Run.completes_behind _ fun _ => Run.completes_behind _ fun _ => Run.completes_pure
    | block statements =>
        simp only [Tree.execute]
        intro ending after ended blamable
        obtain ⟨fewer, items, final, rfl, listed, left⟩ := ending?_of_inScope ended blamable
        exact .part (.block listed) left
    | ifThen condition thenBranch elseBranch =>
        rw [Tree.execute_ifThen]
        refine (explained_test Tree.ifTitle .condition).bindFlow fun value middle tested => ?_
        by_cases truthy : value.isTruthy = true
        · rw [if_pos truthy]
          exact explained_part (.thenBranch tested truthy)
        · rw [if_neg truthy]
          by_cases absent : elseBranch.isNil = true
          · rw [if_pos absent]
            exact explained_none
          · rw [if_neg absent]
            exact explained_part
              (.elseBranch tested (by simpa using truthy) (by simpa using absent))
    | whileLoop condition body =>
        simp only [Tree.execute]
        exact explained_part .whileLoop
    | function name params body =>
        simp only [Tree.execute]
        refine explained_completes ?_ ?_ state
        · exact (Run.quiet_lexeme name).bind fun lexeme => (Run.quiet_close _ params body).bind
            fun closure => (Run.quiet_name lexeme).bind fun bound =>
              (Run.quiet_define bound _).bind fun _ =>
                (Run.quiet_traceFunction settings closure).bind fun _ => Run.quiet_pure _
        · exact Run.completes_behind _ fun _ => Run.completes_behind _ fun _ =>
            Run.completes_behind _ fun _ => Run.completes_behind _ fun _ =>
              Run.completes_behind _ fun _ => Run.completes_pure
    | returnStmt keyword value => exact explained_return budget keyword value state
    | classDecl name superclass methods =>
        simp only [Tree.execute]
        have fails : Run.Completes (Run.unsupported name "Class declaration") := by
          intro before flow after ended
          cases name <;> cases ended
        exact explained_completes (Run.quiet_unsupported name (by decide)) fails state
    | _ => cases statement
  · rw [Tree.execute_of_not_isStatement (by simpa using statement)]
    intro ending after ended blamable
    cases ended
    exact absurd blamable id

theorem explained_executeWhile (budget : Nat) (condition body : Tree) (state : State) :
    Explained settings ⟨budget + 1, .executeWhile condition body, state⟩
      (Tree.executeWhile settings (budget + 1) condition body state).leaving? := by
  rw [Tree.executeWhile_succ]
  refine (explained_test Tree.whileTitle .roundCondition).bindFlow fun value middle tested => ?_
  by_cases truthy : value.isTruthy = true
  · rw [if_pos truthy]
    refine (explained_part (.round tested truthy)).behind (fun _ => rfl) fun after ended => ?_
    exact explained_part (.moreRounds tested truthy ended)
  · rw [if_neg truthy]
    exact explained_none

theorem explained_executeList (budget : Nat) (statements : List Tree) (state : State) :
    Explained settings ⟨budget + 1, .executeList statements, state⟩
      (Tree.executeList settings (budget + 1) statements state).leaving? := by
  cases statements with
  | nil => exact explained_none
  | cons first rest =>
      rw [Tree.executeList]
      refine (explained_part .firstStatement).behind (fun _ => rfl) fun middle ended => ?_
      exact explained_part (.moreStatements ended)

theorem blamed {ending : Ending} {after : State}
    (ended : job.ending? settings = some (ending, after)) (blamable : ending.OfReturn) :
    Blamed settings job ending := by
  obtain ⟨budget, task, state⟩ := job
  cases budget with
  | zero => cases task <;> cases ended
  | succ budget =>
      cases task with
      | evaluate tree => exact explained_evaluate budget tree state ending after ended blamable
      | evaluateAll trees =>
          exact explained_evaluateAll budget trees state ending after ended blamable
      | execute tree => exact explained_execute budget tree state ending after ended blamable
      | executeWhile condition body =>
          exact explained_executeWhile budget condition body state ending after ended blamable
      | executeList statements =>
          exact explained_executeList budget statements state ending after ended blamable

end Job

end Lox
