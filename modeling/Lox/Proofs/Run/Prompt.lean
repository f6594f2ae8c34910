import Lox.Proofs.Run.Relined
import Lox.Proofs.Run.Restored
import Lox.Proofs.Run.Safe

/-!
A script and a prompt that is given its lines agree up to the first runtime error.  Lines
with problems leave no trace in the state of a prompt.
-/

namespace Lox

namespace State

def output : Discipline where
  steady state after := state.printed.toList <+: after.printed.toList
  grows state after := state.printed.toList <+: after.printed.toList
  fine _ := True
  good _ _ := True
  scope _ _ := True

theorem output_kept : output.Kept where
  steady_refl _ := List.prefix_rfl
  steady_trans := List.IsPrefix.trans
  grows_of_steady := id
  grows_trans := List.IsPrefix.trans
  good_grows _ _ := trivial
  scope_grows _ _ := trivial
  simple _ := trivial
  counts counts _ := ⟨counts.printed, trivial⟩
  current _ := trivial
  found _ _ _ := trivial
  callee _ := trivial
  closure _ _ := trivial
  assign _ _ _ := ⟨List.prefix_rfl, trivial⟩
  define _ _ := ⟨List.prefix_rfl, trivial⟩
  enter _ _ _ := trivial
  leave _ longer _ := ⟨longer, trivial, fun _ => trivial⟩
  deepen _ := ⟨trivial, fun _ => trivial, fun _ => trivial⟩
  rise _ longer _ := ⟨longer, trivial, fun _ => trivial⟩

end State

theorem Result.ne_spent {α : Type} {result : Result α} (ended : result.state?.isSome) :
    result ≠ .spent := by
  rintro rfl
  cases ended

namespace Session

variable (settings : Settings) (budget : Nat)

theorem interpret_append (trees others : List Tree) :
    interpret settings budget (trees ++ others) =
      interpret settings budget trees >>= fun outcome =>
        match outcome with
        | .completed => interpret settings budget others
        | .failed error => pure (.failed error) := by
  induction trees with
  | nil => rfl
  | cons first rest ih =>
      rw [List.cons_append, interpret, interpret, Run.bind_bind]
      congr 1
      funext _
      rw [Run.bind_bind]
      congr 1
      funext attempt
      cases attempt with
      | ok flow => exact ih
      | error error =>
          dsimp only
          rw [Run.bind_bind]
          rfl

theorem runSource_silent {source : String} (silent : (Program.ofSource source).diagnostics = []) :
    runSource settings budget source =
      runTrees settings budget (Stmt.toTrees (Program.ofSource source).statements) := by
  simp [runSource, silent]

def reports : List String → Run (List Report)
  | [] => pure []
  | line :: rest => do
      let report ← runSource settings budget line
      let others ← reports rest
      pure (report :: others)

def transcript : List Report → Text
  | [] => Text.ofString (promptMark ++ "\n")
  | report :: rest => promptMark ++ Text.unlines report.lines ++ transcript rest

theorem runPrompt_eq (lines : List String) :
    runPrompt settings budget lines =
      reports settings budget lines >>= fun reports => pure (transcript reports) := by
  induction lines with
  | nil => rfl
  | cons line rest ih =>
      rw [runPrompt, reports, Run.bind_bind, ih]
      congr 1
      funext report
      rw [Run.bind_bind, Run.bind_bind]
      rfl

variable {settings budget}

theorem runPrompt_of_reports {lines : List String} {state prompt : State} {found : List Report}
    (prompted : reports settings budget lines state = .done found prompt) :
    runPrompt settings budget lines state = .done (transcript found) prompt := by
  rw [runPrompt_eq]
  change Run.bind (reports settings budget lines) _ state = _
  unfold Run.bind
  rw [prompted]
  rfl

theorem reports_printed {lines : List String} {state prompt : State} {found : List Report}
    (prompted : reports settings budget lines state = .done found prompt) :
    state.printed.toList <+: prompt.printed.toList := by
  have follows := State.output_kept.runPrompt settings budget lines state trivial
  rw [runPrompt_of_reports prompted] at follows
  exact follows.1

/-- How a script that ended in `script` and a prompt that ended in `prompt` go together. -/
inductive Agrees (script prompt : State) : Outcome → List Report → Prop
  | completed {found : List Report} :
      prompt.Relined (fun _ => True) script → (∀ report ∈ found, report.status = .ok) →
      Agrees script prompt .completed found
  | failed {error other : RuntimeError} {before after : List Report} :
      script.printed.toList <+: prompt.printed.toList →
      (∀ report ∈ before, report.status = .ok) → other.message = error.message →
      Agrees script prompt (.failed error) (before ++ report (.failed other) :: after)

theorem Agrees.cons {script prompt : State} {outcome : Outcome} {found : List Report}
    (agrees : Agrees script prompt outcome found) :
    Agrees script prompt outcome (report .completed :: found) := by
  cases agrees with
  | completed relined all => exact .completed relined (List.forall_mem_cons.2 ⟨rfl, all⟩)
  | @failed _ _ before after printed all same =>
      have allOk : ∀ earlier ∈ report .completed :: before, earlier.status = .ok :=
        List.forall_mem_cons.2 ⟨rfl, all⟩
      exact @Agrees.failed script prompt _ _ (report .completed :: before) after printed allOk same

open Likeness Likeness.Relining in
theorem ends_line (settings : Settings) (budget larger : Nat) (relabel : Int → Int)
    (statements : List Stmt) {state other : State} (relined : state.Relined (fun _ => True) other) :
    (relining (fun _ => True) True True).Ends (fun _ _ => True) ()
      (fun _ => Outcomes fun _ => True)
      (interpret settings budget (Stmt.toTrees statements) state)
      (interpret settings larger (Stmt.toTrees (statements.map (Stmt.relined relabel))) other) := by
  have enough : (relining (fun _ => True) True True).Enough budget larger := by
    rcases Nat.le_total budget larger with less | more
    · exact .inr (.inl ⟨trivial, less⟩)
    · exact .inr (.inr ⟨trivial, more⟩)
  exact alike_interpret ⟨relabel, trivial⟩ settings enough
    (Stmt.forall₂_toTrees_relined trivial statements) state other relined

theorem agrees_of_lined {larger : Nat} {lines : List (List Char)} {parts : List (List Stmt)}
    (clean : ∀ line ∈ lines, (Program.ofSource (String.ofList line)).diagnostics = [])
    (lined : List.Forall₂ Program.Lined lines parts) {state other prompt script : State}
    (relined : state.Relined (fun _ => True) other) {found : List Report} {outcome : Outcome}
    (prompted : reports settings budget (lines.map String.ofList) state = .done found prompt)
    (ran : interpret settings larger (Stmt.toTrees parts.flatten) other = .done outcome script) :
    Agrees script prompt outcome found := by
  induction lined generalizing state other found with
  | nil =>
      cases prompted
      cases ran
      exact .completed relined nofun
  | @cons line part lines parts firstLined _ ih =>
      obtain ⟨silent, othersClean⟩ := List.forall_mem_cons.1 clean
      obtain ⟨relabel, rfl⟩ := firstLined
      obtain ⟨first, middle, ranLine, prompted⟩ := Run.bind_done prompted
      obtain ⟨others, _, ranOthers, ended⟩ := Run.bind_done prompted
      cases ended
      rw [runSource_silent settings budget silent] at ranLine
      obtain ⟨lineOutcome, _, ranLine, ended⟩ := Run.bind_done ranLine
      cases ended
      rw [List.flatten_cons, Stmt.toTrees_eq_map, List.map_append, ← Stmt.toTrees_eq_map,
        ← Stmt.toTrees_eq_map, interpret_append] at ran
      obtain ⟨partOutcome, halfway, ranPart, ran⟩ := Run.bind_done ran
      have ends := ends_line settings budget larger relabel
        (Program.ofSource (String.ofList line)).statements relined
      rw [ranLine, ranPart] at ends
      cases ends with
      | done _ _ reached outcomes =>
          cases outcomes with
          | completed => exact (ih othersClean reached ranOthers ran).cons
          | failed moved =>
              obtain ⟨_, -, rfl⟩ := moved
              cases ran
              have printed := reports_printed ranOthers
              rw [← reached.printed] at printed
              exact @Agrees.failed script prompt _ _ [] others printed nofun rfl

theorem Agrees.printed {script prompt : State} {outcome : Outcome} {found : List Report}
    (agrees : Agrees script prompt outcome found) :
    script.printed.toList <+: prompt.printed.toList := by
  cases agrees with
  | completed relined _ => simp [relined.printed]
  | failed printed => exact printed

theorem Agrees.globals {script prompt : State} {found : List Report}
    (agrees : Agrees script prompt .completed found) :
    script.printed = prompt.printed ∧
      List.Forall₂ (fun first second => first.1 = second.1 ∧ first.2.unlined = second.2.unlined)
        script.globals prompt.globals := by
  cases agrees with
  | completed relined _ =>
      have own := relined.own State.globalScope
      exact ⟨relined.printed, own.flip.imp fun _ _ same => ⟨same.1.symm, same.2.unlined.symm⟩⟩

theorem Agrees.message {script prompt : State} {error : RuntimeError} {found : List Report}
    (agrees : Agrees script prompt (.failed error) found) :
    ∃ before other after, found = before ++ report (.failed other) :: after ∧
      (∀ earlier ∈ before, earlier.status = .ok) ∧ other.message = error.message := by
  cases agrees with
  | failed _ allOk same => exact ⟨_, _, _, rfl, allOk, same⟩

theorem mem_own_initial {scope : Nat} {entry : Name × Value}
    (member : entry ∈ State.initial.scopes.own scope) : entry = (.ofString "clock", .clock) := by
  cases scope with
  | zero => simpa [State.initial, Forest.own] using member
  | succ scope => simp [State.initial, Forest.own] at member

theorem relined_initial : State.initial.Relined (fun _ => True) .initial where
  size := rfl
  linked _ := rfl
  own scope := by
    rw [List.forall₂_same]
    intro entry member
    rw [mem_own_initial member]
    exact ⟨rfl, .simple (by simp [Value.Simple])⟩
  current := rfl
  callDepth := rfl
  functions := rfl
  clockReads := rfl
  printed := rfl

theorem contained_reports (total : ∀ reads, settings.clock reads ≠ none) (lines : List String) :
    Contained (reports settings budget lines) := by
  induction lines with
  | nil => exact contained_pure _
  | cons line rest ih =>
      refine (contained_runSource total budget line).bind fun _ => ?_
      exact ih.bind fun _ => contained_pure _

theorem reports_done (total : ∀ reads, settings.clock reads ≠ none) {lines : List String}
    (ends : runPrompt settings budget lines .initial ≠ .spent) :
    ∃ found prompt, reports settings budget lines .initial = .done found prompt := by
  rcases contained_reports total lines .initial (Parsed.plain total .initial) with
    spent | ⟨found, prompt, prompted, -⟩
  · refine absurd ?_ ends
    rw [runPrompt_eq]
    change Run.bind (reports settings budget lines) _ _ = _
    unfold Run.bind
    rw [spent]
  · exact ⟨found, prompt, prompted⟩

theorem interpret_done (total : ∀ reads, settings.clock reads ≠ none) {source : String}
    {statements : List Stmt} (whole : Program.ofSource source = ⟨statements, []⟩)
    (ends : runSource settings budget source .initial ≠ .spent) :
    ∃ outcome script, interpret settings budget (Stmt.toTrees statements) .initial =
        .done outcome script ∧
      runSource settings budget source .initial = .done (report outcome) script := by
  obtain ⟨_, script, done, -⟩ := (contained_runSource total budget source .initial
    (Parsed.plain total .initial)).resolve_left ends
  have ran := done
  rw [runSource_silent settings budget (by rw [whole]), whole] at ran
  obtain ⟨outcome, _, interpreted, ended⟩ := Run.bind_done ran
  cases ended
  exact ⟨outcome, script, interpreted, done⟩

theorem state?_bind_congr {α β γ : Type} {first : Run α} {next : α → Run β} {other : α → Run γ}
    (same : ∀ value state, (next value state).state? = (other value state).state?)
    (state : State) : ((first >>= next) state).state? = ((first >>= other) state).state? := by
  change (Run.bind first next state).state? = (Run.bind first other state).state?
  unfold Run.bind
  cases first state with
  | done value middle => exact same value middle
  | failed failure after => rfl
  | spent => rfl

theorem state?_bind_pure {α β : Type} (first : Run α) (finish : α → β) (state : State) :
    ((first >>= fun value => pure (finish value)) state).state? = (first state).state? := by
  change (Run.bind first _ state).state? = _
  unfold Run.bind
  cases first state <;> rfl

def isClean (source : String) : Bool :=
  (Program.ofSource source).diagnostics.isEmpty

theorem state?_runPrompt_filter (lines : List String) (state : State) :
    (runPrompt settings budget lines state).state? =
      (runPrompt settings budget (lines.filter isClean) state).state? := by
  induction lines generalizing state with
  | nil => rfl
  | cons line rest ih =>
      by_cases silent : isClean line
      · rw [List.filter_cons_of_pos silent]
        refine state?_bind_congr (fun report middle => ?_) state
        rw [state?_bind_pure, state?_bind_pure]
        exact ih middle
      · have unchanged : runSource settings budget line = pure ⟨.badData,
            (Program.ofSource line).diagnostics.map fun problem => Text.ofString problem.text⟩ :=
          if_neg silent
        rw [List.filter_cons_of_neg silent, ← ih state, runPrompt, unchanged]
        exact state?_bind_pure (runPrompt settings budget rest) _ state

def sourceLines (source : String) : List String :=
  (Text.lines source.toList).map String.ofList

/-- A script prints what a prompt prints that is given its lines, up to its first runtime
error: that error is the first the prompt reports.  A script that completes prints the same
and leaves the same global names with the same values, lines in functions apart.  Prompts
that differ only in lines with problems leave the same state. -/
theorem prompt_agrees_with_script {settings : Settings}
    (total : ∀ reads, settings.clock reads ≠ none) {source : String}
    (clean : ∀ line ∈ sourceLines source, isClean line) {budget larger : Nat}
    (promptEnds : runPrompt settings budget (sourceLines source) .initial ≠ .spent)
    (scriptEnds : runSource settings larger source .initial ≠ .spent) :
    (∃ outcome script found prompt,
      runSource settings larger source .initial = .done (report outcome) script ∧
      reports settings budget (sourceLines source) .initial = .done found prompt ∧
      runPrompt settings budget (sourceLines source) .initial = .done (transcript found) prompt ∧
      script.printed.toList <+: prompt.printed.toList ∧
      (outcome = .completed → script.printed = prompt.printed ∧
        List.Forall₂ (fun first second => first.1 = second.1 ∧ first.2.unlined = second.2.unlined)
          script.globals prompt.globals) ∧
      (∀ error, outcome = .failed error → ∃ before other after,
        found = before ++ report (.failed other) :: after ∧
          (∀ earlier ∈ before, earlier.status = .ok) ∧ other.message = error.message)) ∧
    (∀ budget state lines others, lines.filter isClean = others.filter isClean →
      (runPrompt settings budget lines state).state? =
        (runPrompt settings budget others state).state?) := by
  constructor
  · have linesClean : ∀ line ∈ Text.lines source.toList,
        (Program.ofSource (String.ofList line)).diagnostics = [] := by
      intro line member
      exact List.isEmpty_iff.1 (clean _ (List.mem_map_of_mem member))
    obtain ⟨parts, lined, whole⟩ := Program.ofSource_lines linesClean
    obtain ⟨outcome, script, ran, scriptDone⟩ := interpret_done total whole scriptEnds
    obtain ⟨found, prompt, prompted⟩ := reports_done total promptEnds
    have agrees := agrees_of_lined linesClean lined relined_initial prompted ran
    refine ⟨outcome, script, found, prompt, scriptDone, prompted, runPrompt_of_reports prompted,
      agrees.printed, ?_, ?_⟩
    · rintro rfl
      exact agrees.globals
    · rintro error rfl
      exact agrees.message
  · intro budget state lines others same
    rw [state?_runPrompt_filter lines, same, ← state?_runPrompt_filter others]

/-- A script that fails on its second line, where a prompt goes on to the third. -/
theorem prompt_agrees_with_script_failing :
    (∀ line ∈ sourceLines "print \"a\";\nx;\nprint \"b\";", isClean line) ∧
    ∃ outcome script found prompt,
      runSource ⟨0, fun _ => some 0⟩ 9 "print \"a\";\nx;\nprint \"b\";" .initial =
        .done (report outcome) script ∧
      reports ⟨0, fun _ => some 0⟩ 9 (sourceLines "print \"a\";\nx;\nprint \"b\";") .initial =
        .done found prompt ∧
      script.printed.toList <+: prompt.printed.toList := by
  have clean : ∀ line ∈ sourceLines "print \"a\";\nx;\nprint \"b\";", isClean line := by
    decide +kernel
  have promptEnds : runPrompt ⟨0, fun _ => some 0⟩ 9
      (sourceLines "print \"a\";\nx;\nprint \"b\";") .initial ≠ .spent := by
    exact Result.ne_spent (by decide +kernel)
  have scriptEnds : runSource ⟨0, fun _ => some 0⟩ 9 "print \"a\";\nx;\nprint \"b\";" .initial ≠
      .spent := by
    exact Result.ne_spent (by decide +kernel)
  obtain ⟨⟨outcome, script, found, prompt, scriptDone, prompted, -, printed, -⟩, -⟩ :=
    prompt_agrees_with_script (by simp) clean promptEnds scriptEnds
  exact ⟨clean, outcome, script, found, prompt, scriptDone, prompted, printed⟩

end Session

end Lox
