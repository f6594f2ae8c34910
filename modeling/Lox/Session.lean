import Lox.Eval
import Lox.Program

/-!
Running whole programs, one after the other, in one state.  The first runtime error
ends a program and is reported; what it has done so far stays.
-/

namespace Lox

inductive Outcome where
  | completed
  | failed (error : RuntimeError)

inductive Status where
  | ok
  | usage
  | badData
  | noInput
  | failed
  deriving DecidableEq, Repr

def Status.code : Status → Nat
  | ok => 0
  | usage => 64
  | badData => 65
  | noInput => 66
  | failed => 70

structure Report where
  status : Status
  lines : List Text

@[inline] def Run.attempt {α : Type} (body : Run α) : Run (Except RuntimeError α) :=
  fun state =>
    match body state with
    | .done value state => .done (.ok value) state
    | .failed (.error error) state => .done (.error error) state
    | .failed (.fault fault) state => .failed (.fault fault) state
    | .spent => .spent

namespace Session

def interpret (settings : Settings) (budget : Nat) : List Tree → Run Outcome
  | [] => pure .completed
  | first :: rest => do
      Run.traceAt settings 1 ("execute " ++ first.shape.name)
      match ← Run.attempt (first.execute settings budget) with
      | .ok _ => interpret settings budget rest
      | .error error =>
          Run.traceAt settings 1
            ("runtime error: " ++ error.message ++ " [line " ++ error.line.display ++ "]")
          pure (.failed error)

def report : Outcome → Report
  | .completed => ⟨.ok, []⟩
  | .failed error => ⟨.failed, [error.text]⟩

def runTrees (settings : Settings) (budget : Nat) (statements : List Tree) : Run Report := do
  return report (← interpret settings budget statements)

/-- Runs a source text.  Nothing runs if there is a problem in it. -/
def runSource (settings : Settings) (budget : Nat) (source : String) : Run Report :=
  let program := Program.ofSource source
  if program.diagnostics.isEmpty then
    runTrees settings budget (Stmt.toTrees program.statements)
  else pure ⟨.badData, program.diagnostics.map fun diagnostic => Text.ofString diagnostic.text⟩

def promptMark : String := "> "

/-- Runs the lines of a prompt and gives what goes to the error stream: the marks and
the reports.  A line that fails does not end the prompt. -/
def runPrompt (settings : Settings) (budget : Nat) : List String → Run Text
  | [] => pure (Text.ofString (promptMark ++ "\n"))
  | line :: rest => do
      let report ← runSource settings budget line
      let shown ← runPrompt settings budget rest
      pure (promptMark ++ Text.unlines report.lines ++ shown)

def evaluate (settings : Settings) (budget : Nat) (expr : Expr) : Run Value :=
  expr.toTree.evaluate settings budget

def callGlobal (settings : Settings) (budget : Nat) (name : String) (arguments : List Value) :
    Run Value :=
  fun state =>
    match state.globals.get? (.ofString name) with
    | some callee =>
        if callee.callable?.isSome then Tree.invoke settings budget callee arguments state
        else Run.fault .notCallable state
    | none => Run.fail (.error (.undefined name (.int 1))) state

end Session

end Lox
