import Lox.CommandLine.Arguments
import Lox.Json.Read
import Lox.Json.Write
import Lox.Session

/-!
The commands of the program.  A command reads at most one file, whose contents are
given to it, and answers with its exit status, what it shows and the files it writes.
-/

namespace Lox.Command

inductive Contents where
  | missing
  | directory
  | file (bytes : ByteArray)

inductive Crash where
  | fault (fault : Fault)
  | directory
  | undecodable
  | unencodable
  | hugeInteger
  | spent

inductive Ending where
  | status (status : Status)
  | crash (crash : Crash)

structure Effects where
  ending : Ending
  shown : Text := ""
  reported : Text := ""
  files : List (String × Text) := []

def file? : Command → Option Path
  | script path _ | emit path | load path _ => some path
  | help | prompt _ => none

def decode? (bytes : ByteArray) : Option String :=
  (String.fromUTF8? bytes).map fun text => String.ofList (Text.unifyLineEnds text.toList)

def traceFile : String := "debug.txt"

def missing (path : Path) : Effects :=
  { ending := .status .noInput, reported := "Error: file " ++ path.text ++ " not found\n" }

def traceFiles (settings : Settings) (entries : List TraceEntry) : List (String × Text) :=
  if settings.traceLevel = 0 then []
  else [(traceFile, Text.unlines (entries.map TraceEntry.message))]

/-- The effects of a run that ended in the given state.  A message of the trace that
no file can hold ends the program where the message is to be written. -/
def effectsIn (settings : Settings) (state : State) (ending : Ending) (reported : Text) :
    Effects :=
  let entries := state.trace.toList
  let written := entries.takeWhile (·.message.isWhole)
  let files := traceFiles settings written
  match entries.dropWhile (·.message.isWhole) with
  | [] => { ending, shown := state.shown, reported, files }
  | entry :: _ =>
      let shown := Text.unlines (state.printed.toList.take entry.printedBefore)
      { ending := .crash .unencodable, shown, files }

def effects {α : Type} (settings : Settings) (status : α → Status) (reported : α → Text) :
    Result α → Effects
  | .done value state => effectsIn settings state (.status (status value)) (reported value)
  | .failed (.fault fault) state => effectsIn settings state (.crash (.fault fault)) ""
  | .failed (.error _) state => effectsIn settings state (.status .failed) ""
  | .spent => { ending := .crash .spent }

def effectsOfReport (settings : Settings) (run : Run Report) : Effects :=
  effects settings Report.status (fun report => Text.unlines report.lines) (run State.initial)

def runScript (settings : Settings) (budget : Nat) (bytes : ByteArray) : Effects :=
  match decode? bytes with
  | some source => effectsOfReport settings (Session.runSource settings budget source)
  | none => { ending := .crash .undecodable }

def emitProgram (path : Path) (bytes : ByteArray) : Effects :=
  match decode? bytes with
  | some source =>
      let program := Program.ofSource source
      if program.diagnostics.isEmpty then
        let target := (path.extend ".ast.json").text
        let data := Tree.programToJson (Stmt.toTrees program.statements)
        { ending := .status .ok, shown := target ++ "\n", files := [(target, data.write)] }
      else
        { ending := .status .badData
          reported := Text.unlines (program.diagnostics.map fun problem => .ofString problem.text) }
  | none => { ending := .crash .undecodable }

inductive Refusal where
  | undecodable
  | malformed (error : Json.ReadError)
  | unloadable (error : LoadError)

namespace Refusal

def message : Refusal → Text
  | undecodable => "not a UTF-8 text"
  | malformed .malformed => "not a JSON text"
  | malformed (.longInteger digits) => "an integer has " ++ toString digits ++ " digits"
  | unloadable error => error.message

end Refusal

def readProgram (bytes : ByteArray) : Except Refusal (List Tree) :=
  match decode? bytes with
  | none => .error .undecodable
  | some text =>
      match Json.read text with
      | .error error => .error (.malformed error)
      | .ok data => (Tree.programOfJson data).mapError .unloadable

def runSaved (settings : Settings) (budget : Nat) (path : Path) (bytes : ByteArray) : Effects :=
  match readProgram bytes with
  | .ok statements => effectsOfReport settings (Session.runTrees settings budget statements)
  | .error (.unloadable .hugeInteger) => { ending := .crash .hugeInteger }
  | .error refusal =>
      { ending := .status .badData
        reported := "Error: invalid AST file " ++ path.text ++ ": " ++ refusal.message ++ "\n" }

def runPrompt (settings : Settings) (budget : Nat) (input : String) : Effects :=
  let lines := (Text.lines (Text.unifyLineEnds input.toList)).map String.ofList
  effects settings (fun _ => .ok) id (Session.runPrompt settings budget lines State.initial)

def withFile (path : Path) (contents : Contents) (work : ByteArray → Effects) : Effects :=
  match contents with
  | .missing => missing path
  | .directory => { ending := .crash .directory }
  | .file bytes => work bytes

def run (clock : Nat → Option Float) (budget : Nat) (contents : Contents) (input : String) :
    Command → Effects
  | help => { ending := .status .ok, shown := helpText }
  | prompt verbosity => runPrompt { traceLevel := verbosity, clock } budget input
  | script path verbosity =>
      withFile path contents (runScript { traceLevel := verbosity, clock } budget)
  | emit path => withFile path contents (emitProgram path)
  | load path verbosity =>
      withFile path contents (runSaved { traceLevel := verbosity, clock } budget path)

def refuse (error : UsageError) : Effects :=
  { ending := .status .usage, reported := error.text }

end Lox.Command
