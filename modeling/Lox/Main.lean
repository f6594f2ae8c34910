import Lox.CommandLine

/-!
The program: reads its arguments, gives the command its file and shows the effects.
A prompt runs line by line.
-/

namespace Lox.Command

def mainBudget : Nat := 1000000000000000000

def startClock : IO (Nat → Option Float) := do
  let start := (← IO.monoNanosNow).toFloat / 1000000000.0
  return fun reading => some (start + reading.toFloat / 1000000.0)

def readContents (path : Path) : IO Contents := do
  if path.isDirectory then return .directory
  try
    return .file (← IO.FS.readBinFile path.text)
  catch _ => return .missing

def Crash.text : Crash → String
  | .fault cause => cause.message
  | .directory => "the file is a directory"
  | .undecodable => "the file is not a UTF-8 text"
  | .unencodable => "the trace cannot be written as a UTF-8 text"
  | .hugeInteger => "an integer is too large for a number"
  | .spent => "the program does not end"

def showEffects (effects : Effects) : IO UInt32 := do
  (← IO.getStdout).putStr effects.shown.toString
  (← IO.getStderr).putStr effects.reported.toString
  for (name, text) in effects.files do
    IO.FS.writeFile name text.toString
  match effects.ending with
  | .status status => return status.code.toUInt32
  | .crash crash =>
      IO.eprintln crash.text
      return 1

def showMark : IO Unit := do
  let errors ← IO.getStderr
  errors.putStr Session.promptMark
  errors.flush

def runLine (settings : Settings) (state : State) (line : String) : IO State := do
  match Session.runSource settings mainBudget line { state with printed := #[] } with
  | .done report state =>
      (← IO.getStdout).putStr state.shown.toString
      (← IO.getStderr).putStr (Text.unlines report.lines).toString
      return state
  | .failed _ state => return state
  | .spent => return state

partial def promptLoop (settings : Settings) (state : State) : IO State := do
  let input ← (← IO.getStdin).getLine
  if input.isEmpty then
    (← IO.getStderr).putStr "\n"
    return state
  let mut state := state
  for line in Text.lines (Text.unifyLineEnds input.toList) do
    state ← runLine settings state (String.ofList line)
    showMark
  promptLoop settings state

def runMain (arguments : List String) : IO UInt32 := do
  match parse arguments with
  | .error error => showEffects (refuse error)
  | .ok (.prompt verbosity) =>
      let settings : Settings := { traceLevel := verbosity, clock := ← startClock }
      showMark
      let state ← promptLoop settings State.initial
      if verbosity ≠ 0 then
        IO.FS.writeFile traceFile state.traceText.toString
      return 0
  | .ok command =>
      let contents ←
        match command.file? with
        | some path => readContents path
        | none => pure .missing
      showEffects (command.run (← startClock) mainBudget contents "")

end Lox.Command

def main (arguments : List String) : IO UInt32 :=
  Lox.Command.runMain arguments
