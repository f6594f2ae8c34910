import Lox.CommandLine.Path
import Lox.Text.Quoted

/-!
The arguments of the command line.  Long options may be cut short as long as only
one fits and may take their value behind an equals sign; single letters may be
joined; after a double dash nothing is an option.
-/

namespace Lox

namespace Text

/-- The digit zero of each script; the other nine follow it. -/
def zeros : List Nat :=
  [0x30, 0x660, 0x6f0, 0x7c0, 0x966, 0x9e6, 0xa66, 0xae6, 0xb66, 0xbe6, 0xc66, 0xce6, 0xd66,
   0xde6, 0xe50, 0xed0, 0xf20, 0x1040, 0x1090, 0x17e0, 0x1810, 0x1946, 0x19d0, 0x1a80, 0x1a90,
   0x1b50, 0x1bb0, 0x1c40, 0x1c50, 0xa620, 0xa8d0, 0xa900, 0xa9d0, 0xa9f0, 0xaa50, 0xabf0,
   0xff10, 0x104a0, 0x10d30, 0x11066, 0x110f0, 0x11136, 0x111d0, 0x112f0, 0x11450, 0x114d0,
   0x11650, 0x116c0, 0x11730, 0x118e0, 0x11950, 0x11c50, 0x11d50, 0x11da0, 0x16a60, 0x16ac0,
   0x16b50, 0x1d7ce, 0x1d7d8, 0x1d7e2, 0x1d7ec, 0x1d7f6, 0x1e140, 0x1e2f0, 0x1e950, 0x1fbf0]

def isDecimalDigit (c : Char) : Bool :=
  zeros.any fun start => start ≤ c.toNat && c.toNat < start + 10

end Text

inductive Command where
  | help
  | prompt (verbosity : Nat)
  | script (path : Path) (verbosity : Nat)
  | emit (path : Path)
  | load (path : Path) (verbosity : Nat)
  deriving DecidableEq, Repr

namespace Command

def usage : String :=
  "usage: yaliir [-h] [-v] [--emit-ast SCRIPT | --ast AST_JSON_FILE] [script]\n"

def helpText : String :=
  usage ++
  "\nLox language interpreter\n" ++
  "\npositional arguments:\n" ++
  "  script               Lox script to execute; omit for a prompt\n" ++
  "\noptions:\n" ++
  "  -h, --help           show this help message and exit\n" ++
  "  -v                   increase debug verbosity (can be repeated)\n" ++
  "  --emit-ast SCRIPT    emit AST JSON for the given script\n" ++
  "  --ast AST_JSON_FILE  execute AST from a JSON file\n"

inductive Flag where
  | help | verbose | emit | load
  deriving DecidableEq, Repr

namespace Flag

def spellings : List (String × Flag) :=
  [("-h", help), ("--help", help), ("-v", verbose), ("--emit-ast", emit), ("--ast", load)]

def title : Flag → String
  | help => "-h/--help"
  | verbose => "-v"
  | emit => "--emit-ast"
  | load => "--ast"

def takesValue : Flag → Bool
  | emit | load => true
  | help | verbose => false

end Flag

inductive UsageError where
  | ambiguous (argument : String) (spellings : List String)
  | unused (flag : Flag) (value : String)
  | missingValue (flag : Flag)
  | excluded (flag other : Flag)
  | unrecognized (arguments : List String)
  deriving DecidableEq, Repr

namespace UsageError

def message : UsageError → String
  | ambiguous argument spellings =>
      "ambiguous option: " ++ argument ++ " could match " ++ ", ".intercalate spellings
  | unused flag value =>
      "argument " ++ flag.title ++ ": ignored explicit argument " ++ Text.quoted value
  | missingValue flag => "argument " ++ flag.title ++ ": expected one argument"
  | excluded flag other =>
      "argument " ++ flag.title ++ ": not allowed with argument " ++ other.title
  | unrecognized arguments => "unrecognized arguments: " ++ " ".intercalate arguments

def text (error : UsageError) : String :=
  usage ++ "yaliir: error: " ++ error.message ++ "\n"

end UsageError

inductive Word where
  | plain (text : String)
  | separator
  | flag (flag : Flag) (long : Bool) (value : Option String)
  | unknown (text : String)
  deriving DecidableEq, Repr

def splitValue (argument : String) : String × Option String :=
  let characters := argument.toList
  let name := characters.takeWhile (· ≠ '=')
  if name.length < characters.length then
    (String.ofList name, some (String.ofList (characters.drop (name.length + 1))))
  else (argument, none)

/-- A minus sign and a number, which is no option.  A line feed may follow it. -/
def isNegativeNumber (argument : String) : Bool :=
  let characters := argument.toList
  let line := if characters.getLast? = some '\n' then characters.dropLast else characters
  match line with
  | '-' :: rest =>
      match rest.dropWhile Text.isDecimalDigit with
      | [] => !rest.isEmpty
      | '.' :: fraction => !fraction.isEmpty && fraction.all Text.isDecimalDigit
      | _ => false
  | _ => false

def candidates (argument : String) : List (String × Flag × Option String) :=
  if "--".isPrefixOf argument then
    let (name, value) := splitValue argument
    Flag.spellings.filterMap fun (spelling, flag) =>
      if name.isPrefixOf spelling then some (spelling, flag, value) else none
  else
    Flag.spellings.filterMap fun (spelling, flag) =>
      if spelling.toList = argument.toList.take 2 then
        some (spelling, flag, some (String.ofList (argument.toList.drop 2)))
      else none

def classify (argument : String) : Except UsageError Word :=
  if !"-".isPrefixOf argument then .ok (.plain argument)
  else if argument = "-" then .ok (.plain argument)
  else
    match Flag.spellings.lookup argument with
    | some flag => .ok (.flag flag ("--".isPrefixOf argument) none)
    | none =>
        let (name, value) := splitValue argument
        match value.bind fun value => (Flag.spellings.lookup name).map (·, value) with
        | some (flag, value) => .ok (.flag flag ("--".isPrefixOf name) (some value))
        | none =>
            match candidates argument with
            | [(spelling, flag, value)] => .ok (.flag flag ("--".isPrefixOf spelling) value)
            | [] =>
                if isNegativeNumber argument || argument.contains ' ' then .ok (.plain argument)
                else .ok (.unknown argument)
            | several => .error (.ambiguous argument (several.map (·.1)))

def classifyAll : List String → Except UsageError (List Word)
  | [] => .ok []
  | "--" :: rest => .ok (.separator :: rest.map .plain)
  | argument :: rest => return (← classify argument) :: (← classifyAll rest)

structure Gathered where
  helped : Bool := false
  verbosity : Nat := 0
  emit : Option String := none
  load : Option String := none
  script : Option String := none
  extras : List String := []

namespace Gathered

def explicitValue (text : String) : String :=
  if text = "--" then "" else text

def setValue (gathered : Gathered) (flag : Flag) (value : String) : Except UsageError Gathered :=
  match flag with
  | .emit =>
      if gathered.load.isSome then .error (.excluded .emit .load)
      else .ok { gathered with emit := some value }
  | _ =>
      if gathered.emit.isSome then .error (.excluded .load .emit)
      else .ok { gathered with load := some value }

def addExtra (gathered : Gathered) (text : String) : Gathered :=
  { gathered with extras := gathered.extras ++ [text] }

def count (gathered : Gathered) : Flag → Gathered
  | .help => { gathered with helped := true }
  | _ => { gathered with verbosity := gathered.verbosity + 1 }

def joined (flag : Flag) : List Char → Except UsageError (List Flag)
  | [] => .ok [flag]
  | letter :: rest =>
      match Flag.spellings.lookup (String.ofList ['-', letter]) with
      | some next => return flag :: (← joined next rest)
      | none => .error (.unused flag (String.ofList (letter :: rest)))

end Gathered

def gather : List Word → Gathered → Except UsageError Gathered
  | [], gathered => .ok gathered
  | .plain text :: .separator :: rest, gathered =>
      match gathered.script with
      | none => gather rest { gathered with script := some text }
      | some _ => gather (.separator :: rest) (gathered.addExtra text)
  | .plain text :: rest, gathered =>
      match gathered.script with
      | none => gather rest { gathered with script := some text }
      | some _ => gather rest (gathered.addExtra text)
  | .separator :: rest, gathered =>
      match gathered.script with
      | none => gather rest gathered
      | some _ => gather rest (gathered.addExtra "--")
  | .unknown text :: rest, gathered => gather rest (gathered.addExtra text)
  | .flag flag long (some value) :: rest, gathered =>
      if flag.takesValue then do
        gather rest (← gathered.setValue flag (Gathered.explicitValue value))
      else if long || value = "" then .error (.unused flag value)
      else do
        let gathered := (← Gathered.joined flag value.toList).foldl Gathered.count gathered
        if gathered.helped then .ok gathered else gather rest gathered
  | .flag flag _ none :: rest, gathered =>
      if flag.takesValue then
        match rest with
        | .plain value :: rest => do gather rest (← gathered.setValue flag value)
        | _ => .error (.missingValue flag)
      else
        let gathered := gathered.count flag
        if gathered.helped then .ok gathered else gather rest gathered

def ofGathered (gathered : Gathered) : Except UsageError Command :=
  if gathered.helped then .ok help
  else if !gathered.extras.isEmpty then .error (.unrecognized gathered.extras)
  else
    let given (value : Option String) := value.filter (· ≠ "")
    match given gathered.emit, given gathered.load, given gathered.script with
    | some path, _, _ => .ok (emit (Path.ofText path))
    | none, some path, _ => .ok (load (Path.ofText path) gathered.verbosity)
    | none, none, some path => .ok (script (Path.ofText path) gathered.verbosity)
    | none, none, none => .ok (prompt gathered.verbosity)

def parse (arguments : List String) : Except UsageError Command := do
  ofGathered (← gather (← classifyAll arguments) {})

end Command

end Lox
