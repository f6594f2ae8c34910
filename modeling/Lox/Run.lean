import Lox.Operator
import Lox.Scope

/-!
Running steps.  A step takes the state of the machine and ends with a value or a
failure and the state it leaves behind, or finds its budget spent.
-/

namespace Lox

/-- What stays the same while programs run: how much is traced, and the readings
of the clock, one after the other.  A reading that is too large for a number fails. -/
structure Settings where
  traceLevel : Nat := 0
  clock : Nat → Option Float

structure TraceEntry where
  message : Text
  printedBefore : Nat

structure State where
  scopes : Forest Value
  current : Nat
  callDepth : Nat
  functions : Nat
  clockReads : Nat
  printed : Array Text
  trace : Array TraceEntry

namespace State

def globalScope : Nat := 0

def initial : State where
  scopes := #[⟨none, [(.ofString "clock", .clock)]⟩]
  current := globalScope
  callDepth := 0
  functions := 0
  clockReads := 0
  printed := #[]
  trace := #[]

def globals (state : State) : Bindings Value :=
  state.scopes.own globalScope

def shown (state : State) : Text :=
  Text.unlines state.printed.toList

def traceText (state : State) : Text :=
  Text.unlines (state.trace.toList.map TraceEntry.message)

end State

inductive Result (α : Type) where
  | done (value : α) (state : State)
  | failed (failure : Failure) (state : State)
  | spent

namespace Result

variable {α : Type}

@[inline] def mapState (change : State → State) : Result α → Result α
  | done value state => done value (change state)
  | failed failure state => failed failure (change state)
  | spent => spent

end Result

def Run (α : Type) : Type :=
  State → Result α

namespace Run

variable {α β : Type}

@[inline] protected def pure (value : α) : Run α :=
  fun state => .done value state

@[inline] protected def bind (first : Run α) (next : α → Run β) : Run β :=
  fun state =>
    match first state with
    | .done value state => next value state
    | .failed failure state => .failed failure state
    | .spent => .spent

instance : Monad Run where
  pure := Run.pure
  bind := Run.bind

def outOfBudget : Run α :=
  fun _ => .spent

def fail (failure : Failure) : Run α :=
  fun state => .failed failure state

def fault (fault : Fault) : Run α :=
  fail (.fault fault)

def ofExcept : Except Failure α → Run α
  | .ok value => Run.pure value
  | .error failure => fail failure

def token : Tree → Run SavedToken
  | .token token => Run.pure token
  | _ => fault .notToken

def raise (site : Tree) (message : Text) : Run α :=
  match site with
  | .token token => fail (token.error message)
  | _ => fault .notToken

def unsupported (site : Tree) (feature : String) : Run α :=
  match site with
  | .token token =>
      let message : Text := feature ++ " is not supported."
      fail (.error { message, line := token.line, feature := some feature })
  | _ => fault .notToken

def lexeme (site : Tree) : Run Json :=
  match site with
  | .token token => Run.pure token.lexeme
  | _ => fault .notToken

def name (lexeme : Json) : Run Name :=
  match Name.ofLexeme? lexeme with
  | some name => Run.pure name
  | none => fault .notName

def elements (tree : Tree) : Run (List Tree) :=
  match tree.elements? with
  | some items => Run.pure items
  | none => fault .notSequence

def record (message : Text) : Run Unit :=
  fun state =>
    .done () { state with trace := state.trace.push ⟨message, state.printed.size⟩ }

@[macro_inline] def traceAt (settings : Settings) (level : Nat) (message : Text) : Run Unit :=
  if level ≤ settings.traceLevel then record message else Run.pure ()

def printLine (line : Text) : Run Unit :=
  fun state => .done () { state with printed := state.printed.push line }

def readClock (settings : Settings) : Run Value :=
  fun state =>
    match settings.clock state.clockReads with
    | some reading => .done (.number reading) { state with clockReads := state.clockReads + 1 }
    | none => .failed (.fault .clockOverflow) state

def undefined (site : Tree) : Run α :=
  match site with
  | .token token => fail (.error (.undefined token.lexeme.display token.line))
  | _ => fault .notToken

def lookup (site : Tree) : Run Value := do
  let name ← name (← lexeme site)
  fun state =>
    match state.scopes.get? state.current name with
    | some value => .done value state
    | none => undefined site state

def define (name : Name) (value : Value) : Run Unit :=
  fun state => .done () { state with scopes := state.scopes.define state.current name value }

def assign (site : Tree) (value : Value) : Run Unit := do
  let name ← name (← lexeme site)
  fun state =>
    match state.scopes.find? state.current name with
    | some holder => .done () { state with scopes := state.scopes.define holder name value }
    | none => undefined site state

def close (name : Text) (params body : Tree) : Run Closure :=
  fun state =>
    let serial := state.functions
    .done ⟨name, params, body, state.current, serial⟩ { state with functions := serial + 1 }

@[inline] def inScope (enclosing : Nat) (bindings : Bindings Value) (body : Run α) : Run α :=
  fun state =>
    let previous := state.current
    let scope := state.scopes.size
    let inner := { state with
      scopes := state.scopes.push ⟨some enclosing, bindings⟩, current := scope }
    (body inner).mapState fun after => { after with current := previous }

@[inline] def inCall (body : Run α) : Run α :=
  fun state =>
    (body { state with callDepth := state.callDepth + 1 }).mapState fun after =>
      { after with callDepth := after.callDepth - 1 }

def currentScope : Run Nat :=
  fun state => .done state.current state

def callDepth : Run Nat :=
  fun state => .done state.callDepth state

def scopeDepth : Run Nat :=
  fun state => .done (state.scopes.depth state.current) state

def traceFunction (settings : Settings) (closure : Closure) : Run Unit := do
  if 2 ≤ settings.traceLevel then
    match closure.arity? with
    | none => fault .notSequence
    | some arity =>
        let depth ← scopeDepth
        record ("define function " ++ closure.name ++ "/" ++ toString arity ++
          " at scope depth " ++ toString depth)

@[macro_inline] def unlessNil (tree : Tree) (present : Run Value) : Run Value :=
  if tree.isNil then Run.pure .nil else present

end Run

end Lox
