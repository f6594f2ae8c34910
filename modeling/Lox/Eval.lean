import Lox.Run

/-!
Running trees.  Statements end normally or with the value of a `return`; expressions
end with a value.  Each step takes a budget that bounds nesting and loop rounds, so
that every run ends; a run that spends its budget says so.
-/

namespace Lox

inductive Flow where
  | completed
  | returned (value : Value)

def bindParams : List Tree → List Value → Bindings Value → Run (Bindings Value)
  | param :: params, argument :: arguments, bindings => do
      let name ← Run.name (← Run.lexeme param)
      bindParams params arguments (bindings.define name argument)
  | _, _, bindings => pure bindings

def Value.callable? : Value → Option (Option Nat × Text)
  | .function closure => some (closure.arity?, "<function " ++ closure.name ++ ">")
  | .clock => some (some 0, "<builtin clock>")
  | _ => none

namespace Tree

mutual

def evaluate (settings : Settings) : Nat → Tree → Run Value
  | 0, _ => Run.outOfBudget
  | budget + 1, tree =>
      match tree with
      | literal value => pure (.ofTree value)
      | grouping inner => evaluate settings budget inner
      | unary operator operand => do
          let operand ← evaluate settings budget operand
          let operator ← Run.token operator
          Run.ofExcept (Operator.unary operator operand)
      | binary left operator right => do
          let left ← evaluate settings budget left
          let right ← evaluate settings budget right
          let operator ← Run.token operator
          Run.ofExcept (Operator.binary operator left right)
      | logical left operator right => do
          let left ← evaluate settings budget left
          let operator ← Run.token operator
          if left.isTruthy = decide (operator.kind = .orWord) then pure left
          else evaluate settings budget right
      | ident name => Run.lookup name
      | assign name value => do
          let value ← evaluate settings budget value
          Run.assign name value
          pure value
      | call callee paren arguments => do
          let callee ← evaluate settings budget callee
          match callee.callable? with
          | none => Run.raise paren "Can only call functions and classes."
          | some (arity?, title) =>
              let arguments ← evaluateAll settings budget (← Run.elements arguments)
              match arity? with
              | none => Run.fault .notSequence
              | some arity =>
                  if arguments.length = arity then
                    Run.traceAt settings 2
                      ("call " ++ title ++ " with " ++ toString arity ++ " arguments")
                    Run.inCall (invoke settings budget callee arguments)
                  else
                    Run.raise paren
                      ("Expected " ++ toString arity ++ " arguments but got " ++
                        toString arguments.length ++ ".")
      | member _ name => Run.unsupported name "Property access"
      | setMember _ name _ => Run.unsupported name "Property assignment"
      | this keyword => Run.unsupported keyword "'this'"
      | super keyword _ => Run.unsupported keyword "'super'"
      | other => Run.fault (.notExpression other.shape)

def evaluateAll (settings : Settings) : Nat → List Tree → Run (List Value)
  | 0, _ => Run.outOfBudget
  | _ + 1, [] => pure []
  | budget + 1, first :: rest => do
      let value ← evaluate settings budget first
      let values ← evaluateAll settings budget rest
      pure (value :: values)

/-- Calls a function without looking at the number of arguments.  Its scope is
enclosed by the scope of its declaration. -/
def invoke (settings : Settings) : Nat → Value → List Value → Run Value
  | 0, _, _ => Run.outOfBudget
  | budget + 1, callee, arguments =>
      match callee with
      | .function closure => do
          let params ← Run.elements closure.params
          let bindings ← bindParams params arguments []
          let flow ← Run.inScope closure.scope bindings
            (executeAll settings budget closure.body)
          match flow with
          | .returned value => pure value
          | .completed => pure .nil
      | _ => Run.readClock settings

def execute (settings : Settings) : Nat → Tree → Run Flow
  | 0, _ => Run.outOfBudget
  | budget + 1, tree =>
      match tree with
      | expr value => do
          let _ ← evaluate settings budget value
          pure .completed
      | print value => do
          let value ← evaluate settings budget value
          Run.printLine value.display
          pure .completed
      | var name initial => do
          let value ← Run.unlessNil initial (evaluate settings budget initial)
          let lexeme ← Run.lexeme name
          Run.define (← Run.name lexeme) value
          Run.traceAt settings 2
            ("declare " ++ lexeme.display ++ ": " ++ value.typeName ++ " = " ++ value.display)
          pure .completed
      | block statements => do
          let scope ← Run.currentScope
          Run.inScope scope [] (executeAll settings budget statements)
      | ifThen condition thenBranch elseBranch => do
          let value ← evaluate settings budget condition
          Run.traceAt settings 3 ("if condition " ++ value.display ++ " -> " ++
            (if value.isTruthy then "True" else "False"))
          if value.isTruthy then execute settings budget thenBranch
          else if elseBranch.isNil then pure .completed
          else execute settings budget elseBranch
      | whileLoop condition body => executeWhile settings budget condition body
      | function name params body => do
          let lexeme ← Run.lexeme name
          let closure ← Run.close lexeme.display params body
          Run.define (← Run.name lexeme) (.function closure)
          Run.traceFunction settings closure
          pure .completed
      | returnStmt keyword value => do
          if (← Run.callDepth) = 0 then Run.raise keyword "Can't return from top-level code."
          else
            let value ← Run.unlessNil value (evaluate settings budget value)
            pure (.returned value)
      | classDecl name _ _ => Run.unsupported name "Class declaration"
      | other => Run.fault (.notStatement other.shape)

def executeWhile (settings : Settings) : Nat → Tree → Tree → Run Flow
  | 0, _, _ => Run.outOfBudget
  | budget + 1, condition, body => do
      let value ← evaluate settings budget condition
      Run.traceAt settings 3 ("while condition " ++ value.display)
      if value.isTruthy then
        match ← execute settings budget body with
        | .returned value => pure (.returned value)
        | .completed => executeWhile settings budget condition body
      else pure .completed

def executeAll (settings : Settings) : Nat → Tree → Run Flow
  | 0, _ => Run.outOfBudget
  | budget + 1, statements => do
      executeList settings budget (← Run.elements statements)

def executeList (settings : Settings) : Nat → List Tree → Run Flow
  | 0, _ => Run.outOfBudget
  | _ + 1, [] => pure .completed
  | budget + 1, first :: rest => do
      match ← execute settings budget first with
      | .returned value => pure (.returned value)
      | .completed => executeList settings budget rest

end

end Tree

end Lox
