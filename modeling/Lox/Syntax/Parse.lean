import Lox.Syntax
import Lox.Syntax.Reader

/-!
The grammar of programs, lowest precedence first: assignment, `or`, `and`,
equality, comparison, term, factor, unary, call, primary.  A broken declaration is
noted and left out, and reading goes on at the next statement.

Every step takes a budget that bounds the nesting of steps; `Program.budgetFor` is
more than the tokens can use up.
-/

namespace Lox

structure Level where
  operators : List Kind
  build : Expr → Token → Expr → Expr

def levels : List Level :=
  [⟨[.orWord], .logical⟩,
   ⟨[.andWord], .logical⟩,
   ⟨[.bangEqual, .equalEqual], .binary⟩,
   ⟨[.greater, .greaterEqual, .less, .lessEqual], .binary⟩,
   ⟨[.minus, .plus], .binary⟩,
   ⟨[.slash, .star], .binary⟩]

namespace Reader

variable {m : Type → Type} [Monad m] (reader : Reader m)

mutual

def parseExpr : Nat → m Expr
  | 0 => reader.abandon
  | budget + 1 => do
      let target ← parseLevel budget levels
      match ← reader.accept? [.equal] with
      | none => pure target
      | some equals =>
          let value ← parseExpr budget
          match target with
          | .ident name => pure (.assign name value)
          | .member object name => pure (.setMember object name value)
          | _ =>
              reader.note equals .invalidTarget
              pure target

def parseLevel : Nat → List Level → m Expr
  | 0, _ => reader.abandon
  | budget + 1, [] => parseUnary budget
  | budget + 1, level :: higher => do
      let left ← parseLevel budget higher
      parseOperands budget level higher left

def parseOperands : Nat → Level → List Level → Expr → m Expr
  | 0, _, _, _ => reader.abandon
  | budget + 1, level, higher, left => do
      match ← reader.accept? level.operators with
      | none => pure left
      | some operator =>
          let right ← parseLevel budget higher
          parseOperands budget level higher (level.build left operator right)

def parseUnary : Nat → m Expr
  | 0 => reader.abandon
  | budget + 1 => do
      match ← reader.accept? [.bang, .minus] with
      | none =>
          let callee ← parsePrimary budget
          parseCalls budget callee
      | some operator =>
          let operand ← parseUnary budget
          pure (.unary operator operand)

def parseCalls : Nat → Expr → m Expr
  | 0, _ => reader.abandon
  | budget + 1, callee => do
      if ← reader.sees .leftParen then
        reader.skip
        let arguments ← reader.unlessSees .rightParen [] (parseArguments budget 0)
        let paren ← reader.expect .rightParen "')' after arguments"
        parseCalls budget (.call callee paren arguments)
      else if ← reader.sees .dot then
        reader.skip
        let name ← reader.expect .identifier "property name after '.'"
        parseCalls budget (.member callee name)
      else pure callee

def parseArguments : Nat → Nat → m (List Expr)
  | 0, _ => reader.abandon
  | budget + 1, count => do
      reader.limit count .tooManyArguments
      let argument ← parseExpr budget
      match ← reader.accept? [.comma] with
      | none => pure [argument]
      | some _ =>
          let arguments ← parseArguments budget (count + 1)
          pure (argument :: arguments)

def parsePrimary : Nat → m Expr
  | 0 => reader.abandon
  | budget + 1 => do
      let token ← reader.next
      match token.kind with
      | .falseWord =>
          reader.skip
          pure (.literal (.bool false))
      | .trueWord =>
          reader.skip
          pure (.literal (.bool true))
      | .nilWord =>
          reader.skip
          pure (.literal .nil)
      | .number | .string =>
          reader.skip
          pure (.literal token.literal)
      | .thisWord =>
          reader.skip
          pure (.this token)
      | .superWord =>
          reader.skip
          let _ ← reader.expect .dot "'.' after 'super'"
          let method ← reader.expect .identifier "superclass method name"
          pure (.super token method)
      | .identifier =>
          reader.skip
          pure (.ident token)
      | .leftParen =>
          reader.skip
          let inner ← parseExpr budget
          let _ ← reader.expect .rightParen "')' after expression"
          pure (.grouping inner)
      | _ => reader.fail "expression"

end

def parseParams : Nat → Nat → m (List Token)
  | 0, _ => reader.abandon
  | budget + 1, count => do
      reader.limit count .tooManyParameters
      let param ← reader.expect .identifier "parameter name"
      match ← reader.accept? [.comma] with
      | none => pure [param]
      | some _ =>
          let params ← parseParams budget (count + 1)
          pure (param :: params)

def parseClosed (budget : Nat) (what : String) : m Expr := do
  let value ← reader.parseExpr budget
  let _ ← reader.expect .semicolon what
  pure value

def parseVar (budget : Nat) : m Stmt := do
  let name ← reader.expect .identifier "variable name"
  let initial ← reader.behind? [.equal] (reader.parseExpr budget)
  let _ ← reader.expect .semicolon "';' after variable declaration"
  pure (.var name initial)

def parseInitial (budget : Nat) : m (Option Stmt) := do
  if ← reader.sees .semicolon then
    reader.skip
    pure none
  else if ← reader.sees .varWord then
    reader.skip
    some <$> reader.parseVar budget
  else
    let value ← reader.parseClosed budget "';' after value"
    pure (some (.expr value))

/-- An expression that is absent when the token behind it stands there at once. -/
def parseOptional (budget : Nat) (closing : Kind) : m (Option Expr) :=
  reader.unlessSees closing none (some <$> reader.parseExpr budget)

mutual

def parseDeclaration : Nat → m (Option Stmt)
  | 0 => reader.abandon
  | budget + 1 => reader.recover (parseUnbroken budget)

def parseUnbroken : Nat → m Stmt
  | 0 => reader.abandon
  | budget + 1 => do
      if ← reader.sees .classWord then
        reader.skip
        parseClass budget
      else if ← reader.sees .funWord then
        reader.skip
        Stmt.function <$> parseFunction budget "function"
      else if ← reader.sees .varWord then
        reader.skip
        reader.parseVar budget
      else parseStmt budget

def parseClass : Nat → m Stmt
  | 0 => reader.abandon
  | budget + 1 => do
      let name ← reader.expect .identifier "class name"
      let superclass ← reader.behind? [.less] (reader.expect .identifier "superclass name")
      let _ ← reader.expect .leftBrace "'\x7b' before class body"
      let methods ← parseMethods budget
      let _ ← reader.expect .rightBrace "'\x7d' after class body"
      pure (.classDecl name superclass methods)

def parseMethods : Nat → m (List Function)
  | 0 => reader.abandon
  | budget + 1 => do
      if ← reader.blockEnds then pure []
      else
        let method ← parseFunction budget "method"
        let methods ← parseMethods budget
        pure (method :: methods)

def parseFunction : Nat → String → m Function
  | 0, _ => reader.abandon
  | budget + 1, role => do
      let name ← reader.expect .identifier (role ++ " name")
      let _ ← reader.expect .leftParen ("'(' after " ++ role ++ " name")
      let params ← reader.unlessSees .rightParen [] (reader.parseParams budget 0)
      let _ ← reader.expect .rightParen "')' after parameters"
      let _ ← reader.expect .leftBrace ("'\x7b' before " ++ role ++ " body")
      let body ← parseBlock budget
      pure (.mk name params body)

def parseBlock : Nat → m (List Stmt)
  | 0 => reader.abandon
  | budget + 1 => do
      if ← reader.blockEnds then
        let _ ← reader.expect .rightBrace "'\x7d' after block"
        pure []
      else
        let statement ← parseDeclaration budget
        let statements ← parseBlock budget
        pure (statement.toList ++ statements)

def parseStmt : Nat → m Stmt
  | 0 => reader.abandon
  | budget + 1 => do
      let token ← reader.next
      match token.kind with
      | .forWord =>
          reader.skip
          let _ ← reader.expect .leftParen "'(' after 'for'"
          let initial ← reader.parseInitial budget
          let condition ← reader.parseOptional budget .semicolon
          let _ ← reader.expect .semicolon "';' after loop condition"
          let increment ← reader.parseOptional budget .rightParen
          let _ ← reader.expect .rightParen "')' after for clauses"
          let body ← parseStmt budget
          pure (.forLoop initial condition increment body)
      | .ifWord =>
          reader.skip
          let _ ← reader.expect .leftParen "'(' after 'if'"
          let condition ← reader.parseExpr budget
          let _ ← reader.expect .rightParen "')' after if condition"
          let thenBranch ← parseStmt budget
          match ← reader.accept? [.elseWord] with
          | none => pure (.ifThen condition thenBranch)
          | some _ =>
              let elseBranch ← parseStmt budget
              pure (.ifElse condition thenBranch elseBranch)
      | .printWord =>
          reader.skip
          Stmt.print <$> reader.parseClosed budget "';' after value"
      | .returnWord =>
          reader.skip
          let value ← reader.parseOptional budget .semicolon
          let _ ← reader.expect .semicolon "';' after return value"
          pure (.returnStmt token value)
      | .whileWord =>
          reader.skip
          let _ ← reader.expect .leftParen "'(' after 'while'"
          let condition ← reader.parseExpr budget
          let _ ← reader.expect .rightParen "')' after condition"
          let body ← parseStmt budget
          pure (.whileLoop condition body)
      | .leftBrace =>
          reader.skip
          Stmt.block <$> parseBlock budget
      | _ => Stmt.expr <$> reader.parseClosed budget "';' after value"

end

def parseAll : Nat → m (List Stmt)
  | 0 => reader.abandon
  | budget + 1 => do
      if ← reader.atEnd then pure []
      else
        let statement ← reader.parseDeclaration budget
        let statements ← parseAll budget
        pure (statement.toList ++ statements)

end Reader

end Lox
