import Lox.Proofs.Run.Alike

/-!
Corresponding trees run alike on corresponding machines, once each single step does.
Every fact about whole runs is a likeness whose steps are checked one by one.
-/

namespace Lox

namespace Tree

def isExpression : Tree → Bool
  | literal .. | grouping .. | unary .. | binary .. | logical .. | ident .. | assign .. | call ..
  | member .. | setMember .. | this .. | super .. => true
  | _ => false

def isStatement : Tree → Bool
  | expr .. | print .. | var .. | block .. | ifThen .. | whileLoop .. | function ..
  | returnStmt .. | classDecl .. => true
  | _ => false

def Inert : Tree → Prop
  | var .. | function .. => False
  | ifThen _ thenBranch elseBranch => Inert thenBranch ∧ Inert elseBranch
  | whileLoop _ body => Inert body
  | _ => True

theorem evaluate_of_not_isExpression {tree : Tree} (strange : tree.isExpression = false)
    (settings : Settings) (budget : Nat) :
    evaluate settings (budget + 1) tree = Run.fault (.notExpression tree.shape) := by
  cases tree <;> simp [isExpression, evaluate] at strange ⊢

theorem execute_of_not_isStatement {tree : Tree} (strange : tree.isStatement = false)
    (settings : Settings) (budget : Nat) :
    execute settings (budget + 1) tree = Run.fault (.notStatement tree.shape) := by
  cases tree <;> simp [isStatement, execute] at strange ⊢

end Tree

namespace Likeness

inductive Ordinary : Text → Prop
  | uncallable : Ordinary "Can only call functions and classes."
  | count (arity given : Nat) :
      Ordinary ("Expected " ++ toString arity ++ " arguments but got " ++ toString given ++ ".")

def unsupported : List String :=
  ["Property access", "Property assignment", "'this'", "'super'", "Class declaration"]

variable (like : Likeness)

inductive ExprFits : Tree → Tree → Prop
  | literal {value value' : Tree} : like.constants value value' →
      ExprFits (.literal value) (.literal value')
  | grouping {inner inner' : Tree} : like.exprs inner inner' →
      ExprFits (.grouping inner) (.grouping inner')
  | unary {operator operator' operand operand' : Tree} : like.unaryOperators operator operator' →
      like.exprs operand operand' → ExprFits (.unary operator operand) (.unary operator' operand')
  | binary {left left' operator operator' right right' : Tree} : like.exprs left left' →
      like.binaryOperators operator operator' → like.exprs right right' →
      ExprFits (.binary left operator right) (.binary left' operator' right')
  | logical {left left' operator operator' right right' : Tree} : like.exprs left left' →
      like.logicalOperators operator operator' → like.exprs right right' →
      ExprFits (.logical left operator right) (.logical left' operator' right')
  | ident {name name' : Tree} : like.sites name name' → ExprFits (.ident name) (.ident name')
  | assign {name name' value value' : Tree} : like.sites name name' → like.exprs value value' →
      ExprFits (.assign name value) (.assign name' value')
  | call {callee callee' paren paren' arguments arguments' : Tree} : like.exprs callee callee' →
      like.sites paren paren' → like.Sequence like.exprs arguments arguments' →
      ExprFits (.call callee paren arguments) (.call callee' paren' arguments')
  | member {target target' name name' : Tree} : like.sites name name' →
      ExprFits (.member target name) (.member target' name')
  | setMember {target target' name name' value value' : Tree} : like.sites name name' →
      ExprFits (.setMember target name value) (.setMember target' name' value')
  | this {keyword keyword' : Tree} : like.sites keyword keyword' →
      ExprFits (.this keyword) (.this keyword')
  | super {keyword keyword' method method' : Tree} : like.sites keyword keyword' →
      ExprFits (.super keyword method) (.super keyword' method')
  | strange {tree tree' : Tree} : tree.isExpression = false → tree'.isExpression = false →
      like.failures (.fault (.notExpression tree.shape)) (.fault (.notExpression tree'.shape)) →
      ExprFits tree tree'

inductive StmtFits : Tree → Tree → Prop
  | expr {value value' : Tree} : like.exprs value value' → StmtFits (.expr value) (.expr value')
  | print {value value' : Tree} : like.exprs value value' → StmtFits (.print value) (.print value')
  | var {name name' initial initial' : Tree} : like.sites name name' →
      Optional like.exprs initial initial' → StmtFits (.var name initial) (.var name' initial')
  | block {statements statements' : Tree} : like.Sequence like.stmts statements statements' →
      StmtFits (.block statements) (.block statements')
  | ifThen {condition condition' thenBranch thenBranch' elseBranch elseBranch' : Tree} :
      like.exprs condition condition' → like.stmts thenBranch thenBranch' →
      Optional like.stmts elseBranch elseBranch' →
      StmtFits (.ifThen condition thenBranch elseBranch)
        (.ifThen condition' thenBranch' elseBranch')
  | whileLoop {condition condition' body body' : Tree} : like.exprs condition condition' →
      like.stmts body body' → StmtFits (.whileLoop condition body) (.whileLoop condition' body')
  | function {name name' params params' body body' : Tree} : like.sites name name' →
      like.params params params' → like.bodies body body' →
      StmtFits (.function name params body) (.function name' params' body')
  | returnStmt {keyword keyword' value value' : Tree} : like.returns keyword keyword' →
      Optional like.exprs value value' →
      StmtFits (.returnStmt keyword value) (.returnStmt keyword' value')
  | classDecl {name name' superclass superclass' methods methods' : Tree} : like.sites name name' →
      StmtFits (.classDecl name superclass methods) (.classDecl name' superclass' methods')
  | strange {tree tree' : Tree} : tree.isStatement = false → tree'.isStatement = false →
      like.failures (.fault (.notStatement tree.shape)) (.fault (.notStatement tree'.shape)) →
      StmtFits tree tree'

structure Callees (world : like.World) (first second : Closure) : Prop where
  scope : like.scopes world first.scope second.scope
  params : like.Sequence like.sites first.params second.params
  body : like.Sequence like.stmts first.body second.body

structure Lawful (left right : Settings) : Prop where
  steady_refl : ∀ {world}, like.steady world world
  steady_trans : ∀ {world middle after}, like.steady world middle → like.steady middle after →
    like.steady world after
  grows_of_steady : ∀ {world after}, like.steady world after → like.grows world after
  grows_trans : ∀ {world middle after}, like.grows world middle → like.grows middle after →
    like.grows world after
  carries_of_grows : ∀ {world after}, like.grows world after → like.carries world after
  values_carry : ∀ {world after first second}, like.carries world after →
    like.values world first second → like.values after first second
  scopes_carry : ∀ {world after first second}, like.carries world after →
    like.scopes world first second → like.scopes after first second
  declares_grow : ∀ {world after}, like.grows world after → like.declares world →
    like.declares after
  expr_fits : ∀ {tree tree'}, like.exprs tree tree' → like.ExprFits tree tree'
  stmt_fits : ∀ {tree tree'}, like.stmts tree tree' → like.StmtFits tree tree'
  nil : ∀ {world}, like.values world .nil .nil
  constant : ∀ {world tree tree'}, like.constants tree tree' →
    like.values world (.ofTree tree) (.ofTree tree')
  truthy : ∀ {world first second}, like.values world first second →
    first.isTruthy = second.isTruthy
  display : ∀ {world first second}, like.values world first second →
    first.display = second.display
  typeName : ∀ {world first second}, like.values world first second →
    first.typeName = second.typeName
  callable : ∀ {world first second}, like.values world first second →
    first.callable? = second.callable?
  arity : ∀ {world first second title}, like.values world first second →
    first.callable? = some (none, title) → like.failures (.fault .notSequence) (.fault .notSequence)
  callees : ∀ {world first second}, like.values world first second →
    (∃ closure closure', first = .function closure ∧ second = .function closure' ∧
      like.Callees world closure closure') ∨
    (∀ closure, first ≠ .function closure) ∧ ∀ closure, second ≠ .function closure
  unary : ∀ {world operator operator' operand operand'},
    like.unaryOperators operator operator' → like.values world operand operand' →
    like.Alike like.steady world like.values
      (Run.token operator >>= fun token => Run.ofExcept (Operator.unary token operand))
      (Run.token operator' >>= fun token => Run.ofExcept (Operator.unary token operand'))
  binary : ∀ {world operator operator' first first' second second'},
    like.binaryOperators operator operator' → like.values world first first' →
    like.values world second second' →
    like.Alike like.steady world like.values
      (Run.token operator >>= fun token => Run.ofExcept (Operator.binary token first second))
      (Run.token operator' >>= fun token => Run.ofExcept (Operator.binary token first' second'))
  logical : ∀ {world operator operator'}, like.logicalOperators operator operator' →
    like.Alike like.steady world
      (fun _ token token' => decide (token.kind = .orWord) = decide (token'.kind = .orWord))
      (Run.token operator) (Run.token operator')
  lexeme : ∀ {world site site'}, like.sites site site' →
    like.Alike like.steady world (fun _ lexeme lexeme' => lexeme = lexeme' ∧ like.lexemes lexeme)
      (Run.lexeme site) (Run.lexeme site')
  name : ∀ {world lexeme}, like.lexemes lexeme →
    like.Alike like.steady world (fun _ => Eq) (Run.name lexeme) (Run.name lexeme)
  lookup : ∀ {world site site'}, like.sites site site' →
    like.Alike like.steady world like.values (Run.lookup site) (Run.lookup site')
  assign : ∀ {world site site' value value'}, like.sites site site' →
    like.values world value value' →
    like.Alike like.steady world (fun _ _ _ => True) (Run.assign site value)
      (Run.assign site' value')
  define : ∀ {world name value value'}, like.declares world → like.values world value value' →
    like.Alike like.grows world (fun _ _ _ => True) (Run.define name value)
      (Run.define name value')
  close : ∀ {world name params params' body body'}, like.declares world →
    like.params params params' → like.bodies body body' →
    like.Alike like.steady world
      (fun after closure closure' => like.values after (.function closure) (.function closure'))
      (Run.close name params body) (Run.close name params' body')
  printLine : ∀ {world} line,
    like.Alike like.steady world (fun _ _ _ => True) (Run.printLine line) (Run.printLine line)
  readClock : ∀ {world},
    like.Alike like.steady world like.values (Run.readClock left) (Run.readClock right)
  traceAt : ∀ {world} level message,
    like.Alike like.steady world (fun _ _ _ => True) (Run.traceAt left level message)
      (Run.traceAt right level message)
  traceFunction : ∀ {world closure closure'},
    like.values world (.function closure) (.function closure') →
    like.Alike like.steady world (fun _ _ _ => True) (Run.traceFunction left closure)
      (Run.traceFunction right closure')
  currentScope : ∀ {world},
    like.Alike like.steady world like.scopes Run.currentScope Run.currentScope
  callDepth : ∀ {world},
    like.Alike like.steady world
      (fun after depth depth' => (depth = 0 ↔ depth' = 0) ∧ (depth = 0 → like.atTop after))
      Run.callDepth Run.callDepth
  raise : ∀ {world site site' message}, like.sites site site' → Ordinary message →
    like.Alike like.steady world like.values (Run.raise site message) (Run.raise site' message)
  topReturn : ∀ {world site site'}, like.returns site site' → like.atTop world →
    like.Alike like.steady world like.Flows
      (Run.raise site "Can't return from top-level code.")
      (Run.raise site' "Can't return from top-level code.")
  unsupported : ∀ {world site site' feature} {α : Type}
    {related : like.World → α → α → Prop}, like.sites site site' → feature ∈ unsupported →
    like.Alike like.steady world related (Run.unsupported site feature)
      (Run.unsupported site' feature)
  inScope : ∀ {world scope scope' bindings bindings' body body'},
    like.scopes world scope scope' → like.Bound world bindings bindings' →
    (∀ {inner}, like.declares inner → like.Alike like.grows inner like.Flows body body') →
    like.Alike like.steady world like.Flows (Run.inScope scope bindings body)
      (Run.inScope scope' bindings' body')
  inCall : ∀ {world body body'},
    (∀ {inner}, like.carries world inner → like.Alike like.steady inner like.values body body') →
    like.Alike like.steady world like.values (Run.inCall body) (Run.inCall body')

variable {like} {left right : Settings}

theorem Sequence.alike (lawful : like.Lawful left right) {related : Tree → Tree → Prop}
    {first second : Tree} (sequence : like.Sequence related first second) {world : like.World} :
    like.Alike like.steady world (fun _ => List.Forall₂ related) (Run.elements first)
      (Run.elements second) := by
  unfold Run.elements
  cases sequence with
  | items firstItems secondItems found =>
      rw [firstItems, secondItems]
      exact alike_pure lawful.steady_refl found
  | strange firstNone secondNone failing =>
      rw [firstNone, secondNone]
      exact alike_fail lawful.steady_refl failing

theorem Bound.define {world : like.World} {bindings bindings' : Bindings Value}
    (bound : like.Bound world bindings bindings') (name : Name) {value value' : Value}
    (found : like.values world value value') :
    like.Bound world (bindings.define name value) (bindings'.define name value') := by
  induction bound with
  | nil => exact .cons ⟨rfl, found⟩ .nil
  | @cons entry entry' rest rest' same bound ih =>
      obtain ⟨key, old⟩ := entry
      obtain ⟨key', old'⟩ := entry'
      obtain ⟨rfl, oldFound⟩ := same
      unfold Bindings.define
      by_cases equal : key = name
      · rw [if_pos equal, if_pos equal]
        exact .cons ⟨rfl, found⟩ bound
      · rw [if_neg equal, if_neg equal]
        exact .cons ⟨rfl, oldFound⟩ ih

theorem Lawful.valuesCarry (lawful : like.Lawful left right) {world after : like.World}
    (carried : like.carries world after) {values values' : List Value}
    (found : List.Forall₂ (like.values world) values values') :
    List.Forall₂ (like.values after) values values' :=
  found.imp fun _ _ => lawful.values_carry carried

theorem Lawful.carries_of_steady (lawful : like.Lawful left right) {world after : like.World}
    (steady : like.steady world after) : like.carries world after :=
  lawful.carries_of_grows (lawful.grows_of_steady steady)

theorem Lawful.bindParams (lawful : like.Lawful left right) {params params' : List Tree}
    (sites : List.Forall₂ like.sites params params') {arguments arguments' : List Value}
    {world : like.World} (found : List.Forall₂ (like.values world) arguments arguments')
    {bindings bindings' : Bindings Value} (bound : like.Bound world bindings bindings') :
    like.Alike like.steady world like.Bound (bindParams params arguments bindings)
      (bindParams params' arguments' bindings') := by
  induction sites generalizing arguments arguments' bindings bindings' world with
  | nil =>
      cases found <;> exact alike_pure lawful.steady_refl bound
  | @cons param param' params params' site sites ih =>
      cases found with
      | nil => exact alike_pure lawful.steady_refl bound
      | cons first rest =>
          refine (lawful.lexeme site).bind lawful.steady_trans ?_
          rintro middle lexeme _ steady ⟨rfl, named⟩
          refine (lawful.name named).bind lawful.steady_trans ?_
          rintro after name _ onward rfl
          have carried := lawful.carries_of_steady (lawful.steady_trans steady onward)
          refine ih (lawful.valuesCarry carried rest) ?_
          refine Bound.define ?_ name (lawful.values_carry carried first)
          exact bound.imp fun _ _ same => ⟨same.1, lawful.values_carry carried same.2⟩

structure Runs (like : Likeness) (left right : Settings) (budget larger : Nat) : Prop where
  evaluate : ∀ {world tree tree'}, like.exprs tree tree' →
    like.Alike like.steady world like.values (tree.evaluate left budget)
      (tree'.evaluate right larger)
  evaluateAll : ∀ {world trees trees'}, List.Forall₂ like.exprs trees trees' →
    like.Alike like.steady world (fun after => List.Forall₂ (like.values after))
      (Tree.evaluateAll left budget trees) (Tree.evaluateAll right larger trees')
  invoke : ∀ {world callee callee' arguments arguments'}, like.values world callee callee' →
    List.Forall₂ (like.values world) arguments arguments' →
    like.Alike like.steady world like.values (Tree.invoke left budget callee arguments)
      (Tree.invoke right larger callee' arguments')
  execute : ∀ {world tree tree'}, like.stmts tree tree' → like.declares world ∨ tree.Inert →
    like.Alike like.grows world like.Flows (tree.execute left budget) (tree'.execute right larger)
  executeWhile : ∀ {world condition condition' body body'}, like.exprs condition condition' →
    like.stmts body body' → like.declares world ∨ body.Inert →
    like.Alike like.grows world like.Flows (Tree.executeWhile left budget condition body)
      (Tree.executeWhile right larger condition' body')
  executeAll : ∀ {world tree tree'}, like.Sequence like.stmts tree tree' → like.declares world →
    like.Alike like.grows world like.Flows (tree.executeAll left budget)
      (tree'.executeAll right larger)
  executeList : ∀ {world trees trees'}, List.Forall₂ like.stmts trees trees' →
    like.declares world →
    like.Alike like.grows world like.Flows (Tree.executeList left budget trees)
      (Tree.executeList right larger trees')

variable {budget larger : Nat} {world : like.World}

theorem Lawful.growing (lawful : like.Lawful left right) {α β : Type}
    {related : like.World → α → β → Prop} {first : Run α} {second : Run β}
    (alike : like.Alike like.steady world related first second) :
    like.Alike like.grows world related first second :=
  alike.mono lawful.grows_of_steady id

theorem Lawful.grows_refl (lawful : like.Lawful left right) : like.grows world world :=
  lawful.grows_of_steady lawful.steady_refl

theorem Lawful.unlessNil (lawful : like.Lawful left right) {first second : Tree}
    {present present' : Run Value} (optional : Optional like.exprs first second)
    (alike : like.exprs first second → like.Alike like.steady world like.values present present') :
    like.Alike like.steady world like.values (Run.unlessNil first present)
      (Run.unlessNil second present') := by
  unfold Run.unlessNil
  rw [← optional.1]
  split
  · exact alike_pure lawful.steady_refl lawful.nil
  · next present => exact alike (optional.2 (by simpa using present))

theorem Runs.call_succ (lawful : like.Lawful left right) (runs : Runs like left right budget larger)
    {callee callee' paren paren' arguments arguments' : Tree} (callees : like.exprs callee callee')
    (site : like.sites paren paren') (sequence : like.Sequence like.exprs arguments arguments') :
    like.Alike like.steady world like.values
      (Tree.evaluate left (budget + 1) (.call callee paren arguments))
      (Tree.evaluate right (larger + 1) (.call callee' paren' arguments')) := by
  simp only [Tree.evaluate]
  refine (runs.evaluate callees).bind lawful.steady_trans ?_
  intro called value value' steady found
  rw [← lawful.callable found]
  match callable : value.callable? with
  | none => exact lawful.raise site .uncallable
  | some (arity?, title) =>
      refine (sequence.alike lawful).bind lawful.steady_trans ?_
      intro listed trees trees' steadyList items
      refine (runs.evaluateAll items).bind lawful.steady_trans ?_
      intro ready values values' steadyValues passed
      have kept := lawful.values_carry
        (lawful.carries_of_steady (lawful.steady_trans steadyList steadyValues)) found
      match arity? with
      | none => exact alike_fail lawful.steady_refl (lawful.arity found callable)
      | some arity =>
          rw [← passed.length_eq]
          by_cases fits : values.length = arity
          · simp only [fits, if_true]
            refine (lawful.traceAt 2 _).bind lawful.steady_trans ?_
            intro traced _ _ steadyTrace _
            apply lawful.inCall
            intro inner carried
            have carriedTrace := lawful.carries_of_steady steadyTrace
            exact runs.invoke (lawful.values_carry carried (lawful.values_carry carriedTrace kept))
              (lawful.valuesCarry carried (lawful.valuesCarry carriedTrace passed))
          · simp only [fits, if_false]
            exact lawful.raise site (.count _ _)

theorem Runs.evaluate_succ (lawful : like.Lawful left right)
    (runs : Runs like left right budget larger) {tree tree' : Tree}
    (correspond : like.exprs tree tree') :
    like.Alike like.steady world like.values (tree.evaluate left (budget + 1))
      (tree'.evaluate right (larger + 1)) := by
  cases lawful.expr_fits correspond with
  | literal constants =>
      simp only [Tree.evaluate]
      exact alike_pure lawful.steady_refl (lawful.constant constants)
  | grouping inner =>
      simp only [Tree.evaluate]
      exact runs.evaluate inner
  | unary operator operand =>
      simp only [Tree.evaluate]
      refine (runs.evaluate operand).bind lawful.steady_trans ?_
      intro after value value' steady found
      exact lawful.unary operator found
  | binary first operator second =>
      simp only [Tree.evaluate]
      refine (runs.evaluate first).bind lawful.steady_trans ?_
      intro middle value value' steady found
      refine (runs.evaluate second).bind lawful.steady_trans ?_
      intro after other other' onward otherFound
      exact lawful.binary operator (lawful.values_carry (lawful.carries_of_steady onward) found)
        otherFound
  | logical first operator second =>
      simp only [Tree.evaluate]
      refine (runs.evaluate first).bind lawful.steady_trans ?_
      intro middle value value' steady found
      refine (lawful.logical operator).bind lawful.steady_trans ?_
      intro after token token' onward same
      rw [← same, ← lawful.truthy found]
      split
      · exact alike_pure lawful.steady_refl
          (lawful.values_carry (lawful.carries_of_steady onward) found)
      · exact runs.evaluate second
  | ident site =>
      simp only [Tree.evaluate]
      exact lawful.lookup site
  | assign site value =>
      simp only [Tree.evaluate]
      refine (runs.evaluate value).bind lawful.steady_trans ?_
      intro middle value value' steady found
      refine (lawful.assign site found).bind lawful.steady_trans ?_
      intro after _ _ onward _
      exact alike_pure lawful.steady_refl
        (lawful.values_carry (lawful.carries_of_steady onward) found)
  | call callee site arguments => exact runs.call_succ lawful callee site arguments
  | member site | setMember site | this site | super site =>
      simp only [Tree.evaluate]
      exact lawful.unsupported site (by decide)
  | strange first second failing =>
      rw [Tree.evaluate_of_not_isExpression first, Tree.evaluate_of_not_isExpression second]
      exact alike_fail lawful.steady_refl failing

theorem Runs.evaluateAll_succ (lawful : like.Lawful left right)
    (runs : Runs like left right budget larger) {trees trees' : List Tree}
    (correspond : List.Forall₂ like.exprs trees trees') :
    like.Alike like.steady world (fun after => List.Forall₂ (like.values after))
      (Tree.evaluateAll left (budget + 1) trees) (Tree.evaluateAll right (larger + 1) trees') := by
  cases correspond with
  | nil =>
      simp only [Tree.evaluateAll]
      exact alike_pure lawful.steady_refl .nil
  | cons first rest =>
      simp only [Tree.evaluateAll]
      refine (runs.evaluate first).bind lawful.steady_trans ?_
      intro middle value value' steady found
      refine (runs.evaluateAll rest).bind lawful.steady_trans ?_
      intro after values values' onward others
      exact alike_pure lawful.steady_refl
        (.cons (lawful.values_carry (lawful.carries_of_steady onward) found) others)

theorem Runs.invoke_succ (lawful : like.Lawful left right)
    (runs : Runs like left right budget larger) {callee callee' : Value}
    {arguments arguments' : List Value} (found : like.values world callee callee')
    (passed : List.Forall₂ (like.values world) arguments arguments') :
    like.Alike like.steady world like.values (Tree.invoke left (budget + 1) callee arguments)
      (Tree.invoke right (larger + 1) callee' arguments') := by
  rcases lawful.callees found with ⟨closure, closure', rfl, rfl, callees⟩ | ⟨first, second⟩
  · simp only [Tree.invoke]
    refine (callees.params.alike lawful).bind lawful.steady_trans ?_
    intro middle params params' steady sites
    have carried := lawful.carries_of_steady steady
    refine (lawful.bindParams sites (lawful.valuesCarry carried passed) .nil).bind
      lawful.steady_trans ?_
    intro ready bindings bindings' onward bound
    have scopes := lawful.scopes_carry
      (lawful.carries_of_steady (lawful.steady_trans steady onward)) callees.scope
    refine (lawful.inScope scopes bound (runs.executeAll callees.body)).bind
      lawful.steady_trans ?_
    intro after flow flow' _ flows
    cases flows with
    | completed => exact alike_pure lawful.steady_refl lawful.nil
    | returned found => exact alike_pure lawful.steady_refl found
  · have leftEq : Tree.invoke left (budget + 1) callee arguments = Run.readClock left := by
      cases callee <;> first | exact absurd rfl (first _) | rfl
    have rightEq : Tree.invoke right (larger + 1) callee' arguments' = Run.readClock right := by
      cases callee' <;> first | exact absurd rfl (second _) | rfl
    rw [leftEq, rightEq]
    exact lawful.readClock

theorem Runs.execute_succ (lawful : like.Lawful left right)
    (runs : Runs like left right budget larger) {tree tree' : Tree}
    (correspond : like.stmts tree tree') (allowed : like.declares world ∨ tree.Inert) :
    like.Alike like.grows world like.Flows (tree.execute left (budget + 1))
      (tree'.execute right (larger + 1)) := by
  have grown {after : like.World} (grows : like.grows world after) :
      like.declares after ∨ tree.Inert := allowed.imp_left (lawful.declares_grow grows)
  cases lawful.stmt_fits correspond with
  | expr value =>
      simp only [Tree.execute]
      refine (lawful.growing (runs.evaluate value)).bind lawful.grows_trans ?_
      intro after _ _ _ _
      exact alike_pure lawful.grows_refl .completed
  | print value =>
      simp only [Tree.execute]
      refine (lawful.growing (runs.evaluate value)).bind lawful.grows_trans ?_
      intro middle value value' _ found
      rw [lawful.display found]
      refine (lawful.growing (lawful.printLine _)).bind lawful.grows_trans ?_
      intro after _ _ _ _
      exact alike_pure lawful.grows_refl .completed
  | var site initial =>
      have declares : like.declares world := allowed.resolve_right id
      simp only [Tree.execute]
      refine (lawful.growing (lawful.unlessNil initial runs.evaluate)).bind lawful.grows_trans ?_
      intro started value value' first found
      refine (lawful.growing (lawful.lexeme site)).bind lawful.grows_trans ?_
      rintro spelled lexeme _ second ⟨rfl, named⟩
      refine (lawful.growing (lawful.name named)).bind lawful.grows_trans ?_
      rintro ready name _ third rfl
      have grows := lawful.grows_trans second third
      rw [lawful.typeName found, lawful.display found]
      refine (lawful.define (lawful.declares_grow (lawful.grows_trans first grows) declares)
        (lawful.values_carry (lawful.carries_of_grows grows) found)).bind lawful.grows_trans ?_
      intro defined _ _ _ _
      refine (lawful.growing (lawful.traceAt 2 _)).bind lawful.grows_trans ?_
      intro after _ _ _ _
      exact alike_pure lawful.grows_refl .completed
  | block statements =>
      simp only [Tree.execute]
      refine lawful.growing ?_
      refine lawful.currentScope.bind lawful.steady_trans ?_
      intro middle scope scope' _ scopes
      exact lawful.inScope scopes .nil (runs.executeAll statements)
  | @ifThen condition condition' thenBranch thenBranch' elseBranch elseBranch' test first second =>
      simp only [Tree.execute]
      refine (lawful.growing (runs.evaluate test)).bind lawful.grows_trans ?_
      intro middle value value' started found
      rw [lawful.display found, lawful.truthy found]
      refine (lawful.growing (lawful.traceAt 3 _)).bind lawful.grows_trans ?_
      intro after _ _ traced _
      have allowed := grown (lawful.grows_trans started traced)
      split
      · exact runs.execute first (allowed.imp_right And.left)
      · rw [← second.1]
        split
        · exact alike_pure lawful.grows_refl .completed
        · next present =>
          exact runs.execute (second.2 (by simpa using present)) (allowed.imp_right And.right)
  | whileLoop condition body =>
      simp only [Tree.execute]
      exact runs.executeWhile condition body allowed
  | function site params body =>
      have declares : like.declares world := allowed.resolve_right id
      simp only [Tree.execute]
      refine (lawful.growing (lawful.lexeme site)).bind lawful.grows_trans ?_
      rintro spelled lexeme _ first ⟨rfl, named⟩
      have spelledDeclares := lawful.declares_grow first declares
      refine (lawful.growing (lawful.close spelledDeclares params body)).bind lawful.grows_trans ?_
      intro closed closure closure' second found
      refine (lawful.growing (lawful.name named)).bind lawful.grows_trans ?_
      rintro ready name _ third rfl
      have kept := lawful.values_carry (lawful.carries_of_grows third) found
      refine (lawful.define (lawful.declares_grow (lawful.grows_trans second third) spelledDeclares)
        kept).bind lawful.grows_trans ?_
      intro defined _ _ fourth _
      refine (lawful.growing (lawful.traceFunction
        (lawful.values_carry (lawful.carries_of_grows fourth) kept))).bind lawful.grows_trans ?_
      intro after _ _ _ _
      exact alike_pure lawful.grows_refl .completed
  | returnStmt returns value =>
      simp only [Tree.execute]
      refine (lawful.growing lawful.callDepth).bind lawful.grows_trans ?_
      rintro middle depth depth' _ ⟨same, top⟩
      by_cases atTop : depth = 0
      · rw [if_pos atTop, if_pos (same.1 atTop)]
        exact lawful.growing (lawful.topReturn returns (top atTop))
      · rw [if_neg atTop, if_neg (mt same.2 atTop)]
        refine (lawful.growing (lawful.unlessNil value runs.evaluate)).bind lawful.grows_trans ?_
        intro after value value' _ found
        exact alike_pure lawful.grows_refl (.returned found)
  | classDecl site =>
      simp only [Tree.execute]
      exact lawful.growing (lawful.unsupported site (by decide))
  | strange first second failing =>
      rw [Tree.execute_of_not_isStatement first, Tree.execute_of_not_isStatement second]
      exact alike_fail lawful.grows_refl failing

theorem Runs.executeWhile_succ (lawful : like.Lawful left right)
    (runs : Runs like left right budget larger) {condition condition' body body' : Tree}
    (test : like.exprs condition condition') (correspond : like.stmts body body')
    (allowed : like.declares world ∨ body.Inert) :
    like.Alike like.grows world like.Flows (Tree.executeWhile left (budget + 1) condition body)
      (Tree.executeWhile right (larger + 1) condition' body') := by
  simp only [Tree.executeWhile]
  refine (lawful.growing (runs.evaluate test)).bind lawful.grows_trans ?_
  intro tested value value' first found
  rw [lawful.display found, lawful.truthy found]
  refine (lawful.growing (lawful.traceAt 3 _)).bind lawful.grows_trans ?_
  intro traced _ _ second _
  have grows := lawful.grows_trans first second
  split
  · refine (runs.execute correspond (allowed.imp_left (lawful.declares_grow grows))).bind
      lawful.grows_trans ?_
    intro after flow flow' third flows
    cases flows with
    | completed =>
        exact runs.executeWhile test correspond
          (allowed.imp_left (lawful.declares_grow (lawful.grows_trans grows third)))
    | returned found => exact alike_pure lawful.grows_refl (.returned found)
  · exact alike_pure lawful.grows_refl .completed

theorem Runs.executeAll_succ (lawful : like.Lawful left right)
    (runs : Runs like left right budget larger) {tree tree' : Tree}
    (sequence : like.Sequence like.stmts tree tree') (declares : like.declares world) :
    like.Alike like.grows world like.Flows (tree.executeAll left (budget + 1))
      (tree'.executeAll right (larger + 1)) := by
  simp only [Tree.executeAll]
  refine (lawful.growing (sequence.alike lawful)).bind lawful.grows_trans ?_
  intro after trees trees' grows items
  exact runs.executeList items (lawful.declares_grow grows declares)

theorem Runs.executeList_succ (lawful : like.Lawful left right)
    (runs : Runs like left right budget larger) {trees trees' : List Tree}
    (correspond : List.Forall₂ like.stmts trees trees') (declares : like.declares world) :
    like.Alike like.grows world like.Flows (Tree.executeList left (budget + 1) trees)
      (Tree.executeList right (larger + 1) trees') := by
  cases correspond with
  | nil =>
      simp only [Tree.executeList]
      exact alike_pure lawful.grows_refl .completed
  | cons first rest =>
      simp only [Tree.executeList]
      refine (runs.execute first (.inl declares)).bind lawful.grows_trans ?_
      intro after flow flow' grows flows
      cases flows with
      | completed => exact runs.executeList rest (lawful.declares_grow grows declares)
      | returned found => exact alike_pure lawful.grows_refl (.returned found)

/-- Corresponding trees run alike with the same budget, and with a larger one on a machine
where the other may run out alone. -/
theorem Lawful.runs (lawful : like.Lawful left right) (budget larger : Nat)
    (enough : like.Enough budget larger) : Runs like left right budget larger := by
  induction budget generalizing larger with
  | zero =>
      rcases enough with rfl | ⟨slack, -⟩ | ⟨-, none⟩
      · constructor <;> intros <;> exact alike_outOfBudget
      · constructor <;> intros <;> exact alike_of_slack slack _
      · obtain rfl := Nat.le_zero.1 none
        constructor <;> intros <;> exact alike_outOfBudget
  | succ budget ih =>
      cases larger with
      | zero =>
          obtain ⟨lag, -⟩ := (enough.resolve_left nofun).resolve_left fun less => nomatch less.2
          constructor <;> intros <;> exact alike_of_lag lag _
      | succ larger =>
          have fewer : like.Enough budget larger :=
            enough.imp Nat.succ.inj
              (.imp (And.imp_right Nat.le_of_succ_le_succ) (And.imp_right Nat.le_of_succ_le_succ))
          have runs := ih larger fewer
          exact {
            evaluate := runs.evaluate_succ lawful
            evaluateAll := runs.evaluateAll_succ lawful
            invoke := runs.invoke_succ lawful
            execute := runs.execute_succ lawful
            executeWhile := runs.executeWhile_succ lawful
            executeAll := runs.executeAll_succ lawful
            executeList := runs.executeList_succ lawful
          }

structure Reflexive (like : Likeness) : Prop where
  failure : ∀ failure, like.failures failure failure
  expr : ∀ tree, like.exprs tree tree
  stmt : ∀ tree, like.stmts tree tree
  params : ∀ tree, like.params tree tree
  body : ∀ tree, like.bodies tree tree
  constant : ∀ tree, like.constants tree tree
  site : ∀ tree, like.sites tree tree
  returns : ∀ tree, like.returns tree tree
  unaryOperator : ∀ tree, like.unaryOperators tree tree
  binaryOperator : ∀ tree, like.binaryOperators tree tree
  logicalOperator : ∀ tree, like.logicalOperators tree tree

theorem Reflexive.sequence (reflexive : like.Reflexive) {related : Tree → Tree → Prop}
    (related_self : ∀ tree, related tree tree) (tree : Tree) :
    like.Sequence related tree tree := by
  cases found : tree.elements? with
  | none => exact .strange found found (reflexive.failure _)
  | some items => exact .items found found (List.forall₂_same.2 fun item _ => related_self item)

theorem Reflexive.exprFits (reflexive : like.Reflexive) (tree : Tree) :
    like.ExprFits tree tree := by
  have expr := reflexive.expr
  have site := reflexive.site
  cases tree with
  | literal => exact .literal (reflexive.constant _)
  | grouping => exact .grouping (expr _)
  | unary => exact .unary (reflexive.unaryOperator _) (expr _)
  | binary => exact .binary (expr _) (reflexive.binaryOperator _) (expr _)
  | logical => exact .logical (expr _) (reflexive.logicalOperator _) (expr _)
  | ident => exact .ident (site _)
  | assign => exact .assign (site _) (expr _)
  | call => exact .call (expr _) (site _) (reflexive.sequence expr _)
  | member => exact .member (site _)
  | setMember => exact .setMember (site _)
  | this => exact .this (site _)
  | super => exact .super (site _)
  | _ => exact .strange rfl rfl (reflexive.failure _)

theorem Reflexive.stmtFits (reflexive : like.Reflexive) (tree : Tree) :
    like.StmtFits tree tree := by
  have expr := reflexive.expr
  have stmt := reflexive.stmt
  have site := reflexive.site
  cases tree with
  | expr => exact .expr (expr _)
  | print => exact .print (expr _)
  | var => exact .var (site _) ⟨rfl, fun _ => expr _⟩
  | block => exact .block (reflexive.sequence stmt _)
  | ifThen => exact .ifThen (expr _) (stmt _) ⟨rfl, fun _ => stmt _⟩
  | whileLoop => exact .whileLoop (expr _) (stmt _)
  | function => exact .function (site _) (reflexive.params _) (reflexive.body _)
  | returnStmt => exact .returnStmt (reflexive.returns _) ⟨rfl, fun _ => expr _⟩
  | classDecl => exact .classDecl (site _)
  | _ => exact .strange rfl rfl (reflexive.failure _)

end Likeness

end Lox
