import Lox.Proofs.Syntax.Settled

/-!
The budget of a program is enough: two readers in lockstep stay so through the whole grammar,
and with a budget that grows with the tokens no step gives up.
-/

namespace Lox

namespace Lockstep

variable {m n : Type → Type} [Monad m] [Monad n] {stop : Token} {first : Reader m}
  {second : Reader n} {pair : Lockstep stop first second} {budget larger limit : Nat}

structure SettledExprs (pair : Lockstep stop first second) (budget larger : Nat) : Prop where
  parse : ∀ limit, 16 * limit + 10 ≤ budget →
    pair.Settled 1 limit (first.parseExpr budget) (second.parseExpr larger)
  level : ∀ limit levels, levels.length ≤ 6 → 16 * limit + levels.length + 3 ≤ budget →
    pair.Settled 1 limit (first.parseLevel budget levels) (second.parseLevel larger levels)
  operands : ∀ limit level higher left, higher.length ≤ 6 → 16 * limit + 1 ≤ budget →
    pair.Settled 0 limit (first.parseOperands budget level higher left)
      (second.parseOperands larger level higher left)
  unary : ∀ limit, 16 * limit + 2 ≤ budget →
    pair.Settled 1 limit (first.parseUnary budget) (second.parseUnary larger)
  calls : ∀ limit callee, 16 * limit + 1 ≤ budget →
    pair.Settled 0 limit (first.parseCalls budget callee) (second.parseCalls larger callee)
  arguments : ∀ limit count, 16 * limit + 11 ≤ budget →
    pair.Settled 1 limit (first.parseArguments budget count)
      (second.parseArguments larger count)
  primary : ∀ limit, 16 * limit + 1 ≤ budget →
    pair.Settled 1 limit (first.parsePrimary budget) (second.parsePrimary larger)

theorem SettledExprs.parse_succ (settled : pair.SettledExprs budget larger) {limit : Nat}
    (enough : 16 * limit + 10 ≤ budget + 1) :
    pair.Settled 1 limit (first.parseExpr (budget + 1)) (second.parseExpr (larger + 1)) := by
  have left := settled.level limit levels (by decide) (by simp only [levels, List.length]; omega)
  simp only [Reader.parseExpr]
  refine left.leading fun _ target => ?_
  apply Settled.ofAccepted
  · exact settled_pure target
  · intro nonempty equals
    refine (settled.parse _ (by omega)).andThen fun value => ?_
    split
    · exact settled_pure _
    · exact settled_pure _
    · exact (settled_note equals .invalidTarget).andThen fun _ => settled_pure target

theorem SettledExprs.level_succ (settled : pair.SettledExprs budget larger) {limit : Nat}
    (levels : List Level) (few : levels.length ≤ 6)
    (enough : 16 * limit + levels.length + 3 ≤ budget + 1) :
    pair.Settled 1 limit (first.parseLevel (budget + 1) levels)
      (second.parseLevel (larger + 1) levels) := by
  cases levels with
  | nil =>
      rw [List.length_nil] at enough
      simp only [Reader.parseLevel]
      exact settled.unary limit (by omega)
  | cons level higher =>
      rw [List.length_cons] at few enough
      simp only [Reader.parseLevel]
      refine (settled.level limit higher (by omega) (by omega)).leading fun _ left => ?_
      exact settled.operands _ level higher left (by omega) (by omega)

theorem SettledExprs.operands_succ (settled : pair.SettledExprs budget larger) {limit : Nat}
    (level : Level) (higher : List Level) (left : Expr) (few : higher.length ≤ 6)
    (enough : 16 * limit + 1 ≤ budget + 1) :
    pair.Settled 0 limit (first.parseOperands (budget + 1) level higher left)
      (second.parseOperands (larger + 1) level higher left) := by
  simp only [Reader.parseOperands]
  apply Settled.ofAccepted
  · exact settled_pure left
  · intro nonempty operator
    refine (settled.level _ higher few (by omega)).andThen fun right => ?_
    exact settled.operands _ level higher _ few (by omega)

theorem SettledExprs.unary_succ (settled : pair.SettledExprs budget larger) {limit : Nat}
    (enough : 16 * limit + 2 ≤ budget + 1) :
    pair.Settled 1 limit (first.parseUnary (budget + 1))
      (second.parseUnary (larger + 1)) := by
  simp only [Reader.parseUnary]
  apply Settled.ofAccepted
  · refine (settled.primary limit (by omega)).leading fun _ callee => ?_
    exact settled.calls _ callee (by omega)
  · intro nonempty operator
    exact (settled.unary _ (by omega)).andThen fun operand => settled_pure _

theorem SettledExprs.calls_succ (settled : pair.SettledExprs budget larger) {limit : Nat}
    (callee : Expr) (enough : 16 * limit + 1 ≤ budget + 1) :
    pair.Settled 0 limit (first.parseCalls (budget + 1) callee)
      (second.parseCalls (larger + 1) callee) := by
  simp only [Reader.parseCalls]
  apply Settled.ofSeen
  · intro nonempty
    have arguments := settled.arguments (limit - 1) 0 (by omega)
    refine arguments.unlessSees.andThen fun arguments => ?_
    refine (settled_expect .rightParen _).andThen fun paren => ?_
    exact settled.calls _ _ (by omega)
  · apply Settled.ofSeen
    · intro nonempty
      refine (settled_expect .identifier _).andThen fun name => ?_
      exact settled.calls _ _ (by omega)
    · exact settled_pure callee

theorem SettledExprs.arguments_succ (settled : pair.SettledExprs budget larger) {limit : Nat}
    (count : Nat) (enough : 16 * limit + 11 ≤ budget + 1) :
    pair.Settled 1 limit (first.parseArguments (budget + 1) count)
      (second.parseArguments (larger + 1) count) := by
  simp only [Reader.parseArguments]
  refine (settled_limit count _).bind 1 (by omega) fun _ _ => ?_
  refine (settled.parse limit (by omega)).leading fun _ argument => ?_
  apply Settled.ofAccepted
  · exact settled_pure _
  · intro nonempty comma
    exact (settled.arguments _ (count + 1) (by omega)).andThen fun arguments => settled_pure _

theorem SettledExprs.primary_succ (settled : pair.SettledExprs budget larger)
    (stopped : stop.kind = .eof) {limit : Nat} (enough : 16 * limit + 1 ≤ budget + 1) :
    pair.Settled 1 limit (first.parsePrimary (budget + 1))
      (second.parsePrimary (larger + 1)) := by
  simp only [Reader.parsePrimary]
  apply Settled.ofNext
  · rw [stopped]
    exact settled_fail _ [] (Nat.zero_le limit)
  · intro token tail short
    have nonempty : 1 ≤ limit := by rw [List.length_cons] at short; omega
    split
    all_goals first
      | exact Settled.skipped (settled_pure _) short
      | exact settled_fail _ _ short
      | apply Settled.skipped _ short
    · refine (settled_expect .dot _).andThen fun _ => ?_
      exact (settled_expect .identifier _).andThen fun method => settled_pure _
    · refine (settled.parse _ (by omega)).andThen fun inner => ?_
      exact (settled_expect .rightParen _).andThen fun _ => settled_pure _

theorem settledExprs_of_le (stopped : stop.kind = .eof) (budget larger : Nat)
    (atMost : budget ≤ larger) : pair.SettledExprs budget larger := by
  induction budget generalizing larger with
  | zero => constructor <;> intros <;> omega
  | succ budget ih =>
      cases larger with
      | zero => omega
      | succ larger =>
          have settled := ih larger (by omega)
          exact {
            parse := fun _ => settled.parse_succ
            level := fun _ => settled.level_succ
            operands := fun _ => settled.operands_succ
            unary := fun _ => settled.unary_succ
            calls := fun _ => settled.calls_succ
            arguments := fun _ => settled.arguments_succ
            primary := fun _ => settled.primary_succ stopped
          }

theorem settled_parseParams (budget larger limit count : Nat)
    (atMost : budget ≤ larger) (enough : 16 * limit + 1 ≤ budget) :
    pair.Settled 1 limit (first.parseParams budget count) (second.parseParams larger count) := by
  induction budget generalizing larger limit count with
  | zero => omega
  | succ budget ih =>
      cases larger with
      | zero => omega
      | succ larger =>
          simp only [Reader.parseParams]
          refine (settled_limit count _).bind 1 (by omega) fun _ _ => ?_
          refine (settled_expect .identifier _).leading fun _ param => ?_
          apply Settled.ofAccepted
          · exact settled_pure _
          · intro nonempty comma
            exact (ih larger _ (count + 1) (by omega) (by omega)).andThen
              fun params => settled_pure _

theorem settled_parseClosed (settled : pair.SettledExprs budget larger) (what : String)
    (enough : 16 * limit + 10 ≤ budget) :
    pair.Settled 1 limit (first.parseClosed budget what) (second.parseClosed larger what) := by
  unfold Reader.parseClosed
  refine (settled.parse limit enough).leading fun _ value => ?_
  exact (settled_expect .semicolon what).andThen fun _ => settled_pure value

theorem settled_parseVar (settled : pair.SettledExprs budget larger)
    (enough : 16 * limit + 10 ≤ budget) :
    pair.Settled 1 limit (first.parseVar budget) (second.parseVar larger) := by
  unfold Reader.parseVar
  refine (settled_expect .identifier _).leading fun _ name => ?_
  have initial := settled.parse (limit - 1 - 1) (by omega)
  refine (Settled.behind? fun _ => initial).andThen fun initial => ?_
  exact (settled_expect .semicolon _).andThen fun _ => settled_pure _

theorem settled_parseOptional (settled : pair.SettledExprs budget larger) (closing : Kind)
    (enough : 16 * limit + 10 ≤ budget) :
    pair.Settled 0 limit (first.parseOptional budget closing)
      (second.parseOptional larger closing) := by
  unfold Reader.parseOptional
  exact ((settled.parse limit enough).map some).unlessSees

theorem settled_parseInitial (settled : pair.SettledExprs budget larger)
    (enough : 16 * limit + 10 ≤ budget) :
    pair.Settled 1 limit (first.parseInitial budget) (second.parseInitial larger) := by
  unfold Reader.parseInitial
  apply Settled.ofSeen
  · exact fun _ => settled_pure none
  · apply Settled.ofSeen
    · intro _
      have declared : pair.Settled 1 (limit - 1) (first.parseVar budget) (second.parseVar larger) :=
        settled_parseVar settled (by omega)
      exact (declared.map some).weaken (Nat.zero_le 1)
    · exact (settled_parseClosed settled _ enough).leading fun _ value => settled_pure _

structure SettledStmts (pair : Lockstep stop first second) (budget larger : Nat) : Prop where
  statement : ∀ limit, 16 * limit + 11 ≤ budget →
    pair.Settled 1 limit (first.parseStmt budget) (second.parseStmt larger)
  unbroken : ∀ limit, 16 * limit + 12 ≤ budget →
    pair.Settled 1 limit (first.parseUnbroken budget) (second.parseUnbroken larger)
  declaration : ∀ token tail, 16 * (tail.length + 1) + 13 ≤ budget →
    pair.Agree False (fun _ rest => rest.length + 1 ≤ (token :: tail).length) (token :: tail)
      (first.parseDeclaration budget) (second.parseDeclaration larger)
  block : ∀ limit, 16 * limit + 14 ≤ budget →
    pair.Settled 1 limit (first.parseBlock budget) (second.parseBlock larger)
  definition : ∀ limit role, 16 * limit + 1 ≤ budget →
    pair.Settled 1 limit (first.parseFunction budget role) (second.parseFunction larger role)
  methods : ∀ limit, 16 * limit + 2 ≤ budget →
    pair.Settled 0 limit (first.parseMethods budget) (second.parseMethods larger)
  classDecl : ∀ limit, 16 * limit + 1 ≤ budget →
    pair.Settled 1 limit (first.parseClass budget) (second.parseClass larger)

theorem SettledStmts.definition_succ (settled : pair.SettledStmts budget larger)
    (atMost : budget ≤ larger) {limit : Nat} (role : String)
    (enough : 16 * limit + 1 ≤ budget + 1) :
    pair.Settled 1 limit (first.parseFunction (budget + 1) role)
      (second.parseFunction (larger + 1) role) := by
  simp only [Reader.parseFunction]
  refine (settled_expect .identifier _).leading fun _ name => ?_
  refine (settled_expect .leftParen _).andThen fun _ => ?_
  have params : pair.Settled 1 (limit - 1) (first.parseParams budget 0)
      (second.parseParams larger 0) :=
    settled_parseParams budget larger (limit - 1) 0 atMost (by omega)
  refine params.unlessSees.andThen fun params => ?_
  refine (settled_expect .rightParen _).andThen fun _ => ?_
  refine (settled_expect .leftBrace _).andThen fun _ => ?_
  exact (settled.block _ (by omega)).andThen fun body => settled_pure _

theorem SettledStmts.methods_succ (settled : pair.SettledStmts budget larger) {limit : Nat}
    (enough : 16 * limit + 2 ≤ budget + 1) :
    pair.Settled 0 limit (first.parseMethods (budget + 1)) (second.parseMethods (larger + 1)) := by
  simp only [Reader.parseMethods]
  apply Settled.ofBlockEnds
  · exact settled_pure []
  · intro token tail short
    refine (settled.definition limit "method" (by omega) _ short).bind 0 (by omega) ?_
    intro method middle bound
    rw [List.length_cons] at bound short
    exact (settled.methods tail.length (by omega)).andThen (fun _ => settled_pure _)
      middle (by omega)

theorem SettledStmts.classDecl_succ (settled : pair.SettledStmts budget larger) {limit : Nat}
    (enough : 16 * limit + 1 ≤ budget + 1) :
    pair.Settled 1 limit (first.parseClass (budget + 1)) (second.parseClass (larger + 1)) := by
  simp only [Reader.parseClass]
  refine (settled_expect .identifier _).leading fun _ name => ?_
  refine (Settled.behind? fun _ => settled_expect .identifier _).andThen
    fun superclass => ?_
  refine (settled_expect .leftBrace _).andThen fun _ => ?_
  refine (settled.methods _ (by omega)).andThen fun methods => ?_
  exact (settled_expect .rightBrace _).andThen fun _ => settled_pure _

theorem SettledStmts.unbroken_succ (settled : pair.SettledStmts budget larger)
    (exprs : pair.SettledExprs budget larger) {limit : Nat}
    (enough : 16 * limit + 12 ≤ budget + 1) :
    pair.Settled 1 limit (first.parseUnbroken (budget + 1))
      (second.parseUnbroken (larger + 1)) := by
  simp only [Reader.parseUnbroken]
  apply Settled.ofSeen
  · intro nonempty
    exact (settled.classDecl (limit - 1) (by omega)).weaken (Nat.zero_le 1)
  apply Settled.ofSeen
  · intro nonempty
    exact ((settled.definition (limit - 1) _ (by omega)).map Stmt.function).weaken (Nat.zero_le 1)
  apply Settled.ofSeen
  · intro nonempty
    exact (settled_parseVar exprs (by omega)).weaken (Nat.zero_le 1)
  · exact settled.statement limit (by omega)

theorem SettledStmts.declaration_succ (settled : pair.SettledStmts budget larger) {token : Token}
    {tail : List Token} (enough : 16 * (tail.length + 1) + 13 ≤ budget + 1) :
    pair.Agree False (fun _ rest => rest.length + 1 ≤ (token :: tail).length) (token :: tail)
      (first.parseDeclaration (budget + 1)) (second.parseDeclaration (larger + 1)) := by
  simp only [Reader.parseDeclaration]
  apply pair.recover (List.cons_ne_nil token tail)
  exact settled.unbroken (tail.length + 1) (by omega) _ (by simp)

theorem SettledStmts.settles_declaration (settled : pair.SettledStmts budget larger)
    (token : Token) (tail : List Token) (enough : 16 * (tail.length + 1) + 13 ≤ budget) :
    pair.Settles 1 (first.parseDeclaration budget) (second.parseDeclaration larger)
      (token :: tail) :=
  pair.weaken (settled.declaration token tail enough) False.elim fun _ _ => id

theorem SettledStmts.block_succ (settled : pair.SettledStmts budget larger) {limit : Nat}
    (enough : 16 * limit + 14 ≤ budget + 1) :
    pair.Settled 1 limit (first.parseBlock (budget + 1)) (second.parseBlock (larger + 1)) := by
  simp only [Reader.parseBlock]
  apply Settled.ofBlockEnds
  · exact (settled_expect .rightBrace _).leading fun _ _ => settled_pure []
  · intro token tail short
    rw [List.length_cons] at short
    refine (settled.settles_declaration token tail (by omega)).bind 0 (by omega) ?_
    intro statement middle bound
    rw [List.length_cons] at bound
    exact (settled.block tail.length (by omega)).andThen (fun _ => settled_pure _)
      middle (by omega)

theorem SettledStmts.statement_succ (settled : pair.SettledStmts budget larger)
    (exprs : pair.SettledExprs budget larger) (stopped : stop.kind = .eof) {limit : Nat}
    (enough : 16 * limit + 11 ≤ budget + 1) :
    pair.Settled 1 limit (first.parseStmt (budget + 1)) (second.parseStmt (larger + 1)) := by
  have closed : ∀ what, pair.Settled 1 limit (Stmt.expr <$> first.parseClosed budget what)
      (Stmt.expr <$> second.parseClosed larger what) :=
    fun what => (settled_parseClosed exprs what (by omega)).map Stmt.expr
  simp only [Reader.parseStmt]
  apply Settled.ofNext
  · rw [stopped]
    exact closed _ [] (Nat.zero_le limit)
  · intro token tail short
    have nonempty : 1 ≤ limit := by rw [List.length_cons] at short; omega
    split
    all_goals first
      | exact closed _ _ short
      | apply Settled.skipped _ short
    · refine (settled_expect .leftParen _).andThen fun _ => ?_
      refine (settled_parseInitial exprs (by omega)).andThen fun initial => ?_
      refine (settled_parseOptional exprs .semicolon (by omega)).andThen fun condition => ?_
      refine (settled_expect .semicolon _).andThen fun _ => ?_
      refine (settled_parseOptional exprs .rightParen (by omega)).andThen fun increment => ?_
      refine (settled_expect .rightParen _).andThen fun _ => ?_
      exact (settled.statement _ (by omega)).andThen fun body => settled_pure _
    · refine (settled_expect .leftParen _).andThen fun _ => ?_
      refine (exprs.parse _ (by omega)).andThen fun condition => ?_
      refine (settled_expect .rightParen _).andThen fun _ => ?_
      refine (settled.statement _ (by omega)).andThen fun thenBranch => ?_
      apply Settled.ofAccepted
      · exact settled_pure _
      · intro _ _
        exact (settled.statement _ (by omega)).andThen fun elseBranch => settled_pure _
    · exact ((settled_parseClosed exprs _ (by omega)).map Stmt.print).weaken (Nat.zero_le 1)
    · refine (settled_parseOptional exprs .semicolon (by omega)).andThen fun value => ?_
      exact (settled_expect .semicolon _).andThen fun _ => settled_pure _
    · refine (settled_expect .leftParen _).andThen fun _ => ?_
      refine (exprs.parse _ (by omega)).andThen fun condition => ?_
      refine (settled_expect .rightParen _).andThen fun _ => ?_
      exact (settled.statement _ (by omega)).andThen fun body => settled_pure _
    · exact ((settled.block _ (by omega)).map Stmt.block).weaken (Nat.zero_le 1)

theorem settledStmts_of_le (stopped : stop.kind = .eof) (budget larger : Nat)
    (atMost : budget ≤ larger) : pair.SettledStmts budget larger := by
  induction budget generalizing larger with
  | zero => constructor <;> intros <;> omega
  | succ budget ih =>
      cases larger with
      | zero => omega
      | succ larger =>
          have exprs : pair.SettledExprs budget larger :=
            settledExprs_of_le stopped budget larger (by omega)
          have settled := ih larger (by omega)
          exact {
            statement := fun _ => settled.statement_succ exprs stopped
            unbroken := fun _ => settled.unbroken_succ exprs
            declaration := fun _ _ => settled.declaration_succ
            block := fun _ => settled.block_succ
            definition := fun _ => settled.definition_succ (by omega)
            methods := fun _ => settled.methods_succ
            classDecl := fun _ => settled.classDecl_succ
          }

theorem agree_parseAll (pair : Lockstep stop first second) (stopped : stop.kind = .eof)
    (budget larger : Nat) (tokens : List Token) (atMost : budget ≤ larger)
    (enough : 16 * tokens.length + 14 ≤ budget) :
    pair.Agree False (fun _ rest => rest = []) tokens (first.parseAll budget)
      (second.parseAll larger) := by
  induction budget generalizing larger tokens with
  | zero => omega
  | succ budget ih =>
      cases larger with
      | zero => omega
      | succ larger =>
          simp only [Reader.parseAll]
          have looked : pair.Agree False (fun ended rest => ended = tokens.isEmpty ∧ rest = tokens)
              tokens first.atEnd second.atEnd := pair.atEnd ⟨rfl, rfl⟩
          refine pair.bind looked fun ended rest same => ?_
          obtain ⟨rfl, rfl⟩ := same
          cases rest with
          | nil => exact pair.gives rfl
          | cons token tail =>
              rw [List.length_cons] at enough
              have settled : pair.SettledStmts budget larger :=
                settledStmts_of_le stopped budget larger (by omega)
              refine pair.bind (settled.declaration token tail (by omega)) ?_
              intro statement middle bound
              rw [List.length_cons] at bound
              refine pair.bind (ih larger middle (by omega) (by omega)) ?_
              exact fun statements rest ended => pair.gives ended

end Lockstep

end Lox
