import Lox.Proofs.Grammar
import Lox.Proofs.Syntax.Loud

/-!
What is read without a note derives from the grammar.
-/

namespace Lox

open Lox.Parser Lox.Grammar

namespace Grammar

def Grade.levels : Grade → List Level
  | logicOr => Lox.levels
  | logicAnd => Lox.levels.drop 1
  | equality => Lox.levels.drop 2
  | comparison => Lox.levels.drop 3
  | term => Lox.levels.drop 4
  | factor => Lox.levels.drop 5
  | _ => []

theorem Grade.levels_of_operand? {grade tighter : Grade} (next : grade.operand? = some tighter) :
    grade.levels = ⟨grade.operators, grade.node⟩ :: tighter.levels := by
  cases grade <;> simp only [Grade.operand?, Option.some.injEq, reduceCtorEq] at next <;>
    subst next <;> rfl

theorem Variable.ne_nil {tokens : List Token} {tree : Stmt} (derived : Variable tokens tree) :
    tokens ≠ [] := by
  cases derived <;> simp

theorem Statement.ne_nil {phrase : Phrase} {tokens : List Token} {tree : Stmt}
    (derived : Statement phrase tokens tree) : tokens ≠ [] := by
  induction derived with
  | varDecl derived => exact derived.ne_nil
  | statement _ ih => exact ih
  | _ => simp

theorem Expression.of_ident {grade : Grade} {tokens : List Token} {name : Token}
    (derived : Expression grade tokens (.ident name)) :
    tokens = [name] ∧ name.kind = .identifier := by
  generalize treeEq : Expr.ident name = tree at derived
  induction derived with
  | logicOr _ ih => exact ih treeEq
  | operand _ _ ih => exact ih treeEq
  | @operator grade =>
      cases grade <;> simp [Grade.node] at treeEq
  | call _ ih => exact ih treeEq
  | primary _ ih => exact ih treeEq
  | ident identifier =>
      cases treeEq
      exact ⟨rfl, identifier⟩
  | _ => simp at treeEq

theorem Expression.of_member {grade : Grade} {tokens : List Token} {target : Expr} {name : Token}
    (derived : Expression grade tokens (.member target name)) :
    ∃ object dot, tokens = object ++ [dot, name] ∧ Expression .call object target ∧
      dot.kind = .dot ∧ name.kind = .identifier := by
  generalize treeEq : Expr.member target name = tree at derived
  induction derived with
  | logicOr _ ih => exact ih treeEq
  | operand _ _ ih => exact ih treeEq
  | @operator grade =>
      cases grade <;> simp [Grade.node] at treeEq
  | call _ ih => exact ih treeEq
  | primary _ ih => exact ih treeEq
  | member object dot identifier =>
      cases treeEq
      exact ⟨_, _, rfl, object, dot, identifier⟩
  | _ => simp at treeEq

end Grammar

def Parser.Derived {α : Type} (form : List Token → α → Prop) (step : Parser α) : Prop :=
  ∀ {tokens value rest}, Reads step tokens value rest →
    ∃ read, tokens = read ++ rest ∧ form read value

namespace Expr

def ArgumentsFrom (count : Nat) (tokens : List Token) (trees : List Expr) : Prop :=
  ∃ parts : Parts Expr, (∀ part ∈ parts, Expression .assignment part.1 part.2) ∧ parts ≠ [] ∧
    Separated (parts.map Prod.fst) tokens ∧ parts.trees = trees ∧ count + parts.length ≤ 255

structure Sound (stop : Token) (budget : Nat) : Prop where
  parse : Derived (Expression .assignment) ((upTo stop).parseExpr budget)
  unary : Derived (Expression .unary) ((upTo stop).parseUnary budget)
  level : ∀ {grade tighter}, grade.operand? = some tighter →
    Derived (Expression grade) ((upTo stop).parseLevel budget grade.levels)
  innermost : Derived (Expression .unary) ((upTo stop).parseLevel budget [])
  operands : ∀ {grade tighter left leftTree}, grade.operand? = some tighter →
    Expression grade left leftTree →
    Derived (fun read tree => Expression grade (left ++ read) tree)
      ((upTo stop).parseOperands budget ⟨grade.operators, grade.node⟩ tighter.levels leftTree)
  calls : ∀ {callee calleeTree}, Expression .call callee calleeTree →
    Derived (fun read tree => Expression .call (callee ++ read) tree)
      ((upTo stop).parseCalls budget calleeTree)
  arguments : ∀ count, Derived (ArgumentsFrom count) ((upTo stop).parseArguments budget count)
  primary : Derived (Expression .primary) ((upTo stop).parsePrimary budget)

variable {stop : Token} {budget : Nat}

theorem Sound.tighter (sound : Sound stop budget) {grade tighter : Grade}
    (next : grade.operand? = some tighter) :
    Derived (Expression tighter) ((upTo stop).parseLevel budget tighter.levels) := by
  cases grade <;> simp only [Grade.operand?, Option.some.injEq, reduceCtorEq] at next <;>
    subst next
  case factor => exact sound.innermost
  all_goals exact sound.level rfl

theorem Sound.parse_succ (sound : Sound stop budget) :
    Derived (Expression .assignment) ((upTo stop).parseExpr (budget + 1)) := by
  have logicOr : Derived (Expression .logicOr) ((upTo stop).parseLevel budget levels) :=
    sound.level (show Grade.logicOr.operand? = some .logicAnd from rfl)
  intro tokens value rest reads
  simp only [Reader.parseExpr, reads_bind] at reads
  obtain ⟨target, middle, readsTarget, answer, behind, accepted, after⟩ := reads
  obtain ⟨left, rfl, targetDerived⟩ := logicOr readsTarget
  rcases reads_accept?.1 accepted with ⟨equals, rfl, equalsKind, rfl⟩ | ⟨rfl, -, rfl⟩
  · simp only [List.mem_singleton] at equalsKind
    simp only [reads_bind] at after
    obtain ⟨value, middle, readsValue, after⟩ := after
    obtain ⟨right, rfl, valueDerived⟩ := sound.parse readsValue
    split at after
    next name =>
      obtain ⟨rfl, rfl⟩ := reads_pure.1 after
      obtain ⟨rfl, identifier⟩ := targetDerived.of_ident
      exact ⟨name :: equals :: right, by simp, .assign identifier equalsKind valueDerived⟩
    next object name =>
      obtain ⟨rfl, rfl⟩ := reads_pure.1 after
      obtain ⟨read, dot, rfl, objectDerived, dotKind, identifier⟩ := targetDerived.of_member
      exact ⟨read ++ dot :: name :: equals :: right, by simp,
        .setMember objectDerived dotKind identifier equalsKind valueDerived⟩
    next =>
      simp at after
  · obtain ⟨rfl, rfl⟩ := reads_pure.1 after
    exact ⟨left, rfl, .logicOr targetDerived⟩

theorem Sound.level_succ (sound : Sound stop budget) {grade tighter : Grade}
    (next : grade.operand? = some tighter) :
    Derived (Expression grade) ((upTo stop).parseLevel (budget + 1) grade.levels) := by
  intro tokens value rest reads
  simp only [Grade.levels_of_operand? next, Reader.parseLevel, reads_bind] at reads
  obtain ⟨leftTree, middle, readsLeft, after⟩ := reads
  obtain ⟨left, rfl, leftDerived⟩ := sound.tighter next readsLeft
  obtain ⟨right, rfl, derived⟩ := sound.operands next (.operand next leftDerived) after
  exact ⟨left ++ right, by simp, derived⟩

theorem Sound.operands_succ (sound : Sound stop budget) {grade tighter : Grade}
    {left : List Token} {leftTree : Expr} (next : grade.operand? = some tighter)
    (leftDerived : Expression grade left leftTree) :
    Derived (fun read tree => Expression grade (left ++ read) tree)
      ((upTo stop).parseOperands (budget + 1) ⟨grade.operators, grade.node⟩ tighter.levels
        leftTree) := by
  intro tokens value rest reads
  simp only [Reader.parseOperands, reads_bind] at reads
  obtain ⟨answer, middle, accepted, after⟩ := reads
  rcases reads_accept?.1 accepted with ⟨operator, rfl, member, rfl⟩ | ⟨rfl, -, rfl⟩
  · simp only [reads_bind] at after
    obtain ⟨rightTree, behind, readsRight, after⟩ := after
    obtain ⟨right, rfl, rightDerived⟩ := sound.tighter next readsRight
    obtain ⟨more, rfl, derived⟩ :=
      sound.operands next (.operator next leftDerived member rightDerived) after
    exact ⟨operator :: right ++ more, by simp, by simpa using derived⟩
  · obtain ⟨rfl, rfl⟩ := reads_pure.1 after
    exact ⟨[], rfl, by simpa using leftDerived⟩

theorem Sound.unary_succ (sound : Sound stop budget) :
    Derived (Expression .unary) ((upTo stop).parseUnary (budget + 1)) := by
  intro tokens value rest reads
  simp only [Reader.parseUnary, reads_bind] at reads
  obtain ⟨answer, middle, accepted, after⟩ := reads
  rcases reads_accept?.1 accepted with ⟨operator, rfl, member, rfl⟩ | ⟨rfl, -, rfl⟩
  · simp only [reads_bind] at after
    obtain ⟨operand, behind, readsOperand, after⟩ := after
    obtain ⟨read, rfl, derived⟩ := sound.unary readsOperand
    obtain ⟨rfl, rfl⟩ := reads_pure.1 after
    exact ⟨operator :: read, rfl, .unary member derived⟩
  · simp only [reads_bind] at after
    obtain ⟨callee, behind, readsPrimary, after⟩ := after
    obtain ⟨read, rfl, primary⟩ := sound.primary readsPrimary
    obtain ⟨more, rfl, derived⟩ := sound.calls (.primary primary) after
    exact ⟨read ++ more, by simp, .call derived⟩

theorem Sound.argumentList (sound : Sound stop budget) {tokens rest : List Token}
    {trees : List Expr}
    (reads : Reads ((upTo stop).unlessSees .rightParen [] ((upTo stop).parseArguments budget 0))
      tokens trees rest) :
    ∃ (parts : Parts Expr) (list : List Token), tokens = list ++ rest ∧
      (∀ part ∈ parts, Expression .assignment part.1 part.2) ∧
      Separated (parts.map Prod.fst) list ∧ parts.trees = trees ∧ parts.length ≤ 255 := by
  rcases reads_unlessSees.1 reads with ⟨token, tail, -, -, rfl, rfl⟩ | ⟨-, reads⟩
  · exact ⟨[], [], rfl, by simp, .none, rfl, by simp⟩
  · obtain ⟨list, rfl, parts, derived, -, separated, treesEq, few⟩ := sound.arguments 0 reads
    exact ⟨parts, list, rfl, derived, separated, treesEq, by omega⟩

theorem Sound.calls_succ (sound : Sound stop budget) {callee : List Token} {calleeTree : Expr}
    (calleeDerived : Expression .call callee calleeTree) :
    Derived (fun read tree => Expression .call (callee ++ read) tree)
      ((upTo stop).parseCalls (budget + 1) calleeTree) := by
  intro tokens value rest reads
  simp only [Reader.parseCalls] at reads
  rcases reads_ifSees.1 reads with ⟨opening, tail, openingKind, rfl, invoked⟩ | ⟨-, reads⟩
  · rw [reads_skipped] at invoked
    simp only [reads_bind, reads_expect] at invoked
    obtain ⟨trees, behind, readsList, closing, after, ⟨closingKind, rfl⟩, more⟩ :=
      invoked
    obtain ⟨parts, list, rfl, derived, separated, rfl, few⟩ := sound.argumentList readsList
    have call := Expression.invocation calleeDerived openingKind derived separated few closingKind
    obtain ⟨read, rfl, derived⟩ := sound.calls call more
    exact ⟨opening :: list ++ closing :: read, by simp, by simpa using derived⟩
  · rcases reads_ifSees.1 reads with ⟨dot, tail, dotKind, rfl, accessed⟩ | ⟨-, ended⟩
    · rw [reads_skipped] at accessed
      simp only [reads_bind, reads_expect] at accessed
      obtain ⟨name, after, ⟨nameKind, rfl⟩, more⟩ := accessed
      obtain ⟨read, rfl, derived⟩ := sound.calls (.member calleeDerived dotKind nameKind) more
      exact ⟨dot :: name :: read, by simp, by simpa using derived⟩
    · obtain ⟨rfl, rfl⟩ := reads_pure.1 ended
      exact ⟨[], rfl, by simpa using calleeDerived⟩

theorem Sound.arguments_succ (sound : Sound stop budget) (count : Nat) :
    Derived (ArgumentsFrom count) ((upTo stop).parseArguments (budget + 1) count) := by
  intro tokens value rest reads
  simp only [Reader.parseArguments, reads_bind, reads_limit] at reads
  obtain ⟨-, middle, ⟨few, rfl⟩, argument, behind, readsArgument, answer, last, accepted, after⟩ :=
    reads
  obtain ⟨read, rfl, derived⟩ := sound.parse readsArgument
  have room : count < 255 := few
  rcases reads_accept?.1 accepted with ⟨comma, rfl, commaKind, rfl⟩ | ⟨rfl, -, rfl⟩
  · simp only [List.mem_singleton] at commaKind
    simp only [reads_bind] at after
    obtain ⟨trees, final, readsMore, after⟩ := after
    obtain ⟨rfl, rfl⟩ := reads_pure.1 after
    obtain ⟨list, rfl, parts, partsDerived, nonempty, separated, rfl, few⟩ :=
      sound.arguments (count + 1) readsMore
    obtain ⟨first, others, rfl⟩ := List.exists_cons_of_ne_nil nonempty
    refine ⟨read ++ comma :: list, by simp, (read, argument) :: first :: others, ?_, by simp,
      .more commaKind separated, rfl, ?_⟩
    · exact List.forall_mem_cons.2 ⟨derived, partsDerived⟩
    · simp only [List.length_cons] at few ⊢
      omega
  · obtain ⟨rfl, rfl⟩ := reads_pure.1 after
    refine ⟨read, rfl, [(read, argument)], by simpa using derived, by simp, .one read, rfl, ?_⟩
    simp only [List.length_cons, List.length_nil]
    omega

theorem Sound.primary_succ (sound : Sound stop budget) (stopped : stop.kind = .eof) :
    Derived (Expression .primary) ((upTo stop).parsePrimary (budget + 1)) := by
  intro tokens value rest reads
  simp only [Reader.parsePrimary, reads_bind, reads_next] at reads
  obtain ⟨token, middle, ⟨tokenEq, rfl⟩, after⟩ := reads
  cases tokens with
  | nil =>
      rw [List.headD_nil] at tokenEq
      subst tokenEq
      simp [stopped] at after
  | cons first tail =>
      rw [List.headD_cons] at tokenEq
      subst tokenEq
      split at after
      all_goals simp only [reads_skipped, not_reads_fail] at after
      next kind =>
        obtain ⟨rfl, rfl⟩ := reads_pure.1 after
        exact ⟨[first], rfl, .falseWord kind⟩
      next kind =>
        obtain ⟨rfl, rfl⟩ := reads_pure.1 after
        exact ⟨[first], rfl, .trueWord kind⟩
      next kind =>
        obtain ⟨rfl, rfl⟩ := reads_pure.1 after
        exact ⟨[first], rfl, .nilWord kind⟩
      next kind =>
        obtain ⟨rfl, rfl⟩ := reads_pure.1 after
        exact ⟨[first], rfl, .number kind⟩
      next kind =>
        obtain ⟨rfl, rfl⟩ := reads_pure.1 after
        exact ⟨[first], rfl, .string kind⟩
      next kind =>
        obtain ⟨rfl, rfl⟩ := reads_pure.1 after
        exact ⟨[first], rfl, .this kind⟩
      next kind =>
        simp only [reads_bind, reads_expect] at after
        obtain ⟨dot, behind, ⟨dotKind, rfl⟩, method, final, ⟨methodKind, rfl⟩, ended⟩ := after
        obtain ⟨rfl, rfl⟩ := reads_pure.1 ended
        exact ⟨[first, dot, method], rfl, .super kind dotKind methodKind⟩
      next kind =>
        obtain ⟨rfl, rfl⟩ := reads_pure.1 after
        exact ⟨[first], rfl, .ident kind⟩
      next kind =>
        simp only [reads_bind, reads_expect] at after
        obtain ⟨inner, behind, readsInner, closing, final, ⟨closingKind, rfl⟩, ended⟩ := after
        obtain ⟨rfl, rfl⟩ := reads_pure.1 ended
        obtain ⟨read, rfl, derived⟩ := sound.parse readsInner
        exact ⟨first :: read ++ [closing], by simp, .grouping kind derived closingKind⟩

theorem sound (stopped : stop.kind = .eof) (budget : Nat) : Sound stop budget := by
  induction budget with
  | zero =>
      constructor <;> intros <;> intro tokens value rest reads <;>
        simp [Reader.parseExpr, Reader.parseUnary, Reader.parseLevel, Reader.parseOperands,
          Reader.parseCalls, Reader.parseArguments, Reader.parsePrimary] at reads
  | succ budget ih =>
      exact {
        parse := ih.parse_succ
        unary := ih.unary_succ
        level := ih.level_succ
        innermost := by
          intro tokens value rest reads
          simp only [Reader.parseLevel] at reads
          exact ih.unary reads
        operands := ih.operands_succ
        calls := ih.calls_succ
        arguments := ih.arguments_succ
        primary := ih.primary_succ stopped
      }

end Expr

namespace Stmt

variable {stop : Token} {budget : Nat}

theorem derived_parseOptional (stopped : stop.kind = .eof) (closing : Kind) :
    Derived Optional ((upTo stop).parseOptional budget closing) := by
  intro tokens value rest reads
  unfold Reader.parseOptional at reads
  rcases reads_unlessSees.1 reads with ⟨token, tail, -, -, rfl, rfl⟩ | ⟨-, reads⟩
  · exact ⟨[], rfl, .absent⟩
  · obtain ⟨tree, readsValue, rfl⟩ := reads_map.1 reads
    obtain ⟨read, rfl, derived⟩ := (Expr.sound stopped budget).parse readsValue
    exact ⟨read, rfl, .present derived⟩

theorem derived_parseClosed (stopped : stop.kind = .eof) (what : String) :
    Derived (fun read value => ∃ tokens semicolon, read = tokens ++ [semicolon] ∧
      Expression .assignment tokens value ∧ semicolon.kind = .semicolon)
      ((upTo stop).parseClosed budget what) := by
  intro tokens value rest reads
  simp only [Reader.parseClosed, reads_bind, reads_expect] at reads
  obtain ⟨tree, middle, readsValue, semicolon, behind, ⟨semicolonKind, rfl⟩, after⟩ := reads
  obtain ⟨rfl, rfl⟩ := reads_pure.1 after
  obtain ⟨read, rfl, derived⟩ := (Expr.sound stopped budget).parse readsValue
  exact ⟨read ++ [semicolon], by simp, read, semicolon, rfl, derived, semicolonKind⟩

theorem derived_parseVar (stopped : stop.kind = .eof) {keyword : Token}
    (keywordKind : keyword.kind = .varWord) :
    Derived (fun read tree => Variable (keyword :: read) tree) ((upTo stop).parseVar budget) := by
  intro tokens value rest reads
  simp only [Reader.parseVar, reads_bind, reads_expect] at reads
  obtain ⟨name, middle, ⟨nameKind, rfl⟩, initial, behind, readsInitial, semicolon, final,
    ⟨semicolonKind, rfl⟩, after⟩ := reads
  obtain ⟨rfl, rfl⟩ := reads_pure.1 after
  rcases reads_behind?.1 readsInitial with
    ⟨equals, tree, inner, equalsKind, rfl, readsValue, rfl⟩ | ⟨rfl, -, rfl⟩
  · obtain ⟨read, rfl, derived⟩ := (Expr.sound stopped budget).parse readsValue
    exact ⟨name :: equals :: read ++ [semicolon], by simp,
      .initialized keywordKind nameKind (by simpa using equalsKind) derived semicolonKind⟩
  · exact ⟨[name, semicolon], by simp, .plain keywordKind nameKind semicolonKind⟩

theorem derived_parseInitial (stopped : stop.kind = .eof) :
    Derived Initial ((upTo stop).parseInitial budget) := by
  intro tokens value rest reads
  unfold Reader.parseInitial at reads
  rcases reads_ifSees.1 reads with ⟨semicolon, tail, kind, rfl, absent⟩ | ⟨-, reads⟩
  · rw [reads_skipped] at absent
    obtain ⟨rfl, rfl⟩ := reads_pure.1 absent
    exact ⟨[semicolon], rfl, .absent kind⟩
  · rcases reads_ifSees.1 reads with ⟨keyword, tail, kind, rfl, declared⟩ | ⟨-, closed⟩
    · rw [reads_skipped] at declared
      obtain ⟨tree, readsVar, rfl⟩ := reads_map.1 declared
      obtain ⟨read, rfl, derived⟩ := derived_parseVar stopped kind readsVar
      exact ⟨keyword :: read, rfl, .varDecl derived⟩
    · simp only [reads_bind] at closed
      obtain ⟨tree, middle, readsValue, after⟩ := closed
      obtain ⟨rfl, rfl⟩ := reads_pure.1 after
      obtain ⟨_, rfl, read, semicolon, rfl, derived, kind⟩ :=
        derived_parseClosed stopped _ readsValue
      exact ⟨read ++ [semicolon], rfl, .expr derived kind⟩

def ParamsFrom (count : Nat) (tokens params : List Token) : Prop :=
  (∀ param ∈ params, param.kind = .identifier) ∧ params ≠ [] ∧
    Separated (params.map fun param => [param]) tokens ∧ count + params.length ≤ 255

theorem derived_parseParams (budget count : Nat) :
    Derived (ParamsFrom count) ((upTo stop).parseParams budget count) := by
  induction budget generalizing count with
  | zero =>
      intro tokens value rest reads
      simp [Reader.parseParams] at reads
  | succ budget ih =>
      intro tokens value rest reads
      simp only [Reader.parseParams, reads_bind, reads_limit, reads_expect] at reads
      obtain ⟨-, middle, ⟨few, rfl⟩, param, behind, ⟨kind, rfl⟩, answer, last, accepted, after⟩ :=
        reads
      have room : count < 255 := few
      rcases reads_accept?.1 accepted with ⟨comma, rfl, commaKind, rfl⟩ | ⟨rfl, -, rfl⟩
      · simp only [List.mem_singleton] at commaKind
        simp only [reads_bind] at after
        obtain ⟨params, final, readsMore, after⟩ := after
        obtain ⟨rfl, rfl⟩ := reads_pure.1 after
        obtain ⟨list, rfl, kinds, nonempty, separated, few⟩ := ih (count + 1) readsMore
        obtain ⟨first, others, rfl⟩ := List.exists_cons_of_ne_nil nonempty
        have longer : Separated ([param] :: (first :: others).map fun param => [param])
            ([param] ++ comma :: list) := .more commaKind separated
        refine ⟨param :: comma :: list, by simp, ?_, by simp, longer, ?_⟩
        · exact List.forall_mem_cons.2 ⟨kind, kinds⟩
        · simp only [List.length_cons] at few ⊢
          omega
      · obtain ⟨rfl, rfl⟩ := reads_pure.1 after
        refine ⟨[param], rfl, by simpa using kind, by simp, .one [param], ?_⟩
        simp only [List.length_cons, List.length_nil]
        omega

theorem derived_paramList :
    Derived (fun list params => (∀ param ∈ params, param.kind = .identifier) ∧
      Separated (params.map fun param => [param]) list ∧ params.length ≤ 255)
      ((upTo stop).unlessSees .rightParen [] ((upTo stop).parseParams budget 0)) := by
  intro tokens value rest reads
  rcases reads_unlessSees.1 reads with ⟨token, tail, -, -, rfl, rfl⟩ | ⟨-, reads⟩
  · exact ⟨[], rfl, by simp, .none, by simp⟩
  · obtain ⟨list, rfl, kinds, -, separated, few⟩ := derived_parseParams budget 0 reads
    exact ⟨list, rfl, kinds, separated, by omega⟩

structure Sound (stop : Token) (budget : Nat) : Prop where
  statement : ∀ {tokens tree rest}, 16 * tokens.length + 11 ≤ budget →
    Reads ((upTo stop).parseStmt budget) tokens tree rest →
    ∃ ending read, tokens = read ++ rest ∧ Statement (.statement ending) read tree ∧
      (ending = .dangling → Clear [.elseWord] rest)
  unbroken : ∀ {tokens tree rest}, 16 * tokens.length + 12 ≤ budget →
    Reads ((upTo stop).parseUnbroken budget) tokens tree rest →
    ∃ read, tokens = read ++ rest ∧ Statement .declaration read tree
  declaration : ∀ {tokens answer rest}, 16 * tokens.length + 13 ≤ budget →
    Reads ((upTo stop).parseDeclaration budget) tokens answer rest →
    ∃ read tree, answer = some tree ∧ tokens = read ++ rest ∧ Statement .declaration read tree
  block : ∀ {tokens trees rest}, 16 * tokens.length + 14 ≤ budget →
    Reads ((upTo stop).parseBlock budget) tokens trees rest →
    ∃ (parts : Parts Stmt) (closing : Token), tokens = parts.tokens ++ closing :: rest ∧
      (∀ part ∈ parts, Statement .declaration part.1 part.2) ∧ closing.kind = .rightBrace ∧
      parts.trees = trees
  definition : ∀ {role tokens declared rest}, 16 * tokens.length + 1 ≤ budget →
    Reads ((upTo stop).parseFunction budget role) tokens declared rest →
    ∃ read, tokens = read ++ rest ∧ Statement .function read (.function declared)
  methods : ∀ {tokens trees rest}, 16 * tokens.length + 2 ≤ budget →
    Reads ((upTo stop).parseMethods budget) tokens trees rest →
    ∃ parts : Parts Function, tokens = parts.tokens ++ rest ∧
      (∀ part ∈ parts, Statement .function part.1 (.function part.2)) ∧ parts.trees = trees
  classDecl : ∀ {keyword tokens tree rest}, keyword.kind = .classWord →
    16 * tokens.length + 1 ≤ budget → Reads ((upTo stop).parseClass budget) tokens tree rest →
    ∃ read, tokens = read ++ rest ∧ Statement .declaration (keyword :: read) tree

theorem derived_superclass {what : String} :
    Derived Superclass ((upTo stop).behind? [.less] ((upTo stop).expect .identifier what)) := by
  intro tokens value rest reads
  rcases reads_behind?.1 reads with ⟨less, name, middle, kind, rfl, readsName, rfl⟩ | ⟨rfl, -, rfl⟩
  · obtain ⟨nameKind, rfl⟩ := reads_expect.1 readsName
    exact ⟨[less, name], rfl, .present (by simpa using kind) nameKind⟩
  · exact ⟨[], rfl, .absent⟩

theorem Sound.definition_succ (sound : Sound stop budget) {role : String}
    {tokens rest : List Token} {declared : Function}
    (enough : 16 * tokens.length + 1 ≤ budget + 1)
    (reads : Reads ((upTo stop).parseFunction (budget + 1) role) tokens declared rest) :
    ∃ read, tokens = read ++ rest ∧ Statement .function read (.function declared) := by
  simp only [Reader.parseFunction, reads_bind, reads_expect] at reads
  obtain ⟨name, _, ⟨nameKind, rfl⟩, opening, _, ⟨openingKind, rfl⟩, params, _, readsParams,
    closing, _, ⟨closingKind, rfl⟩, begin, _, ⟨beginKind, rfl⟩, body, _, readsBody, after⟩ := reads
  obtain ⟨rfl, rfl⟩ := reads_pure.1 after
  obtain ⟨list, rfl, kinds, separated, few⟩ := derived_paramList readsParams
  simp only [List.length_cons, List.length_append] at enough
  obtain ⟨parts, finish, rfl, derived, finishKind, rfl⟩ := sound.block (by omega) readsBody
  exact ⟨name :: opening :: list ++ closing :: begin :: parts.tokens ++ [finish], by simp,
    .definition nameKind openingKind kinds separated few closingKind beginKind derived finishKind⟩

theorem Sound.methods_succ (sound : Sound stop budget) {tokens rest : List Token}
    {trees : List Function} (enough : 16 * tokens.length + 2 ≤ budget + 1)
    (reads : Reads ((upTo stop).parseMethods (budget + 1)) tokens trees rest) :
    ∃ parts : Parts Function, tokens = parts.tokens ++ rest ∧
      (∀ part ∈ parts, Statement .function part.1 (.function part.2)) ∧ parts.trees = trees := by
  simp only [Reader.parseMethods, reads_bind, reads_blockEnds] at reads
  obtain ⟨ended, _, ⟨-, rfl⟩, reads⟩ := reads
  cases ended with
  | true =>
      obtain ⟨rfl, rfl⟩ := reads_pure.1 (by simpa using reads)
      exact ⟨[], rfl, by simp, rfl⟩
  | false =>
      simp only [Bool.false_eq_true, if_false, reads_bind] at reads
      obtain ⟨method, _, readsMethod, methods, _, readsMore, after⟩ := reads
      obtain ⟨rfl, rfl⟩ := reads_pure.1 after
      obtain ⟨read, rfl, derived⟩ := sound.definition (by omega) readsMethod
      have positive := List.length_pos_iff.2 derived.ne_nil
      rw [List.length_append] at enough
      obtain ⟨parts, rfl, partsDerived, rfl⟩ := sound.methods (by omega) readsMore
      exact ⟨(read, method) :: parts, by simp [Parts.tokens],
        List.forall_mem_cons.2 ⟨derived, partsDerived⟩, rfl⟩

theorem Sound.classDecl_succ (sound : Sound stop budget) {keyword : Token}
    {tokens rest : List Token} {tree : Stmt} (keywordKind : keyword.kind = .classWord)
    (enough : 16 * tokens.length + 1 ≤ budget + 1)
    (reads : Reads ((upTo stop).parseClass (budget + 1)) tokens tree rest) :
    ∃ read, tokens = read ++ rest ∧ Statement .declaration (keyword :: read) tree := by
  simp only [Reader.parseClass, reads_bind, reads_expect] at reads
  obtain ⟨name, _, ⟨nameKind, rfl⟩, superclass, _, readsHeader, opening, _, ⟨openingKind, rfl⟩,
    methods, _, readsMethods, closing, _, ⟨closingKind, rfl⟩, after⟩ := reads
  obtain ⟨rfl, rfl⟩ := reads_pure.1 after
  obtain ⟨header, rfl, inherits⟩ := derived_superclass readsHeader
  simp only [List.length_cons, List.length_append] at enough
  obtain ⟨parts, rfl, derived, rfl⟩ := sound.methods (by omega) readsMethods
  exact ⟨name :: header ++ opening :: parts.tokens ++ [closing], by simp,
    .classDecl keywordKind nameKind inherits openingKind derived closingKind⟩

theorem Sound.unbroken_succ (sound : Sound stop budget) (stopped : stop.kind = .eof)
    {tokens rest : List Token} {tree : Stmt} (enough : 16 * tokens.length + 12 ≤ budget + 1)
    (reads : Reads ((upTo stop).parseUnbroken (budget + 1)) tokens tree rest) :
    ∃ read, tokens = read ++ rest ∧ Statement .declaration read tree := by
  simp only [Reader.parseUnbroken] at reads
  rcases reads_ifSees.1 reads with ⟨keyword, tail, kind, rfl, readsClass⟩ | ⟨-, reads⟩
  · rw [reads_skipped] at readsClass
    rw [List.length_cons] at enough
    obtain ⟨read, rfl, derived⟩ := sound.classDecl kind (by omega) readsClass
    exact ⟨keyword :: read, rfl, derived⟩
  rcases reads_ifSees.1 reads with ⟨keyword, tail, kind, rfl, readsFunction⟩ | ⟨-, reads⟩
  · rw [reads_skipped] at readsFunction
    obtain ⟨declared, readsDeclared, rfl⟩ := reads_map.1 readsFunction
    rw [List.length_cons] at enough
    obtain ⟨read, rfl, derived⟩ := sound.definition (by omega) readsDeclared
    exact ⟨keyword :: read, rfl, .function kind derived⟩
  rcases reads_ifSees.1 reads with ⟨keyword, tail, kind, rfl, readsVar⟩ | ⟨-, reads⟩
  · rw [reads_skipped] at readsVar
    obtain ⟨read, rfl, derived⟩ := derived_parseVar stopped kind readsVar
    exact ⟨keyword :: read, rfl, .varDecl derived⟩
  · obtain ⟨ending, read, rfl, derived, -⟩ := sound.statement (by omega) reads
    exact ⟨read, rfl, .statement derived⟩

theorem Sound.declaration_succ (sound : Sound stop budget) (stopped : stop.kind = .eof)
    {tokens rest : List Token} {answer : Option Stmt}
    (enough : 16 * tokens.length + 13 ≤ budget + 1)
    (reads : Reads ((upTo stop).parseDeclaration (budget + 1)) tokens answer rest) :
    ∃ read tree, answer = some tree ∧ tokens = read ++ rest ∧
      Statement .declaration read tree := by
  have loud := parseUnbroken_loud stopped (show 16 * tokens.length + 12 ≤ budget by omega)
  simp only [Reader.parseDeclaration, reads_recover loud] at reads
  obtain ⟨tree, rfl, reads⟩ := reads
  obtain ⟨read, rfl, derived⟩ := sound.unbroken (by omega) reads
  exact ⟨read, tree, rfl, rfl, derived⟩

theorem Sound.block_succ (sound : Sound stop budget) {tokens rest : List Token}
    {trees : List Stmt} (enough : 16 * tokens.length + 14 ≤ budget + 1)
    (reads : Reads ((upTo stop).parseBlock (budget + 1)) tokens trees rest) :
    ∃ (parts : Parts Stmt) (closing : Token), tokens = parts.tokens ++ closing :: rest ∧
      (∀ part ∈ parts, Statement .declaration part.1 part.2) ∧ closing.kind = .rightBrace ∧
      parts.trees = trees := by
  simp only [Reader.parseBlock, reads_bind, reads_blockEnds] at reads
  obtain ⟨ended, _, ⟨-, rfl⟩, reads⟩ := reads
  cases ended with
  | true =>
      simp only [if_true, reads_bind, reads_expect] at reads
      obtain ⟨closing, _, ⟨kind, rfl⟩, after⟩ := reads
      obtain ⟨rfl, rfl⟩ := reads_pure.1 after
      exact ⟨[], closing, rfl, by simp, kind, rfl⟩
  | false =>
      simp only [Bool.false_eq_true, if_false, reads_bind] at reads
      obtain ⟨answer, _, readsFirst, statements, _, readsMore, after⟩ := reads
      obtain ⟨rfl, rfl⟩ := reads_pure.1 after
      obtain ⟨read, tree, rfl, rfl, derived⟩ := sound.declaration (by omega) readsFirst
      have positive := List.length_pos_iff.2 derived.ne_nil
      rw [List.length_append] at enough
      obtain ⟨parts, closing, rfl, partsDerived, kind, rfl⟩ := sound.block (by omega) readsMore
      exact ⟨(read, tree) :: parts, closing, by simp [Parts.tokens],
        List.forall_mem_cons.2 ⟨derived, partsDerived⟩, kind, rfl⟩

theorem forLoop_eq_loop (initial : Option Stmt) (condition increment : Option Expr)
    (body : Stmt) :
    forLoop initial condition increment body =
      Clauses.loop body ⟨initial, condition, increment⟩ := by
  cases initial <;> cases increment <;> rfl

theorem Sound.forLoop_succ (sound : Sound stop budget) (stopped : stop.kind = .eof)
    {keyword : Token} (kind : keyword.kind = .forWord) {tokens rest : List Token} {tree : Stmt}
    (enough : 16 * (keyword :: tokens).length + 11 ≤ budget + 1)
    (reads : Reads ((upTo stop).parseStmt (budget + 1)) (keyword :: tokens) tree rest) :
    ∃ ending header inner clauses body, tokens = header ++ inner ++ rest ∧
      Header header clauses ∧ Statement (.statement ending) inner body ∧
      tree = clauses.loop body ∧ (ending = .dangling → Clear [.elseWord] rest) := by
  simp only [Reader.parseStmt, reads_bind, reads_next] at reads
  obtain ⟨token, _, ⟨tokenEq, rfl⟩, after⟩ := reads
  rw [List.headD_cons] at tokenEq
  subst tokenEq
  simp only [kind, reads_skipped] at after
  simp only [reads_bind, reads_expect] at after
  obtain ⟨opening, _, ⟨openingKind, rfl⟩, initial, _, readsInitial, condition, _, readsCondition,
    semicolon, _, ⟨semicolonKind, rfl⟩, increment, _, readsIncrement, closing, _,
    ⟨closingKind, rfl⟩, body, _, readsBody, ended⟩ := after
  obtain ⟨rfl, rfl⟩ := reads_pure.1 ended
  obtain ⟨first, rfl, firstDerived⟩ := derived_parseInitial stopped readsInitial
  obtain ⟨second, rfl, secondDerived⟩ := derived_parseOptional stopped _ readsCondition
  obtain ⟨third, rfl, thirdDerived⟩ := derived_parseOptional stopped _ readsIncrement
  simp only [List.length_cons, List.length_append] at enough
  obtain ⟨ending, inner, rfl, derived, dangling⟩ := sound.statement (by omega) readsBody
  exact ⟨ending, opening :: first ++ second ++ semicolon :: third ++ [closing], inner, _, body,
    by simp, .mk openingKind firstDerived secondDerived semicolonKind thirdDerived closingKind,
    derived, forLoop_eq_loop initial condition increment body, dangling⟩

theorem Sound.statement_succ (sound : Sound stop budget) (stopped : stop.kind = .eof)
    {tokens rest : List Token} {tree : Stmt} (enough : 16 * tokens.length + 11 ≤ budget + 1)
    (reads : Reads ((upTo stop).parseStmt (budget + 1)) tokens tree rest) :
    ∃ ending read, tokens = read ++ rest ∧ Statement (.statement ending) read tree ∧
      (ending = .dangling → Clear [.elseWord] rest) := by
  have closed : Reads (expr <$> (upTo stop).parseClosed budget "';' after value") tokens tree rest →
      ∃ ending read, tokens = read ++ rest ∧ Statement (.statement ending) read tree ∧
        (ending = .dangling → Clear [.elseWord] rest) := by
    intro reads
    obtain ⟨value, readsValue, rfl⟩ := reads_map.1 reads
    obtain ⟨_, rfl, read, semicolon, rfl, derived, kind⟩ := derived_parseClosed stopped _ readsValue
    exact ⟨.closed, _, rfl, .expr derived kind, by simp⟩
  have whole := reads
  simp only [Reader.parseStmt, reads_bind, reads_next] at reads
  obtain ⟨token, _, ⟨tokenEq, rfl⟩, after⟩ := reads
  cases tokens with
  | nil =>
      rw [List.headD_nil] at tokenEq
      subst tokenEq
      simp only [stopped] at after
      exact closed after
  | cons first tail =>
      rw [List.headD_cons] at tokenEq
      subst tokenEq
      split at after
      next kind =>
        obtain ⟨ending, header, inner, clauses, body, rfl, headed, derived, rfl, dangling⟩ :=
          sound.forLoop_succ stopped kind enough whole
        exact ⟨ending, first :: header ++ inner, by simp, .forLoop kind headed derived, dangling⟩
      next kind =>
        rw [reads_skipped] at after
        simp only [reads_bind, reads_expect] at after
        obtain ⟨opening, _, ⟨openingKind, rfl⟩, condition, _, readsCondition, closing, _,
          ⟨closingKind, rfl⟩, thenBranch, _, readsThen, answer, _, accepted, ended⟩ := after
        obtain ⟨read, rfl, conditionDerived⟩ := (Expr.sound stopped budget).parse readsCondition
        simp only [List.length_cons, List.length_append] at enough
        obtain ⟨ending, inner, rfl, thenDerived, dangling⟩ :=
          sound.statement (by omega) readsThen
        rcases reads_accept?.1 accepted with
          ⟨separator, rfl, separatorKind, rfl⟩ | ⟨rfl, clear, rfl⟩
        · -- the branch before an `else` cannot end in an open `if`, which would have taken it
          have endingClosed : ending = .closed := by
            cases ending with
            | closed => rfl
            | dangling => exact absurd separatorKind (clear_cons.1 (dangling rfl))
          subst endingClosed
          simp only [reads_bind] at ended
          obtain ⟨elseBranch, _, readsElse, ended⟩ := ended
          obtain ⟨rfl, rfl⟩ := reads_pure.1 ended
          simp only [List.length_cons, List.length_append] at enough
          obtain ⟨ending, more, rfl, elseDerived, dangling⟩ :=
            sound.statement (by omega) readsElse
          exact ⟨ending, first :: opening :: read ++ closing :: inner ++ separator :: more,
            by simp, .ifElse kind openingKind conditionDerived closingKind thenDerived
              (by simpa using separatorKind) elseDerived, dangling⟩
        · obtain ⟨rfl, rfl⟩ := reads_pure.1 ended
          exact ⟨.dangling, first :: opening :: read ++ closing :: inner, by simp,
            .ifThen kind openingKind conditionDerived closingKind thenDerived, fun _ => clear⟩
      next kind =>
        rw [reads_skipped] at after
        obtain ⟨value, readsValue, rfl⟩ := reads_map.1 after
        obtain ⟨_, rfl, read, semicolon, rfl, derived, semicolonKind⟩ :=
          derived_parseClosed stopped _ readsValue
        exact ⟨.closed, first :: read ++ [semicolon], by simp, .print kind derived semicolonKind,
          by simp⟩
      next kind =>
        rw [reads_skipped] at after
        simp only [reads_bind, reads_expect] at after
        obtain ⟨value, _, readsValue, semicolon, _, ⟨semicolonKind, rfl⟩, ended⟩ := after
        obtain ⟨rfl, rfl⟩ := reads_pure.1 ended
        obtain ⟨read, rfl, derived⟩ := derived_parseOptional stopped _ readsValue
        exact ⟨.closed, first :: read ++ [semicolon], by simp,
          .returnStmt kind derived semicolonKind, by simp⟩
      next kind =>
        rw [reads_skipped] at after
        simp only [reads_bind, reads_expect] at after
        obtain ⟨opening, _, ⟨openingKind, rfl⟩, condition, _, readsCondition, closing, _,
          ⟨closingKind, rfl⟩, body, _, readsBody, ended⟩ := after
        obtain ⟨rfl, rfl⟩ := reads_pure.1 ended
        obtain ⟨read, rfl, conditionDerived⟩ := (Expr.sound stopped budget).parse readsCondition
        simp only [List.length_cons, List.length_append] at enough
        obtain ⟨ending, inner, rfl, derived, dangling⟩ := sound.statement (by omega) readsBody
        exact ⟨ending, first :: opening :: read ++ closing :: inner, by simp,
          .whileLoop kind openingKind conditionDerived closingKind derived, dangling⟩
      next kind =>
        rw [reads_skipped] at after
        obtain ⟨trees, readsBlock, rfl⟩ := reads_map.1 after
        rw [List.length_cons] at enough
        obtain ⟨parts, closing, rfl, derived, closingKind, rfl⟩ := sound.block (by omega) readsBlock
        exact ⟨.closed, first :: parts.tokens ++ [closing], by simp,
          .block kind derived closingKind, by simp⟩
      next => exact closed after

theorem sound (stopped : stop.kind = .eof) (budget : Nat) : Sound stop budget := by
  induction budget with
  | zero => constructor <;> intros <;> omega
  | succ budget ih =>
      exact {
        statement := ih.statement_succ stopped
        unbroken := ih.unbroken_succ stopped
        declaration := ih.declaration_succ stopped
        block := ih.block_succ
        definition := ih.definition_succ
        methods := ih.methods_succ
        classDecl := ih.classDecl_succ
      }

theorem sound_parseAll (stopped : stop.kind = .eof) (budget : Nat) {tokens rest : List Token}
    {trees : List Stmt} (enough : 16 * tokens.length + 14 ≤ budget)
    (reads : Reads ((upTo stop).parseAll budget) tokens trees rest) :
    rest = [] ∧ Derives tokens trees := by
  induction budget generalizing tokens trees with
  | zero => omega
  | succ budget ih =>
      simp only [Reader.parseAll, reads_bind, reads_atEnd] at reads
      obtain ⟨ended, _, ⟨empty, rfl⟩, after⟩ := reads
      cases ended with
      | true =>
          obtain ⟨rfl, rfl⟩ := reads_pure.1 (by simpa using after)
          rw [List.isEmpty_iff] at empty
          subst empty
          exact ⟨rfl, [], by simp, rfl, rfl⟩
      | false =>
          simp only [Bool.false_eq_true, if_false, reads_bind] at after
          obtain ⟨answer, _, readsFirst, statements, _, readsMore, ended⟩ := after
          obtain ⟨rfl, rfl⟩ := reads_pure.1 ended
          obtain ⟨read, tree, rfl, rfl, derived⟩ :=
            (sound stopped budget).declaration (by omega) readsFirst
          have positive := List.length_pos_iff.2 derived.ne_nil
          rw [List.length_append] at enough
          obtain ⟨rfl, parts, partsDerived, rfl, rfl⟩ := ih (by omega) readsMore
          exact ⟨rfl, (read, tree) :: parts, List.forall_mem_cons.2 ⟨derived, partsDerived⟩,
            by simp [Parts.tokens], rfl⟩

end Stmt

end Lox
