import Lox.Proofs.Grammar.Lenient
import Lox.Proofs.Syntax.Sound

/-!
What derives from the grammar without its limits is read with the tree and the notes of its
derivation.  The tokens behind a phrase must not continue it.
-/

namespace Lox

open Lox.Parser Lox.Grammar

namespace Grammar

def Grade.starts : Grade → List Kind
  | call | primary =>
      [.trueWord, .falseWord, .nilWord, .number, .string, .thisWord, .identifier, .leftParen,
        .superWord]
  | _ =>
      [.trueWord, .falseWord, .nilWord, .number, .string, .thisWord, .identifier, .leftParen,
        .superWord, .bang, .minus]

theorem Grade.starts_subset (grade : Grade) : Grade.call.starts ⊆ grade.starts := by
  cases grade <;> decide

theorem Grade.starts_of_operand? {grade tighter : Grade} (next : grade.operand? = some tighter) :
    tighter.starts ⊆ grade.starts := by
  cases grade <;> simp only [Grade.operand?, Option.some.injEq, reduceCtorEq] at next <;>
    subst next <;> exact List.Subset.refl _

theorem Expression.kind_of_word {word : Token} {tree : Expr}
    (derived : Expression .primary [word] tree) : word.kind ∈ Grade.primary.starts := by
  generalize tokensEq : [word] = tokens at derived
  cases derived with
  | operand next => simp [Grade.operand?] at next
  | operator next => simp [Grade.operand?] at next
  | trueWord kind | falseWord kind | nilWord kind | number kind | string kind | this kind
  | ident kind =>
    cases tokensEq
    rw [kind]
    decide
  | grouping | super => simp at tokensEq

namespace Lenient

variable {grade : Grade} {tokens : List Token} {tree : Expr} {notes : List Diagnostic}

theorem Expression.first (derived : Expression grade tokens tree notes) :
    ∃ first tail, tokens = first :: tail ∧ first.kind ∈ grade.starts := by
  induction derived with
  | assign _ _ _ left _ =>
      obtain ⟨first, tail, rfl, member⟩ := left
      exact ⟨first, _, rfl, member⟩
  | logicOr _ ih => exact ih
  | operand next _ ih =>
      obtain ⟨first, tail, rfl, member⟩ := ih
      exact ⟨first, tail, rfl, Grade.starts_of_operand? next member⟩
  | operator _ _ _ _ left =>
      obtain ⟨first, tail, rfl, member⟩ := left
      exact ⟨first, _, rfl, member⟩
  | @unary operator tokens operand notes kind =>
      refine ⟨operator, tokens, rfl, ?_⟩
      simp only [List.mem_cons, List.not_mem_nil, or_false] at kind
      rcases kind with kind | kind <;> rw [kind] <;> decide
  | call _ ih =>
      obtain ⟨first, tail, rfl, member⟩ := ih
      exact ⟨first, tail, rfl, Grade.starts_subset _ member⟩
  | primary _ ih => exact ih
  | invocation _ _ _ _ _ callee =>
      obtain ⟨first, tail, rfl, member⟩ := callee
      exact ⟨first, _, rfl, member⟩
  | member _ _ _ object =>
      obtain ⟨first, tail, rfl, member⟩ := object
      exact ⟨first, _, rfl, member⟩
  | word derived => exact ⟨_, _, rfl, derived.kind_of_word⟩
  | grouping kind => exact ⟨_, _, rfl, by rw [kind]; decide⟩
  | super kind => exact ⟨_, _, rfl, by rw [kind]; decide⟩

theorem Expression.clear (derived : Expression grade tokens tree notes) {kinds : List Kind}
    (disjoint : ∀ kind ∈ grade.starts, kind ∉ kinds) (rest : List Token) :
    Clear kinds (tokens ++ rest) := by
  obtain ⟨first, tail, rfl, member⟩ := derived.first
  exact clear_cons.2 (disjoint _ member)

end Lenient

end Grammar

namespace Expr

def continuers (levels : List Level) : List Kind :=
  levels.flatMap Level.operators ++ [.leftParen, .dot]

/-- The steps that read a derived expression in front of any tokens that do not go on
with it. -/
structure Complete (stop : Token) (grade : Grade) (tokens : List Token) (tree : Expr)
    (notes : List Diagnostic) : Prop where
  assignment : grade = .assignment → ∀ budget rest, 16 * tokens.length + 10 ≤ budget →
    Clear (.equal :: continuers levels) rest →
    Reports ((upTo stop).parseExpr budget) (tokens ++ rest) tree rest notes
  chain : ∀ {tighter}, grade.operand? = some tighter → ∀ budget rest,
    16 * tokens.length + grade.levels.length + 2 ≤ budget →
    Clear (continuers tighter.levels) rest →
    ∃ left, budget ≤ left + tokens.length ∧
      (upTo stop).parseLevel (budget + 1) grade.levels (tokens ++ rest) =
        noting notes ((upTo stop).parseOperands left ⟨grade.operators, grade.node⟩ tighter.levels
          tree rest)
  unary : grade = .unary → ∀ budget rest, 16 * tokens.length + 2 ≤ budget →
    Clear (continuers []) rest →
    Reports ((upTo stop).parseUnary budget) (tokens ++ rest) tree rest notes
  call : grade = .call → ∀ budget rest, 16 * tokens.length + 1 ≤ budget →
    ∃ left, budget ≤ left + tokens.length ∧
      ((upTo stop).parsePrimary budget >>= (upTo stop).parseCalls budget) (tokens ++ rest) =
        noting notes ((upTo stop).parseCalls left tree rest)
  primary : grade = .primary → ∀ budget rest, 16 * tokens.length + 1 ≤ budget →
    Reports ((upTo stop).parsePrimary budget) (tokens ++ rest) tree rest notes

variable {stop : Token} {tokens : List Token} {tree : Expr} {notes : List Diagnostic}

theorem reads_parseOperands {budget : Nat} {level : Level} {higher : List Level} {left : Expr}
    {rest : List Token} (enough : 1 ≤ budget) (clear : Clear level.operators rest) :
    Reads ((upTo stop).parseOperands budget level higher left) rest left rest := by
  cases budget with
  | zero => omega
  | succ budget =>
      rw [Reader.parseOperands, reads_bind]
      exact ⟨none, rest, reads_accept?.2 (.inr ⟨rfl, clear, rfl⟩), reads_pure.2 ⟨rfl, rfl⟩⟩

theorem reads_parseCalls {budget : Nat} {callee : Expr} {rest : List Token} (enough : 1 ≤ budget)
    (clear : Clear [.leftParen, .dot] rest) :
    Reads ((upTo stop).parseCalls budget callee) rest callee rest := by
  cases budget with
  | zero => omega
  | succ budget =>
      rw [Reader.parseCalls, reads_ifSees, reads_ifSees]
      refine .inr ⟨clear.mono (by simp), .inr ⟨clear.mono (by simp), reads_pure.2 ⟨rfl, rfl⟩⟩⟩

theorem reports_of_noting {step last : Parser Expr} {tokens rest : List Token}
    (parsed : step tokens = noting notes (last rest)) (reads : Reads last rest tree rest) :
    Reports step tokens tree rest notes := by
  rw [Reports, parsed, reads, noting, List.append_nil]

theorem Complete.level {grade tighter : Grade} (complete : Complete stop tighter tokens tree notes)
    (next : grade.operand? = some tighter) (budget : Nat) {rest : List Token}
    (enough : 16 * tokens.length + tighter.levels.length + 3 ≤ budget)
    (clear : Clear (continuers tighter.levels) rest) :
    Reports ((upTo stop).parseLevel budget tighter.levels) (tokens ++ rest) tree rest notes := by
  cases budget with
  | zero => omega
  | succ budget =>
      cases further : tighter.operand? with
      | none =>
          have innermost : tighter = .unary := by
            cases grade <;> simp only [Grade.operand?, Option.some.injEq, reduceCtorEq] at next <;>
              subst next <;> simp [Grade.operand?] at further ⊢
          subst innermost
          exact complete.unary rfl budget rest (by simp [Grade.levels] at enough; omega) clear
      | some third =>
          have levelsEq := Grade.levels_of_operand? further
          have tail : Clear (continuers third.levels) rest := by
            apply clear.mono
            rw [levelsEq]
            simp [continuers]
          obtain ⟨left, bound, parsed⟩ := complete.chain further budget rest (by omega) tail
          refine reports_of_noting parsed (reads_parseOperands (by omega) ?_)
          apply clear.mono
          rw [levelsEq]
          simp [continuers]

theorem Complete.ofChain {grade tighter : Grade} (next : grade.operand? = some tighter)
    (chain : ∀ budget rest, 16 * tokens.length + grade.levels.length + 2 ≤ budget →
      Clear (continuers tighter.levels) rest →
      ∃ left, budget ≤ left + tokens.length ∧
        (upTo stop).parseLevel (budget + 1) grade.levels (tokens ++ rest) =
          noting notes ((upTo stop).parseOperands left ⟨grade.operators, grade.node⟩
            tighter.levels tree rest)) :
    Complete stop grade tokens tree notes where
  assignment same := by subst same; simp [Grade.operand?] at next
  chain := by
    intro other otherNext
    rw [next] at otherNext
    cases otherNext
    exact chain
  unary same := by subst same; simp [Grade.operand?] at next
  call same := by subst same; simp [Grade.operand?] at next
  primary same := by subst same; simp [Grade.operand?] at next

theorem Complete.ofAssignment
    (assignment : ∀ budget rest, 16 * tokens.length + 10 ≤ budget →
      Clear (.equal :: continuers levels) rest →
      Reports ((upTo stop).parseExpr budget) (tokens ++ rest) tree rest notes) :
    Complete stop .assignment tokens tree notes where
  assignment _ := assignment
  chain := by simp [Grade.operand?]
  unary := by simp
  call := by simp
  primary := by simp

theorem Complete.ofUnary
    (unary : ∀ budget rest, 16 * tokens.length + 2 ≤ budget → Clear (continuers []) rest →
      Reports ((upTo stop).parseUnary budget) (tokens ++ rest) tree rest notes) :
    Complete stop .unary tokens tree notes where
  assignment := by simp
  chain := by simp [Grade.operand?]
  unary _ := unary
  call := by simp
  primary := by simp

theorem Complete.ofCall
    (call : ∀ budget rest, 16 * tokens.length + 1 ≤ budget →
      ∃ left, budget ≤ left + tokens.length ∧
        ((upTo stop).parsePrimary budget >>= (upTo stop).parseCalls budget) (tokens ++ rest) =
          noting notes ((upTo stop).parseCalls left tree rest)) :
    Complete stop .call tokens tree notes where
  assignment := by simp
  chain := by simp [Grade.operand?]
  unary := by simp
  call _ := call
  primary := by simp

theorem Complete.ofPrimary
    (primary : ∀ budget rest, 16 * tokens.length + 1 ≤ budget →
      Reports ((upTo stop).parsePrimary budget) (tokens ++ rest) tree rest notes) :
    Complete stop .primary tokens tree notes where
  assignment := by simp
  chain := by simp [Grade.operand?]
  unary := by simp
  call := by simp
  primary _ := primary

theorem Complete.operand {grade tighter : Grade}
    (complete : Complete stop tighter tokens tree notes)
    (next : grade.operand? = some tighter) : Complete stop grade tokens tree notes := by
  apply Complete.ofChain next
  intro budget rest enough clear
  rw [Grade.levels_of_operand? next, List.length_cons] at enough
  have readsLeft := complete.level next budget (by omega) clear
  refine ⟨budget, by omega, ?_⟩
  rw [Grade.levels_of_operand? next, Reader.parseLevel, readsLeft.bind_eq]

theorem operators_clear {grade tighter : Grade} (next : grade.operand? = some tighter)
    {kind : Kind} (member : kind ∈ grade.operators) : kind ∉ continuers tighter.levels := by
  revert kind
  cases grade <;> simp only [Grade.operand?, Option.some.injEq, reduceCtorEq] at next <;>
    subst next <;> decide

theorem Complete.operator {grade tighter : Grade} {left right : List Token} {operator : Token}
    {leftTree rightTree : Expr} {more : List Diagnostic}
    (leftComplete : Complete stop grade left leftTree notes)
    (rightComplete : Complete stop tighter right rightTree more)
    (next : grade.operand? = some tighter) (member : operator.kind ∈ grade.operators) :
    Complete stop grade (left ++ operator :: right) (grade.node leftTree operator rightTree)
      (notes ++ more) := by
  apply Complete.ofChain next
  intro budget rest enough clear
  simp only [List.length_append, List.length_cons] at enough
  have levelsEq := congrArg List.length (Grade.levels_of_operand? next)
  rw [List.length_cons] at levelsEq
  obtain ⟨room, bound, leftEq⟩ := leftComplete.chain next budget (operator :: (right ++ rest))
    (by omega) (clear_cons.2 (operators_clear next member))
  obtain ⟨room, rfl⟩ : ∃ fewer, room = fewer + 1 := ⟨room - 1, by omega⟩
  have accepted : Reads ((upTo stop).accept? grade.operators) (operator :: (right ++ rest))
      (some operator) (right ++ rest) := reads_accept?.2 (.inl ⟨operator, rfl, member, rfl⟩)
  have readsRight := rightComplete.level next room (by omega) clear
  refine ⟨room, by simp only [List.length_append, List.length_cons]; omega, ?_⟩
  rw [List.append_assoc, List.cons_append, leftEq, Reader.parseOperands, bind_of_reads accepted]
  dsimp only
  rw [readsRight.bind_eq, noting_noting]

theorem Complete.unaryOf (complete : Complete stop .call tokens tree notes)
    (derived : Lenient.Expression .call tokens tree notes) :
    Complete stop .unary tokens tree notes := by
  apply Complete.ofUnary
  intro budget rest enough clear
  cases budget with
  | zero => omega
  | succ budget =>
      have unseen : Reads ((upTo stop).accept? [.bang, .minus]) (tokens ++ rest) none
          (tokens ++ rest) := reads_accept?.2 (.inr ⟨rfl, derived.clear (by decide) rest, rfl⟩)
      obtain ⟨room, bound, callsEq⟩ := complete.call rfl budget rest (by omega)
      rw [Reader.parseUnary]
      exact unseen.andThen (reports_of_noting callsEq (reads_parseCalls (by omega) clear))

theorem Complete.callOf (complete : Complete stop .primary tokens tree notes) :
    Complete stop .call tokens tree notes := by
  apply Complete.ofCall
  intro budget rest enough
  exact ⟨budget, by omega, (complete.primary rfl budget rest enough).bind_eq⟩

theorem Complete.reads_logicOr (complete : Complete stop .logicOr tokens tree notes) (budget : Nat)
    (rest : List Token) (enough : 16 * tokens.length + 9 ≤ budget)
    (clear : Clear (continuers levels) rest) :
    Reports ((upTo stop).parseLevel budget levels) (tokens ++ rest) tree rest notes := by
  obtain ⟨budget, rfl⟩ : ∃ fewer, budget = fewer + 1 := ⟨budget - 1, by omega⟩
  obtain ⟨room, bound, levelEq⟩ := complete.chain rfl budget rest
    (by simp only [Grade.levels, levels, List.length_cons, List.length_nil]; omega)
    (clear.mono (by decide))
  exact reports_of_noting levelEq (reads_parseOperands (by omega) (clear.mono (by decide)))

theorem Complete.assignmentOf (complete : Complete stop .logicOr tokens tree notes) :
    Complete stop .assignment tokens tree notes := by
  apply Complete.ofAssignment
  intro budget rest enough clear
  cases budget with
  | zero => omega
  | succ budget =>
      have readsTarget := complete.reads_logicOr budget rest (by omega) (clear.mono (by simp))
      have unseen : Reads ((upTo stop).accept? [.equal]) rest none rest :=
        reads_accept?.2 (.inr ⟨rfl, clear.mono (by simp), rfl⟩)
      rw [Reader.parseExpr]
      refine readsTarget.andThen ?_
      rw [reads_bind]
      exact ⟨none, rest, unseen, reads_pure.2 ⟨rfl, rfl⟩⟩

/-- The value behind the equals sign is read after its target, whatever the target is. -/
theorem Complete.assign {left right : List Token} {target value : Expr} {equals : Token}
    {more : List Diagnostic} (leftComplete : Complete stop .logicOr left target notes)
    (kind : equals.kind = .equal) (complete : Complete stop .assignment right value more) :
    Complete stop .assignment (left ++ equals :: right) (target.assigned value)
      (notes ++ (more ++ Lenient.targetNotes equals target)) := by
  apply Complete.ofAssignment
  intro budget rest enough clear
  simp only [List.length_append, List.length_cons] at enough
  obtain ⟨budget, rfl⟩ : ∃ fewer, budget = fewer + 1 := ⟨budget - 1, by omega⟩
  have readsTarget := leftComplete.reads_logicOr budget (equals :: (right ++ rest)) (by omega)
    (clear_cons.2 (by rw [kind]; decide))
  have accepted : Reads ((upTo stop).accept? [.equal]) (equals :: (right ++ rest)) (some equals)
      (right ++ rest) := reads_accept?.2 (.inl ⟨equals, rfl, by simp [kind], rfl⟩)
  have readsValue := complete.assignment rfl budget rest (by omega) clear
  rw [List.append_assoc, List.cons_append, Reader.parseExpr]
  refine readsTarget.bind (accepted.andThen (readsValue.bind ?_))
  cases target <;> rfl

theorem reports_parseArguments {arguments : List (Noted Expr)}
    (derived : ∀ argument ∈ arguments,
      Lenient.Expression .assignment argument.tokens argument.tree argument.notes)
    (complete : ∀ argument ∈ arguments,
      Complete stop .assignment argument.tokens argument.tree argument.notes)
    (nonempty : arguments ≠ []) (separated : Separated (arguments.map Noted.tokens) tokens)
    {budget count : Nat} {rest : List Token} (enough : 16 * tokens.length + 11 ≤ budget)
    (clear : Clear (.comma :: .equal :: continuers levels) rest) :
    Reports ((upTo stop).parseArguments budget count) (tokens ++ rest)
      (arguments.map Noted.tree) rest (Noted.elements .tooManyArguments count arguments) := by
  induction arguments generalizing tokens budget count with
  | nil => exact absurd rfl nonempty
  | cons argument others ih =>
      obtain ⟨budget, rfl⟩ : ∃ fewer, budget = fewer + 1 := ⟨budget - 1, by omega⟩
      obtain ⟨argumentDerived, othersDerived⟩ := List.forall_mem_cons.1 derived
      obtain ⟨argumentComplete, othersComplete⟩ := List.forall_mem_cons.1 complete
      obtain ⟨first, tail, tokensEq, -⟩ := argumentDerived.first
      have limited (rest : List Token) : Reports
          ((upTo stop).limit count .tooManyArguments) (argument.tokens ++ rest) ()
          (argument.tokens ++ rest) (Noted.limit .tooManyArguments count argument) := by
        rw [Noted.limit, tokensEq]
        exact reports_limit
      rw [Reader.parseArguments, Noted.elements, List.append_assoc]
      cases others with
      | nil =>
          cases separated
          have readsArgument := argumentComplete.assignment rfl budget rest (by omega)
            (clear.mono (by simp))
          have unseen : Reads ((upTo stop).accept? [.comma]) rest none rest :=
            reads_accept?.2 (.inr ⟨rfl, clear.mono (by simp), rfl⟩)
          exact (limited rest).bind (readsArgument.bind (unseen.andThen rfl))
      | cons next others =>
          cases separated with
          | @more _ _ comma _ list commaKind separated =>
              simp only [List.length_append, List.length_cons] at enough
              have readsArgument := argumentComplete.assignment rfl budget
                (comma :: (list ++ rest)) (by omega) (clear_cons.2 (by rw [commaKind]; decide))
              have accepted : Reads ((upTo stop).accept? [.comma]) (comma :: (list ++ rest))
                  (some comma) (list ++ rest) :=
                reads_accept?.2 (.inl ⟨comma, rfl, by simp [commaKind], rfl⟩)
              have readsMore : Reports ((upTo stop).parseArguments budget (count + 1))
                  (list ++ rest) ((next :: others).map Noted.tree) rest
                  (Noted.elements .tooManyArguments (count + 1) (next :: others)) :=
                ih othersDerived othersComplete (by simp) separated (by omega)
              rw [List.append_assoc, List.cons_append]
              refine (limited _).bind (readsArgument.bind (accepted.andThen ?_))
              exact readsMore.andThen (reads_pure.2 ⟨rfl, rfl⟩)

theorem reports_argumentList {arguments : List (Noted Expr)}
    (derived : ∀ argument ∈ arguments,
      Lenient.Expression .assignment argument.tokens argument.tree argument.notes)
    (complete : ∀ argument ∈ arguments,
      Complete stop .assignment argument.tokens argument.tree argument.notes)
    (separated : Separated (arguments.map Noted.tokens) tokens) {budget : Nat} {closing : Token}
    (enough : 16 * tokens.length + 11 ≤ budget) (closingKind : closing.kind = .rightParen)
    (rest : List Token) :
    Reports ((upTo stop).unlessSees .rightParen [] ((upTo stop).parseArguments budget 0))
      (tokens ++ closing :: rest) (arguments.map Noted.tree) (closing :: rest)
      (Noted.elements .tooManyArguments 0 arguments) := by
  cases arguments with
  | nil =>
      cases separated
      exact (reads_unlessSees.2 (.inl ⟨closing, rest, closingKind, rfl, rfl, rfl⟩)).reports
  | cons argument others =>
      have clear : Clear [.rightParen] (tokens ++ closing :: rest) := by
        have first := (List.forall_mem_cons.1 derived).1
        cases others with
        | nil =>
            cases separated
            exact first.clear (by decide) _
        | cons next others =>
            cases separated
            simpa using first.clear (by decide) _
      exact .unlessSees clear (reports_parseArguments derived complete (by simp) separated enough
        (clear_cons.2 (by rw [closingKind]; decide)))

theorem Complete.invocation {callee : List Token} {opening closing : Token}
    {arguments : List (Noted Expr)} (complete : Complete stop .call callee tree notes)
    (openingKind : opening.kind = .leftParen)
    (derived : ∀ argument ∈ arguments,
      Lenient.Expression .assignment argument.tokens argument.tree argument.notes)
    (argumentsComplete : ∀ argument ∈ arguments,
      Complete stop .assignment argument.tokens argument.tree argument.notes)
    (separated : Separated (arguments.map Noted.tokens) tokens)
    (closingKind : closing.kind = .rightParen) :
    Complete stop .call (callee ++ opening :: tokens ++ [closing])
      (.call tree closing (arguments.map Noted.tree))
      (notes ++ Noted.elements .tooManyArguments 0 arguments) := by
  apply Complete.ofCall
  intro budget rest enough
  simp only [List.length_append, List.length_cons, List.length_nil] at enough
  obtain ⟨room, bound, calleeEq⟩ :=
    complete.call rfl budget (opening :: (tokens ++ closing :: rest)) (by omega)
  obtain ⟨room, rfl⟩ : ∃ fewer, room = fewer + 1 := ⟨room - 1, by omega⟩
  have seen : Reads ((upTo stop).sees .leftParen) (opening :: (tokens ++ closing :: rest)) true
      (opening :: (tokens ++ closing :: rest)) := by
    simp [Reads, upTo, openingKind]
  have skipped : Reads (upTo stop).skip (opening :: (tokens ++ closing :: rest)) ()
      (tokens ++ closing :: rest) := reads_skip.2 rfl
  have readsList := reports_argumentList derived argumentsComplete separated
    (by omega : 16 * tokens.length + 11 ≤ room) closingKind rest
  have closed : Reads ((upTo stop).expect .rightParen "')' after arguments") (closing :: rest)
      closing rest := reads_expect.2 ⟨closingKind, rfl⟩
  refine ⟨room, by simp only [List.length_append, List.length_cons, List.length_nil]; omega, ?_⟩
  have split : callee ++ opening :: tokens ++ [closing] ++ rest =
      callee ++ opening :: (tokens ++ closing :: rest) := by simp
  rw [split, calleeEq, Reader.parseCalls, bind_of_reads seen, if_pos rfl, bind_of_reads skipped,
    readsList.bind_eq, bind_of_reads closed, noting_noting]

theorem Complete.member {object : List Token} {dot name : Token}
    (complete : Complete stop .call object tree notes) (dotKind : dot.kind = .dot)
    (nameKind : name.kind = .identifier) :
    Complete stop .call (object ++ [dot, name]) (.member tree name) notes := by
  apply Complete.ofCall
  intro budget rest enough
  simp only [List.length_append, List.length_cons, List.length_nil] at enough
  obtain ⟨room, bound, objectEq⟩ := complete.call rfl budget (dot :: name :: rest) (by omega)
  obtain ⟨room, rfl⟩ : ∃ fewer, room = fewer + 1 := ⟨room - 1, by omega⟩
  have unseen : Reads ((upTo stop).sees .leftParen) (dot :: name :: rest) false
      (dot :: name :: rest) := by
    simp [Reads, upTo, dotKind]
  have seen : Reads ((upTo stop).sees .dot) (dot :: name :: rest) true (dot :: name :: rest) := by
    simp [Reads, upTo, dotKind]
  have skipped : Reads (upTo stop).skip (dot :: name :: rest) () (name :: rest) := reads_skip.2 rfl
  have named : Reads ((upTo stop).expect .identifier "property name after '.'") (name :: rest) name
      rest := reads_expect.2 ⟨nameKind, rfl⟩
  refine ⟨room, by simp only [List.length_append, List.length_cons, List.length_nil]; omega, ?_⟩
  have split : object ++ [dot, name] ++ rest = object ++ dot :: name :: rest := by simp
  rw [split, objectEq, Reader.parseCalls, bind_of_reads unseen, if_neg Bool.false_ne_true,
    bind_of_reads seen, if_pos rfl, bind_of_reads skipped, bind_of_reads named]

theorem Complete.grouping {opening closing : Token}
    (openingKind : opening.kind = .leftParen)
    (complete : Complete stop .assignment tokens tree notes)
    (closingKind : closing.kind = .rightParen) :
    Complete stop .primary (opening :: tokens ++ [closing]) (.grouping tree) notes := by
  apply Complete.ofPrimary
  intro budget rest enough
  simp only [List.cons_append, List.length_append, List.length_cons, List.length_nil] at enough
  obtain ⟨budget, rfl⟩ : ∃ fewer, budget = fewer + 1 := ⟨budget - 1, by omega⟩
  have readsInner := complete.assignment rfl budget (closing :: rest) (by omega)
    (clear_cons.2 (by rw [closingKind]; decide))
  have split : opening :: tokens ++ [closing] ++ rest =
      opening :: (tokens ++ closing :: rest) := by simp
  rw [split, Reader.parsePrimary]
  refine (reads_next.2 ⟨rfl, rfl⟩).andThen ?_
  simp only [List.headD_cons, openingKind]
  refine .skipped (readsInner.andThen ?_)
  rw [reads_bind]
  exact ⟨closing, rest, reads_expect.2 ⟨closingKind, rfl⟩, reads_pure.2 ⟨rfl, rfl⟩⟩

theorem Complete.super {keyword dot method : Token} (kind : keyword.kind = .superWord)
    (dotKind : dot.kind = .dot) (methodKind : method.kind = .identifier) :
    Complete stop .primary [keyword, dot, method] (.super keyword method) [] := by
  apply Complete.ofPrimary
  intro budget rest enough
  obtain ⟨budget, rfl⟩ : ∃ fewer, budget = fewer + 1 := ⟨budget - 1, by omega⟩
  refine Reads.reports ?_
  simp only [Reader.parsePrimary, reads_bind, reads_next]
  refine ⟨keyword, _, ⟨rfl, rfl⟩, ?_⟩
  simp only [kind, List.cons_append, List.nil_append, reads_skipped]
  simp only [reads_bind, reads_expect]
  exact ⟨dot, _, ⟨dotKind, rfl⟩, method, _, ⟨methodKind, rfl⟩, reads_pure.2 ⟨rfl, rfl⟩⟩

theorem Complete.word {word : Token} (derived : Expression .primary [word] tree) :
    Complete stop .primary [word] tree [] := by
  apply Complete.ofPrimary
  intro budget rest enough
  obtain ⟨budget, rfl⟩ : ∃ fewer, budget = fewer + 1 := ⟨budget - 1, by omega⟩
  refine Reads.reports ?_
  simp only [Reader.parsePrimary, reads_bind, reads_next]
  refine ⟨word, _, ⟨rfl, rfl⟩, ?_⟩
  generalize tokensEq : [word] = tokens at derived
  cases derived with
  | operand next => simp [Grade.operand?] at next
  | operator next => simp [Grade.operand?] at next
  | trueWord kind | falseWord kind | nilWord kind | number kind | string kind | this kind
  | ident kind =>
    cases tokensEq
    simp [kind]
  | grouping | super => simp at tokensEq

theorem complete {grade : Grade} (derived : Lenient.Expression grade tokens tree notes) :
    Complete stop grade tokens tree notes := by
  induction derived with
  | assign _ kind _ leftIh ih => exact leftIh.assign kind ih
  | logicOr _ ih => exact ih.assignmentOf
  | operand next _ ih => exact ih.operand next
  | operator next _ member _ leftIh rightIh => exact leftIh.operator rightIh next member
  | @unary operator tokens operand notes member _ ih =>
      apply Complete.ofUnary
      intro budget rest enough clear
      simp only [List.length_cons] at enough
      obtain ⟨budget, rfl⟩ : ∃ fewer, budget = fewer + 1 := ⟨budget - 1, by omega⟩
      have readsOperand := ih.unary rfl budget rest (by omega) clear
      have accepted : Reads ((upTo stop).accept? [.bang, .minus])
          (operator :: (tokens ++ rest)) (some operator) (tokens ++ rest) :=
        reads_accept?.2 (.inl ⟨operator, rfl, member, rfl⟩)
      rw [List.cons_append, Reader.parseUnary]
      exact accepted.andThen (readsOperand.andThen (reads_pure.2 ⟨rfl, rfl⟩))
  | call derived ih => exact ih.unaryOf derived
  | primary _ ih => exact ih.callOf
  | invocation _ openingKind derived separated closingKind ih argumentsIh =>
      exact ih.invocation openingKind derived argumentsIh separated closingKind
  | member _ dotKind nameKind ih => exact ih.member dotKind nameKind
  | word derived => exact .word derived
  | grouping openingKind _ closingKind ih => exact .grouping openingKind ih closingKind
  | super kind dotKind methodKind => exact .super kind dotKind methodKind

theorem reports_parse (derived : Lenient.Expression .assignment tokens tree notes) (budget : Nat)
    (rest : List Token) (enough : 16 * tokens.length + 10 ≤ budget)
    (clear : Clear (.equal :: continuers levels) rest) :
    Reports ((upTo stop).parseExpr budget) (tokens ++ rest) tree rest notes :=
  (complete derived).assignment rfl budget rest enough clear

end Expr

end Lox
