import Lox.Proofs.Syntax.Bounds
import Lox.Proofs.Syntax.Complete

/-!
Programs are read without a note exactly when their tokens derive from the grammar,
and then as the one tree that derives.
-/

namespace Lox

open Lox.Parser Lox.Grammar

namespace Grammar.Lenient

variable {phrase : Phrase} {tokens : List Token} {tree : Stmt} {notes : List Diagnostic}

theorem Variable.first (derived : Variable tokens tree notes) :
    ∃ keyword tail, tokens = keyword :: tail ∧ keyword.kind = .varWord := by
  cases derived with
  | plain kind => exact ⟨_, _, rfl, kind⟩
  | initialized kind => exact ⟨_, _, rfl, kind⟩

theorem Statement.ne_nil (derived : Statement phrase tokens tree notes) : tokens ≠ [] := by
  induction derived with
  | varDecl derived =>
      obtain ⟨keyword, tail, rfl, -⟩ := derived.first
      simp
  | statement _ ih => exact ih
  | _ => simp

theorem Statement.clear (derived : Statement phrase tokens tree notes) (rest : List Token) :
    Clear [.rightBrace, .elseWord] (tokens ++ rest) := by
  induction derived with
  | varDecl derived =>
      obtain ⟨keyword, tail, rfl, kind⟩ := derived.first
      exact clear_cons.2 (by rw [kind]; decide)
  | statement _ ih => exact ih
  | expr derived _ =>
      rw [List.append_assoc]
      exact derived.clear (by decide) _
  | classDecl kind | function kind | definition kind | print kind | returnStmt kind | block kind
  | whileLoop kind | forLoop kind | ifThen kind | ifElse kind =>
      exact clear_cons.2 (by rw [kind]; decide)

theorem Statement.goesOn (derived : Statement phrase tokens tree notes) (rest : List Token) :
    (tokens ++ rest).head?.all (·.kind = .rightBrace) = false := by
  have first := derived.clear rest
  obtain ⟨token, tail, rfl⟩ := List.exists_cons_of_ne_nil derived.ne_nil
  rw [List.cons_append, clear_cons, List.mem_cons, not_or] at first
  simp [first.1]

theorem Statement.clear_keywords {ending : Ending}
    (derived : Statement phrase tokens tree notes) (same : phrase = .statement ending)
    (rest : List Token) : Clear [.classWord, .funWord, .varWord] (tokens ++ rest) := by
  cases derived with
  | classDecl | function | varDecl | statement | definition => simp at same
  | expr derived _ =>
      rw [List.append_assoc]
      exact derived.clear (by decide) _
  | print kind | returnStmt kind | block kind | whileLoop kind | forLoop kind | ifThen kind
  | ifElse kind => exact clear_cons.2 (by rw [kind]; decide)

theorem clear_else {parts : List (Noted Stmt)}
    (derived : ∀ part ∈ parts, Statement .declaration part.tokens part.tree part.notes)
    {rest : List Token} (clear : Clear [.elseWord] rest) :
    Clear [.elseWord] (parts.flatMap Noted.tokens ++ rest) := by
  cases parts with
  | nil => exact clear
  | cons part others =>
      have first := (List.forall_mem_cons.1 derived).1.clear (others.flatMap Noted.tokens ++ rest)
      rw [List.flatMap_cons, List.append_assoc]
      exact first.mono (by simp)

end Grammar.Lenient

theorem Grammar.Statement.clear {phrase : Phrase} {tokens : List Token} {tree : Stmt}
    (derived : Statement phrase tokens tree) (rest : List Token) :
    Clear [.rightBrace, .elseWord] (tokens ++ rest) :=
  derived.lenient.clear rest

namespace Stmt

variable {stop : Token} {budget : Nat} {tokens rest : List Token} {notes : List Diagnostic}

theorem reports_parseClosed {value : Expr} {semicolon : Token}
    (derived : Lenient.Expression .assignment tokens value notes)
    (kind : semicolon.kind = .semicolon) (what : String)
    (enough : 16 * tokens.length + 10 ≤ budget) :
    Reports ((upTo stop).parseClosed budget what) (tokens ++ semicolon :: rest) value rest
      notes := by
  have readsValue : Reports ((upTo stop).parseExpr budget) (tokens ++ semicolon :: rest) value
      (semicolon :: rest) notes :=
    Expr.reports_parse derived budget _ enough (clear_cons.2 (by rw [kind]; decide))
  rw [Reader.parseClosed]
  refine readsValue.andThen ?_
  rw [reads_bind]
  exact ⟨semicolon, rest, reads_expect.2 ⟨kind, rfl⟩, reads_pure.2 ⟨rfl, rfl⟩⟩

theorem reports_parseOptional {value : Option Expr} {closing : Token}
    (derived : Lenient.Optional tokens value notes)
    (kind : closing.kind ∈ [.semicolon, .rightParen])
    (enough : 16 * tokens.length + 10 ≤ budget) :
    Reports ((upTo stop).parseOptional budget closing.kind) (tokens ++ closing :: rest) value
      (closing :: rest) notes := by
  rw [Reader.parseOptional]
  cases derived with
  | absent => exact (reads_unlessSees.2 (.inl ⟨closing, rest, rfl, rfl, rfl, rfl⟩)).reports
  | present derived =>
      have begun : Clear [.semicolon, .rightParen] (tokens ++ closing :: rest) :=
        derived.clear (by decide) _
      have unseen : Clear [closing.kind] (tokens ++ closing :: rest) :=
        begun.mono (by simpa using kind)
      have behind : Clear (.equal :: Expr.continuers levels) (closing :: rest) := by
        simp only [List.mem_cons, List.not_mem_nil, or_false] at kind
        rcases kind with kind | kind <;> exact clear_cons.2 (by rw [kind]; decide)
      exact .unlessSees unseen ((Expr.reports_parse derived budget _ enough behind).map some)

theorem reports_parseVar {keyword : Token} {tree : Stmt}
    (derived : Lenient.Variable (keyword :: tokens) tree notes)
    (enough : 16 * tokens.length + 10 ≤ budget) :
    Reports ((upTo stop).parseVar budget) (tokens ++ rest) tree rest notes := by
  rw [Reader.parseVar]
  cases derived with
  | @plain _ name semicolon _ nameKind semicolonKind =>
      have unseen : Clear [.equal] (semicolon :: rest) :=
        clear_cons.2 (by rw [semicolonKind]; decide)
      refine Reads.reports ?_
      simp only [reads_bind, reads_expect]
      exact ⟨name, semicolon :: rest, ⟨nameKind, rfl⟩, none, semicolon :: rest,
        reads_behind?.2 (.inr ⟨rfl, unseen, rfl⟩), semicolon, rest, ⟨semicolonKind, rfl⟩,
        reads_pure.2 ⟨rfl, rfl⟩⟩
  | @initialized _ name equals semicolon list value _ _ nameKind equalsKind derived semicolonKind =>
      simp only [List.append_eq, List.length_append, List.length_cons] at enough
      have readsValue : Reports ((upTo stop).parseExpr budget) (list ++ semicolon :: rest) value
          (semicolon :: rest) notes :=
        Expr.reports_parse derived budget _ (by omega)
          (clear_cons.2 (by rw [semicolonKind]; decide))
      have readsInitial : Reports ((upTo stop).behind? [.equal] ((upTo stop).parseExpr budget))
          (equals :: (list ++ semicolon :: rest)) (some value) (semicolon :: rest) notes :=
        readsValue.behind? (by simp [equalsKind])
      have split : (name :: equals :: list).append [semicolon] ++ rest =
          name :: equals :: (list ++ semicolon :: rest) := by simp
      rw [split]
      refine (reads_expect.2 ⟨nameKind, rfl⟩).andThen (readsInitial.andThen ?_)
      rw [reads_bind]
      exact ⟨semicolon, rest, reads_expect.2 ⟨semicolonKind, rfl⟩, reads_pure.2 ⟨rfl, rfl⟩⟩

theorem reports_parseInitial {tree : Option Stmt} (derived : Lenient.Initial tokens tree notes)
    (enough : 16 * tokens.length + 10 ≤ budget) :
    Reports ((upTo stop).parseInitial budget) (tokens ++ rest) tree rest notes := by
  rw [Reader.parseInitial]
  cases derived with
  | absent kind =>
      refine Reads.reports ?_
      rw [reads_ifSees]
      exact .inl ⟨_, _, kind, rfl, by simp⟩
  | @varDecl _ tree _ derived =>
      obtain ⟨keyword, tail, rfl, kind⟩ := derived.first
      rw [List.length_cons] at enough
      refine .ifUnseen (clear_cons.2 (by rw [kind]; decide)) (.ifSeen kind (.skipped ?_))
      exact (reports_parseVar derived (by omega)).map some
  | @expr list semicolon value _ derived kind =>
      have begun : Clear [.semicolon, .varWord] (list ++ semicolon :: rest) :=
        derived.clear (by decide) _
      rw [List.length_append] at enough
      rw [List.append_assoc]
      refine .ifUnseen (begun.mono (by simp)) (.ifUnseen (begun.mono (by simp)) ?_)
      exact (reports_parseClosed derived kind _ (by omega)).andThen (reads_pure.2 ⟨rfl, rfl⟩)

theorem reports_parseParams {params list : List Token} (nonempty : params ≠ [])
    (identifiers : ∀ param ∈ params, param.kind = .identifier)
    (separated : Separated (params.map fun param => [param]) list) {count : Nat}
    (enough : list.length + 1 ≤ budget) (clear : Clear [.comma] rest) :
    Reports ((upTo stop).parseParams budget count) (list ++ rest) params rest
      (Noted.elements .tooManyParameters count (params.map Noted.param)) := by
  induction params generalizing list budget count with
  | nil => exact absurd rfl nonempty
  | cons param others ih =>
      obtain ⟨budget, rfl⟩ : ∃ fewer, budget = fewer + 1 := ⟨budget - 1, by omega⟩
      obtain ⟨kind, othersKind⟩ := List.forall_mem_cons.1 identifiers
      have limited (rest : List Token) : Reports ((upTo stop).limit count .tooManyParameters)
          (param :: rest) () (param :: rest)
          (Noted.limit .tooManyParameters count (Noted.param param)) :=
        reports_limit
      rw [Reader.parseParams, List.map_cons, Noted.elements]
      change Reports _ _ _ _ (_ ++ [] ++ _)
      rw [List.append_nil]
      cases others with
      | nil =>
          cases separated
          have unseen : Reads ((upTo stop).accept? [.comma]) rest none rest :=
            reads_accept?.2 (.inr ⟨rfl, clear, rfl⟩)
          exact (limited rest).bind ((reads_expect.2 ⟨kind, rfl⟩).andThen (unseen.andThen rfl))
      | cons next others =>
          cases separated with
          | @more _ _ comma _ list commaKind separated =>
              simp only [List.length_append, List.length_cons] at enough
              have readsMore : Reports ((upTo stop).parseParams budget (count + 1)) (list ++ rest)
                  (next :: others) rest
                  (Noted.elements .tooManyParameters (count + 1)
                    ((next :: others).map Noted.param)) :=
                ih (by simp) othersKind separated (by omega)
              have accepted : Reads ((upTo stop).accept? [.comma]) (comma :: (list ++ rest))
                  (some comma) (list ++ rest) :=
                reads_accept?.2 (.inl ⟨comma, rfl, by simp [commaKind], rfl⟩)
              refine (limited _).bind ((reads_expect.2 ⟨kind, rfl⟩).andThen (accepted.andThen ?_))
              exact readsMore.andThen (reads_pure.2 ⟨rfl, rfl⟩)

theorem reports_paramList {params list : List Token} {closing : Token}
    (identifiers : ∀ param ∈ params, param.kind = .identifier)
    (separated : Separated (params.map fun param => [param]) list)
    (enough : list.length + 1 ≤ budget) (closingKind : closing.kind = .rightParen) :
    Reports ((upTo stop).unlessSees .rightParen [] ((upTo stop).parseParams budget 0))
      (list ++ closing :: rest) params (closing :: rest)
      (Noted.elements .tooManyParameters 0 (params.map Noted.param)) := by
  cases params with
  | nil =>
      cases separated
      exact (reads_unlessSees.2 (.inl ⟨closing, rest, closingKind, rfl, rfl, rfl⟩)).reports
  | cons param others =>
      have kind : param.kind ∉ [.rightParen] := by
        rw [(List.forall_mem_cons.1 identifiers).1]
        decide
      have clear : Clear [.rightParen] (list ++ closing :: rest) := by
        cases others with
        | nil =>
            cases separated
            exact clear_cons.2 kind
        | cons next others =>
            cases separated
            exact clear_cons.2 kind
      exact .unlessSees clear (reports_parseParams (by simp) identifiers separated enough
        (clear_cons.2 (by rw [closingKind]; decide)))

theorem reads_superclass {header : List Token} {superclass : Option Token} {opening : Token}
    (derived : Superclass header superclass) (openingKind : opening.kind = .leftBrace) :
    Reads ((upTo stop).behind? [.less] ((upTo stop).expect .identifier "superclass name"))
      (header ++ opening :: rest) superclass (opening :: rest) := by
  rw [reads_behind?]
  cases derived with
  | absent => exact .inr ⟨rfl, clear_cons.2 (by rw [openingKind]; decide), rfl⟩
  | @present less name lessKind nameKind =>
      exact .inl ⟨less, name, _, by simp [lessKind], rfl, reads_expect.2 ⟨nameKind, rfl⟩, rfl⟩

/-- The steps that read a derived declaration or statement in front of any tokens, but
for an `else` that would go on with it. -/
structure Complete (stop : Token) (phrase : Phrase) (tokens : List Token) (tree : Stmt)
    (notes : List Diagnostic) : Prop where
  declaration : phrase = .declaration → ∀ budget rest, 16 * tokens.length + 12 ≤ budget →
    Clear [.elseWord] rest →
    Reports ((upTo stop).parseUnbroken budget) (tokens ++ rest) tree rest notes
  definition : phrase = .function → ∀ function, tree = .function function →
    ∀ role budget rest, 16 * tokens.length + 1 ≤ budget →
    Reports ((upTo stop).parseFunction budget role) (tokens ++ rest) function rest notes
  statement : ∀ {ending}, phrase = .statement ending →
    ∀ budget rest, 16 * tokens.length + 11 ≤ budget →
    (ending = .dangling → Clear [.elseWord] rest) →
    Reports ((upTo stop).parseStmt budget) (tokens ++ rest) tree rest notes

variable {tree : Stmt}

theorem Complete.ofDeclaration
    (declaration : ∀ budget rest, 16 * tokens.length + 12 ≤ budget + 1 →
      Clear [.elseWord] rest →
      Reports ((upTo stop).parseUnbroken (budget + 1)) (tokens ++ rest) tree rest notes) :
    Complete stop .declaration tokens tree notes where
  declaration _ budget rest enough clear := by
    obtain ⟨budget, rfl⟩ : ∃ fewer, budget = fewer + 1 := ⟨budget - 1, by omega⟩
    exact declaration budget rest enough clear
  definition := by simp
  statement := by simp

theorem Complete.ofStatement {ending : Ending}
    (statement : ∀ budget rest, 16 * tokens.length + 11 ≤ budget + 1 →
      (ending = .dangling → Clear [.elseWord] rest) →
      Reports ((upTo stop).parseStmt (budget + 1)) (tokens ++ rest) tree rest notes) :
    Complete stop (.statement ending) tokens tree notes where
  declaration := by simp
  definition := by simp
  statement := by
    intro other same budget rest enough clear
    cases same
    obtain ⟨budget, rfl⟩ : ∃ fewer, budget = fewer + 1 := ⟨budget - 1, by omega⟩
    exact statement budget rest enough clear

theorem Complete.reports_declaration (complete : Complete stop .declaration tokens tree notes)
    (enough : 16 * tokens.length + 13 ≤ budget) (clear : Clear [.elseWord] rest) :
    Reports ((upTo stop).parseDeclaration budget) (tokens ++ rest) (some tree) rest notes := by
  obtain ⟨budget, rfl⟩ : ∃ fewer, budget = fewer + 1 := ⟨budget - 1, by omega⟩
  rw [Reader.parseDeclaration]
  exact (complete.declaration rfl budget rest (by omega) clear).recover

theorem reports_parseBlock {parts : List (Noted Stmt)}
    (derived : ∀ part ∈ parts, Lenient.Statement .declaration part.tokens part.tree part.notes)
    (complete : ∀ part ∈ parts, Complete stop .declaration part.tokens part.tree part.notes)
    {closing : Token} (closingKind : closing.kind = .rightBrace)
    (enough : 16 * (parts.flatMap Noted.tokens).length + 14 ≤ budget) :
    Reports ((upTo stop).parseBlock budget) (parts.flatMap Noted.tokens ++ closing :: rest)
      (parts.map Noted.tree) rest (parts.flatMap Noted.notes) := by
  induction parts generalizing budget with
  | nil =>
      obtain ⟨budget, rfl⟩ : ∃ fewer, budget = fewer + 1 := ⟨budget - 1, by omega⟩
      refine Reads.reports ?_
      simp only [Reader.parseBlock, reads_bind, reads_blockEnds]
      refine ⟨true, closing :: rest, ⟨by simp [closingKind], rfl⟩, ?_⟩
      rw [if_pos rfl, reads_bind]
      exact ⟨closing, rest, reads_expect.2 ⟨closingKind, rfl⟩, reads_pure.2 ⟨rfl, rfl⟩⟩
  | cons part others ih =>
      obtain ⟨budget, rfl⟩ : ∃ fewer, budget = fewer + 1 := ⟨budget - 1, by omega⟩
      obtain ⟨partDerived, othersDerived⟩ := List.forall_mem_cons.1 derived
      obtain ⟨partComplete, othersComplete⟩ := List.forall_mem_cons.1 complete
      have positive := List.length_pos_iff.2 partDerived.ne_nil
      rw [List.flatMap_cons, List.length_append] at enough
      have behind : Clear [.elseWord] (others.flatMap Noted.tokens ++ closing :: rest) :=
        Lenient.clear_else othersDerived (clear_cons.2 (by rw [closingKind]; decide))
      have readsFirst := partComplete.reports_declaration (by omega : _ ≤ budget) behind
      have readsMore := ih othersDerived othersComplete (by omega : _ ≤ budget)
      rw [List.flatMap_cons, List.flatMap_cons, List.append_assoc, Reader.parseBlock]
      refine (reads_blockEnds.2 ⟨partDerived.goesOn _, rfl⟩).andThen ?_
      rw [if_neg Bool.false_ne_true]
      exact readsFirst.bind (readsMore.andThen (reads_pure.2 ⟨rfl, rfl⟩))

theorem reports_parseMethods {parts : List (Noted Function)}
    (derived : ∀ part ∈ parts,
      Lenient.Statement .function part.tokens (.function part.tree) part.notes)
    (complete : ∀ part ∈ parts,
      Complete stop .function part.tokens (.function part.tree) part.notes)
    {closing : Token} (closingKind : closing.kind = .rightBrace)
    (enough : 16 * (parts.flatMap Noted.tokens).length + 2 ≤ budget) :
    Reports ((upTo stop).parseMethods budget) (parts.flatMap Noted.tokens ++ closing :: rest)
      (parts.map Noted.tree) (closing :: rest) (parts.flatMap Noted.notes) := by
  induction parts generalizing budget with
  | nil =>
      obtain ⟨budget, rfl⟩ : ∃ fewer, budget = fewer + 1 := ⟨budget - 1, by omega⟩
      refine Reads.reports ?_
      simp only [Reader.parseMethods, reads_bind, reads_blockEnds]
      refine ⟨true, closing :: rest, ⟨by simp [closingKind], rfl⟩, ?_⟩
      rw [if_pos rfl]
      exact reads_pure.2 ⟨rfl, rfl⟩
  | cons part others ih =>
      obtain ⟨budget, rfl⟩ : ∃ fewer, budget = fewer + 1 := ⟨budget - 1, by omega⟩
      obtain ⟨partDerived, othersDerived⟩ := List.forall_mem_cons.1 derived
      obtain ⟨partComplete, othersComplete⟩ := List.forall_mem_cons.1 complete
      have positive := List.length_pos_iff.2 partDerived.ne_nil
      rw [List.flatMap_cons, List.length_append] at enough
      have readsFirst := partComplete.definition rfl part.tree rfl "method" budget
        (others.flatMap Noted.tokens ++ closing :: rest) (by omega)
      have readsMore := ih othersDerived othersComplete (by omega : _ ≤ budget)
      rw [List.flatMap_cons, List.flatMap_cons, List.append_assoc, Reader.parseMethods]
      refine (reads_blockEnds.2 ⟨partDerived.goesOn _, rfl⟩).andThen ?_
      rw [if_neg Bool.false_ne_true]
      exact readsFirst.bind (readsMore.andThen (reads_pure.2 ⟨rfl, rfl⟩))

theorem Complete.classDecl {keyword name opening closing : Token} {header : List Token}
    {superclass : Option Token} {methods : List (Noted Function)}
    (kind : keyword.kind = .classWord) (nameKind : name.kind = .identifier)
    (inherits : Superclass header superclass) (openingKind : opening.kind = .leftBrace)
    (derived : ∀ method ∈ methods,
      Lenient.Statement .function method.tokens (.function method.tree) method.notes)
    (complete : ∀ method ∈ methods,
      Complete stop .function method.tokens (.function method.tree) method.notes)
    (closingKind : closing.kind = .rightBrace) :
    Complete stop .declaration
      (keyword :: name :: header ++ opening :: methods.flatMap Noted.tokens ++ [closing])
      (.classDecl name superclass (methods.map Noted.tree)) (methods.flatMap Noted.notes) := by
  apply Complete.ofDeclaration
  intro budget rest enough _
  simp only [List.length_cons, List.length_append] at enough
  obtain ⟨budget, rfl⟩ : ∃ fewer, budget = fewer + 1 := ⟨budget - 1, by omega⟩
  have split : keyword :: name :: header ++ opening :: methods.flatMap Noted.tokens ++ [closing] ++
      rest = keyword :: name ::
        (header ++ opening :: (methods.flatMap Noted.tokens ++ closing :: rest)) := by simp
  have readsMethods : Reports ((upTo stop).parseMethods budget)
      (methods.flatMap Noted.tokens ++ closing :: rest) (methods.map Noted.tree) (closing :: rest)
      (methods.flatMap Noted.notes) :=
    reports_parseMethods derived complete closingKind (by omega)
  rw [split, Reader.parseUnbroken]
  refine .ifSeen kind (.skipped ?_)
  rw [Reader.parseClass]
  refine (reads_expect.2 ⟨nameKind, rfl⟩).andThen ?_
  refine (reads_superclass inherits openingKind).andThen ?_
  refine (reads_expect.2 ⟨openingKind, rfl⟩).andThen (readsMethods.andThen ?_)
  rw [reads_bind]
  exact ⟨closing, rest, reads_expect.2 ⟨closingKind, rfl⟩, reads_pure.2 ⟨rfl, rfl⟩⟩

theorem Complete.functionDecl {keyword : Token} {function : Function}
    (kind : keyword.kind = .funWord)
    (complete : Complete stop .function tokens (.function function) notes) :
    Complete stop .declaration (keyword :: tokens) (.function function) notes := by
  apply Complete.ofDeclaration
  intro budget rest enough _
  rw [List.length_cons] at enough
  have readsFunction := complete.definition rfl function rfl "function" budget rest (by omega)
  rw [List.cons_append, Reader.parseUnbroken]
  refine .ifUnseen (clear_cons.2 (by rw [kind]; decide)) (.ifSeen kind (.skipped ?_))
  exact readsFunction.map Stmt.function

theorem Complete.varDecl (derived : Lenient.Variable tokens tree notes) :
    Complete stop .declaration tokens tree notes := by
  apply Complete.ofDeclaration
  intro budget rest enough _
  obtain ⟨keyword, tail, rfl, kind⟩ := derived.first
  rw [List.length_cons] at enough
  rw [List.cons_append, Reader.parseUnbroken]
  refine .ifUnseen (clear_cons.2 (by rw [kind]; decide)) ?_
  refine .ifUnseen (clear_cons.2 (by rw [kind]; decide)) (.ifSeen kind (.skipped ?_))
  exact reports_parseVar derived (by omega)

theorem Complete.declared {ending : Ending}
    (complete : Complete stop (.statement ending) tokens tree notes)
    (derived : Lenient.Statement (.statement ending) tokens tree notes) :
    Complete stop .declaration tokens tree notes := by
  apply Complete.ofDeclaration
  intro budget rest enough clear
  have begun := derived.clear_keywords rfl rest
  rw [Reader.parseUnbroken]
  refine .ifUnseen (begun.mono (by simp)) ?_
  refine .ifUnseen (begun.mono (by simp)) (.ifUnseen (begun.mono (by simp)) ?_)
  exact complete.statement rfl budget rest (by omega) fun _ => clear

theorem Complete.function {name opening closing begin finish : Token} {list params : List Token}
    {body : List (Noted Stmt)} (nameKind : name.kind = .identifier)
    (openingKind : opening.kind = .leftParen)
    (identifiers : ∀ param ∈ params, param.kind = .identifier)
    (separated : Separated (params.map fun param => [param]) list)
    (closingKind : closing.kind = .rightParen) (beginKind : begin.kind = .leftBrace)
    (derived : ∀ part ∈ body, Lenient.Statement .declaration part.tokens part.tree part.notes)
    (complete : ∀ part ∈ body, Complete stop .declaration part.tokens part.tree part.notes)
    (finishKind : finish.kind = .rightBrace) :
    Complete stop .function
      (name :: opening :: list ++ closing :: begin :: body.flatMap Noted.tokens ++ [finish])
      (.function (.mk name params (body.map Noted.tree)))
      (Noted.elements .tooManyParameters 0 (params.map Noted.param) ++
        body.flatMap Noted.notes) where
  declaration := by simp
  statement := by simp
  definition := by
    rintro - function same role budget rest enough
    cases same
    simp only [List.length_cons, List.length_append] at enough
    obtain ⟨budget, rfl⟩ : ∃ fewer, budget = fewer + 1 := ⟨budget - 1, by omega⟩
    have split : name :: opening :: list ++ closing :: begin :: body.flatMap Noted.tokens ++
        [finish] ++ rest = name :: opening ::
          (list ++ closing :: begin :: (body.flatMap Noted.tokens ++ finish :: rest)) := by simp
    have readsParams : Reports ((upTo stop).unlessSees .rightParen []
        ((upTo stop).parseParams budget 0))
        (list ++ closing :: begin :: (body.flatMap Noted.tokens ++ finish :: rest)) params
        (closing :: begin :: (body.flatMap Noted.tokens ++ finish :: rest))
        (Noted.elements .tooManyParameters 0 (params.map Noted.param)) :=
      reports_paramList identifiers separated (by omega) closingKind
    have readsBody : Reports ((upTo stop).parseBlock budget)
        (body.flatMap Noted.tokens ++ finish :: rest) (body.map Noted.tree) rest
        (body.flatMap Noted.notes) :=
      reports_parseBlock derived complete finishKind (by omega)
    rw [split, Reader.parseFunction]
    refine (reads_expect.2 ⟨nameKind, rfl⟩).andThen ?_
    refine (reads_expect.2 ⟨openingKind, rfl⟩).andThen (readsParams.bind ?_)
    refine (reads_expect.2 ⟨closingKind, rfl⟩).andThen ?_
    refine (reads_expect.2 ⟨beginKind, rfl⟩).andThen ?_
    exact readsBody.andThen (reads_pure.2 ⟨rfl, rfl⟩)

theorem Complete.expr {value : Expr} {semicolon : Token}
    (derived : Lenient.Expression .assignment tokens value notes)
    (kind : semicolon.kind = .semicolon) :
    Complete stop (.statement .closed) (tokens ++ [semicolon]) (.expr value) notes := by
  apply Complete.ofStatement
  intro budget rest enough _
  simp only [List.length_append, List.length_cons] at enough
  have readsValue : Reports (Stmt.expr <$> (upTo stop).parseClosed budget "';' after value")
      (tokens ++ semicolon :: rest) (.expr value) rest notes :=
    (reports_parseClosed derived kind _ (by omega)).map Stmt.expr
  obtain ⟨first, tail, rfl, member⟩ := derived.first
  have split : first :: tail ++ [semicolon] ++ rest = first :: (tail ++ semicolon :: rest) := by
    simp
  rw [split, Reader.parseStmt]
  refine (reads_next.2 ⟨rfl, rfl⟩).andThen ?_
  rw [List.headD_cons]
  simp only [Grade.starts, List.mem_cons, List.not_mem_nil, or_false] at member
  rcases member with kind | kind | kind | kind | kind | kind | kind | kind | kind | kind | kind <;>
    rw [kind] <;> exact readsValue

theorem Complete.print {keyword semicolon : Token} {value : Expr}
    (kind : keyword.kind = .printWord)
    (derived : Lenient.Expression .assignment tokens value notes)
    (semicolonKind : semicolon.kind = .semicolon) :
    Complete stop (.statement .closed) (keyword :: tokens ++ [semicolon]) (.print value) notes := by
  apply Complete.ofStatement
  intro budget rest enough _
  simp only [List.length_append, List.length_cons] at enough
  have split : keyword :: tokens ++ [semicolon] ++ rest =
      keyword :: (tokens ++ semicolon :: rest) := by simp
  rw [split, Reader.parseStmt]
  refine (reads_next.2 ⟨rfl, rfl⟩).andThen ?_
  simp only [List.headD_cons, kind]
  exact .skipped ((reports_parseClosed derived semicolonKind _ (by omega)).map Stmt.print)

theorem Complete.returnStmt {keyword semicolon : Token} {value : Option Expr}
    (kind : keyword.kind = .returnWord) (derived : Lenient.Optional tokens value notes)
    (semicolonKind : semicolon.kind = .semicolon) :
    Complete stop (.statement .closed) (keyword :: tokens ++ [semicolon])
      (.returnStmt keyword value) notes := by
  apply Complete.ofStatement
  intro budget rest enough _
  simp only [List.length_append, List.length_cons] at enough
  have readsValue : Reports ((upTo stop).parseOptional budget semicolon.kind)
      (tokens ++ semicolon :: rest) value (semicolon :: rest) notes :=
    reports_parseOptional derived (by simp [semicolonKind]) (by omega)
  rw [semicolonKind] at readsValue
  have split : keyword :: tokens ++ [semicolon] ++ rest =
      keyword :: (tokens ++ semicolon :: rest) := by simp
  rw [split, Reader.parseStmt]
  refine (reads_next.2 ⟨rfl, rfl⟩).andThen ?_
  simp only [List.headD_cons, kind]
  refine .skipped (readsValue.andThen ?_)
  rw [reads_bind]
  exact ⟨semicolon, rest, reads_expect.2 ⟨semicolonKind, rfl⟩, reads_pure.2 ⟨rfl, rfl⟩⟩

theorem Complete.block {opening closing : Token} {body : List (Noted Stmt)}
    (kind : opening.kind = .leftBrace)
    (derived : ∀ part ∈ body, Lenient.Statement .declaration part.tokens part.tree part.notes)
    (complete : ∀ part ∈ body, Complete stop .declaration part.tokens part.tree part.notes)
    (closingKind : closing.kind = .rightBrace) :
    Complete stop (.statement .closed) (opening :: body.flatMap Noted.tokens ++ [closing])
      (.block (body.map Noted.tree)) (body.flatMap Noted.notes) := by
  apply Complete.ofStatement
  intro budget rest enough _
  simp only [List.length_append, List.length_cons] at enough
  have split : opening :: body.flatMap Noted.tokens ++ [closing] ++ rest =
      opening :: (body.flatMap Noted.tokens ++ closing :: rest) := by simp
  rw [split, Reader.parseStmt]
  refine (reads_next.2 ⟨rfl, rfl⟩).andThen ?_
  simp only [List.headD_cons, kind]
  exact .skipped ((reports_parseBlock derived complete closingKind (by omega)).map Stmt.block)

theorem Complete.whileLoop {keyword opening closing : Token} {inner : List Token}
    {condition : Expr} {body : Stmt} {ending : Ending} {more : List Diagnostic}
    (kind : keyword.kind = .whileWord) (openingKind : opening.kind = .leftParen)
    (derived : Lenient.Expression .assignment tokens condition notes)
    (closingKind : closing.kind = .rightParen)
    (complete : Complete stop (.statement ending) inner body more) :
    Complete stop (.statement ending) (keyword :: opening :: tokens ++ closing :: inner)
      (.whileLoop condition body) (notes ++ more) := by
  apply Complete.ofStatement
  intro budget rest enough clear
  simp only [List.length_append, List.length_cons] at enough
  have readsCondition : Reports ((upTo stop).parseExpr budget)
      (tokens ++ closing :: (inner ++ rest)) condition (closing :: (inner ++ rest)) notes :=
    Expr.reports_parse derived budget _ (by omega) (clear_cons.2 (by rw [closingKind]; decide))
  have readsBody := complete.statement rfl budget rest (by omega) clear
  have split : keyword :: opening :: tokens ++ closing :: inner ++ rest =
      keyword :: opening :: (tokens ++ closing :: (inner ++ rest)) := by simp
  rw [split, Reader.parseStmt]
  refine (reads_next.2 ⟨rfl, rfl⟩).andThen ?_
  simp only [List.headD_cons, kind]
  refine .skipped ((reads_expect.2 ⟨openingKind, rfl⟩).andThen (readsCondition.bind ?_))
  refine (reads_expect.2 ⟨closingKind, rfl⟩).andThen ?_
  exact readsBody.andThen (reads_pure.2 ⟨rfl, rfl⟩)

theorem Complete.forLoop {keyword : Token} {header inner : List Token} {clauses : Clauses}
    {body : Stmt} {ending : Ending} {more : List Diagnostic} (kind : keyword.kind = .forWord)
    (headed : Lenient.Header header clauses notes)
    (complete : Complete stop (.statement ending) inner body more) :
    Complete stop (.statement ending) (keyword :: header ++ inner) (clauses.loop body)
      (notes ++ more) := by
  apply Complete.ofStatement
  intro budget rest enough clear
  cases headed with
  | @mk opening semicolon closing first second third initial condition increment firstNotes
      secondNotes thirdNotes openingKind firstDerived secondDerived semicolonKind thirdDerived
      closingKind =>
      simp only [List.length_append, List.length_cons] at enough
      have readsInitial : Reports ((upTo stop).parseInitial budget)
          (first ++ (second ++ semicolon :: (third ++ closing :: (inner ++ rest)))) initial
          (second ++ semicolon :: (third ++ closing :: (inner ++ rest))) firstNotes :=
        reports_parseInitial firstDerived (by omega)
      have readsCondition : Reports ((upTo stop).parseOptional budget semicolon.kind)
          (second ++ semicolon :: (third ++ closing :: (inner ++ rest))) condition
          (semicolon :: (third ++ closing :: (inner ++ rest))) secondNotes :=
        reports_parseOptional secondDerived (by simp [semicolonKind]) (by omega)
      have readsIncrement : Reports ((upTo stop).parseOptional budget closing.kind)
          (third ++ closing :: (inner ++ rest)) increment (closing :: (inner ++ rest))
          thirdNotes :=
        reports_parseOptional thirdDerived (by simp [closingKind]) (by omega)
      have readsBody := complete.statement rfl budget rest (by omega) clear
      rw [semicolonKind] at readsCondition
      rw [closingKind] at readsIncrement
      have split : keyword ::
          (opening :: first ++ second ++ semicolon :: third ++ [closing]) ++ inner ++ rest =
            keyword :: opening ::
              (first ++ (second ++ semicolon :: (third ++ closing :: (inner ++ rest)))) := by simp
      rw [← forLoop_eq_loop, split, Reader.parseStmt, List.append_assoc, List.append_assoc]
      refine (reads_next.2 ⟨rfl, rfl⟩).andThen ?_
      simp only [List.headD_cons, kind]
      refine .skipped ((reads_expect.2 ⟨openingKind, rfl⟩).andThen (readsInitial.bind ?_))
      refine readsCondition.bind ((reads_expect.2 ⟨semicolonKind, rfl⟩).andThen ?_)
      refine readsIncrement.bind ((reads_expect.2 ⟨closingKind, rfl⟩).andThen ?_)
      exact readsBody.andThen (reads_pure.2 ⟨rfl, rfl⟩)

theorem Complete.ifThen {keyword opening closing : Token} {inner : List Token}
    {condition : Expr} {thenBranch : Stmt} {ending : Ending} {more : List Diagnostic}
    (kind : keyword.kind = .ifWord) (openingKind : opening.kind = .leftParen)
    (derived : Lenient.Expression .assignment tokens condition notes)
    (closingKind : closing.kind = .rightParen)
    (complete : Complete stop (.statement ending) inner thenBranch more) :
    Complete stop (.statement .dangling) (keyword :: opening :: tokens ++ closing :: inner)
      (.ifThen condition thenBranch) (notes ++ more) := by
  apply Complete.ofStatement
  intro budget rest enough clear
  simp only [List.length_append, List.length_cons] at enough
  have readsCondition : Reports ((upTo stop).parseExpr budget)
      (tokens ++ closing :: (inner ++ rest)) condition (closing :: (inner ++ rest)) notes :=
    Expr.reports_parse derived budget _ (by omega) (clear_cons.2 (by rw [closingKind]; decide))
  have readsBranch := complete.statement rfl budget rest (by omega) fun _ => clear rfl
  have unseen : Reads ((upTo stop).accept? [.elseWord]) rest none rest :=
    reads_accept?.2 (.inr ⟨rfl, clear rfl, rfl⟩)
  have split : keyword :: opening :: tokens ++ closing :: inner ++ rest =
      keyword :: opening :: (tokens ++ closing :: (inner ++ rest)) := by simp
  rw [split, Reader.parseStmt]
  refine (reads_next.2 ⟨rfl, rfl⟩).andThen ?_
  simp only [List.headD_cons, kind]
  refine .skipped ((reads_expect.2 ⟨openingKind, rfl⟩).andThen (readsCondition.bind ?_))
  refine (reads_expect.2 ⟨closingKind, rfl⟩).andThen (readsBranch.andThen ?_)
  rw [reads_bind]
  exact ⟨none, rest, unseen, reads_pure.2 ⟨rfl, rfl⟩⟩

theorem Complete.ifElse {keyword opening closing separator : Token} {first second : List Token}
    {condition : Expr} {thenBranch elseBranch : Stmt} {ending : Ending}
    {thenNotes elseNotes : List Diagnostic} (kind : keyword.kind = .ifWord)
    (openingKind : opening.kind = .leftParen)
    (derived : Lenient.Expression .assignment tokens condition notes)
    (closingKind : closing.kind = .rightParen)
    (thenComplete : Complete stop (.statement .closed) first thenBranch thenNotes)
    (separatorKind : separator.kind = .elseWord)
    (elseComplete : Complete stop (.statement ending) second elseBranch elseNotes) :
    Complete stop (.statement ending)
      (keyword :: opening :: tokens ++ closing :: first ++ separator :: second)
      (.ifElse condition thenBranch elseBranch) (notes ++ (thenNotes ++ elseNotes)) := by
  apply Complete.ofStatement
  intro budget rest enough clear
  simp only [List.length_append, List.length_cons] at enough
  have readsCondition : Reports ((upTo stop).parseExpr budget)
      (tokens ++ closing :: (first ++ separator :: (second ++ rest))) condition
      (closing :: (first ++ separator :: (second ++ rest))) notes :=
    Expr.reports_parse derived budget _ (by omega) (clear_cons.2 (by rw [closingKind]; decide))
  have readsThen := thenComplete.statement rfl budget (separator :: (second ++ rest)) (by omega)
    (by simp)
  have readsElse := elseComplete.statement rfl budget rest (by omega) clear
  have accepted : Reads ((upTo stop).accept? [.elseWord]) (separator :: (second ++ rest))
      (some separator) (second ++ rest) :=
    reads_accept?.2 (.inl ⟨separator, rfl, by simp [separatorKind], rfl⟩)
  have split : keyword :: opening :: tokens ++ closing :: first ++ separator :: second ++ rest =
      keyword :: opening ::
        (tokens ++ closing :: (first ++ separator :: (second ++ rest))) := by simp
  rw [split, Reader.parseStmt]
  refine (reads_next.2 ⟨rfl, rfl⟩).andThen ?_
  simp only [List.headD_cons, kind]
  refine .skipped ((reads_expect.2 ⟨openingKind, rfl⟩).andThen (readsCondition.bind ?_))
  refine (reads_expect.2 ⟨closingKind, rfl⟩).andThen (readsThen.bind (accepted.andThen ?_))
  exact readsElse.andThen (reads_pure.2 ⟨rfl, rfl⟩)

theorem complete {phrase : Phrase} (derived : Lenient.Statement phrase tokens tree notes) :
    Complete stop phrase tokens tree notes := by
  induction derived with
  | classDecl kind nameKind inherits openingKind derived closingKind ih =>
      exact .classDecl kind nameKind inherits openingKind derived ih closingKind
  | function kind derived ih =>
      cases derived
      exact .functionDecl kind ih
  | varDecl derived => exact .varDecl derived
  | statement derived ih => exact ih.declared derived
  | definition nameKind openingKind identifiers separated closingKind beginKind derived finishKind
      ih =>
      exact .function nameKind openingKind identifiers separated closingKind beginKind derived ih
        finishKind
  | expr derived kind => exact .expr derived kind
  | print kind derived semicolonKind => exact .print kind derived semicolonKind
  | returnStmt kind derived semicolonKind => exact .returnStmt kind derived semicolonKind
  | block kind derived closingKind ih => exact .block kind derived ih closingKind
  | whileLoop kind openingKind derived closingKind _ ih =>
      exact .whileLoop kind openingKind derived closingKind ih
  | forLoop kind headed _ ih => exact .forLoop kind headed ih
  | ifThen kind openingKind derived closingKind _ ih =>
      exact .ifThen kind openingKind derived closingKind ih
  | ifElse kind openingKind derived closingKind _ separatorKind _ thenIh elseIh =>
      exact .ifElse kind openingKind derived closingKind thenIh separatorKind elseIh

theorem parseAll_parts {parts : List (Noted Stmt)}
    (derived : ∀ part ∈ parts, Lenient.Statement .declaration part.tokens part.tree part.notes)
    (enough : 16 * (parts.flatMap Noted.tokens).length + 14 ≤ budget)
    (clear : Clear [.elseWord] rest) :
    (upTo stop).parseAll (budget + parts.length) (parts.flatMap Noted.tokens ++ rest) =
      noting (parts.flatMap Noted.notes)
        (((parts.map Noted.tree ++ ·) <$> (upTo stop).parseAll budget) rest) := by
  induction parts with
  | nil => simp [map_apply]
  | cons part others ih =>
      obtain ⟨partDerived, othersDerived⟩ := List.forall_mem_cons.1 derived
      rw [List.flatMap_cons, List.length_append] at enough
      have readsFirst : Reports ((upTo stop).parseDeclaration (budget + others.length))
          (part.tokens ++ (others.flatMap Noted.tokens ++ rest)) (some part.tree)
          (others.flatMap Noted.tokens ++ rest) part.notes :=
        (complete partDerived).reports_declaration (by omega)
          (Lenient.clear_else othersDerived clear)
      have goesOn : Reads (upTo stop).atEnd (part.tokens ++ (others.flatMap Noted.tokens ++ rest))
          false (part.tokens ++ (others.flatMap Noted.tokens ++ rest)) := by
        simp [partDerived.ne_nil]
      rw [List.flatMap_cons, List.flatMap_cons, List.length_cons, ← Nat.add_assoc, Reader.parseAll,
        List.append_assoc, bind_of_reads goesOn, if_neg Bool.false_ne_true, readsFirst.bind_eq]
      rw [← map_eq_bind, map_apply, ih othersDerived (by omega), map_apply, map_apply]
      simp [noting, Function.comp_def]

end Stmt

theorem Grammar.Lenient.length_le {parts : List (Noted Stmt)}
    (derived : ∀ part ∈ parts, Statement .declaration part.tokens part.tree part.notes) :
    parts.length ≤ (parts.flatMap Noted.tokens).length := by
  induction parts with
  | nil => exact Nat.le_refl 0
  | cons part others ih =>
      obtain ⟨partDerived, othersDerived⟩ := List.forall_mem_cons.1 derived
      have positive := List.length_pos_iff.2 partDerived.ne_nil
      have fewer := ih othersDerived
      rw [List.flatMap_cons, List.length_append, List.length_cons]
      omega

namespace Program

theorem parseAll_derives {body rest : List Token} {trees : List Stmt} {notes : List Diagnostic}
    (stop : Token) (derived : Lenient.Derives body trees notes) (clear : Clear [.elseWord] rest) :
    ∃ left, 16 * rest.length + 14 ≤ left ∧
      (upTo stop).parseAll (budgetFor (body ++ rest).length) (body ++ rest) =
        noting notes (((trees ++ ·) <$> (upTo stop).parseAll left) rest) := by
  obtain ⟨parts, partsDerived, rfl, rfl, rfl⟩ := derived
  have fewer := Lenient.length_le partsDerived
  -- Each declaration takes one round of the loop and at least one token.
  obtain ⟨left, spent⟩ : ∃ left,
      budgetFor (parts.flatMap Noted.tokens ++ rest).length = left + parts.length :=
    ⟨budgetFor (parts.flatMap Noted.tokens ++ rest).length - parts.length, by
      rw [List.length_append]
      unfold budgetFor
      omega⟩
  have enough := spent
  rw [List.length_append, budgetFor] at enough
  refine ⟨left, by omega, ?_⟩
  rw [spent]
  exact Stmt.parseAll_parts partsDerived (by omega) clear

theorem parseBody_of_lenient {body : List Token} {trees : List Stmt} {notes : List Diagnostic}
    (stop : Token) (derived : Lenient.Derives body trees notes) :
    parseBody stop body = ⟨trees, notes⟩ := by
  obtain ⟨left, enough, parsed⟩ := parseAll_derives stop derived (clear_nil _)
  obtain ⟨budget, rfl⟩ : ∃ budget, left = budget + 1 := ⟨left - 1, by omega⟩
  have ended : Reads ((upTo stop).parseAll (budget + 1)) [] [] [] := by
    rw [Reader.parseAll, reads_bind]
    exact ⟨true, [], by simp, by simp⟩
  unfold Reads at ended
  rw [List.append_nil, map_apply, ended] at parsed
  simp [parseBody, parsed, noting]

theorem parseBody_of_derives {body : List Token} {trees : List Stmt} (stop : Token)
    (derived : Derives body trees) : parseBody stop body = ⟨trees, []⟩ :=
  parseBody_of_lenient stop derived.lenient

theorem parseBody_append {body rest : List Token} {trees : List Stmt} {stop : Token}
    (stopped : stop.kind = .eof) (derived : Derives body trees) (clear : Clear [.elseWord] rest) :
    parseBody stop (body ++ rest) =
      ⟨trees ++ (parseBody stop rest).statements, (parseBody stop rest).diagnostics⟩ := by
  obtain ⟨left, enough, parsed⟩ := parseAll_derives stop derived.lenient clear
  obtain ⟨others, notes, total⟩ := Stmt.parseAll_total stopped rest
  have alone := total _ (enough_of_budgetFor_le (Nat.le_refl (budgetFor rest.length)))
  rw [noting_nil, map_apply, total left enough] at parsed
  unfold parseBody
  rw [parsed, alone]
  rfl

theorem derives_of_parseBody {body : List Token} {stop : Token} (stopped : stop.kind = .eof)
    (silent : (parseBody stop body).diagnostics = []) :
    Derives body (parseBody stop body).statements := by
  have enough := enough_of_budgetFor_le (Nat.le_refl (budgetFor body.length))
  obtain ⟨trees, notes, parsed⟩ := Stmt.parseAll_total stopped body
  have whole := parsed (budgetFor body.length) enough
  simp only [parseBody, whole] at silent ⊢
  subst silent
  exact (Stmt.sound_parseAll stopped _ enough whole).2

/-- Tokens up to the end of a source are parsed without a diagnostic exactly when they
derive from the grammar, and then into the only statements that derive from them. -/
theorem parse?_iff_derives {body : List Token} {stop : Token} (stopped : stop.kind = .eof)
    (inner : ∀ token ∈ body, token.kind ≠ .eof) :
    ∃ program, parse? (body ++ [stop]) = some program ∧
      (program.diagnostics = [] ↔ ∃ trees, Derives body trees) ∧
      (program.diagnostics = [] → ∀ trees, Derives body trees ↔ trees = program.statements) := by
  refine ⟨parseBody stop body, parse?_body stopped inner, ⟨?_, ?_⟩, ?_⟩
  · intro silent
    exact ⟨_, derives_of_parseBody stopped silent⟩
  · rintro ⟨trees, derived⟩
    rw [parseBody_of_derives stop derived]
  · intro silent trees
    constructor
    · intro derived
      rw [parseBody_of_derives stop derived]
    · rintro rfl
      exact derives_of_parseBody stopped silent

/-- The one declaration `print nil;` before the end of its line. -/
theorem parse?_iff_derives_print :
    ∃ program, parse? ([⟨.printWord, "print", 1, .nil⟩, ⟨.nilWord, "nil", 1, .nil⟩,
        ⟨.semicolon, ";", 1, .nil⟩] ++ [⟨.eof, "", 1, .nil⟩]) = some program ∧
      (program.diagnostics = [] ↔ ∃ trees, Derives [⟨.printWord, "print", 1, .nil⟩,
        ⟨.nilWord, "nil", 1, .nil⟩, ⟨.semicolon, ";", 1, .nil⟩] trees) ∧
      (program.diagnostics = [] → ∀ trees, Derives [⟨.printWord, "print", 1, .nil⟩,
        ⟨.nilWord, "nil", 1, .nil⟩, ⟨.semicolon, ";", 1, .nil⟩] trees ↔
          trees = program.statements) :=
  parse?_iff_derives rfl (by decide)

end Program

end Lox
