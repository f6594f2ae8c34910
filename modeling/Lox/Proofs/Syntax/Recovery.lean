import Mathlib.Data.List.Forall2
import Lox.Proofs.Syntax.Exact
import Lox.Proofs.Syntax.Fenced

/-!
Broken statements do not spread.  A simple statement ends at its semicolon, also if it is
broken, so the declarations around it are read as if it were not there.  What stands behind a
program without problems is parsed as it is alone, however broken it is.
-/

namespace Lox

open Lox.Parser Lox.Diagnostic Lox.Grammar

namespace Parser

variable {α : Type} {tokens tail : List Token}

def Closes (tokens : List Token) (step : Token → Parser α) : Prop :=
  Stops (fun _ left => left = []) tokens step

theorem Sealed.ne_nil (isSealed : Sealed tokens) : tokens ≠ [] := by
  cases isSealed <;> exact List.cons_ne_nil _ _

theorem closes_expect (isSealed : Sealed tokens) (what : String) :
    Closes tokens fun stop => (upTo stop).expect .semicolon what := by
  cases isSealed with
  | @last token kind =>
      have read (stop : Token) (tail : List Token) :
          Reads ((upTo stop).expect .semicolon what) ([token] ++ tail) token ([] ++ tail) :=
        reads_expect.2 ⟨kind, rfl⟩
      exact stops_of_reads read List.nil_suffix rfl
  | @more token rest apart isSealed =>
      have unread (stop : Token) (tail : List Token) : Reads ((upTo stop).accept? [.semicolon])
          (token :: rest ++ tail) none (token :: rest ++ tail) :=
        reads_accept?.2 (.inr ⟨rfl, clear_cons.2 (by simpa using apart), rfl⟩)
      exact .behindRead unread (List.suffix_refl _) (stops_fail (.more apart isSealed) what)

theorem mem_tail_of_suffix {token inner : Token} {rest : List Token}
    (suffix : token :: rest <:+ tokens) (member : inner ∈ rest) : inner ∈ tokens.tail := by
  obtain ⟨before, rfl⟩ := suffix
  cases before with
  | nil => exact member
  | cons _ before => exact List.mem_append_right before (List.mem_cons_of_mem token member)

theorem dropStatement_semicolon {last : Token} (kind : last.kind = .semicolon) :
    dropStatement last tail = tail := by
  cases tail with
  | nil => rfl
  | cons token rest => rw [dropStatement, if_pos (.inl kind)]

theorem dropStatement_sealed (isSealed : Sealed tokens)
    (plain : ∀ token ∈ tokens, startsStatement token.kind = false) {last : Token}
    (apart : last.kind ≠ .semicolon) : dropStatement last (tokens ++ tail) = tail := by
  induction isSealed generalizing last with
  | @last token kind =>
      have inside : ¬ (last.kind = .semicolon ∨ startsStatement token.kind = true) := by
        simp [apart, plain token List.mem_cons_self]
      rw [List.singleton_append, dropStatement, if_neg inside, dropStatement_semicolon kind]
  | @more token rest other _ ih =>
      obtain ⟨tokenPlain, restPlain⟩ := List.forall_mem_cons.1 plain
      have inside : ¬ (last.kind = .semicolon ∨ startsStatement token.kind = true) := by
        simp [apart, tokenPlain]
      rw [List.cons_append, dropStatement, if_neg inside]
      exact ih restPlain other

theorem synchronize_sealed {token : Token} {rest : List Token} (isSealed : Sealed (token :: rest))
    (plain : ∀ token ∈ rest, startsStatement token.kind = false) :
    synchronize (token :: rest ++ tail) = tail := by
  rw [List.cons_append, synchronize]
  cases isSealed with
  | last kind => exact dropStatement_semicolon kind
  | more apart isSealed => exact dropStatement_sealed isSealed plain apart

end Parser

namespace Stmt

variable {tokens : List Token}

theorem closes_parseClosed (isSealed : Sealed tokens) (budget : Nat) (what : String) :
    Closes tokens fun stop => (upTo stop).parseClosed budget what := by
  refine ((Expr.fenced budget).parse tokens isSealed).bind fun value left _ leftSealed => ?_
  exact (closes_expect leftSealed what).bind fun _ _ _ closed => stops_pure closed

theorem closes_parseVar (isSealed : Sealed tokens) (budget : Nat) :
    Closes tokens fun stop => (upTo stop).parseVar budget := by
  have named := fenced_expect (by decide : Kind.identifier ≠ .semicolon) "variable name"
  have assigned := (Expr.fenced budget).parse.behind? (by decide : Kind.semicolon ∉ [Kind.equal])
  refine (named tokens isSealed).bind fun name left _ leftSealed => ?_
  refine (assigned left leftSealed).bind fun initial rest _ restSealed => ?_
  exact (closes_expect restSealed _).bind fun _ _ _ closed => stops_pure closed

/-- The tokens of a statement without other statements in it, whether it is broken or not. -/
structure Simple (tokens : List Token) : Prop where
  isSealed : Sealed tokens
  bare : ∀ token ∈ tokens, token.kind ∉ [.leftBrace, .rightBrace, .eof]
  first : Clear [.elseWord, .forWord, .ifWord, .whileWord, .funWord, .classWord] tokens
  later : ∀ token ∈ tokens.tail, startsStatement token.kind = false

theorem Simple.closes_parse (simple : Simple tokens) (budget : Nat) :
    Closes tokens fun stop => (upTo stop).parseStmt budget := by
  have isSealed := simple.isSealed
  cases budget with
  | zero => exact stops_abandon isSealed
  | succ budget =>
      have closed := closes_parseClosed isSealed budget "';' after value"
      simp only [Reader.parseStmt]
      cases isSealed with
      | last kind =>
          refine Stops.ofNext ?_
          simp only [kind]
          exact closed.map id
      | @more token rest apart isSealed =>
          have first := clear_cons.1 simple.first
          have bare := simple.bare token List.mem_cons_self
          refine Stops.ofNext ?_
          cases kind : token.kind with
          | printWord => exact ((closes_parseClosed isSealed budget _).map id).skipped
          | returnWord =>
              have value : Parser.Fenced fun stop => (upTo stop).parseOptional budget .semicolon :=
                ((Expr.fenced budget).parse.map some).unlessSees
              refine Stops.skipped ((value rest isSealed).bind fun value left _ leftSealed => ?_)
              exact (closes_expect leftSealed _).bind fun _ _ _ closed => stops_pure closed
          | forWord | ifWord | whileWord => simp [kind] at first
          | leftBrace => simp [kind] at bare
          | _ => exact closed.map id

theorem Simple.closes_parseUnbroken (simple : Simple tokens) (budget : Nat) :
    Closes tokens fun stop => (upTo stop).parseUnbroken budget := by
  have isSealed := simple.isSealed
  cases budget with
  | zero => exact stops_abandon isSealed
  | succ budget =>
      have parsed := simple.closes_parse budget
      simp only [Reader.parseUnbroken]
      cases isSealed with
      | last kind =>
          refine .ofSees (fun same => ?_) fun _ => .ofSees (fun same => ?_) fun _ =>
            .ofSees (fun same => ?_) fun _ => parsed
          all_goals rw [kind] at same; cases same
      | more apart isSealed =>
          have first := clear_cons.1 simple.first
          refine .ofSees (fun same => ?_) fun _ => .ofSees (fun same => ?_) fun _ =>
            .ofSees (fun _ => (closes_parseVar isSealed budget).skipped) fun _ => parsed
          · simp [same] at first
          · simp [same] at first

/-- A simple statement is left behind at its semicolon.  If anything fatal is noted, it is
left out, and that is noted once. -/
theorem Simple.parseDeclaration_eq (simple : Simple tokens) (budget : Nat) :
    ∃ answer notes,
      (∀ stop tail, (upTo stop).parseDeclaration (budget + 1) (tokens ++ tail) =
        ⟨some answer, tail, notes⟩) ∧
      (fatal notes ≠ [] → answer = none ∧
        ∃ token ∈ tokens, ∃ what, fatal notes = [atToken token (.expected what)]) := by
  obtain ⟨_, left, notes, suffix, ends, parsed⟩ := simple.closes_parseUnbroken budget
  dsimp only at parsed
  cases ends with
  | @done value _ _ closed harmless =>
      subst closed
      refine ⟨some value, notes, fun stop tail => ?_, fun blames => absurd harmless blames⟩
      rw [Reader.parseDeclaration, upTo_recover, recover, parsed stop tail]
      rfl
  | @broken token rest _ leftSealed blames =>
      -- The token at fault is dropped unseen, and no token behind it stops before the semicolon.
      have plain : ∀ token ∈ rest, startsStatement token.kind = false := fun inner member =>
        simple.later inner (mem_tail_of_suffix suffix member)
      refine ⟨none, notes, fun stop tail => ?_, fun fatalNotes => ⟨rfl, token, ?_, ?_⟩⟩
      · rw [Reader.parseDeclaration, upTo_recover, recover, parsed stop tail]
        simp only [synchronize_sealed leftSealed plain]
      · exact suffix.subset List.mem_cons_self
      · exact blames.resolve_left fatalNotes

theorem parseAll_declaration {stop : Token} {budget : Nat} {answer : Option Stmt}
    {trees : List Stmt} {rest left : List Token} {notes more : List Diagnostic}
    (nonempty : tokens ≠ [])
    (first : (upTo stop).parseDeclaration budget tokens = ⟨some answer, rest, notes⟩)
    (others : (upTo stop).parseAll budget rest = ⟨some trees, left, more⟩) :
    (upTo stop).parseAll (budget + 1) tokens =
      ⟨some (answer.toList ++ trees), left, notes ++ more⟩ := by
  have goesOn : Reads (upTo stop).atEnd tokens false tokens := by simp [nonempty]
  rw [Reader.parseAll, bind_of_reads goesOn, if_neg Bool.false_ne_true]
  refine bind_of_some first ?_
  rw [← List.append_nil more]
  exact bind_of_some others rfl

theorem parseAll_nil (stop : Token) (budget : Nat) :
    (upTo stop).parseAll (budget + 1) [] = ⟨some [], [], []⟩ := by
  have ended : Reads (upTo stop).atEnd [] true [] := by simp
  rw [Reader.parseAll, bind_of_reads ended, if_pos rfl]
  rfl

theorem parse?_of_parseDeclaration {stop : Token} (stopped : stop.kind = .eof) {budget : Nat}
    (nonempty : tokens ≠ []) (inner : ∀ token ∈ tokens, token.kind ≠ .eof)
    (enough : 16 * tokens.length + 13 ≤ budget) {answer : Option Stmt} {notes : List Diagnostic}
    (parsed : (upTo stop).parseDeclaration budget tokens = ⟨some answer, [], notes⟩) :
    Program.parse? (tokens ++ [stop]) = some ⟨answer.toList, notes⟩ := by
  -- The budget of the source need not be the given one, but both are enough.
  obtain ⟨alone, spent⟩ : ∃ alone, Program.budgetFor tokens.length = alone + 1 + 1 :=
    ⟨Program.budgetFor tokens.length - 2, by unfold Program.budgetFor; omega⟩
  have enoughAlone : 16 * tokens.length + 13 ≤ alone + 1 := by
    unfold Program.budgetFor at spent
    omega
  rw [parseDeclaration_settled stopped nonempty enough enoughAlone] at parsed
  have whole := parseAll_declaration nonempty parsed (parseAll_nil stop alone)
  rw [List.append_nil, List.append_nil] at whole
  rw [Program.parse?_body stopped inner, Program.parseBody, spent, whole]
  rfl

/-- The tokens of a part of a source, and the tree it has alone: one declaration without a
diagnostic, or a simple statement that is broken. -/
inductive Segment : List Token → Option Stmt → Prop
  | declaration {tokens : List Token} {stop : Token} {tree : Stmt} :
      stop.kind = .eof → (∀ token ∈ tokens, token.kind ≠ .eof) →
      Program.parse? (tokens ++ [stop]) = some ⟨[tree], []⟩ → Segment tokens (some tree)
  | broken {tokens : List Token} {stop : Token} {program : Program} :
      Simple tokens → stop.kind = .eof → Program.parse? (tokens ++ [stop]) = some program →
      fatal program.diagnostics ≠ [] → Segment tokens none

theorem Segment.inner {tree? : Option Stmt} (segment : Segment tokens tree?) :
    ∀ token ∈ tokens, token.kind ≠ .eof := by
  cases segment with
  | declaration _ inner _ => exact inner
  | broken simple _ _ _ =>
      intro token member same
      have bare := simple.bare token member
      simp [same] at bare

theorem derives_of_parse? {stop : Token} {program : Program} (stopped : stop.kind = .eof)
    (inner : ∀ token ∈ tokens, token.kind ≠ .eof)
    (parsed : Program.parse? (tokens ++ [stop]) = some program)
    (silent : program.diagnostics = []) : Derives tokens program.statements := by
  rw [Program.parse?_body stopped inner] at parsed
  cases parsed
  exact Program.derives_of_parseBody stopped silent

theorem Segment.derived {tree : Stmt} (segment : Segment tokens (some tree)) :
    Statement .declaration tokens tree := by
  cases segment with
  | declaration stopped inner parsed =>
      obtain ⟨parts, partsDerived, rfl, trees⟩ := derives_of_parse? stopped inner parsed rfl
      obtain ⟨part, rfl, rfl⟩ := List.map_eq_singleton_iff.1 trees
      simpa [Parts.tokens] using partsDerived

theorem Segment.first {tree? : Option Stmt} (segment : Segment tokens tree?) :
    ∃ token rest, tokens = token :: rest ∧ token.kind ≠ .elseWord := by
  cases tree? with
  | some tree =>
      have derived := segment.derived
      obtain ⟨token, rest, rfl⟩ := List.exists_cons_of_ne_nil derived.ne_nil
      have clear := clear_cons.1 (derived.clear [])
      exact ⟨token, rest, rfl, fun same => clear (by simp [same])⟩
  | none =>
      cases segment with
      | broken simple =>
          have clear := simple.first
          obtain ⟨token, rest, rfl⟩ := List.exists_cons_of_ne_nil simple.isSealed.ne_nil
          exact ⟨token, rest, rfl, fun same => clear_cons.1 clear (by simp [same])⟩

theorem Simple.blames {stop : Token} {program : Program} (simple : Simple tokens)
    (stopped : stop.kind = .eof) (inner : ∀ token ∈ tokens, token.kind ≠ .eof)
    (parsed : Program.parse? (tokens ++ [stop]) = some program)
    (isBroken : fatal program.diagnostics ≠ []) {budget : Nat}
    (enough : 16 * tokens.length + 13 ≤ budget) :
    ∃ notes, (∀ stop tail, (upTo stop).parseDeclaration budget (tokens ++ tail) =
        ⟨some none, tail, notes⟩) ∧
      ∃ token ∈ tokens, ∃ what, fatal notes = [atToken token (.expected what)] := by
  obtain ⟨fewer, rfl⟩ : ∃ fewer, budget = fewer + 1 := ⟨budget - 1, by omega⟩
  obtain ⟨answer, notes, parsedDeclaration, blames⟩ := simple.parseDeclaration_eq fewer
  have alone := parsedDeclaration stop []
  rw [List.append_nil] at alone
  rw [parse?_of_parseDeclaration stopped simple.isSealed.ne_nil inner enough alone] at parsed
  cases parsed
  obtain ⟨rfl, blamed⟩ := blames isBroken
  exact ⟨notes, parsedDeclaration, blamed⟩

/-- The fatal problems are one for each broken segment in order, at one of its tokens. -/
def Accounts (diagnostics : List Diagnostic) (segments : Parts (Option Stmt)) : Prop :=
  List.Forall₂ (fun diagnostic segment =>
      ∃ token ∈ segment.1, ∃ what, diagnostic = atToken token (.expected what))
    (fatal diagnostics) (segments.filter (·.2.isNone))

theorem Accounts.append {notes more : List Diagnostic} {segments others : Parts (Option Stmt)}
    (first : Accounts notes segments) (second : Accounts more others) :
    Accounts (notes ++ more) (segments ++ others) := by
  unfold Accounts
  rw [fatal_append, List.filter_append]
  exact List.rel_append first second

theorem Segment.parseDeclaration_eq {tree? : Option Stmt} (segment : Segment tokens tree?)
    (stop : Token) {budget : Nat} {rest : List Token} (enough : 16 * tokens.length + 13 ≤ budget)
    (clear : Clear [.elseWord] rest) :
    ∃ notes, (upTo stop).parseDeclaration budget (tokens ++ rest) = ⟨some tree?, rest, notes⟩ ∧
      Accounts notes [(tokens, tree?)] := by
  cases tree? with
  | some tree =>
      exact ⟨[], (complete segment.derived.lenient).reports_declaration enough clear, .nil⟩
  | none =>
      have inner := segment.inner
      cases segment with
      | broken simple stopped parsed isBroken =>
          obtain ⟨notes, parsedDeclaration, token, member, what, blamed⟩ :=
            simple.blames stopped inner parsed isBroken enough
          refine ⟨notes, parsedDeclaration stop rest, ?_⟩
          rw [Accounts, blamed]
          exact .cons ⟨token, member, what, rfl⟩ .nil

theorem clear_segments {segments : Parts (Option Stmt)}
    (pieces : ∀ segment ∈ segments, Segment segment.1 segment.2) :
    Clear [.elseWord] segments.tokens := by
  cases segments with
  | nil => exact clear_nil _
  | cons segment others =>
      obtain ⟨tokens, tree?⟩ := segment
      obtain ⟨token, rest, rfl, other⟩ := (List.forall_mem_cons.1 pieces).1.first
      exact clear_cons.2 (by simpa using other)

theorem parseAll_segments {segments : Parts (Option Stmt)} (stop : Token) {budget : Nat}
    (pieces : ∀ segment ∈ segments, Segment segment.1 segment.2)
    (enough : 16 * segments.tokens.length + 14 ≤ budget) :
    ∃ notes, (upTo stop).parseAll budget segments.tokens =
        ⟨some (segments.filterMap Prod.snd), [], notes⟩ ∧ Accounts notes segments := by
  obtain ⟨fewer, rfl⟩ : ∃ fewer, budget = fewer + 1 := ⟨budget - 1, by omega⟩
  induction segments generalizing fewer with
  | nil => exact ⟨[], parseAll_nil stop fewer, .nil⟩
  | cons segment others ih =>
      obtain ⟨piece, otherPieces⟩ := List.forall_mem_cons.1 pieces
      obtain ⟨tokens, tree?⟩ := segment
      have tokensEq : Parts.tokens ((tokens, tree?) :: others) = tokens ++ Parts.tokens others :=
        rfl
      have nonempty : tokens ≠ [] := by
        obtain ⟨token, rest, rfl, _⟩ := piece.first
        exact List.cons_ne_nil token rest
      -- The token that a segment has at least pays for the round it takes.
      have positive := List.length_pos_iff.2 nonempty
      rw [tokensEq, List.length_append] at enough
      obtain ⟨notes, parsed, accounts⟩ := piece.parseDeclaration_eq stop
        (by simp only; omega : _ ≤ fewer) (clear_segments otherPieces)
      obtain ⟨spared, rfl⟩ : ∃ spared, fewer = spared + 1 := ⟨fewer - 1, by omega⟩
      obtain ⟨more, parsedMore, accountsMore⟩ := ih otherPieces spared (by omega)
      refine ⟨notes ++ more, ?_, accounts.append accountsMore⟩
      rw [tokensEq, parseAll_declaration (List.append_ne_nil_of_left_ne_nil nonempty _) parsed
        parsedMore]
      cases tree? <;> rfl

end Stmt

namespace Program

/-- Broken statements do not spread: a source of segments is parsed into the trees of its
declarations, and each broken statement is reported once, at one of its own tokens. -/
theorem parse?_segments {segments : Parts (Option Stmt)} {stop : Token}
    (stopped : stop.kind = .eof)
    (pieces : ∀ segment ∈ segments, Stmt.Segment segment.1 segment.2) :
    ∃ program, parse? (segments.tokens ++ [stop]) = some program ∧
      program.statements = segments.filterMap Prod.snd ∧
      Stmt.Accounts program.diagnostics segments := by
  have inner : ∀ token ∈ segments.tokens, token.kind ≠ .eof := by
    intro token member
    obtain ⟨segment, segmentMember, tokenMember⟩ := List.mem_flatMap.1 member
    exact (pieces segment segmentMember).inner token tokenMember
  have enough := enough_of_budgetFor_le (Nat.le_refl (budgetFor segments.tokens.length))
  obtain ⟨notes, parsed, accounts⟩ := Stmt.parseAll_segments stop pieces enough
  refine ⟨parseBody stop segments.tokens, parse?_body stopped inner, ?_, ?_⟩
  · rw [parseBody, parsed]
    rfl
  · rw [parseBody, parsed]
    exact accounts

/-- A `print` without a value is reported, and the variable behind it is still declared. -/
theorem parse?_segments_print :
    let broken := [⟨.printWord, "print", 1, .nil⟩, ⟨.semicolon, ";", 1, .nil⟩]
    let name := ⟨.identifier, "x", 2, .nil⟩
    let kept := [⟨.varWord, "var", 2, .nil⟩, name, ⟨.semicolon, ";", 2, .nil⟩]
    let segments : Parts (Option Stmt) := [(broken, none), (kept, some (.var name none))]
    ∃ program, parse? (segments.tokens ++ [⟨.eof, "", 2, .nil⟩]) = some program ∧
      program.statements = [.var name none] ∧ Stmt.Accounts program.diagnostics segments := by
  intro broken name kept segments
  have stopped : (⟨.eof, "", 2, .nil⟩ : Token).kind = .eof := rfl
  refine parse?_segments stopped ?_
  intro segment member
  rcases List.mem_pair.1 member with rfl | rfl
  · have simple : Stmt.Simple broken :=
      ⟨.more (by decide) (.last rfl), by decide, clear_cons.2 (by decide), by decide⟩
    exact .broken simple stopped (parse?_body stopped (by decide)) (by decide +kernel)
  · have derived : Derives kept [.var name none] :=
      ⟨[(kept, .var name none)], by simpa using .varDecl (.plain rfl rfl rfl), rfl, rfl⟩
    refine .declaration stopped (by decide) ?_
    rw [parse?_body stopped (by decide), parseBody_of_derives _ derived]

/-- A program without problems is parsed apart from the tokens behind it.  These must not begin
with an `else`, which its last `if` would take. -/
theorem parse?_append_clean {clean tokens : List Token} {stop : Token} {program : Program}
    (stopped : stop.kind = .eof) (inner : ∀ token ∈ clean, token.kind ≠ .eof)
    (parsed : parse? (clean ++ [stop]) = some program) (silent : program.diagnostics = [])
    (ended : ∃ token ∈ tokens, token.kind = .eof)
    (apart : ∀ token ∈ tokens.head?, token.kind ≠ .elseWord) :
    ∃ others, parse? tokens = some others ∧
      parse? (clean ++ tokens) =
        some ⟨program.statements ++ others.statements, others.diagnostics⟩ := by
  have derived : Derives clean program.statements :=
    Stmt.derives_of_parse? stopped inner parsed silent
  obtain ⟨body, beyond, last, rfl, bodyInner, lastKind, rfl | ⟨others, rfl⟩⟩ :=
    Walk.exists_ending tokens
  · obtain ⟨token, member, kind⟩ := ended
    rw [List.append_nil] at member
    exact absurd kind (bodyInner token member)
  · have clear : Clear [.elseWord] body := by
      cases body with
      | nil => exact clear_nil _
      | cons token rest => exact clear_cons.2 (by simpa using apart token rfl)
    have wholeInner : ∀ token ∈ clean ++ body, token.kind ≠ .eof :=
      List.forall_mem_append.2 ⟨inner, bodyInner⟩
    refine ⟨parseBody last body, parse?_append lastKind bodyInner, ?_⟩
    rw [← List.append_assoc, parse?_append lastKind wholeInner,
      parseBody_append lastKind derived clear]

/-- An `if` without `else`, and behind it a stray brace, a semicolon and an open block. -/
theorem parse?_append_clean_broken :
    let clean := [⟨.ifWord, "if", 1, .nil⟩, ⟨.leftParen, "(", 1, .nil⟩, ⟨.nilWord, "nil", 1, .nil⟩,
      ⟨.rightParen, ")", 1, .nil⟩, ⟨.returnWord, "return", 1, .nil⟩, ⟨.semicolon, ";", 1, .nil⟩]
    let broken := [⟨.rightBrace, "\x7d", 2, .nil⟩, ⟨.semicolon, ";", 2, .nil⟩,
      ⟨.leftBrace, "\x7b", 3, .nil⟩, ⟨.eof, "", 3, .nil⟩]
    ∃ program others, parse? (clean ++ [⟨.eof, "", 1, .nil⟩]) = some program ∧
      program.diagnostics = [] ∧ parse? broken = some others ∧
      parse? (clean ++ broken) =
        some ⟨program.statements ++ others.statements, others.diagnostics⟩ := by
  intro clean broken
  have stopped : (⟨.eof, "", 1, .nil⟩ : Token).kind = .eof := rfl
  have inner : ∀ token ∈ clean, token.kind ≠ .eof := by decide
  have parsed := parse?_body stopped inner
  have silent : (parseBody ⟨.eof, "", 1, .nil⟩ clean).diagnostics = [] := by decide +kernel
  have ended : ∃ token ∈ broken, token.kind = .eof := by decide
  obtain ⟨others, alone, whole⟩ :=
    parse?_append_clean stopped inner parsed silent ended (by decide)
  exact ⟨_, others, parsed, silent, alone, whole⟩

end Program

end Lox
