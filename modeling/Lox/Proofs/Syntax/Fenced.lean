import Lox.Proofs.Syntax.Reads

/-!
Parsing up to a semicolon.  No expression holds one, so the steps of expressions stop in
front of the first there is, and nothing behind it changes what they do.
-/

namespace Lox

def Diagnostic.fatal (diagnostics : List Diagnostic) : List Diagnostic :=
  diagnostics.filter (·.problem.isFatal)

theorem Diagnostic.fatal_append (first second : List Diagnostic) :
    fatal (first ++ second) = fatal first ++ fatal second :=
  List.filter_append first second

namespace Parser

open Diagnostic

variable {α β : Type} {tokens : List Token} {form : α → List Token → Prop}
  {result : β → List Token → Prop}

inductive Sealed : List Token → Prop
  | last {token : Token} : token.kind = .semicolon → Sealed [token]
  | more {token : Token} {rest : List Token} :
      token.kind ≠ .semicolon → Sealed rest → Sealed (token :: rest)

/-- What a step comes to: a value and nothing fatal, or at most one fatal problem, at the
token it stops at. -/
inductive Ends (form : α → List Token → Prop) : Option α → List Token → List Diagnostic → Prop
  | done {value : α} {left : List Token} {notes : List Diagnostic} :
      form value left → fatal notes = [] → Ends form (some value) left notes
  | broken {token : Token} {rest : List Token} {notes : List Diagnostic} :
      Sealed (token :: rest) →
      (fatal notes = [] ∨ ∃ what, fatal notes = [atToken token (.expected what)]) →
      Ends form none (token :: rest) notes

def Stops (form : α → List Token → Prop) (tokens : List Token) (step : Token → Parser α) : Prop :=
  ∃ value left notes, left <:+ tokens ∧ Ends form value left notes ∧
    ∀ stop tail, step stop (tokens ++ tail) = ⟨value, left ++ tail, notes⟩

/-- The step never takes a first semicolon. -/
def Fenced (step : Token → Parser α) : Prop :=
  ∀ tokens, Sealed tokens → Stops (fun _ left => Sealed left) tokens step

theorem Ends.behind {value : Option α} {left : List Token} {notes more : List Diagnostic}
    (ends : Ends form value left more) (harmless : fatal notes = []) :
    Ends form value left (notes ++ more) := by
  have same : fatal (notes ++ more) = fatal more := by rw [fatal_append, harmless, List.nil_append]
  cases ends with
  | done formed silent => exact .done formed (same.trans silent)
  | broken isSealed blames => exact .broken isSealed (by rwa [same])

theorem Stops.bind {first : Token → Parser α} {next : α → Token → Parser β}
    (stops : Stops form tokens first)
    (rest : ∀ value left, left <:+ tokens → form value left → Stops result left (next value)) :
    Stops result tokens fun stop => first stop >>= fun value => next value stop := by
  obtain ⟨_, left, notes, suffix, ends, parsed⟩ := stops
  cases ends with
  | broken isSealed blames =>
      exact ⟨none, _, notes, suffix, .broken isSealed blames, fun stop tail =>
        bind_of_none (parsed stop tail)⟩
  | @done value _ _ formed harmless =>
      obtain ⟨answer, final, more, suffixMore, endsMore, parsedMore⟩ :=
        rest value left suffix formed
      exact ⟨answer, final, notes ++ more, suffixMore.trans suffix, endsMore.behind harmless,
        fun stop tail => bind_of_some (parsed stop tail) (parsedMore stop tail)⟩

theorem Fenced.bind {first : Token → Parser α} {next : α → Token → Parser β}
    (fenced : Fenced first) (rest : ∀ value, Fenced (next value)) :
    Fenced fun stop => first stop >>= fun value => next value stop :=
  fun tokens isSealed => (fenced tokens isSealed).bind fun value left _ => rest value left

theorem stops_pure {value : α} (formed : form value tokens) :
    Stops form tokens fun _ => pure value :=
  ⟨some value, tokens, [], List.suffix_refl tokens, .done formed rfl, fun _ _ => rfl⟩

theorem fenced_pure (value : α) : Fenced fun _ => pure value :=
  fun _ isSealed => stops_pure isSealed

theorem Stops.map {step : Token → Parser α} {change : α → β} (stops : Stops form tokens step)
    (formed : ∀ {value left}, form value left → result (change value) left) :
    Stops result tokens fun stop => change <$> step stop :=
  stops.bind fun _ _ _ given => stops_pure (formed given)

theorem Fenced.map {step : Token → Parser α} (fenced : Fenced step) (change : α → β) :
    Fenced fun stop => change <$> step stop :=
  fenced.bind fun value => fenced_pure (change value)

theorem stops_abandon (isSealed : Sealed tokens) :
    Stops form tokens fun stop => (upTo stop).abandon := by
  refine ⟨none, tokens, [], List.suffix_refl tokens, ?_, fun _ _ => rfl⟩
  cases isSealed with
  | last kind => exact .broken (.last kind) (.inl rfl)
  | more other rest => exact .broken (.more other rest) (.inl rfl)

theorem stops_fail (isSealed : Sealed tokens) (what : String) :
    Stops form tokens fun stop => (upTo stop).fail what := by
  cases isSealed with
  | @last token kind =>
      exact ⟨none, _, [atToken token (.expected what)], List.suffix_refl _,
        .broken (.last kind) (.inr ⟨what, rfl⟩), fun stop tail => rfl⟩
  | @more token _ other rest =>
      exact ⟨none, _, [atToken token (.expected what)], List.suffix_refl _,
        .broken (.more other rest) (.inr ⟨what, rfl⟩), fun stop tail => rfl⟩

theorem fenced_note (token : Token) {problem : Problem} (harmless : problem.isFatal = false) :
    Fenced fun stop => (upTo stop).note token problem := by
  intro tokens isSealed
  refine ⟨some (), tokens, [atToken token problem], List.suffix_refl tokens, .done isSealed ?_,
    fun _ _ => rfl⟩
  simp [fatal, atToken, harmless]

theorem stops_of_reads {left : List Token} {value : α} {step : Token → Parser α}
    (reads : ∀ stop tail, Reads (step stop) (tokens ++ tail) value (left ++ tail))
    (suffix : left <:+ tokens) (formed : form value left) : Stops form tokens step :=
  ⟨some value, left, [], suffix, .done formed rfl, reads⟩

theorem Stops.behindRead {left : List Token} {value : α} {first : Token → Parser α}
    {next : α → Token → Parser β}
    (reads : ∀ stop tail, Reads (first stop) (tokens ++ tail) value (left ++ tail))
    (suffix : left <:+ tokens) (stops : Stops result left (next value)) :
    Stops result tokens fun stop => first stop >>= fun value => next value stop := by
  have read : Stops (fun found rest => found = value ∧ rest = left) tokens first :=
    stops_of_reads reads suffix ⟨rfl, rfl⟩
  refine read.bind fun found rest _ same => ?_
  obtain ⟨rfl, rfl⟩ := same
  exact stops

theorem Stops.ofNext {token : Token} {rest : List Token} {step : Token → Token → Parser α}
    (stops : Stops form (token :: rest) (step token)) :
    Stops form (token :: rest) fun stop => (upTo stop).next >>= fun token => step token stop :=
  .behindRead (fun _ _ => rfl) (List.suffix_refl _) stops

theorem Stops.skipped {token : Token} {rest : List Token} {step : Token → Parser α}
    (stops : Stops form rest step) :
    Stops form (token :: rest) fun stop => (upTo stop).skip >>= fun _ => step stop :=
  .behindRead (fun _ _ => rfl) (List.suffix_cons token rest) stops

theorem Stops.ofSees {kind : Kind} {token : Token} {rest : List Token}
    {present absent : Token → Parser α}
    (stopsPresent : token.kind = kind → Stops form (token :: rest) present)
    (stopsAbsent : token.kind ≠ kind → Stops form (token :: rest) absent) :
    Stops form (token :: rest) fun stop => (upTo stop).sees kind >>= fun seen =>
      if seen = true then present stop else absent stop := by
  by_cases same : token.kind = kind
  · have seen : ∀ (stop : Token) tail, Reads ((upTo stop).sees kind) (token :: rest ++ tail) true
        (token :: rest ++ tail) := by
      simp [Reads, upTo, same]
    exact .behindRead seen (List.suffix_refl _) (stopsPresent same)
  · have unseen : ∀ (stop : Token) tail, Reads ((upTo stop).sees kind) (token :: rest ++ tail) false
        (token :: rest ++ tail) := by
      simp [Reads, upTo, same]
    exact .behindRead unseen (List.suffix_refl _) (stopsAbsent same)

theorem Fenced.ofSeen {kind : Kind} (other : kind ≠ .semicolon) {present absent : Token → Parser α}
    (fencedPresent : Fenced present) (fencedAbsent : Fenced absent) :
    Fenced fun stop => (upTo stop).sees kind >>= fun seen =>
      if seen = true then (upTo stop).skip >>= fun _ => present stop else absent stop := by
  intro tokens isSealed
  cases isSealed with
  | last isLast =>
      exact .ofSees (fun same => absurd (same.symm.trans isLast) other)
        fun _ => fencedAbsent _ (.last isLast)
  | more apart rest =>
      exact .ofSees (fun _ => (fencedPresent _ rest).skipped) fun _ =>
        fencedAbsent _ (.more apart rest)

theorem Fenced.unlessSees {kind : Kind} {absent : α} {present : Token → Parser α}
    (fenced : Fenced present) :
    Fenced fun stop => (upTo stop).unlessSees kind absent (present stop) := by
  intro tokens isSealed
  have fenced := fenced tokens isSealed
  have given : Stops (fun _ left => Sealed left) tokens fun _ => pure absent := stops_pure isSealed
  cases isSealed <;> exact .ofSees (fun _ => given) fun _ => fenced

theorem fenced_accept? {kinds : List Kind} (other : Kind.semicolon ∉ kinds) :
    Fenced fun stop => (upTo stop).accept? kinds := by
  intro tokens isSealed
  have unread {token : Token} {rest : List Token} (unlike : token.kind ∉ kinds) (stop : Token)
      (tail : List Token) :
      Reads ((upTo stop).accept? kinds) (token :: rest ++ tail) none (token :: rest ++ tail) :=
    reads_accept?.2 (.inr ⟨rfl, clear_cons.2 unlike, rfl⟩)
  cases isSealed with
  | last isLast =>
      exact stops_of_reads (unread (isLast ▸ other)) (List.suffix_refl _) (.last isLast)
  | @more token rest apart isSealed =>
      by_cases member : token.kind ∈ kinds
      · have read (stop : Token) (tail : List Token) :
            Reads ((upTo stop).accept? kinds) (token :: rest ++ tail) (some token) (rest ++ tail) :=
          reads_accept?.2 (.inl ⟨token, rfl, member, rfl⟩)
        exact stops_of_reads read (List.suffix_cons token rest) isSealed
      · exact stops_of_reads (unread member) (List.suffix_refl _) (.more apart isSealed)

theorem fenced_expect {kind : Kind} (other : kind ≠ .semicolon) (what : String) :
    Fenced fun stop => (upTo stop).expect kind what := by
  have accepted : Fenced fun stop => (upTo stop).accept? [kind] :=
    fenced_accept? (by simpa using other.symm)
  refine accepted.bind fun answer => ?_
  cases answer with
  | none => exact fun tokens isSealed => stops_fail isSealed what
  | some token => exact fenced_pure token

theorem fenced_limit (count : Nat) {problem : Problem} (harmless : problem.isFatal = false) :
    Fenced fun stop => (upTo stop).limit count problem := by
  unfold Reader.limit
  split
  · intro tokens isSealed
    have noted (token : Token) := fenced_note token harmless tokens isSealed
    cases isSealed <;> exact .ofNext (noted _)
  · exact fenced_pure ()

theorem Fenced.behind? {kinds : List Kind} {present : Token → Parser α} (fenced : Fenced present)
    (other : Kind.semicolon ∉ kinds) :
    Fenced fun stop => (upTo stop).behind? kinds (present stop) := by
  refine (fenced_accept? other).bind fun answer => ?_
  cases answer with
  | none => exact fenced_pure none
  | some token => exact fenced.map some

end Parser

open Lox.Parser

structure Expr.Fenced (budget : Nat) : Prop where
  parse : Parser.Fenced fun stop => (upTo stop).parseExpr budget
  level : ∀ levels : List Level, (∀ level ∈ levels, Kind.semicolon ∉ level.operators) →
    Parser.Fenced fun stop => (upTo stop).parseLevel budget levels
  operands : ∀ (level : Level) (higher : List Level) left, Kind.semicolon ∉ level.operators →
    (∀ level ∈ higher, Kind.semicolon ∉ level.operators) →
    Parser.Fenced fun stop => (upTo stop).parseOperands budget level higher left
  unary : Parser.Fenced fun stop => (upTo stop).parseUnary budget
  calls : ∀ callee, Parser.Fenced fun stop => (upTo stop).parseCalls budget callee
  arguments : ∀ count, Parser.Fenced fun stop => (upTo stop).parseArguments budget count
  primary : Parser.Fenced fun stop => (upTo stop).parsePrimary budget

namespace Expr

variable {budget : Nat}

theorem Fenced.parse_succ (fenced : Expr.Fenced budget) :
    Parser.Fenced fun stop => (upTo stop).parseExpr (budget + 1) := by
  simp only [Reader.parseExpr]
  refine (fenced.level levels (by decide)).bind fun target => ?_
  refine (fenced_accept? (by decide)).bind fun answer => ?_
  cases answer with
  | none => exact fenced_pure target
  | some equals =>
      refine fenced.parse.bind fun value => ?_
      cases target with
      | ident name => exact fenced_pure _
      | member object name => exact fenced_pure _
      | _ => exact (fenced_note equals rfl).bind fun _ => fenced_pure _

theorem Fenced.level_succ (fenced : Expr.Fenced budget) (levels : List Level)
    (apart : ∀ level ∈ levels, Kind.semicolon ∉ level.operators) :
    Parser.Fenced fun stop => (upTo stop).parseLevel (budget + 1) levels := by
  cases levels with
  | nil =>
      simp only [Reader.parseLevel]
      exact fenced.unary
  | cons level higher =>
      obtain ⟨levelApart, higherApart⟩ := List.forall_mem_cons.1 apart
      simp only [Reader.parseLevel]
      refine (fenced.level higher higherApart).bind fun left => ?_
      exact fenced.operands level higher left levelApart higherApart

theorem Fenced.operands_succ (fenced : Expr.Fenced budget) (level : Level) (higher : List Level)
    (left : Expr) (levelApart : Kind.semicolon ∉ level.operators)
    (higherApart : ∀ level ∈ higher, Kind.semicolon ∉ level.operators) :
    Parser.Fenced fun stop => (upTo stop).parseOperands (budget + 1) level higher left := by
  simp only [Reader.parseOperands]
  refine (fenced_accept? levelApart).bind fun answer => ?_
  cases answer with
  | none => exact fenced_pure left
  | some operator =>
      refine (fenced.level higher higherApart).bind fun right => ?_
      exact fenced.operands level higher _ levelApart higherApart

theorem Fenced.unary_succ (fenced : Expr.Fenced budget) :
    Parser.Fenced fun stop => (upTo stop).parseUnary (budget + 1) := by
  simp only [Reader.parseUnary]
  refine (fenced_accept? (by decide)).bind fun answer => ?_
  cases answer with
  | none => exact fenced.primary.bind fun callee => fenced.calls callee
  | some operator => exact fenced.unary.bind fun operand => fenced_pure _

theorem Fenced.calls_succ (fenced : Expr.Fenced budget) (callee : Expr) :
    Parser.Fenced fun stop => (upTo stop).parseCalls (budget + 1) callee := by
  simp only [Reader.parseCalls]
  refine Parser.Fenced.ofSeen (by decide) ?_ ?_
  · refine (fenced.arguments 0).unlessSees.bind fun arguments => ?_
    exact (fenced_expect (by decide) _).bind fun paren => fenced.calls _
  · refine Parser.Fenced.ofSeen (by decide) ?_ (fenced_pure callee)
    exact (fenced_expect (by decide) _).bind fun name => fenced.calls _

theorem Fenced.arguments_succ (fenced : Expr.Fenced budget) (count : Nat) :
    Parser.Fenced fun stop => (upTo stop).parseArguments (budget + 1) count := by
  simp only [Reader.parseArguments]
  refine (fenced_limit count rfl).bind fun _ => ?_
  refine fenced.parse.bind fun argument => ?_
  refine (fenced_accept? (by decide)).bind fun answer => ?_
  cases answer with
  | none => exact fenced_pure [argument]
  | some comma => exact (fenced.arguments (count + 1)).bind fun arguments => fenced_pure _

theorem Fenced.primary_succ (fenced : Expr.Fenced budget) :
    Parser.Fenced fun stop => (upTo stop).parsePrimary (budget + 1) := by
  intro tokens isSealed
  simp only [Reader.parsePrimary]
  cases isSealed with
  | last isLast =>
      refine Stops.ofNext ?_
      simp only [isLast]
      exact stops_fail (.last isLast) "expression"
  | @more token rest apart isSealed =>
      refine Stops.ofNext ?_
      cases kind : token.kind with
      | falseWord | trueWord | nilWord | number | string | thisWord | identifier =>
          exact (stops_pure isSealed).skipped
      | superWord =>
          have dotted := fenced_expect (by decide : Kind.dot ≠ .semicolon) "'.' after 'super'"
          have named := fenced_expect (by decide : Kind.identifier ≠ .semicolon)
            "superclass method name"
          have method := dotted.bind fun _ => named.bind fun name =>
            fenced_pure (Expr.super token name)
          exact (method rest isSealed).skipped
      | leftParen =>
          have inner := fenced.parse.bind fun inner =>
            (fenced_expect (by decide : Kind.rightParen ≠ .semicolon) "')' after expression").bind
              fun _ => fenced_pure (Expr.grouping inner)
          exact (inner rest isSealed).skipped
      | _ => exact stops_fail (.more apart isSealed) "expression"

theorem fenced (budget : Nat) : Expr.Fenced budget := by
  induction budget with
  | zero => constructor <;> intros <;> exact fun _ isSealed => stops_abandon isSealed
  | succ budget fenced =>
      exact {
        parse := fenced.parse_succ
        level := fenced.level_succ
        operands := fenced.operands_succ
        unary := fenced.unary_succ
        calls := fenced.calls_succ
        arguments := fenced.arguments_succ
        primary := fenced.primary_succ
      }

end Expr

end Lox
