import Lox.Proofs.Syntax.Parser

/-!
Parsing steps that succeed without a note, one rule for each way to build a step, and steps
that succeed with notes.
-/

namespace Lox.Parser

variable {α β : Type} {stop : Token}

def Reads (step : Parser α) (tokens : List Token) (value : α) (rest : List Token) : Prop :=
  step tokens = ⟨some value, rest, []⟩

def Clear (kinds : List Kind) (tokens : List Token) : Prop :=
  ∀ token ∈ tokens.head?, token.kind ∉ kinds

@[simp] theorem clear_nil (kinds : List Kind) : Clear kinds [] := by
  simp [Clear]

@[simp] theorem clear_cons {kinds : List Kind} {token : Token} {rest : List Token} :
    Clear kinds (token :: rest) ↔ token.kind ∉ kinds := by
  simp [Clear]

theorem Clear.mono {kinds fewer : List Kind} {tokens : List Token} (clear : Clear kinds tokens)
    (subset : fewer ⊆ kinds) : Clear fewer tokens :=
  fun token first member => clear token first (subset member)

theorem pure_apply (value : α) (tokens : List Token) :
    (pure value : Parser α) tokens = ⟨some value, tokens, []⟩ := rfl

theorem map_eq_bind (change : α → β) (step : Parser α) :
    change <$> step = step >>= fun value => pure (change value) := rfl

theorem map_apply (change : α → β) (step : Parser α) (tokens : List Token) :
    (change <$> step) tokens =
      ⟨(step tokens).value.map change, (step tokens).rest, (step tokens).notes⟩ := by
  change Parser.bind step (fun value => pure (change value)) tokens = _
  cases parsed : step tokens with
  | mk value rest notes => cases value <;> simp [Parser.bind, parsed, pure_apply]

theorem bind_of_reads {first : Parser α} {next : α → Parser β} {tokens rest : List Token}
    {value : α} (reads : Reads first tokens value rest) :
    (first >>= next) tokens = next value rest := by
  change Parser.bind first next tokens = _
  unfold Reads at reads
  simp [Parser.bind, reads]

theorem bind_of_some {first : Parser α} {next : α → Parser β} {tokens rest left : List Token}
    {value : α} {answer : Option β} {notes more : List Diagnostic}
    (parsed : first tokens = ⟨some value, rest, notes⟩)
    (parsedNext : next value rest = ⟨answer, left, more⟩) :
    (first >>= next) tokens = ⟨answer, left, notes ++ more⟩ := by
  change Parser.bind first next tokens = _
  simp only [Parser.bind, parsed, parsedNext]

theorem bind_of_none {first : Parser α} {next : α → Parser β} {tokens rest : List Token}
    {notes : List Diagnostic} (parsed : first tokens = ⟨none, rest, notes⟩) :
    (first >>= next) tokens = ⟨none, rest, notes⟩ := by
  change Parser.bind first next tokens = _
  simp only [Parser.bind, parsed]

@[simp] theorem reads_pure {value result : α} {tokens rest : List Token} :
    Reads (pure value) tokens result rest ↔ value = result ∧ tokens = rest := by
  simp [Reads, pure_apply]

@[simp] theorem reads_bind {first : Parser α} {next : α → Parser β} {tokens rest : List Token}
    {result : β} :
    Reads (first >>= next) tokens result rest ↔
      ∃ value middle, Reads first tokens value middle ∧ Reads (next value) middle result rest := by
  constructor
  · intro reads
    change Parser.bind first next tokens = _ at reads
    cases parsed : first tokens with
    | mk value middle notes =>
        cases value with
        | none => simp [Parser.bind, parsed] at reads
        | some value =>
            simp only [Parser.bind, parsed, Parsed.mk.injEq, List.append_eq_nil_iff] at reads
            obtain ⟨valueEq, restEq, rfl, notesEq⟩ := reads
            refine ⟨value, middle, parsed, ?_⟩
            unfold Reads
            rw [← valueEq, ← restEq, ← notesEq]
  · rintro ⟨value, middle, reads, after⟩
    unfold Reads
    rw [bind_of_reads reads]
    exact after

@[simp] theorem reads_map {change : α → β} {step : Parser α} {tokens rest : List Token}
    {result : β} :
    Reads (change <$> step) tokens result rest ↔
      ∃ value, Reads step tokens value rest ∧ change value = result := by
  rw [map_eq_bind, reads_bind]
  constructor
  · rintro ⟨value, middle, reads, after⟩
    obtain ⟨rfl, rfl⟩ := reads_pure.1 after
    exact ⟨value, reads, rfl⟩
  · rintro ⟨value, reads, rfl⟩
    exact ⟨value, rest, reads, by simp⟩

@[simp] theorem not_reads_abandon {tokens rest : List Token} {value : α} :
    ¬ Reads (upTo stop).abandon tokens value rest := by
  simp [Reads, upTo]

@[simp] theorem not_reads_fail {what : String} {tokens rest : List Token}
    {value : α} : ¬ Reads ((upTo stop).fail what) tokens value rest := by
  simp [Reads, upTo]

@[simp] theorem not_reads_note {token : Token} {problem : Problem} {tokens rest : List Token}
    {value : Unit} : ¬ Reads ((upTo stop).note token problem) tokens value rest := by
  simp [Reads, upTo]

@[simp] theorem reads_next {token : Token} {tokens rest : List Token} :
    Reads (upTo stop).next tokens token rest ↔ tokens.headD stop = token ∧ tokens = rest := by
  simp [Reads, upTo]

@[simp] theorem reads_skip {tokens rest : List Token} {value : Unit} :
    Reads (upTo stop).skip tokens value rest ↔ tokens.tail = rest := by
  simp [Reads, upTo]

theorem reads_skipped {step : Parser α} {token : Token} {tail rest : List Token} {value : α} :
    Reads ((upTo stop).skip >>= fun _ => step) (token :: tail) value rest ↔
      Reads step tail value rest := by
  simp [reads_bind]

theorem reads_ifSees {kind : Kind} {present absent : Parser α} {tokens rest : List Token}
    {value : α} :
    Reads ((upTo stop).sees kind >>= fun seen => if seen = true then present else absent) tokens
        value rest ↔
      (∃ token tail, token.kind = kind ∧ tokens = token :: tail ∧
        Reads present tokens value rest) ∨
      Clear [kind] tokens ∧ Reads absent tokens value rest := by
  rw [reads_bind]
  cases tokens with
  | nil => simp [Reads, upTo]
  | cons token tail =>
      by_cases same : token.kind = kind
      · have seen : Reads ((upTo stop).sees kind) (token :: tail) true (token :: tail) := by
          simp [Reads, upTo, same]
        constructor
        · rintro ⟨answer, middle, sought, after⟩
          unfold Reads at sought seen
          grind
        · rintro (⟨-, -, -, -, reads⟩ | ⟨clear, -⟩)
          · exact ⟨true, _, seen, by simpa using reads⟩
          · exact absurd same (by simpa using clear)
      · have unseen : Reads ((upTo stop).sees kind) (token :: tail) false (token :: tail) := by
          simp [Reads, upTo, same]
        constructor
        · rintro ⟨answer, middle, sought, after⟩
          unfold Reads at sought unseen
          grind [clear_cons]
        · rintro (⟨other, _, found, tokensEq, -⟩ | ⟨-, reads⟩)
          · simp only [List.cons.injEq] at tokensEq
            exact absurd (tokensEq.1 ▸ found) same
          · exact ⟨false, _, unseen, by simpa using reads⟩

@[simp] theorem reads_blockEnds {answer : Bool} {tokens rest : List Token} :
    Reads (upTo stop).blockEnds tokens answer rest ↔
      tokens.head?.all (·.kind = .rightBrace) = answer ∧ tokens = rest := by
  simp [Reads, upTo]

@[simp] theorem reads_atEnd {answer : Bool} {tokens rest : List Token} :
    Reads (upTo stop).atEnd tokens answer rest ↔ tokens.isEmpty = answer ∧ tokens = rest := by
  simp [Reads, upTo]

theorem reads_accept? {kinds : List Kind} {answer : Option Token} {tokens rest : List Token} :
    Reads ((upTo stop).accept? kinds) tokens answer rest ↔
      (∃ token, answer = some token ∧ token.kind ∈ kinds ∧ tokens = token :: rest) ∨
        answer = none ∧ Clear kinds tokens ∧ tokens = rest := by
  cases tokens with
  | nil =>
      simp only [Reads, upTo, accept?, Parsed.mk.injEq, Option.some.injEq, clear_nil]
      grind
  | cons token tail =>
      by_cases member : token.kind ∈ kinds
      · simp only [Reads, upTo, accept?, member, if_true, Parsed.mk.injEq, Option.some.injEq,
          clear_cons]
        grind
      · simp only [Reads, upTo, accept?, member, if_false, Parsed.mk.injEq, Option.some.injEq,
          clear_cons]
        grind

@[simp] theorem reads_expect {token : Token} {kind : Kind} {what : String}
    {tokens rest : List Token} :
    Reads ((upTo stop).expect kind what) tokens token rest ↔
      token.kind = kind ∧ tokens = token :: rest := by
  unfold Reader.expect
  rw [reads_bind]
  constructor
  · rintro ⟨answer, middle, accepted, after⟩
    rcases reads_accept?.1 accepted with ⟨found, rfl, member, rfl⟩ | ⟨rfl, -, rfl⟩
    · obtain ⟨rfl, rfl⟩ := reads_pure.1 after
      exact ⟨by simpa using member, rfl⟩
    · exact absurd after not_reads_fail
  · rintro ⟨rfl, rfl⟩
    exact ⟨some token, rest, reads_accept?.2 (.inl ⟨token, rfl, by simp, rfl⟩), by simp⟩

theorem reads_behind? {kinds : List Kind} {present : Parser α} {answer : Option α}
    {tokens rest : List Token} :
    Reads ((upTo stop).behind? kinds present) tokens answer rest ↔
      (∃ token value middle, token.kind ∈ kinds ∧ tokens = token :: middle ∧
        Reads present middle value rest ∧ answer = some value) ∨
      answer = none ∧ Clear kinds tokens ∧ tokens = rest := by
  unfold Reader.behind?
  rw [reads_bind]
  constructor
  · rintro ⟨found, middle, accepted, after⟩
    rcases reads_accept?.1 accepted with ⟨token, rfl, member, rfl⟩ | ⟨rfl, clear, rfl⟩
    · obtain ⟨value, reads, rfl⟩ := reads_map.1 after
      exact .inl ⟨token, value, middle, member, rfl, reads, rfl⟩
    · obtain ⟨rfl, rfl⟩ := reads_pure.1 after
      exact .inr ⟨rfl, clear, rfl⟩
  · rintro (⟨token, value, middle, member, rfl, reads, rfl⟩ | ⟨rfl, clear, rfl⟩)
    · exact ⟨some token, middle, reads_accept?.2 (.inl ⟨token, rfl, member, rfl⟩),
        reads_map.2 ⟨value, reads, rfl⟩⟩
    · exact ⟨none, tokens, reads_accept?.2 (.inr ⟨rfl, clear, rfl⟩), by simp⟩

theorem reads_unlessSees {kind : Kind} {absent value : α} {present : Parser α}
    {tokens rest : List Token} :
    Reads ((upTo stop).unlessSees kind absent present) tokens value rest ↔
      (∃ token tail, token.kind = kind ∧ tokens = token :: tail ∧
        absent = value ∧ tokens = rest) ∨
      Clear [kind] tokens ∧ Reads present tokens value rest := by
  unfold Reader.unlessSees
  rw [reads_ifSees]
  simp only [reads_pure]

@[simp] theorem reads_limit {count : Nat} {problem : Problem}
    {tokens rest : List Token} {value : Unit} :
    Reads ((upTo stop).limit count problem) tokens value rest ↔
      count < maxArguments ∧ tokens = rest := by
  unfold Reader.limit
  by_cases long : maxArguments ≤ count
  · simp [long, Nat.not_lt.2 long]
  · simp [long, Nat.lt_of_not_le long]

theorem reads_recover {step : Parser α} {tokens rest : List Token} {answer : Option α}
    (loud : (step tokens).value = none → (step tokens).notes ≠ []) :
    Reads ((upTo stop).recover step) tokens answer rest ↔
      ∃ value, answer = some value ∧ Reads step tokens value rest := by
  unfold Reads
  rw [upTo_recover, recover]
  cases parsed : step tokens with
  | mk value left notes =>
      rw [parsed] at loud
      cases value with
      | none => simp [loud]
      | some value =>
          simp only [Parsed.mk.injEq, Option.some.injEq]
          grind

def Reports (step : Parser α) (tokens : List Token) (value : α) (rest : List Token)
    (notes : List Diagnostic) : Prop :=
  step tokens = ⟨some value, rest, notes⟩

/-- What was parsed, with notes from before it. -/
def noting (notes : List Diagnostic) (parsed : Parsed α) : Parsed α :=
  ⟨parsed.value, parsed.rest, notes ++ parsed.notes⟩

@[simp] theorem noting_nil (parsed : Parsed α) : noting [] parsed = parsed := rfl

@[simp] theorem noting_noting (first second : List Diagnostic) (parsed : Parsed α) :
    noting first (noting second parsed) = noting (first ++ second) parsed := by
  simp [noting]

theorem Reads.reports {step : Parser α} {tokens rest : List Token} {value : α}
    (reads : Reads step tokens value rest) : Reports step tokens value rest [] :=
  reads

section Reports

variable {tokens middle rest : List Token} {value : α} {result : β}
  {notes more : List Diagnostic} {first : Parser α} {next : α → Parser β}

theorem Reports.bind_eq (reports : Reports first tokens value middle notes) :
    (first >>= next) tokens = noting notes (next value middle) :=
  bind_of_some reports rfl

theorem Reports.bind (reports : Reports first tokens value middle notes)
    (reportsNext : Reports (next value) middle result rest more) :
    Reports (first >>= next) tokens result rest (notes ++ more) :=
  bind_of_some reports reportsNext

theorem Reads.andThen (reads : Reads first tokens value middle)
    (reportsNext : Reports (next value) middle result rest notes) :
    Reports (first >>= next) tokens result rest notes :=
  (bind_of_reads reads).trans reportsNext

theorem Reports.andThen (reports : Reports first tokens value middle notes)
    (reads : Reads (next value) middle result rest) :
    Reports (first >>= next) tokens result rest notes := by
  have both := reports.bind reads.reports
  rwa [List.append_nil] at both

theorem Reports.map (change : α → β) (reports : Reports first tokens value rest notes) :
    Reports (change <$> first) tokens (change value) rest notes := by
  rw [Reports, map_apply, reports]
  rfl

theorem Reports.skipped {step : Parser α} {token : Token} {tail : List Token}
    (reports : Reports step tail value rest notes) :
    Reports ((upTo stop).skip >>= fun _ => step) (token :: tail) value rest notes := by
  have dropped : Reads (upTo stop).skip (token :: tail) () tail := reads_skip.2 rfl
  exact dropped.andThen reports

theorem Reports.ifSeen {kind : Kind} {token : Token} {tail : List Token} {present absent : Parser α}
    (seen : token.kind = kind) (reports : Reports present (token :: tail) value rest notes) :
    Reports ((upTo stop).sees kind >>= fun seen => if seen = true then present else absent)
      (token :: tail) value rest notes := by
  have found : Reads ((upTo stop).sees kind) (token :: tail) true (token :: tail) := by
    simp [Reads, upTo, seen]
  exact found.andThen (by rwa [if_pos rfl])

theorem Reports.ifUnseen {kind : Kind} {present absent : Parser α} (clear : Clear [kind] tokens)
    (reports : Reports absent tokens value rest notes) :
    Reports ((upTo stop).sees kind >>= fun seen => if seen = true then present else absent)
      tokens value rest notes := by
  have missing : Reads ((upTo stop).sees kind) tokens false tokens := by
    cases tokens with
    | nil => rfl
    | cons token tail => simpa [Reads, upTo] using clear
  exact missing.andThen (by rwa [if_neg Bool.false_ne_true])

theorem Reports.unlessSees {kind : Kind} {absent : α} {present : Parser α}
    (clear : Clear [kind] tokens) (reports : Reports present tokens value rest notes) :
    Reports ((upTo stop).unlessSees kind absent present) tokens value rest notes :=
  .ifUnseen clear reports

theorem Reports.behind? {kinds : List Kind} {token : Token} {present : Parser α}
    (member : token.kind ∈ kinds) (reports : Reports present middle value rest notes) :
    Reports ((upTo stop).behind? kinds present) (token :: middle) (some value) rest notes := by
  have accepted : Reads ((upTo stop).accept? kinds) (token :: middle) (some token) middle :=
    reads_accept?.2 (.inl ⟨token, rfl, member, rfl⟩)
  exact accepted.andThen (reports.map some)

theorem Reports.recover {step : Parser α} (reports : Reports step tokens value rest notes) :
    Reports ((upTo stop).recover step) tokens (some value) rest notes := by
  rw [Reports, upTo_recover, Parser.recover, reports]

theorem reports_limit {count : Nat} {problem : Problem} {token : Token} {tail : List Token} :
    Reports ((upTo stop).limit count problem) (token :: tail) () (token :: tail)
      (if 255 ≤ count then [Diagnostic.atToken token problem] else []) := by
  unfold Reader.limit
  by_cases long : 255 ≤ count
  · have beyond : maxArguments ≤ count := long
    rw [if_pos beyond, if_pos long]
    rfl
  · have within : ¬ maxArguments ≤ count := long
    rw [if_neg within, if_neg long]
    rfl

end Reports

end Lox.Parser
