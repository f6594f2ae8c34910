import Lox.Proofs.Syntax.Cursor

/-!
Parsing ends, and in bounds, whatever the tokens are.
-/

namespace Lox

def Cursor.Reaches (cursor final : Cursor) : Prop :=
  ∃ passed, cursor.ahead = passed ++ final.ahead ∧ final.behind = passed.reverse ++ cursor.behind ∧
    ∀ token ∈ passed, token.kind ≠ .eof

namespace Walk

variable {α β : Type}

theorem noted_eq_read {reading : Reading α} {value : Option α} {cursor : Cursor}
    {notes all : List Diagnostic} (noted : reading.noted notes = .read value cursor all) :
    ∃ more, reading = .read value cursor more := by
  cases reading with
  | read found place more =>
      cases noted
      exact ⟨more, rfl⟩
  | _ => cases noted

theorem bind_eq_read {first : Walk α} {next : α → Walk β} {cursor final : Cursor} {value : β}
    {all : List Diagnostic} (walked : (first >>= next) cursor = .read (some value) final all) :
    ∃ found middle notes more, first cursor = .read (some found) middle notes ∧
      next found middle = .read (some value) final more := by
  change Walk.bind first next cursor = _ at walked
  unfold Walk.bind at walked
  split at walked
  next found middle notes walkedFirst =>
    obtain ⟨more, walkedNext⟩ := noted_eq_read walked
    exact ⟨found, middle, notes, more, walkedFirst, walkedNext⟩
  all_goals cases walked

theorem parseAll_ends {budget : Nat} {cursor final : Cursor} {statements : List Stmt}
    {notes : List Diagnostic}
    (walked : reader.parseAll budget cursor = .read (some statements) final notes) :
    ∃ stop rest, final.ahead = stop :: rest ∧ stop.kind = .eof := by
  induction budget generalizing cursor statements notes with
  | zero => cases walked
  | succ budget ih =>
      rw [Reader.parseAll] at walked
      obtain ⟨ended, middle, _, _, looked, walked⟩ := bind_eq_read walked
      cases ended with
      | false =>
          obtain ⟨_, _, _, _, _, walked⟩ := bind_eq_read walked
          obtain ⟨_, _, _, _, walkedOthers, walked⟩ := bind_eq_read walked
          cases walked
          exact ih walkedOthers
      | true =>
          cases walked
          obtain ⟨behind, ahead⟩ := cursor
          cases ahead with
          | nil => cases looked
          | cons stop rest =>
              change isAtEnd _ = _ at looked
              rw [isAtEnd_cons] at looked
              simp only [Reading.read.injEq, Option.some.injEq, decide_eq_true_eq] at looked
              obtain ⟨stopped, rfl, -⟩ := looked
              exact ⟨stop, rest, rfl, stopped⟩

variable {stop : Token} {before : List Token}

theorem parseAll_outside {tokens : List Token} (inner : ∀ token ∈ tokens, token.kind ≠ .eof)
    {budget : Nat} (enough : 16 * tokens.length + 14 ≤ budget) (behind : List Token) :
    reader.parseAll budget ⟨behind, tokens⟩ = .outside := by
  have stopped : (⟨.eof, "", 0, .nil⟩ : Token).kind = .eof := rfl
  have follows : Follows [] False (fun _ rest => rest = []) tokens (reader.parseAll budget)
      ((Parser.upTo ⟨.eof, "", 0, .nil⟩).parseAll budget) :=
    (lockstep stopped (.inl rfl)).agree_parseAll stopped budget budget tokens (Nat.le_refl _) enough
  have walked := follows inner behind
  rw [List.append_nil] at walked
  rcases walked with ⟨-, lost⟩ | ⟨value, moved, rest, notes, -, -, walked, formed, broken⟩
  · exact lost
  · cases value with
    | none => exact (broken rfl).elim
    | some statements =>
        have ended : rest = [] := formed statements rfl
        subst ended
        obtain ⟨_, _, ahead, -⟩ := parseAll_ends walked
        cases ahead

theorem parseAll_before (stopped : stop.kind = .eof)
    (inner : ∀ token ∈ before, token.kind ≠ .eof) {budget : Nat}
    (enough : 16 * before.length + 14 ≤ budget) (behind others : List Token)
    {statements : List Stmt} {notes : List Diagnostic}
    (parsed : (Parser.upTo stop).parseAll budget before = ⟨some statements, [], notes⟩) :
    reader.parseAll budget ⟨behind, before ++ stop :: others⟩ =
      .read (some statements) ⟨before.reverse ++ behind, stop :: others⟩ notes := by
  have follows : Follows (stop :: others) False (fun _ rest => rest = []) before
      (reader.parseAll budget) ((Parser.upTo stop).parseAll budget) :=
    (lockstep stopped (.inr ⟨others, rfl⟩)).agree_parseAll stopped budget budget before
      (Nat.le_refl _) enough
  rcases follows inner behind with ⟨absent, -⟩ | ⟨value, moved, rest, more, split, same, walked, -⟩
  · cases absent
  · rw [parsed] at same
    cases same
    rw [List.append_nil] at split
    rw [walked, split]
    rfl

theorem exists_ending (tokens : List Token) :
    ∃ before beyond stop, tokens = before ++ beyond ∧ (∀ token ∈ before, token.kind ≠ .eof) ∧
      stop.kind = .eof ∧ Ending stop beyond := by
  induction tokens with
  | nil => exact ⟨[], [], ⟨.eof, "", 0, .nil⟩, rfl, by simp, rfl, .inl rfl⟩
  | cons token rest ih =>
      by_cases stopped : token.kind = .eof
      · exact ⟨[], token :: rest, token, rfl, by simp, stopped, .inr ⟨rest, rfl⟩⟩
      · obtain ⟨before, beyond, stop, rfl, inner, stopKind, ending⟩ := ih
        exact ⟨token :: before, beyond, stop, rfl, List.forall_mem_cons.2 ⟨stopped, inner⟩,
          stopKind, ending⟩

theorem reads_parse_iff (stopped : stop.kind = .eof) (inner : ∀ token ∈ before, token.kind ≠ .eof)
    {budget : Nat} (enough : 16 * before.length + 11 ≤ budget) (behind others : List Token)
    {statement : Stmt} {rest : List Token} :
    Parser.Reads (Stmt.parse stop budget) before statement rest ↔
      ∃ moved, before = moved ++ rest ∧
        reader.parseStmt budget ⟨behind, before ++ stop :: others⟩ =
          .read (some statement) ⟨moved.reverse ++ behind, rest ++ stop :: others⟩ [] := by
  have settled : (lockstep stopped (.inr ⟨others, rfl⟩)).SettledStmts budget budget :=
    Lockstep.settledStmts_of_le stopped budget budget (Nat.le_refl _)
  have follows : Follows (stop :: others) True _ before (reader.parseStmt budget) _ :=
    settled.statement before.length enough before (Nat.le_refl _)
  rcases follows inner behind with ⟨absent, -⟩ | ⟨value, moved, left, notes, rfl, same, walked, -⟩
  · cases absent
  · unfold Parser.Reads
    rw [walked]
    constructor
    · intro reads
      cases same.symm.trans reads
      exact ⟨moved, rfl, rfl⟩
    · rintro ⟨_, -, found⟩
      simp only [Reading.read.injEq, Cursor.mk.injEq, List.append_cancel_right_eq] at found
      obtain ⟨rfl, ⟨-, rfl⟩, rfl⟩ := found
      exact same

theorem parseDeclaration_moves {token : Token} (unlike : token.kind ≠ .eof) {tail : List Token}
    {budget : Nat} (enough : 16 * (tail.length + 1) + 13 ≤ budget) (behind : List Token) :
    (∀ later ∈ tail, later.kind ≠ .eof) ∧
        reader.parseDeclaration budget ⟨behind, token :: tail⟩ = .outside ∨
      ∃ answer final notes,
        reader.parseDeclaration budget ⟨behind, token :: tail⟩ = .read (some answer) final notes ∧
        Cursor.Reaches ⟨behind, token :: tail⟩ final ∧ behind.length < final.position := by
  obtain ⟨before, beyond, stop, rfl, innerBefore, stopped, ending⟩ := exists_ending tail
  have inner : ∀ passed ∈ token :: before, passed.kind ≠ .eof :=
    List.forall_mem_cons.2 ⟨unlike, innerBefore⟩
  rw [List.length_append] at enough
  have settled : (lockstep stopped ending).SettledStmts budget budget :=
    Lockstep.settledStmts_of_le stopped budget budget (Nat.le_refl _)
  have follows : Follows beyond False _ (token :: before) (reader.parseDeclaration budget) _ :=
    settled.declaration token before (by omega)
  rcases follows inner behind with
    ⟨rfl, lost⟩ | ⟨value, moved, rest, notes, split, -, walked, formed, broken⟩
  · rw [List.append_nil]
    rw [List.append_nil] at lost
    exact .inl ⟨innerBefore, lost⟩
  · cases value with
    | none => exact (broken rfl).elim
    | some answer =>
        have shorter := formed answer rfl
        have innerMoved : ∀ passed ∈ moved, passed.kind ≠ .eof :=
          fun passed member => inner passed (split ▸ List.mem_append_left rest member)
        have length := congrArg List.length split
        rw [List.length_append] at length
        refine .inr ⟨answer, _, notes, walked, ⟨moved, ?_, rfl, innerMoved⟩, ?_⟩
        · rw [← List.append_assoc, ← split, List.cons_append]
        · simp only [Cursor.position, List.length_append, List.length_reverse]
          omega

end Walk

namespace Program

theorem budgetFor_mono {fewer more : Nat} (atMost : fewer ≤ more) :
    budgetFor fewer ≤ budgetFor more := by
  unfold budgetFor
  omega

theorem enough_of_budgetFor_le {count budget : Nat} (atLeast : budgetFor count ≤ budget) :
    16 * count + 14 ≤ budget := by
  unfold budgetFor at atLeast
  omega

theorem parse?_append {body others : List Token} {stop : Token} (stopped : stop.kind = .eof)
    (inner : ∀ token ∈ body, token.kind ≠ .eof) :
    parse? (body ++ stop :: others) = some (parseBody stop body) := by
  obtain ⟨statements, notes, parsed⟩ := Stmt.parseAll_total stopped body
  have enough : 16 * body.length + 14 ≤ budgetFor (body ++ stop :: others).length :=
    enough_of_budgetFor_le (budgetFor_mono (List.sublist_append_left body _).length_le)
  unfold parse? parseBody
  rw [Walk.parseAll_before stopped inner enough [] others (parsed _ enough),
    parsed (budgetFor body.length) (enough_of_budgetFor_le (Nat.le_refl _))]

theorem parse?_body {body : List Token} {stop : Token} (stopped : stop.kind = .eof)
    (inner : ∀ token ∈ body, token.kind ≠ .eof) :
    parse? (body ++ [stop]) = some (parseBody stop body) :=
  parse?_append stopped inner

theorem parse?_eq_none {tokens : List Token} (inner : ∀ token ∈ tokens, token.kind ≠ .eof) :
    parse? tokens = none := by
  unfold parse?
  rw [Walk.parseAll_outside inner (enough_of_budgetFor_le (Nat.le_refl _))]

theorem parse?_eq_some {tokens : List Token} {program : Program}
    (parsed : parse? tokens = some program) :
    ∃ body stop others, tokens = body ++ stop :: others ∧ program = parseBody stop body := by
  obtain ⟨body, beyond, stop, rfl, inner, stopped, rfl | ⟨others, rfl⟩⟩ :=
    Walk.exists_ending tokens
  · rw [List.append_nil, parse?_eq_none inner] at parsed
    cases parsed
  · rw [parse?_append stopped inner] at parsed
    cases parsed
    exact ⟨body, stop, others, rfl, rfl⟩

/-- The first end is where parsing stops, and what stands behind it does not matter. -/
theorem parseAll_first_end {before : List Token} {stop : Token} (stopped : stop.kind = .eof)
    (inner : ∀ token ∈ before, token.kind ≠ .eof) :
    ∃ program, ∀ others,
      parse? (before ++ stop :: others) = some program ∧
      ∀ budget, budgetFor before.length ≤ budget →
        Walk.reader.parseAll budget ⟨[], before ++ stop :: others⟩ =
          .read (some program.statements) ⟨before.reverse, stop :: others⟩
            program.diagnostics := by
  obtain ⟨statements, notes, parsed⟩ := Stmt.parseAll_total stopped before
  refine ⟨⟨statements, notes⟩, fun others => ⟨?_, fun budget atLeast => ?_⟩⟩
  · rw [parse?_append stopped inner, parseBody, parsed _ (enough_of_budgetFor_le (Nat.le_refl _))]
    rfl
  · have enough := enough_of_budgetFor_le atLeast
    rw [Walk.parseAll_before stopped inner enough [] others (parsed budget enough),
      List.append_nil]

/-- Parsing ends, and in bounds.  It is lost exactly on tokens without an end of the source, where
it looks behind the last one.  Otherwise it stops at the first end, whatever stands behind that,
and every declaration that it reads at another token moves on.  It never looks in front of the
first token, and budgets that are larger change nothing. -/
theorem parse_in_bounds (tokens : List Token) :
    (parse? tokens = none ↔ ∀ token ∈ tokens, token.kind ≠ .eof) ∧
    (∀ budget, budgetFor tokens.length ≤ budget →
      (Walk.reader.parseAll budget ⟨[], tokens⟩ = .outside ↔
        ∀ token ∈ tokens, token.kind ≠ .eof)) ∧
    (∀ before stop after, tokens = before ++ stop :: after →
      (∀ token ∈ before, token.kind ≠ .eof) → stop.kind = .eof →
      ∃ program, ∀ others,
        parse? (before ++ stop :: others) = some program ∧
        ∀ budget, budgetFor before.length ≤ budget →
          Walk.reader.parseAll budget ⟨[], before ++ stop :: others⟩ =
            .read (some program.statements) ⟨before.reverse, stop :: others⟩
              program.diagnostics) ∧
    (∀ behind token tail budget, token.kind ≠ .eof → budgetFor (tail.length + 1) ≤ budget →
      (∀ later ∈ tail, later.kind ≠ .eof) ∧
          Walk.reader.parseDeclaration budget ⟨behind, token :: tail⟩ = .outside ∨
        ∃ answer final notes,
          Walk.reader.parseDeclaration budget ⟨behind, token :: tail⟩ =
            .read (some answer) final notes ∧
          Cursor.Reaches ⟨behind, token :: tail⟩ final ∧ behind.length < final.position) := by
  refine ⟨⟨fun absent => ?_, parse?_eq_none⟩, fun budget atLeast => ⟨fun lost => ?_, fun inner =>
    Walk.parseAll_outside inner (enough_of_budgetFor_le atLeast) []⟩, ?_, ?_⟩
  · obtain ⟨before, beyond, stop, rfl, inner, stopped, rfl | ⟨others, rfl⟩⟩ :=
      Walk.exists_ending tokens
    · rwa [List.append_nil]
    · rw [parse?_append stopped inner] at absent
      cases absent
  · obtain ⟨before, beyond, stop, rfl, inner, stopped, rfl | ⟨others, rfl⟩⟩ :=
      Walk.exists_ending tokens
    · rwa [List.append_nil]
    · obtain ⟨program, stops⟩ := parseAll_first_end stopped inner
      have shorter := budgetFor_mono (List.sublist_append_left before (stop :: others)).length_le
      rw [(stops others).2 budget (Nat.le_trans shorter atLeast)] at lost
      cases lost
  · intro before stop after _ inner stopped
    exact parseAll_first_end stopped inner
  · intro behind token tail budget unlike atLeast
    have enough := enough_of_budgetFor_le atLeast
    exact Walk.parseDeclaration_moves unlike (by omega) behind

end Program

end Lox
