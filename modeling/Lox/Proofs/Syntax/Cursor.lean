import Lox.Proofs.Syntax.Loud

/-!
Parsing stays in bounds.  A cursor is in lockstep with reading the tokens before the first end
of the source: it never passes that end, nothing behind it matters, and only without one a step
looks behind the last token.
-/

namespace Lox

namespace Walk

variable {α β : Type} {stop : Token} {behind beyond tokens : List Token}

@[simp] theorem noted_nil (reading : Reading α) : reading.noted [] = reading := by
  cases reading <;> rfl

theorem bind_of_read {first : Walk α} {next : α → Walk β} {cursor middle : Cursor} {value : α}
    {notes : List Diagnostic} (walked : first cursor = .read (some value) middle notes) :
    (first >>= next) cursor = (next value middle).noted notes := by
  change Walk.bind first next cursor = _
  simp only [Walk.bind, walked]

theorem bind_of_broken {first : Walk α} {next : α → Walk β} {cursor middle : Cursor}
    {notes : List Diagnostic} (walked : first cursor = .read none middle notes) :
    (first >>= next) cursor = .read none middle notes := by
  change Walk.bind first next cursor = _
  simp only [Walk.bind, walked]

theorem bind_of_outside {first : Walk α} {next : α → Walk β} {cursor : Cursor}
    (walked : first cursor = .outside) : (first >>= next) cursor = .outside := by
  change Walk.bind first next cursor = _
  simp only [Walk.bind, walked]

def Ending (stop : Token) (beyond : List Token) : Prop :=
  beyond = [] ∨ ∃ others, beyond = stop :: others

/-- In front of tokens without an end, with the given ones beyond them, the step at a cursor does
what the other step does to these tokens. -/
def Follows (beyond : List Token) (breaks : Prop) (form : α → List Token → Prop)
    (tokens : List Token) (step : Walk α) (other : Parser α) : Prop :=
  (∀ token ∈ tokens, token.kind ≠ .eof) → ∀ behind,
    beyond = [] ∧ step ⟨behind, tokens ++ beyond⟩ = .outside ∨
    ∃ value moved rest notes, tokens = moved ++ rest ∧ other tokens = ⟨value, rest, notes⟩ ∧
      step ⟨behind, tokens ++ beyond⟩ =
        .read value ⟨moved.reverse ++ behind, rest ++ beyond⟩ notes ∧
      (∀ found ∈ value, form found rest) ∧ (value = none → breaks)

theorem isAtEnd_cons (token : Token) (rest : List Token) :
    isAtEnd ⟨behind, token :: rest⟩ =
      .read (some (token.kind = .eof)) ⟨behind, token :: rest⟩ [] := rfl

theorem check_eof {token : Token} (ends : token.kind = .eof) (kind : Kind) (rest : List Token) :
    check kind ⟨behind, token :: rest⟩ = .read (some false) ⟨behind, token :: rest⟩ [] := by
  unfold check
  rw [bind_of_read (isAtEnd_cons token rest)]
  simp [ends]
  rfl

theorem check_cons {token : Token} (inner : token.kind ≠ .eof) (kind : Kind)
    (rest : List Token) :
    check kind ⟨behind, token :: rest⟩ =
      .read (some (token.kind = kind)) ⟨behind, token :: rest⟩ [] := by
  unfold check
  rw [bind_of_read (isAtEnd_cons token rest)]
  simp [inner]
  rfl

theorem advance_cons {token : Token} (inner : token.kind ≠ .eof) (rest : List Token) :
    advance ⟨behind, token :: rest⟩ = .read (some token) ⟨token :: behind, rest⟩ [] := by
  unfold advance
  rw [bind_of_read (isAtEnd_cons token rest)]
  simp [inner]
  rfl

theorem accept?_eof {token : Token} (ends : token.kind = .eof) (kinds : List Kind)
    (rest : List Token) :
    accept? kinds ⟨behind, token :: rest⟩ = .read (some none) ⟨behind, token :: rest⟩ [] := by
  induction kinds with
  | nil => rfl
  | cons kind kinds ih =>
      unfold accept?
      rw [bind_of_read (check_eof ends kind rest)]
      simp [ih]

theorem accept?_cons {token : Token} (inner : token.kind ≠ .eof) (kinds : List Kind)
    (rest : List Token) :
    accept? kinds ⟨behind, token :: rest⟩ =
      if token.kind ∈ kinds then .read (some (some token)) ⟨token :: behind, rest⟩ []
      else .read (some none) ⟨behind, token :: rest⟩ [] := by
  induction kinds with
  | nil => rfl
  | cons kind kinds ih =>
      unfold accept?
      rw [bind_of_read (check_cons inner kind rest)]
      by_cases same : token.kind = kind
      · have taken : (some <$> advance : Walk (Option Token)) ⟨behind, token :: rest⟩ =
            .read (some (some token)) ⟨token :: behind, rest⟩ [] :=
          bind_of_read (advance_cons inner rest)
        simp [same, taken]
      · simp [same, ih]

theorem settle_follows (stopped : stop.kind = .eof) (ending : Ending stop beyond) (last : Token)
    (inner : ∀ token ∈ tokens, token.kind ≠ .eof) :
    beyond = [] ∧ settle ⟨last :: behind, tokens ++ beyond⟩ = .outside ∨
    ∃ moved, tokens = moved ++ Parser.dropStatement last tokens ∧
      settle ⟨last :: behind, tokens ++ beyond⟩ =
        .read (some ()) ⟨moved.reverse ++ last :: behind,
          Parser.dropStatement last tokens ++ beyond⟩ [] := by
  induction tokens generalizing behind last with
  | nil =>
      obtain rfl | ⟨others, rfl⟩ := ending
      · exact .inl ⟨rfl, rfl⟩
      · exact .inr ⟨[], rfl, by simp [settle, settleFrom, stopped, Parser.dropStatement]⟩
  | cons token rest ih =>
      obtain ⟨unlike, innerRest⟩ := List.forall_mem_cons.1 inner
      unfold Parser.dropStatement
      by_cases halts : last.kind = .semicolon ∨ startsStatement token.kind
      · exact .inr ⟨[], by simp [halts], by simp [settle, settleFrom, unlike, halts]⟩
      · have goesOn : settle ⟨last :: behind, token :: rest ++ beyond⟩ =
            settle ⟨token :: last :: behind, rest ++ beyond⟩ := by
          simp [settle, settleFrom, unlike, halts]
        rw [goesOn, if_neg halts]
        rcases ih token innerRest with lost | ⟨moved, split, settled⟩
        · exact .inl lost
        · refine .inr ⟨token :: moved, by rw [List.cons_append, ← split], ?_⟩
          rw [settled, List.reverse_cons, List.append_assoc, List.singleton_append]

/-- Recovery looks behind the cursor, where there is a token unless it stands at the beginning. -/
theorem synchronize_follows (stopped : stop.kind = .eof) (ending : Ending stop beyond)
    (inner : ∀ token ∈ tokens, token.kind ≠ .eof) (grounded : behind ≠ [] ∨ tokens ≠ []) :
    beyond = [] ∧ synchronize ⟨behind, tokens ++ beyond⟩ = .outside ∨
    ∃ moved, tokens = moved ++ Parser.synchronize tokens ∧
      synchronize ⟨behind, tokens ++ beyond⟩ =
        .read (some ()) ⟨moved.reverse ++ behind, Parser.synchronize tokens ++ beyond⟩ [] := by
  cases tokens with
  | nil =>
      obtain rfl | ⟨others, rfl⟩ := ending
      · exact .inl ⟨rfl, rfl⟩
      · obtain ⟨last, more, rfl⟩ := List.exists_cons_of_ne_nil (grounded.resolve_right (by simp))
        have stays : advance ⟨last :: more, stop :: others⟩ =
            .read (some last) ⟨last :: more, stop :: others⟩ [] := by
          unfold advance
          rw [bind_of_read (isAtEnd_cons stop others)]
          simp [stopped]
          rfl
        refine .inr ⟨[], rfl, ?_⟩
        unfold synchronize
        rw [List.nil_append, bind_of_read stays, noted_nil]
        simp [settle, settleFrom, stopped, Parser.synchronize]
  | cons token rest =>
      obtain ⟨unlike, innerRest⟩ := List.forall_mem_cons.1 inner
      unfold synchronize
      rw [List.cons_append, bind_of_read (advance_cons unlike (rest ++ beyond)), noted_nil]
      rcases settle_follows stopped ending token innerRest with lost | ⟨moved, split, settled⟩
      · exact .inl lost
      · refine .inr ⟨token :: moved, congrArg (token :: ·) split, ?_⟩
        rw [settled, List.reverse_cons, List.append_assoc, List.singleton_append]
        rfl

variable {breaks : Prop} {form : α → List Token → Prop}

theorem Follows.bind {result : β → List Token → Prop} {step : Walk α} {other : Parser α}
    {next : α → Walk β} {after : α → Parser β}
    (follows : Follows beyond breaks form tokens step other)
    (rest : ∀ value left, form value left →
      Follows beyond breaks result left (next value) (after value)) :
    Follows beyond breaks result tokens (step >>= next) (other >>= after) := by
  intro inner behind
  rcases follows inner behind with ⟨ended, lost⟩ |
    ⟨value, moved, left, notes, split, parsed, walked, formed, broken⟩
  · exact .inl ⟨ended, bind_of_outside lost⟩
  cases value with
  | none =>
      exact .inr ⟨none, moved, left, notes, split, Parser.bind_of_none parsed,
        bind_of_broken walked, nofun, fun _ => broken rfl⟩
  | some value =>
      subst split
      have innerLeft : ∀ token ∈ left, token.kind ≠ .eof :=
        fun token member => inner token (List.mem_append_right moved member)
      rw [bind_of_read walked]
      rcases rest value left (formed value rfl) innerLeft (moved.reverse ++ behind) with
        ⟨ended, lost⟩ | ⟨answer, more, final, others, rfl, parsedMore, walkedMore, formed, broken⟩
      · exact .inl ⟨ended, by rw [lost]; rfl⟩
      · refine .inr ⟨answer, moved ++ more, final, notes ++ others,
          (List.append_assoc moved more final).symm, Parser.bind_of_some parsed parsedMore, ?_,
          formed, broken⟩
        rw [walkedMore, List.reverse_append, List.append_assoc]
        rfl

theorem follows_of_reads {step : Walk α} {other : Parser α} {value : α} {moved rest : List Token}
    (reads : Parser.Reads other tokens value rest) (split : tokens = moved ++ rest)
    (formed : form value rest)
    (walked : (∀ token ∈ tokens, token.kind ≠ .eof) → ∀ behind,
      beyond = [] ∧ step ⟨behind, tokens ++ beyond⟩ = .outside ∨
      step ⟨behind, tokens ++ beyond⟩ =
        .read (some value) ⟨moved.reverse ++ behind, rest ++ beyond⟩ []) :
    Follows beyond breaks form tokens step other :=
  fun inner behind => (walked inner behind).imp_right fun walked =>
    ⟨some value, moved, rest, [], split, reads, walked, by rintro _ ⟨⟩; exact formed, nofun⟩

theorem follows_look {step : Walk α} {other : Parser α} {value : α} (ending : Ending stop beyond)
    (reads : Parser.Reads other tokens value tokens) (formed : form value tokens)
    (lost : ∀ behind, step ⟨behind, []⟩ = .outside)
    (ended : tokens = [] → ∀ behind others, step ⟨behind, stop :: others⟩ =
      .read (some value) ⟨behind, stop :: others⟩ [])
    (seen : ∀ token tail, tokens = token :: tail → token.kind ≠ .eof → ∀ behind rest,
      step ⟨behind, token :: rest⟩ = .read (some value) ⟨behind, token :: rest⟩ []) :
    Follows beyond breaks form tokens step other := by
  refine follows_of_reads reads (List.nil_append tokens).symm formed fun inner behind => ?_
  cases tokens with
  | nil =>
      obtain rfl | ⟨others, rfl⟩ := ending
      · exact .inl ⟨rfl, lost behind⟩
      · exact .inr (ended rfl behind others)
  | cons token tail =>
      exact .inr (seen token tail rfl (inner token List.mem_cons_self) behind (tail ++ beyond))

theorem Follows.recover (stopped : stop.kind = .eof) (ending : Ending stop beyond)
    {step : Walk α} {other : Parser α} (nonempty : tokens ≠ [])
    (follows : Follows beyond True (fun _ rest => rest.length + 1 ≤ tokens.length) tokens step
      other) :
    Follows beyond breaks (fun _ rest => rest.length + 1 ≤ tokens.length) tokens (recover step)
      (Parser.recover other) := by
  intro inner behind
  unfold Walk.recover Parser.recover
  rcases follows inner behind with ⟨ended, lost⟩ |
    ⟨value, moved, left, notes, split, parsed, walked, formed, -⟩
  · exact .inl ⟨ended, by rw [lost]⟩
  cases value with
  | some value =>
      exact .inr ⟨some (some value), moved, left, notes, split, by rw [parsed], by rw [walked],
        fun _ _ => formed value rfl, nofun⟩
  | none =>
      rw [parsed, walked]
      -- A declaration that took nothing leaves tokens, so there is one to look back at.
      have grounded : moved.reverse ++ behind ≠ [] ∨ left ≠ [] := by
        cases left with
        | nil =>
            rw [List.append_nil] at split
            subst split
            exact .inl (by simp [nonempty])
        | cons token tail => exact .inr (List.cons_ne_nil token tail)
      have innerLeft : ∀ token ∈ left, token.kind ≠ .eof :=
        fun token member => inner token (split ▸ List.mem_append_right moved member)
      rcases synchronize_follows stopped ending innerLeft grounded with
        ⟨ended, lost⟩ | ⟨more, splitMore, synced⟩
      · refine .inl ⟨ended, ?_⟩
        dsimp only
        rw [bind_of_outside lost]
        rfl
      · have dropped := (Parser.synchronize_suffix left).length_le
        have positive := List.length_pos_iff.2 nonempty
        have whole := congrArg List.length split
        rw [List.length_append] at whole
        rw [List.length_tail] at dropped
        refine .inr ⟨some none, moved ++ more, Parser.synchronize left, notes, ?_, rfl, ?_,
          fun _ _ => by omega, nofun⟩
        · rw [List.append_assoc, ← splitMore, ← split]
        · dsimp only
          rw [bind_of_read synced, List.reverse_append, List.append_assoc]
          exact congrArg (Reading.read (some none) _) (List.append_nil notes)

theorem follows_blockEnds (stopped : stop.kind = .eof) (ending : Ending stop beyond)
    {form : Bool → List Token → Prop}
    (formed : form (tokens.head?.all (·.kind = .rightBrace)) tokens) :
    Follows beyond breaks form tokens reader.blockEnds (Parser.upTo stop).blockEnds := by
  refine follows_look ending rfl formed (fun _ => rfl) ?_ ?_
  · rintro rfl behind others
    change (check .rightBrace >>= _) _ = _
    rw [bind_of_read (check_eof stopped .rightBrace others)]
    simp [isAtEnd_cons, stopped]
  · rintro token tail rfl inner behind rest
    change (check .rightBrace >>= _) _ = _
    rw [bind_of_read (check_cons inner .rightBrace rest)]
    by_cases closing : token.kind = .rightBrace
    · simp [closing]
      rfl
    · simp [closing, isAtEnd_cons, inner]

theorem follows_accept? (stopped : stop.kind = .eof) (ending : Ending stop beyond)
    {form : Option Token → List Token → Prop} (kinds : List Kind)
    (absent : Parser.Clear kinds tokens → form none tokens)
    (present : ∀ token tail, tokens = token :: tail → token.kind ∈ kinds →
      form (some token) tail) :
    Follows beyond breaks form tokens (accept? kinds) ((Parser.upTo stop).accept? kinds) := by
  cases tokens with
  | nil =>
      have clear := Parser.clear_nil kinds
      refine follows_of_reads (Parser.reads_accept?.2 (.inr ⟨rfl, clear, rfl⟩))
        (List.nil_append []).symm (absent clear) fun _ behind => ?_
      obtain rfl | ⟨others, rfl⟩ := ending
      · cases kinds with
        | nil => exact .inr rfl
        | cons kind kinds => exact .inl ⟨rfl, rfl⟩
      · exact .inr (accept?_eof stopped kinds others)
  | cons token tail =>
      by_cases member : token.kind ∈ kinds
      · refine follows_of_reads (Parser.reads_accept?.2 (.inl ⟨token, rfl, member, rfl⟩))
          (show token :: tail = [token] ++ tail from rfl) (present token tail rfl member)
          fun inner behind => .inr ?_
        exact (accept?_cons (inner token List.mem_cons_self) kinds _).trans (if_pos member)
      · have clear : Parser.Clear kinds (token :: tail) := Parser.clear_cons.2 member
        refine follows_of_reads (Parser.reads_accept?.2 (.inr ⟨rfl, clear, rfl⟩))
          (List.nil_append _).symm (absent clear) fun inner behind => .inr ?_
        exact (accept?_cons (inner token List.mem_cons_self) kinds _).trans (if_neg member)

theorem follows_fail (ending : Ending stop beyond) (what : String) (mayBreak : breaks) :
    Follows beyond breaks form tokens (fail what) ((Parser.upTo stop).fail what) := by
  intro inner behind
  cases tokens with
  | nil =>
      obtain rfl | ⟨others, rfl⟩ := ending
      · exact .inl ⟨rfl, rfl⟩
      · exact .inr ⟨none, [], _, _, rfl, rfl, rfl, nofun, fun _ => mayBreak⟩
  | cons token tail => exact .inr ⟨none, [], _, _, rfl, rfl, rfl, nofun, fun _ => mayBreak⟩

def lockstep (stopped : stop.kind = .eof) (ending : Ending stop beyond) :
    Lockstep stop reader (Parser.upTo stop) where
  Agree := Follows beyond
  weaken follows mayBreak stronger inner behind := by
    rcases follows inner behind with lost |
      ⟨value, moved, rest, notes, split, parsed, walked, formed, broken⟩
    · exact .inl lost
    · exact .inr ⟨value, moved, rest, notes, split, parsed, walked,
        fun found member => stronger _ _ (formed found member),
        fun missing => mayBreak (broken missing)⟩
  gives formed := follows_of_reads rfl (List.nil_append _).symm formed fun _ _ => .inr rfl
  bind := Follows.bind
  map follows formed := follows.bind fun value left given =>
    follows_of_reads rfl (List.nil_append _).symm (formed value left given) fun _ _ => .inr rfl
  note token problem formed := fun _ behind =>
    .inr ⟨some (), [], _, _, rfl, rfl, rfl, by rintro _ ⟨⟩; exact formed, nofun⟩
  next formed := by
    refine follows_look ending rfl formed (fun _ => rfl) ?_ ?_
    · rintro rfl behind others
      rfl
    · rintro token tail rfl inner behind rest
      rfl
  skip {_ _ token tail} formed := by
    refine follows_of_reads rfl (show token :: tail = [token] ++ tail from rfl) formed ?_
    intro inner behind
    exact .inr (bind_of_read (advance_cons (inner token List.mem_cons_self) _))
  sees kind formed := by
    refine follows_look ending rfl formed (fun _ => rfl) ?_ ?_
    · rintro rfl behind others
      exact check_eof stopped kind others
    · rintro token tail rfl inner behind rest
      exact check_cons inner kind rest
  blockEnds := follows_blockEnds stopped ending
  atEnd formed := by
    refine follows_look ending rfl formed (fun _ => rfl) ?_ ?_
    · rintro rfl behind others
      exact (isAtEnd_cons stop others).trans (by simp [stopped])
    · rintro token tail rfl inner behind rest
      exact (isAtEnd_cons token rest).trans (by simp [inner])
  accept? := follows_accept? stopped ending
  fail := follows_fail ending
  recover := Follows.recover stopped ending

end Walk

end Lox
