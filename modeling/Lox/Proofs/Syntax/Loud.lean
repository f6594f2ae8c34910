import Lox.Proofs.Syntax.Budget

/-!
Reading up to an end of the source with one budget or another.  If both are enough, the results
are the same, and nothing fails without a note.
-/

namespace Lox

namespace Parser

variable {α β : Type} {breaks : Prop} {form : α → List Token → Prop} {tokens : List Token}

structure Same (breaks : Prop) (form : α → List Token → Prop) (tokens : List Token)
    (step other : Parser α) : Prop where
  same : step tokens = other tokens
  suffix : (step tokens).rest <:+ tokens
  formed : ∀ value ∈ (step tokens).value, form value (step tokens).rest
  loud : (step tokens).value = none → breaks ∧ (step tokens).notes ≠ []

theorem Same.bind {result : β → List Token → Prop} {step other : Parser α}
    {next after : α → Parser β} (steps : Same breaks form tokens step other)
    (rest : ∀ value left, form value left → Same breaks result left (next value) (after value)) :
    Same breaks result tokens (step >>= next) (other >>= after) := by
  have whole : ∀ (step : Parser α) (next : α → Parser β),
      (step >>= next) tokens = Parser.bind step next tokens := fun _ _ => rfl
  obtain ⟨same, suffix, formed, loud⟩ := steps
  cases parsed : step tokens with
  | mk value left notes =>
      rw [parsed] at same suffix formed loud
      cases value with
      | none =>
          constructor <;> simp only [whole, Parser.bind, parsed, ← same]
          · exact suffix
          · simp
          · exact fun _ => loud rfl
      | some value =>
          have steps := rest value left (formed value rfl)
          constructor <;> simp only [whole, Parser.bind, parsed, ← same]
          · rw [steps.same]
          · exact steps.suffix.trans suffix
          · exact steps.formed
          · intro missing
            obtain ⟨mayBreak, noted⟩ := steps.loud missing
            exact ⟨mayBreak, by simp [noted]⟩

theorem same_of_reads {step : Parser α} {value : α} {rest : List Token}
    (reads : Reads step tokens value rest) (suffix : rest <:+ tokens) (formed : form value rest) :
    Same breaks form tokens step step := by
  unfold Reads at reads
  constructor <;> simp only [reads]
  · exact suffix
  · rintro _ ⟨⟩
    exact formed
  · simp

theorem dropStatement_suffix (last : Token) (tokens : List Token) :
    dropStatement last tokens <:+ tokens := by
  induction tokens generalizing last with
  | nil => exact List.suffix_refl []
  | cons token rest ih =>
      unfold dropStatement
      split
      · exact List.suffix_refl _
      · exact (ih token).trans (List.suffix_cons token rest)

theorem synchronize_suffix (tokens : List Token) : synchronize tokens <:+ tokens.tail := by
  cases tokens with
  | nil => exact List.suffix_refl []
  | cons token rest => exact dropStatement_suffix token rest

/-- A declaration takes a token whether it is broken or not. -/
theorem Same.recover {step other : Parser α} (nonempty : tokens ≠ [])
    (steps : Same True (fun _ rest => rest.length + 1 ≤ tokens.length) tokens step other) :
    Same breaks (fun _ rest => rest.length + 1 ≤ tokens.length) tokens (recover step)
      (recover other) := by
  obtain ⟨same, suffix, formed, loud⟩ := steps
  have positive := List.length_pos_iff.2 nonempty
  cases parsed : step tokens with
  | mk value rest notes =>
      rw [parsed] at same suffix formed
      cases value with
      | none =>
          have dropped := synchronize_suffix rest
          have shorter := dropped.length_le
          have bound : rest.length ≤ tokens.length := suffix.length_le
          rw [List.length_tail] at shorter
          constructor <;> simp only [Parser.recover, parsed, ← same]
          · exact dropped.trans ((List.tail_suffix rest).trans suffix)
          · intro _ _
            omega
          · simp
      | some value =>
          constructor <;> simp only [Parser.recover, parsed, ← same]
          · exact suffix
          · exact fun _ _ => formed value rfl
          · simp

def paired (stop : Token) : Lockstep stop (upTo stop) (upTo stop) where
  Agree := Same
  weaken steps mayBreak stronger :=
    { steps with
      formed := fun value found => stronger _ _ (steps.formed value found)
      loud := fun missing => (steps.loud missing).imp_left mayBreak }
  gives formed := same_of_reads rfl (List.suffix_refl _) formed
  bind := Same.bind
  map steps formed := steps.bind fun value left given =>
    same_of_reads rfl (List.suffix_refl _) (formed value left given)
  note _ _ formed := ⟨rfl, List.suffix_refl _, by rintro _ ⟨⟩; exact formed, nofun⟩
  next formed := same_of_reads rfl (List.suffix_refl _) formed
  skip formed := same_of_reads rfl (List.suffix_cons _ _) formed
  sees _ formed := same_of_reads rfl (List.suffix_refl _) formed
  blockEnds formed := same_of_reads rfl (List.suffix_refl _) formed
  atEnd formed := same_of_reads rfl (List.suffix_refl _) formed
  accept? {_ _ tokens} kinds absent present := by
    by_cases clear : Clear kinds tokens
    · exact same_of_reads (reads_accept?.2 (.inr ⟨rfl, clear, rfl⟩)) (List.suffix_refl _)
        (absent clear)
    · cases tokens with
      | nil => simp at clear
      | cons token tail =>
          have member : token.kind ∈ kinds := by simpa using clear
          exact same_of_reads (reads_accept?.2 (.inl ⟨token, rfl, member, rfl⟩))
            (List.suffix_cons _ _) (present token tail rfl member)
  fail _ mayBreak := ⟨rfl, List.suffix_refl _, nofun, fun _ => ⟨mayBreak, by simp [upTo]⟩⟩
  recover := Same.recover

end Parser

open Lox.Parser Lockstep

variable {stop : Token} {budget : Nat} {tokens : List Token}

namespace Stmt

theorem parseUnbroken_loud (stopped : stop.kind = .eof)
    (enough : 16 * tokens.length + 12 ≤ budget)
    (broken : ((upTo stop).parseUnbroken budget tokens).value = none) :
    ((upTo stop).parseUnbroken budget tokens).notes ≠ [] := by
  have settled : (paired stop).SettledStmts budget budget :=
    settledStmts_of_le stopped budget budget (Nat.le_refl _)
  exact ((settled.unbroken tokens.length enough tokens (Nat.le_refl _)).loud broken).2

theorem parseDeclaration_settled (stopped : stop.kind = .eof) {larger : Nat}
    (nonempty : tokens ≠ []) (enough : 16 * tokens.length + 13 ≤ budget)
    (enoughLarger : 16 * tokens.length + 13 ≤ larger) :
    (upTo stop).parseDeclaration budget tokens = (upTo stop).parseDeclaration larger tokens := by
  obtain ⟨token, tail, rfl⟩ := List.exists_cons_of_ne_nil nonempty
  rw [List.length_cons] at enough enoughLarger
  have settled (fewer more : Nat) (atMost : fewer ≤ more) :
      (paired stop).SettledStmts fewer more := settledStmts_of_le stopped fewer more atMost
  rcases Nat.le_total budget larger with atMost | atMost
  · exact ((settled _ _ atMost).declaration token tail enough).same
  · exact ((settled _ _ atMost).declaration token tail enoughLarger).same.symm

theorem parseAll_total (stopped : stop.kind = .eof) (tokens : List Token) :
    ∃ statements notes, ∀ budget, 16 * tokens.length + 14 ≤ budget →
      (upTo stop).parseAll budget tokens = ⟨some statements, [], notes⟩ := by
  have agree (budget : Nat) (enough : 16 * tokens.length + 14 ≤ budget) :
      Same False (fun _ rest => rest = []) tokens
        ((upTo stop).parseAll (16 * tokens.length + 14)) ((upTo stop).parseAll budget) :=
    agree_parseAll (paired stop) stopped _ budget tokens enough (Nat.le_refl _)
  have alone := agree _ (Nat.le_refl _)
  cases parsed : (upTo stop).parseAll (16 * tokens.length + 14) tokens with
  | mk value rest notes =>
      cases value with
      | none => exact absurd (alone.loud (by rw [parsed])).1 id
      | some statements =>
          have ended := alone.formed statements (by rw [parsed]; rfl)
          rw [parsed] at ended
          subst ended
          exact ⟨statements, notes, fun budget enough => (agree budget enough).same ▸ parsed⟩

end Stmt

end Lox
