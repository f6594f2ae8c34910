import Lox.Eval
import Lox.Proofs.Number.Denoted
import Lox.Proofs.Number.Shortest
import Lox.Proofs.Syntax.Relined

/-!
Numbers that programs print are source text for themselves: the text stands for the same
decimal as the one in data, is scanned without a complaint, and evaluates to the number.
-/

namespace Lox

open Grammar

def Decimal.IsShortest (d : Decimal) (word : Nat) : Prop :=
  d.toWord = word ∧ ∀ other : Decimal, other.toWord = word → length d.digits ≤ length other.digits

theorem Decimal.isShortest_shortest {word : Nat} (finite : word < Binary64.infinity) :
    (shortest word).IsShortest word :=
  ⟨toWord_shortest finite, fun _ => length_shortest_le finite⟩

namespace Number

variable {digits tail : List Char} {d : Decimal} {x : Float}

theorem denoted_signed (negative : Bool) (unsigned : digits.head? ≠ some '-') :
    denoted (signText negative ++ digits) = (negative, valueOf digits) := by
  cases negative with
  | false => exact denoted_of_unsigned unsigned
  | true => rfl

theorem not_suffix_signed (negative : Bool) (trimmed : d.exponent < 0 → d.digits % 10 ≠ 0) :
    ¬ ['.', '0'] <:+ signText negative ++ positional d := by
  rintro ⟨front, split⟩
  by_cases fraction : d.exponent < 0
  · obtain ⟨whole, places, written, -, nonempty, -, value, -⟩ := Json.positional_fraction fraction
    obtain ⟨inner, last, rfl⟩ := (List.eq_nil_or_concat places).resolve_left nonempty
    have ends : front ++ ['.'] ++ ['0'] = signText negative ++ whole ++ '.' :: inner ++ [last] := by
      simpa [written] using split
    obtain ⟨-, zero⟩ := List.append_inj' ends rfl
    cases zero
    have tens : digitsValue (whole ++ inner ++ ['0']) = digitsValue (whole ++ inner) * 10 :=
      digitsValue_append_replicate (whole ++ inner) 1
    rw [List.concat_eq_append, ← List.append_assoc, tens] at value
    exact trimmed fraction (by omega)
  · have point : '.' ∈ signText negative ++ positional d := by simp [← split]
    rcases List.mem_append.1 point with sign | digit
    · cases negative <;> simp [signText] at sign
    · exact Decimal.pointless (isDigit_of_mem_positional (Int.not_lt.1 fraction)) digit

section Scanned

variable {α : Type} {mark : Nat × Piece → Option α} {line : Nat}

theorem marks_minus (rest : List Char) :
    Piece.marks mark line ('-' :: rest) =
      (mark (line, .token .minus ['-'])).toList ++ Piece.marks mark line rest := by
  have found : Piece.first '-' rest = .token .minus ['-'] :=
    Piece.first_operator rfl (by simp) (by simp [Piece.operator?, Kind.double?, Kind.single?])
  rw [Piece.marks_cons, found]
  rfl

theorem marks_semicolon :
    Piece.marks mark line [';'] = (mark (line, .token .semicolon [';'])).toList := by
  have found : Piece.first ';' [] = .token .semicolon [';'] :=
    Piece.first_operator rfl (by simp) rfl
  rw [Piece.marks_cons, found, Piece.text, List.drop_length, Piece.marks_nil, List.append_nil]

theorem Spelling.marks (spelling : Spelling digits) (ends : Piece.EndsNumber tail) :
    Piece.marks mark line (digits ++ tail) =
      (mark (line, .token .number digits)).toList ++ Piece.marks mark line tail := by
  obtain ⟨c, rest, split, found⟩ := spelling.first ends
  have inline : digits.count '\n' = 0 :=
    List.count_eq_zero.2 (spelling.not_mem rfl (by decide))
  have left : (c :: rest).drop digits.length = tail := by rw [← split, List.drop_left]
  rw [split, Piece.marks_cons, found, Piece.text, left, Piece.lineBreaks, Piece.text, inline,
    Nat.add_zero]

theorem marks_signed (negative : Bool) (spelling : Spelling digits) (ends : Piece.EndsNumber tail) :
    Piece.marks mark line (signText negative ++ digits ++ tail) =
      (if negative then (mark (line, .token .minus ['-'])).toList else []) ++
        (mark (line, .token .number digits)).toList ++ Piece.marks mark line tail := by
  cases negative with
  | false => exact spelling.marks ends
  | true =>
    rw [List.append_assoc, List.append_assoc, ← spelling.marks ends]
    exact marks_minus (digits ++ tail)

end Scanned

def tokens (negative : Bool) (lexeme : String) (size : Float) : List Token :=
  (if negative then [⟨.minus, "-", 1, .nil⟩] else []) ++ [⟨.number, lexeme, 1, .number size⟩]

def tree (negative : Bool) (size : Float) : Expr :=
  if negative then .unary ⟨.minus, "-", 1, .nil⟩ (.literal (.number size))
  else .literal (.number size)

theorem expression_tree (negative : Bool) (lexeme : String) (size : Float) :
    Expression .assignment (tokens negative lexeme size) (tree negative size) := by
  have number : Expression .unary [⟨.number, lexeme, 1, .number size⟩] (.literal (.number size)) :=
    .call (.primary (.number rfl))
  have unary : Expression .unary (tokens negative lexeme size) (tree negative size) := by
    cases negative with
    | false => exact number
    | true => exact .unary (by simp) number
  exact .logicOr (.operand rfl (.operand rfl (.operand rfl (.operand rfl (.operand rfl
    (.operand rfl unary))))))

theorem derives_tree (negative : Bool) (lexeme : String) (size : Float) :
    Derives (tokens negative lexeme size ++ [⟨.semicolon, ";", 1, .nil⟩])
      [.expr (tree negative size)] := by
  refine ⟨[(_, _)], List.forall_mem_singleton.2 ?_, List.append_nil _, rfl⟩
  exact .statement (.expr (expression_tree negative lexeme size) rfl)

theorem evaluate_tree (negative : Bool) {word : Nat} (number : word ≤ Binary64.infinity)
    (settings : Settings) {budget : Nat} (enough : 2 ≤ budget) (state : State) :
    (tree negative (Binary64.toFloat false word)).toTree.evaluate settings budget state =
      .done (.number (Binary64.toFloat negative word)) state := by
  obtain ⟨budget, rfl⟩ := Nat.exists_eq_add_of_le' enough
  cases negative with
  | false => rfl
  | true =>
    rw [← Binary64.neg_toFloat number]
    rfl

section ReadsBack

variable (finite : Binary64.magnitude x < Binary64.infinity)
include finite

theorem denoted_text :
    denoted (text x).toList =
      (Binary64.isNegative x, (Decimal.shortest (Binary64.magnitude x)).value) := by
  obtain ⟨spelling, -⟩ := positional_reads (Decimal.shortest (Binary64.magnitude x))
  have unsigned := spelling.head?_append []
  rw [List.append_nil] at unsigned
  rw [text, toList_write finite, denoted_signed _ unsigned, valueOf_positional]

theorem denoted_dataText :
    denoted (dataText x).toList =
      (Binary64.isNegative x, (Decimal.shortest (Binary64.magnitude x)).value) := by
  obtain ⟨⟨front, rest, spelling, split⟩, value⟩ :=
    dataDigits_reads (Decimal.shortest (Binary64.magnitude x))
  have unsigned := spelling.head?_append rest
  rw [← split] at unsigned
  rw [dataText, toList_write finite, denoted_signed _ unsigned, value]

theorem tokens_text {tail : List Char} (ends : Piece.EndsNumber tail) :
    Piece.marks Token.ofPiece? 1 ((text x).toList ++ tail) =
      tokens (Binary64.isNegative x)
        (String.ofList (positional (Decimal.shortest (Binary64.magnitude x))))
        (Binary64.toFloat false (Binary64.magnitude x)) ++ Piece.marks Token.ofPiece? 1 tail := by
  obtain ⟨spelling, -⟩ := positional_reads (Decimal.shortest (Binary64.magnitude x))
  rw [text, toList_write finite, marks_signed _ spelling ends]
  simp only [Token.ofPiece?, literalOf_positional finite]
  rfl

theorem silent_text {tail : List Char} (ends : Piece.EndsNumber tail) :
    Piece.marks Diagnostic.ofPiece? 1 ((text x).toList ++ tail) =
      Piece.marks Diagnostic.ofPiece? 1 tail := by
  obtain ⟨spelling, -⟩ := positional_reads (Decimal.shortest (Binary64.magnitude x))
  rw [text, toList_write finite, marks_signed _ spelling ends]
  simp [Diagnostic.ofPiece?]

theorem not_mem_text {c : Char} (undigit : Piece.isDigit c = false) (unlike : c ≠ '.')
    (unsigned : c ≠ '-') : c ∉ (text x).toList := by
  obtain ⟨spelling, -⟩ := positional_reads (Decimal.shortest (Binary64.magnitude x))
  rw [text, toList_write finite, List.mem_append]
  rintro (sign | digit)
  · cases negative : Binary64.isNegative x <;> simp [signText, negative, unsigned] at sign
  · exact spelling.not_mem undigit unlike digit

theorem not_suffix_text : ¬ ['.', '0'] <:+ (text x).toList := by
  rw [text, toList_write finite]
  exact not_suffix_signed _ (Decimal.digits_shortest_mod finite)

theorem scan_text :
    scan (text x) =
      ⟨tokens (Binary64.isNegative x)
          (String.ofList (positional (Decimal.shortest (Binary64.magnitude x))))
          (Binary64.toFloat false (Binary64.magnitude x)) ++ [⟨.eof, "", 1, .nil⟩], []⟩ := by
  have ends : Piece.EndsNumber [] := nofun
  have found := tokens_text finite ends
  have silent := silent_text finite ends
  have inline : (text x).toList.count '\n' = 0 :=
    List.count_eq_zero.2 (not_mem_text finite rfl (by decide) (by decide))
  rw [List.append_nil, Piece.marks_nil] at found silent
  rw [List.append_nil] at found
  rw [scan_eq, found, silent, endToken, inline]
  rfl

theorem ofSource_text :
    Program.ofSource (text x ++ ";") =
      ⟨[.expr (tree (Binary64.isNegative x) (Binary64.toFloat false (Binary64.magnitude x)))],
        []⟩ := by
  have ends : Piece.EndsNumber [';'] := by
    rintro next ⟨⟩
    decide
  have found := tokens_text finite ends
  have silent := silent_text finite ends
  have whole : (text x ++ ";").toList = (text x).toList ++ [';'] := String.toList_append
  rw [marks_semicolon] at found silent
  rw [← whole] at found silent
  apply Program.ofSource_of_derives silent
  rw [found]
  exact derives_tree _ _ _

end ReadsBack

/-- What is printed for a number is the number in source text. -/
structure ReadsBack (x : Float) : Prop where
  decimal : ∃ d : Decimal, d.IsShortest (Binary64.magnitude x) ∧
    denoted (dataText x).toList = (Binary64.isNegative x, d.value) ∧
    denoted (text x).toList = (Binary64.isNegative x, d.value)
  plain : 'e' ∉ (text x).toList ∧ 'E' ∉ (text x).toList ∧ ¬ ['.', '0'] <:+ (text x).toList
  scanned : ∃ lexeme, (text x).toList = signText (Binary64.isNegative x) ++ lexeme.toList ∧
    scan (text x) =
      ⟨tokens (Binary64.isNegative x) lexeme (Binary64.toFloat false (Binary64.magnitude x)) ++
        [⟨.eof, "", 1, .nil⟩], []⟩
  evaluated : ∃ value : Expr, Program.ofSource (text x ++ ";") = ⟨[.expr value], []⟩ ∧
    ∀ (settings : Settings) (budget : Nat) (state : State), 2 ≤ budget →
      value.toTree.evaluate settings budget state = .done (.number x) state

/-- Printed numbers read back. -/
theorem text_reads_back (x : Float) (finite : Binary64.magnitude x < Binary64.infinity) :
    ReadsBack x where
  decimal :=
    ⟨_, Decimal.isShortest_shortest finite, denoted_dataText finite, denoted_text finite⟩
  plain := by
    refine ⟨not_mem_text finite rfl ?_ ?_, not_mem_text finite rfl ?_ ?_, not_suffix_text finite⟩
    all_goals decide
  scanned := by
    refine ⟨_, ?_, scan_text finite⟩
    rw [text, toList_write finite, String.toList_ofList]
  evaluated := by
    refine ⟨_, ofSource_text finite, ?_⟩
    intro settings budget state enough
    have value := evaluate_tree (Binary64.isNegative x) (Nat.le_of_lt finite) settings enough state
    rwa [Binary64.toFloat_magnitude] at value

/-- A number with an exponent in data, and with a sign. -/
theorem text_reads_back_large :
    let x := Binary64.toFloat true 0x4341C37937E08000
    Binary64.magnitude x < Binary64.infinity ∧ ReadsBack x ∧
      dataText x = "-1e+16" ∧ text x = "-10000000000000000" := by
  intro x
  have word : Binary64.magnitude x = 0x4341C37937E08000 :=
    Binary64.magnitude_toFloat true (by decide)
  have negative : Binary64.isNegative x = true := Binary64.isNegative_toFloat true (by decide)
  have finite : Binary64.magnitude x < Binary64.infinity := by
    rw [word]
    decide
  refine ⟨finite, text_reads_back x finite, ?_, ?_⟩
  · rw [← String.toList_inj, dataText, toList_write finite, negative, word]
    decide +kernel
  · rw [← String.toList_inj, text, toList_write finite, negative, word]
    decide +kernel

end Number

end Lox
