import Lox.Proofs.Token.Lines

/-!
Tokens that are written out apart from each other are scanned as they were written.
-/

namespace Lox

namespace Lexical

inductive Gap : List Char → Prop
  | nil : Gap []
  | blank {space : Char} {rest : List Char} :
      Piece.isBlank space → Gap rest → Gap (space :: rest)
  | comment {body rest : List Char} :
      '\n' ∉ body → Gap rest → Gap ('/' :: '/' :: body ++ '\n' :: rest)

inductive Separator : List Char → Prop
  | mk {space : Char} {rest : List Char} :
      Piece.isBlank space → Gap rest → Separator (space :: rest)

def written (entries : List (Lexeme × List Char)) : List Char :=
  entries.flatMap fun (lexeme, behind) => lexeme.text ++ behind

end Lexical

def Token.unplaced (token : Token) : Lexical.Lexeme :=
  ⟨token.kind, token.lexeme.toList, token.literal⟩

open Lexical

namespace Kind

theorem word_of_mem_keywords {word : String} {kind : Kind} (listed : (word, kind) ∈ keywords) :
    ∃ letter parts, word.toList = letter :: parts ∧ Piece.isLetter letter ∧
      (∀ part ∈ parts, Piece.isWordPart part) ∧ ofWord word = kind ∧
      Token.literalOf kind word.toList = .nil := by
  have checked : ∀ entry ∈ keywords, ∃ letter parts, entry.1.toList = letter :: parts ∧
      Piece.isLetter letter ∧ (∀ part ∈ parts, Piece.isWordPart part) ∧
      ofWord entry.1 = entry.2 ∧ Token.literalOf entry.2 entry.1.toList = .nil := by
    simp only [keywords, List.forall_mem_cons]
    refine ⟨?_, ?_, ?_, ?_, ?_, ?_, ?_, ?_, ?_, ?_, ?_, ?_, ?_, ?_, ?_, ?_, nofun⟩
    all_goals exact ⟨_, _, rfl, by decide, List.all_eq_true.1 rfl, by decide, rfl⟩
  exact checked _ listed

theorem ofWord_of_not_mem_keywords {word : String} (fresh : word ∉ keywords.map Prod.fst) :
    ofWord word = identifier := by
  have none : keywords.lookup word = none := by
    rw [List.lookup_eq_none_iff]
    rintro ⟨other, kind⟩ listed
    simp only [bne_iff_ne, ne_eq]
    rintro rfl
    exact fresh (List.mem_map_of_mem listed)
  rw [ofWord, none]
  rfl

end Kind

namespace Piece

variable {c space : Char} {tail : List Char}

theorem takeWhile_until {p : Char → Bool} {front tail : List Char} (passes : ∀ c ∈ front, p c)
    (stops : ∀ next ∈ tail.head?, p next = false) : (front ++ tail).takeWhile p = front := by
  rw [List.takeWhile_append_of_pos passes]
  cases tail with
  | nil => exact List.append_nil front
  | cons next rest => simp [stops next rfl]

theorem dropWhile_until {p : Char → Bool} {front tail : List Char} (passes : ∀ c ∈ front, p c)
    (stops : ∀ next ∈ tail.head?, p next = false) : (front ++ tail).dropWhile p = tail := by
  rw [List.dropWhile_append_of_pos passes]
  cases tail with
  | nil => rfl
  | cons next rest => simp [stops next rfl]

theorem first_word (letter : isLetter c) {parts : List Char}
    (wordParts : ∀ part ∈ parts, isWordPart part) (blank : isBlank space) (tail : List Char) :
    first c (parts ++ space :: tail) =
      .token (Kind.ofWord (String.ofList (c :: parts))) (c :: parts) := by
  have stops : isWordPart space = false := by
    rw [isWordPart, isLetter_eq_false_of_isBlank blank, isDigit_eq_false_of_isBlank blank]
    rfl
  rw [first_letter letter, takeWhile_until wordParts (by simp [stops])]

def EndsNumber (tail : List Char) : Prop :=
  ∀ next ∈ tail.head?, isDigit next = false ∧ next ≠ '.'

theorem endsNumber_of_isBlank (blank : isBlank space) : EndsNumber (space :: tail) := by
  rintro next ⟨⟩
  refine ⟨isDigit_eq_false_of_isBlank blank, ?_⟩
  rintro rfl
  cases blank

theorem EndsNumber.undigit (ends : EndsNumber tail) : ∀ next ∈ tail.head?, isDigit next = false :=
  fun next ahead => (ends next ahead).1

theorem first_whole (digit : isDigit c) {digits : List Char}
    (allDigits : ∀ digit ∈ digits, isDigit digit) (ends : EndsNumber tail) :
    first c (digits ++ tail) = .token .number (c :: digits) := by
  have pointless : fraction tail = [] := by
    unfold fraction
    split
    next => exact absurd rfl (ends '.' rfl).2
    next => rfl
  rw [first_digit digit, number, takeWhile_until allDigits ends.undigit,
    dropWhile_until allDigits ends.undigit, pointless, List.append_nil]

theorem first_fraction (digit : isDigit c) {digits : List Char}
    (allDigits : ∀ digit ∈ digits, isDigit digit) {place : Char} (isPlace : isDigit place)
    {places : List Char} (allPlaces : ∀ place ∈ places, isDigit place)
    (ends : EndsNumber tail) :
    first c (digits ++ '.' :: place :: places ++ tail) =
      .token .number (c :: digits ++ '.' :: place :: places) := by
  have point : ∀ next ∈ ('.' :: (place :: places ++ tail)).head?, isDigit next = false := by
    simp [isDigit]
  have behind : fraction ('.' :: (place :: places ++ tail)) = '.' :: place :: places := by
    rw [List.cons_append, fraction, if_pos isPlace, takeWhile_until allPlaces ends.undigit]
  rw [List.append_assoc, List.cons_append, first_digit digit, number,
    takeWhile_until allDigits point, dropWhile_until allDigits point, behind]

theorem first_single {kind : Kind} (single : Kind.single? c = some kind) (blank : isBlank space)
    (tail : List Char) :
    first c (space :: tail) = .token kind [c] := by
  have unlike : space ≠ '/' ∧ space ≠ '=' := by
    constructor <;> rintro rfl <;> cases blank
  have found : operator? c (space :: tail) = some (kind, [c]) := by
    simp [operator?, unlike, single]
  exact first_operator single (by simp [unlike]) found

theorem first_spelled {lexeme : Lexeme} (spelled : Spelled lexeme) (blank : isBlank space)
    (tail : List Char) :
    ∃ c rest, lexeme.text ++ space :: tail = c :: rest ∧
      first c rest = .token lexeme.kind lexeme.text := by
  cases spelled with
  | operator listed =>
      rcases single_or_double listed with ⟨c, rfl, single⟩ | ⟨c, rfl, double⟩
      · exact ⟨c, _, rfl, first_single single blank tail⟩
      · exact ⟨c, _, rfl, first_double double (space :: tail)⟩
  | @keyword word kind listed =>
      obtain ⟨letter, parts, text, isLetter, wordParts, same, -⟩ :=
        Kind.word_of_mem_keywords listed
      have found := first_word isLetter wordParts blank tail
      rw [← text, String.ofList_toList, same] at found
      exact ⟨letter, _, by rw [text]; rfl, found⟩
  | identifier letter wordParts fresh =>
      have found := first_word letter wordParts blank tail
      rw [Kind.ofWord_of_not_mem_keywords fresh] at found
      exact ⟨_, _, rfl, found⟩
  | whole digit digits =>
      exact ⟨_, _, rfl, first_whole digit digits (endsNumber_of_isBlank blank)⟩
  | fraction digit digits place places =>
      exact ⟨_, _, rfl, first_fraction digit digits place places (endsNumber_of_isBlank blank)⟩
  | @string body within =>
      refine ⟨'"', body ++ '"' :: space :: tail, ?_, first_string within _⟩
      rw [List.cons_append, List.cons_append, List.append_assoc]
      rfl

end Piece

namespace Decimal

theorem pointless {digits : List Char} (all : ∀ c ∈ digits, Piece.isDigit c) : '.' ∉ digits :=
  fun member => absurd (all '.' member) (by decide)

theorem ofDigits_whole {text : List Char} (pointless : '.' ∉ text) :
    ofDigits text = ⟨digitsValue text, 0⟩ := by
  have passed := Piece.passes_of_not_mem pointless
  rw [ofDigits, List.takeWhile_eq_self_iff.2 passed, List.dropWhile_eq_nil_iff.2 passed]
  simp

theorem ofDigits_fraction {whole : List Char} (pointless : '.' ∉ whole) (places : List Char) :
    ofDigits (whole ++ '.' :: places) = ⟨digitsValue (whole ++ places), -places.length⟩ := by
  have passed := Piece.passes_of_not_mem pointless
  rw [ofDigits, Piece.takeWhile_until passed (by simp), Piece.dropWhile_until passed (by simp)]
  rfl

end Decimal

namespace Token

theorem literalOf_spelled {lexeme : Lexeme} (spelled : Spelled lexeme) :
    literalOf lexeme.kind lexeme.text = lexeme.literal := by
  cases spelled with
  | operator listed =>
      have checked : ∀ entry ∈ operators, literalOf entry.1 entry.2 = .nil := by decide
      exact checked _ listed
  | keyword listed =>
      obtain ⟨_, _, _, _, _, _, none⟩ := Kind.word_of_mem_keywords listed
      exact none
  | identifier => rfl
  | whole digit digits =>
      have all := Decimal.pointless (List.forall_mem_cons.2 ⟨digit, digits⟩)
      rw [literalOf, Decimal.ofDigits_whole all]
  | fraction digit digits place places =>
      have all := Decimal.pointless (List.forall_mem_cons.2 ⟨digit, digits⟩)
      rw [literalOf, Decimal.ofDigits_fraction all]
      rfl
  | string within => simp [literalOf]

end Token

namespace Piece

variable {α : Type} {mark : Nat × Piece → Option α} {line : Nat}

theorem cut_comment {body : List Char} (within : '\n' ∉ body) :
    cut ('/' :: '/' :: body) = [.comment ('/' :: '/' :: body)] := by
  have passed : ∀ c ∈ '/' :: body, decide (c ≠ '\n') = true :=
    passes_of_not_mem (by simp [within])
  have found : first '/' ('/' :: body) = .comment ('/' :: '/' :: body) := by
    have taken := List.takeWhile_eq_self_iff.2 passed
    rw [first, if_neg (by decide), if_pos ⟨rfl, rfl⟩, taken]
  rw [cut_cons, found, text, List.drop_length, cut]

theorem closed_comment {body : List Char} (within : '\n' ∉ body) :
    Closed ('/' :: '/' :: body) := by
  intro other member
  rw [cut_comment within] at member
  simp at member

theorem marks_gap (unmarked : ∀ line text, mark (line, .blank text) = none)
    (uncommented : ∀ line text, mark (line, .comment text) = none) {gap : List Char}
    (isGap : Gap gap) (tail : List Char) :
    marks mark line (gap ++ tail) = marks mark (line + gap.count '\n') tail := by
  induction isGap generalizing line with
  | nil => rfl
  | @blank space rest blank _ ih =>
      have breaks (others : List Char) :
          (space :: others).count '\n' = [space].count '\n' + others.count '\n' := by
        rw [← List.singleton_append, List.count_append]
      have skipped : marks mark line (space :: (rest ++ tail)) =
          marks mark (line + [space].count '\n') (rest ++ tail) := by
        rw [marks_skip unmarked, marks_skip unmarked _ (rest ++ tail),
          List.takeWhile_cons_of_pos blank, List.dropWhile_cons_of_pos blank, breaks,
          Nat.add_assoc]
      rw [List.cons_append, skipped, ih, breaks rest, Nat.add_assoc]
  | @comment body rest within _ ih =>
      have none : marks mark line ('/' :: '/' :: body) = [] := by
        unfold marks
        rw [cut_comment within, locate, locate, List.filterMap_cons_none (uncommented _ _)]
        rfl
      have split : '/' :: '/' :: body ++ '\n' :: rest ++ tail =
          '/' :: '/' :: body ++ '\n' :: (rest ++ tail) := List.append_assoc _ _ _
      rw [split, marks_append_line unmarked (closed_comment within), none, List.nil_append, ih,
        List.count_append, List.count_cons_self]
      congr 1
      omega

theorem marks_spelled (unmarked : ∀ line text, mark (line, .blank text) = none)
    (uncommented : ∀ line text, mark (line, .comment text) = none) {lexeme : Lexeme}
    (spelled : Spelled lexeme) {behind : List Char} (apart : Separator behind) (tail : List Char) :
    marks mark line (lexeme.text ++ behind ++ tail) =
      (mark (line, .token lexeme.kind lexeme.text)).toList ++
        marks mark (line + (lexeme.text ++ behind).count '\n') tail := by
  cases apart with
  | @mk space gap blank isGap =>
      obtain ⟨c, rest, split, found⟩ := first_spelled spelled blank (gap ++ tail)
      have whole : lexeme.text ++ space :: gap ++ tail = c :: rest := by
        rw [List.append_assoc]
        exact split
      have left : (c :: rest).drop lexeme.text.length = space :: gap ++ tail := by
        rw [← whole, List.append_assoc, List.drop_left]
      rw [whole, marks_cons, found, text, left,
        marks_gap unmarked uncommented (Gap.blank blank isGap), lineBreaks, text, List.count_append,
        Nat.add_assoc]

theorem tokens_written {entries : List (Lexeme × List Char)}
    (entered : ∀ entry ∈ entries, Spelled entry.1 ∧ Separator entry.2) :
    (marks Token.ofPiece? line (written entries)).map Token.unplaced = entries.map Prod.fst := by
  induction entries generalizing line with
  | nil =>
      rw [written, List.flatMap_nil, marks_nil]
      rfl
  | cons entry entries ih =>
      obtain ⟨⟨spelled, apart⟩, others⟩ := List.forall_mem_cons.1 entered
      obtain ⟨lexeme, behind⟩ := entry
      rw [written, List.flatMap_cons, ← written,
        marks_spelled (fun _ _ => rfl) (fun _ _ => rfl) spelled apart, List.map_append, ih others,
        Token.ofPiece?, Token.literalOf_spelled spelled]
      simp [Token.unplaced]

theorem silent_written {entries : List (Lexeme × List Char)}
    (entered : ∀ entry ∈ entries, Spelled entry.1 ∧ Separator entry.2) :
    marks Diagnostic.ofPiece? line (written entries) = [] := by
  induction entries generalizing line with
  | nil => rw [written, List.flatMap_nil, marks_nil]
  | cons entry entries ih =>
      obtain ⟨⟨spelled, apart⟩, others⟩ := List.forall_mem_cons.1 entered
      rw [written, List.flatMap_cons, ← written,
        marks_spelled (fun _ _ => rfl) (fun _ _ => rfl) spelled apart, ih others]
      rfl

end Piece

/-- Tokens that are written out apart from each other are scanned as they were written, with the
values that they stand for, and nothing is reported. -/
theorem scan_written {gap : List Char} (isGap : Gap gap) {entries : List (Lexeme × List Char)}
    (entered : ∀ entry ∈ entries, Spelled entry.1 ∧ Separator entry.2) :
    (scan (String.ofList (gap ++ written entries))).diagnostics = [] ∧
      (scan (String.ofList (gap ++ written entries))).tokens.map Token.unplaced =
        entries.map Prod.fst ++ [⟨.eof, [], .nil⟩] := by
  rw [scan_eq, String.toList_ofList, Piece.marks_gap (fun _ _ => rfl) (fun _ _ => rfl) isGap,
    Piece.marks_gap (fun _ _ => rfl) (fun _ _ => rfl) isGap]
  refine ⟨Piece.silent_written entered, ?_⟩
  rw [List.map_append, Piece.tokens_written entered]
  rfl

/-- A slash in front of a comment, a number, a name that begins like a keyword, that keyword and
a string over two lines. -/
theorem scan_written_mixed :
    let entries := [(⟨.slash, ['/'], .nil⟩, [' ', '/', '/', '/', '\n']),
      (⟨.number, ['1', '.', '5'], .number (Decimal.toFloat ⟨15, -1⟩)⟩, ['\n']),
      (⟨.identifier, ['o', 'r', '1'], .nil⟩, ['\t']), (⟨.orWord, "or".toList, .nil⟩, [' ']),
      (⟨.string, ['"', '/', '/', '\n', '"'], .text "//\n"⟩, ['\r'])]
    (∀ entry ∈ entries, Spelled entry.1 ∧ Separator entry.2) ∧
      (scan (String.ofList ([' '] ++ written entries))).diagnostics = [] ∧
      (scan (String.ofList ([' '] ++ written entries))).tokens.map Token.unplaced =
        entries.map Prod.fst ++ [⟨.eof, [], .nil⟩] := by
  intro entries
  have space {c : Char} (blank : Piece.isBlank c) : Separator [c] := .mk blank .nil
  have slash : Spelled ⟨.slash, ['/'], .nil⟩ := .operator (by decide)
  have commented : Gap ['/', '/', '/', '\n'] := @Gap.comment ['/'] [] (by decide) .nil
  have number : Spelled ⟨.number, ['1', '.', '5'], .number (Decimal.toFloat ⟨15, -1⟩)⟩ :=
    @Spelled.fraction '1' '5' [] [] rfl nofun rfl nofun
  have name : Spelled ⟨.identifier, ['o', 'r', '1'], .nil⟩ :=
    .identifier rfl (List.all_eq_true.1 rfl) (by decide)
  have keyword : Spelled ⟨.orWord, "or".toList, .nil⟩ := .keyword (by decide)
  have string : Spelled ⟨.string, ['"', '/', '/', '\n', '"'], .text "//\n"⟩ :=
    @Spelled.string ['/', '/', '\n'] (by decide)
  have entered : ∀ entry ∈ entries, Spelled entry.1 ∧ Separator entry.2 := by
    simp only [entries, List.forall_mem_cons]
    exact ⟨⟨slash, .mk rfl commented⟩, ⟨number, space rfl⟩, ⟨name, space rfl⟩,
      ⟨keyword, space rfl⟩, ⟨string, space rfl⟩, nofun⟩
  exact ⟨entered, scan_written (.blank rfl .nil) entered⟩

end Lox
