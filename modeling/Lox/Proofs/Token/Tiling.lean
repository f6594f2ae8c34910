import Lox.Proofs.Lexical
import Lox.Token.Scan
import Mathlib.Data.List.TakeWhile

/-!
A source text is cut into its longest pieces, and into those alone.
-/

namespace Lox

open Lox.Lexical

namespace Piece

variable {c : Char} {rest tail : List Char}

theorem passes_of_not_mem {stop : Char} {text : List Char} (absent : stop ∉ text) :
    ∀ c ∈ text, decide (c ≠ stop) = true :=
  fun _ member => decide_eq_true fun same => absent (same ▸ member)

theorem fraction_starts (text : List Char) : fraction text <+: text := by
  unfold fraction
  split
  · split
    · exact (List.prefix_cons_inj _).2 <| (List.prefix_cons_inj _).2 <| List.takeWhile_prefix _
    · exact List.nil_prefix
  · exact List.nil_prefix

theorem number_starts (c : Char) (rest : List Char) : number c rest <+: c :: rest := by
  have split : c :: rest = (c :: rest.takeWhile isDigit) ++ rest.dropWhile isDigit := by
    rw [List.cons_append, List.takeWhile_append_dropWhile]
  rw [number, split]
  exact (List.prefix_append_right_inj _).2 (fraction_starts _)

theorem operator?_mem {kind : Kind} {text : List Char}
    (found : operator? c rest = some (kind, text)) : (kind, text) ∈ operators := by
  unfold operator? at found
  split at found
  next double =>
    cases found
    split at double
    · unfold Kind.double? at double
      split at double <;> cases double <;> decide
    · cases double
  next =>
    obtain ⟨single, isSingle, same⟩ := Option.map_eq_some_iff.1 found
    cases same
    unfold Kind.single? at isSingle
    split at isSingle <;> cases isSingle <;> decide

theorem operator?_starts {kind : Kind} {text : List Char}
    (found : operator? c rest = some (kind, text)) : text <+: c :: rest := by
  unfold operator? at found
  split at found
  next double =>
    cases found
    split at double
    next head =>
      obtain ⟨others, rfl⟩ := List.head?_eq_some_iff.1 head
      exact ⟨others, rfl⟩
    next => cases double
  next =>
    obtain ⟨single, -, same⟩ := Option.map_eq_some_iff.1 found
    cases same
    exact ⟨rest, rfl⟩

theorem mem_takeWhile_ne {stop : Char} : stop ∉ rest.takeWhile (· ≠ stop) := by
  intro member
  have passed := List.mem_takeWhile_imp member
  simp at passed

theorem quote_ends (short : (rest.takeWhile (· ≠ '"')).length < rest.length) :
    ∃ tail, rest = rest.takeWhile (· ≠ '"') ++ '"' :: tail := by
  have split := List.takeWhile_append_dropWhile (p := (· ≠ '"')) (l := rest)
  cases dropped : rest.dropWhile (· ≠ '"') with
  | nil =>
      rw [dropped, List.append_nil] at split
      rw [split] at short
      omega
  | cons quote tail =>
      have stops := List.head?_dropWhile_not (· ≠ '"') rest
      rw [dropped] at stops
      have isQuote : quote = '"' := by simpa using stops
      rw [dropped, isQuote] at split
      exact ⟨tail, split.symm⟩

theorem text_first_starts (c : Char) (rest : List Char) : (first c rest).text <+: c :: rest := by
  unfold first
  split
  · exact (List.prefix_cons_inj c).2 <| List.takeWhile_prefix _
  split
  · exact (List.prefix_cons_inj c).2 <| List.takeWhile_prefix _
  split
  · exact number_starts c rest
  split
  · exact (List.prefix_cons_inj c).2 <| List.takeWhile_prefix _
  split
  · dsimp only
    split
    next short =>
      obtain ⟨tail, split⟩ := quote_ends short
      refine ⟨tail, ?_⟩
      rw [text, List.append_assoc]
      exact congrArg (c :: ·) split.symm
    next => exact (List.prefix_cons_inj c).2 <| List.takeWhile_prefix _
  split
  next found => exact operator?_starts found
  next => exact ⟨rest, rfl⟩

theorem terminal_number {c : Char} (digit : isDigit c) (rest : List Char) :
    Terminal (.token .number (number c rest)) := by
  have digits {text : List Char} : ∀ digit ∈ text.takeWhile isDigit, isDigit digit :=
    fun _ => List.mem_takeWhile_imp
  unfold number fraction
  split
  next place places _ =>
    split
    next isPlace => exact .fraction digit digits isPlace digits
    next => simpa using Terminal.whole digit digits
  next => simpa using Terminal.whole digit digits

theorem terminal_first (c : Char) (rest : List Char) :
    Terminal (first c rest) ∨ first c rest = .stray c := by
  unfold first
  split
  next blank => exact .inl (.blank blank fun _ => List.mem_takeWhile_imp)
  split
  next slashes =>
    obtain ⟨rfl, head⟩ := slashes
    obtain ⟨others, rfl⟩ := List.head?_eq_some_iff.1 head
    exact .inl (.comment mem_takeWhile_ne)
  split
  next digit => exact .inl (terminal_number digit rest)
  split
  next letter => exact .inl (.word letter fun _ => List.mem_takeWhile_imp)
  split
  next quote =>
    subst quote
    dsimp only
    split
    · exact .inl (.string mem_takeWhile_ne)
    · exact .inl (.unclosed mem_takeWhile_ne)
  split
  next found => exact .inl (.operator (operator?_mem found))
  next => exact .inr rfl

def Covers (piece other : Piece) : Prop :=
  ∃ more, piece.text = other.text ++ more ∧ (more = [] → piece = other)

theorem covers_blank (blank : isBlank c) {spaces : List Char}
    (spacesBlank : ∀ space ∈ spaces, isBlank space) :
    (first c (spaces ++ tail)).Covers (.blank (c :: spaces)) := by
  have found : first c (spaces ++ tail) = .blank (c :: (spaces ++ tail.takeWhile isBlank)) := by
    rw [first, if_pos blank, List.takeWhile_append_of_pos spacesBlank]
  refine ⟨tail.takeWhile isBlank, ?_, fun none => ?_⟩
  · rw [found]
    rfl
  · rw [found, none, List.append_nil]

theorem covers_comment {body : List Char} (within : '\n' ∉ body) :
    (first '/' ('/' :: body ++ tail)).Covers (.comment ('/' :: '/' :: body)) := by
  have passed : ∀ c ∈ '/' :: body, decide (c ≠ '\n') = true :=
    passes_of_not_mem (by simp [within])
  have found : first '/' ('/' :: body ++ tail) =
      .comment ('/' :: ('/' :: body ++ tail.takeWhile (· ≠ '\n'))) := by
    rw [← List.takeWhile_append_of_pos passed]
    rfl
  refine ⟨tail.takeWhile (· ≠ '\n'), ?_, fun none => ?_⟩
  · rw [found]
    rfl
  · rw [found, none, List.append_nil]

theorem isDigit_eq_false_of_isBlank (blank : isBlank c) : isDigit c = false := by
  simp only [isBlank, Bool.or_eq_true, beq_iff_eq] at blank
  rcases blank with ((rfl | rfl) | rfl) | rfl <;> decide

theorem isLetter_eq_false_of_isBlank (blank : isBlank c) : isLetter c = false := by
  simp only [isBlank, Bool.or_eq_true, beq_iff_eq] at blank
  rcases blank with ((rfl | rfl) | rfl) | rfl <;> decide

theorem isLetter_eq_false_of_isDigit (digit : isDigit c) : isLetter c = false := by
  simp only [isDigit, Bool.and_eq_true, decide_eq_true_eq, Char.le_def] at digit
  simp only [isLetter, Bool.or_eq_false_iff, Bool.and_eq_false_iff, decide_eq_false_iff_not,
    Char.le_def, beq_eq_false_iff_ne, ne_eq]
  obtain ⟨-, atMost⟩ := digit
  refine ⟨⟨.inl fun least => ?_, .inl fun least => ?_⟩, ?_⟩
  · exact absurd (UInt32.le_trans least atMost) (by decide)
  · exact absurd (UInt32.le_trans least atMost) (by decide)
  · rintro rfl
    exact absurd atMost (by decide)

theorem first_digit (digit : isDigit c) (rest : List Char) :
    first c rest = .token .number (number c rest) := by
  have unblank : ¬ isBlank c := fun blank => by
    simp [isDigit_eq_false_of_isBlank blank] at digit
  have unslashed : ¬ (c = '/' ∧ rest.head? = some '/') := by
    rintro ⟨rfl, -⟩
    exact absurd digit (by decide)
  rw [first, if_neg unblank, if_neg unslashed, if_pos digit]

theorem first_letter (letter : isLetter c) (rest : List Char) :
    first c rest = .token (Kind.ofWord (String.ofList (c :: rest.takeWhile isWordPart)))
      (c :: rest.takeWhile isWordPart) := by
  have unblank : ¬ isBlank c := fun blank => by
    simp [isLetter_eq_false_of_isBlank blank] at letter
  have unslashed : ¬ (c = '/' ∧ rest.head? = some '/') := by
    rintro ⟨rfl, -⟩
    exact absurd letter (by decide)
  have undigit : ¬ isDigit c := fun digit => by
    simp [isLetter_eq_false_of_isDigit digit] at letter
  rw [first, if_neg unblank, if_neg unslashed, if_neg undigit, if_pos letter]

theorem covers_word (letter : isLetter c) {parts : List Char}
    (wordParts : ∀ part ∈ parts, isWordPart part) :
    (first c (parts ++ tail)).Covers
      (.token (Kind.ofWord (String.ofList (c :: parts))) (c :: parts)) := by
  have found := first_letter letter (parts ++ tail)
  rw [List.takeWhile_append_of_pos wordParts] at found
  refine ⟨tail.takeWhile isWordPart, ?_, fun none => ?_⟩
  · rw [found]
    rfl
  · rw [found, none, List.append_nil]

theorem covers_whole (digit : isDigit c) {digits : List Char}
    (allDigits : ∀ digit ∈ digits, isDigit digit) :
    (first c (digits ++ tail)).Covers (.token .number (c :: digits)) := by
  have found := first_digit digit (digits ++ tail)
  rw [number, List.takeWhile_append_of_pos allDigits,
    List.dropWhile_append_of_pos allDigits] at found
  refine ⟨tail.takeWhile isDigit ++ fraction (tail.dropWhile isDigit), ?_, fun none => ?_⟩
  · simp [found, text]
  · rw [found, ← List.cons_append, List.append_assoc, none, List.append_nil]

theorem covers_fraction (digit : isDigit c) {digits : List Char}
    (allDigits : ∀ digit ∈ digits, isDigit digit) {place : Char} (isPlace : isDigit place)
    {places : List Char} (allPlaces : ∀ place ∈ places, isDigit place) :
    (first c (digits ++ '.' :: place :: places ++ tail)).Covers
      (.token .number (c :: digits ++ '.' :: place :: places)) := by
  have whole : (digits ++ '.' :: place :: (places ++ tail)).takeWhile isDigit = digits := by
    rw [List.takeWhile_append_of_pos allDigits]
    exact List.append_nil digits
  have left : (digits ++ '.' :: place :: (places ++ tail)).dropWhile isDigit =
      '.' :: place :: (places ++ tail) :=
    List.dropWhile_append_of_pos allDigits
  have found := first_digit digit (digits ++ '.' :: place :: (places ++ tail))
  rw [number, whole, left, fraction, if_pos isPlace,
    List.takeWhile_append_of_pos allPlaces] at found
  rw [List.append_assoc, List.cons_append, List.cons_append]
  refine ⟨tail.takeWhile isDigit, ?_, fun none => ?_⟩
  · rw [found]
    simp [text]
  · rw [found, none, List.append_nil]

theorem first_quote (rest : List Char) :
    first '"' rest = if (rest.takeWhile (· ≠ '"')).length < rest.length
      then .token .string ('"' :: rest.takeWhile (· ≠ '"') ++ ['"'])
      else .unclosed ('"' :: rest.takeWhile (· ≠ '"')) := rfl

theorem first_string {body : List Char} (within : '"' ∉ body) (tail : List Char) :
    first '"' (body ++ '"' :: tail) = .token .string ('"' :: body ++ ['"']) := by
  have passed := passes_of_not_mem within
  have taken : (body ++ '"' :: tail).takeWhile (· ≠ '"') = body := by
    rw [List.takeWhile_append_of_pos passed]
    exact List.append_nil body
  have short : body.length < (body ++ '"' :: tail).length := by simp
  rw [first_quote, taken, if_pos short]

theorem covers_string {body : List Char} (within : '"' ∉ body) :
    (first '"' (body ++ '"' :: tail)).Covers (.token .string ('"' :: body ++ ['"'])) := by
  rw [first_string within]
  exact ⟨[], (List.append_nil _).symm, fun _ => rfl⟩

theorem covers_unclosed {body : List Char} (within : '"' ∉ body) :
    (first '"' (body ++ tail)).Covers (.unclosed ('"' :: body)) := by
  have passed := passes_of_not_mem within
  rw [first_quote, List.takeWhile_append_of_pos passed]
  split
  · refine ⟨tail.takeWhile (· ≠ '"') ++ ['"'], ?_, fun none => ?_⟩
    · simp [text]
    · simp at none
  · refine ⟨tail.takeWhile (· ≠ '"'), ?_, fun none => ?_⟩
    · simp [text]
    · rw [none, List.append_nil]

theorem first_operator {kind other : Kind} {text : List Char} (single : Kind.single? c = some kind)
    (uncommented : ¬ (c = '/' ∧ rest.head? = some '/'))
    (found : operator? c rest = some (other, text)) : first c rest = .token other text := by
  have outside : isBlank c = false ∧ isDigit c = false ∧ isLetter c = false ∧ c ≠ '"' := by
    unfold Kind.single? at single
    split at single <;> first | decide | cases single
  obtain ⟨blank, digit, letter, quote⟩ := outside
  simp only [first, blank, digit, letter, quote, uncommented, found, Bool.false_eq_true, if_false]

theorem covers_single {kind : Kind} (single : Kind.single? c = some kind) :
    (first c rest).Covers (.token kind [c]) := by
  by_cases comments : c = '/' ∧ rest.head? = some '/'
  · obtain ⟨rfl, head⟩ := comments
    obtain ⟨others, rfl⟩ := List.head?_eq_some_iff.1 head
    exact ⟨'/' :: others.takeWhile (· ≠ '\n'), rfl, nofun⟩
  cases longer : if rest.head? = some '=' then Kind.double? c else none with
  | some double =>
      have found : operator? c rest = some (double, [c, '=']) := by
        rw [operator?, longer]
      rw [first_operator single comments found]
      exact ⟨['='], rfl, nofun⟩
  | none =>
      have found : operator? c rest = some (kind, [c]) := by
        rw [operator?, longer, single]
        rfl
      rw [first_operator single comments found]
      exact ⟨[], rfl, fun _ => rfl⟩

theorem first_double {kind : Kind} (double : Kind.double? c = some kind) (rest : List Char) :
    first c ('=' :: rest) = .token kind [c, '='] := by
  have single : ∃ kind, Kind.single? c = some kind := by
    unfold Kind.double? at double
    split at double <;> first | exact ⟨_, rfl⟩ | cases double
  obtain ⟨other, single⟩ := single
  have found : operator? c ('=' :: rest) = some (kind, [c, '=']) := by
    simp [operator?, double]
  exact first_operator single (by simp) found

theorem covers_double {kind : Kind} (double : Kind.double? c = some kind) :
    (first c ('=' :: rest)).Covers (.token kind [c, '=']) := by
  rw [first_double double]
  exact ⟨[], rfl, fun _ => rfl⟩

theorem single_or_double {kind : Kind} {text : List Char} (listed : (kind, text) ∈ operators) :
    (∃ c, text = [c] ∧ Kind.single? c = some kind) ∨
      ∃ c, text = [c, '='] ∧ Kind.double? c = some kind := by
  have checked : ∀ entry ∈ operators,
      entry.2 = [entry.2.headD ' '] ∧ Kind.single? (entry.2.headD ' ') = some entry.1 ∨
        entry.2 = [entry.2.headD ' ', '='] ∧
          Kind.double? (entry.2.headD ' ') = some entry.1 := by
    decide
  rcases checked _ listed with single | double
  · exact .inl ⟨_, single⟩
  · exact .inr ⟨_, double⟩

/-- Whatever terminal stands at the front of a text, the first piece covers it. -/
theorem first_covers {piece : Piece} (terminal : Terminal piece)
    (whole : piece.text ++ tail = c :: rest) : (first c rest).Covers piece := by
  cases terminal with
  | operator listed =>
      rcases single_or_double listed with ⟨_, rfl, single⟩ | ⟨_, rfl, double⟩
      · cases whole
        exact covers_single single
      · cases whole
        exact covers_double double
  | word letter parts =>
      cases whole
      exact covers_word letter parts
  | whole digit digits =>
      cases whole
      exact covers_whole digit digits
  | fraction digit digits place places =>
      cases whole
      exact covers_fraction digit digits place places
  | string within =>
      simp only [text, List.cons_append, List.append_assoc, List.nil_append] at whole
      cases whole
      exact covers_string within
  | unclosed within =>
      cases whole
      exact covers_unclosed within
  | comment within =>
      cases whole
      exact covers_comment within
  | blank space spaces =>
      cases whole
      exact covers_blank space spaces

end Piece

theorem Lexical.Terminal.text_ne_nil {piece : Piece} (terminal : Terminal piece) :
    piece.text ≠ [] := by
  cases terminal with
  | @operator kind text listed =>
      have nonempty : ∀ entry ∈ operators, entry.2 ≠ [] := by decide
      exact nonempty (kind, text) listed
  | _ => exact List.cons_ne_nil _ _

namespace Piece

variable {c : Char} {rest tail : List Char}

theorem not_terminal_of_first_stray (isStray : first c rest = .stray c) {other : Piece}
    (terminal : Terminal other) : ¬ other.text <+: c :: rest := by
  rintro ⟨after, whole⟩
  obtain ⟨more, longer, ends⟩ := first_covers terminal whole
  rw [isStray] at longer ends
  have lengths := congrArg List.length longer
  rw [List.length_append] at lengths
  have nonempty := List.length_pos_iff.2 terminal.text_ne_nil
  have none : more = [] := List.length_eq_zero_iff.1 (by
    change 1 = _ at lengths
    omega)
  rw [← ends none] at terminal
  cases terminal

theorem longest_first (split : (first c rest).text ++ tail = c :: rest) :
    Longest (first c rest) tail := by
  rcases terminal_first c rest with terminal | isStray
  · refine .terminal terminal ?_
    rw [split]
    rintro other otherTerminal ⟨after, whole⟩
    obtain ⟨more, longer, -⟩ := first_covers otherTerminal whole
    simp [longer]
  · rw [isStray] at split ⊢
    have same : tail = rest := List.tail_eq_of_cons_eq split
    exact .stray fun other terminal => same ▸ not_terminal_of_first_stray isStray terminal

theorem eq_first_of_longest {piece : Piece} (longest : Longest piece tail)
    (whole : piece.text ++ tail = c :: rest) : piece = first c rest := by
  cases longest with
  | terminal terminal longest =>
      obtain ⟨more, longer, ends⟩ := first_covers terminal whole
      refine (ends ?_).symm
      rcases terminal_first c rest with firstTerminal | isStray
      · have atMost := longest _ firstTerminal (whole ▸ text_first_starts c rest)
        rw [longer, List.length_append] at atMost
        exact List.length_eq_zero_iff.1 (by omega)
      · exact absurd ⟨tail, whole⟩ (not_terminal_of_first_stray isStray terminal)
  | stray none =>
      cases whole
      rcases terminal_first c tail with terminal | isStray
      · exact absurd (text_first_starts c tail) (none _ terminal)
      · exact isStray.symm

theorem tiles_cut (text : List Char) : Tiles (cut text) text := by
  induction text using cut.induct with
  | case1 =>
      rw [cut]
      exact .nil
  | case2 c rest piece ih =>
      obtain ⟨tail, split⟩ := text_first_starts c rest
      have dropped : (c :: rest).drop piece.text.length = tail := by
        rw [← split, List.drop_left]
      rw [dropped] at ih
      rw [cut, ← split, List.drop_left]
      exact .cons (longest_first split) ih

end Piece

theorem Kind.ofWord_cases (word : String) :
    ofWord word = identifier ∨ (word, ofWord word) ∈ keywords := by
  unfold ofWord
  cases found : keywords.lookup word with
  | none => exact .inl rfl
  | some kind =>
      obtain ⟨before, after, listed, -⟩ := List.lookup_eq_some_iff.1 found
      rw [listed]
      exact .inr (List.mem_append_right _ List.mem_cons_self)

namespace Lexical

def spellings : List (Kind × List Char) :=
  operators ++ Kind.keywords.map fun entry => (entry.2, entry.1.toList)

theorem Terminal.kind_cases {kind : Kind} {text : List Char}
    (terminal : Terminal (.token kind text)) :
    kind ∈ [.identifier, .number, .string] ∨ (kind, text) ∈ spellings := by
  cases terminal with
  | operator listed => exact .inr (List.mem_append_left _ listed)
  | @word letter parts =>
      rcases Kind.ofWord_cases (String.ofList (letter :: parts)) with free | keyword
      · rw [free]
        exact .inl (by decide)
      · refine .inr (List.mem_append_right _ (List.mem_map.2 ⟨_, keyword, ?_⟩))
        exact congrArg (Prod.mk _) String.toList_ofList
  | _ => exact .inl (by decide)

theorem Terminal.kind_ne_eof {kind : Kind} {text : List Char}
    (terminal : Terminal (.token kind text)) : kind ≠ .eof := by
  rcases terminal.kind_cases with free | listed
  · rintro rfl
    exact absurd free (by decide)
  · have noneEnds : ∀ entry ∈ spellings, entry.1 ≠ .eof := by decide
    exact noneEnds _ listed

theorem Longest.text_ne_nil {piece : Piece} {rest : List Char} (longest : Longest piece rest) :
    piece.text ≠ [] := by
  cases longest with
  | terminal terminal => exact terminal.text_ne_nil
  | stray => exact List.cons_ne_nil _ _

end Lexical

namespace Lexical.Tiles

variable {pieces : List Piece} {text : List Char}

theorem flatMap_text (tiles : Tiles pieces text) : pieces.flatMap Piece.text = text := by
  induction tiles with
  | nil => rfl
  | cons _ _ ih => rw [List.flatMap_cons, ih]

theorem longest_of_mem (tiles : Tiles pieces text) {piece : Piece} (member : piece ∈ pieces) :
    ∃ rest, Longest piece rest := by
  induction tiles with
  | nil => cases member
  | @cons first others rest longest _ ih =>
      rcases List.mem_cons.1 member with rfl | later
      · exact ⟨rest, longest⟩
      · exact ih later

theorem terminal_of_located (tiles : Tiles pieces text) {line : Nat} {kind : Kind}
    {body : List Char} (member : (line, .token kind body) ∈ located pieces) :
    Terminal (.token kind body) := by
  obtain ⟨⟨_, index⟩, indexed, same⟩ := List.mem_map.1 member
  cases same
  obtain ⟨rest, longest⟩ := tiles.longest_of_mem (List.fst_mem_of_mem_zipIdx indexed)
  cases longest with
  | terminal terminal => exact terminal

end Lexical.Tiles

namespace Piece

theorem locate_eq (line : Nat) (pieces : List Piece) :
    locate line pieces = pieces.zipIdx.map fun (piece, index) =>
      (line + ((pieces.take index).flatMap text).count '\n', piece) := by
  induction pieces generalizing line with
  | nil => rfl
  | cons piece rest ih =>
      rw [locate, ih, List.zipIdx_cons, List.zipIdx_succ, List.map_cons, List.map_map]
      congr 1
      refine List.map_congr_left fun entry _ => ?_
      simp [lineBreaks, Nat.add_assoc]

end Piece

theorem Token.kind_ne_eof_of_located {pieces : List Piece} {text : List Char}
    (tiles : Tiles pieces text) {token : Token}
    (member : token ∈ (located pieces).filterMap Token.ofPiece?) : token.kind ≠ .eof := by
  obtain ⟨⟨line, piece⟩, placed, found⟩ := List.mem_filterMap.1 member
  cases piece with
  | token kind body =>
      cases found
      exact (tiles.terminal_of_located placed).kind_ne_eof
  | _ => cases found

end Lox
