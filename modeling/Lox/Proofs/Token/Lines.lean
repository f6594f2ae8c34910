import Lox.Proofs.Token.Tiling
import Lox.Text

/-!
Scanning goes line by line: where no string is open, what stands before a line feed and
what stands behind it are scanned apart.
-/

namespace Lox

namespace Piece

variable {α : Type} {c : Char} {rest tail text : List Char}

def Closed (text : List Char) : Prop :=
  ∀ body, .unclosed body ∉ cut text

/-- What the pieces of a text stand for, where its first line has the given number. -/
def marks (mark : Nat × Piece → Option α) (line : Nat) (text : List Char) : List α :=
  (locate line (cut text)).filterMap mark

theorem takeWhile_stop {p : Char → Bool} {stop : Char} (stops : p stop = false) :
    (rest ++ stop :: tail).takeWhile p = rest.takeWhile p := by
  induction rest with
  | nil => simp [stops]
  | cons c rest ih =>
      rw [List.cons_append, List.takeWhile_cons, List.takeWhile_cons, ih]

theorem dropWhile_stop {p : Char → Bool} {stop : Char} (stops : p stop = false) :
    (rest ++ stop :: tail).dropWhile p = rest.dropWhile p ++ stop :: tail := by
  induction rest with
  | nil => simp [stops]
  | cons c rest ih =>
      rw [List.cons_append, List.dropWhile_cons, List.dropWhile_cons, ih]
      split <;> rfl

theorem fraction_stop : fraction (text ++ '\n' :: tail) = fraction text := by
  match text with
  | [] => rfl
  | [c] =>
      by_cases point : c = '.'
      · subst point
        rfl
      · simp [fraction, point]
  | c :: digit :: rest =>
      by_cases point : c = '.'
      · subst point
        simp only [List.cons_append, fraction]
        rw [takeWhile_stop rfl]
      · simp [fraction, point]

theorem number_stop : number c (rest ++ '\n' :: tail) = number c rest := by
  rw [number, takeWhile_stop rfl, dropWhile_stop rfl, fraction_stop, number]

theorem head?_stop {other : Char} (different : '\n' ≠ other) :
    (rest ++ '\n' :: tail).head? = some other ↔ rest.head? = some other := by
  cases rest with
  | nil => simp [different]
  | cons first rest => simp

theorem operator?_stop : operator? c (rest ++ '\n' :: tail) = operator? c rest := by
  unfold operator?
  rw [if_congr (head?_stop (by decide)) rfl rfl]

theorem quoted_stop (closes : '"' ∈ rest) (tail : List Char) :
    (rest ++ tail).takeWhile (· ≠ '"') = rest.takeWhile (· ≠ '"') ∧
      (rest.takeWhile (· ≠ '"')).length < rest.length := by
  obtain ⟨before, after, rfl⟩ := List.append_of_mem closes
  rw [List.append_assoc, List.cons_append, takeWhile_stop rfl, takeWhile_stop rfl]
  have starts : before.takeWhile (· ≠ '"') <+: before := List.takeWhile_prefix _
  have shorter := starts.length_le
  refine ⟨rfl, ?_⟩
  rw [List.length_append, List.length_cons]
  omega

theorem first_stop (unblank : isBlank c = false) (closes : c = '"' → '"' ∈ rest) :
    first c (rest ++ '\n' :: tail) = first c rest := by
  unfold first
  simp only [unblank, Bool.false_eq_true, if_false]
  rw [if_congr (and_congr_right fun _ => head?_stop (by decide)) rfl rfl, takeWhile_stop rfl,
    number_stop, takeWhile_stop rfl, operator?_stop]
  by_cases quote : c = '"'
  · obtain ⟨same, shorter⟩ := quoted_stop (closes quote) ('\n' :: tail)
    rw [same]
    have longer : (rest.takeWhile (· ≠ '"')).length < (rest ++ '\n' :: tail).length := by
      rw [List.length_append]
      omega
    simp only [shorter, longer, if_true]
  · simp only [quote, if_false]

theorem first_ne_unclosed (closes : c = '"' → '"' ∈ rest) (body : List Char) :
    first c rest ≠ .unclosed body := by
  unfold first
  split
  · exact nofun
  split
  · exact nofun
  split
  · exact nofun
  split
  · exact nofun
  split
  next quote =>
    have shorter := (quoted_stop (closes quote) []).2
    simp only [shorter, if_true]
    exact nofun
  split <;> exact nofun

theorem drop_first (c : Char) (rest tail : List Char) :
    (c :: (rest ++ tail)).drop (first c rest).text.length =
      (c :: rest).drop (first c rest).text.length ++ tail := by
  have shorter := (text_first_starts c rest).length_le
  rw [← List.cons_append, List.drop_append_of_le_length shorter]

theorem cut_cons (c : Char) (rest : List Char) :
    cut (c :: rest) = first c rest :: cut ((c :: rest).drop (first c rest).text.length) := by
  rw [cut]

theorem cut_blank (blank : isBlank c) :
    cut (c :: rest) = .blank (c :: rest.takeWhile isBlank) :: cut (rest.dropWhile isBlank) := by
  have found : first c rest = .blank (c :: rest.takeWhile isBlank) := by
    rw [first, if_pos blank]
  have dropped : (c :: rest).drop (c :: rest.takeWhile isBlank).length =
      rest.dropWhile isBlank := by
    rw [List.length_cons, List.drop_succ_cons]
    calc rest.drop (rest.takeWhile isBlank).length
        = (rest.takeWhile isBlank ++ rest.dropWhile isBlank).drop
            (rest.takeWhile isBlank).length := by rw [List.takeWhile_append_dropWhile]
      _ = rest.dropWhile isBlank := List.drop_left
  rw [cut_cons, found, text, dropped]

theorem text_induction {motive : List Char → Prop}
    (blank : ∀ text, text.dropWhile isBlank = [] → motive text)
    (piece : ∀ text c rest, text.dropWhile isBlank = c :: rest → isBlank c = false →
      motive ((c :: rest).drop (first c rest).text.length) → motive text)
    (text : List Char) : motive text := by
  induction size : text.length using Nat.strongRecOn generalizing text with
  | ind size ih =>
      cases trimmed : text.dropWhile isBlank with
      | nil => exact blank text trimmed
      | cons c rest =>
          have unblank := List.head?_dropWhile_not isBlank text
          rw [trimmed] at unblank
          refine piece text c rest trimmed (by simpa using unblank) (ih _ ?_ _ rfl)
          have shorter := (List.dropWhile_suffix isBlank (l := text)).length_le
          have nonempty := List.length_pos_iff.2 (text_first_ne_nil c rest)
          rw [trimmed] at shorter
          rw [List.length_drop, ← size]
          simp only [List.length_cons] at shorter ⊢
          omega

namespace Closed

theorem skip_iff : Closed (text.dropWhile isBlank) ↔ Closed text := by
  cases text with
  | nil => rfl
  | cons c rest =>
      by_cases blank : isBlank c
      · rw [List.dropWhile_cons_of_pos blank]
        unfold Closed
        rw [cut_blank blank]
        simp
      · rw [List.dropWhile_cons_of_neg blank]

theorem quote (closed : Closed (c :: rest)) (quote : c = '"') : '"' ∈ rest := by
  subst quote
  by_contra open_
  have taken : rest.takeWhile (· ≠ '"') = rest :=
    List.takeWhile_eq_self_iff.2 (passes_of_not_mem open_)
  have found : first '"' rest = .unclosed ('"' :: rest) := by
    rw [first_quote, taken, if_neg (Nat.lt_irrefl _)]
  refine closed ('"' :: rest) ?_
  rw [cut_cons, found]
  exact List.mem_cons_self

theorem behind (closed : Closed (c :: rest)) :
    Closed ((c :: rest).drop (first c rest).text.length) := by
  intro body member
  refine closed body ?_
  rw [cut_cons]
  exact List.mem_cons_of_mem _ member

theorem cons (closes : c = '"' → '"' ∈ rest)
    (closed : Closed ((c :: rest).drop (first c rest).text.length)) : Closed (c :: rest) := by
  intro body member
  rw [cut_cons] at member
  rcases List.mem_cons.1 member with same | later
  · exact first_ne_unclosed closes body same.symm
  · exact closed body later

theorem nil : Closed [] := by
  intro body member
  rw [cut] at member
  cases member

theorem of_line (closed : Closed (text ++ ['\n'])) : Closed text := by
  induction text using text_induction with
  | blank text trimmed =>
      rw [← skip_iff, trimmed]
      exact nil
  | piece text c rest trimmed unblank ih =>
      rw [← skip_iff, List.dropWhile_append, trimmed] at closed
      rw [← skip_iff, trimmed]
      have closes : c = '"' → '"' ∈ rest := fun quote => by
        simpa using closed.quote quote
      have behind : Closed ((c :: (rest ++ ['\n'])).drop (first c (rest ++ ['\n'])).text.length) :=
        closed.behind
      rw [first_stop unblank closes, drop_first] at behind
      exact cons closes (ih behind)

end Closed

section Marks

variable {mark : Nat × Piece → Option α} {line : Nat}

theorem marks_nil : marks mark line [] = [] := by
  unfold marks
  rw [cut]
  rfl

theorem marks_cons (c : Char) (rest : List Char) :
    marks mark line (c :: rest) = (mark (line, first c rest)).toList ++
      marks mark (line + (first c rest).lineBreaks)
        ((c :: rest).drop (first c rest).text.length) := by
  unfold marks
  rw [cut_cons, locate, List.filterMap_cons]
  cases mark (line, first c rest) <;> rfl

theorem marks_skip (unmarked : ∀ line text, mark (line, .blank text) = none)
    (line : Nat) (text : List Char) :
    marks mark line text =
      marks mark (line + (text.takeWhile isBlank).count '\n') (text.dropWhile isBlank) := by
  cases text with
  | nil => rfl
  | cons c rest =>
      by_cases blank : isBlank c
      · rw [List.takeWhile_cons_of_pos blank, List.dropWhile_cons_of_pos blank]
        unfold marks
        rw [cut_blank blank, locate, List.filterMap_cons_none (unmarked _ _)]
        rfl
      · rw [List.takeWhile_cons_of_neg blank, List.dropWhile_cons_of_neg blank]
        rfl

theorem marks_append_line (unmarked : ∀ line text, mark (line, .blank text) = none)
    (closed : Closed text) (tail : List Char) :
    marks mark line (text ++ '\n' :: tail) =
      marks mark line text ++ marks mark (line + text.count '\n' + 1) tail := by
  induction text using text_induction generalizing line with
  | blank text trimmed =>
      have blank : isBlank '\n' := by decide
      have whole : text.takeWhile isBlank = text := by
        have split := List.takeWhile_append_dropWhile (p := isBlank) (l := text)
        rwa [trimmed, List.append_nil] at split
      have taken : (text ++ '\n' :: tail).takeWhile isBlank =
          text ++ '\n' :: tail.takeWhile isBlank := by
        rw [List.takeWhile_append, if_pos (congrArg List.length whole)]
        rw [List.takeWhile_cons_of_pos blank]
      have dropped : (text ++ '\n' :: tail).dropWhile isBlank = tail.dropWhile isBlank := by
        rw [List.dropWhile_append, trimmed]
        exact List.dropWhile_cons_of_pos blank
      have none : marks mark line text = [] := by
        rw [marks_skip unmarked, trimmed, marks_nil]
      rw [none, List.nil_append, marks_skip unmarked, marks_skip unmarked _ tail, taken,
        dropped, List.count_append, List.count_cons_self]
      congr 1
      omega
  | piece text c rest trimmed unblank ih =>
      rw [← Closed.skip_iff, trimmed] at closed
      have split := List.takeWhile_append_dropWhile (p := isBlank) (l := text)
      rw [trimmed] at split
      have taken : (text ++ '\n' :: tail).takeWhile isBlank = text.takeWhile isBlank := by
        have length := congrArg List.length split
        rw [List.length_append, List.length_cons] at length
        rw [List.takeWhile_append, if_neg (by omega)]
      have dropped : (text ++ '\n' :: tail).dropWhile isBlank = c :: (rest ++ '\n' :: tail) := by
        rw [List.dropWhile_append, trimmed]
        rfl
      have breaks : text.count '\n' = (text.takeWhile isBlank).count '\n' +
          (first c rest).lineBreaks +
          ((c :: rest).drop (first c rest).text.length).count '\n' := by
        have breaks := congrArg (List.count '\n') split
        obtain ⟨behind, pieces⟩ := text_first_starts c rest
        rw [← pieces, List.drop_left, lineBreaks, ← breaks, ← pieces, List.count_append,
          List.count_append, Nat.add_assoc]
      rw [marks_skip unmarked, marks_skip unmarked line text, taken, dropped, trimmed,
        marks_cons, marks_cons, first_stop unblank closed.quote, drop_first, ih closed.behind,
        List.append_assoc, breaks]
      congr 3
      omega

/-- A line is scanned together with its line feed, which may close no string. -/
theorem marks_line_append (unmarked : ∀ line text, mark (line, .blank text) = none)
    (closed : Closed (text ++ ['\n'])) (within : '\n' ∉ text) (tail : List Char) :
    marks mark line (text ++ '\n' :: tail) =
      marks mark line (text ++ ['\n']) ++ marks mark (line + 1) tail := by
  rw [marks_append_line unmarked closed.of_line, marks_append_line unmarked closed.of_line,
    marks_nil, List.append_nil, List.count_eq_zero.2 within]

theorem locate_add (line raised : Nat) (pieces : List Piece) :
    locate (line + raised) pieces =
      (locate line pieces).map fun entry => (entry.1 + raised, entry.2) := by
  induction pieces generalizing line with
  | nil => rfl
  | cons piece rest ih =>
      rw [locate, locate, List.map_cons, Nat.add_right_comm, ih]

theorem marks_add {raised : Nat} {shift : α → α}
    (shifted : ∀ line piece, mark (line + raised, piece) = (mark (line, piece)).map shift)
    (text : List Char) : marks mark (line + raised) text = (marks mark line text).map shift := by
  unfold marks
  rw [locate_add, List.filterMap_map, List.map_filterMap]
  congr 1
  funext entry
  exact shifted entry.1 entry.2

theorem le_of_mem_locate {other : Nat} {piece : Piece} {pieces : List Piece}
    (member : (other, piece) ∈ locate line pieces) :
    other ≤ line + (pieces.flatMap Piece.text).count '\n' := by
  induction pieces generalizing line with
  | nil => cases member
  | cons first rest ih =>
      rw [List.flatMap_cons, List.count_append]
      rcases List.mem_cons.1 member with same | later
      · cases same
        omega
      · have bound := ih later
        rw [lineBreaks] at bound
        omega

end Marks

end Piece

namespace Token

def relined (relabel : Int → Int) (token : Token) : Token :=
  { token with line := relabel token.line }

theorem ofPiece?_add (raised line : Nat) (piece : Piece) :
    ofPiece? (line + raised, piece) = (ofPiece? (line, piece)).map (relined (· + raised)) := by
  cases piece <;> rfl

theorem line_le_of_mem_marks {token : Token} {line : Nat} {text : List Char}
    (member : token ∈ Piece.marks ofPiece? line text) :
    token.line.natAbs ≤ line + text.count '\n' := by
  obtain ⟨⟨other, piece⟩, placed, found⟩ := List.mem_filterMap.1 member
  have bound := Piece.le_of_mem_locate placed
  rw [(Piece.tiles_cut text).flatMap_text] at bound
  cases piece with
  | token kind body =>
      cases found
      exact bound
  | _ => cases found

end Token

namespace Diagnostic

def relined (relabel : Int → Int) (diagnostic : Diagnostic) : Diagnostic :=
  { diagnostic with line := relabel diagnostic.line }

theorem ofPiece?_add (raised line : Nat) (piece : Piece) :
    ofPiece? (line + raised, piece) = (ofPiece? (line, piece)).map (relined (· + raised)) := by
  cases piece <;> rfl

end Diagnostic

namespace Piece

theorem closed_of_reported {line : Nat} {text : List Char}
    (reported : ∀ diagnostic ∈ marks Diagnostic.ofPiece? line text,
      diagnostic.problem ≠ .unterminatedString) : Closed text := by
  intro body member
  obtain ⟨index, bound, found⟩ := List.mem_iff_getElem.1 member
  have placed : (.unclosed body, index) ∈ (cut text).zipIdx := by
    rw [List.mem_zipIdx_iff_getElem?, List.getElem?_eq_getElem bound, found]
  unfold marks at reported
  rw [locate_eq] at reported
  exact reported _ (List.mem_filterMap.2 ⟨_, List.mem_map_of_mem placed, rfl⟩) rfl

theorem closed_of_silent {line : Nat} {text : List Char}
    (silent : marks Diagnostic.ofPiece? line text = []) : Closed text := by
  have reported : ∀ diagnostic ∈ marks Diagnostic.ofPiece? line text,
      diagnostic.problem ≠ .unterminatedString := by
    simp [silent]
  exact closed_of_reported reported

end Piece

theorem scan_eq (source : String) :
    scan source =
      ⟨Piece.marks Token.ofPiece? 1 source.toList ++ [endToken source.toList],
        Piece.marks Diagnostic.ofPiece? 1 source.toList⟩ := rfl

namespace Text

theorem lines_of_notMem {text : List Char} (within : '\n' ∉ text) (nonempty : text ≠ []) :
    lines text = [text] := by
  induction text with
  | nil => exact absurd rfl nonempty
  | cons c rest ih =>
      rw [List.mem_cons, not_or] at within
      obtain ⟨different, restWithin⟩ := within
      rw [lines, if_neg (Ne.symm different)]
      cases rest with
      | nil => rfl
      | cons next rest => rw [ih restWithin (List.cons_ne_nil _ _)]

theorem lines_append_line {text : List Char} (within : '\n' ∉ text) (tail : List Char) :
    lines (text ++ '\n' :: tail) = (text ++ ['\n']) :: lines tail := by
  induction text with
  | nil => simp [lines]
  | cons c rest ih =>
      rw [List.mem_cons, not_or] at within
      obtain ⟨different, restWithin⟩ := within
      rw [List.cons_append, lines, if_neg (Ne.symm different), ih restWithin]
      rfl

theorem lines_induction {motive : List Char → Prop} (nil : motive [])
    (last : ∀ text, '\n' ∉ text → text ≠ [] → motive text)
    (line : ∀ text tail, '\n' ∉ text → motive tail → motive (text ++ '\n' :: tail))
    (text : List Char) : motive text := by
  induction size : text.length using Nat.strongRecOn generalizing text with
  | ind size ih =>
      by_cases within : '\n' ∈ text
      · obtain ⟨before, tail, rfl, fresh⟩ := List.eq_append_cons_of_mem within
        refine line before tail fresh (ih tail.length ?_ tail rfl)
        rw [List.length_append, List.length_cons] at size
        omega
      · cases text with
        | nil => exact nil
        | cons c rest => exact last _ within (List.cons_ne_nil _ _)

end Text

end Lox
