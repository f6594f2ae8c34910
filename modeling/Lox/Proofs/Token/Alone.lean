import Lox.Proofs.Token.Lines

/-!
Tokens by their lexemes.  A lexeme that stands alone is scanned as one token, so a token of a
source text is known from its lexeme, but for the line it stands on.
-/

namespace Lox

open Lexical

theorem Piece.first_of_terminal {piece : Piece} (terminal : Terminal piece) {c : Char}
    {rest : List Char} (whole : piece.text = c :: rest) : first c rest = piece := by
  have longest : Longest piece [] := by
    refine .terminal terminal fun other _ starts => ?_
    rw [List.append_nil] at starts
    exact starts.length_le
  exact (eq_first_of_longest longest (by rw [List.append_nil, whole])).symm

namespace Token

def alone? (lexeme : String) : Option Token :=
  match lexeme.toList with
  | [] => none
  | c :: rest => ofPiece? (0, Piece.first c rest)

/-- A token that is spelled as one of its kind and has the value of its spelling. -/
structure Scanned (token : Token) : Prop where
  terminal : Terminal (.token token.kind token.lexeme.toList)
  literal : token.literal = literalOf token.kind token.lexeme.toList

theorem scanned_of_mem {source : String} {token : Token} (member : token ∈ (scan source).tokens)
    (inner : token.kind ≠ .eof) : token.Scanned := by
  rcases List.mem_append.1 member with found | ends
  · obtain ⟨⟨line, piece⟩, placed, made⟩ := List.mem_filterMap.1 found
    rw [Piece.locate_eq] at placed
    cases piece with
    | token kind text =>
        cases made
        have terminal := (Piece.tiles_cut source.toList).terminal_of_located placed
        constructor
        · rwa [String.toList_ofList]
        · rw [String.toList_ofList]
    | _ => cases made
  · rw [List.mem_singleton.1 ends] at inner
    exact absurd rfl inner

namespace Scanned

variable {token : Token}

theorem alone? (scanned : token.Scanned) :
    Token.alone? token.lexeme = some (token.relined fun _ => 0) := by
  obtain ⟨kind, lexeme, line, literal⟩ := token
  obtain ⟨terminal, value⟩ := scanned
  cases text : lexeme.toList with
  | nil => exact absurd text terminal.text_ne_nil
  | cons c rest =>
      have found : Piece.first c rest = .token kind (c :: rest) := by
        rw [← text]
        exact Piece.first_of_terminal terminal text
      simp only [Token.alone?, text, found, ofPiece?]
      rw [← text, String.ofList_toList, ← value]
      rfl

theorem literal_eq_nil (scanned : token.Scanned) (number : token.kind ≠ .number)
    (string : token.kind ≠ .string) : token.literal = .nil := by
  rw [scanned.literal]
  unfold literalOf
  split
  · contradiction
  · contradiction
  · rfl

theorem exists_text (scanned : token.Scanned) (string : token.kind = .string) :
    ∃ value : String, token.literal = .text value ∧ '"' ∉ value.toList := by
  obtain ⟨kind, lexeme, line, literal⟩ := token
  obtain ⟨terminal, value⟩ := scanned
  dsimp only at terminal value string ⊢
  rw [value]
  generalize lexeme.toList = text at terminal
  cases terminal with
  | operator listed =>
      have unlisted : ∀ entry ∈ operators, entry.1 ≠ .string := by decide
      exact absurd string (unlisted _ listed)
  | word =>
      have unlisted : ∀ entry ∈ Kind.keywords, entry.2 ≠ .string := by decide
      rcases Kind.ofWord_cases _ with free | keyword
      · rw [free] at string
        cases string
      · exact absurd string (unlisted _ keyword)
  | @string body within =>
      refine ⟨String.ofList body, by simp [literalOf], ?_⟩
      rwa [String.toList_ofList]
  | _ => cases string

theorem relined_eq (scanned : token.Scanned) (kind : Kind) (lexeme : String)
    (known : token.kind = kind) (fixed : kind ∉ [.identifier, .number, .string])
    (only : ∀ entry ∈ spellings, entry.1 = kind → entry.2 = lexeme.toList) :
    token.relined (fun _ => 0) = ⟨kind, lexeme, 0, .nil⟩ := by
  subst known
  have number : token.kind ≠ .number := fun same => fixed (by simp [same])
  have string : token.kind ≠ .string := fun same => fixed (by simp [same])
  have spelled : token.lexeme.toList = lexeme.toList :=
    only _ (scanned.terminal.kind_cases.resolve_left fixed) rfl
  rw [relined, String.toList_inj.1 spelled, scanned.literal_eq_nil number string]

end Scanned

end Token

end Lox
