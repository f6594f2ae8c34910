import Lox.Proofs.Token.Written

/-!
What scanning finds.  A source text is covered by its longest pieces in one way only, and each
piece gives the token or the diagnostic that it stands for, on the line where it starts.
-/

namespace Lox

open Lexical

variable {kind : Kind} {text : List Char}

theorem Lexical.Terminal.exists_spelled (terminal : Terminal (.token kind text)) :
    ∃ literal, Spelled ⟨kind, text, literal⟩ := by
  cases terminal with
  | operator listed => exact ⟨_, .operator listed⟩
  | @word letter parts isLetter wordParts =>
      by_cases listed : String.ofList (letter :: parts) ∈ Kind.keywords.map Prod.fst
      · obtain ⟨⟨word, keyword⟩, member, same⟩ := List.mem_map.1 listed
        dsimp only at same
        obtain ⟨_, _, _, _, _, found, _⟩ := Kind.word_of_mem_keywords member
        have spelled := Spelled.keyword member
        rw [same, String.toList_ofList] at spelled
        rw [← same, found]
        exact ⟨_, spelled⟩
      · rw [Kind.ofWord_of_not_mem_keywords listed]
        exact ⟨_, .identifier isLetter wordParts listed⟩
  | whole digit digits => exact ⟨_, .whole digit digits⟩
  | fraction digit digits place places => exact ⟨_, .fraction digit digits place places⟩
  | string within => exact ⟨_, .string within⟩

theorem Lexical.Terminal.spelled (terminal : Terminal (.token kind text)) :
    Spelled ⟨kind, text, Token.literalOf kind text⟩ := by
  obtain ⟨literal, spelled⟩ := terminal.exists_spelled
  rwa [Token.literalOf_spelled spelled]

end Lox
