import Lox.CommandLine
import Lox.Proofs.Json.LineEnds
import Lox.Proofs.Tree.OfSyntax

/-!
Saving a program and running it from its file.  Main statement: the file that is written
for a script without problems holds the program of the script and no other, and running
it has the effects of running the script.
-/

namespace Lox

theorem Program.savable_statements {source : String}
    (silent : (ofSource source).diagnostics = [])
    (short : source.toList.count '\n' + 1 < 10 ^ Json.maxDigits) :
    Tree.SavableAll (Stmt.toTrees (ofSource source).statements) := by
  have fixed : ∀ token ∈ Piece.marks Token.ofPiece? 1 source.toList,
      shorten token.line = token.line := by
    intro token member
    have bound := Token.line_le_of_mem_marks member
    exact if_pos (by omega)
  have savable := Stmt.savable_toTrees shortLines_shorten (ofSource source).statements
  rwa [Stmt.relinedAll_eq_map, relined_statements silent fixed] at savable

namespace Command

theorem decode?_toUTF8 {text : String} (clean : '\r' ∉ text.toList) :
    decode? text.toUTF8 = some text := by
  have valid : text.toUTF8.IsValidUTF8 := text.isValidUTF8
  rw [decode?, String.fromUTF8?, dif_pos valid, Option.map_some]
  have same : String.fromUTF8 text.toUTF8 valid = text := rfl
  rw [same, Text.unifyLineEnds_eq_self clean, String.ofList_toList]

theorem readProgram_write {trees : List Tree} (savable : Tree.SavableAll trees) :
    readProgram (Tree.programToJson trees).write.toUTF8 = .ok trees := by
  have clean : '\r' ∉ (Tree.programToJson trees).write.toList := by
    rw [Json.write, String.toList_ofList]
    exact Json.return_not_mem_writeOnto 0 (by simp) _
  have read := Json.read_write (Tree.writable_programToJson savable)
  simp only [readProgram, decode?_toUTF8 clean, read, Tree.programOfJson_programToJson,
    Except.mapError]

theorem emitProgram_of_clean {bytes : ByteArray} {source : String} (path : Path)
    (text : decode? bytes = some source) (clean : (Program.ofSource source).diagnostics = []) :
    emitProgram path bytes =
      { ending := .status .ok
        shown := (path.extend ".ast.json").text ++ "\n"
        files := [((path.extend ".ast.json").text,
          (Tree.programToJson (Stmt.toTrees (Program.ofSource source).statements)).write)] } := by
  simp [emitProgram, text, clean]

theorem runScript_of_clean {bytes : ByteArray} {source : String} (settings : Settings)
    (budget : Nat) (text : decode? bytes = some source)
    (clean : (Program.ofSource source).diagnostics = []) :
    runScript settings budget bytes =
      effectsOfReport settings (Session.runTrees settings budget
        (Stmt.toTrees (Program.ofSource source).statements)) := by
  simp [runScript, text, Session.runSource, clean]

/-- The file saved for a script without problems holds the program of that script and of no
other, and running it has the effects of running the script.  The number of lines is bounded
because a line number of more than `Json.maxDigits` digits is not read back. -/
theorem load_emitted {bytes : ByteArray} {source : String} (path : Path)
    (text : decode? bytes = some source) (clean : (Program.ofSource source).diagnostics = [])
    (short : source.toList.count '\n' + 1 < 10 ^ Json.maxDigits) :
    ∃ file : String,
      (∀ clock budget input,
        run clock budget (.file bytes) input (.emit path) =
          { ending := .status .ok
            shown := (path.extend ".ast.json").text ++ "\n"
            files := [((path.extend ".ast.json").text, file)] }) ∧
      (∀ statements : List Stmt,
        readProgram file.toUTF8 = .ok (Stmt.toTrees statements) ↔
          statements = (Program.ofSource source).statements) ∧
      ∀ clock budget input verbosity saved,
        run clock budget (.file file.toUTF8) input (.load saved verbosity) =
          run clock budget (.file bytes) input (.script path verbosity) := by
  have savable := Program.savable_statements clean short
  have loaded := readProgram_write savable
  refine ⟨(Tree.programToJson (Stmt.toTrees (Program.ofSource source).statements)).write, ?_, ?_,
    ?_⟩
  · intro clock budget input
    exact emitProgram_of_clean path text clean
  · intro statements
    rw [loaded, Except.ok.injEq]
    exact ⟨fun same => (Stmt.toTrees_inj _ _ same).symm, fun same => by rw [same]⟩
  · intro clock budget input verbosity saved
    simp only [run, withFile, runSaved, loaded, runScript_of_clean _ budget text clean]

/-- A script with a fraction and a text of a line break, a tab, a backslash and a letter outside
ASCII. -/
theorem load_emitted_literals :
    ∃ source file : String,
      source = "print \"é\\\n\t\" + 0.1;" ∧
      decode? source.toUTF8 = some source ∧ (Program.ofSource source).diagnostics = [] ∧
      source.toList.count '\n' + 1 < 10 ^ Json.maxDigits ∧
      (run (fun _ => none) 9 (.file source.toUTF8) "" (.emit ⟨"", ["a.lox"]⟩)).files =
        [("a.lox.ast.json", Text.ofString file)] ∧
      readProgram file.toUTF8 = .ok (Stmt.toTrees (Program.ofSource source).statements) ∧
      run (fun _ => none) 9 (.file file.toUTF8) "" (.load ⟨"", ["a.lox.ast.json"]⟩ 0) =
        run (fun _ => none) 9 (.file source.toUTF8) "" (.script ⟨"", ["a.lox"]⟩ 0) := by
  have text : decode? "print \"é\\\n\t\" + 0.1;".toUTF8 = some "print \"é\\\n\t\" + 0.1;" :=
    decode?_toUTF8 (by simp)
  have clean : (Program.ofSource "print \"é\\\n\t\" + 0.1;").diagnostics = [] := by
    decide +kernel
  have short : "print \"é\\\n\t\" + 0.1;".toList.count '\n' + 1 < 10 ^ Json.maxDigits := by
    decide +kernel
  obtain ⟨file, emitted, loads, alike⟩ := load_emitted ⟨"", ["a.lox"]⟩ text clean short
  exact ⟨_, file, rfl, text, clean, short, congrArg Effects.files (emitted ..), (loads _).2 rfl,
    alike ..⟩

end Command

end Lox
