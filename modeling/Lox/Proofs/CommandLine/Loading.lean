import Lox.Proofs.CommandLine.Saved
import Lox.Proofs.Tree.Loading

/-!
Running a saved program from any file.  Main statement: the program in the file is run or
refused with one message, unless the first part that cannot be loaded is a whole number too
large for a double, which stops the command instead.
-/

namespace Lox

theorem Tree.isText_iff {expected : String} {field : Option Json} :
    isText expected field ↔ field = some (.string (Text.ofString expected)) := by
  cases field with
  | none => simp [isText]
  | some value => cases value <;> simp [isText]

def Json.ProgramOverflows (data : Json) : Prop :=
  ∃ fields before item after, data = .object fields ∧
    field? "type" fields = some (.string "Program") ∧
    field? "body" fields = some (.list (before ++ item :: after)) ∧
    (∀ other ∈ before, Loads other) ∧ Overflows item

theorem Tree.programOfJson_eq_hugeInteger {data : Json} :
    programOfJson data = .error .hugeInteger ↔ data.ProgramOverflows := by
  constructor
  · intro refused
    cases data with
    | object fields =>
      by_cases typed : isText "Program" (Json.field? "type" fields)
      · rw [programOfJson, if_pos typed, bind_eq_error, require_eq_error] at refused
        obtain ⟨missing, -⟩ | ⟨body, present, refused⟩ := refused
        · cases missing
        cases body with
        | list items =>
          obtain ⟨before, item, after, rfl, sound, refused⟩ := ofJsonList_eq_error.1 refused
          exact ⟨fields, before, item, after, rfl, isText_iff.1 typed,
            require_eq_ok.1 present, sound, ofJson_eq_hugeInteger.1 refused⟩
        | _ => simp at refused
      · simp [programOfJson, typed] at refused
    | _ => simp [programOfJson] at refused
  · rintro ⟨fields, before, item, after, rfl, typed, body, sound, overflows⟩
    rw [programOfJson, if_pos (isText_iff.2 typed), bind_eq_error]
    exact .inr ⟨_, require_eq_ok.2 body, ofJsonList_eq_error.2
      ⟨before, item, after, rfl, sound, ofJson_eq_hugeInteger.2 overflows⟩⟩

namespace Command

/-- A file with a program in which a number too large for a double comes first among the parts
that cannot be loaded. -/
def Overflowing (bytes : ByteArray) : Prop :=
  ∃ text data, decode? bytes = some text ∧ Json.read text = .ok data ∧ data.ProgramOverflows

theorem readProgram_eq_hugeInteger {bytes : ByteArray} :
    readProgram bytes = .error (.unloadable .hugeInteger) ↔ Overflowing bytes := by
  constructor
  · intro refused
    cases decoded : decode? bytes with
    | none => simp [readProgram, decoded] at refused
    | some text =>
      cases read : Json.read text with
      | error error => simp [readProgram, decoded, read] at refused
      | ok data =>
        refine ⟨text, data, decoded, read, Tree.programOfJson_eq_hugeInteger.1 ?_⟩
        cases loaded : Tree.programOfJson data with
        | ok statements => simp [readProgram, decoded, read, loaded, Except.mapError] at refused
        | error error =>
          simpa [readProgram, decoded, read, loaded, Except.mapError] using refused
  · rintro ⟨text, data, decoded, read, overflows⟩
    have loaded := Tree.programOfJson_eq_hugeInteger.2 overflows
    simp [readProgram, decoded, read, loaded, Except.mapError]

theorem readProgram_eq_ok {bytes : ByteArray} {statements : List Tree} :
    readProgram bytes = .ok statements ↔
      ∃ text data, decode? bytes = some text ∧ Json.read text = .ok data ∧
        Tree.programOfJson data = .ok statements := by
  constructor
  · intro loaded
    cases decoded : decode? bytes with
    | none => simp [readProgram, decoded] at loaded
    | some text =>
      cases read : Json.read text with
      | error error => simp [readProgram, decoded, read] at loaded
      | ok data =>
        refine ⟨text, data, rfl, read, ?_⟩
        cases result : Tree.programOfJson data with
        | ok statements => simpa [readProgram, decoded, read, result, Except.mapError] using loaded
        | error error => simp [readProgram, decoded, read, result, Except.mapError] at loaded
  · rintro ⟨text, data, decoded, read, loaded⟩
    simp [readProgram, decoded, read, loaded, Except.mapError]

def refusal (path : Path) (reason : Text) : Text :=
  "Error: invalid AST file " ++ path.text ++ ": " ++ reason ++ "\n"

/-- What is to come of a saved program: it is decoded, read, loaded and run, or nothing is run
and one message refuses it. -/
inductive Handled (settings : Settings) (budget : Nat) (path : Path) (bytes : ByteArray) :
    Effects → Prop
  | run {text : String} {data : Json} {statements : List Tree}
      (decoded : decode? bytes = some text) (read : Json.read text = .ok data)
      (loaded : Tree.programOfJson data = .ok statements) :
      Handled settings budget path bytes
        (effectsOfReport settings (Session.runTrees settings budget statements))
  | refused (reason : Text) (unloadable : ∀ statements, readProgram bytes ≠ .ok statements) :
      Handled settings budget path bytes
        { ending := .status .badData, reported := refusal path reason }

theorem runSaved_of_overflowing {bytes : ByteArray} (settings : Settings) (budget : Nat)
    (path : Path) (overflowing : Overflowing bytes) :
    runSaved settings budget path bytes = { ending := .crash .hugeInteger } := by
  rw [runSaved, readProgram_eq_hugeInteger.2 overflowing]

theorem runSaved_of_refusal {bytes : ByteArray} {reason : Refusal} (settings : Settings)
    (budget : Nat) (path : Path) (refused : readProgram bytes = .error reason)
    (fits : ¬ Overflowing bytes) :
    runSaved settings budget path bytes =
      { ending := .status .badData, reported := refusal path reason.message } := by
  rw [← readProgram_eq_hugeInteger, refused, Except.error.injEq] at fits
  rw [runSaved, refused]
  split
  next loaded => cases loaded
  next huge => exact absurd (Except.error.inj huge) fits
  next other _ same =>
    cases same
    rfl

theorem handled_of_not_overflowing {bytes : ByteArray} (settings : Settings) (budget : Nat)
    (path : Path) (fits : ¬ Overflowing bytes) :
    Handled settings budget path bytes (runSaved settings budget path bytes) := by
  cases result : readProgram bytes with
  | ok statements =>
    obtain ⟨text, data, decoded, read, loaded⟩ := readProgram_eq_ok.1 result
    rw [runSaved, result]
    exact .run decoded read loaded
  | error reason =>
    rw [runSaved_of_refusal settings budget path result fits]
    exact .refused reason.message (by simp [result])

theorem not_handled_of_overflowing {bytes : ByteArray} {settings : Settings} {budget : Nat}
    {path : Path} (overflowing : Overflowing bytes) :
    ¬ Handled settings budget path bytes { ending := .crash .hugeInteger } := by
  have unloadable := readProgram_eq_hugeInteger.2 overflowing
  generalize same : ({ ending := .crash .hugeInteger } : Effects) = effects
  rintro (@⟨text, data, statements, decoded, read, loaded⟩ | ⟨reason, -⟩)
  · rw [readProgram_eq_ok.2 ⟨text, data, decoded, read, loaded⟩] at unloadable
    cases unloadable
  · cases same

/-- Every file is handled, unless a number too large for a double comes first among the parts
that cannot be loaded: it stops the command without a word. -/
theorem runSaved_handled_iff (settings : Settings) (budget : Nat) (path : Path)
    (bytes : ByteArray) :
    (Handled settings budget path bytes (runSaved settings budget path bytes) ↔
      ¬ Overflowing bytes) ∧
    (Overflowing bytes →
      runSaved settings budget path bytes = { ending := .crash .hugeInteger }) := by
  refine ⟨⟨fun handled overflowing => ?_, handled_of_not_overflowing settings budget path⟩,
    runSaved_of_overflowing settings budget path⟩
  rw [runSaved_of_overflowing settings budget path overflowing] at handled
  exact not_handled_of_overflowing overflowing handled

def wholeProgram (size : Nat) : Json :=
  .object [("type", .string "Program"), ("body", .list [.int size])]

theorem wholeProgram_overflowing {size : Nat} (huge : Binary64.overflow ≤ size)
    (short : size < 10 ^ Json.maxDigits) : Overflowing (wholeProgram size).write.toUTF8 := by
  have writable : (wholeProgram size).Writable := by
    have item : Json.Writable (.int size) := .int short
    have items : Json.Writable (.list [.int size]) := .list (by simpa using item)
    refine .object (by simp) (by simp) ?_
    simp [Json.Writable.string, items]
  have overflows : (wholeProgram size).ProgramOverflows :=
    ⟨_, [], .int size, [], rfl, by simp [Json.field?, List.lookup],
      by simp [Json.field?, List.lookup], by simp, .int huge⟩
  have clean : '\r' ∉ (wholeProgram size).write.toList := by
    rw [Json.write, String.toList_ofList]
    exact Json.return_not_mem_writeOnto 0 (by simp) _
  exact ⟨_, _, decode?_toUTF8 clean, Json.read_write writable, overflows⟩

/-- The file with one and 309 zeros for a statement is neither run nor refused. -/
theorem not_handled_large :
    ¬ Handled { clock := fun _ => none } 0 ⟨"", ["big.json"]⟩
      (wholeProgram (10 ^ 309)).write.toUTF8
      (runSaved { clock := fun _ => none } 0 ⟨"", ["big.json"]⟩
        (wholeProgram (10 ^ 309)).write.toUTF8) := by
  have overflowing : Overflowing (wholeProgram (10 ^ 309)).write.toUTF8 :=
    wholeProgram_overflowing (by decide +kernel) (by decide +kernel)
  rw [runSaved_of_overflowing _ _ _ overflowing]
  exact not_handled_of_overflowing overflowing

end Command

end Lox
