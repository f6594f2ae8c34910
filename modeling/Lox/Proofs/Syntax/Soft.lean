import Lox.Proofs.Syntax.Exact

/-!
Problems that break nothing.  A program that is only too long in a list, or assigns to what is
no target, is parsed as a whole, and what is noted in it is what its derivation says.
-/

namespace Lox

open Lox.Parser Lox.Grammar

namespace Grammar

/-- The tokens stand before the end of a source. -/
def Inner (tokens : List Token) : Prop :=
  ∀ token ∈ tokens, token.kind ≠ .eof

@[simp] theorem inner_nil : Inner [] := by
  simp [Inner]

@[simp] theorem inner_cons {token : Token} {tokens : List Token} :
    Inner (token :: tokens) ↔ token.kind ≠ .eof ∧ Inner tokens :=
  List.forall_mem_cons

@[simp] theorem inner_append {first second : List Token} :
    Inner (first ++ second) ↔ Inner first ∧ Inner second :=
  List.forall_mem_append

theorem Separated.inner {parts : List (List Token)} {tokens : List Token}
    (separated : Separated parts tokens) (each : ∀ part ∈ parts, Inner part) : Inner tokens := by
  induction separated with
  | none => exact inner_nil
  | one part => exact each part List.mem_cons_self
  | more comma _ ih =>
    obtain ⟨first, rest⟩ := List.forall_mem_cons.1 each
    simp [first, comma, ih rest]

theorem Grade.operators_inner {grade : Grade} {kind : Kind} (member : kind ∈ grade.operators) :
    kind ≠ .eof := by
  rintro rfl
  cases grade <;> simp [Grade.operators] at member

theorem Superclass.inner {tokens : List Token} {name : Option Token}
    (derived : Superclass tokens name) : Inner tokens := by
  cases derived with
  | absent => exact inner_nil
  | present less name => simp [less, name]

namespace Lenient

variable {tokens : List Token} {notes : List Diagnostic}

theorem inner_flatMap {α : Type} {parts : List (Noted α)}
    (each : ∀ part ∈ parts, Inner part.tokens) : Inner (parts.flatMap Noted.tokens) := by
  intro token member
  obtain ⟨part, inside, among⟩ := List.mem_flatMap.1 member
  exact each part inside token among

theorem Expression.inner {grade : Grade} {tree : Expr}
    (derived : Expression grade tokens tree notes) : Inner tokens := by
  induction derived with
  | assign _ equals _ left right => simp [left, equals, right]
  | logicOr _ ih | operand _ _ ih | call _ ih | primary _ ih => exact ih
  | operator _ _ member _ left right => simp [left, right, Grade.operators_inner member]
  | unary member _ ih =>
    refine inner_cons.2 ⟨fun same => ?_, ih⟩
    simp [same] at member
  | invocation _ opening _ separated closing callee each =>
    have arguments := separated.inner (by simpa using each)
    simp [callee, opening, arguments, closing]
  | member _ dot name object => simp [object, dot, name]
  | word derived =>
    refine inner_cons.2 ⟨fun same => ?_, inner_nil⟩
    have starts := derived.kind_of_word
    simp [same, Grade.starts] at starts
  | grouping opening _ closing ih => simp [opening, ih, closing]
  | super keyword dot method => simp [keyword, dot, method]

theorem Optional.inner {value : Option Expr} (derived : Optional tokens value notes) :
    Inner tokens := by
  cases derived with
  | absent => exact inner_nil
  | present derived => exact derived.inner

theorem Variable.inner {tree : Stmt} (derived : Variable tokens tree notes) : Inner tokens := by
  cases derived with
  | plain keyword name semicolon => simp [keyword, name, semicolon]
  | initialized keyword name equals derived semicolon =>
    simp [keyword, name, equals, derived.inner, semicolon]

theorem Initial.inner {tree : Option Stmt} (derived : Initial tokens tree notes) :
    Inner tokens := by
  cases derived with
  | absent semicolon => simp [semicolon]
  | varDecl derived => exact derived.inner
  | expr derived semicolon => simp [derived.inner, semicolon]

theorem Header.inner {clauses : Clauses} (derived : Header tokens clauses notes) :
    Inner tokens := by
  cases derived with
  | mk opening first second semicolon third closing =>
    simp [opening, first.inner, second.inner, semicolon, third.inner, closing]

theorem Statement.inner {phrase : Phrase} {tree : Stmt}
    (derived : Statement phrase tokens tree notes) : Inner tokens := by
  induction derived with
  | classDecl keyword name inherits opening _ closing ih =>
    simp [keyword, name, inherits.inner, opening, inner_flatMap ih, closing]
  | function keyword _ ih => simp [keyword, ih]
  | varDecl derived => exact derived.inner
  | statement _ ih => exact ih
  | definition name opening params separated closing begins _ finish ih =>
    have list := separated.inner (by simpa using fun param member => by simp [params param member])
    simp [name, opening, list, closing, begins, inner_flatMap ih, finish]
  | expr derived semicolon => simp [derived.inner, semicolon]
  | print keyword derived semicolon => simp [keyword, derived.inner, semicolon]
  | returnStmt keyword derived semicolon => simp [keyword, derived.inner, semicolon]
  | block opening _ closing ih => simp [opening, inner_flatMap ih, closing]
  | whileLoop keyword opening derived closing _ ih =>
    simp [keyword, opening, derived.inner, closing, ih]
  | forLoop keyword headed _ ih => simp [keyword, headed.inner, ih]
  | ifThen keyword opening derived closing _ ih =>
    simp [keyword, opening, derived.inner, closing, ih]
  | ifElse keyword opening derived closing _ separator _ thenIh elseIh =>
    simp [keyword, opening, derived.inner, closing, thenIh, separator, elseIh]

theorem Derives.inner {trees : List Stmt} (derived : Derives tokens trees notes) :
    Inner tokens := by
  obtain ⟨parts, each, rfl, -, -⟩ := derived
  exact inner_flatMap fun part member => (each part member).inner

end Lenient

end Grammar

namespace Program

/-- What derives from the grammar without its limits is parsed as a whole: no declaration, no
argument and no parameter is lost, and each list that is too long and each target that nothing
can be assigned to is noted as its derivation says. -/
theorem parse?_of_lenient {body : List Token} {stop : Token} {trees : List Stmt}
    {notes : List Diagnostic} (stopped : stop.kind = .eof)
    (derived : Lenient.Derives body trees notes) :
    parse? (body ++ [stop]) = some ⟨trees, notes⟩ := by
  rw [parse?_body stopped derived.inner, parseBody_of_lenient stop derived]

/-- The program `nil = nil = nil;` over three lines: both targets are noted, the inner one
first, and the outer one is what is left. -/
theorem parse?_of_lenient_chained :
    (⟨.eof, "", 3, .nil⟩ : Token).kind = .eof ∧
      Lenient.Derives [⟨.nilWord, "nil", 1, .nil⟩, ⟨.equal, "=", 1, .nil⟩,
        ⟨.nilWord, "nil", 2, .nil⟩, ⟨.equal, "=", 2, .nil⟩, ⟨.nilWord, "nil", 3, .nil⟩,
        ⟨.semicolon, ";", 3, .nil⟩] [.expr (.literal .nil)]
        [⟨2, .atLexeme "=", .invalidTarget⟩, ⟨1, .atLexeme "=", .invalidTarget⟩] ∧
      parse? ([⟨.nilWord, "nil", 1, .nil⟩, ⟨.equal, "=", 1, .nil⟩,
        ⟨.nilWord, "nil", 2, .nil⟩, ⟨.equal, "=", 2, .nil⟩, ⟨.nilWord, "nil", 3, .nil⟩,
        ⟨.semicolon, ";", 3, .nil⟩] ++ [⟨.eof, "", 3, .nil⟩]) =
        some ⟨[.expr (.literal .nil)],
          [⟨2, .atLexeme "=", .invalidTarget⟩, ⟨1, .atLexeme "=", .invalidTarget⟩]⟩ := by
  have word (line : Int) :
      Lenient.Expression .logicOr [⟨.nilWord, "nil", line, .nil⟩] (.literal .nil) [] :=
    Lenient.Expression.logicOrOf (.primary (.word (.nilWord rfl)))
  have inner : Lenient.Expression .assignment
      ([⟨.nilWord, "nil", 2, .nil⟩] ++ ⟨.equal, "=", 2, .nil⟩ :: [⟨.nilWord, "nil", 3, .nil⟩])
      (.literal .nil) [⟨2, .atLexeme "=", .invalidTarget⟩] :=
    .assign (word 2) rfl (.logicOr (word 3))
  have outer : Lenient.Expression .assignment
      ([⟨.nilWord, "nil", 1, .nil⟩] ++ ⟨.equal, "=", 1, .nil⟩ ::
        ([⟨.nilWord, "nil", 2, .nil⟩] ++ ⟨.equal, "=", 2, .nil⟩ :: [⟨.nilWord, "nil", 3, .nil⟩]))
      (.literal .nil) [⟨2, .atLexeme "=", .invalidTarget⟩, ⟨1, .atLexeme "=", .invalidTarget⟩] :=
    .assign (word 1) rfl inner
  have statement := Lenient.Statement.statement
    (.expr outer (rfl : (⟨.semicolon, ";", 3, .nil⟩ : Token).kind = .semicolon))
  have derived : Lenient.Derives _ [.expr (.literal .nil)]
      [⟨2, .atLexeme "=", .invalidTarget⟩, ⟨1, .atLexeme "=", .invalidTarget⟩] :=
    ⟨[⟨_, _, _⟩], List.forall_mem_singleton.2 statement, rfl, rfl, rfl⟩
  exact ⟨rfl, derived, parse?_of_lenient rfl derived⟩

end Program

end Lox
