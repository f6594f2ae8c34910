import Lox.Program

/-!
Reading from the front of the tokens before the end of a source.  A step gives a value, what
it left, and the problems it noted on the way; no cursor can be lost.
-/

namespace Lox

structure Parsed (α : Type) where
  value : Option α
  rest : List Token
  notes : List Diagnostic

def Parser (α : Type) : Type :=
  List Token → Parsed α

namespace Parser

@[inline] protected def pure {α : Type} (value : α) : Parser α :=
  fun tokens => ⟨some value, tokens, []⟩

@[inline] protected def bind {α β : Type} (first : Parser α) (next : α → Parser β) : Parser β :=
  fun tokens =>
    match first tokens with
    | ⟨none, rest, notes⟩ => ⟨none, rest, notes⟩
    | ⟨some value, rest, notes⟩ =>
        let second := next value rest
        ⟨second.value, second.rest, notes ++ second.notes⟩

instance : Monad Parser where
  pure := Parser.pure
  bind := Parser.bind

def accept? (kinds : List Kind) : Parser (Option Token) :=
  fun tokens =>
    match tokens with
    | token :: rest =>
        if token.kind ∈ kinds then ⟨some (some token), rest, []⟩ else ⟨some none, tokens, []⟩
    | [] => ⟨some none, [], []⟩

def dropStatement (last : Token) : List Token → List Token
  | [] => []
  | token :: rest =>
      if last.kind = .semicolon ∨ startsStatement token.kind then token :: rest
      else dropStatement token rest

def synchronize : List Token → List Token
  | [] => []
  | token :: rest => dropStatement token rest

def recover {α : Type} (declaration : Parser α) : Parser (Option α) :=
  fun tokens =>
    match declaration tokens with
    | ⟨some value, rest, notes⟩ => ⟨some (some value), rest, notes⟩
    | ⟨none, rest, notes⟩ => ⟨some none, synchronize rest, notes⟩

/-- The steps that read the tokens before a given end of the source. -/
def upTo (stop : Token) : Reader Parser where
  abandon := fun tokens => ⟨none, tokens, []⟩
  note token problem := fun tokens => ⟨some (), tokens, [Diagnostic.atToken token problem]⟩
  next := fun tokens => ⟨some (tokens.headD stop), tokens, []⟩
  skip := fun tokens => ⟨some (), tokens.tail, []⟩
  sees kind := fun tokens => ⟨some (tokens.head?.any (·.kind = kind)), tokens, []⟩
  blockEnds := fun tokens => ⟨some (tokens.head?.all (·.kind = .rightBrace)), tokens, []⟩
  atEnd := fun tokens => ⟨some tokens.isEmpty, tokens, []⟩
  accept? := accept?
  fail what := fun tokens =>
    ⟨none, tokens, [Diagnostic.atToken (tokens.headD stop) (.expected what)]⟩
  recover := recover

theorem upTo_recover {α : Type} (stop : Token) (declaration : Parser α) :
    (upTo stop).recover declaration = recover declaration := rfl

end Parser

abbrev Stmt.parse (stop : Token) : Nat → Parser Stmt :=
  (Parser.upTo stop).parseStmt

def Program.parseBody (stop : Token) (tokens : List Token) : Program :=
  let parsed := (Parser.upTo stop).parseAll (budgetFor tokens.length) tokens
  ⟨parsed.value.getD [], parsed.notes⟩

end Lox
