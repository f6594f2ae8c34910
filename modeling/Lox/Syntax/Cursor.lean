import Lox.Syntax.Reader

/-!
Reading at a place among tokens.  The last of them should be the end of the source, and no
step moves past it.
-/

namespace Lox

/-- A place among tokens: those behind it, the nearest first, and those ahead. -/
structure Cursor where
  behind : List Token
  ahead : List Token

def Cursor.position (cursor : Cursor) : Nat :=
  cursor.behind.length

/-- What a step comes to.  No value means that the declaration being read is broken. -/
inductive Reading (α : Type) where
  | read (value : Option α) (cursor : Cursor) (notes : List Diagnostic)
  | outside
  | before
  | spent

def Reading.noted {α : Type} (notes : List Diagnostic) : Reading α → Reading α
  | read value cursor more => read value cursor (notes ++ more)
  | outside => outside
  | before => before
  | spent => spent

def Walk (α : Type) : Type :=
  Cursor → Reading α

namespace Walk

@[inline] protected def pure {α : Type} (value : α) : Walk α :=
  fun cursor => .read (some value) cursor []

@[inline] protected def bind {α β : Type} (first : Walk α) (next : α → Walk β) : Walk β :=
  fun cursor =>
    match first cursor with
    | .read (some value) cursor notes => (next value cursor).noted notes
    | .read none cursor notes => .read none cursor notes
    | .outside => .outside
    | .before => .before
    | .spent => .spent

instance : Monad Walk where
  pure := Walk.pure
  bind := Walk.bind

def note (token : Token) (problem : Problem) : Walk Unit :=
  fun cursor => .read (some ()) cursor [Diagnostic.atToken token problem]

def peek : Walk Token :=
  fun cursor =>
    match cursor.ahead with
    | [] => .outside
    | token :: _ => .read (some token) cursor []

def previous : Walk Token :=
  fun cursor =>
    match cursor.behind with
    | [] => .before
    | token :: _ => .read (some token) cursor []

def move : Walk Unit :=
  fun cursor =>
    match cursor.ahead with
    | [] => .outside
    | token :: rest => .read (some ()) ⟨token :: cursor.behind, rest⟩ []

def isAtEnd : Walk Bool := do
  let token ← peek
  pure (token.kind = .eof)

def advance : Walk Token := do
  if ← isAtEnd then previous
  else
    move
    previous

def check (kind : Kind) : Walk Bool := do
  if ← isAtEnd then pure false
  else
    let token ← peek
    pure (token.kind = kind)

def accept? : List Kind → Walk (Option Token)
  | [] => pure none
  | kind :: kinds => do
      if ← check kind then some <$> advance else accept? kinds

def broken {α : Type} : Walk α :=
  fun cursor => .read none cursor []

def fail {α : Type} (what : String) : Walk α := do
  note (← peek) (.expected what)
  broken

def settleFrom (behind : List Token) : List Token → Reading Unit
  | [] => .outside
  | token :: rest =>
      if token.kind = .eof then .read (some ()) ⟨behind, token :: rest⟩ []
      else
        match behind with
        | [] => .before
        | last :: _ =>
            if last.kind = .semicolon ∨ startsStatement token.kind then
              .read (some ()) ⟨behind, token :: rest⟩ []
            else settleFrom (token :: behind) rest

def settle : Walk Unit :=
  fun cursor => settleFrom cursor.behind cursor.ahead

/-- Where reading goes on after a broken declaration: at least one token further. -/
def synchronize : Walk Unit := do
  let _ ← advance
  settle

def recover {α : Type} (declaration : Walk α) : Walk (Option α) :=
  fun cursor =>
    match declaration cursor with
    | .read (some value) cursor notes => .read (some (some value)) cursor notes
    | .read none cursor notes => ((do synchronize; pure none : Walk (Option α)) cursor).noted notes
    | .outside => .outside
    | .before => .before
    | .spent => .spent

def reader : Reader Walk where
  abandon := fun _ => .spent
  note := note
  next := peek
  skip := do
    let _ ← advance
  sees := check
  blockEnds := do
    if ← check .rightBrace then pure true else isAtEnd
  atEnd := isAtEnd
  accept? := accept?
  fail := fail
  recover := recover

end Walk

end Lox
