import Lox.Diagnostic

/-!
What the grammar needs to be able to do with the tokens that it reads.  A step may break
the declaration that is being read; `recover` leaves such a one out and goes on behind it.
-/

namespace Lox

structure Reader (m : Type → Type) where
  abandon {α : Type} : m α
  note (token : Token) (problem : Problem) : m Unit
  next : m Token
  skip : m Unit
  sees (kind : Kind) : m Bool
  blockEnds : m Bool
  atEnd : m Bool
  accept? (kinds : List Kind) : m (Option Token)
  fail {α : Type} (what : String) : m α
  recover {α : Type} (declaration : m α) : m (Option α)

namespace Reader

variable {m : Type → Type} [Monad m] (reader : Reader m)

def expect (kind : Kind) (what : String) : m Token := do
  match ← reader.accept? [kind] with
  | none => reader.fail what
  | some token => pure token

@[inline] def behind? {α : Type} (kinds : List Kind) (present : m α) : m (Option α) := do
  match ← reader.accept? kinds with
  | none => pure none
  | some _ => some <$> present

@[inline] def unlessSees {α : Type} (kind : Kind) (absent : α) (present : m α) : m α := do
  if ← reader.sees kind then pure absent else present

def limit (count : Nat) (problem : Problem) : m Unit := do
  if maxArguments ≤ count then reader.note (← reader.next) problem

end Reader

def startsStatement : Kind → Bool
  | .classWord | .funWord | .varWord | .forWord | .ifWord | .whileWord | .printWord
  | .returnWord => true
  | _ => false

end Lox
