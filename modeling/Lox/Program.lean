import Lox.Syntax.Cursor
import Lox.Syntax.Parse
import Lox.Token.Scan

/-!
Programs from tokens and from source text.
-/

namespace Lox

structure Program where
  statements : List Stmt
  diagnostics : List Diagnostic

namespace Program

def budgetFor (tokens : Nat) : Nat :=
  32 * (tokens + 2)

/-- Parses tokens up to the first end of source; there is no program without one. -/
def parse? (tokens : List Token) : Option Program :=
  match Walk.reader.parseAll (budgetFor tokens.length) ⟨[], tokens⟩ with
  | .read statements _ notes => some ⟨statements.getD [], notes⟩
  | _ => none

def ofSource (source : String) : Program :=
  let scanned := scan source
  if scanned.diagnostics.isEmpty then (parse? scanned.tokens).getD ⟨[], []⟩
  else ⟨[], scanned.diagnostics⟩

end Program

end Lox
