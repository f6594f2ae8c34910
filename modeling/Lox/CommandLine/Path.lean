/-!
File paths by their components.  Empty components and single dots do not count;
double dots are kept.
-/

namespace Lox

structure Path where
  root : String
  parts : List String
  deriving DecidableEq, Repr

namespace Path

/-- The slashes a path starts with: two of them are kept, three are one. -/
def rootOf (text : String) : String :=
  match text.toList.takeWhile (· = '/') with
  | [] => ""
  | ['/', '/'] => "//"
  | _ => "/"

def ofText (text : String) : Path :=
  ⟨rootOf text, (text.splitOn "/").filter fun part => part ≠ "" && part ≠ "."⟩

def text (path : Path) : String :=
  if path.root = "" && path.parts.isEmpty then "."
  else path.root ++ "/".intercalate path.parts

def isDirectory (path : Path) : Bool :=
  path.parts.all (· = "..")

def extend (ending : String) (path : Path) : Path :=
  { path with parts := path.parts.dropLast ++ [(path.parts.getLast?.getD "") ++ ending] }

end Path

end Lox
