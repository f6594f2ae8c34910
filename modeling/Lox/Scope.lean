import Lox.Json.Same

/-!
Names and scopes.  A forest numbers its scopes in the order they are made; each scope
binds names and may be enclosed by an earlier one.  A name means its nearest binding
on the way out.  In a saved program a lexeme may be something else than a text; then
numbers that are equal are one name.
-/

namespace Lox

inductive Name where
  | absent
  | number (value : Numeral)
  | text (value : Text)
  deriving DecidableEq

namespace Name

def ofLexeme? : Json → Option Name
  | .null => some absent
  | .string value => some (text value)
  | .list _ | .object _ => none
  | other => other.numeral?.map number

def ofString (string : String) : Name :=
  text string

end Name

abbrev Bindings (α : Type) :=
  List (Name × α)

namespace Bindings

variable {α : Type}

def define (name : Name) (value : α) : Bindings α → Bindings α
  | [] => [(name, value)]
  | (other, old) :: rest =>
      if other = name then (name, value) :: rest else (other, old) :: define name value rest

def get? (name : Name) (bindings : Bindings α) : Option α :=
  bindings.lookup name

def binds (name : Name) (bindings : Bindings α) : Bool :=
  bindings.any (·.1 == name)

end Bindings

structure Scope (α : Type) where
  enclosing : Option Nat
  bindings : Bindings α
  deriving Inhabited

abbrev Forest (α : Type) :=
  Array (Scope α)

namespace Forest

variable {α : Type}

def make (enclosing : Option Nat) (forest : Forest α) : Forest α :=
  forest.push ⟨enclosing, []⟩

/-- The scope around a scope.  Links lead to earlier scopes only. -/
def enclosing? (forest : Forest α) (scope : Nat) : Option Nat :=
  (forest[scope]?.bind Scope.enclosing).filter (· < scope)

theorem lt_of_enclosing? {forest : Forest α} {scope outer : Nat}
    (linked : forest.enclosing? scope = some outer) : outer < scope := by
  unfold enclosing? at linked
  simpa using (Option.filter_eq_some_iff.1 linked).2

def own (forest : Forest α) (scope : Nat) : Bindings α :=
  match forest[scope]? with
  | some found => found.bindings
  | none => []

def chain (forest : Forest α) (scope : Nat) : List Nat :=
  match linked : forest.enclosing? scope with
  | some outer =>
      have := lt_of_enclosing? linked
      scope :: chain forest outer
  | none => [scope]

def find? (forest : Forest α) (scope : Nat) (name : Name) : Option Nat :=
  if (forest.own scope).binds name then some scope
  else
    match linked : forest.enclosing? scope with
    | some outer =>
        have := lt_of_enclosing? linked
        find? forest outer name
    | none => none

def depth (forest : Forest α) (scope : Nat) : Nat :=
  match linked : forest.enclosing? scope with
  | some outer =>
      have := lt_of_enclosing? linked
      depth forest outer + 1
  | none => 0

def define (forest : Forest α) (scope : Nat) (name : Name) (value : α) : Forest α :=
  forest.modify scope fun found => { found with bindings := found.bindings.define name value }

def get? (forest : Forest α) (scope : Nat) (name : Name) : Option α :=
  (forest.find? scope name).bind fun holder => (forest.own holder).get? name

def assign? (forest : Forest α) (scope : Nat) (name : Name) (value : α) :
    Option (Forest α) :=
  (forest.find? scope name).map fun holder => forest.define holder name value

end Forest

end Lox
