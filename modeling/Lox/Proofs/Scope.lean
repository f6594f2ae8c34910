import Lox.Scope

/-!
What binding a name and making a scope do to a forest of scopes.
-/

namespace Lox

variable {α : Type}

namespace Bindings

theorem mem_of_get? {bindings : Bindings α} {name : Name} {value : α}
    (found : bindings.get? name = some value) : (name, value) ∈ bindings := by
  obtain ⟨before, after, rfl, -⟩ := List.lookup_eq_some_iff.1 found
  simp

theorem mem_define {bindings : Bindings α} {name : Name} {value : α} {entry : Name × α}
    (member : entry ∈ bindings.define name value) : entry = (name, value) ∨ entry ∈ bindings := by
  induction bindings with
  | nil => exact .inl (by simpa [define] using member)
  | cons first rest ih =>
      unfold define at member
      split at member
      · exact (List.mem_cons.1 member).imp_right (List.mem_cons_of_mem _)
      · rcases List.mem_cons.1 member with rfl | later
        · exact .inr List.mem_cons_self
        · exact (ih later).imp_right (List.mem_cons_of_mem _)

/-- Binding a name puts it behind the names that are bound, unless it is one of them. -/
theorem names_define (bindings : Bindings α) (name : Name) (value : α) :
    (bindings.define name value).map Prod.fst =
      if bindings.binds name then bindings.map Prod.fst else bindings.map Prod.fst ++ [name] := by
  induction bindings with
  | nil => simp [define, binds]
  | cons first rest ih =>
      obtain ⟨other, old⟩ := first
      unfold define
      by_cases same : other = name
      · simp [same, binds]
      · have binds_cons : binds name ((other, old) :: rest) = binds name rest := by
          simp [binds, same]
        rw [if_neg same, binds_cons, List.map_cons, List.map_cons, ih]
        split <;> simp

theorem isSome_get? (bindings : Bindings α) (name : Name) :
    (bindings.get? name).isSome = bindings.binds name := by
  induction bindings with
  | nil => rfl
  | cons first rest ih =>
      obtain ⟨other, value⟩ := first
      unfold get? binds at ih ⊢
      by_cases same : name = other
      · simp [same]
      · have unequal : (name == other) = false := beq_false_of_ne same
        have unequal' : (other == name) = false := beq_false_of_ne (Ne.symm same)
        rw [List.lookup_cons, unequal, List.any_cons, unequal', Bool.false_or]
        exact ih

end Bindings

namespace Forest

variable {forest : Forest α}

def names (forest : Forest α) (scope : Nat) : List Name :=
  (forest.own scope).map Prod.fst

def link? (forest : Forest α) (scope : Nat) : Option Nat :=
  forest[scope]?.bind Scope.enclosing

theorem mem_names {scope : Nat} {name : Name} :
    name ∈ forest.names scope ↔ (forest.own scope).binds name = true := by
  simp [names, Bindings.binds]

@[simp] theorem size_define (scope : Nat) (name : Name) (value : α) :
    (forest.define scope name value).size = forest.size := by
  simp [define]

@[simp] theorem enclosing?_define (scope other : Nat) (name : Name) (value : α) :
    (forest.define scope name value).enclosing? other = forest.enclosing? other := by
  unfold enclosing? define
  rw [Array.getElem?_modify]
  split
  · cases forest[other]? <;> rfl
  · rfl

theorem own_define_self {scope : Nat} (bound : scope < forest.size) (name : Name) (value : α) :
    (forest.define scope name value).own scope = (forest.own scope).define name value := by
  simp [own, define, Array.getElem_modify, bound]

theorem own_define_of_ne {scope other : Nat} (different : scope ≠ other) (name : Name)
    (value : α) : (forest.define scope name value).own other = forest.own other := by
  simp [own, define, Array.getElem?_modify, different]

theorem own_of_size_le {scope : Nat} (outside : forest.size ≤ scope) : forest.own scope = [] := by
  simp [own, outside]

theorem mem_own_define {scope other : Nat} {name : Name} {value : α} {entry : Name × α}
    (member : entry ∈ (forest.define scope name value).own other) :
    entry = (name, value) ∨ entry ∈ forest.own other := by
  by_cases same : scope = other
  · subst same
    by_cases bound : scope < forest.size
    · rw [own_define_self bound] at member
      exact Bindings.mem_define member
    · rw [own_of_size_le (by simpa using bound)] at member
      simp at member
  · rw [own_define_of_ne same] at member
    exact .inr member

theorem own_push_size (scope : Scope α) : own (forest.push scope) forest.size = scope.bindings := by
  simp [own]

theorem own_push_of_ne (scope : Scope α) {other : Nat} (different : other ≠ forest.size) :
    own (forest.push scope) other = forest.own other := by
  simp [own, Array.getElem?_push, different]

theorem enclosing?_push_size {outer : Nat} (bound : outer < forest.size) (bindings : Bindings α) :
    enclosing? (forest.push ⟨some outer, bindings⟩) forest.size = some outer := by
  simp [enclosing?, Option.filter, bound]

theorem enclosing?_push_of_ne (scope : Scope α) {other : Nat} (different : other ≠ forest.size) :
    enclosing? (forest.push scope) other = forest.enclosing? other := by
  simp [enclosing?, Array.getElem?_push, different]

theorem find?_of_binds {scope : Nat} {name : Name} (bound : (forest.own scope).binds name = true) :
    forest.find? scope name = some scope := by
  rw [find?, if_pos bound]

theorem find?_outward {scope outer : Nat} {name : Name}
    (unbound : (forest.own scope).binds name = false)
    (linked : forest.enclosing? scope = some outer) :
    forest.find? scope name = forest.find? outer name := by
  rw [find?, if_neg (by simp [unbound])]
  split
  · next found =>
    rw [linked] at found
    rw [Option.some.inj found]
  · next missing => simp [linked] at missing

theorem find?_outermost {scope : Nat} {name : Name}
    (unbound : (forest.own scope).binds name = false) (outermost : forest.enclosing? scope = none) :
    forest.find? scope name = none := by
  rw [find?, if_neg (by simp [unbound])]
  split
  · next found => simp [outermost] at found
  · rfl

theorem find?_congr {β : Type} {other : Forest β} {name : Name}
    (linked : ∀ scope, other.enclosing? scope = forest.enclosing? scope)
    (bound : ∀ scope, (other.own scope).binds name = (forest.own scope).binds name)
    (scope : Nat) : other.find? scope name = forest.find? scope name := by
  induction scope using Nat.strongRecOn with
  | ind scope ih =>
      have same := bound scope
      cases binds : (forest.own scope).binds name with
      | true =>
          rw [binds] at same
          rw [find?_of_binds binds, find?_of_binds same]
      | false =>
          rw [binds] at same
          have link := linked scope
          cases around : forest.enclosing? scope with
          | none =>
              rw [around] at link
              rw [find?_outermost binds around, find?_outermost same link]
          | some outer =>
              rw [around] at link
              rw [find?_outward binds around, find?_outward same link]
              exact ih outer (lt_of_enclosing? around)

theorem binds_of_find? {scope holder : Nat} {name : Name}
    (found : forest.find? scope name = some holder) : (forest.own holder).binds name = true := by
  induction scope using Nat.strongRecOn with
  | ind scope ih =>
      cases binds : (forest.own scope).binds name with
      | true =>
          rw [find?_of_binds binds] at found
          cases found
          exact binds
      | false =>
          cases linked : forest.enclosing? scope with
          | none =>
              rw [find?_outermost binds linked] at found
              cases found
          | some outer =>
              rw [find?_outward binds linked] at found
              exact ih outer (lt_of_enclosing? linked) found

theorem isSome_get? (scope : Nat) (name : Name) :
    (forest.get? scope name).isSome = (forest.find? scope name).isSome := by
  unfold get?
  cases found : forest.find? scope name with
  | none => rfl
  | some holder =>
      rw [Option.bind_some, Bindings.isSome_get?, binds_of_find? found]
      rfl

theorem names_define_of_ne {scope other : Nat} (different : scope ≠ other) (name : Name)
    (value : α) : (forest.define scope name value).names other = forest.names other := by
  unfold names
  rw [own_define_of_ne different]

theorem names_define_of_binds {scope : Nat} {name : Name}
    (bound : (forest.own scope).binds name = true) (value : α) (other : Nat) :
    (forest.define scope name value).names other = forest.names other := by
  by_cases same : scope = other
  · subst same
    by_cases made : scope < forest.size
    · unfold names
      rw [own_define_self made, Bindings.names_define, if_pos bound]
    · rw [own_of_size_le (by omega)] at bound
      simp [Bindings.binds] at bound
  · exact names_define_of_ne same name value

theorem names_prefix_define (scope : Nat) (name : Name) (value : α) (other : Nat) :
    forest.names other <+: (forest.define scope name value).names other := by
  by_cases same : scope = other
  · subst same
    by_cases made : scope < forest.size
    · unfold names
      rw [own_define_self made, Bindings.names_define]
      split
      · exact List.prefix_rfl
      · exact List.prefix_append _ _
    · rw [names, own_of_size_le (by omega)]
      exact List.nil_prefix
  · simp only [names_define_of_ne same, List.prefix_rfl]

@[simp] theorem link?_define (scope other : Nat) (name : Name) (value : α) :
    (forest.define scope name value).link? other = forest.link? other := by
  unfold link? define
  rw [Array.getElem?_modify]
  split
  · cases forest[other]? <;> rfl
  · rfl

theorem link?_push_size (outer : Nat) (bindings : Bindings α) :
    link? (forest.push ⟨some outer, bindings⟩) forest.size = some outer := by
  simp [link?]

theorem link?_push_of_ne (scope : Scope α) {other : Nat} (different : other ≠ forest.size) :
    link? (forest.push scope) other = forest.link? other := by
  simp [link?, Array.getElem?_push, different]

theorem enclosing?_eq (scope : Nat) :
    forest.enclosing? scope = (forest.link? scope).filter (· < scope) := rfl

theorem enclosing?_of_size_le {scope : Nat} (outside : forest.size ≤ scope) :
    forest.enclosing? scope = none := by
  simp [enclosing?, outside]

theorem mem_own_of_get? {scope : Nat} {name : Name} {value : α}
    (found : forest.get? scope name = some value) :
    ∃ holder, (name, value) ∈ forest.own holder := by
  unfold get? at found
  obtain ⟨holder, -, held⟩ := Option.bind_eq_some_iff.1 found
  exact ⟨holder, Bindings.mem_of_get? held⟩

end Forest

end Lox
