import Lox.Proofs.Run.Steps
import Lox.Proofs.Scope.Rooted

/-!
Scopes that share what is around them.  A binding is seen from every scope whose way out
leads to it before it leads to another scope with that name, and from no other scope.
-/

namespace Lox

variable {α : Type}

namespace Bindings

theorem get?_cons (key other : Name) (value : α) (rest : Bindings α) :
    get? key ((other, value) :: rest) = if key = other then some value else rest.get? key := by
  unfold get?
  rw [List.lookup_cons]
  by_cases same : key = other
  · rw [if_pos same, beq_iff_eq.2 same]
  · rw [if_neg same, beq_false_of_ne same]

theorem get?_define (bindings : Bindings α) (name key : Name) (value : α) :
    (bindings.define name value).get? key =
      if key = name then some value else bindings.get? key := by
  induction bindings with
  | nil => exact get?_cons key name value []
  | cons first rest ih =>
      obtain ⟨other, old⟩ := first
      unfold define
      by_cases here : other = name
      · subst here
        rw [if_pos rfl, get?_cons, get?_cons]
        split <;> rfl
      · rw [if_neg here, get?_cons, get?_cons, ih]
        by_cases same : key = other
        · subst same
          rw [if_pos rfl, if_pos rfl, if_neg here]
        · rw [if_neg same, if_neg same]

end Bindings

namespace Forest

variable {forest : Forest α} {scope other holder : Nat} {name key : Name}

section Sees

/-- The way out of a scope leads to another one, and past no scope before it that binds the
name. -/
def Sees (forest : Forest α) (name : Name) (scope holder : Nat) : Prop :=
  ∃ before after, forest.chain scope = before ++ holder :: after ∧
    ∀ inner ∈ before, (forest.own inner).binds name = false

theorem sees_self (forest : Forest α) (name : Name) (scope : Nat) :
    forest.Sees name scope scope := by
  obtain ⟨rest, chainEq⟩ := List.head?_eq_some_iff.1 (forest.head?_chain scope)
  exact ⟨[], rest, chainEq, by simp⟩

theorem sees_iff_of_ne (different : scope ≠ holder) :
    forest.Sees name scope holder ↔ (forest.own scope).binds name = false ∧
      ∃ outer, forest.enclosing? scope = some outer ∧ forest.Sees name outer holder := by
  constructor
  · rintro ⟨before, after, chainEq, bare⟩
    have first := forest.head?_chain scope
    rw [chainEq] at first
    cases before with
    | nil => exact absurd (Option.some.inj first).symm different
    | cons inner before =>
        obtain rfl : inner = scope := Option.some.inj first
        refine ⟨bare inner List.mem_cons_self, ?_⟩
        cases linked : forest.enclosing? inner with
        | none =>
            rw [chain_outermost linked] at chainEq
            simp at chainEq
        | some outer =>
            rw [chain_outward linked] at chainEq
            refine ⟨outer, rfl, before, after, List.tail_eq_of_cons_eq chainEq, ?_⟩
            intro passed member
            exact bare passed (List.mem_cons_of_mem _ member)
  · rintro ⟨unbound, outer, linked, before, after, chainEq, bare⟩
    refine ⟨scope :: before, after, ?_, ?_⟩
    · rw [chain_outward linked, chainEq, List.cons_append]
    · exact List.forall_mem_cons.2 ⟨unbound, bare⟩

theorem find?_eq_some_iff : forest.find? scope name = some holder ↔
    forest.Sees name scope holder ∧ (forest.own holder).binds name = true := by
  rw [find?_eq_find?_chain, List.find?_eq_some_iff_append]
  constructor
  · rintro ⟨bound, before, after, chainEq, bare⟩
    refine ⟨⟨before, after, chainEq, ?_⟩, bound⟩
    intro inner member
    simpa using bare inner member
  · rintro ⟨⟨before, after, chainEq, bare⟩, bound⟩
    refine ⟨bound, before, after, chainEq, ?_⟩
    intro inner member
    simpa using bare inner member

theorem find?_eq_none_iff : forest.find? scope name = none ↔
    ∀ holder ∈ forest.chain scope, (forest.own holder).binds name = false := by
  rw [find?_eq_find?_chain, List.find?_eq_none]
  simp only [Bool.not_eq_true]

theorem get?_eq_some_iff {value : α} : forest.get? scope name = some value ↔
    ∃ holder, forest.Sees name scope holder ∧ (forest.own holder).get? name = some value := by
  rw [get?, Option.bind_eq_some_iff]
  constructor
  · rintro ⟨holder, found, held⟩
    exact ⟨holder, (find?_eq_some_iff.1 found).1, held⟩
  · rintro ⟨holder, sees, held⟩
    refine ⟨holder, find?_eq_some_iff.2 ⟨sees, ?_⟩, held⟩
    rw [← Bindings.isSome_get?, held]
    rfl

theorem get?_eq_none_iff : forest.get? scope name = none ↔ forest.find? scope name = none := by
  rw [← Option.not_isSome_iff_eq_none, isSome_get?, Option.not_isSome_iff_eq_none]

end Sees

section Rebound

structure Rebound (forest : Forest α) (holder : Nat) (name : Name) (value : α)
    (after : Forest α) : Prop where
  size : after.size = forest.size
  linked : ∀ scope, after.link? scope = forest.link? scope
  bound : ∀ scope key, (after.own scope).get? key =
    if scope = holder ∧ key = name then some value else (forest.own scope).get? key

variable {value : α}

theorem rebound_define (made : holder < forest.size) (name : Name) (value : α) :
    forest.Rebound holder name value (forest.define holder name value) where
  size := size_define holder name value
  linked scope := link?_define holder scope name value
  bound scope key := by
    by_cases here : scope = holder
    · subst here
      rw [own_define_self made, Bindings.get?_define]
      simp
    · rw [own_define_of_ne (Ne.symm here), if_neg (fun both => here both.1)]

theorem binds_define_of_ne (different : key ≠ name) (scope : Nat) :
    ((forest.define holder name value).own scope).binds key =
      (forest.own scope).binds key := by
  by_cases made : holder < forest.size
  · rw [← Bindings.isSome_get?, (rebound_define made name value).bound,
      if_neg (fun both => different both.2), Bindings.isSome_get?]
  · by_cases here : holder = scope
    · subst here
      rw [own_of_size_le (by simpa using made), own_of_size_le (by omega)]
    · rw [own_define_of_ne here]

theorem find?_define_of_ne (different : key ≠ name) (scope : Nat) :
    (forest.define holder name value).find? scope key = forest.find? scope key :=
  find?_congr (fun other => enclosing?_define holder other name value)
    (binds_define_of_ne different) scope

theorem find?_define_of_sees (made : holder < forest.size)
    (sees : forest.Sees name scope holder) :
    (forest.define holder name value).find? scope name = some holder := by
  induction scope using Nat.strongRecOn with
  | ind scope ih =>
      by_cases here : scope = holder
      · subst here
        apply find?_of_binds
        rw [← Bindings.isSome_get?, (rebound_define made name value).bound, if_pos ⟨rfl, rfl⟩]
        rfl
      · obtain ⟨unbound, outer, linked, further⟩ := (sees_iff_of_ne here).1 sees
        rw [← own_define_of_ne (Ne.symm here) name value] at unbound
        rw [find?_outward unbound (by rw [enclosing?_define, linked])]
        exact ih outer (lt_of_enclosing? linked) further

theorem find?_define_of_not_sees (hidden : ¬forest.Sees name scope holder) :
    (forest.define holder name value).find? scope name = forest.find? scope name := by
  induction scope using Nat.strongRecOn with
  | ind scope ih =>
      have different : holder ≠ scope := by
        rintro rfl
        exact hidden (sees_self forest name holder)
      have same : (forest.define holder name value).own scope = forest.own scope :=
        own_define_of_ne different name value
      cases binds : (forest.own scope).binds name with
      | true => rw [find?_of_binds binds, find?_of_binds (by rw [same, binds])]
      | false =>
          have unbound : ((forest.define holder name value).own scope).binds name = false := by
            rw [same, binds]
          cases linked : forest.enclosing? scope with
          | none =>
              rw [find?_outermost binds linked,
                find?_outermost unbound (by rw [enclosing?_define, linked])]
          | some outer =>
              rw [find?_outward binds linked,
                find?_outward unbound (by rw [enclosing?_define, linked])]
              apply ih outer (lt_of_enclosing? linked)
              intro further
              exact hidden ((sees_iff_of_ne different.symm).2 ⟨binds, outer, linked, further⟩)

theorem get?_define_of_sees (made : holder < forest.size)
    (sees : forest.Sees name scope holder) :
    (forest.define holder name value).get? scope name = some value := by
  rw [get?, find?_define_of_sees made sees, Option.bind_some,
    (rebound_define made name value).bound, if_pos ⟨rfl, rfl⟩]

theorem get?_define_of_not_sees (made : holder < forest.size)
    (hidden : ¬(key = name ∧ forest.Sees name scope holder)) :
    (forest.define holder name value).get? scope key = forest.get? scope key := by
  have found : (forest.define holder name value).find? scope key = forest.find? scope key := by
    by_cases same : key = name
    · subst same
      exact find?_define_of_not_sees fun sees => hidden ⟨rfl, sees⟩
    · exact find?_define_of_ne same scope
  rw [get?, get?, found]
  cases nearest : forest.find? scope key with
  | none => rfl
  | some other =>
      rw [Option.bind_some, Option.bind_some, (rebound_define made name value).bound, if_neg]
      rintro ⟨rfl, rfl⟩
      exact hidden ⟨rfl, (find?_eq_some_iff.1 nearest).1⟩

theorem lt_size_of_binds (bound : (forest.own holder).binds name = true) :
    holder < forest.size := by
  by_contra outside
  rw [own_of_size_le (by omega)] at bound
  cases bound

/-- A bound name that gets a new value has it for all scopes that found its binding, and for
no other. -/
theorem get?_define_of_find? (found : forest.find? other name = some holder) (scope : Nat)
    (key : Name) : (forest.define holder name value).get? scope key =
      if key = name ∧ forest.find? scope name = some holder then some value
      else forest.get? scope key := by
  have bound := (find?_eq_some_iff.1 found).2
  have made := lt_size_of_binds bound
  split
  next changed =>
    obtain ⟨rfl, same⟩ := changed
    exact get?_define_of_sees made (find?_eq_some_iff.1 same).1
  next kept =>
    apply get?_define_of_not_sees made
    rintro ⟨same, sees⟩
    exact kept ⟨same, find?_eq_some_iff.2 ⟨sees, bound⟩⟩

end Rebound

/-- The forests that come about by making scopes, binding names in them and giving bound names
new values. -/
inductive Built : Forest α → Prop
  | empty : Built #[]
  | make {forest : Forest α} {enclosing : Option Nat} :
      Built forest → (∀ outer ∈ enclosing, outer < forest.size) → Built (forest.make enclosing)
  | define {forest : Forest α} {scope : Nat} (name : Name) (value : α) :
      Built forest → scope < forest.size → Built (forest.define scope name value)
  | assign {forest after : Forest α} {scope : Nat} {name : Name} {value : α} :
      Built forest → scope < forest.size → forest.assign? scope name value = some after →
      Built after

theorem link?_make_size (forest : Forest α) (enclosing : Option Nat) :
    (forest.make enclosing).link? forest.size = enclosing := by
  simp [link?, make]

theorem Descending.make (descending : forest.Descending) {enclosing : Option Nat}
    (earlier : ∀ outer ∈ enclosing, outer < forest.size) :
    (forest.make enclosing).Descending := by
  intro scope outer linked
  by_cases fresh : scope = forest.size
  · subst fresh
    rw [link?_make_size] at linked
    exact earlier outer linked
  · rw [Forest.make, link?_push_of_ne _ fresh] at linked
    exact descending scope outer linked

theorem Built.descending (built : forest.Built) : forest.Descending := by
  induction built with
  | empty =>
      intro scope outer linked
      simp [link?] at linked
  | make _ earlier descending => exact descending.make earlier
  | define name value _ _ descending => exact descending.define _ name value
  | assign _ _ assigned descending =>
      obtain ⟨holder, -, rfl⟩ := Option.map_eq_some_iff.1 assigned
      exact descending.define holder _ _

/-- In a forest that is built step by step every way out follows the links to an outermost scope,
and what is found is the nearest scope on it that binds the name.  Giving a bound name a new
value changes that binding alone, and the look-ups that found it; binding a name in a scope
changes the look-ups that see that scope.  A name that no scope on the way out binds cannot be
looked up or be given a value, and asking for it changes nothing. -/
theorem Built.changes_seen {forest : Forest Value} (built : forest.Built) :
    (∀ scope, ∃ root, forest.EndsIn scope root) ∧
    (∀ scope name holder, forest.find? scope name = some holder ↔
      forest.Sees name scope holder ∧ (forest.own holder).binds name = true) ∧
    (∀ scope name value, forest.get? scope name = some value ↔
      ∃ holder, forest.Sees name scope holder ∧ (forest.own holder).get? name = some value) ∧
    (∀ scope name value after, forest.assign? scope name value = some after →
      ∃ holder, forest.find? scope name = some holder ∧ forest.Rebound holder name value after ∧
        ∀ other key, after.get? other key =
          if key = name ∧ forest.find? other name = forest.find? scope name then some value
          else forest.get? other key) ∧
    (∀ scope < forest.size, ∀ name value,
      forest.Rebound scope name value (forest.define scope name value) ∧
      ∀ other key,
        (key = name ∧ forest.Sees name other scope →
          (forest.define scope name value).get? other key = some value) ∧
        (¬(key = name ∧ forest.Sees name other scope) →
          (forest.define scope name value).get? other key = forest.get? other key)) ∧
    ∀ (state : State) (token : SavedToken) (name : Name), state.scopes = forest →
      Name.ofLexeme? token.lexeme = some name →
      let unbound := ∀ holder ∈ forest.chain state.current,
        (forest.own holder).binds name = false
      let failure := Failure.error (.undefined token.lexeme.display token.line)
      (unbound → Run.lookup (.token token) state = .failed failure state ∧
        ∀ value, Run.assign (.token token) value state = .failed failure state) ∧
      (¬unbound →
        (∃ value, forest.get? state.current name = some value ∧
          Run.lookup (.token token) state = .done value state) ∧
        ∀ value, ∃ after, forest.assign? state.current name value = some after ∧
          Run.assign (.token token) value state = .done () { state with scopes := after }) := by
  refine ⟨built.descending.exists_endsIn, fun _ _ _ => find?_eq_some_iff,
    fun _ _ _ => get?_eq_some_iff, ?_, ?_, ?_⟩
  · intro scope name value after assigned
    obtain ⟨holder, found, rfl⟩ := Option.map_eq_some_iff.1 assigned
    have made := lt_size_of_binds (find?_eq_some_iff.1 found).2
    rw [found]
    exact ⟨holder, rfl, rebound_define made name value, get?_define_of_find? found⟩
  · intro scope made name value
    refine ⟨rebound_define made name value, fun other key => ⟨?_, get?_define_of_not_sees made⟩⟩
    rintro ⟨rfl, sees⟩
    exact get?_define_of_sees made sees
  · rintro state token name rfl named unbound failure
    constructor
    · intro bare
      have missing := find?_eq_none_iff.2 bare
      refine ⟨Run.lookup_of_unbound named (get?_eq_none_iff.2 missing), fun value => ?_⟩
      exact Run.assign_of_unbound named (Option.map_eq_none_iff.2 missing)
    · intro present
      have visible : state.scopes.find? state.current name ≠ none :=
        fun missing => present (find?_eq_none_iff.1 missing)
      obtain ⟨holder, found⟩ := Option.ne_none_iff_exists'.1 visible
      obtain ⟨value, held⟩ :=
        Option.ne_none_iff_exists'.1 fun missing => visible (get?_eq_none_iff.1 missing)
      refine ⟨⟨value, held, Run.lookup_of_get? named held⟩, fun value => ?_⟩
      have assigned : state.scopes.assign? state.current name value =
          some (state.scopes.define holder name value) :=
        Option.map_eq_some_iff.2 ⟨holder, found, rfl⟩
      exact ⟨_, assigned, Run.assign_of_assign? named assigned⟩

/-- Two scopes in one that binds `a`, of which the first has an `a` of its own: a new value that
is given through the second is seen from the outer scope and not from the first. -/
theorem Built.changes_seen_siblings :
    ∃ forest after : Forest Value, forest.Built ∧
      forest.assign? 2 (.ofString "a") (.bool true) = some after ∧
      after.get? 0 (.ofString "a") = some (.bool true) ∧
      after.get? 1 (.ofString "a") = some .nil ∧
      after.get? 2 (.ofString "a") = some (.bool true) := by
  let outer : Forest Value := (Forest.make none #[]).define 0 (.ofString "a") (.bool false)
  let forest : Forest Value :=
    ((outer.make (some 0)).make (some 0)).define 1 (.ofString "a") .nil
  have first : (Forest.make none (#[] : Forest Value)).Built := Built.empty.make nofun
  have global : outer.Built := first.define _ _ (by decide)
  have built : forest.Built := by
    refine ((global.make ?_).make ?_).define _ _ (by decide)
    all_goals
      rintro _ ⟨⟩
      decide
  have atOuter : forest.find? 0 (.ofString "a") = some 0 := find?_of_binds rfl
  have atFirst : forest.find? 1 (.ofString "a") = some 1 := find?_of_binds rfl
  have atSecond : forest.find? 2 (.ofString "a") = some 0 :=
    (find?_outward rfl rfl).trans atOuter
  have assigned : forest.assign? 2 (.ofString "a") (.bool true) =
      some (forest.define 0 (.ofString "a") (.bool true)) :=
    Option.map_eq_some_iff.2 ⟨0, atSecond, rfl⟩
  obtain ⟨-, -, -, changes, -, -⟩ := built.changes_seen
  obtain ⟨_, -, -, looked⟩ := changes 2 _ _ _ assigned
  rw [atSecond] at looked
  refine ⟨forest, _, built, assigned, ?_, ?_, ?_⟩
  · rw [looked, if_pos ⟨rfl, atOuter⟩]
  · rw [looked, if_neg (by rw [atFirst]; decide), get?, atFirst]
    rfl
  · rw [looked, if_pos ⟨rfl, atSecond⟩]

end Forest

end Lox
