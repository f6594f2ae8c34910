import Lox.Proofs.Run.Rooted

/-!
Closures are encapsulated.  A run changes only scopes that can be reached from where it
starts, and what can be reached afterwards was within reach before or is new.
-/

namespace Lox

/-- The scopes that can be reached from the given ones, on the way out and through the
functions bound on it. -/
inductive Forest.Reaches (forest : Forest Value) (roots : Nat → Prop) : Nat → Prop
  | root {scope : Nat} : roots scope → Reaches forest roots scope
  | outward {scope outer : Nat} : Reaches forest roots scope →
      forest.enclosing? scope = some outer → Reaches forest roots outer
  | captured {scope : Nat} {name : Name} {closure : Closure} : Reaches forest roots scope →
      (name, .function closure) ∈ forest.own scope → Reaches forest roots closure.scope

def Value.Captures (value : Value) (scope : Nat) : Prop :=
  ∃ closure, value = .function closure ∧ closure.scope = scope

def Flow.Captures : Flow → Nat → Prop
  | completed, _ => False
  | returned value, scope => value.Captures scope

theorem Value.Captures.not_simple {value : Value} {scope : Nat} (captures : value.Captures scope) :
    ¬ value.Simple := by
  obtain ⟨closure, rfl, -⟩ := captures
  exact fun simple => simple closure rfl

theorem Value.Inside.of_captures {value : Value} {scope size : Nat} (inside : value.Inside size)
    (captures : value.Captures scope) : scope < size := by
  obtain ⟨closure, rfl, rfl⟩ := captures
  exact inside

namespace State

def Holds (state : State) (scope : Nat) : Prop :=
  state.scopes.Reaches (· = state.current) scope

/-- What a run from `state` to `after` leaves alone, and what is within reach after it:
the produced scopes are those that its value was declared in. -/
structure Encapsulates (state after : State) (produced : Nat → Prop) : Prop where
  kept : ∀ scope < state.scopes.size, ¬ state.Holds scope →
    after.scopes.own scope = state.scopes.own scope
  reached : ∀ scope,
    after.scopes.Reaches (fun root => root = after.current ∨ produced root) scope →
    state.Holds scope ∨ state.scopes.size ≤ scope ∧ scope < after.scopes.size

def Owns (start : State) (scope : Nat) : Prop :=
  start.Holds scope ∨ start.scopes.size ≤ scope

def GivesOwn (start : State) (value : Value) : Prop :=
  ∀ scope, value.Captures scope → start.Owns scope

/-- A run that started elsewhere is still among the scopes it may work on, no way leads
out of them, and the others are as they were. -/
structure Confined (start state : State) : Prop where
  size : start.scopes.size ≤ state.scopes.size
  current : start.Owns state.current
  outward : ∀ {scope outer}, start.Owns scope → state.scopes.enclosing? scope = some outer →
    start.Owns outer
  captured : ∀ {scope}, start.Owns scope → ∀ entry ∈ state.scopes.own scope,
    start.GivesOwn entry.2
  kept : ∀ {scope}, ¬ start.Owns scope → state.scopes.own scope = start.scopes.own scope

variable {start state : State}

theorem confined_self (start : State) : start.Confined start where
  size := Nat.le_refl _
  current := .inl (.root rfl)
  outward {scope outer} owned linked := by
    rcases owned with held | new
    · exact .inl (held.outward linked)
    · simp [Forest.enclosing?, new] at linked
  captured {scope} owned entry member := by
    rcases owned with held | new
    · rintro _ ⟨closure, same, rfl⟩
      obtain ⟨name, value⟩ := entry
      subst same
      exact .inl (held.captured member)
    · simp [Forest.own_of_size_le new] at member
  kept _ := rfl

namespace Confined

theorem owns_of_find? (confined : start.Confined state) {name : Name} {scope holder : Nat}
    (owned : start.Owns scope) (found : state.scopes.find? scope name = some holder) :
    start.Owns holder := by
  induction scope using Nat.strongRecOn with
  | ind scope ih =>
      cases binds : (state.scopes.own scope).binds name with
      | true =>
          rw [Forest.find?_of_binds binds] at found
          cases found
          exact owned
      | false =>
          cases linked : state.scopes.enclosing? scope with
          | none =>
              rw [Forest.find?_outermost binds linked] at found
              cases found
          | some outer =>
              rw [Forest.find?_outward binds linked] at found
              exact ih outer (Forest.lt_of_enclosing? linked) (confined.outward owned linked) found

theorem found (confined : start.Confined state) {name : Name} {scope : Nat} {value : Value}
    (owned : start.Owns scope) (found : state.scopes.get? scope name = some value) :
    start.GivesOwn value := by
  unfold Forest.get? at found
  obtain ⟨holder, holds, bound⟩ := Option.bind_eq_some_iff.1 found
  exact confined.captured (confined.owns_of_find? owned holds) _ (Bindings.mem_of_get? bound)

theorem bound (confined : start.Confined state) {holder : Nat} (owned : start.Owns holder)
    {value : Value} (gives : start.GivesOwn value) (name : Name) :
    start.Confined (state.bound holder name value) where
  size := by
    change start.scopes.size ≤ (state.scopes.define holder name value).size
    rw [Forest.size_define]
    exact confined.size
  current := confined.current
  outward {scope outer} owned linked := by
    change (state.scopes.define holder name value).enclosing? scope = some outer at linked
    rw [Forest.enclosing?_define] at linked
    exact confined.outward owned linked
  captured {scope} owned entry member := by
    rcases Forest.mem_own_define member with rfl | old
    · exact gives
    · exact confined.captured owned entry old
  kept {scope} foreign := by
    have different : holder ≠ scope := by
      rintro rfl
      exact foreign owned
    exact (Forest.own_define_of_ne different name value).trans (confined.kept foreign)

theorem entered (confined : start.Confined state) {enclosing : Nat}
    (owned : start.Owns enclosing) {bindings : Bindings Value}
    (gives : ∀ entry ∈ bindings, start.GivesOwn entry.2) :
    start.Confined (state.entered enclosing bindings) where
  size := by
    have larger := confined.size
    simp only [State.entered, Array.size_push]
    omega
  current := .inr confined.size
  outward {scope outer} scopeOwned linked := by
    by_cases fresh : scope = state.scopes.size
    · subst fresh
      have around : enclosing = outer := by
        simp only [State.entered, Forest.enclosing?, Array.getElem?_push_size, Option.bind_some,
          Option.filter_eq_some_iff, Option.some.injEq] at linked
        exact linked.1
      exact around ▸ owned
    · simp only [State.entered, Forest.enclosing?_push_of_ne _ fresh] at linked
      exact confined.outward scopeOwned linked
  captured {scope} scopeOwned entry member := by
    by_cases fresh : scope = state.scopes.size
    · subst fresh
      simp only [State.entered, Forest.own_push_size] at member
      exact gives entry member
    · simp only [State.entered, Forest.own_push_of_ne _ fresh] at member
      exact confined.captured scopeOwned entry member
  kept {scope} foreign := by
    have old : scope ≠ state.scopes.size := by
      rintro rfl
      exact foreign (.inr confined.size)
    exact (Forest.own_push_of_ne _ old).trans (confined.kept foreign)

theorem of_scopes (confined : start.Confined state) {after : State}
    (scopes : after.scopes = state.scopes) (owned : start.Owns after.current) :
    start.Confined after where
  size := scopes ▸ confined.size
  current := owned
  outward := scopes ▸ confined.outward
  captured := scopes ▸ confined.captured
  kept := scopes ▸ confined.kept

theorem owns_of_reaches (confined : start.Confined state) {roots : Nat → Prop}
    (owned : ∀ root, roots root → start.Owns root) {scope : Nat}
    (reaches : state.scopes.Reaches roots scope) : start.Owns scope := by
  induction reaches with
  | root isRoot => exact owned _ isRoot
  | outward _ linked ih => exact confined.outward ih linked
  | captured _ member ih => exact confined.captured ih _ member _ ⟨_, rfl, rfl⟩

end Confined

def confinement (start : State) : Discipline where
  steady _ _ := True
  grows _ _ := True
  fine state := start.Confined state
  good _ value := start.GivesOwn value
  scope _ scope := start.Owns scope

theorem confinement_kept (start : State) : start.confinement.Kept where
  steady_refl _ := trivial
  steady_trans _ _ := trivial
  grows_of_steady := id
  grows_trans _ _ := trivial
  good_grows _ := id
  scope_grows _ := id
  simple simple _ captures := absurd simple captures.not_simple
  counts counts confined :=
    ⟨trivial, confined.of_scopes counts.scopes (counts.current ▸ confined.current)⟩
  current confined := confined.current
  found confined owned found := confined.found owned found
  callee gives := gives _ ⟨_, rfl, rfl⟩
  closure := by
    rintro state closure confined declared scope ⟨_, same, rfl⟩
    cases same
    exact declared ▸ confined.current
  assign confined gives found :=
    ⟨trivial, confined.bound (confined.owns_of_find? confined.current found) gives _⟩
  define confined gives := ⟨trivial, confined.bound confined.current gives _⟩
  enter confined owned gives := confined.entered owned gives
  leave confined _ after := ⟨trivial, after.of_scopes rfl confined.current, id⟩
  deepen confined := ⟨confined.of_scopes rfl confined.current, id, id⟩
  rise _ _ after := ⟨trivial, after.of_scopes rfl after.current, id⟩

theorem Scoped.lt_of_reaches (held : state.Scoped) {roots : Nat → Prop}
    (inside : ∀ root, roots root → root < state.scopes.size) {scope : Nat}
    (reaches : state.scopes.Reaches roots scope) : scope < state.scopes.size := by
  induction reaches with
  | root isRoot => exact inside _ isRoot
  | outward _ linked ih => exact Nat.lt_trans (Forest.lt_of_enclosing? linked) ih
  | captured _ member _ => exact held.values _ _ member

theorem Confined.encapsulates (confined : start.Confined state) (held : state.Scoped)
    {produced : Nat → Prop} (owned : ∀ scope, produced scope → start.Owns scope)
    (inside : ∀ scope, produced scope → scope < state.scopes.size) :
    start.Encapsulates state produced where
  kept scope old foreign := confined.kept (not_or.2 ⟨foreign, Nat.not_le.2 old⟩)
  reached scope reaches := by
    have rootsOwned : ∀ root, root = state.current ∨ produced root → start.Owns root := by
      rintro root (rfl | given)
      · exact confined.current
      · exact owned root given
    have rootsInside : ∀ root, root = state.current ∨ produced root → root < state.scopes.size := by
      rintro root (rfl | given)
      · exact held.current
      · exact inside root given
    exact (confined.owns_of_reaches rootsOwned reaches).imp_right fun new =>
      ⟨new, held.lt_of_reaches rootsInside reaches⟩

/-- A run from a state that programs can get into leaves every scope beyond its reach as
it was, however it ends; what is within reach afterwards, from the current scope or from the
value it gives, was within reach before or was made during the run. -/
theorem closures_encapsulated {settings : Settings} {values : List Value}
    (reachable : Reachable settings state values) (budget : Nat) (tree : Tree) :
    (∀ flow after, tree.execute settings budget state = .done flow after →
      state.Encapsulates after flow.Captures) ∧
    (∀ failure after, tree.execute settings budget state = .failed failure after →
      state.Encapsulates after fun _ => False) ∧
    (∀ value after, tree.evaluate settings budget state = .done value after →
      state.Encapsulates after value.Captures) ∧
    (∀ failure after, tree.evaluate settings budget state = .failed failure after →
      state.Encapsulates after fun _ => False) := by
  have held := reachable.held.1
  have self := confined_self state
  have executed := (confinement_kept state).execute settings budget tree state self
  have evaluated := (confinement_kept state).evaluate settings budget tree state self
  have executedInside := scoping_kept.execute settings budget tree state held
  have evaluatedInside := scoping_kept.evaluate settings budget tree state held
  refine ⟨?_, ?_, ?_, ?_⟩
  · intro flow after ended
    rw [ended] at executed executedInside
    obtain ⟨-, confined, gives⟩ := executed
    obtain ⟨-, afterHeld, inside⟩ := executedInside
    refine confined.encapsulates afterHeld ?_ ?_
    · intro scope captures
      cases flow with
      | completed => exact captures.elim
      | returned value => exact gives value rfl scope captures
    · intro scope captures
      cases flow with
      | completed => exact captures.elim
      | returned value => exact (inside value rfl).of_captures captures
  · intro failure after ended
    rw [ended] at executed executedInside
    exact executed.2.encapsulates executedInside.2 nofun nofun
  · intro value after ended
    rw [ended] at evaluated evaluatedInside
    obtain ⟨-, confined, gives⟩ := evaluated
    obtain ⟨-, afterHeld, inside⟩ := evaluatedInside
    exact confined.encapsulates afterHeld gives fun scope => inside.of_captures
  · intro failure after ended
    rw [ended] at evaluated evaluatedInside
    exact evaluated.2.encapsulates evaluatedInside.2 nofun nofun

/-- After the block `{ var a; }` its scope is out of reach, and declaring `a` again outside
leaves it alone. -/
theorem closures_encapsulated_block :
    ∃ state after, Reachable ⟨0, fun _ => none⟩ state [] ∧ ¬ state.Holds 1 ∧
      state.scopes.own 1 = [(.ofString "a", .nil)] ∧
      Tree.execute ⟨0, fun _ => none⟩ 5
        (.var (Token.toTree ⟨.identifier, "a", 1, .nil⟩) (.literal (.bool true))) state =
          .done .completed after ∧
      after.scopes.own 1 = state.scopes.own 1 ∧ after.scopes.own 0 ≠ state.scopes.own 0 := by
  let declared (initial : Tree) : Tree :=
    .var (Token.toTree ⟨.identifier, "a", 1, .nil⟩) initial
  let state : State := { State.initial with
    scopes := State.initial.scopes.push ⟨some 0, [(.ofString "a", .nil)]⟩ }
  let after := state.bound 0 (.ofString "a") (.bool true)
  have reachable : Reachable ⟨0, fun _ => none⟩ state [] :=
    Reachable.initial.executed 8 (.block (.list [declared .nil])) rfl
  have outOfReach : ∀ scope, state.Holds scope → scope = 0 := by
    intro scope holds
    induction holds with
    | root isRoot => exact isRoot
    | outward _ linked ih =>
        subst ih
        cases linked
    | captured _ member ih =>
        subst ih
        simp [state, State.initial, Forest.own] at member
  have beyond : ¬ state.Holds 1 := fun holds => absurd (outOfReach 1 holds) (by decide)
  have ended : Tree.execute ⟨0, fun _ => none⟩ 5 (declared (.literal (.bool true))) state =
      .done .completed after := rfl
  have kept := ((closures_encapsulated reachable 5 _).1 _ _ ended).kept 1 (by decide) beyond
  refine ⟨state, after, reachable, beyond, rfl, ended, kept, ?_⟩
  intro same
  cases congrArg List.length same

end State

end Lox
