import Lox.Proofs.Run.Reachable
import Mathlib.Logic.Function.Basic

/-!
Two machines whose scopes are numbered differently.  A layout says where each scope of
the first machine is at home on the second; scopes that bind nothing may be at home
with the scope around them.
-/

namespace Lox

namespace Value

def moved (home : Nat → Nat) : Value → Value
  | function closure => function { closure with scope := home closure.scope }
  | other => other

theorem moved_of_simple {value : Value} (simple : value.Simple) (home : Nat → Nat) :
    value.moved home = value := by
  cases value with
  | function closure => exact absurd rfl (simple closure)
  | _ => rfl

@[simp] theorem moved_id (value : Value) : value.moved id = value := by
  cases value <;> rfl

theorem Inside.moved_congr {home after : Nat → Nat} {size : Nat} {value : Value}
    (inside : value.Inside size) (same : ∀ scope < size, after scope = home scope) :
    value.moved after = value.moved home := by
  cases value with
  | function closure => simp only [moved, same closure.scope inside]
  | _ => rfl

theorem Inside.of_simple {value : Value} (simple : value.Simple) (size : Nat) :
    value.Inside size := by
  cases value with
  | function closure => exact absurd rfl (simple closure)
  | _ => trivial

variable (home : Nat → Nat)

@[simp] theorem isTruthy_moved (value : Value) : (value.moved home).isTruthy = value.isTruthy := by
  cases value <;> rfl

@[simp] theorem display_moved (value : Value) : (value.moved home).display = value.display := by
  cases value <;> rfl

@[simp] theorem typeName_moved (value : Value) : (value.moved home).typeName = value.typeName := by
  cases value <;> rfl

@[simp] theorem callable?_moved (value : Value) :
    (value.moved home).callable? = value.callable? := by
  cases value <;> rfl

@[simp] theorem equal_moved (left right : Value) :
    (left.moved home).equal (right.moved home) = left.equal right := by
  cases left <;> cases right <;> rfl

end Value

namespace Operator

@[simp] theorem unary_moved (home : Nat → Nat) (operator : SavedToken) (operand : Value) :
    unary operator (operand.moved home) = unary operator operand := by
  cases operand with
  | function closure => cases kind : operator.kind <;> simp only [unary, kind] <;> rfl
  | _ => rfl

@[simp] theorem binary_moved (home : Nat → Nat) (operator : SavedToken) (left right : Value) :
    binary operator (left.moved home) (right.moved home) = binary operator left right := by
  unfold binary
  rw [Value.equal_moved]
  cases left <;> cases right <;> rfl

end Operator

namespace Bindings

def moved (home : Nat → Nat) (bindings : Bindings Value) : Bindings Value :=
  bindings.map fun entry => (entry.1, entry.2.moved home)

variable {home after : Nat → Nat} {bindings : Bindings Value}

@[simp] theorem moved_identity (bindings : Bindings Value) : bindings.moved id = bindings := by
  simp [moved]

theorem moved_congr {size : Nat} (inside : ∀ entry ∈ bindings, entry.2.Inside size)
    (same : ∀ scope < size, after scope = home scope) :
    bindings.moved after = bindings.moved home := by
  refine List.map_congr_left fun entry member => ?_
  rw [(inside entry member).moved_congr same]

@[simp] theorem binds_moved (home : Nat → Nat) (name : Name) (bindings : Bindings Value) :
    (bindings.moved home).binds name = bindings.binds name := by
  simp only [binds, moved, List.any_map]
  rfl

@[simp] theorem get?_moved (home : Nat → Nat) (name : Name) (bindings : Bindings Value) :
    (bindings.moved home).get? name = (bindings.get? name).map (Value.moved home) := by
  induction bindings with
  | nil => rfl
  | cons entry rest ih =>
      obtain ⟨key, value⟩ := entry
      simp only [get?, moved, List.map_cons, List.lookup_cons] at ih ⊢
      cases name == key with
      | true => rfl
      | false => exact ih

theorem define_moved (home : Nat → Nat) (name : Name) (value : Value) (bindings : Bindings Value) :
    (bindings.define name value).moved home =
      (bindings.moved home).define name (value.moved home) := by
  induction bindings with
  | nil => rfl
  | cons entry rest ih =>
      simp only [moved, List.map_cons, define] at ih ⊢
      split
      · rfl
      · rw [List.map_cons, ih]

end Bindings

namespace State

variable (state : State) {outer scope : Nat} (bindings : Bindings Value)

theorem own_entered_fresh :
    (state.entered outer bindings).scopes.own state.scopes.size = bindings :=
  Forest.own_push_size _

theorem own_entered_old (old : scope < state.scopes.size) :
    (state.entered outer bindings).scopes.own scope = state.scopes.own scope :=
  Forest.own_push_of_ne _ (Nat.ne_of_lt old)

theorem enclosing?_entered_fresh (around : outer < state.scopes.size) :
    (state.entered outer bindings).scopes.enclosing? state.scopes.size = some outer :=
  Forest.enclosing?_push_size around _

theorem enclosing?_entered_old (old : scope < state.scopes.size) :
    (state.entered outer bindings).scopes.enclosing? scope = state.scopes.enclosing? scope :=
  Forest.enclosing?_push_of_ne _ (Nat.ne_of_lt old)

end State

/-- Where the scopes of one machine are at home on another.  Scopes that are not real
bind nothing, and only they may share a home. -/
structure Layout where
  home : Nat → Nat
  real : Nat → Prop
  size : Nat
  otherSize : Nat
  current : Nat
  current_lt : current < size
  home_lt : ∀ {scope}, scope < size → home scope < otherSize
  distinct : ∀ {scope twin}, scope < size → twin < size → real scope → real twin →
    home scope = home twin → scope = twin

namespace Layout

structure Extends (layout after : Layout) : Prop where
  size : layout.size ≤ after.size
  home : ∀ scope < layout.size, after.home scope = layout.home scope
  real : ∀ scope < layout.size, (after.real scope ↔ layout.real scope)

theorem Extends.refl (layout : Layout) : layout.Extends layout :=
  ⟨Nat.le_refl _, fun _ _ => rfl, fun _ _ => Iff.rfl⟩

theorem Extends.trans {layout middle after : Layout} (first : layout.Extends middle)
    (second : middle.Extends after) : layout.Extends after := by
  have within {scope : Nat} (old : scope < layout.size) : scope < middle.size :=
    Nat.lt_of_lt_of_le old first.size
  refine ⟨Nat.le_trans first.size second.size, ?_, ?_⟩
  · intro scope old
    rw [second.home scope (within old), first.home scope old]
  · intro scope old
    rw [second.real scope (within old), first.real scope old]

structure Advances (layout after : Layout) : Prop where
  kept : layout.Extends after
  current : after.current = layout.current

theorem Advances.refl (layout : Layout) : layout.Advances layout :=
  ⟨.refl layout, rfl⟩

theorem Advances.trans {layout middle after : Layout} (first : layout.Advances middle)
    (second : middle.Advances after) : layout.Advances after :=
  ⟨first.kept.trans second.kept, second.current.trans first.current⟩

def same (size current : Nat) (current_lt : current < size) : Layout where
  home := id
  real _ := True
  size := size
  otherSize := size
  current := current
  current_lt := current_lt
  home_lt := id
  distinct _ _ _ _ equal := equal

def entered (layout : Layout) : Layout where
  home := Function.update layout.home layout.size layout.otherSize
  real scope := scope = layout.size ∨ layout.real scope
  size := layout.size + 1
  otherSize := layout.otherSize + 1
  current := layout.size
  current_lt := Nat.lt_succ_self _
  home_lt {scope} inside := by
    by_cases fresh : scope = layout.size
    · rw [fresh, Function.update_self]
      exact Nat.lt_succ_self _
    · rw [Function.update_of_ne fresh]
      exact Nat.lt_succ_of_lt (layout.home_lt (by omega))
  distinct {scope twin} inside twinInside isReal twinReal equal := by
    by_cases fresh : scope = layout.size <;> by_cases twinFresh : twin = layout.size
    · rw [fresh, twinFresh]
    · rw [fresh, Function.update_self, Function.update_of_ne twinFresh] at equal
      have bound : layout.home twin < layout.otherSize := layout.home_lt (by omega)
      omega
    · rw [twinFresh, Function.update_self, Function.update_of_ne fresh] at equal
      have bound : layout.home scope < layout.otherSize := layout.home_lt (by omega)
      omega
    · rw [Function.update_of_ne fresh, Function.update_of_ne twinFresh] at equal
      exact layout.distinct (by omega) (by omega) (isReal.resolve_left fresh)
        (twinReal.resolve_left twinFresh) equal

def padded (layout : Layout) : Layout where
  home := Function.update layout.home layout.size (layout.home layout.current)
  real scope := scope ≠ layout.size ∧ layout.real scope
  size := layout.size + 1
  otherSize := layout.otherSize
  current := layout.size
  current_lt := Nat.lt_succ_self _
  home_lt {scope} inside := by
    by_cases fresh : scope = layout.size
    · rw [fresh, Function.update_self]
      exact layout.home_lt layout.current_lt
    · rw [Function.update_of_ne fresh]
      exact layout.home_lt (by omega)
  distinct {scope twin} inside twinInside isReal twinReal equal := by
    rw [Function.update_of_ne isReal.1, Function.update_of_ne twinReal.1] at equal
    obtain ⟨old, isReal⟩ := isReal
    obtain ⟨twinOld, twinReal⟩ := twinReal
    exact layout.distinct (by omega) (by omega) isReal twinReal equal

def back (layout after : Layout) (kept : layout.Extends after) : Layout :=
  { after with
    current := layout.current
    current_lt := Nat.lt_of_lt_of_le layout.current_lt kept.size }

variable {layout after : Layout}

theorem extends_entered (layout : Layout) : layout.Extends layout.entered := by
  refine ⟨Nat.le_succ _, fun scope old => ?_, fun scope old => ?_⟩
  · exact Function.update_of_ne (Nat.ne_of_lt old) _ _
  · exact or_iff_right (Nat.ne_of_lt old)

theorem extends_padded (layout : Layout) : layout.Extends layout.padded := by
  refine ⟨Nat.le_succ _, fun scope old => ?_, fun scope old => ?_⟩
  · exact Function.update_of_ne (Nat.ne_of_lt old) _ _
  · exact and_iff_right (Nat.ne_of_lt old)

theorem advances_back (kept : layout.Extends after) : layout.Advances (layout.back after kept) :=
  ⟨⟨kept.size, kept.home, kept.real⟩, rfl⟩

structure Values (layout : Layout) (value other : Value) : Prop where
  inside : value.Inside layout.size
  moved : other = value.moved layout.home

theorem Values.simple {value : Value} (simple : value.Simple) : layout.Values value value :=
  ⟨.of_simple simple _, (Value.moved_of_simple simple _).symm⟩

theorem Values.carry {value other : Value} (found : layout.Values value other)
    (kept : layout.Extends after) : after.Values value other :=
  ⟨found.inside.mono kept.size, found.moved.trans (found.inside.moved_congr kept.home).symm⟩

/-- The two states differ in the numbers of scopes, in scopes that bind nothing, and in the
trace, as the layout says. -/
structure Fits (layout : Layout) (state other : State) : Prop where
  size : state.scopes.size = layout.size
  otherSize : other.scopes.size = layout.otherSize
  current : state.current = layout.current
  otherCurrent : other.current = layout.home layout.current
  inside : ∀ scope, ∀ entry ∈ state.scopes.own scope, entry.2.Inside layout.size
  own : ∀ scope < layout.size, layout.real scope →
    other.scopes.own (layout.home scope) = (state.scopes.own scope).moved layout.home
  linked : ∀ scope < layout.size, layout.real scope →
    other.scopes.enclosing? (layout.home scope) =
      (state.scopes.enclosing? scope).map layout.home
  empty : ∀ scope < layout.size, ¬ layout.real scope → state.scopes.own scope = [] ∧
    ∃ outer, state.scopes.enclosing? scope = some outer ∧ layout.home outer = layout.home scope
  callDepth : other.callDepth = state.callDepth
  functions : other.functions = state.functions
  clockReads : other.clockReads = state.clockReads
  printed : other.printed = state.printed

theorem fits_same {state : State} (held : state.Scoped) :
    (same state.scopes.size state.current held.current).Fits state state where
  size := rfl
  otherSize := rfl
  current := rfl
  otherCurrent := rfl
  inside := held.values
  own _ _ _ := (Bindings.moved_identity _).symm
  linked _ _ _ := (Option.map_id_apply).symm
  empty _ _ unreal := absurd trivial unreal
  callDepth := rfl
  functions := rfl
  clockReads := rfl
  printed := rfl

namespace Fits

variable {state other : State}

theorem find? (fits : layout.Fits state other) (name : Name) (scope : Nat)
    (inside : scope < layout.size) :
    (∀ holder, state.scopes.find? scope name = some holder →
      holder < layout.size ∧ layout.real holder) ∧
    other.scopes.find? (layout.home scope) name =
      (state.scopes.find? scope name).map layout.home := by
  induction scope using Nat.strongRecOn with
  | ind scope ih =>
      have outward {outer : Nat} (linked : state.scopes.enclosing? scope = some outer) :=
        ih outer (Forest.lt_of_enclosing? linked)
          (Nat.lt_trans (Forest.lt_of_enclosing? linked) inside)
      by_cases isReal : layout.real scope
      · have own := fits.own scope inside isReal
        have linked := fits.linked scope inside isReal
        cases bound : (state.scopes.own scope).binds name with
        | true =>
            rw [Forest.find?_of_binds bound, Forest.find?_of_binds (by rw [own]; simpa using bound)]
            exact ⟨fun holder same => Option.some.inj same ▸ ⟨inside, isReal⟩, rfl⟩
        | false =>
            have otherBound : (other.scopes.own (layout.home scope)).binds name = false := by
              rw [own]
              simpa using bound
            cases found : state.scopes.enclosing? scope with
            | none =>
                rw [found] at linked
                rw [Forest.find?_outermost bound found, Forest.find?_outermost otherBound linked]
                exact ⟨nofun, rfl⟩
            | some outer =>
                rw [found] at linked
                rw [Forest.find?_outward bound found, Forest.find?_outward otherBound linked]
                exact outward found
      · -- the second machine has no such scope and begins one scope further out
        obtain ⟨empty, outer, found, shared⟩ := fits.empty scope inside isReal
        rw [Forest.find?_outward (by rw [empty]; rfl) found, ← shared]
        exact outward found

theorem find?_current (fits : layout.Fits state other) (name : Name) :
    (∀ holder, state.scopes.find? state.current name = some holder →
      holder < layout.size ∧ layout.real holder) ∧
    other.scopes.find? other.current name =
      (state.scopes.find? state.current name).map layout.home := by
  rw [fits.current, fits.otherCurrent]
  exact fits.find? name layout.current layout.current_lt

theorem get? (fits : layout.Fits state other) (name : Name) {scope : Nat}
    (inside : scope < layout.size) :
    other.scopes.get? (layout.home scope) name =
      (state.scopes.get? scope name).map (Value.moved layout.home) := by
  obtain ⟨held, same⟩ := fits.find? name scope inside
  unfold Forest.get?
  rw [same]
  cases found : state.scopes.find? scope name with
  | none => rfl
  | some holder =>
      obtain ⟨holderInside, holderReal⟩ := held holder found
      simp [fits.own holder holderInside holderReal]

theorem bound (fits : layout.Fits state other) {holder : Nat} (inside : holder < layout.size)
    (isReal : layout.real holder) (name : Name) {value : Value}
    (valueInside : value.Inside layout.size) :
    layout.Fits (state.bound holder name value)
      (other.bound (layout.home holder) name (value.moved layout.home)) :=
  { fits with
    size := (Forest.size_define ..).trans fits.size
    otherSize := (Forest.size_define ..).trans fits.otherSize
    inside := by
      intro scope entry member
      rcases Forest.mem_own_define member with rfl | old
      · exact valueInside
      · exact fits.inside scope entry old
    own := by
      intro scope scopeInside scopeReal
      by_cases same : holder = scope
      · subst same
        have home := layout.home_lt inside
        simp only [State.bound]
        rw [Forest.own_define_self (by rw [fits.otherSize]; exact home),
          Forest.own_define_self (by rw [fits.size]; exact inside),
          fits.own holder inside isReal, Bindings.define_moved]
      · -- real scopes do not share a home, so no other scope sees the new value
        have apart : layout.home holder ≠ layout.home scope :=
          fun equal => same (layout.distinct inside scopeInside isReal scopeReal equal)
        simp only [State.bound]
        rw [Forest.own_define_of_ne same, Forest.own_define_of_ne apart]
        exact fits.own scope scopeInside scopeReal
    linked := by
      intro scope scopeInside scopeReal
      simp only [State.bound, Forest.enclosing?_define]
      exact fits.linked scope scopeInside scopeReal
    empty := by
      intro scope scopeInside unreal
      have apart : holder ≠ scope := fun same => unreal (same ▸ isReal)
      simp only [State.bound, Forest.enclosing?_define, Forest.own_define_of_ne apart]
      exact fits.empty scope scopeInside unreal }

theorem held (fits : layout.Fits state other) : state.Scoped where
  current := by
    rw [fits.size, fits.current]
    exact layout.current_lt
  values := by
    rw [fits.size]
    exact fits.inside

section Extended

variable {scope : Nat}

theorem home_lt (fits : layout.Fits state other) (kept : layout.Extends after)
    (old : scope < layout.size) : after.home scope < other.scopes.size := by
  rw [kept.home scope old, fits.otherSize]
  exact layout.home_lt old

theorem own_extended (fits : layout.Fits state other) (kept : layout.Extends after)
    (old : scope < layout.size) (isReal : after.real scope) :
    other.scopes.own (after.home scope) = (state.scopes.own scope).moved after.home := by
  rw [kept.home scope old, Bindings.moved_congr (fits.inside scope) kept.home]
  exact fits.own scope old ((kept.real scope old).1 isReal)

theorem linked_extended (fits : layout.Fits state other) (kept : layout.Extends after)
    (old : scope < layout.size) (isReal : after.real scope) :
    other.scopes.enclosing? (after.home scope) =
      (state.scopes.enclosing? scope).map after.home := by
  rw [kept.home scope old, fits.linked scope old ((kept.real scope old).1 isReal)]
  refine Option.map_congr fun outer linked => (kept.home outer ?_).symm
  exact Nat.lt_trans (Forest.lt_of_enclosing? linked) old

theorem empty_extended (fits : layout.Fits state other) (kept : layout.Extends after)
    (old : scope < layout.size) (unreal : ¬ after.real scope) :
    state.scopes.own scope = [] ∧ ∃ outer, state.scopes.enclosing? scope = some outer ∧
      after.home outer = after.home scope := by
  obtain ⟨empty, outer, linked, shared⟩ :=
    fits.empty scope old fun isReal => unreal ((kept.real scope old).2 isReal)
  have outerOld := Nat.lt_trans (Forest.lt_of_enclosing? linked) old
  refine ⟨empty, outer, linked, ?_⟩
  rw [kept.home outer outerOld, kept.home scope old, shared]

theorem inside_entered (fits : layout.Fits state other) {outer : Nat} {bindings : Bindings Value}
    (bindingsInside : ∀ entry ∈ bindings, entry.2.Inside layout.size) (scope : Nat) :
    ∀ entry ∈ (state.entered outer bindings).scopes.own scope,
      entry.2.Inside (layout.size + 1) := by
  intro entry member
  have inside := (fits.held.entered (by rw [fits.size]; exact bindingsInside) outer).values
    scope entry member
  rwa [State.entered, Array.size_push, fits.size] at inside

end Extended

theorem entered (fits : layout.Fits state other) {outer : Nat} (inside : outer < layout.size)
    {bindings : Bindings Value} (bindingsInside : ∀ entry ∈ bindings, entry.2.Inside layout.size) :
    layout.entered.Fits (state.entered outer bindings)
      (other.entered (layout.home outer) (bindings.moved layout.home)) := by
  have kept := layout.extends_entered
  have size := fits.size
  have homeFresh : layout.entered.home layout.size = other.scopes.size :=
    (Function.update_self ..).trans fits.otherSize.symm
  refine
    { size := by simp [State.entered, size, Layout.entered]
      otherSize := by simp [State.entered, fits.otherSize, Layout.entered]
      current := size
      otherCurrent := homeFresh.symm
      inside := fits.inside_entered bindingsInside
      own := ?_
      linked := ?_
      empty := ?_
      callDepth := fits.callDepth
      functions := fits.functions
      clockReads := fits.clockReads
      printed := fits.printed }
  · intro scope scopeInside isReal
    rcases Nat.lt_succ_iff_lt_or_eq.1 scopeInside with old | fresh
    · rw [State.own_entered_old _ _ (fits.home_lt kept old),
        State.own_entered_old _ _ (size ▸ old)]
      exact fits.own_extended kept old isReal
    · rw [fresh, homeFresh, ← size, State.own_entered_fresh, State.own_entered_fresh,
        Bindings.moved_congr bindingsInside kept.home]
  · intro scope scopeInside isReal
    rcases Nat.lt_succ_iff_lt_or_eq.1 scopeInside with old | fresh
    · rw [State.enclosing?_entered_old _ _ (fits.home_lt kept old),
        State.enclosing?_entered_old _ _ (size ▸ old)]
      exact fits.linked_extended kept old isReal
    · have around := fits.home_lt kept inside
      rw [kept.home outer inside] at around
      rw [fresh, homeFresh, ← size, State.enclosing?_entered_fresh _ _ around,
        State.enclosing?_entered_fresh _ _ (size ▸ inside), Option.map_some,
        kept.home outer inside]
  · intro scope scopeInside unreal
    rcases Nat.lt_succ_iff_lt_or_eq.1 scopeInside with old | fresh
    · rw [State.own_entered_old _ _ (size ▸ old), State.enclosing?_entered_old _ _ (size ▸ old)]
      exact fits.empty_extended kept old unreal
    · exact absurd (.inl fresh) unreal

theorem padded (fits : layout.Fits state other) :
    layout.padded.Fits (state.entered state.current []) other := by
  have kept := layout.extends_padded
  have size := fits.size
  have homeFresh : layout.padded.home layout.size = layout.home layout.current :=
    Function.update_self ..
  have old {scope : Nat} (inside : scope < layout.size + 1) (isReal : layout.padded.real scope) :
      scope < layout.size := Nat.lt_of_le_of_ne (Nat.le_of_lt_succ inside) isReal.1
  refine
    { size := by simp [State.entered, size, Layout.padded]
      otherSize := fits.otherSize
      current := size
      otherCurrent := fits.otherCurrent.trans homeFresh.symm
      inside := fits.inside_entered (by simp)
      own := ?_
      linked := ?_
      empty := ?_
      callDepth := fits.callDepth
      functions := fits.functions
      clockReads := fits.clockReads
      printed := fits.printed }
  · intro scope inside isReal
    rw [State.own_entered_old _ _ (size ▸ old inside isReal)]
    exact fits.own_extended kept (old inside isReal) isReal
  · intro scope inside isReal
    rw [State.enclosing?_entered_old _ _ (size ▸ old inside isReal)]
    exact fits.linked_extended kept (old inside isReal) isReal
  · intro scope inside unreal
    rcases Nat.lt_succ_iff_lt_or_eq.1 inside with old | fresh
    · rw [State.own_entered_old _ _ (size ▸ old), State.enclosing?_entered_old _ _ (size ▸ old)]
      exact fits.empty_extended kept old unreal
    · have around := State.enclosing?_entered_fresh state [] fits.held.current
      rw [fresh, ← size]
      refine ⟨State.own_entered_fresh _ _, state.current, around, ?_⟩
      rw [size, homeFresh, fits.current, kept.home _ layout.current_lt]

theorem back (fits : after.Fits state other) (kept : layout.Extends after) :
    (layout.back after kept).Fits { state with current := layout.current }
      { other with current := layout.home layout.current } :=
  { fits with
    current := rfl
    otherCurrent := (kept.home layout.current layout.current_lt).symm }

end Fits

end Layout

end Lox
