import Lox.Proofs.Run.Moment

/-!
Declarations do not leak.  Expressions, blocks and calls leave the names of every scope as
they were, a statement names things in the current scope only, and no name is ever
unbound again.
-/

namespace Lox

namespace State

structure Grown (state after : State) : Prop where
  size : state.scopes.size ≤ after.scopes.size
  linked : ∀ scope < state.scopes.size, after.scopes.link? scope = state.scopes.link? scope
  named : ∀ scope, state.scopes.names scope <+: after.scopes.names scope

/-- A run that adds names to the given ones of the old scopes at most, and comes back to
the current scope. -/
structure Declares (places : Nat → Prop) (state after : State) : Prop where
  grown : state.Grown after
  current : after.current = state.current
  kept : ∀ scope < state.scopes.size, ¬ places scope →
    after.scopes.names scope = state.scopes.names scope

variable {state middle after : State}

theorem Grown.refl (state : State) : state.Grown state where
  size := Nat.le_refl _
  linked _ _ := rfl
  named _ := List.prefix_rfl

theorem Grown.trans (first : state.Grown middle) (second : middle.Grown after) :
    state.Grown after where
  size := Nat.le_trans first.size second.size
  linked scope old :=
    (second.linked scope (Nat.lt_of_lt_of_le old first.size)).trans (first.linked scope old)
  named scope := (first.named scope).trans (second.named scope)

theorem Grown.of_scopes (same : after.scopes = state.scopes) : state.Grown after where
  size := Nat.le_of_eq (congrArg Array.size same.symm)
  linked scope _ := by rw [same]
  named scope := by simp only [same, List.prefix_rfl]

theorem grown_bound (state : State) (scope : Nat) (name : Name) (value : Value) :
    state.Grown (state.bound scope name value) where
  size := Nat.le_of_eq (Forest.size_define scope name value).symm
  linked other _ := Forest.link?_define scope other name value
  named := Forest.names_prefix_define scope name value

theorem names_entered_of_lt {scope : Nat} (old : scope < state.scopes.size) (enclosing : Nat)
    (bindings : Bindings Value) :
    (state.entered enclosing bindings).scopes.names scope = state.scopes.names scope := by
  unfold entered Forest.names
  rw [Forest.own_push_of_ne _ (Nat.ne_of_lt old)]

theorem grown_entered (state : State) (enclosing : Nat) (bindings : Bindings Value) :
    state.Grown (state.entered enclosing bindings) where
  size := by simp [entered]
  linked scope old := Forest.link?_push_of_ne _ (Nat.ne_of_lt old)
  named scope := by
    by_cases old : scope < state.scopes.size
    · simp only [names_entered_of_lt old, List.prefix_rfl]
    · rw [Forest.names, Forest.own_of_size_le (by omega)]
      exact List.nil_prefix

theorem Grown.isSome_find? (grown : state.Grown after) {scope : Nat} {name : Name}
    (found : (state.scopes.find? scope name).isSome) :
    (after.scopes.find? scope name).isSome := by
  induction scope using Nat.strongRecOn with
  | ind scope ih =>
      cases binds : (after.scopes.own scope).binds name with
      | true => simp [Forest.find?_of_binds binds]
      | false =>
          have unbound : (state.scopes.own scope).binds name = false := by
            by_contra bound
            have member := Forest.mem_names.2 (Bool.not_eq_false _ ▸ bound)
            have later := Forest.mem_names.1 ((grown.named scope).subset member)
            simp [binds] at later
          cases linked : state.scopes.enclosing? scope with
          | none => simp [Forest.find?_outermost unbound linked] at found
          | some outer =>
              have old : scope < state.scopes.size := by
                by_contra outside
                simp [Forest.enclosing?_of_size_le (Nat.le_of_not_lt outside)] at linked
              have stillLinked : after.scopes.enclosing? scope = some outer := by
                rw [Forest.enclosing?_eq, grown.linked scope old, ← Forest.enclosing?_eq, linked]
              rw [Forest.find?_outward unbound linked] at found
              rw [Forest.find?_outward binds stillLinked]
              exact ih outer (Forest.lt_of_enclosing? linked) found

theorem Declares.refl (places : Nat → Prop) (state : State) : state.Declares places state where
  grown := .refl state
  current := rfl
  kept _ _ _ := rfl

theorem Declares.trans {places : Nat → Prop} (first : state.Declares places middle)
    (second : middle.Declares places after) : state.Declares places after where
  grown := first.grown.trans second.grown
  current := second.current.trans first.current
  kept scope old elsewhere :=
    (second.kept scope (Nat.lt_of_lt_of_le old first.grown.size) elsewhere).trans
      (first.kept scope old elsewhere)

def declaring : Discipline where
  steady := Declares fun _ => False
  grows state := state.Declares (· = state.current)
  fine _ := True
  good _ _ := True
  scope _ _ := True

theorem declaring_kept : declaring.Kept where
  steady_refl := .refl _
  steady_trans := .trans
  grows_of_steady steady :=
    ⟨steady.grown, steady.current, fun scope old _ => steady.kept scope old id⟩
  grows_trans {state middle after} first second := by
    have onward : middle.Declares (· = state.current) after := first.current ▸ second
    exact first.trans onward
  good_grows _ _ := trivial
  scope_grows _ _ := trivial
  simple _ := trivial
  counts counts _ := by
    refine ⟨⟨.of_scopes counts.scopes, counts.current, fun scope _ _ => ?_⟩, trivial⟩
    rw [counts.scopes]
  current _ := trivial
  found _ _ _ := trivial
  callee _ := trivial
  closure _ _ := trivial
  assign {state name holder value} _ _ found := by
    -- an assignment binds a name only where it is bound already
    have bound := Forest.binds_of_find? found
    exact ⟨⟨grown_bound state holder name value, rfl,
      fun scope _ _ => Forest.names_define_of_binds bound value scope⟩, trivial⟩
  define {state name value} _ _ := by
    refine ⟨⟨grown_bound state state.current name value, rfl, fun scope _ elsewhere => ?_⟩, trivial⟩
    exact Forest.names_define_of_ne (Ne.symm elsewhere) name value
  enter _ _ _ := trivial
  leave {state after enclosing bindings} _ grows _ := by
    refine ⟨⟨?_, rfl, fun scope old _ => ?_⟩, trivial, fun _ => trivial⟩
    · exact ((grown_entered state enclosing bindings).trans grows.grown).trans (.of_scopes rfl)
    · -- the scope that was entered is new, so what is declared in it is in no old scope
      have inner : scope < (state.entered enclosing bindings).scopes.size :=
        Nat.lt_of_lt_of_le old (grown_entered state enclosing bindings).size
      have elsewhere : scope ≠ (state.entered enclosing bindings).current := Nat.ne_of_lt old
      exact (grows.kept scope inner elsewhere).trans (names_entered_of_lt old enclosing bindings)
  deepen _ := ⟨trivial, fun _ => trivial, fun _ => trivial⟩
  rise {state after} _ steady _ := by
    have deepened : state.Grown state.deepened := .of_scopes rfl
    exact ⟨⟨(deepened.trans steady.grown).trans (.of_scopes rfl), steady.current, steady.kept⟩,
      trivial, fun _ => trivial⟩

end State

theorem Moment.Next.grown {settings : Settings} {moment later : Moment}
    (next : Next settings moment later) : moment.state.Grown later.state := by
  have kept := State.declaring_kept
  cases next with
  | @executed state _ _ budget tree ended =>
      have ends := kept.execute settings budget tree state trivial
      exact (ends.of_state? ended).1.grown
  | @evaluated state _ _ _ budget tree ended =>
      have ends := kept.evaluate settings budget tree state trivial
      rw [ended] at ends
      exact ends.1.grown
  | @evaluationFailed state _ _ _ budget tree ended =>
      have ends := kept.evaluate settings budget tree state trivial
      rw [ended] at ends
      exact ends.1.grown
  | @called state _ _ arguments callee _ budget _ _ ended =>
      have ends : State.declaring.Ends State.declaring.steady State.declaring.good state
          (Tree.invoke settings budget callee arguments state) :=
        kept.invoke settings budget trivial trivial fun _ _ => trivial
      rw [ended] at ends
      exact ends.1.grown
  | @callFailed state _ _ arguments callee _ budget _ _ ended =>
      have ends : State.declaring.Ends State.declaring.steady State.declaring.good state
          (Tree.invoke settings budget callee arguments state) :=
        kept.invoke settings budget trivial trivial fun _ _ => trivial
      rw [ended] at ends
      exact ends.1.grown
  | traced | made | read | moved => exact .of_scopes rfl
  | entered => exact State.grown_entered _ _ _

theorem Moment.Later.grown {settings : Settings} {moment later : Moment}
    (goesOn : Later settings moment later) : moment.state.Grown later.state := by
  induction goesOn with
  | refl => exact .refl _
  | tail _ next ih => exact ih.trans next.grown

namespace State

/-- Evaluating an expression, executing a block and calling a function leave every scope with
the names it had, however they end; another statement may add names to the current scope
alone.  A name that can be looked up can be looked up at every later moment. -/
theorem declarations_stay_local (settings : Settings) :
    (∀ budget tree state after, (Tree.evaluate settings budget tree state).state? = some after →
      ∀ scope < state.scopes.size, after.scopes.names scope = state.scopes.names scope) ∧
    (∀ budget statements state after,
      (Tree.execute settings budget (.block statements) state).state? = some after →
      ∀ scope < state.scopes.size, after.scopes.names scope = state.scopes.names scope) ∧
    (∀ budget callee arguments state after,
      (Tree.invoke settings budget callee arguments state).state? = some after →
      ∀ scope < state.scopes.size, after.scopes.names scope = state.scopes.names scope) ∧
    (∀ budget tree state after, (Tree.execute settings budget tree state).state? = some after →
      ∀ scope < state.scopes.size, state.scopes.names scope <+: after.scopes.names scope ∧
        (scope ≠ state.current → after.scopes.names scope = state.scopes.names scope)) ∧
    (∀ moment later, Moment.Later settings moment later → ∀ scope name,
      (moment.state.scopes.get? scope name).isSome →
        (later.state.scopes.get? scope name).isSome) := by
  have kept := declaring_kept
  refine ⟨?_, ?_, ?_, ?_, ?_⟩
  · intro budget tree state after ended scope old
    have ends := kept.evaluate settings budget tree state trivial
    exact (ends.of_state? ended).1.kept scope old id
  · intro budget statements state after ended scope old
    have ends := kept.executeBlock settings budget statements state trivial
    exact (ends.of_state? ended).1.kept scope old id
  · intro budget callee arguments state after ended scope old
    have ends : declaring.Ends declaring.steady declaring.good state
        (Tree.invoke settings budget callee arguments state) :=
      kept.invoke settings budget trivial trivial fun _ _ => trivial
    exact (ends.of_state? ended).1.kept scope old id
  · intro budget tree state after ended scope old
    have ends := kept.execute settings budget tree state trivial
    have declares := (ends.of_state? ended).1
    exact ⟨declares.grown.named scope, declares.kept scope old⟩
  · intro moment later goesOn scope name found
    rw [Forest.isSome_get?] at found ⊢
    exact goesOn.grown.isSome_find? found

/-- The block `{ var a; }` on a fresh machine, and the clock after it. -/
theorem declarations_stay_local_block :
    ∃ after, (Tree.execute ⟨0, fun _ => none⟩ 8
        (.block (.list [.var (Token.toTree ⟨.identifier, "a", 1, .nil⟩) .nil])) initial).state? =
          some after ∧
      after.scopes.names 1 = [.ofString "a"] ∧
      after.scopes.names globalScope = initial.scopes.names globalScope ∧
      (initial.scopes.get? globalScope (.ofString "clock")).isSome ∧
      (after.scopes.get? globalScope (.ofString "clock")).isSome := by
  let after : State := { initial with
    scopes := initial.scopes.push ⟨some 0, [(.ofString "a", .nil)]⟩ }
  have ended : (Tree.execute ⟨0, fun _ => none⟩ 8
      (.block (.list [.var (Token.toTree ⟨.identifier, "a", 1, .nil⟩) .nil])) initial).state? =
        some after := rfl
  have visible : (initial.scopes.get? globalScope (.ofString "clock")).isSome := by
    rw [Forest.isSome_get?, Forest.find?_of_binds rfl]
    rfl
  obtain ⟨-, blocks, -, -, later⟩ := declarations_stay_local ⟨0, fun _ => none⟩
  have goesOn : Moment.Later ⟨0, fun _ => none⟩ ⟨initial, []⟩ ⟨after, []⟩ :=
    .single (.executed 8 _ ended)
  exact ⟨after, ended, rfl, blocks 8 _ _ _ ended globalScope (by decide), visible,
    later _ _ goesOn _ _ visible⟩

end State

end Lox
