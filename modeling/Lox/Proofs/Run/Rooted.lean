import Lox.Proofs.Run.Declarations
import Lox.Proofs.Scope.Rooted

/-!
The scopes of a machine form a tree.  Whatever runs, a scope stays where it was made, and
the way out of every scope, also out of those that functions were declared in, ends in the
global one.
-/

namespace Lox

namespace State

structure Planted (state : State) : Prop extends state.Scoped where
  rooted : state.scopes.Rooted

variable {state : State}

theorem Planted.bound (planted : state.Planted) {value : Value}
    (inside : value.Inside state.scopes.size) (scope : Nat) (name : Name) :
    (state.bound scope name value).Planted where
  toScoped := planted.toScoped.bound inside scope name
  rooted := planted.rooted.define scope name value

theorem Planted.entered (planted : state.Planted) {bindings : Bindings Value}
    (inside : ∀ entry ∈ bindings, entry.2.Inside state.scopes.size) {enclosing : Nat}
    (made : enclosing < state.scopes.size) : (state.entered enclosing bindings).Planted where
  toScoped := planted.toScoped.entered inside enclosing
  rooted := planted.rooted.push made bindings

theorem planted_initial : State.initial.Planted where
  current := by decide
  values := by
    intro scope entry member
    cases scope with
    | zero =>
        simp only [initial, Forest.own, List.getElem?_toArray, List.getElem?_cons_zero,
          List.mem_cons, List.not_mem_nil, or_false] at member
        subst member
        trivial
    | succ scope => simp [initial, Forest.own] at member
  rooted := by
    refine ⟨rfl, ?_⟩
    intro scope later made
    change scope < 1 at made
    omega

def planting : Discipline :=
  { scoping with fine := Planted }

theorem planting_kept : planting.Kept where
  steady_refl := scoping_kept.steady_refl
  steady_trans := scoping_kept.steady_trans
  grows_of_steady := scoping_kept.grows_of_steady
  grows_trans := scoping_kept.grows_trans
  good_grows := scoping_kept.good_grows
  scope_grows := scoping_kept.scope_grows
  simple := scoping_kept.simple
  counts counts planted := by
    obtain ⟨steady, kept⟩ := scoping_kept.counts counts planted.toScoped
    exact ⟨steady, kept, counts.scopes ▸ planted.rooted⟩
  current planted := planted.current
  found planted := scoping_kept.found planted.toScoped
  callee := scoping_kept.callee
  closure planted := scoping_kept.closure planted.toScoped
  assign planted inside found :=
    ⟨(scoping_kept.assign planted.toScoped inside found).1, planted.bound inside _ _⟩
  define planted inside :=
    ⟨(scoping_kept.define planted.toScoped inside).1, planted.bound inside _ _⟩
  enter planted made inside := planted.entered inside made
  leave planted grown after := by
    obtain ⟨larger, kept, carried⟩ := scoping_kept.leave planted.toScoped grown after.toScoped
    exact ⟨larger, ⟨kept, after.rooted⟩, carried⟩
  deepen planted := ⟨⟨⟨planted.current, planted.values⟩, planted.rooted⟩, id, id⟩
  rise _ grown after := ⟨grown, ⟨⟨after.current, after.values⟩, after.rooted⟩, id⟩

end State

structure Moment.Held (moment : Moment) : Prop where
  planted : moment.state.Planted
  values : ∀ value ∈ moment.values, value.Inside moment.state.scopes.size

namespace Moment

variable {settings : Settings} {moment later : Moment}

theorem Held.grown (held : moment.Held) {after : State} (planted : after.Planted)
    (grown : moment.state.scopes.size ≤ after.scopes.size) : Held ⟨after, moment.values⟩ where
  planted := planted
  values value member := (held.values value member).mono grown

theorem Held.given (held : moment.Held) {value : Value}
    (inside : value.Inside moment.state.scopes.size) :
    Held ⟨moment.state, value :: moment.values⟩ where
  planted := held.planted
  values := List.forall_mem_cons.2 ⟨inside, held.values⟩

theorem held_initial : initial.Held where
  planted := State.planted_initial
  values := nofun

theorem Next.held (next : Next settings moment later) (held : moment.Held) : later.Held := by
  have kept := State.planting_kept
  cases next with
  | @executed state _ values budget tree ended =>
      have ends := (kept.execute settings budget tree state held.planted).of_state? ended
      exact held.grown ends.2 ends.1
  | @evaluated state _ values value budget tree ended =>
      have ends := kept.evaluate settings budget tree state held.planted
      rw [ended] at ends
      obtain ⟨grown, planted, inside⟩ := ends
      exact (held.grown planted grown).given inside
  | @evaluationFailed state _ values _ budget tree ended =>
      have ends := kept.evaluate settings budget tree state held.planted
      rw [ended] at ends
      exact held.grown ends.2 ends.1
  | @called state _ values arguments callee value budget calleeHeld passed ended =>
      have ends := kept.invoke settings budget held.planted (held.values _ calleeHeld)
        fun argument member => held.values argument (passed member)
      rw [ended] at ends
      obtain ⟨grown, planted, inside⟩ := ends
      exact (held.grown planted grown).given inside
  | @callFailed state _ values arguments callee _ budget calleeHeld passed ended =>
      have ends := kept.invoke settings budget held.planted (held.values _ calleeHeld)
        fun argument member => held.values argument (passed member)
      rw [ended] at ends
      exact held.grown ends.2 ends.1
  | traced trace =>
      have planted := held.planted
      exact held.grown ⟨⟨planted.current, planted.values⟩, planted.rooted⟩ (Nat.le_refl _)
  | @made state values value simple => exact held.given (State.scoping_kept.simple simple)
  | read bound => exact held.given (held.planted.values _ _ bound)
  | @entered state values enclosing bindings made bound =>
      have inside : ∀ entry ∈ bindings, entry.2.Inside state.scopes.size :=
        fun entry member => held.values _ (bound entry member)
      exact held.grown (held.planted.entered inside made) (by simp [State.entered])
  | moved callDepth made =>
      have planted := held.planted
      exact held.grown ⟨⟨made, planted.values⟩, planted.rooted⟩ (Nat.le_refl _)

theorem Later.held (goesOn : Later settings moment later) (held : moment.Held) : later.Held := by
  induction goesOn with
  | refl => exact held
  | tail _ next ih => exact next.held ih

end Moment

namespace Reachable

variable {settings : Settings} {state : State} {values : List Value}

theorem later (reachable : Reachable settings state values) :
    Moment.Later settings .initial ⟨state, values⟩ := by
  induction reachable with
  | initial => exact .refl
  | executed budget tree _ ended ih => exact ih.tail (.executed budget tree ended)
  | evaluated budget tree _ ended ih => exact ih.tail (.evaluated budget tree ended)
  | failed budget tree _ ended ih => exact ih.tail (.evaluationFailed budget tree ended)
  | traced trace _ ih => exact ih.tail (.traced trace)
  | block _ ih => exact ih.tail (.entered (ih.held Moment.held_initial).planted.current nofun)
  | @call state values arguments closure params bindings _ callee passed ended ih =>
      have held := ih.held Moment.held_initial
      have bound := (bindParams_done ended).2
      refine (ih.tail (.moved (state.callDepth + 1) held.planted.current)).tail
        (.entered (held.values _ callee) fun entry member => ?_)
      exact passed ((bound entry member).resolve_right List.not_mem_nil)
  | hostCall _ callee passed ended ih =>
      have held := ih.held Moment.held_initial
      have bound := (bindParams_done ended).2
      refine ih.tail (.entered (held.values _ callee) fun entry member => ?_)
      exact passed ((bound entry member).resolve_right List.not_mem_nil)

theorem held (reachable : Reachable settings state values) :
    state.Scoped ∧ ∀ value ∈ values, value.Inside state.scopes.size := by
  have held := reachable.later.held Moment.held_initial
  exact ⟨held.planted.toScoped, held.values⟩

end Reachable

namespace State

theorem clock_mem_names {settings : Settings} {moment : Moment}
    (reached : Moment.Later settings .initial moment) :
    Name.ofString "clock" ∈ moment.state.scopes.names globalScope :=
  (reached.grown.named globalScope).subset (List.mem_singleton.2 rfl)

/-- The scopes of a machine that has run anything form a tree that is rooted in the global
scope.  Links never change and lead to earlier scopes, so that look-ups come to an end, and
global names are seen from everywhere unless another scope hides them. -/
theorem scopes_rooted {settings : Settings} {moment : Moment}
    (reached : Moment.Later settings .initial moment) :
    (∀ later, Moment.Later settings moment later → ∀ scope < moment.state.scopes.size,
      later.state.scopes.link? scope = moment.state.scopes.link? scope) ∧
    (∀ scope outer, moment.state.scopes.link? scope = some outer → outer < scope) ∧
    moment.state.scopes.EndsIn moment.state.current globalScope ∧
    (∀ holder name closure, (name, .function closure) ∈ moment.state.scopes.own holder →
      moment.state.scopes.EndsIn closure.scope globalScope) ∧
    (∀ closure, .function closure ∈ moment.values →
      moment.state.scopes.EndsIn closure.scope globalScope) ∧
    (WellFounded fun outer scope => moment.state.scopes.link? scope = some outer) ∧
    (∀ scope, moment.state.scopes.enclosing? scope = moment.state.scopes.link? scope ∧
      (moment.state.scopes.chain scope).length = moment.state.scopes.depth scope + 1 ∧
      ∀ name, moment.state.scopes.find? scope name =
        (moment.state.scopes.chain scope).find? fun holder =>
          (moment.state.scopes.own holder).binds name) ∧
    .ofString "clock" ∈ moment.state.scopes.names globalScope ∧
    ∀ scope < moment.state.scopes.size, ∀ name ∈ moment.state.scopes.names globalScope,
      (moment.state.scopes.get? scope name).isSome ∧
      ((∀ inner ∈ moment.state.scopes.chain scope, inner ≠ globalScope →
          name ∉ moment.state.scopes.names inner) →
        moment.state.scopes.get? scope name = moment.state.scopes.get? globalScope name) := by
  have held := reached.held Moment.held_initial
  have rooted := held.planted.rooted
  refine ⟨?_, fun _ _ => rooted.lt_of_link?, rooted.endsIn held.planted.current, ?_, ?_,
    rooted.wellFounded, ?_, clock_mem_names reached, ?_⟩
  · intro later goesOn
    exact goesOn.grown.linked
  · intro holder name closure bound
    have inside : (Value.function closure).Inside moment.state.scopes.size :=
      held.planted.values holder _ bound
    exact rooted.endsIn inside
  · intro closure atHand
    have inside : (Value.function closure).Inside moment.state.scopes.size :=
      held.values _ atHand
    exact rooted.endsIn inside
  · intro scope
    exact ⟨rooted.enclosing?_eq_link? scope, Forest.length_chain scope,
      Forest.find?_eq_find?_chain scope⟩
  · intro scope made name named
    have bound := Forest.mem_names.1 named
    constructor
    · rw [Forest.isSome_get?]
      exact rooted.isSome_find? made bound
    · intro bare
      have hidden : ∀ inner ∈ moment.state.scopes.chain scope, inner ≠ 0 →
          (moment.state.scopes.own inner).binds name = false := by
        intro inner passed different
        exact Bool.not_eq_true _ ▸ fun binds =>
          bare inner passed different (Forest.mem_names.2 binds)
      unfold Forest.get?
      rw [rooted.find?_eq_root made bound hidden, Forest.find?_of_binds bound]
      rfl

/-- After the block `{ fun f() {} }` the scope of the block, in which `f` was declared, is
still enclosed by the global one. -/
theorem scopes_rooted_block :
    ∃ (after : State) (closure : Closure),
      Moment.Later ⟨0, fun _ => none⟩ .initial ⟨after, []⟩ ∧
      closure.scope = 1 ∧ (.ofString "f", .function closure) ∈ after.scopes.own 1 ∧
      after.scopes.EndsIn closure.scope globalScope ∧
      (after.scopes.get? 1 (.ofString "clock")).isSome := by
  let closure : Closure := ⟨"f", .list [], .list [], 1, 0⟩
  let after : State := { initial with
    scopes := initial.scopes.push ⟨some 0, [(.ofString "f", .function closure)]⟩
    functions := 1 }
  have ended : (Tree.execute ⟨0, fun _ => none⟩ 8
      (.block (.list [.function (Token.toTree ⟨.identifier, "f", 1, .nil⟩) (.list []) (.list [])]))
      initial).state? = some after := rfl
  have reached : Moment.Later ⟨0, fun _ => none⟩ .initial ⟨after, []⟩ :=
    .single (.executed 8 _ ended)
  have declared : (.ofString "f", .function closure) ∈ after.scopes.own 1 :=
    List.mem_singleton.2 rfl
  obtain ⟨-, -, -, functions, -, -, -, clock, global⟩ := scopes_rooted reached
  exact ⟨after, closure, reached, rfl, declared, functions 1 _ closure declared,
    (global 1 (by decide) _ clock).1⟩

end State

end Lox
