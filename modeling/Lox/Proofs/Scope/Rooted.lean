import Lox.Proofs.Scope
import Mathlib.Data.List.Chain
import Mathlib.Tactic.ByContra

/-!
The way out of a scope.  Look-ups go along chains of scopes, and in a tree of scopes every
chain ends in the first one.
-/

namespace Lox.Forest

variable {α : Type} {forest : Forest α}

theorem chain_outward {scope outer : Nat} (linked : forest.enclosing? scope = some outer) :
    forest.chain scope = scope :: forest.chain outer := by
  rw [chain]
  split
  · next found =>
    rw [linked] at found
    rw [Option.some.inj found]
  · next missing => simp [linked] at missing

theorem chain_outermost {scope : Nat} (outermost : forest.enclosing? scope = none) :
    forest.chain scope = [scope] := by
  rw [chain]
  split
  · next found => simp [outermost] at found
  · rfl

theorem head?_chain (scope : Nat) : (forest.chain scope).head? = some scope := by
  cases linked : forest.enclosing? scope with
  | none => rw [chain_outermost linked, List.head?_cons]
  | some outer => rw [chain_outward linked, List.head?_cons]

theorem find?_eq_find?_chain (scope : Nat) (name : Name) :
    forest.find? scope name =
      (forest.chain scope).find? fun holder => (forest.own holder).binds name := by
  induction scope using Nat.strongRecOn with
  | ind scope ih =>
      cases binds : (forest.own scope).binds name with
      | true =>
          rw [find?_of_binds binds]
          cases linked : forest.enclosing? scope with
          | none => simp [chain_outermost linked, binds]
          | some outer => simp [chain_outward linked, binds]
      | false =>
          cases linked : forest.enclosing? scope with
          | none => simp [find?_outermost binds linked, chain_outermost linked, binds]
          | some outer =>
              rw [find?_outward binds linked, chain_outward linked,
                List.find?_cons_of_neg (by simp [binds])]
              exact ih outer (lt_of_enclosing? linked)

theorem length_chain (scope : Nat) :
    (forest.chain scope).length = forest.depth scope + 1 := by
  induction scope using Nat.strongRecOn with
  | ind scope ih =>
      rw [depth]
      split
      · next outer linked =>
        rw [chain_outward linked, List.length_cons, ih outer (lt_of_enclosing? linked)]
      · next outermost => rw [chain_outermost outermost, List.length_singleton]

theorem last_chain (scope : Nat) :
    ∃ last, (forest.chain scope).getLast? = some last ∧ forest.enclosing? last = none := by
  induction scope using Nat.strongRecOn with
  | ind scope ih =>
      cases linked : forest.enclosing? scope with
      | none => exact ⟨scope, by rw [chain_outermost linked, List.getLast?_singleton], linked⟩
      | some outer =>
          obtain ⟨last, ends, outermost⟩ := ih outer (lt_of_enclosing? linked)
          refine ⟨last, ?_, outermost⟩
          rw [chain_outward linked, List.getLast?_cons, ends]
          rfl

/-- The links out of a scope, one after the other, end in the given scope, which has none. -/
structure EndsIn (forest : Forest α) (scope root : Nat) : Prop where
  first : (forest.chain scope).head? = some scope
  linked : (forest.chain scope).IsChain fun inner outer => forest.link? inner = some outer
  last : (forest.chain scope).getLast? = some root
  outermost : forest.link? root = none

def Descending (forest : Forest α) : Prop :=
  ∀ scope outer, forest.link? scope = some outer → outer < scope

namespace Descending

theorem enclosing?_eq_link? (descending : forest.Descending) (scope : Nat) :
    forest.enclosing? scope = forest.link? scope := by
  rw [enclosing?_eq]
  cases linked : forest.link? scope with
  | none => rfl
  | some outer => simp [Option.filter, descending scope outer linked]

theorem wellFounded (descending : forest.Descending) :
    WellFounded fun outer scope => forest.link? scope = some outer :=
  Subrelation.wf (descending _ _) Nat.lt_wfRel.wf

theorem isChain_chain (descending : forest.Descending) (scope : Nat) :
    (forest.chain scope).IsChain fun inner outer => forest.link? inner = some outer := by
  induction scope using Nat.strongRecOn with
  | ind scope ih =>
      cases linked : forest.enclosing? scope with
      | none =>
          rw [chain_outermost linked]
          exact .singleton scope
      | some outer =>
          rw [chain_outward linked, List.isChain_cons]
          refine ⟨?_, ih outer (lt_of_enclosing? linked)⟩
          intro next first
          rw [head?_chain] at first
          cases first
          rw [← descending.enclosing?_eq_link?, linked]

theorem exists_endsIn (descending : forest.Descending) (scope : Nat) :
    ∃ root, forest.EndsIn scope root := by
  obtain ⟨root, last, outermost⟩ := forest.last_chain scope
  rw [descending.enclosing?_eq_link?] at outermost
  exact ⟨root, head?_chain scope, descending.isChain_chain scope, last, outermost⟩

theorem define (descending : forest.Descending) (scope : Nat) (name : Name) (value : α) :
    (forest.define scope name value).Descending := by
  intro other outer linked
  rw [link?_define] at linked
  exact descending other outer linked

end Descending

/-- The scopes form a tree: the first one is outermost, and each other one was made in an
earlier one. -/
structure Rooted (forest : Forest α) : Prop where
  outermost : forest.link? 0 = none
  linked : ∀ scope, 0 < scope → scope < forest.size →
    ∃ outer < scope, forest.link? scope = some outer

namespace Rooted

theorem lt_of_link? (rooted : forest.Rooted) {scope outer : Nat}
    (linked : forest.link? scope = some outer) : outer < scope := by
  by_cases first : scope = 0
  · subst first
    rw [rooted.outermost] at linked
    cases linked
  · by_cases made : scope < forest.size
    · obtain ⟨other, earlier, found⟩ := rooted.linked scope (by omega) made
      rw [linked] at found
      cases found
      exact earlier
    · have outside : forest.size ≤ scope := by omega
      simp [link?, outside] at linked

theorem descending (rooted : forest.Rooted) : forest.Descending :=
  fun _ _ => rooted.lt_of_link?

theorem enclosing?_eq_link? (rooted : forest.Rooted) (scope : Nat) :
    forest.enclosing? scope = forest.link? scope :=
  rooted.descending.enclosing?_eq_link? scope

theorem wellFounded (rooted : forest.Rooted) :
    WellFounded fun outer scope => forest.link? scope = some outer :=
  rooted.descending.wellFounded

theorem isChain_chain (rooted : forest.Rooted) (scope : Nat) :
    (forest.chain scope).IsChain fun inner outer => forest.link? inner = some outer :=
  rooted.descending.isChain_chain scope

theorem getLast?_chain (rooted : forest.Rooted) {scope : Nat} (made : scope < forest.size) :
    (forest.chain scope).getLast? = some 0 := by
  induction scope using Nat.strongRecOn with
  | ind scope ih =>
      cases linked : forest.enclosing? scope with
      | none =>
          have first : scope = 0 := by
            by_contra later
            obtain ⟨outer, earlier, found⟩ := rooted.linked scope (by omega) made
            rw [rooted.enclosing?_eq_link?, found] at linked
            cases linked
          rw [chain_outermost linked, first, List.getLast?_singleton]
      | some outer =>
          have earlier := lt_of_enclosing? linked
          have outerChain := ih outer earlier (Nat.lt_trans earlier made)
          rw [chain_outward linked, List.getLast?_cons, outerChain]
          rfl

theorem endsIn (rooted : forest.Rooted) {scope : Nat} (made : scope < forest.size) :
    forest.EndsIn scope 0 where
  first := head?_chain scope
  linked := rooted.isChain_chain scope
  last := rooted.getLast?_chain made
  outermost := rooted.outermost

/-- A name of the first scope that no scope on the way hides is found there. -/
theorem find?_eq_root (rooted : forest.Rooted) {scope : Nat} (made : scope < forest.size)
    {name : Name} (bound : (forest.own 0).binds name = true)
    (bare : ∀ inner ∈ forest.chain scope, inner ≠ 0 → (forest.own inner).binds name = false) :
    forest.find? scope name = some 0 := by
  obtain ⟨before, chainEq⟩ := List.getLast?_eq_some_iff.1 (rooted.getLast?_chain made)
  rw [find?_eq_find?_chain]
  cases found : (forest.chain scope).find? fun holder => (forest.own holder).binds name with
  | none =>
      have missing := List.find?_eq_none.1 found 0 (by rw [chainEq]; simp)
      exact absurd bound missing
  | some holder =>
      have binds := List.find?_some found
      by_contra different
      have inner : holder ≠ 0 := fun same => different (congrArg some same)
      rw [bare holder (List.mem_of_find?_eq_some found) inner] at binds
      cases binds

theorem isSome_find? (rooted : forest.Rooted) {scope : Nat} (made : scope < forest.size)
    {name : Name} (bound : (forest.own 0).binds name = true) :
    (forest.find? scope name).isSome := by
  obtain ⟨before, chainEq⟩ := List.getLast?_eq_some_iff.1 (rooted.getLast?_chain made)
  rw [find?_eq_find?_chain, List.find?_isSome]
  exact ⟨0, by rw [chainEq]; simp, bound⟩

theorem define (rooted : forest.Rooted) (scope : Nat) (name : Name) (value : α) :
    (forest.define scope name value).Rooted where
  outermost := by
    rw [link?_define]
    exact rooted.outermost
  linked other later made := by
    rw [size_define] at made
    rw [link?_define]
    exact rooted.linked other later made

theorem push (rooted : forest.Rooted) {enclosing : Nat} (made : enclosing < forest.size)
    (bindings : Bindings α) : Rooted (forest.push ⟨some enclosing, bindings⟩) where
  outermost := by
    rw [link?_push_of_ne _ (by omega)]
    exact rooted.outermost
  linked scope later inside := by
    by_cases fresh : scope = forest.size
    · subst fresh
      exact ⟨enclosing, made, link?_push_size enclosing bindings⟩
    · rw [link?_push_of_ne _ fresh]
      rw [Array.size_push] at inside
      exact rooted.linked scope later (by omega)

end Rooted

end Lox.Forest
