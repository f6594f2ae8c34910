import Lox.Proofs.Run.Layout

/-!
Machines whose scopes are laid out differently run alike: scopes that bind nothing make
no difference.
-/

namespace Lox

namespace Likeness

@[reducible] def padding (slack lag : Prop) : Likeness where
  World := Layout
  carries := Layout.Extends
  steady := Layout.Advances
  grows := Layout.Advances
  states := Layout.Fits
  values := Layout.Values
  scopes layout scope other := scope < layout.size ∧ other = layout.home scope
  failures := Eq
  declares layout := layout.real layout.current
  atTop _ := True
  exprs := Eq
  stmts := Eq
  params := Eq
  bodies := Eq
  constants := Eq
  sites := Eq
  returns := Eq
  unaryOperators := Eq
  binaryOperators := Eq
  logicalOperators := Eq
  lexemes _ := True
  slack := slack
  lag := lag

namespace Padding

variable {slack lag : Prop} {layout : Layout} {α : Type}

theorem reflexive : (padding slack lag).Reflexive := by
  constructor <;> intro _ <;> rfl

theorem bound_moved {bindings others : Bindings Value}
    (bound : (padding slack lag).Bound layout bindings others) :
    others = bindings.moved layout.home ∧ ∀ entry ∈ bindings, entry.2.Inside layout.size := by
  induction bound with
  | nil => exact ⟨rfl, by simp⟩
  | @cons entry other _ _ same _ ih =>
      obtain ⟨nameEq, inside, valueEq⟩ := same
      obtain ⟨rfl, others⟩ := ih
      exact ⟨congrArg (· :: _) (Prod.ext nameEq.symm valueEq),
        List.forall_mem_cons.2 ⟨inside, others⟩⟩

theorem callees {first second : Value} (found : layout.Values first second) :
    (∃ closure closure', first = .function closure ∧ second = .function closure' ∧
      (padding slack lag).Callees layout closure closure') ∨
    (∀ closure, first ≠ .function closure) ∧ ∀ closure, second ≠ .function closure := by
  obtain ⟨inside, rfl⟩ := found
  cases first with
  | function closure =>
      exact .inl ⟨closure, _, rfl, rfl, ⟨inside, rfl⟩, reflexive.sequence (fun _ => rfl) _,
        reflexive.sequence (fun _ => rfl) _⟩
  | _ => exact .inr ⟨nofun, nofun⟩

theorem alike_fixed {form : α → Prop} {step : Run α} {related : Layout → α → α → Prop}
    (fixed : Run.Fixed form step) (formed : ∀ value, form value → related layout value value) :
    (padding slack lag).Alike Layout.Advances layout related step step :=
  Likeness.alike_fixed fixed (.refl layout) (fun _ => rfl) formed

theorem alike_same {form : α → Prop} {step : Run α} (fixed : Run.Fixed form step) :
    (padding slack lag).Alike Layout.Advances layout (fun _ => Eq) step step :=
  alike_fixed fixed fun _ _ => rfl

theorem alike_lookup (site : Tree) :
    (padding slack lag).Alike Layout.Advances layout Layout.Values
      (Run.lookup site) (Run.lookup site) := by
  refine (alike_same (Run.fixed_lexeme site)).bind .trans ?_
  rintro middle lexeme _ - rfl
  refine (alike_same (Run.fixed_name lexeme)).bind .trans ?_
  rintro layout name _ - rfl state other fits
  dsimp only
  rw [fits.current, fits.otherCurrent, fits.get? name layout.current_lt]
  cases found : state.scopes.get? layout.current name with
  | none =>
      exact alike_fixed (Run.fixed_undefined (fun _ => False) site) (fun _ => False.elim) _ _ fits
  | some value =>
      obtain ⟨holder, member⟩ := Forest.mem_own_of_get? found
      exact .done layout (.refl layout) fits ⟨fits.inside holder _ member, rfl⟩

theorem alike_assign (site : Tree) {value value' : Value}
    (found : layout.Values value value') :
    (padding slack lag).Alike Layout.Advances layout (fun _ _ _ => True) (Run.assign site value)
      (Run.assign site value') := by
  refine (alike_same (Run.fixed_lexeme site)).bind .trans ?_
  rintro spelled lexeme _ first rfl
  refine (alike_same (Run.fixed_name lexeme)).bind .trans ?_
  rintro layout name _ second rfl state other fits
  obtain ⟨inside, rfl⟩ := found.carry (first.trans second).kept
  obtain ⟨held, same⟩ := fits.find?_current name
  dsimp only
  rw [same]
  cases found : state.scopes.find? state.current name with
  | none =>
      exact alike_fixed (Run.fixed_undefined (fun _ => False) site) (fun _ => False.elim) _ _ fits
  | some holder =>
      obtain ⟨holderInside, isReal⟩ := held holder found
      exact .done layout (.refl layout) (fits.bound holderInside isReal name inside) trivial

theorem alike_readClock (settings : Settings) :
    (padding slack lag).Alike Layout.Advances layout Layout.Values
      (Run.readClock settings) (Run.readClock settings) := by
  intro state other fits
  unfold Run.readClock
  rw [fits.clockReads]
  split
  · exact .done layout (.refl layout) { fits with clockReads := rfl }
      (.simple nofun)
  · exact .failed layout (.refl layout) fits rfl

theorem alike_traceAt (settings : Settings) (level : Nat) (message : Text) :
    (padding slack lag).Alike Layout.Advances layout (fun _ _ _ => True)
      (Run.traceAt settings level message) (Run.traceAt settings level message) := by
  intro state other fits
  obtain ⟨trace, traced⟩ := Run.traceAt_done settings level message state
  obtain ⟨otherTrace, otherTraced⟩ := Run.traceAt_done settings level message other
  rw [traced, otherTraced]
  exact .done layout (.refl layout) { fits with } trivial

theorem alike_traceFunction (settings : Settings) {closure closure' : Closure}
    (found : layout.Values (.function closure) (.function closure')) :
    (padding slack lag).Alike Layout.Advances layout (fun _ _ _ => True)
      (Run.traceFunction settings closure) (Run.traceFunction settings closure') := by
  obtain ⟨-, same⟩ := found
  cases same
  have arity : Closure.arity? { closure with scope := layout.home closure.scope } =
      closure.arity? := rfl
  have still := Layout.Advances.refl layout
  unfold Run.traceFunction
  rw [arity]
  by_cases traced : 2 ≤ settings.traceLevel
  · rw [if_pos traced]
    cases closure.arity? with
    | none => exact alike_fail still rfl
    | some arity => exact fun _ _ fits => .done layout still { fits with } trivial
  · rw [if_neg traced]
    exact alike_pure still trivial

theorem ends_left {inner : Layout} (kept : layout.Extends inner) {first second : Result Flow}
    (ends : (padding slack lag).Ends Layout.Advances inner (padding slack lag).Flows
      first second) :
    (padding slack lag).Ends Layout.Advances layout (padding slack lag).Flows
      (first.mapState fun after => { after with current := layout.current })
      (second.mapState fun after => { after with current := layout.home layout.current }) := by
  refine ends.mapState fun {after _ _} moved fits => ?_
  have old := kept.trans moved.kept
  exact ⟨layout.back after old, Layout.advances_back old, fits.back old,
    fun flows => flows.mono fun found => ⟨found.inside, found.moved⟩⟩

theorem alike_inScope {scope : Nat} {bindings : Bindings Value} {body body' : Run Flow}
    (inside : scope < layout.size)
    (bindingsInside : ∀ entry ∈ bindings, entry.2.Inside layout.size)
    (alike : (padding slack lag).Alike Layout.Advances layout.entered
      (padding slack lag).Flows body body') :
    (padding slack lag).Alike Layout.Advances layout (padding slack lag).Flows
      (Run.inScope scope bindings body)
      (Run.inScope (layout.home scope) (bindings.moved layout.home) body') := by
  intro state other fits
  have ends := alike _ _ (fits.entered inside bindingsInside)
  unfold Run.inScope
  dsimp only
  rw [fits.current, fits.otherCurrent]
  exact ends_left layout.extends_entered ends

theorem ends_unpadded {first second : Result Flow}
    (ends : (padding slack lag).Ends Layout.Advances layout.padded (padding slack lag).Flows
      first second) :
    (padding slack lag).Ends Layout.Advances layout (padding slack lag).Flows
      (first.mapState fun after => { after with current := layout.current }) second := by
  rw [← Result.mapState_id second]
  refine ends.mapState fun {after _ other} moved fits => ?_
  have old := layout.extends_padded.trans moved.kept
  -- the second machine never left the scope in which the new one is at home
  have stayed : other.current = layout.home layout.current := by
    rw [fits.otherCurrent, moved.current, moved.kept.home _ layout.padded.current_lt]
    exact Function.update_self ..
  have back := fits.back old
  rw [← stayed] at back
  exact ⟨layout.back after old, Layout.advances_back old, back,
    fun flows => flows.mono fun found => ⟨found.inside, found.moved⟩⟩

theorem alike_padded {body body' : Run Flow}
    (alike : (padding slack lag).Alike Layout.Advances layout.padded
      (padding slack lag).Flows body body') :
    (padding slack lag).Alike Layout.Advances layout (padding slack lag).Flows
      (Run.currentScope >>= fun scope => Run.inScope scope [] body) body' := by
  intro state other fits
  have ends := alike _ _ fits.padded
  change (padding slack lag).Ends Layout.Advances layout (padding slack lag).Flows
    ((body (state.entered state.current [])).mapState state.left) (body' other)
  unfold State.left
  rw [fits.current] at ends ⊢
  exact ends_unpadded ends

theorem alike_inCall {body body' : Run Value}
    (alike : (padding slack lag).Alike Layout.Advances layout Layout.Values
      body body') :
    (padding slack lag).Alike Layout.Advances layout Layout.Values
      (Run.inCall body) (Run.inCall body') := by
  intro state other fits
  have deeper : layout.Fits state.deepened other.deepened :=
    { fits with callDepth := congrArg (· + 1) fits.callDepth }
  have ends := alike _ _ deeper
  change (padding slack lag).Ends Layout.Advances layout Layout.Values
    ((body state.deepened).mapState State.raised) ((body' other.deepened).mapState State.raised)
  refine ends.mapState fun {after _ _} moved fits => ?_
  exact ⟨after, moved, { fits with callDepth := congrArg (· - 1) fits.callDepth }, id⟩

variable (slack lag) in
theorem lawful (settings : Settings) : (padding slack lag).Lawful settings settings where
  steady_refl := .refl _
  steady_trans := .trans
  grows_of_steady := id
  grows_trans := .trans
  carries_of_grows := Layout.Advances.kept
  values_carry kept found := found.carry kept
  scopes_carry kept found :=
    ⟨Nat.lt_of_lt_of_le found.1 kept.size, found.2.trans (kept.home _ found.1).symm⟩
  declares_grow {layout after} moved isReal := by
    have same := moved.kept.real _ layout.current_lt
    rw [← moved.current] at same
    exact same.2 (moved.current ▸ isReal)
  expr_fits same := same ▸ reflexive.exprFits _
  stmt_fits same := same ▸ reflexive.stmtFits _
  nil := .simple nofun
  constant := by
    rintro layout tree _ rfl
    refine .simple ?_
    cases tree <;> exact nofun
  truthy found := by rw [found.moved, Value.isTruthy_moved]
  display found := by rw [found.moved, Value.display_moved]
  typeName found := by rw [found.moved, Value.typeName_moved]
  callable found := by rw [found.moved, Value.callable?_moved]
  arity _ _ := rfl
  callees := callees
  unary := by
    rintro layout operator _ operand _ rfl ⟨-, rfl⟩
    simp only [Operator.unary_moved]
    exact alike_fixed (Run.fixed_applyUnary operator operand) fun _ => .simple
  binary := by
    rintro layout operator _ left _ right _ rfl ⟨-, rfl⟩ ⟨-, rfl⟩
    simp only [Operator.binary_moved]
    exact alike_fixed (Run.fixed_applyBinary operator left right) fun _ => .simple
  logical := by
    rintro layout operator _ rfl
    exact alike_fixed (Run.fixed_token operator) fun _ _ => rfl
  lexeme := by
    rintro layout site _ rfl
    exact alike_fixed (Run.fixed_lexeme site) fun _ _ => ⟨rfl, trivial⟩
  name := by
    rintro layout lexeme -
    exact alike_same (Run.fixed_name lexeme)
  lookup := by
    rintro layout site _ rfl
    exact alike_lookup site
  assign := by
    rintro layout site _ value _ rfl found
    exact alike_assign site found
  define := by
    rintro layout name value _ isReal ⟨inside, rfl⟩ state other fits
    have bound := fits.bound layout.current_lt isReal name inside
    rw [← fits.otherCurrent, ← fits.current] at bound
    exact .done layout (.refl layout) bound trivial
  close := by
    rintro layout name params _ body _ - rfl rfl state other fits
    refine .done layout (.refl layout)
      { fits with functions := congrArg (· + 1) fits.functions } ⟨?_, ?_⟩
    · change state.current < layout.size
      rw [fits.current]
      exact layout.current_lt
    · rw [fits.functions, fits.otherCurrent, fits.current]
      rfl
  printLine line state other fits :=
    .done _ (.refl _) { fits with printed := congrArg (·.push line) fits.printed } trivial
  readClock := alike_readClock settings
  traceAt := alike_traceAt settings
  traceFunction := alike_traceFunction settings
  currentScope {layout} state other fits := by
    refine .done layout (.refl layout) fits ⟨?_, ?_⟩
    · rw [fits.current]
      exact layout.current_lt
    · rw [fits.otherCurrent, fits.current]
  callDepth {layout} state other fits := by
    refine .done layout (.refl layout) fits ⟨?_, fun _ => trivial⟩
    rw [fits.callDepth]
  raise := by
    rintro layout site _ message rfl -
    exact alike_fixed (Run.fixed_raise (fun _ => False) site message) fun _ => False.elim
  topReturn := by
    rintro layout site _ rfl -
    exact alike_fixed (Run.fixed_raise (fun _ => False) site _) fun _ => False.elim
  unsupported := by
    rintro layout site _ feature α related rfl -
    exact alike_fixed (Run.fixed_unsupported (fun _ => False) site feature) fun _ => False.elim
  inScope := by
    rintro layout scope _ bindings bindings' body body' ⟨inside, rfl⟩ bound alike
    obtain ⟨rfl, bindingsInside⟩ := bound_moved bound
    exact alike_inScope inside bindingsInside (alike (.inl rfl))
  inCall alike := alike_inCall (alike (.refl _))

end Padding

end Likeness

end Lox
