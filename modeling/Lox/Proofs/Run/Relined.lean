import Lox.Proofs.Run.Discipline
import Lox.Proofs.Scope
import Lox.Proofs.Tree.Relined

/-!
Machines whose programs stand on other lines run alike: lines are only reported.
-/

namespace Lox

namespace Bindings

variable {related : Value → Value → Prop} {bindings others : Bindings Value}

theorem binds_of_forall₂
    (bound : List.Forall₂ (fun first second => first.1 = second.1 ∧ related first.2 second.2)
      bindings others) (name : Name) : others.binds name = bindings.binds name := by
  induction bound with
  | nil => rfl
  | cons same _ ih =>
      unfold binds at ih ⊢
      rw [List.any_cons, List.any_cons, ih, same.1]

theorem get?_of_forall₂
    (bound : List.Forall₂ (fun first second => first.1 = second.1 ∧ related first.2 second.2)
      bindings others) (name : Name) :
    Option.Rel related (bindings.get? name) (others.get? name) := by
  induction bound with
  | nil => exact .none
  | @cons first second _ _ same _ ih =>
      obtain ⟨key, value⟩ := first
      obtain ⟨otherKey, other⟩ := second
      obtain ⟨rfl, found⟩ := same
      simp only [get?, List.lookup_cons] at ih ⊢
      cases name == key with
      | true => exact .some found
      | false => exact ih

end Bindings

/-- The two states differ in the lines of the functions they hold, and in the trace. -/
structure State.Relined (allowed : (Int → Int) → Prop) (state other : State) : Prop where
  size : other.scopes.size = state.scopes.size
  linked : ∀ scope, other.scopes.enclosing? scope = state.scopes.enclosing? scope
  own : ∀ scope, List.Forall₂
    (fun first second => first.1 = second.1 ∧ Value.Moved allowed first.2 second.2)
    (state.scopes.own scope) (other.scopes.own scope)
  current : other.current = state.current
  callDepth : other.callDepth = state.callDepth
  functions : other.functions = state.functions
  clockReads : other.clockReads = state.clockReads
  printed : other.printed = state.printed

namespace Likeness

@[reducible] def relining (allowed : (Int → Int) → Prop) (slack lag : Prop) : Likeness where
  World := Unit
  carries _ _ := True
  steady _ _ := True
  grows _ _ := True
  states _ := State.Relined allowed
  values _ := Value.Moved allowed
  scopes _ := Eq
  failures := Upto allowed Failure.relined
  declares _ := True
  atTop _ := True
  exprs := Upto allowed Tree.relined
  stmts := Upto allowed Tree.relined
  params := Upto allowed Tree.relined
  bodies := Upto allowed Tree.relined
  constants := Eq
  sites := Upto allowed Tree.relined
  returns := Upto allowed Tree.relined
  unaryOperators := Upto allowed Tree.relined
  binaryOperators := Upto allowed Tree.relined
  logicalOperators := Upto allowed Tree.relined
  lexemes _ := True
  slack := slack
  lag := lag

end Likeness

namespace State.Relined

variable {allowed : (Int → Int) → Prop} {state other : State}

theorem find? (relined : Relined allowed state other) (name : Name) :
    other.scopes.find? other.current name = state.scopes.find? state.current name := by
  rw [relined.current]
  exact Forest.find?_congr relined.linked
    (fun scope => Bindings.binds_of_forall₂ (relined.own scope) name) _

theorem get? (relined : Relined allowed state other) (name : Name) :
    Option.Rel (Value.Moved allowed) (state.scopes.get? state.current name)
      (other.scopes.get? other.current name) := by
  unfold Forest.get?
  rw [relined.find?]
  cases state.scopes.find? state.current name with
  | none => exact .none
  | some holder => exact Bindings.get?_of_forall₂ (relined.own holder) name

theorem bound (relined : Relined allowed state other) (holder : Nat) (name : Name)
    {value value' : Value} (found : Value.Moved allowed value value') :
    Relined allowed (state.bound holder name value) (other.bound holder name value') :=
  { relined with
    size := by
      simp only [State.bound, Forest.size_define]
      exact relined.size
    linked := by
      intro scope
      simp only [State.bound, Forest.enclosing?_define]
      exact relined.linked scope
    own := by
      intro scope
      simp only [State.bound]
      by_cases same : holder = scope
      · subst same
        by_cases inside : holder < state.scopes.size
        · have otherInside : holder < other.scopes.size := by
            rw [relined.size]
            exact inside
          rw [Forest.own_define_self inside, Forest.own_define_self otherInside]
          exact @Likeness.Bound.define (.relining allowed False False) () _ _ (relined.own holder)
            name _ _ found
        · rw [Forest.own_of_size_le (by simpa using inside),
            Forest.own_of_size_le (by simpa [relined.size] using inside)]
          exact .nil
      · rw [Forest.own_define_of_ne same, Forest.own_define_of_ne same]
        exact relined.own scope }

theorem entered (relined : Relined allowed state other) (outer : Nat)
    {bindings others : Bindings Value}
    (bound : List.Forall₂
      (fun first second => first.1 = second.1 ∧ Value.Moved allowed first.2 second.2)
      bindings others) :
    Relined allowed (state.entered outer bindings) (other.entered outer others) := by
  have size := relined.size
  refine
    { relined with
      size := ?_
      linked := ?_
      own := ?_
      current := size }
  · simp only [State.entered, Array.size_push, size]
  · intro scope
    by_cases fresh : scope = state.scopes.size
    · simp only [State.entered, Forest.enclosing?, fresh, ← size, Array.getElem?_push_size]
      simp only [size, Array.getElem?_push_size, Option.bind_some]
    · simp only [State.entered]
      rw [Forest.enclosing?_push_of_ne _ fresh, Forest.enclosing?_push_of_ne _ (size ▸ fresh)]
      exact relined.linked scope
  · intro scope
    simp only [State.entered]
    by_cases fresh : scope = state.scopes.size
    · have otherFresh : scope = other.scopes.size := fresh.trans size.symm
      rw [otherFresh, Forest.own_push_size, size, Forest.own_push_size]
      exact bound
    · rw [Forest.own_push_of_ne _ fresh, Forest.own_push_of_ne _ (size ▸ fresh)]
      exact relined.own scope

end State.Relined

namespace Likeness

namespace Relining

variable {allowed : (Int → Int) → Prop} {slack lag : Prop} {α : Type} {world : Unit}

section Trees

variable {tree tree' : Tree} (moved : Upto allowed Tree.relined tree tree')
include moved

theorem sequence :
    (relining allowed slack lag).Sequence (Upto allowed Tree.relined) tree tree' := by
  obtain ⟨relabel, permitted, rfl⟩ := moved
  cases found : tree.elements? with
  | none => exact .strange found (by simp [found]) ⟨relabel, permitted, rfl⟩
  | some items =>
      refine .items found (by simp [found]; rfl) ?_
      rw [List.forall₂_map_right_iff, List.forall₂_same]
      exact fun item _ => ⟨relabel, permitted, rfl⟩

theorem optional : Optional (Upto allowed Tree.relined) tree tree' := by
  obtain ⟨relabel, permitted, rfl⟩ := moved
  exact ⟨by simp, fun _ => ⟨relabel, permitted, rfl⟩⟩

theorem expr_fits : (relining allowed slack lag).ExprFits tree tree' := by
  obtain ⟨relabel, permitted, rfl⟩ := moved
  have part (part : Tree) : Upto allowed Tree.relined part (part.relined relabel) :=
    ⟨relabel, permitted, rfl⟩
  cases tree with
  | literal => exact .literal rfl
  | grouping => exact .grouping (part _)
  | unary => exact .unary (part _) (part _)
  | binary => exact .binary (part _) (part _) (part _)
  | logical => exact .logical (part _) (part _) (part _)
  | ident => exact .ident (part _)
  | assign => exact .assign (part _) (part _)
  | call => exact .call (part _) (part _) (sequence (part _))
  | member => exact .member (part _)
  | setMember => exact .setMember (part _)
  | this => exact .this (part _)
  | super => exact .super (part _)
  | _ => exact .strange rfl rfl ⟨relabel, permitted, rfl⟩

theorem stmt_fits : (relining allowed slack lag).StmtFits tree tree' := by
  obtain ⟨relabel, permitted, rfl⟩ := moved
  have part (part : Tree) : Upto allowed Tree.relined part (part.relined relabel) :=
    ⟨relabel, permitted, rfl⟩
  cases tree with
  | expr => exact .expr (part _)
  | print => exact .print (part _)
  | var => exact .var (part _) (optional (part _))
  | block => exact .block (sequence (part _))
  | ifThen => exact .ifThen (part _) (part _) (optional (part _))
  | whileLoop => exact .whileLoop (part _) (part _)
  | function => exact .function (part _) (part _) (part _)
  | returnStmt => exact .returnStmt (part _) (optional (part _))
  | classDecl => exact .classDecl (part _)
  | _ => exact .strange rfl rfl ⟨relabel, permitted, rfl⟩

theorem alike_token :
    (relining allowed slack lag).Alike (fun _ _ => True) world
      (fun _ => Upto allowed SavedToken.relined) (Run.token tree) (Run.token tree') := by
  obtain ⟨relabel, permitted, rfl⟩ := moved
  cases tree with
  | token saved => exact alike_pure trivial ⟨relabel, permitted, rfl⟩
  | _ => exact alike_fail trivial ⟨relabel, permitted, rfl⟩

theorem alike_lexeme :
    (relining allowed slack lag).Alike (fun _ _ => True) world
      (fun _ lexeme lexeme' => lexeme = lexeme' ∧ True) (Run.lexeme tree) (Run.lexeme tree') := by
  obtain ⟨relabel, permitted, rfl⟩ := moved
  cases tree with
  | token saved => exact alike_pure trivial ⟨rfl, trivial⟩
  | _ => exact alike_fail trivial ⟨relabel, permitted, rfl⟩

theorem alike_raise {related : Unit → α → α → Prop} (message : Text) :
    (relining allowed slack lag).Alike (fun _ _ => True) world related
      (Run.raise tree message) (Run.raise tree' message) := by
  obtain ⟨relabel, permitted, rfl⟩ := moved
  cases tree <;> exact alike_fail trivial ⟨relabel, permitted, rfl⟩

theorem alike_unsupported {related : Unit → α → α → Prop} (feature : String) :
    (relining allowed slack lag).Alike (fun _ _ => True) world related
      (Run.unsupported tree feature) (Run.unsupported tree' feature) := by
  obtain ⟨relabel, permitted, rfl⟩ := moved
  cases tree <;> exact alike_fail trivial ⟨relabel, permitted, rfl⟩

theorem alike_undefined {related : Unit → α → α → Prop} :
    (relining allowed slack lag).Alike (fun _ _ => True) world related
      (Run.undefined tree) (Run.undefined tree') := by
  obtain ⟨relabel, permitted, rfl⟩ := moved
  cases tree <;> exact alike_fail trivial ⟨relabel, permitted, rfl⟩

end Trees

section Steps

variable (permitted : ∃ relabel, allowed relabel) {site site' : Tree} {value value' : Value}

theorem callees (found : Value.Moved allowed value value') :
    (∃ closure closure', value = .function closure ∧ value' = .function closure' ∧
      (relining allowed slack lag).Callees world closure closure') ∨
    (∀ closure, value ≠ .function closure) ∧ ∀ closure, value' ≠ .function closure := by
  cases found with
  | simple simple => exact .inr ⟨simple, simple⟩
  | function params body =>
      exact .inl ⟨_, _, rfl, rfl, rfl, sequence params, sequence body⟩

theorem alike_ofExcept {relabel : Int → Int} (permitted : allowed relabel)
    {outcome : Except Failure Value} (simple : ∀ {value}, outcome = .ok value → value.Simple) :
    (relining allowed slack lag).Alike (fun _ _ => True) world
      (fun _ => Value.Moved allowed) (Run.ofExcept outcome)
      (Run.ofExcept (outcome.mapError (Failure.relined relabel))) := by
  cases outcome with
  | ok value => exact alike_pure trivial (.simple (simple rfl))
  | error failure => exact alike_fail trivial ⟨relabel, permitted, rfl⟩

include permitted

theorem alike_name (lexeme : Json) :
    (relining allowed slack lag).Alike (fun _ _ => True) world (fun _ => Eq)
      (Run.name lexeme) (Run.name lexeme) := by
  obtain ⟨relabel, permitted⟩ := permitted
  unfold Run.name
  split
  · exact alike_pure trivial rfl
  · exact alike_fail trivial ⟨relabel, permitted, rfl⟩

theorem alike_lookup (moved : Upto allowed Tree.relined site site') :
    (relining allowed slack lag).Alike (fun _ _ => True) world
      (fun _ => Value.Moved allowed) (Run.lookup site) (Run.lookup site') := by
  refine (alike_lexeme moved).bind (fun _ _ => trivial) ?_
  rintro _ lexeme _ - ⟨rfl, -⟩
  refine (alike_name permitted lexeme).bind (fun _ _ => trivial) ?_
  rintro _ name _ - rfl state other relined
  have found := relined.get? name
  dsimp only
  generalize state.scopes.get? state.current name = first,
    other.scopes.get? other.current name = second at found ⊢
  cases found with
  | none => exact alike_undefined moved _ _ relined
  | some related => exact .done () trivial relined related

theorem alike_assign (moved : Upto allowed Tree.relined site site')
    (found : Value.Moved allowed value value') :
    (relining allowed slack lag).Alike (fun _ _ => True) world (fun _ _ _ => True)
      (Run.assign site value) (Run.assign site' value') := by
  refine (alike_lexeme moved).bind (fun _ _ => trivial) ?_
  rintro _ lexeme _ - ⟨rfl, -⟩
  refine (alike_name permitted lexeme).bind (fun _ _ => trivial) ?_
  rintro _ name _ - rfl state other relined
  dsimp only
  rw [relined.find?]
  cases state.scopes.find? state.current name with
  | none => exact alike_undefined moved _ _ relined
  | some holder => exact .done () trivial (relined.bound holder name found) trivial

theorem alike_readClock (settings : Settings) :
    (relining allowed slack lag).Alike (fun _ _ => True) world
      (fun _ => Value.Moved allowed) (Run.readClock settings) (Run.readClock settings) := by
  intro state other relined
  unfold Run.readClock
  rw [relined.clockReads]
  split
  · exact .done () trivial { relined with clockReads := rfl } (.simple nofun)
  · obtain ⟨relabel, permitted⟩ := permitted
    exact .failed () trivial relined ⟨relabel, permitted, rfl⟩

omit permitted in
theorem alike_traceAt (settings : Settings) (level : Nat) (message message' : Text) :
    (relining allowed slack lag).Alike (fun _ _ => True) world (fun _ _ _ => True)
      (Run.traceAt settings level message) (Run.traceAt settings level message') := by
  intro state other relined
  obtain ⟨trace, traced⟩ := Run.traceAt_done settings level message state
  obtain ⟨otherTrace, otherTraced⟩ := Run.traceAt_done settings level message' other
  rw [traced, otherTraced]
  exact .done () trivial { relined with } trivial

omit permitted in
theorem alike_traceFunction (settings : Settings) {closure closure' : Closure}
    (found : Value.Moved allowed (.function closure) (.function closure')) :
    (relining allowed slack lag).Alike (fun _ _ => True) world (fun _ _ _ => True)
      (Run.traceFunction settings closure) (Run.traceFunction settings closure') := by
  cases found with
  | simple simple => exact absurd rfl (simple closure)
  | function params _ =>
      obtain ⟨relabel, permitted, rfl⟩ := params
      unfold Run.traceFunction
      simp only [Closure.arity?, Tree.elements?_relined, Option.map_map, Function.comp_def,
        List.length_map]
      by_cases traced : 2 ≤ settings.traceLevel
      · rw [if_pos traced]
        cases closure.params.elements? with
        | none => exact alike_fail trivial ⟨relabel, permitted, rfl⟩
        | some items => exact fun _ _ relined => .done () trivial { relined with } trivial
      · rw [if_neg traced]
        exact alike_pure trivial trivial

omit permitted in
theorem alike_inScope {scope : Nat} {bindings bindings' : Bindings Value} {body body' : Run Flow}
    (bound : (relining allowed slack lag).Bound () bindings bindings')
    (alike : (relining allowed slack lag).Alike (fun _ _ => True) ()
      (relining allowed slack lag).Flows body body') :
    (relining allowed slack lag).Alike (fun _ _ => True) world
      (relining allowed slack lag).Flows (Run.inScope scope bindings body)
      (Run.inScope scope bindings' body') := by
  intro state other relined
  have ends := alike _ _ (relined.entered scope bound)
  change (relining allowed slack lag).Ends (fun _ _ => True) world
    (relining allowed slack lag).Flows
    ((body (state.entered scope bindings)).mapState state.left)
    ((body' (other.entered scope bindings')).mapState other.left)
  refine ends.mapState fun {_ _ _} _ after => ?_
  exact ⟨(), trivial, { after with current := relined.current }, id⟩

omit permitted in
theorem alike_inCall {body body' : Run Value}
    (alike : (relining allowed slack lag).Alike (fun _ _ => True) ()
      (fun _ => Value.Moved allowed) body body') :
    (relining allowed slack lag).Alike (fun _ _ => True) world
      (fun _ => Value.Moved allowed) (Run.inCall body) (Run.inCall body') := by
  intro state other relined
  have deeper : State.Relined allowed state.deepened other.deepened :=
    { relined with callDepth := congrArg (· + 1) relined.callDepth }
  have ends := alike _ _ deeper
  change (relining allowed slack lag).Ends (fun _ _ => True) world
    (fun _ => Value.Moved allowed)
    ((body state.deepened).mapState State.raised) ((body' other.deepened).mapState State.raised)
  refine ends.mapState fun {_ _ _} _ after => ?_
  exact ⟨(), trivial, { after with callDepth := congrArg (· - 1) after.callDepth }, id⟩

variable (slack lag) in
theorem lawful (settings : Settings) :
    (relining allowed slack lag).Lawful settings settings where
  steady_refl := trivial
  steady_trans _ _ := trivial
  grows_of_steady := id
  grows_trans _ _ := trivial
  carries_of_grows _ := trivial
  values_carry _ := id
  scopes_carry _ := id
  declares_grow _ _ := trivial
  expr_fits := expr_fits
  stmt_fits := stmt_fits
  nil := .simple nofun
  constant := by
    rintro world tree _ rfl
    refine .simple ?_
    cases tree <;> exact nofun
  truthy := Value.Moved.isTruthy
  display := Value.Moved.display
  typeName := Value.Moved.typeName
  callable := Value.Moved.callable?
  arity _ _ := by
    obtain ⟨relabel, permitted⟩ := permitted
    exact ⟨relabel, permitted, rfl⟩
  callees := callees
  unary := by
    rintro world operator operator' operand operand' moved found
    refine (alike_token moved).bind (fun _ _ => trivial) ?_
    rintro _ token _ - ⟨relabel, allowed, rfl⟩
    rw [Operator.unary_relined relabel token found]
    exact alike_ofExcept allowed Operator.simple_of_unary
  binary := by
    rintro world operator operator' left left' right right' moved leftFound rightFound
    refine (alike_token moved).bind (fun _ _ => trivial) ?_
    rintro _ token _ - ⟨relabel, allowed, rfl⟩
    rw [Operator.binary_relined relabel token leftFound rightFound]
    exact alike_ofExcept allowed Operator.simple_of_binary
  logical moved := by
    refine (alike_token moved).mono id ?_
    rintro _ token _ ⟨relabel, -, rfl⟩
    rfl
  lexeme := alike_lexeme
  name _ := alike_name permitted _
  lookup := alike_lookup permitted
  assign := alike_assign permitted
  define := by
    intro world name value value' _ found state other relined
    refine .done () trivial ?_ trivial
    change State.Relined allowed (state.bound state.current name value)
      (other.bound other.current name value')
    rw [relined.current]
    exact relined.bound state.current name found
  close := by
    intro world name params params' body body' _ movedParams movedBody state other relined
    refine .done () trivial
      { relined with functions := congrArg (· + 1) relined.functions } ?_
    rw [relined.functions, relined.current]
    exact .function movedParams movedBody
  printLine line state other relined :=
    .done () trivial { relined with printed := congrArg (·.push line) relined.printed } trivial
  readClock := alike_readClock permitted settings
  traceAt level message := alike_traceAt settings level message message
  traceFunction := alike_traceFunction settings
  currentScope state other relined := .done () trivial relined relined.current.symm
  callDepth state other relined := by
    refine .done () trivial relined ⟨?_, fun _ => trivial⟩
    rw [relined.callDepth]
  raise moved _ := alike_raise moved _
  topReturn moved _ := alike_raise moved _
  unsupported moved _ := alike_unsupported moved _
  inScope := by
    rintro world scope _ bindings bindings' body body' rfl bound alike
    exact alike_inScope bound (alike trivial)
  inCall alike := alike_inCall (alike trivial)

end Steps

section Programs

inductive Outcomes (allowed : (Int → Int) → Prop) : Outcome → Outcome → Prop
  | completed : Outcomes allowed .completed .completed
  | failed {error other : RuntimeError} :
      Upto allowed RuntimeError.relined error other →
      Outcomes allowed (.failed error) (.failed other)

inductive Attempts (allowed : (Int → Int) → Prop) :
    Except RuntimeError Flow → Except RuntimeError Flow → Prop
  | ok (flow other : Flow) : Attempts allowed (.ok flow) (.ok other)
  | error {error other : RuntimeError} :
      Upto allowed RuntimeError.relined error other →
      Attempts allowed (.error error) (.error other)

theorem alike_attempt {body body' : Run Flow}
    (alike : (relining allowed slack lag).Alike (fun _ _ => True) ()
      (relining allowed slack lag).Flows body body') :
    (relining allowed slack lag).Alike (fun _ _ => True) () (fun _ => Attempts allowed)
      (Run.attempt body) (Run.attempt body') := by
  intro state other states
  have ends := alike state other states
  unfold Run.attempt
  generalize body state = result, body' other = answer at ends ⊢
  cases ends with
  | done _ _ reached _ => exact .done () trivial reached (.ok _ _)
  | @failed _ failure _ _ _ _ reached found =>
      obtain ⟨relabel, permitted, rfl⟩ := found
      cases failure with
      | error error => exact .done () trivial reached (.error ⟨relabel, permitted, rfl⟩)
      | fault fault => exact .failed () trivial reached ⟨relabel, permitted, rfl⟩
  | spent => exact .spent
  | slack allowed => exact .slack allowed
  | lag allowed => exact .lag allowed

theorem alike_interpret (permitted : ∃ relabel, allowed relabel) (settings : Settings)
    {budget larger : Nat} (enough : (relining allowed slack lag).Enough budget larger)
    {trees trees' : List Tree} (moved : List.Forall₂ (Upto allowed Tree.relined) trees trees') :
    (relining allowed slack lag).Alike (fun _ _ => True) () (fun _ => Outcomes allowed)
      (Session.interpret settings budget trees) (Session.interpret settings larger trees') := by
  have runs := (lawful slack lag permitted settings).runs budget larger enough
  induction moved with
  | nil => exact alike_pure trivial .completed
  | cons firstMoved _ ih =>
      refine (alike_traceAt settings 1 _ _).bind (fun _ _ => trivial) ?_
      rintro ⟨⟩ _ _ - -
      refine (alike_attempt (runs.execute firstMoved (.inl trivial))).bind (fun _ _ => trivial) ?_
      rintro ⟨⟩ attempt attempt' - attempts
      cases attempts with
      | ok => exact ih
      | error same =>
          refine (alike_traceAt settings 1 _ _).bind (fun _ _ => trivial) ?_
          rintro ⟨⟩ _ _ - -
          exact alike_pure trivial (.failed same)

end Programs

end Relining

end Likeness

end Lox
