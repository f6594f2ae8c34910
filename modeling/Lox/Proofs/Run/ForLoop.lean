import Lox.Proofs.Run.Padded
import Lox.Proofs.Run.Rooted
import Lox.Proofs.Syntax.Sound

/-!
What a `for` loop means, said clause by clause, and that the statement the parser spells
for it does just that.
-/

namespace Lox

namespace Grammar

theorem Statement.inert {phrase : Phrase} {tokens : List Token} {tree : Stmt}
    (derived : Statement phrase tokens tree) {ending : Ending}
    (isStatement : phrase = .statement ending) : tree.toTree.Inert := by
  induction derived generalizing ending with
  | classDecl | function | varDecl | statement | definition => cases isStatement
  | expr | print | returnStmt | block => simp only [Stmt.toTree, Tree.Inert]
  | whileLoop _ _ _ _ _ ih =>
      simp only [Stmt.toTree, Tree.Inert]
      exact ih rfl
  | @forLoop _ _ _ clauses _ _ _ _ _ ih =>
      obtain ⟨initial, condition, increment⟩ := clauses
      cases initial <;> cases increment <;>
        simp only [Clauses.loop, Stmt.toTree, Tree.Inert]
      exact ih rfl
  | ifThen _ _ _ _ _ ih =>
      simp only [Stmt.toTree, Tree.Inert]
      exact ⟨ih rfl, trivial⟩
  | ifElse _ _ _ _ _ _ _ first second =>
      simp only [Stmt.toTree, Tree.Inert]
      exact ⟨first rfl, second rfl⟩

theorem Initial.completes {tokens : List Token} {initial : Stmt}
    (derived : Initial tokens (some initial)) (settings : Settings) (budget : Nat) :
    Run.Completes (initial.toTree.execute settings budget) := by
  cases budget with
  | zero => exact nofun
  | succ budget =>
      cases derived with
      | expr =>
          simp only [Stmt.toTree, Tree.execute]
          exact Run.completes_behind _ fun _ => Run.completes_pure
      | varDecl derived =>
          cases derived <;>
          · simp only [Stmt.toTree, Tree.execute]
            repeat refine Run.completes_behind _ fun _ => ?_
            exact Run.completes_pure

theorem Header.completes {tokens : List Token} {clauses : Clauses}
    (headed : Header tokens clauses) {initial : Stmt} (first : clauses.initial = some initial)
    (settings : Settings) (budget : Nat) :
    Run.Completes (initial.toTree.execute settings budget) := by
  cases headed with
  | mk _ derived =>
      subst first
      exact derived.completes settings budget

namespace Clauses

variable (settings : Settings) (budget : Nat) (clauses : Clauses) (body : Stmt)

def goesOn : Run Bool :=
  match clauses.condition with
  | none => pure true
  | some condition => do
      let value ← condition.toTree.evaluate settings budget
      pure value.isTruthy

def advance : Run Unit :=
  match clauses.increment with
  | none => pure ()
  | some increment => do
      let _ ← increment.toTree.evaluate settings budget
      pure ()

def round : Run Flow := do
  match ← body.toTree.execute settings budget with
  | .returned value => pure (.returned value)
  | .completed =>
      clauses.advance settings budget
      pure .completed

def rounds (settings : Settings) (clauses : Clauses) (body : Stmt) : Nat → Run Flow
  | 0 => Run.outOfBudget
  | budget + 1 => do
      if ← clauses.goesOn settings budget then
        match ← clauses.round settings budget body with
        | .returned value => pure (.returned value)
        | .completed => rounds settings clauses body budget
      else pure .completed

def run : Run Flow :=
  match clauses.initial with
  | none => clauses.rounds settings body budget
  | some initial => do
      let scope ← Run.currentScope
      Run.inScope scope [] do
        let _ ← initial.toTree.execute settings budget
        clauses.rounds settings body budget

def roundTree : Tree :=
  match clauses.increment with
  | none => body.toTree
  | some increment => .block (.list [body.toTree, .expr increment.toTree])

def loopTree : Tree :=
  .whileLoop (clauses.condition.getD (.literal (.bool true))).toTree (clauses.roundTree body)

theorem toTree_loop :
    (clauses.loop body).toTree =
      match clauses.initial with
      | none => clauses.loopTree body
      | some initial => .block (.list [initial.toTree, clauses.loopTree body]) := by
  obtain ⟨initial, condition, increment⟩ := clauses
  cases initial <;> cases increment <;>
    simp only [loop, loopTree, roundTree, Stmt.toTree, Stmt.toTrees]

end Clauses

end Grammar

namespace Likeness

/-- The first machine may run out alone and has no more budget, or the second may and the
first has a given amount to spare. -/
def Paced (like : Likeness) (spare budget other : Nat) : Prop :=
  like.slack ∧ budget ≤ other ∨ like.lag ∧ other + spare ≤ budget

namespace Paced

variable {like : Likeness} {spare budget other : Nat}

theorem enough (paced : like.Paced spare budget other) : like.Enough budget other :=
  .inr (paced.imp_right (And.imp_right (by omega)))

theorem mono {fewer : Nat} (paced : like.Paced spare budget other) (atMost : fewer ≤ spare) :
    like.Paced fewer budget other :=
  paced.imp_right (And.imp_right (by omega))

theorem alone {α β : Type} {moves : like.World → like.World → Prop} {world : like.World}
    {related : like.World → α → β → Prop} {second : Run β}
    (paced : like.Paced (spare + 1) budget other) (first : Nat → Run α)
    (none : first 0 = Run.outOfBudget)
    (alike : ∀ {less}, like.Paced spare less other →
      like.Alike moves world related (first (less + 1)) second) :
    like.Alike moves world related (first budget) second := by
  cases budget with
  | zero =>
      rw [none]
      exact alike_of_slack (paced.elim And.left (by omega)) second
  | succ less => exact alike (paced.imp (And.imp_right (by omega)) (And.imp_right (by omega)))

theorem both (paced : like.Paced spare (budget + 1) (other + 1)) : like.Paced spare budget other :=
  paced.imp (And.imp_right (by omega)) (And.imp_right (by omega))

end Paced

theorem Alike.completed {like : Likeness} {moves : like.World → like.World → Prop}
    {world : like.World} {related : like.World → Flow → Flow → Prop} {first second : Run Flow}
    (alike : like.Alike moves world related first second) (completes : first.Completes) :
    like.Alike moves world (fun _ flow _ => flow = .completed) first second := by
  intro state other states
  have ends := alike state other states
  have ended := completes state
  generalize first state = result, second other = answer at ends ended
  cases ends with
  | done after moved reached found => exact .done after moved reached (ended _ _ rfl)
  | failed after moved reached failure => exact .failed after moved reached failure
  | spent => exact .spent
  | slack allowed => exact .slack allowed
  | lag allowed => exact .lag allowed

namespace Padding

open Grammar

variable {slack lag : Prop} {layout : Layout} {settings : Settings} {spare budget other : Nat}

theorem runs (paced : (padding slack lag).Paced spare budget other) :
    (padding slack lag).Runs settings settings budget other :=
  (lawful slack lag settings).runs budget other paced.enough

theorem alike_traced {α β : Type} {related : Layout → α → β → Prop} {next : Run α} {second : Run β}
    {level : Nat} {message : Text}
    (alike : (padding slack lag).Alike Layout.Advances layout related next second) :
    (padding slack lag).Alike Layout.Advances layout related
      (Run.traceAt settings level message >>= fun _ => next) second := by
  intro state other fits
  obtain ⟨trace, traced⟩ := Run.traceAt_bind settings level message next state
  rw [traced]
  exact alike _ _ { fits with }

theorem alike_goesOn (paced : (padding slack lag).Paced (spare + 1) budget other)
    (clauses : Clauses) :
    (padding slack lag).Alike Layout.Advances layout (fun _ value holds => value.isTruthy = holds)
      ((clauses.condition.getD (.literal (.bool true))).toTree.evaluate settings budget)
      (clauses.goesOn settings other) := by
  unfold Clauses.goesOn
  cases clauses.condition with
  | none =>
      refine paced.alone (fun budget => Tree.evaluate settings budget _) rfl fun _ => ?_
      simp only [Option.getD_none, Expr.toTree, Literal.toTree, Tree.evaluate]
      exact alike_pure (Layout.Advances.refl layout) rfl
  | some condition =>
      rw [Option.getD_some, ← Run.bind_self (condition.toTree.evaluate settings budget)]
      refine ((runs paced).evaluate rfl).bind .trans ?_
      intro after value value' _ found
      exact alike_pure (Layout.Advances.refl after) (by rw [found.moved, Value.isTruthy_moved])

theorem alike_increment (paced : (padding slack lag).Paced (spare + 2) budget other)
    (increment : Expr) :
    (padding slack lag).Alike Layout.Advances layout (padding slack lag).Flows
      (Tree.executeList settings budget [.expr increment.toTree])
      (increment.toTree.evaluate settings other >>= fun _ => pure .completed) := by
  refine paced.alone (fun budget => Tree.executeList settings budget _) rfl fun paced => ?_
  refine paced.alone (fun budget => Tree.executeList settings (budget + 1) _) rfl fun paced => ?_
  simp only [Tree.execute, Tree.executeList, Run.bind_bind]
  refine ((runs paced).evaluate rfl).bind .trans ?_
  intro after _ _ _ _
  exact alike_pure (Layout.Advances.refl after) .completed

theorem alike_round (paced : (padding slack lag).Paced (spare + 5) budget other)
    (clauses : Clauses) {body : Stmt} (inert : body.toTree.Inert) :
    (padding slack lag).Alike Layout.Advances layout (padding slack lag).Flows
      ((clauses.roundTree body).execute settings budget)
      (clauses.round settings other body) := by
  unfold Clauses.roundTree Clauses.round Clauses.advance
  cases clauses.increment with
  | none =>
      rw [← Run.bind_self (body.toTree.execute settings budget)]
      refine ((runs paced).execute rfl (.inr inert)).bind .trans ?_
      intro after flow flow' _ flows
      cases flows with
      | completed => exact alike_pure (Layout.Advances.refl after) .completed
      | returned found => exact alike_pure (Layout.Advances.refl after) (.returned found)
  | some increment =>
      refine paced.alone (fun budget => Tree.execute settings budget _) rfl fun paced => ?_
      simp only [Tree.execute]
      -- only the statement makes a scope for the round, and it stays empty
      refine alike_padded ?_
      refine paced.alone (fun budget => Tree.executeAll settings budget _) rfl fun paced => ?_
      refine paced.alone (fun budget => Tree.executeList settings budget _) rfl fun paced => ?_
      simp only [Tree.executeList]
      refine ((runs paced).execute rfl (.inr inert)).bind .trans ?_
      intro after flow flow' _ flows
      cases flows with
      | completed =>
          simp only [Run.bind_bind]
          exact alike_increment paced increment
      | returned found => exact alike_pure (Layout.Advances.refl after) (.returned found)

theorem alike_rounds (paced : (padding slack lag).Paced 5 budget other)
    (clauses : Clauses) {body : Stmt} (inert : body.toTree.Inert) :
    (padding slack lag).Alike Layout.Advances layout (padding slack lag).Flows
      (Tree.executeWhile settings budget
        (clauses.condition.getD (.literal (.bool true))).toTree (clauses.roundTree body))
      (clauses.rounds settings body other) := by
  -- the rounds take one of each budget, so the first machine keeps what it can spare
  induction other generalizing budget layout with
  | zero =>
      rcases paced with ⟨slack, none⟩ | ⟨lag, -⟩
      · obtain rfl := Nat.le_zero.1 none
        exact alike_of_slack slack _
      · exact alike_of_lag lag _
  | succ other ih =>
      cases budget with
      | zero => exact alike_of_slack (paced.elim And.left (by omega)) _
      | succ budget =>
          have fewer := paced.both
          simp only [Tree.executeWhile, Clauses.rounds]
          refine (alike_goesOn fewer clauses).bind .trans ?_
          intro tested value holds _ same
          refine alike_traced ?_
          rw [same]
          split
          · refine (alike_round fewer clauses inert).bind .trans ?_
            intro after flow flow' _ flows
            cases flows with
            | completed => exact ih fewer
            | returned found => exact alike_pure (Layout.Advances.refl after) (.returned found)
          · exact alike_pure (Layout.Advances.refl tested) .completed

theorem alike_loopStatement (paced : (padding slack lag).Paced 7 budget other)
    (clauses : Clauses) {body : Stmt} (inert : body.toTree.Inert) :
    (padding slack lag).Alike Layout.Advances layout (padding slack lag).Flows
      (Tree.executeList settings budget [clauses.loopTree body])
      (clauses.rounds settings body other) := by
  refine paced.alone (fun budget => Tree.executeList settings budget _) rfl fun paced => ?_
  refine paced.alone (fun budget => Tree.executeList settings (budget + 1) _) rfl fun paced => ?_
  rw [← Run.bind_self (clauses.rounds settings body other)]
  simp only [Clauses.loopTree, Tree.execute, Tree.executeList]
  refine (alike_rounds paced clauses inert).bind .trans ?_
  intro after flow flow' _ flows
  cases flows with
  | completed => exact alike_pure (Layout.Advances.refl after) .completed
  | returned found => exact alike_pure (Layout.Advances.refl after) (.returned found)

theorem alike_run (paced : (padding slack lag).Paced 10 budget other) {header : List Token}
    {clauses : Clauses} (headed : Header header clauses) {body : Stmt}
    (inert : body.toTree.Inert) :
    (padding slack lag).Alike Layout.Advances layout (padding slack lag).Flows
      ((clauses.loop body).toTree.execute settings budget) (clauses.run settings other body) := by
  rw [Clauses.toTree_loop]
  unfold Clauses.run
  cases first : clauses.initial with
  | none =>
      refine paced.alone (fun budget => Tree.execute settings budget _) rfl fun paced => ?_
      simp only [Clauses.loopTree, Tree.execute]
      exact alike_rounds (paced.mono (by omega)) clauses inert
  | some initial =>
      have laws := lawful slack lag settings
      refine paced.alone (fun budget => Tree.execute settings budget _) rfl fun paced => ?_
      simp only [Tree.execute]
      refine laws.currentScope.bind laws.steady_trans ?_
      intro middle scope scope' _ scopes
      refine laws.inScope scopes .nil fun declares => ?_
      refine paced.alone (fun budget => Tree.executeAll settings budget _) rfl fun paced => ?_
      refine paced.alone (fun budget => Tree.executeList settings budget _) rfl fun paced => ?_
      simp only [Tree.executeList]
      refine (((runs paced).execute rfl (.inl declares)).completed
        (headed.completes first settings _)).bind .trans ?_
      rintro after _ flow _ rfl
      exact alike_loopStatement paced clauses inert

end Padding

end Likeness

/-- The states agree on what was printed and on the bindings of the first `old` scopes.
Newer scopes of the first state are found at home in the second: a name means the same
variable from both. -/
structure State.Matches (state : State) (old : Nat) (home : Nat → Nat) (other : State) : Prop where
  printed : other.printed = state.printed
  current : other.current = state.current
  callDepth : other.callDepth = state.callDepth
  functions : other.functions = state.functions
  clockReads : other.clockReads = state.clockReads
  kept : ∀ scope < old, home scope = scope
  own : ∀ scope < old, other.scopes.own scope = (state.scopes.own scope).moved home
  found : ∀ scope < state.scopes.size, ∀ name,
    other.scopes.find? (home scope) name = (state.scopes.find? scope name).map home
  bound : ∀ scope < state.scopes.size, state.scopes.own scope ≠ [] →
    other.scopes.own (home scope) = (state.scopes.own scope).moved home
  distinct : ∀ scope < state.scopes.size, ∀ twin < state.scopes.size,
    state.scopes.own scope ≠ [] → state.scopes.own twin ≠ [] →
    home scope = home twin → scope = twin

def Flow.moved (home : Nat → Nat) : Flow → Flow
  | completed => completed
  | returned value => returned (value.moved home)

inductive Result.Matches (old : Nat) : Result Flow → Result Flow → Prop
  | done (home : Nat → Nat) {flow : Flow} {state other : State} :
      state.Matches old home other →
      Matches old (.done flow state) (.done (flow.moved home) other)
  | failed (home : Nat → Nat) {failure : Failure} {state other : State} :
      state.Matches old home other →
      Matches old (.failed failure state) (.failed failure other)

theorem Layout.Fits.matched {layout : Layout} {state other : State} (fits : layout.Fits state other)
    {size current : Nat} {inside : current < size}
    (moved : (Layout.same size current inside).Advances layout) :
    state.Matches size layout.home other := by
  have old {scope : Nat} (within : scope < size) : scope < layout.size :=
    Nat.lt_of_lt_of_le within moved.kept.size
  have isReal {scope : Nat} (within : scope < layout.size) (binds : state.scopes.own scope ≠ []) :
      layout.real scope := by
    by_contra unreal
    exact binds (fits.empty scope within unreal).1
  refine
    { printed := fits.printed
      current := ?_
      callDepth := fits.callDepth
      functions := fits.functions
      clockReads := fits.clockReads
      kept := moved.kept.home
      own := ?_
      found := ?_
      bound := ?_
      distinct := ?_ }
  · rw [fits.otherCurrent, fits.current, moved.current]
    exact moved.kept.home current inside
  · intro scope within
    have own := fits.own scope (old within) ((moved.kept.real scope within).2 trivial)
    rwa [moved.kept.home scope within] at own
  · intro scope within name
    exact (fits.find? name scope (fits.size ▸ within)).2
  · intro scope within binds
    rw [fits.size] at within
    exact fits.own scope within (isReal within binds)
  · intro scope within twin twinWithin binds twinBinds equal
    rw [fits.size] at within twinWithin
    exact layout.distinct within twinWithin (isReal within binds) (isReal twinWithin twinBinds)
      equal

theorem Likeness.Padding.matched {slack lag : Prop} {size current : Nat} {inside : current < size}
    {first second : Result Flow}
    (ends : (padding slack lag).Ends Layout.Advances (Layout.same size current inside)
      (padding slack lag).Flows first second)
    (firstEnds : slack → first ≠ .spent) (secondEnds : lag → second ≠ .spent)
    (ended : slack ∨ lag) : Result.Matches size first second := by
  cases ends with
  | done after moved fits flows =>
      cases flows with
      | completed => exact .done after.home (fits.matched moved)
      | returned found =>
          rw [found.moved]
          exact .done after.home (fits.matched moved)
  | failed after moved fits same =>
      cases same
      exact .failed after.home (fits.matched moved)
  | spent => exact (ended.elim (firstEnds · rfl) (secondEnds · rfl)).elim
  | slack allowed => exact absurd rfl (firstEnds allowed)
  | lag allowed => exact absurd rfl (secondEnds allowed)

namespace Stmt

open Lox.Grammar Lox.Parser Lox.Likeness

/-- A `for` loop that is read without a note runs, from every state a program can get into,
as its clauses say: what the statement ends with, the loop ends with once its budget is
large enough, and the other way round. -/
theorem parsed_for_runs_as_loop {stop keyword : Token} {tokens rest : List Token}
    {statement : Stmt} {budget : Nat} (stopped : stop.kind = .eof)
    (kind : keyword.kind = .forWord)
    (budgeted : Program.budgetFor (keyword :: tokens).length ≤ budget)
    (reads : Reads (parse stop budget) (keyword :: tokens) statement rest) :
    ∃ ending header inner clauses body, tokens = header ++ inner ++ rest ∧
      Header header clauses ∧ Statement (.statement ending) inner body ∧
      ∀ settings state values, Reachable settings state values →
        (∀ budget, statement.toTree.execute settings budget state ≠ .spent →
          ∃ enough, ∀ larger ≥ enough, Result.Matches state.scopes.size
            (statement.toTree.execute settings budget state)
            (clauses.run settings larger body state)) ∧
        ∀ budget, clauses.run settings budget body state ≠ .spent →
          ∃ enough, ∀ larger ≥ enough, Result.Matches state.scopes.size
            (statement.toTree.execute settings larger state)
            (clauses.run settings budget body state) := by
  unfold Program.budgetFor at budgeted
  obtain ⟨budget, rfl⟩ : ∃ less, budget = less + 1 := ⟨budget - 1, by omega⟩
  obtain ⟨ending, header, inner, clauses, body, split, headed, derived, rfl, -⟩ :=
    (sound stopped budget).forLoop_succ stopped kind (by omega) reads
  refine ⟨ending, header, inner, clauses, body, split, headed, derived, ?_⟩
  intro settings state values reachable
  have fits := Layout.fits_same reachable.held.1
  have inert := derived.inert rfl
  constructor
  · intro budget ended
    refine ⟨budget, fun larger atLeast => ?_⟩
    have paced : (padding True False).Paced 10 budget larger := .inl ⟨trivial, atLeast⟩
    exact Padding.matched (Padding.alike_run paced headed inert state state fits)
      (fun _ => ended) False.elim (.inl trivial)
  · intro budget ended
    refine ⟨budget + 10, fun larger atLeast => ?_⟩
    have paced : (padding False True).Paced 10 larger budget := .inr ⟨trivial, atLeast⟩
    exact Padding.matched (Padding.alike_run paced headed inert state state fits)
      False.elim (fun _ => ended) (.inr trivial)

/-- The loop `for (var i; ; -nil) print true;` prints once and fails in its increment. -/
theorem parsed_for_runs_as_loop_once :
    ∃ ending header inner clauses body,
      [⟨.leftParen, "(", 1, .nil⟩, ⟨.varWord, "var", 1, .nil⟩, ⟨.identifier, "i", 1, .nil⟩,
        ⟨.semicolon, ";", 1, .nil⟩, ⟨.semicolon, ";", 1, .nil⟩, ⟨.minus, "-", 1, .nil⟩,
        ⟨.nilWord, "nil", 1, .nil⟩, ⟨.rightParen, ")", 1, .nil⟩,
        ⟨.printWord, "print", 1, .nil⟩, ⟨.trueWord, "true", 1, .nil⟩,
        ⟨.semicolon, ";", 1, .nil⟩] = header ++ inner ++ [] ∧
      Header header clauses ∧ Statement (.statement ending) inner body ∧
      ∃ enough, ∀ larger ≥ enough, ∃ other,
        clauses.run ⟨0, fun _ => none⟩ larger body .initial =
          .failed (.error ⟨.ofString "Operand must be a number.", .int 1, none⟩) other ∧
        other.printed = #[.ofString "true"] := by
  obtain ⟨ending, header, inner, clauses, body, split, headed, derived, runs⟩ :=
    @parsed_for_runs_as_loop ⟨.eof, "", 1, .nil⟩ ⟨.forWord, "for", 1, .nil⟩
      [⟨.leftParen, "(", 1, .nil⟩, ⟨.varWord, "var", 1, .nil⟩, ⟨.identifier, "i", 1, .nil⟩,
        ⟨.semicolon, ";", 1, .nil⟩, ⟨.semicolon, ";", 1, .nil⟩, ⟨.minus, "-", 1, .nil⟩,
        ⟨.nilWord, "nil", 1, .nil⟩, ⟨.rightParen, ")", 1, .nil⟩,
        ⟨.printWord, "print", 1, .nil⟩, ⟨.trueWord, "true", 1, .nil⟩,
        ⟨.semicolon, ";", 1, .nil⟩] []
      (.block [.var ⟨.identifier, "i", 1, .nil⟩ none,
        .whileLoop (.literal (.bool true)) (.block [.print (.literal (.bool true)),
          .expr (.unary ⟨.minus, "-", 1, .nil⟩ (.literal .nil))])]) 500 rfl rfl (by decide) rfl
  refine ⟨ending, header, inner, clauses, body, split, headed, derived, ?_⟩
  obtain ⟨forward, -⟩ := runs ⟨0, fun _ => none⟩ .initial [] .initial
  obtain ⟨enough, matched⟩ := forward 20 nofun
  refine ⟨enough, fun larger atLeast => ?_⟩
  have found := matched larger atLeast
  generalize clauses.run ⟨0, fun _ => none⟩ larger body .initial = result at found
  rcases found with _ | ⟨home, same⟩
  exact ⟨_, rfl, same.printed⟩

end Stmt

end Lox
