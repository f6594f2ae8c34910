import Lox.Session
import Mathlib.Data.List.Forall2

/-!
Two machines that run alike.  A likeness says when the parts of two machines
correspond; how far both have come is a world, which only changes in lawful ways.
-/

namespace Lox

/-- What corresponds on two machines.  A world carries over to another one where
everything that corresponds still does; worlds are steady while expressions run and
grow while statements run. -/
structure Likeness where
  World : Type
  carries : World → World → Prop
  steady : World → World → Prop
  grows : World → World → Prop
  states : World → State → State → Prop
  values : World → Value → Value → Prop
  scopes : World → Nat → Nat → Prop
  failures : Failure → Failure → Prop
  declares : World → Prop
  atTop : World → Prop
  exprs : Tree → Tree → Prop
  stmts : Tree → Tree → Prop
  params : Tree → Tree → Prop
  bodies : Tree → Tree → Prop
  constants : Tree → Tree → Prop
  sites : Tree → Tree → Prop
  returns : Tree → Tree → Prop
  unaryOperators : Tree → Tree → Prop
  binaryOperators : Tree → Tree → Prop
  logicalOperators : Tree → Tree → Prop
  lexemes : Json → Prop
  /-- The first machine may run out of budget alone. -/
  slack : Prop
  /-- The second machine may run out of budget alone. -/
  lag : Prop

namespace Likeness

variable (like : Likeness)

inductive Ends {α β : Type} (moves : like.World → like.World → Prop) (world : like.World)
    (related : like.World → α → β → Prop) : Result α → Result β → Prop
  | done (after : like.World) {first : α} {second : β} {state other : State} :
      moves world after → like.states after state other → related after first second →
      Ends moves world related (.done first state) (.done second other)
  | failed (after : like.World) {first second : Failure} {state other : State} :
      moves world after → like.states after state other → like.failures first second →
      Ends moves world related (.failed first state) (.failed second other)
  | spent : Ends moves world related .spent .spent
  | slack {result : Result β} : like.slack → Ends moves world related .spent result
  | lag {result : Result α} : like.lag → Ends moves world related result .spent

def Enough (budget larger : Nat) : Prop :=
  budget = larger ∨ like.slack ∧ budget ≤ larger ∨ like.lag ∧ larger ≤ budget

def Alike {α β : Type} (moves : like.World → like.World → Prop) (world : like.World)
    (related : like.World → α → β → Prop) (first : Run α) (second : Run β) : Prop :=
  ∀ state other, like.states world state other →
    like.Ends moves world related (first state) (second other)

inductive Flows (world : like.World) : Flow → Flow → Prop
  | completed : Flows world .completed .completed
  | returned {first second : Value} :
      like.values world first second → Flows world (.returned first) (.returned second)

def Bound (world : like.World) : Bindings Value → Bindings Value → Prop :=
  List.Forall₂ fun first second => first.1 = second.1 ∧ like.values world first.2 second.2

def Optional (related : Tree → Tree → Prop) (first second : Tree) : Prop :=
  first.isNil = second.isNil ∧ (first.isNil = false → related first second)

inductive Sequence (related : Tree → Tree → Prop) (first second : Tree) : Prop
  | items {firsts seconds : List Tree} :
      first.elements? = some firsts → second.elements? = some seconds →
      List.Forall₂ related firsts seconds → Sequence related first second
  | strange :
      first.elements? = none → second.elements? = none →
      like.failures (.fault .notSequence) (.fault .notSequence) → Sequence related first second

variable {like} {α β γ δ : Type} {world : like.World}
  {moves : like.World → like.World → Prop}

theorem Ends.mono {faster : like.World → like.World → Prop}
    {related implied : like.World → α → β → Prop} {first : Result α} {second : Result β}
    (ends : like.Ends moves world related first second)
    (faster_of : ∀ {after}, moves world after → faster world after)
    (implies : ∀ {after value other}, related after value other → implied after value other) :
    like.Ends faster world implied first second := by
  cases ends with
  | done after moved states found => exact .done after (faster_of moved) states (implies found)
  | failed after moved states found => exact .failed after (faster_of moved) states found
  | spent => exact .spent
  | slack allowed => exact .slack allowed
  | lag allowed => exact .lag allowed

theorem Alike.mono {faster : like.World → like.World → Prop}
    {related implied : like.World → α → β → Prop} {first : Run α} {second : Run β}
    (alike : like.Alike moves world related first second)
    (faster_of : ∀ {after}, moves world after → faster world after)
    (implies : ∀ {after value other}, related after value other → implied after value other) :
    like.Alike faster world implied first second :=
  fun state other states => (alike state other states).mono faster_of implies

theorem alike_pure {related : like.World → α → β → Prop} {first : α} {second : β}
    (still : moves world world) (found : related world first second) :
    like.Alike moves world related (pure first) (pure second) :=
  fun _ _ states => .done world still states found

theorem alike_fail {related : like.World → α → β → Prop} {first second : Failure}
    (still : moves world world) (found : like.failures first second) :
    like.Alike moves world related (Run.fail first) (Run.fail second) :=
  fun _ _ states => .failed world still states found

theorem alike_of_slack {related : like.World → α → β → Prop} (slack : like.slack)
    (second : Run β) : like.Alike moves world related Run.outOfBudget second :=
  fun _ _ _ => .slack slack

theorem alike_of_lag {related : like.World → α → β → Prop} (lag : like.lag)
    (first : Run α) : like.Alike moves world related first Run.outOfBudget :=
  fun _ _ _ => .lag lag

theorem alike_outOfBudget {related : like.World → α → β → Prop} :
    like.Alike moves world related Run.outOfBudget Run.outOfBudget :=
  fun _ _ _ => .spent

theorem Ends.behind {related : like.World → α → β → Prop} {after : like.World}
    {first : Result α} {second : Result β}
    (transitive : ∀ {finish}, moves after finish → moves world finish)
    (ends : like.Ends moves after related first second) :
    like.Ends moves world related first second := by
  cases ends with
  | done finish onward states found => exact .done finish (transitive onward) states found
  | failed finish onward states found => exact .failed finish (transitive onward) states found
  | spent => exact .spent
  | slack allowed => exact .slack allowed
  | lag allowed => exact .lag allowed

theorem Ends.mapState {inner : like.World} {slower : like.World → like.World → Prop}
    {related implied : like.World → α → β → Prop} {first : Result α} {second : Result β}
    {change changeOther : State → State} (ends : like.Ends moves inner related first second)
    (back : ∀ {after state other}, moves inner after → like.states after state other →
      ∃ final, slower world final ∧ like.states final (change state) (changeOther other) ∧
        ∀ {value found}, related after value found → implied final value found) :
    like.Ends slower world implied (first.mapState change) (second.mapState changeOther) := by
  cases ends with
  | done after moved states found =>
      obtain ⟨final, onward, reached, implies⟩ := back moved states
      exact .done final onward reached (implies found)
  | failed after moved states failing =>
      obtain ⟨final, onward, reached, -⟩ := back moved states
      exact .failed final onward reached failing
  | spent => exact .spent
  | slack allowed => exact .slack allowed
  | lag allowed => exact .lag allowed

theorem Flows.mono {after : like.World} {first second : Flow}
    (flows : like.Flows world first second)
    (carries : ∀ {value other}, like.values world value other → like.values after value other) :
    like.Flows after first second := by
  cases flows with
  | completed => exact .completed
  | returned found => exact .returned (carries found)

theorem Alike.bind {middle : like.World → α → β → Prop} {related : like.World → γ → δ → Prop}
    {first : Run α} {second : Run β} {next : α → Run γ} {other : β → Run δ}
    (transitive : ∀ {start halfway finish}, moves start halfway → moves halfway finish →
      moves start finish)
    (alike : like.Alike moves world middle first second)
    (alikeNext : ∀ {after value found}, moves world after → middle after value found →
      like.Alike moves after related (next value) (other found)) :
    like.Alike moves world related (first >>= next) (second >>= other) := by
  intro state partner states
  change like.Ends moves world related (Run.bind first next state) (Run.bind second other partner)
  have ends := alike state partner states
  unfold Run.bind
  generalize first state = result, second partner = answer at ends ⊢
  cases ends with
  | done after moved reached found =>
      exact (alikeNext moved found _ _ reached).behind (transitive moved)
  | failed after moved reached failure => exact .failed after moved reached failure
  | spent => exact .spent
  | slack allowed => exact .slack allowed
  | lag allowed => exact .lag allowed

end Likeness

end Lox
