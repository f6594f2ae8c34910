import Lox.Proofs.Run.Prompt

/-!
Tracing changes nothing but the trace, and a higher level only adds messages to it.
-/

namespace Lox

/-- The second trace holds the messages of the first in their order, and others between them. -/
def Tracing (fewer more : Array TraceEntry) : Prop :=
  fewer.toList.Sublist more.toList

namespace Tracing

theorem push {fewer more : Array TraceEntry} (tracing : Tracing fewer more) (entry : TraceEntry) :
    Tracing (fewer.push entry) (more.push entry) := by
  simp only [Tracing, Array.toList_push]
  exact tracing.append (List.Sublist.refl _)

theorem push_right {fewer more : Array TraceEntry} (tracing : Tracing fewer more)
    (entry : TraceEntry) : Tracing fewer (more.push entry) := by
  simp only [Tracing, Array.toList_push]
  exact tracing.trans (List.sublist_append_left _ _)

theorem traces (level extra : Nat) (clock : Nat → Option Float) :
    Realm.Traces Tracing ⟨level, clock⟩ ⟨level + extra, clock⟩ where
  clock := rfl
  levels := Nat.le_add_right _ _
  both entry tracing := tracing.push entry
  ahead entry _ tracing := tracing.push_right entry

end Tracing

namespace Session

open Likeness Realm

abbrev tracing : Likeness :=
  (parsed fun _ => True).likeness Tracing

variable {level extra : Nat} {clock : Nat → Option Float} {budget : Nat}

theorem alike_runSource (source : String) :
    tracing.Alike (fun _ _ => True) () (fun _ => Eq)
      (runSource ⟨level, clock⟩ budget source)
      (runSource ⟨level + extra, clock⟩ budget source) := by
  have closed : (parsed fun _ => True).Closed Tracing ⟨level, clock⟩ ⟨level + extra, clock⟩ :=
    Parsed.closed (fun _ => trivial) (fun _ => trivial)
  simp only [runSource]
  split
  · have admitted : ∀ tree ∈ Stmt.toTrees (Program.ofSource source).statements,
        (parsed fun _ => True).stmts tree := by
      intro tree member
      rw [Stmt.toTrees_eq_map] at member
      obtain ⟨statement, found, rfl⟩ := List.mem_map.1 member
      exact ⟨statement, Program.ofSource_proper source statement found, rfl⟩
    refine (closed.alike_interpret (Tracing.traces level extra clock) budget admitted).bind
      (fun _ _ => trivial) ?_
    rintro _ outcome _ - ⟨rfl, -⟩
    exact alike_pure trivial rfl
  · exact alike_pure trivial rfl

theorem alike_reports (sources : List String) :
    tracing.Alike (fun _ _ => True) () (fun _ => Eq)
      (reports ⟨level, clock⟩ budget sources)
      (reports ⟨level + extra, clock⟩ budget sources) := by
  induction sources with
  | nil => exact alike_pure trivial rfl
  | cons source rest ih =>
    refine (alike_runSource source).bind (fun _ _ => trivial) ?_
    rintro ⟨⟩ report _ - rfl
    refine ih.bind (fun _ _ => trivial) ?_
    rintro ⟨⟩ others _ - rfl
    exact alike_pure trivial rfl

theorem plain_initial : State.initial.Plain := by
  intro scope entry member
  rw [mem_own_initial member]
  trivial

theorem ends_retraced {α : Type} {first second : Result α}
    (ends : tracing.Ends (fun _ _ => True) () (fun _ => Eq) first second) :
    ∃ trace, second = first.mapState (fun state => { state with trace }) ∧
      ∀ after, first.state? = some after → Tracing after.trace trace := by
  cases ends with
  | done _ _ twins same =>
    obtain ⟨trace, -, traced⟩ := twins
    cases same
    refine ⟨trace, rfl, ?_⟩
    rintro _ ⟨⟩
    exact traced
  | failed _ _ twins same =>
    obtain ⟨trace, -, traced⟩ := twins
    obtain ⟨rfl, -⟩ := same
    refine ⟨trace, rfl, ?_⟩
    rintro _ ⟨⟩
    exact traced
  | spent => exact ⟨#[], rfl, nofun⟩
  | slack impossible | lag impossible => exact impossible.elim

/-- Sources that run one after the other at a higher level end as they do at the lower one, in the
same state but for the trace, which holds the lower one. -/
theorem reports_tracing (clock : Nat → Option Float) (budget : Nat) (sources : List String)
    (level extra : Nat) :
    ∃ trace, reports ⟨level + extra, clock⟩ budget sources .initial =
        (reports ⟨level, clock⟩ budget sources .initial).mapState
          (fun state => { state with trace }) ∧
      ∀ after, (reports ⟨level, clock⟩ budget sources .initial).state? = some after →
        after.trace.toList.Sublist trace.toList :=
  ends_retraced (alike_reports sources _ _
    (.intro #[] plain_initial (List.Sublist.refl _)))

end Session

end Lox
