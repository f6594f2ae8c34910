import Lox.Syntax.Parse
import Lox.Proofs.Syntax.Reads

/-!
Two readers in lockstep.  What relates their single steps relates all that is built of them.
Two steps are settled on short token lists when they are related there, leave what they have
not read, and take a given number of tokens when they succeed.
-/

namespace Lox

/-- A relation between the steps of two readers that every way to build a step keeps.  In front
of the given tokens, the steps only break a declaration if `breaks` holds, and a value and the
tokens left behind it are of the given form. -/
structure Lockstep {m n : Type → Type} [Monad m] [Monad n] (stop : Token) (first : Reader m)
    (second : Reader n) where
  Agree {α : Type} (breaks : Prop) (form : α → List Token → Prop) (tokens : List Token) :
    m α → n α → Prop
  weaken {α : Type} {breaks more : Prop} {form result : α → List Token → Prop}
    {tokens : List Token} {step : m α} {other : n α} :
    Agree breaks form tokens step other → (breaks → more) →
    (∀ value rest, form value rest → result value rest) → Agree more result tokens step other
  gives {α : Type} {breaks : Prop} {form : α → List Token → Prop} {tokens : List Token}
    {value : α} : form value tokens → Agree breaks form tokens (pure value) (pure value)
  bind {α β : Type} {breaks : Prop} {form : α → List Token → Prop}
    {result : β → List Token → Prop} {tokens : List Token} {step : m α} {other : n α}
    {next : α → m β} {after : α → n β} :
    Agree breaks form tokens step other →
    (∀ value rest, form value rest → Agree breaks result rest (next value) (after value)) →
    Agree breaks result tokens (step >>= next) (other >>= after)
  map {α β : Type} {breaks : Prop} {form : α → List Token → Prop}
    {result : β → List Token → Prop} {tokens : List Token} {step : m α} {other : n α}
    {change : α → β} :
    Agree breaks form tokens step other →
    (∀ value rest, form value rest → result (change value) rest) →
    Agree breaks result tokens (change <$> step) (change <$> other)
  note {breaks : Prop} {form : Unit → List Token → Prop} {tokens : List Token} (token : Token)
    (problem : Problem) : form () tokens →
    Agree breaks form tokens (first.note token problem) (second.note token problem)
  next {breaks : Prop} {form : Token → List Token → Prop} {tokens : List Token} :
    form (tokens.headD stop) tokens → Agree breaks form tokens first.next second.next
  skip {breaks : Prop} {form : Unit → List Token → Prop} {token : Token} {tail : List Token} :
    form () tail → Agree breaks form (token :: tail) first.skip second.skip
  sees {breaks : Prop} {form : Bool → List Token → Prop} {tokens : List Token} (kind : Kind) :
    form (tokens.head?.any (·.kind = kind)) tokens →
    Agree breaks form tokens (first.sees kind) (second.sees kind)
  blockEnds {breaks : Prop} {form : Bool → List Token → Prop} {tokens : List Token} :
    form (tokens.head?.all (·.kind = .rightBrace)) tokens →
    Agree breaks form tokens first.blockEnds second.blockEnds
  atEnd {breaks : Prop} {form : Bool → List Token → Prop} {tokens : List Token} :
    form tokens.isEmpty tokens → Agree breaks form tokens first.atEnd second.atEnd
  accept? {breaks : Prop} {form : Option Token → List Token → Prop} {tokens : List Token}
    (kinds : List Kind) : (Parser.Clear kinds tokens → form none tokens) →
    (∀ token tail, tokens = token :: tail → token.kind ∈ kinds → form (some token) tail) →
    Agree breaks form tokens (first.accept? kinds) (second.accept? kinds)
  fail {α : Type} {breaks : Prop} {form : α → List Token → Prop} {tokens : List Token}
    (what : String) : breaks → Agree breaks form tokens (first.fail what) (second.fail what)
  recover {α : Type} {breaks : Prop} {tokens : List Token} {step : m α} {other : n α} :
    tokens ≠ [] → Agree True (fun _ rest => rest.length + 1 ≤ tokens.length) tokens step other →
    Agree breaks (fun _ rest => rest.length + 1 ≤ tokens.length) tokens (first.recover step)
      (second.recover other)

namespace Lockstep

variable {m n : Type → Type} [Monad m] [Monad n] {stop : Token} {first : Reader m}
  {second : Reader n} {pair : Lockstep stop first second} {α β : Type} {gain limit : Nat}

/-- The steps agree on the given tokens and take at least `gain` of them. -/
def Settles (pair : Lockstep stop first second) (gain : Nat) (step : m α) (other : n α)
    (tokens : List Token) : Prop :=
  pair.Agree True (fun _ rest => rest.length + gain ≤ tokens.length) tokens step other

def Settled (pair : Lockstep stop first second) (gain limit : Nat) (step : m α) (other : n α) :
    Prop :=
  ∀ tokens : List Token, tokens.length ≤ limit → pair.Settles gain step other tokens

theorem Settles.weaken {more : Nat} {step : m α} {other : n α} {tokens : List Token}
    (settles : pair.Settles more step other tokens) (less : gain ≤ more) :
    pair.Settles gain step other tokens :=
  pair.weaken settles id fun _ _ _ => by omega

theorem Settled.weaken {more : Nat} {step : m α} {other : n α}
    (settled : pair.Settled more limit step other) (less : gain ≤ more) :
    pair.Settled gain limit step other :=
  fun tokens short => (settled tokens short).weaken less

theorem settled_pure (value : α) : pair.Settled 0 limit (pure value) (pure value) :=
  fun _ _ => pair.gives (Nat.le_refl _)

theorem settled_fail (what : String) :
    pair.Settled gain limit (first.fail what : m α) (second.fail what) :=
  fun _ _ => pair.fail what trivial

theorem Settles.bind {taken : Nat} {step : m α} {other : n α} {next : α → m β} {after : α → n β}
    {tokens : List Token} (settles : pair.Settles taken step other tokens) (more : Nat)
    (enough : gain ≤ taken + more)
    (rest : ∀ value middle, middle.length + taken ≤ tokens.length →
      pair.Settles more (next value) (after value) middle) :
    pair.Settles gain (step >>= next) (other >>= after) tokens :=
  pair.bind settles fun value middle bound =>
    pair.weaken (rest value middle bound) id fun _ _ _ => by omega

theorem Settled.bind {taken : Nat} {step : m α} {other : n α} {next : α → m β}
    {after : α → n β} (settled : pair.Settled taken limit step other) (more : Nat)
    (enough : gain ≤ taken + more)
    (rest : taken ≤ limit → ∀ value,
      pair.Settled more (limit - taken) (next value) (after value)) :
    pair.Settled gain limit (step >>= next) (other >>= after) :=
  fun tokens short => (settled tokens short).bind more enough fun value middle bound =>
    rest (by omega) value middle (by omega)

theorem Settled.leading {step : m α} {other : n α} {next : α → m β} {after : α → n β}
    (settled : pair.Settled 1 limit step other)
    (rest : 1 ≤ limit → ∀ value, pair.Settled 0 (limit - 1) (next value) (after value)) :
    pair.Settled 1 limit (step >>= next) (other >>= after) :=
  settled.bind 0 (Nat.le_refl 1) rest

theorem Settled.andThen {taken : Nat} {step : m α} {other : n α} {next : α → m β}
    {after : α → n β} (settled : pair.Settled taken limit step other)
    (rest : ∀ value, pair.Settled 0 limit (next value) (after value)) :
    pair.Settled 0 limit (step >>= next) (other >>= after) :=
  (settled.weaken (Nat.zero_le taken)).bind 0 (Nat.le_refl 0) fun _ => rest

theorem Settled.map {step : m α} {other : n α} (settled : pair.Settled gain limit step other)
    (change : α → β) : pair.Settled gain limit (change <$> step) (change <$> other) :=
  fun tokens short => pair.map (settled tokens short) fun _ _ => id

theorem Settled.ofAccepted {kinds : List Kind} {absent : m β} {missing : n β}
    {present : Token → m β} {behind : Token → n β}
    (settledAbsent : pair.Settled gain limit absent missing)
    (settledPresent : 1 ≤ limit → ∀ token,
      pair.Settled (gain - 1) (limit - 1) (present token) (behind token)) :
    pair.Settled gain limit
      (first.accept? kinds >>= fun answer => match answer with
        | none => absent
        | some token => present token)
      (second.accept? kinds >>= fun answer => match answer with
        | none => missing
        | some token => behind token) := by
  intro tokens short
  have accepted : pair.Agree True (fun answer rest => answer.toList ++ rest = tokens) tokens
      (first.accept? kinds) (second.accept? kinds) :=
    pair.accept? kinds (fun _ => rfl) fun _ _ split _ => split.symm
  refine pair.bind accepted fun answer rest split => ?_
  subst split
  cases answer with
  | none => exact settledAbsent rest short
  | some token =>
      have length : (token :: rest).length ≤ limit := short
      rw [List.length_cons] at length
      refine pair.weaken (settledPresent (by omega) token rest (by omega)) id ?_
      intro _ left bound
      simp only [Option.toList_some, List.cons_append, List.nil_append, List.length_cons]
      omega

theorem settled_expect (kind : Kind) (what : String) :
    pair.Settled 1 limit (first.expect kind what) (second.expect kind what) := by
  unfold Reader.expect
  apply Settled.ofAccepted
  · exact settled_fail what
  · exact fun _ token => settled_pure token

theorem settled_note (token : Token) (problem : Problem) :
    pair.Settled 0 limit (first.note token problem) (second.note token problem) :=
  fun _ _ => pair.note token problem (Nat.le_refl _)

theorem Settled.skipped {step : m β} {other : n β}
    (settled : pair.Settled (gain - 1) (limit - 1) step other) {token : Token}
    {tail : List Token} (short : (token :: tail).length ≤ limit) :
    pair.Settles gain (first.skip >>= fun _ => step) (second.skip >>= fun _ => other)
      (token :: tail) := by
  have skipped : pair.Agree True (fun _ rest => rest = tail) (token :: tail) first.skip
      second.skip := pair.skip rfl
  rw [List.length_cons] at short
  refine pair.bind skipped fun _ rest same => ?_
  subst same
  refine pair.weaken (settled rest (by omega)) id fun _ left bound => ?_
  rw [List.length_cons]
  omega

theorem Settled.ofNext {step : Token → m β} {other : Token → n β}
    (ended : pair.Settles gain (step stop) (other stop) [])
    (ahead : ∀ token tail, (token :: tail).length ≤ limit →
      pair.Settles gain (step token) (other token) (token :: tail)) :
    pair.Settled gain limit (first.next >>= step) (second.next >>= other) := by
  intro tokens short
  have read : pair.Agree True (fun token rest => token = tokens.headD stop ∧ rest = tokens)
      tokens first.next second.next := pair.next ⟨rfl, rfl⟩
  refine pair.bind read fun token rest same => ?_
  obtain ⟨rfl, rfl⟩ := same
  cases rest with
  | nil => exact ended
  | cons token tail => exact ahead token tail short

theorem Settles.ofLook {answer : Bool} {look : m Bool} {glance : n Bool} {absent present : m β}
    {missing behind : n β} {tokens : List Token}
    (looked : pair.Agree True (fun found rest => found = answer ∧ rest = tokens) tokens look
      glance)
    (settlesPresent : answer = true → pair.Settles gain present behind tokens)
    (settlesAbsent : answer = false → pair.Settles gain absent missing tokens) :
    pair.Settles gain (look >>= fun found => if found = true then present else absent)
      (glance >>= fun found => if found = true then behind else missing) tokens := by
  refine pair.bind looked fun found rest same => ?_
  obtain ⟨rfl, rfl⟩ := same
  cases found with
  | false => exact settlesAbsent rfl
  | true => exact settlesPresent rfl

theorem Settled.ofSeen {kind : Kind} {absent present : m β} {missing behind : n β}
    (settledPresent : 1 ≤ limit → pair.Settled (gain - 1) (limit - 1) present behind)
    (settledAbsent : pair.Settled gain limit absent missing) :
    pair.Settled gain limit
      (first.sees kind >>= fun seen =>
        if seen = true then first.skip >>= fun _ => present else absent)
      (second.sees kind >>= fun seen =>
        if seen = true then second.skip >>= fun _ => behind else missing) := by
  intro tokens short
  refine Settles.ofLook (pair.sees kind ⟨rfl, rfl⟩) ?_ fun _ => settledAbsent tokens short
  intro seen
  cases tokens with
  | nil => simp at seen
  | cons token tail =>
      exact (settledPresent (by rw [List.length_cons] at short; omega)).skipped short

theorem Settled.ofBlockEnds {absent present : m β} {missing behind : n β}
    (settledAbsent : pair.Settled gain limit absent missing)
    (settledPresent : ∀ token tail, (token :: tail).length ≤ limit →
      pair.Settles gain present behind (token :: tail)) :
    pair.Settled gain limit
      (first.blockEnds >>= fun ended => if ended = true then absent else present)
      (second.blockEnds >>= fun ended => if ended = true then missing else behind) := by
  intro tokens short
  refine Settles.ofLook (pair.blockEnds ⟨rfl, rfl⟩) (fun _ => settledAbsent tokens short) ?_
  intro goesOn
  cases tokens with
  | nil => simp at goesOn
  | cons token tail => exact settledPresent token tail short

theorem Settled.unlessSees {taken : Nat} {kind : Kind} {absent : α} {present : m α}
    {behind : n α} (settled : pair.Settled taken limit present behind) :
    pair.Settled 0 limit (first.unlessSees kind absent present)
      (second.unlessSees kind absent behind) :=
  fun tokens short => Settles.ofLook (pair.sees kind ⟨rfl, rfl⟩)
    (fun _ => settled_pure absent tokens short)
    fun _ => (settled tokens short).weaken (Nat.zero_le taken)

theorem Settled.behind? {taken : Nat} {kinds : List Kind} {present : m α} {behind : n α}
    (settled : 1 ≤ limit → pair.Settled taken (limit - 1) present behind) :
    pair.Settled 0 limit (first.behind? kinds present) (second.behind? kinds behind) := by
  apply Settled.ofAccepted
  · exact settled_pure none
  · exact fun nonempty _ => ((settled nonempty).map some).weaken (Nat.zero_le taken)

theorem settled_limit (count : Nat) (problem : Problem) :
    pair.Settled 0 limit (first.limit count problem) (second.limit count problem) := by
  intro tokens short
  unfold Reader.limit
  split
  · have read : pair.Agree True (fun _ rest => rest = tokens) tokens first.next second.next :=
      pair.next rfl
    refine pair.bind read fun token rest same => ?_
    subst same
    exact settled_note token problem rest short
  · exact settled_pure () tokens short

end Lockstep

end Lox
