import Lox.Proofs.Number.Binary64
import Lox.Proofs.Tree.Saved

/-!
What loading refuses first: parts are loaded in the order of the file, children in
the order of their node, and nothing behind the first part that is refused matters.
-/

namespace Lox

def NodeKind.children : NodeKind → List String
  | literal => ["value"]
  | grouping => ["expression"]
  | unary => ["operator", "operand"]
  | binary => ["left", "operator", "right"]
  | logical => ["left", "operator", "right"]
  | ident => ["name"]
  | assign => ["name", "value"]
  | call => ["callee", "paren", "arguments"]
  | member => ["target", "name"]
  | setMember => ["target", "name", "value"]
  | this => ["keyword"]
  | super => ["keyword", "method"]
  | expr => ["expression"]
  | print => ["expression"]
  | var => ["name", "initializer"]
  | block => ["statements"]
  | ifThen => ["condition", "then_branch", "else_branch"]
  | whileLoop => ["condition", "body"]
  | function => ["name", "params", "body"]
  | returnStmt => ["keyword", "value"]
  | classDecl => ["name", "superclass", "methods"]

namespace Tree

section FirstRefusal

variable {α : Type} {load : α → Except LoadError Tree} {error : LoadError}

def FirstRefusal (load : α → Except LoadError Tree) (items : List α) (error : LoadError) : Prop :=
  ∃ before item after, items = before ++ item :: after ∧
    (∀ other ∈ before, ∃ tree, load other = .ok tree) ∧ load item = .error error

@[simp] theorem firstRefusal_nil : ¬ FirstRefusal load [] error := by
  rintro ⟨before, item, after, split, -⟩
  simp at split

@[simp] theorem firstRefusal_cons {first : α} {rest : List α} :
    FirstRefusal load (first :: rest) error ↔
      load first = .error error ∨
        (∃ tree, load first = .ok tree) ∧ FirstRefusal load rest error := by
  constructor
  · rintro ⟨before, item, after, split, sound, refused⟩
    cases before with
    | nil =>
      obtain ⟨rfl, rfl⟩ := List.cons.inj split
      exact .inl refused
    | cons head before =>
      obtain ⟨rfl, rfl⟩ := List.cons.inj split
      rw [List.forall_mem_cons] at sound
      exact .inr ⟨sound.1, before, item, after, rfl, sound.2, refused⟩
  · rintro (refused | ⟨loaded, before, item, after, rfl, sound, refused⟩)
    · exact ⟨[], first, rest, rfl, by simp, refused⟩
    · exact ⟨first :: before, item, after, rfl, List.forall_mem_cons.2 ⟨loaded, sound⟩, refused⟩

end FirstRefusal

section Parts

variable {α β : Type} {error : LoadError}

theorem map_eq_error {part : Except LoadError α} {build : α → β} :
    build <$> part = .error error ↔ part = .error error := by
  cases part <;> simp [Functor.map, Except.map]

theorem bind_eq_error {part : Except LoadError α} {next : α → Except LoadError β} :
    part >>= next = .error error ↔
      part = .error error ∨ ∃ value, part = .ok value ∧ next value = .error error := by
  cases part <;> simp [bind, Except.bind]

theorem map_eq_ok {part : Except LoadError α} {build : α → β} {result : β} :
    build <$> part = .ok result ↔ ∃ given, part = .ok given ∧ build given = result := by
  cases part <;> simp [Functor.map, Except.map]

theorem bind_eq_ok {part : Except LoadError α} {next : α → Except LoadError β} {result : β} :
    part >>= next = .ok result ↔ ∃ given, part = .ok given ∧ next given = .ok result := by
  cases part <;> simp [bind, Except.bind]

theorem ofJsonList_eq_error {items : List Json} :
    ofJsonList items = .error error ↔ FirstRefusal ofJson items error := by
  induction items with
  | nil => simp [ofJsonList]
  | cons first rest ih =>
    simp only [ofJsonList, firstRefusal_cons, bind_eq_error, ih]
    simp [pure, Except.pure]

theorem ofChildren_eq_error {kind : NodeKind} {child : String → Except LoadError Tree} :
    ofChildren kind child = .error error ↔ FirstRefusal child kind.children error := by
  cases kind <;>
    simp [ofChildren, NodeKind.children, bind_eq_error, pure, Except.pure, -bind_pure_comp]

end Parts

theorem ofInt_eq_error {value : Int} {error : LoadError} :
    ofInt value = .error error ↔
      error = .hugeInteger ∧ Binary64.overflow ≤ value.natAbs := by
  rw [← Binary64.nearest_eq_infinity_iff, ofInt]
  split
  next huge => simp [huge, eq_comm]
  next finite => simp [finite]

theorem lookup_ofJsonFields (key : Text) (fields : List (Text × Json)) :
    (ofJsonFields fields).lookup key = (fields.lookup key).map ofJson := by
  induction fields with
  | nil => rfl
  | cons first rest ih =>
    obtain ⟨name, value⟩ := first
    rw [ofJsonFields, List.lookup_cons, List.lookup_cons, ih]
    split <;> rfl

def loadChild (fields : List (Text × Json)) (key : String) : Except LoadError Tree :=
  match Json.field? key fields with
  | some value => ofJson value
  | none => .ok nil

theorem loadChild_eq_error {fields : List (Text × Json)} {key : String} {error : LoadError} :
    loadChild fields key = .error error ↔
      ∃ child, Json.field? key fields = some child ∧ ofJson child = .error error := by
  rw [loadChild]
  cases Json.field? key fields <;> simp

theorem loadChild_eq_ok {fields : List (Text × Json)} {key : String} :
    (∃ tree, loadChild fields key = .ok tree) ↔
      ∀ child, Json.field? key fields = some child → ∃ tree, ofJson child = .ok tree := by
  rw [loadChild]
  cases Json.field? key fields <;> simp

theorem ofJson_node {fields : List (Text × Json)} {name : Text} {kind : NodeKind}
    (unmarked : ¬ isText "Token" (Json.field? "__type__" fields))
    (typed : Json.field? "type" fields = some (.string name))
    (known : name.string?.bind NodeKind.ofName? = some kind) :
    ofJson (.object fields) = ofChildren kind (loadChild fields) := by
  have child : (fun key => ((ofJsonFields fields).lookup (Text.ofString key)).getD (.ok nil)) =
      loadChild fields := by
    funext key
    rw [lookup_ofJsonFields, loadChild, Json.field?]
    cases fields.lookup (Text.ofString key) <;> rfl
  rw [ofJson, ofFields, if_neg unmarked, typed]
  simp only [known, child]

end Tree

def Json.Loads (data : Json) : Prop :=
  ∃ tree, Tree.ofJson data = .ok tree

/-- Data of which the first part that cannot be loaded is a whole number outside tokens that is
too large for a double. -/
inductive Json.Overflows : Json → Prop
  | int {value : Int} (huge : Binary64.overflow ≤ value.natAbs) : Overflows (.int value)
  | list {before after : List Json} {item : Json} (sound : ∀ other ∈ before, Loads other)
      (overflows : Overflows item) : Overflows (.list (before ++ item :: after))
  | node {fields : List (Text × Json)} {name : Text} {kind : NodeKind}
      {before after : List String} {key : String} {child : Json}
      (unmarked : ¬ Tree.isText "Token" (field? "__type__" fields))
      (typed : field? "type" fields = some (.string name))
      (known : name.string?.bind NodeKind.ofName? = some kind)
      (order : kind.children = before ++ key :: after)
      (sound : ∀ other ∈ before, ∀ value, field? other fields = some value → Loads value)
      (present : field? key fields = some child) (overflows : Overflows child) :
      Overflows (.object fields)

namespace Tree

theorem require_eq_error {key : String} {fields : List (Text × Json)} {error : LoadError} :
    Json.require key fields = .error error ↔
      error = .missingKey key ∧ Json.field? key fields = none := by
  rw [Json.require]
  cases Json.field? key fields <;> simp [eq_comm]

theorem require_eq_ok {key : String} {fields : List (Text × Json)} {value : Json} :
    Json.require key fields = .ok value ↔ Json.field? key fields = some value := by
  rw [Json.require]
  cases Json.field? key fields <;> simp

theorem token_ne_hugeInteger {fields : List (Text × Json)} :
    SavedToken.ofFields fields ≠ .error .hugeInteger := by
  intro refused
  simp only [SavedToken.ofFields, bind_eq_error, require_eq_error, reduceCtorEq, false_and,
    false_or] at refused
  obtain ⟨kind, -, refused⟩ := refused
  have tail (kind : Except LoadError Kind) (other : kind ≠ .error .hugeInteger) :
      (do
        let kind ← kind
        let lexeme ← Json.require "lexeme" fields
        let line ← Json.require "line" fields
        Except.ok (⟨kind, lexeme, line, (Json.field? "literal" fields).getD .null⟩ : SavedToken))
        ≠ .error .hugeInteger := by
    simp [bind_eq_error, require_eq_error, other]
  split at refused
  · split at refused <;> exact tail _ (by simp) refused
  · exact tail _ (by simp) refused
  · exact tail _ (by simp) refused
  · exact tail _ (by simp) refused

theorem node_of_ofFields_eq_hugeInteger {fields : List (Text × Json)}
    (refused : ofJson (.object fields) = .error .hugeInteger) :
    ∃ name kind, ¬ isText "Token" (Json.field? "__type__" fields) ∧
      Json.field? "type" fields = some (.string name) ∧
      name.string?.bind NodeKind.ofName? = some kind ∧
      FirstRefusal (loadChild fields) kind.children .hugeInteger := by
  by_cases marked : isText "Token" (Json.field? "__type__" fields)
  · rw [ofJson, ofFields, if_pos marked, map_eq_error] at refused
    exact absurd refused token_ne_hugeInteger
  cases typed : Json.field? "type" fields with
  | none => simp [ofJson, ofFields, marked, typed] at refused
  | some kind =>
    cases kind with
    | string name =>
      cases known : name.string?.bind NodeKind.ofName? with
      | none => simp [ofJson, ofFields, marked, typed, known] at refused
      | some kind =>
        rw [ofJson_node marked typed known, ofChildren_eq_error] at refused
        exact ⟨name, kind, marked, rfl, known, refused⟩
    | _ => simp [ofJson, ofFields, marked, typed] at refused

theorem overflows_of_ofJson : (data : Json) →
    ofJson data = .error .hugeInteger → data.Overflows
  | .null, refused | .bool _, refused | .float _, refused | .string _, refused => by
      simp [ofJson] at refused
  | .int value, refused => by
      rw [ofJson, ofInt_eq_error] at refused
      exact .int refused.2
  | .list items, refused => by
      rw [ofJson, map_eq_error, ofJsonList_eq_error] at refused
      obtain ⟨before, item, after, split, sound, refused⟩ := refused
      have member : item ∈ items := by simp [split]
      rw [split]
      exact .list sound (overflows_of_ofJson item refused)
  | .object fields, refused => by
      obtain ⟨name, kind, unmarked, typed, known, before, key, after, order, sound, refused⟩ :=
        node_of_ofFields_eq_hugeInteger refused
      obtain ⟨child, present, refused⟩ := loadChild_eq_error.1 refused
      have member : (Text.ofString key, child) ∈ fields := mem_of_lookup present
      exact .node unmarked typed known order
        (fun other earlier => loadChild_eq_ok.1 (sound other earlier)) present
        (overflows_of_ofJson child refused)
termination_by data => sizeOf data
decreasing_by
  · have smaller := List.sizeOf_lt_of_mem member
    simp only [Json.list.sizeOf_spec]
    omega
  · have smaller := List.sizeOf_lt_of_mem member
    simp only [Json.object.sizeOf_spec, Prod.mk.sizeOf_spec] at smaller ⊢
    omega

/-- Loading stops at a number that is too large exactly when such a number comes first. -/
theorem ofJson_eq_hugeInteger {data : Json} :
    ofJson data = .error .hugeInteger ↔ data.Overflows := by
  refine ⟨overflows_of_ofJson data, fun overflows => ?_⟩
  induction overflows with
  | int huge =>
    rw [ofJson, ofInt_eq_error]
    exact ⟨rfl, huge⟩
  | list sound _ ih =>
    rw [ofJson, map_eq_error, ofJsonList_eq_error]
    exact ⟨_, _, _, rfl, sound, ih⟩
  | node unmarked typed known order sound present _ ih =>
    rw [ofJson_node unmarked typed known, ofChildren_eq_error]
    exact ⟨_, _, _, order, fun other earlier => loadChild_eq_ok.2 (sound other earlier),
      loadChild_eq_error.2 ⟨_, present, ih⟩⟩

end Tree

end Lox
