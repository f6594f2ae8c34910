import Lox.Proofs.Tree.Loading

/-!
Loading normalises.  What is saved after loading differs from what was loaded in known ways
only, and loading and saving it once more changes nothing.
-/

namespace Lox

namespace Json

def normalToken (fields : List (Text × Json)) : Json :=
  .object
    [("__type__", .string "Token"), ("kind", (field? "kind" fields).getD .null),
     ("lexeme", (field? "lexeme" fields).getD .null), ("line", (field? "line" fields).getD .null),
     ("literal", (field? "literal" fields).getD .null)]

def nodeKind? (fields : List (Text × Json)) : Option NodeKind :=
  match field? "type" fields with
  | some (.string name) => name.string?.bind NodeKind.ofName?
  | _ => none

/-- What becomes of an object, given what becomes of its fields: a node keeps its children in
their order, with null for those that are missing. -/
def normalObject (fields normal : List (Text × Json)) : Json :=
  if Tree.isText "Token" (field? "__type__" fields) then normalToken fields
  else
    match nodeKind? fields with
    | some kind => Tree.nodeObject kind
        (kind.children.map fun key => (Text.ofString key, (field? key normal).getD .null))
    | none => .object fields

mutual

/-- The data as it is saved after loading: whole numbers outside tokens are doubles. -/
def normalized : Json → Json
  | null => null
  | bool value => bool value
  | int value => float (Binary64.toFloat (value < 0) (Binary64.nearest value.natAbs 1))
  | float value => float value
  | string value => string value
  | list items => list (normalizedList items)
  | object fields => normalObject fields (normalizedFields fields)

def normalizedList : List Json → List Json
  | [] => []
  | first :: rest => normalized first :: normalizedList rest

def normalizedFields : List (Text × Json) → List (Text × Json)
  | [] => []
  | (key, value) :: rest => (key, normalized value) :: normalizedFields rest

end

theorem lookup_normalizedFields (key : Text) (fields : List (Text × Json)) :
    (normalizedFields fields).lookup key = (fields.lookup key).map normalized := by
  induction fields with
  | nil => rfl
  | cons first rest ih =>
    obtain ⟨name, value⟩ := first
    rw [normalizedFields, List.lookup_cons, List.lookup_cons, ih]
    split <;> rfl

end Json

namespace Tree

theorem toJson_of_ofChildren {kind : NodeKind} {child : String → Except LoadError Tree}
    {saved : String → Json} {tree : Tree} (built : ofChildren kind child = .ok tree)
    (each : ∀ key part, child key = .ok part → part.toJson = saved key) :
    tree.toJson =
      nodeObject kind (kind.children.map fun key => (Text.ofString key, saved key)) := by
  cases kind with
  | literal | grouping | ident | this | expr | print | block =>
    simp only [ofChildren, bind_eq_ok, pure, Except.pure, Except.ok.injEq] at built
    obtain ⟨first, found, rfl⟩ := built
    simp [toJson, NodeKind.children, each _ _ found]
  | unary | assign | member | super | var | whileLoop | returnStmt =>
    simp only [ofChildren, bind_eq_ok, pure, Except.pure, Except.ok.injEq] at built
    obtain ⟨first, found, second, next, rfl⟩ := built
    simp [toJson, NodeKind.children, each _ _ found, each _ _ next]
  | binary | logical | call | setMember | ifThen | function | classDecl =>
    simp only [ofChildren, bind_eq_ok, pure, Except.pure, Except.ok.injEq] at built
    obtain ⟨first, found, second, next, third, last, rfl⟩ := built
    simp [toJson, NodeKind.children, each _ _ found, each _ _ next, each _ _ last]

theorem toJson_of_ofFields {fields : List (Text × Json)} {token : SavedToken}
    (loaded : SavedToken.ofFields fields = .ok token) :
    token.toJson = Json.normalToken fields := by
  simp only [SavedToken.ofFields, bind_eq_ok, require_eq_ok] at loaded
  obtain ⟨written, kindFound, loaded⟩ := loaded
  cases written with
  | string name =>
    cases known : name.string?.bind Kind.ofName? with
    | none => simp [known, bind, Except.bind] at loaded
    | some kind =>
      simp only [known, bind_eq_ok, require_eq_ok, Except.ok.injEq] at loaded
      obtain ⟨_, rfl, lexeme, spelled, line, placed, rfl⟩ := loaded
      obtain ⟨string, whole, named⟩ := Option.bind_eq_some_iff.1 known
      rw [SavedToken.toJson, Json.normalToken, kindFound, spelled, placed,
        Text.eq_of_string? whole, Kind.name_of_ofName? named]
      rfl
  | _ => simp [bind, Except.bind] at loaded

theorem ofFields_node {fields : List (Text × Json)} {tree : Tree}
    (unmarked : ¬ isText "Token" (Json.field? "__type__" fields))
    (loaded : ofJson (.object fields) = .ok tree) :
    ∃ kind, Json.nodeKind? fields = some kind ∧ ofChildren kind (loadChild fields) = .ok tree := by
  rw [Json.nodeKind?]
  cases typed : Json.field? "type" fields with
  | none => simp [ofJson, ofFields, unmarked, typed] at loaded
  | some kind =>
    cases kind with
    | string name =>
      cases known : name.string?.bind NodeKind.ofName? with
      | none => simp [ofJson, ofFields, unmarked, typed, known] at loaded
      | some kind =>
        rw [ofJson_node unmarked typed known] at loaded
        exact ⟨kind, known, loaded⟩
    | _ => simp [ofJson, ofFields, unmarked, typed] at loaded

theorem toJson_of_ofInt {value : Int} {tree : Tree} (loaded : ofInt value = .ok tree) :
    tree.toJson = (Json.int value).normalized := by
  rw [ofInt] at loaded
  split at loaded
  next => simp at loaded
  next =>
    cases loaded
    rfl

mutual

theorem toJson_of_ofJson : (data : Json) → (tree : Tree) → ofJson data = .ok tree →
    tree.toJson = data.normalized
  | .null, _, loaded | .bool _, _, loaded | .float _, _, loaded | .string _, _, loaded => by
      cases loaded
      rfl
  | .int value, tree, loaded => toJson_of_ofInt loaded
  | .list items, tree, loaded => by
      rw [ofJson, map_eq_ok] at loaded
      obtain ⟨trees, found, rfl⟩ := loaded
      rw [toJson, Json.normalized, toJsonList_of_ofJsonList items trees found]
  | .object fields, tree, loaded => by
      rw [Json.normalized, Json.normalObject]
      by_cases marked : isText "Token" (Json.field? "__type__" fields)
      · rw [ofJson, ofFields, if_pos marked, map_eq_ok] at loaded
        obtain ⟨token, found, rfl⟩ := loaded
        rw [if_pos marked, toJson, toJson_of_ofFields found]
      · obtain ⟨kind, known, built⟩ := ofFields_node marked loaded
        rw [if_neg marked, known]
        refine toJson_of_ofChildren built fun key part found => ?_
        rw [loadChild] at found
        rw [Json.field?, Json.lookup_normalizedFields]
        cases present : fields.lookup (Text.ofString key) with
        | none =>
          simp only [Json.field?, present, Except.ok.injEq] at found
          cases found
          rfl
        | some child =>
          simp only [Json.field?, present] at found
          exact toJson_of_mem fields _ child present part found

theorem toJsonList_of_ofJsonList : (items : List Json) → (trees : List Tree) →
    ofJsonList items = .ok trees → toJsonList trees = Json.normalizedList items
  | [], _, loaded => by
      cases loaded
      rfl
  | first :: rest, _, loaded => by
      simp only [ofJsonList, bind_eq_ok, pure, Except.pure, Except.ok.injEq] at loaded
      obtain ⟨tree, found, trees, others, rfl⟩ := loaded
      rw [toJsonList, Json.normalizedList, toJson_of_ofJson first tree found,
        toJsonList_of_ofJsonList rest trees others]

theorem toJson_of_mem : (fields : List (Text × Json)) → (key : Text) → (child : Json) →
    fields.lookup key = some child → (part : Tree) → ofJson child = .ok part →
    part.toJson = child.normalized
  | [], _, _, found => by simp at found
  | (name, value) :: rest, key, child, found => by
      rw [List.lookup_cons] at found
      split at found
      next =>
        cases found
        exact toJson_of_ofJson value
      next => exact toJson_of_mem rest key child found

end

/-- Loading what was saved after loading gives the same tree again; what was saved is the normal
form of what was loaded at first, and its own normal form. -/
theorem ofJson_stable {data : Json} {tree : Tree} (loaded : ofJson data = .ok tree) :
    ofJson tree.toJson = .ok tree ∧ tree.toJson = data.normalized ∧
      tree.toJson.normalized = tree.toJson :=
  ⟨ofJson_toJson tree, toJson_of_ofJson data tree loaded,
    (toJson_of_ofJson tree.toJson tree (ofJson_toJson tree)).symm⟩

/-- A whole number, a token on an odd line, a field that nobody asks for and a child that is
missing. -/
theorem ofJson_stable_written_by_hand :
    ∃ (data : Json) (tree : Tree), ofJson data = .ok tree ∧
      (ofJson tree.toJson = .ok tree ∧ tree.toJson = data.normalized ∧
        tree.toJson.normalized = tree.toJson) ∧ tree.toJson ≠ data := by
  let token : Json := .object [("line", .list []), ("kind", .string "PLUS"), ("lexeme", .int 1),
    ("__type__", .string "Token"), ("type", .string "Block")]
  let data : Json := .object [("left", .int 3), ("note", .int 4), ("operator", token),
    ("type", .string "BinaryOp")]
  let three : Tree := .number (Binary64.toFloat false (Binary64.nearest 3 1))
  have whole : ofJson (.int 3) = .ok three := by
    have finite : Binary64.nearest 3 1 ≠ Binary64.infinity := fun huge =>
      absurd ((Binary64.nearest_eq_infinity_iff 3).1 huge) (by decide +kernel)
    rw [ofJson, ofInt]
    exact if_neg finite
  have operator : ofJson token = .ok (.token ⟨.plus, .int 1, .list [], .null⟩) := rfl
  have loaded : ofJson data =
      .ok (.binary three (.token ⟨.plus, .int 1, .list [], .null⟩) .nil) := by
    rw [ofJson_node (by simp [Json.field?, isText, List.lookup]) rfl rfl]
    simp [ofChildren, loadChild, Json.field?, List.lookup, whole, operator]
    rfl
  refine ⟨data, _, loaded, ofJson_stable loaded, fun same => ?_⟩
  simp [data, toJson, nodeObject, three] at same

end Tree

end Lox
