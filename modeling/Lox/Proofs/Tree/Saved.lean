import Lox.Proofs.Json.ReadBack
import Lox.Tree.Saved

/-!
Trees as data and back: every tree is loaded from its own data.
-/

namespace Lox

@[simp] theorem Text.ofString_inj {left right : String} :
    ofString left = ofString right ↔ left = right := by
  refine ⟨fun same => ?_, congrArg ofString⟩
  have codes : left.toList.map Char.toNat = right.toList.map Char.toNat := congrArg codes same
  exact String.toList_inj.1 ((List.map_inj_right fun _ _ => Char.toNat_inj.1).1 codes)

@[simp] theorem Text.ofString_beq (left right : String) :
    (ofString left == ofString right) = (left == right) := by
  rw [Bool.eq_iff_iff, beq_iff_eq, beq_iff_eq, ofString_inj]

@[simp] theorem Text.string?_ofString (string : String) :
    (Text.ofString string).string? = some string := by
  have whole : (Text.ofString string).isWhole := by
    simp only [isWhole, ofString, ofChars, List.all_map, List.all_eq_true]
    exact fun c _ => decide_eq_true c.valid
  have same : Char.ofNat ∘ Char.toNat = id := funext Char.ofNat_toNat
  rw [string?, if_pos whole, ofString, ofChars]
  simp [same]

theorem Text.eq_of_string? {text : Text} {string : String} (whole : text.string? = some string) :
    text = .ofString string := by
  rw [string?] at whole
  split at whole
  next valid =>
    cases whole
    obtain ⟨codes⟩ := text
    have each : ∀ code ∈ codes, (Char.ofNat code).toNat = code := fun code member => by
      rw [Char.toNat_ofNat, if_pos (by simpa using List.all_eq_true.1 valid code member)]
    have same : codes.map (Char.toNat ∘ Char.ofNat) = codes :=
      (List.map_congr_left each).trans codes.map_id
    rw [ofString, ofChars, String.toList_ofList, List.map_map, same]
  next => cases whole

theorem mem_of_lookup {α β : Type} [BEq α] [LawfulBEq α] {entries : List (α × β)} {key : α}
    {value : β} (found : entries.lookup key = some value) : (key, value) ∈ entries := by
  obtain ⟨before, after, split, -⟩ := List.lookup_eq_some_iff.1 found
  simp [split]

@[simp] theorem Kind.ofName?_name (kind : Kind) : Kind.ofName? kind.name = some kind := by
  have distinct : ∀ entry ∈ table, ofName? entry.2 = some entry.1 := by decide +kernel
  have found : table.lookup kind = some kind.name := by cases kind <;> rfl
  exact distinct _ (mem_of_lookup found)

theorem Kind.name_of_ofName? {name : String} {kind : Kind} (found : ofName? name = some kind) :
    kind.name = name := by
  obtain ⟨entry, listed, rfl⟩ := Option.map_eq_some_iff.1 found
  have named : ∀ entry ∈ table, entry.1.name = entry.2 := by decide
  rw [named entry (List.mem_of_find?_eq_some listed)]
  simpa using List.find?_some listed

@[simp] theorem NodeKind.ofName?_name (kind : NodeKind) :
    NodeKind.ofName? kind.name = some kind := by
  have distinct : ∀ entry ∈ table, ofName? entry.2 = some entry.1 := by decide +kernel
  have found : table.lookup kind = some kind.name := by cases kind <;> rfl
  exact distinct _ (mem_of_lookup found)

namespace Tree

theorem ofJson_token (token : SavedToken) : ofJson token.toJson = .ok (.token token) := by
  simp [SavedToken.toJson, ofJson, ofFields, isText, SavedToken.ofFields, Json.require, Json.field?,
    List.lookup, bind, Except.bind, Functor.map, Except.map]

theorem ofJson_nodeObject {kind : NodeKind} {children : List (Text × Json)}
    (untyped : children.lookup (Text.ofString "__type__") = none) :
    ofJson (nodeObject kind children) =
      ofChildren kind fun key =>
        ((ofJsonFields (("type", .string kind.name) :: children)).lookup (Text.ofString key)).getD
          (.ok nil) := by
  simp [nodeObject, ofJson, ofFields, isText, Json.field?, List.lookup, untyped]

mutual

/-- Every tree is loaded from its own data. -/
theorem ofJson_toJson : (tree : Tree) → ofJson tree.toJson = .ok tree
  | nil => rfl
  | bool _ => rfl
  | number _ => rfl
  | text _ => rfl
  | list items => by
      rw [toJson, ofJson, ofJsonList_toJsonList items]
      rfl
  | token saved => by
      rw [toJson]
      exact ofJson_token saved
  | literal a | grouping a | ident a | this a | expr a | print a | block a => by
      have first := ofJson_toJson a
      rw [toJson, ofJson_nodeObject (by simp [List.lookup])]
      simp [ofChildren, ofJsonFields, List.lookup, first, Functor.map, Except.map]
  | unary a b | assign a b | member a b | super a b | var a b | whileLoop a b | returnStmt a b => by
      have first := ofJson_toJson a
      have second := ofJson_toJson b
      rw [toJson, ofJson_nodeObject (by simp [List.lookup])]
      simp [ofChildren, ofJsonFields, List.lookup, first, second]
      rfl
  | binary a b c | logical a b c | call a b c | setMember a b c | ifThen a b c | function a b c
  | classDecl a b c => by
      have first := ofJson_toJson a
      have second := ofJson_toJson b
      have third := ofJson_toJson c
      rw [toJson, ofJson_nodeObject (by simp [List.lookup])]
      simp [ofChildren, ofJsonFields, List.lookup, first, second, third]
      rfl

theorem ofJsonList_toJsonList : (trees : List Tree) → ofJsonList (toJsonList trees) = .ok trees
  | [] => rfl
  | first :: rest => by
      rw [toJsonList, ofJsonList, ofJson_toJson first, ofJsonList_toJsonList rest]
      rfl

end

theorem programOfJson_programToJson (statements : List Tree) :
    programOfJson (programToJson statements) = .ok statements := by
  simp [programToJson, programOfJson, isText, Json.require, Json.field?, List.lookup,
    ofJsonList_toJsonList, bind, Except.bind]

mutual

def Savable : Tree → Prop
  | nil | bool _ | number _ => True
  | text value => ∃ string : String, value = string
  | list items => SavableAll items
  | token saved => saved.lexeme.Writable ∧ saved.line.Writable ∧ saved.literal.Writable
  | literal a | grouping a | ident a | this a | expr a | print a | block a => Savable a
  | unary a b | assign a b | member a b | super a b | var a b | whileLoop a b | returnStmt a b =>
      Savable a ∧ Savable b
  | binary a b c | logical a b c | call a b c | setMember a b c | ifThen a b c | function a b c
  | classDecl a b c => Savable a ∧ Savable b ∧ Savable c

def SavableAll : List Tree → Prop
  | [] => True
  | first :: rest => Savable first ∧ SavableAll rest

end

theorem writable_token {token : SavedToken} (lexeme : token.lexeme.Writable)
    (line : token.line.Writable) (literal : token.literal.Writable) : token.toJson.Writable := by
  refine .object ?_ ?_ ?_
  · simp
  · simp
  · simp [lexeme, line, literal, Json.Writable.string]

mutual

theorem writable_toJson : (tree : Tree) → tree.Savable → tree.toJson.Writable
  | nil, _ => .null
  | bool value, _ => .bool value
  | number value, _ => .float value
  | text _, ⟨string, same⟩ => same ▸ .string string
  | list items, each => by
      rw [toJson]
      exact .list (writable_toJsonList items each)
  | token _, savable => by
      rw [toJson]
      exact writable_token savable.1 savable.2.1 savable.2.2
  | literal a, savable | grouping a, savable | ident a, savable | this a, savable
  | expr a, savable | print a, savable | block a, savable => by
      have first := writable_toJson a savable
      rw [toJson, nodeObject]
      refine .object (by simp) (by simp) ?_
      simp [first, Json.Writable.string]
  | unary a b, savable | assign a b, savable | member a b, savable | super a b, savable
  | var a b, savable | whileLoop a b, savable | returnStmt a b, savable => by
      have first := writable_toJson a savable.1
      have second := writable_toJson b savable.2
      rw [toJson, nodeObject]
      refine .object (by simp) (by simp) ?_
      simp [first, second, Json.Writable.string]
  | binary a b c, savable | logical a b c, savable | call a b c, savable
  | setMember a b c, savable | ifThen a b c, savable | function a b c, savable
  | classDecl a b c, savable => by
      have first := writable_toJson a savable.1
      have second := writable_toJson b savable.2.1
      have third := writable_toJson c savable.2.2
      rw [toJson, nodeObject]
      refine .object (by simp) (by simp) ?_
      simp [first, second, third, Json.Writable.string]

theorem writable_toJsonList : (trees : List Tree) → SavableAll trees →
    ∀ item ∈ toJsonList trees, item.Writable
  | [], _ => by simp [toJsonList]
  | first :: rest, ⟨savable, others⟩ => by
      rw [toJsonList, List.forall_mem_cons]
      exact ⟨writable_toJson first savable, writable_toJsonList rest others⟩

end

theorem writable_programToJson {statements : List Tree} (savable : SavableAll statements) :
    (programToJson statements).Writable := by
  refine .object (by simp) (by simp) ?_
  simp [Json.Writable.string, Json.Writable.list (writable_toJsonList statements savable)]

end Tree

end Lox
