import Lox.Tree.Print
import Mathlib.Data.List.Basic

/-!
Bracketed forms and their texts.  Words without breaks in them and quoted texts without quotes
are told apart wherever they stand, so a form can be read off the front of a text in one way
only.
-/

namespace Lox

inductive Form where
  | word (text : String)
  | quoted (text : String)
  | list (items : List Form)

namespace Form

mutual

def chars : Form → List Char
  | word text => text.toList
  | quoted text => '"' :: text.toList ++ ['"']
  | list items => '(' :: [' '].intercalate (charsAll items) ++ [')']

def charsAll : List Form → List (List Char)
  | [] => []
  | first :: rest => chars first :: charsAll rest

end

theorem charsAll_eq_map (items : List Form) : charsAll items = items.map chars := by
  induction items with
  | nil => rfl
  | cons first rest ih => rw [charsAll, ih, List.map_cons]

def isBreak (c : Char) : Bool :=
  c == ' ' || c == '\n' || c == '(' || c == ')' || c == '"'

def isWord (text : String) : Bool :=
  !text.toList.isEmpty && text.toList.all (!isBreak ·)

theorem isWord_iff {text : String} :
    isWord text ↔ text.toList ≠ [] ∧ ∀ c ∈ text.toList, isBreak c = false := by
  simp [isWord]

inductive Plain : Form → Prop
  | word {text : String} : isWord text → Plain (.word text)
  | quoted {text : String} : '"' ∉ text.toList → Plain (.quoted text)
  | list {items : List Form} : (∀ item ∈ items, Plain item) → Plain (.list items)

theorem Plain.head {form : Form} (plain : form.Plain) :
    ∃ c rest, form.chars = c :: rest ∧ c ≠ ' ' ∧ c ≠ '\n' ∧ c ≠ ')' := by
  cases plain with
  | @word text isWord =>
      obtain ⟨nonempty, unbroken⟩ := isWord_iff.1 isWord
      obtain ⟨c, rest, split⟩ := List.exists_cons_of_ne_nil nonempty
      have unlike := unbroken c (by simp [split])
      refine ⟨c, rest, split, ?_, ?_, ?_⟩ <;> rintro rfl <;> cases unlike
  | quoted => exact ⟨'"', _, rfl, by decide⟩
  | list => exact ⟨'(', _, rfl, by decide⟩

def Ends (rest : List Char) : Prop :=
  ∀ c ∈ rest.head?, isBreak c

theorem ends_cons {c : Char} (breaks : isBreak c) (rest : List Char) : Ends (c :: rest) := by
  rintro _ ⟨⟩
  exact breaks

theorem append_inj_of_stop {p : Char → Bool} {front other rest others : List Char}
    (passes : ∀ c ∈ front, p c) (passesOther : ∀ c ∈ other, p c)
    (stops : ∀ c ∈ rest.head?, p c = false) (stopsOther : ∀ c ∈ others.head?, p c = false)
    (same : front ++ rest = other ++ others) : front = other ∧ rest = others := by
  have taken {front rest : List Char} (passes : ∀ c ∈ front, p c)
      (stops : ∀ c ∈ rest.head?, p c = false) : (front ++ rest).takeWhile p = front := by
    rw [List.takeWhile_append_of_pos passes]
    cases rest with
    | nil => simp
    | cons c more => simp [stops c rfl]
  have fronts := congrArg (List.takeWhile p) same
  rw [taken passes stops, taken passesOther stopsOther] at fronts
  subst fronts
  exact ⟨rfl, List.append_cancel_left same⟩

/-- The form is the only one that the text begins with, wherever its own text ends. -/
def Readable (form : Form) : Prop :=
  ∀ {other : Form} {rest others : List Char}, other.Plain → Ends rest → Ends others →
    form.chars ++ rest = other.chars ++ others → form = other ∧ rest = others

theorem readable_word {text : String} (isWord : isWord text) : Readable (.word text) := by
  intro other rest others plain ends endsOther same
  obtain ⟨nonempty, unbroken⟩ := isWord_iff.1 isWord
  obtain ⟨first, more, split⟩ := List.exists_cons_of_ne_nil nonempty
  have unlike := unbroken first (by simp [split])
  cases plain with
  | word isOther =>
      obtain ⟨-, unbrokenOther⟩ := isWord_iff.1 isOther
      have passes {text : List Char} (unbroken : ∀ c ∈ text, isBreak c = false) :
          ∀ c ∈ text, (!isBreak c) = true := by simpa using unbroken
      have stops {rest : List Char} (ends : Ends rest) :
          ∀ c ∈ rest.head?, (!isBreak c) = false := by simpa [Ends] using ends
      obtain ⟨texts, rests⟩ := append_inj_of_stop (passes unbroken) (passes unbrokenOther)
        (stops ends) (stops endsOther) same
      exact ⟨congrArg _ (String.toList_inj.1 texts), rests⟩
  | quoted =>
      have quote : first = '"' := by simpa [chars, split] using congrArg List.head? same
      rw [quote] at unlike
      cases unlike
  | list =>
      have bracket : first = '(' := by simpa [chars, split] using congrArg List.head? same
      rw [bracket] at unlike
      cases unlike

theorem readable_quoted {text : String} (within : '"' ∉ text.toList) :
    Readable (.quoted text) := by
  intro other rest others plain ends endsOther same
  cases plain with
  | word isWord =>
      have found := readable_word isWord (.quoted within) endsOther ends same.symm
      cases found.1
  | @quoted value withinOther =>
      have passes {text : String} (within : '"' ∉ text.toList) :
          ∀ c ∈ text.toList, decide (c ≠ '"') = true := by
        simp only [decide_eq_true_eq]
        rintro c member rfl
        exact within member
      have closed (rest : List Char) :
          ∀ c ∈ ('"' :: rest).head?, decide (c ≠ '"') = false := by simp
      simp only [chars, List.cons_append, List.append_assoc, List.cons.injEq, true_and] at same
      obtain ⟨texts, rests⟩ := append_inj_of_stop (passes within) (passes withinOther)
        (closed rest) (closed others) same
      exact ⟨congrArg _ (String.toList_inj.1 texts), List.tail_eq_of_cons_eq rests⟩
  | list => cases same

def behind (separator : Char) (items : List Form) : List Char :=
  items.flatMap fun item => separator :: item.chars

theorem behind_cons (separator : Char) (first : Form) (rest : List Form) :
    behind separator (first :: rest) = separator :: first.chars ++ behind separator rest :=
  List.flatMap_cons

theorem intercalate_cons (separator : Char) (first : Form) (rest : List Form) :
    [separator].intercalate ((first :: rest).map chars) =
      first.chars ++ behind separator rest := by
  induction rest generalizing first with
  | nil => simp [behind]
  | cons second rest ih =>
      rw [List.map_cons, List.map_cons, List.intercalate_cons_cons, ← List.map_cons, ih,
        behind_cons, List.append_assoc]
      rfl

/-- What stands behind the last of some forms: nothing, or the bracket that closes them. -/
def Closes (rest : List Char) : Prop :=
  ∀ c ∈ rest.head?, c = ')'

theorem Closes.ends {rest : List Char} (closes : Closes rest) : Ends rest := by
  intro c found
  rw [closes c found]
  rfl

section Joined

variable {separator : Char} {items more : List Form} {rest others : List Char}

theorem ends_behind (breaks : isBreak separator) (closes : Closes rest) :
    Ends (behind separator items ++ rest) := by
  cases items with
  | nil => exact closes.ends
  | cons first items =>
      rw [behind_cons]
      exact ends_cons breaks _

theorem behind_inj (breaks : isBreak separator) (unlike : separator ≠ ')')
    (readable : ∀ item ∈ items, Readable item) (plain : ∀ item ∈ more, Plain item)
    (closes : Closes rest) (closesOther : Closes others)
    (same : behind separator items ++ rest = behind separator more ++ others) :
    items = more ∧ rest = others := by
  induction items generalizing more with
  | nil =>
      cases more with
      | nil => exact ⟨rfl, same⟩
      | cons second more =>
          rw [behind_cons] at same
          change rest = _ at same
          subst same
          exact absurd (closes separator rfl) unlike
  | cons first items ih =>
      obtain ⟨readableFirst, readableItems⟩ := List.forall_mem_cons.1 readable
      cases more with
      | nil =>
          rw [behind_cons] at same
          change _ = others at same
          subst same
          exact absurd (closesOther separator rfl) unlike
      | cons second more =>
          obtain ⟨plainSecond, plainMore⟩ := List.forall_mem_cons.1 plain
          rw [behind_cons, behind_cons, List.cons_append, List.cons_append, List.append_assoc,
            List.cons_append, List.cons_append, List.append_assoc] at same
          obtain ⟨rfl, left⟩ := readableFirst plainSecond (ends_behind breaks closes)
            (ends_behind breaks closesOther) (List.tail_eq_of_cons_eq same)
          obtain ⟨rfl, rfl⟩ := ih readableItems plainMore left
          exact ⟨rfl, rfl⟩

theorem intercalate_append_ne {first : Form} (plain : first.Plain) (closes : Closes rest) :
    [separator].intercalate ((first :: items).map chars) ++ others ≠ rest := by
  obtain ⟨c, tail, head, -, -, other⟩ := plain.head
  rw [intercalate_cons, head]
  rintro rfl
  exact other (closes c rfl)

theorem intercalate_inj (breaks : isBreak separator) (unlike : separator ≠ ')')
    (readable : ∀ item ∈ items, Readable item) (plain : ∀ item ∈ items, Plain item)
    (plainMore : ∀ item ∈ more, Plain item) (closes : Closes rest) (closesOther : Closes others)
    (same : [separator].intercalate (items.map chars) ++ rest =
      [separator].intercalate (more.map chars) ++ others) : items = more ∧ rest = others := by
  cases items with
  | nil =>
      cases more with
      | nil => exact ⟨rfl, same⟩
      | cons second more =>
          exact absurd same.symm
            (intercalate_append_ne (List.forall_mem_cons.1 plainMore).1 closes)
  | cons first items =>
      obtain ⟨plainFirst, -⟩ := List.forall_mem_cons.1 plain
      obtain ⟨readableFirst, readableItems⟩ := List.forall_mem_cons.1 readable
      cases more with
      | nil => exact absurd same (intercalate_append_ne plainFirst closesOther)
      | cons second more =>
          obtain ⟨plainSecond, plainOthers⟩ := List.forall_mem_cons.1 plainMore
          rw [intercalate_cons, intercalate_cons, List.append_assoc, List.append_assoc] at same
          obtain ⟨rfl, left⟩ := readableFirst plainSecond (ends_behind breaks closes)
            (ends_behind breaks closesOther) same
          obtain ⟨rfl, rfl⟩ := behind_inj breaks unlike readableItems plainOthers closes
            closesOther left
          exact ⟨rfl, rfl⟩

end Joined

theorem readable_list {items : List Form} (readable : ∀ item ∈ items, Readable item)
    (plain : ∀ item ∈ items, Plain item) : Readable (.list items) := by
  intro other rest others plainOther ends endsOther same
  cases plainOther with
  | word isWord =>
      have found := readable_word isWord (.list plain) endsOther ends same.symm
      cases found.1
  | quoted within =>
      have found := readable_quoted within (.list plain) endsOther ends same.symm
      cases found.1
  | @list more plainMore =>
      have closes (rest : List Char) : Closes (')' :: rest) := by
        rintro _ ⟨⟩
        rfl
      simp only [chars, charsAll_eq_map, List.cons_append, List.append_assoc, List.cons.injEq,
        true_and, List.nil_append] at same
      obtain ⟨rfl, left⟩ := intercalate_inj rfl (by decide) readable plain plainMore
        (closes rest) (closes others) same
      exact ⟨rfl, List.tail_eq_of_cons_eq left⟩

theorem Plain.readable {form : Form} (plain : form.Plain) : Readable form := by
  induction plain with
  | word isWord => exact readable_word isWord
  | quoted within => exact readable_quoted within
  | list plain ih => exact readable_list ih plain

theorem lines_inj {items more : List Form} (plain : ∀ item ∈ items, Plain item)
    (plainMore : ∀ item ∈ more, Plain item)
    (same : ['\n'].intercalate (items.map chars) = ['\n'].intercalate (more.map chars)) :
    items = more := by
  have ended : Closes [] := nofun
  have readable : ∀ item ∈ items, Readable item := fun item member => (plain item member).readable
  have breaks : isBreak '\n' := rfl
  have closed : ['\n'].intercalate (items.map chars) ++ [] =
      ['\n'].intercalate (more.map chars) ++ [] := congrArg (· ++ []) same
  exact (intercalate_inj breaks (by decide) readable plain plainMore ended ended closed).1

end Form

end Lox
