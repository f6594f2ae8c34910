import Lox.Proofs.Json.Number

/-!
Reading what was written.  Data is read back as it was if its texts hold no halves of
pairs, its whole numbers are not too long and its objects have no key twice.
-/

namespace Lox.Json

variable {fuel : Nat} {text rest : List Char}

section Words

theorem ne_of_isDigit {c d : Char} (digit : Piece.isDigit c) (other : Piece.isDigit d = false) :
    c ≠ d := by
  rintro rfl
  simp [digit] at other

theorem readWord?_eq_none (unmatched : ∀ word ∈ words.map Prod.fst, ¬word.toList <+: text) :
    readWord? text = none := by
  rw [readWord?, List.findSome?_eq_none_iff]
  intro entry member
  simp [dropWord?, unmatched entry.1 (List.mem_map_of_mem member)]

theorem readWord?_of_isDigit {c : Char} (digit : Piece.isDigit c) :
    readWord? (c :: rest) = none := by
  apply readWord?_eq_none
  intro word member start
  obtain ⟨d, more, letters, other⟩ :
      ∃ d more, word.toList = d :: more ∧ Piece.isDigit d = false := by
    revert word
    simp [words, Piece.isDigit]
  rw [letters, List.cons_prefix_cons] at start
  simp [start.1, digit] at other

theorem readWord?_of_minus {c : Char} (digit : Piece.isDigit c) :
    readWord? ('-' :: c :: rest) = none := by
  apply readWord?_eq_none
  simp [words]
  rintro rfl
  cases digit

theorem readValue_word {word : String} {value : Json} (entry : (word, value) ∈ words) :
    readValue (fuel + 1) (word.toList ++ rest) = .ok (value, rest) := by
  simp only [words, List.mem_cons, Prod.mk.injEq, List.not_mem_nil, or_false] at entry
  rcases entry with ⟨rfl, rfl⟩ | ⟨rfl, rfl⟩ | ⟨rfl, rfl⟩ | ⟨rfl, rfl⟩ | ⟨rfl, rfl⟩ | ⟨rfl, rfl⟩ <;>
    rfl

theorem head_of_readNumber {negative : Bool} {result : Json × List Char}
    (read : readNumber negative text = .ok result) :
    ∃ c more, text = c :: more ∧ Piece.isDigit c := by
  cases text with
  | nil => cases read
  | cons c more =>
    refine ⟨c, more, rfl, ?_⟩
    by_cases digit : Piece.isDigit c
    · exact digit
    · simp [readNumber, spanDigits, digit] at read

theorem readValue_of_readNumber {negative : Bool} {result : Json × List Char}
    (read : readNumber negative text = .ok result) :
    readValue (fuel + 1) (if negative then '-' :: text else text) = .ok result := by
  obtain ⟨c, more, rfl, digit⟩ := head_of_readNumber read
  cases negative with
  | true => simp [readValue, readWord?_of_minus digit, read]
  | false =>
    simp only [readValue, ne_of_isDigit digit (d := '"') rfl, ne_of_isDigit digit (d := '[') rfl,
      ne_of_isDigit digit (d := '\x7b') rfl, ne_of_isDigit digit (d := '-') rfl,
      readWord?_of_isDigit digit, if_false, Bool.false_eq_true, read]

theorem readValue_writeInt {value : Int} (short : value.natAbs < 10 ^ maxDigits)
    (ends : Ends rest) : readValue (fuel + 1) (writeInt value ++ rest) = .ok (int value, rest) := by
  have length : (Nat.toDigits 10 value.natAbs).length ≤ maxDigits :=
    (Nat.length_toDigits_le_iff (by decide) (by decide)).2 short
  have number := @readValue_of_readNumber fuel _ _ _
    (readNumber_whole (value < 0) (.toDigits value.natAbs) ends length)
  have whole : (if value < 0 then -(value.natAbs : Int) else value.natAbs) = value := by omega
  simp only [digitsValue_toDigits, decide_eq_true_eq, whole] at number
  rw [writeInt]
  split at number
  next negative =>
    rw [if_pos negative]
    exact number
  next positive =>
    rw [if_neg positive]
    exact number

theorem readValue_writeFloat (x : Float) (ends : Ends rest) :
    readValue (fuel + 1) (writeFloat x ++ rest) = .ok (float x, rest) := by
  have parts := Binary64.toFloat_magnitude x
  simp only [writeFloat]
  split
  next beyond =>
    rw [Binary64.eq_nan_of_infinity_lt beyond]
    exact readValue_word (by simp [words])
  next within =>
    split
    next finite =>
      have zero (none : (Decimal.shortest (Binary64.magnitude x)).digits = 0) :
          (Decimal.shortest (Binary64.magnitude x)).exponent = 0 := by
        rw [Decimal.shortest_of_digits_eq_zero finite none]
      have number := @readValue_of_readNumber fuel _ _ _
        (readNumber_dataDigits (Binary64.isNegative x) zero ends)
      rw [Decimal.toWord_shortest finite, parts] at number
      have unequal : Binary64.magnitude x ≠ Binary64.infinity := by omega
      simp only [Number.dataText, Number.write, within, unequal, if_false, String.toList_ofList]
      split at number
      next negative =>
        rw [if_pos negative]
        exact number
      next positive =>
        rw [if_neg positive]
        exact number
    next infinite =>
      have word : Binary64.magnitude x = Binary64.infinity := by omega
      rw [word] at parts
      split
      next negative =>
        rw [negative] at parts
        rw [← parts]
        exact readValue_word (by simp [words])
      next positive =>
        rw [Bool.not_eq_true] at positive
        rw [positive] at parts
        rw [← parts]
        exact readValue_word (by simp [words])

end Words

section Texts

theorem hexValue?_hex : ∀ code < 0x20,
    (Text.hex 4 code).length = 4 ∧ hexValue? (Text.hex 4 code) = some code := by
  decide

theorem readCodes_hex {code : Nat} (control : code < 0x20) :
    readCodes ('\\' :: 'u' :: (Text.hex 4 code ++ rest)) =
      (readCodes rest).map fun (codes, rest) => (code :: codes, rest) := by
  obtain ⟨four, value⟩ := hexValue?_hex code control
  generalize Text.hex 4 code = digits at four value ⊢
  match digits, four with
  | [a, b, c, d], _ =>
    simp only [List.cons_append, List.nil_append, readCodes, value]
    cases readCodes rest <;> rfl

theorem readCodes_cons {c : Char} (quote : c ≠ '"') (slash : c ≠ '\\') (shown : 0x20 ≤ c.toNat) :
    readCodes (c :: rest) = (readCodes rest).map fun (codes, rest) => (c.toNat :: codes, rest) := by
  simp [readCodes, slash, Nat.not_lt.2 shown]

theorem readCodes_escapeCode? {c : Char} {code : Nat} (letter : c ≠ 'u')
    (found : escapeCode? c = some code) :
    readCodes ('\\' :: c :: rest) =
      (readCodes rest).map fun (codes, rest) => (code :: codes, rest) := by
  simp [readCodes, letter, found, Option.map_eq_bind]

theorem escape_cases (code : Nat) :
    (∃ letter, escape code = ['\\', letter] ∧ letter ≠ 'u' ∧ escapeCode? letter = some code) ∨
    (escape code = '\\' :: 'u' :: Text.hex 4 code ∧ (code < 0x20 ∨ ¬code.isValidChar)) ∨
    (∃ c : Char, escape code = [c] ∧ c.toNat = code ∧ c ≠ '"' ∧ c ≠ '\\' ∧ 0x20 ≤ code) := by
  by_cases named : code ∈ [0x22, 0x5c, 0x0a, 0x0d, 0x09, 0x08, 0x0c]
  · left
    simp only [List.mem_cons, List.not_mem_nil, or_false] at named
    rcases named with rfl | rfl | rfl | rfl | rfl | rfl | rfl
    exacts [⟨'"', rfl, by decide, rfl⟩, ⟨'\\', rfl, by decide, rfl⟩, ⟨'n', rfl, by decide, rfl⟩,
      ⟨'r', rfl, by decide, rfl⟩, ⟨'t', rfl, by decide, rfl⟩, ⟨'b', rfl, by decide, rfl⟩,
      ⟨'f', rfl, by decide, rfl⟩]
  · right
    simp only [List.mem_cons, List.not_mem_nil, or_false, not_or] at named
    have plain : escape code =
        if code < 0x20 ∨ ¬code.isValidChar then '\\' :: 'u' :: Text.hex 4 code
        else [Char.ofNat code] := by
      simp [escape, named]
    by_cases hidden : code < 0x20 ∨ ¬code.isValidChar
    · exact .inl ⟨plain.trans (if_pos hidden), hidden⟩
    · have itself : (Char.ofNat code).toNat = code := by
        rw [not_or, not_not] at hidden
        rw [Char.toNat_ofNat, if_pos hidden.2]
      refine .inr ⟨Char.ofNat code, plain.trans (if_neg hidden), itself, ?_, ?_, by omega⟩
      · intro quote
        rw [quote] at itself
        exact named.1 itself.symm
      · intro slash
        rw [slash] at itself
        exact named.2.1 itself.symm

theorem readCodes_escape (c : Char) :
    readCodes (escape c.toNat ++ rest) =
      (readCodes rest).map fun (codes, rest) => (c.toNat :: codes, rest) := by
  rcases escape_cases c.toNat with ⟨letter, written, other, found⟩ | ⟨written, hidden⟩ |
    ⟨d, written, itself, quote, slash, shown⟩
  · rw [written]
    exact readCodes_escapeCode? other found
  · rw [written]
    exact readCodes_hex (hidden.resolve_right (not_not_intro c.valid))
  · rw [written, ← itself]
    exact readCodes_cons quote slash (itself ▸ shown)

theorem readCodes_flatMap_escape (characters : List Char) :
    readCodes ((characters.map Char.toNat).flatMap escape ++ '"' :: rest) =
      some (characters.map Char.toNat, rest) := by
  induction characters with
  | nil => simp [readCodes]
  | cons c characters ih =>
    rw [List.map_cons, List.flatMap_cons, List.append_assoc, readCodes_escape, ih]
    rfl

theorem joinCodes_map_toNat (characters : List Char) :
    joinCodes (characters.map Char.toNat) = characters.map Char.toNat := by
  induction characters with
  | nil => rfl
  | cons high characters ih =>
    cases characters with
    | nil => rfl
    | cons low characters =>
      have single : isHighSurrogate high.toNat = false := by
        have valid : high.toNat.isValidChar := high.valid
        simp only [Nat.isValidChar, isHighSurrogate, Bool.and_eq_false_imp, decide_eq_true_eq,
          decide_eq_false_iff_not] at valid ⊢
        omega
      rw [List.map_cons] at ih ⊢
      simp [joinCodes, single, ih]

theorem readText_writeString (value : String) :
    readText ((Text.ofString value).codes.flatMap escape ++ '"' :: rest) =
      .ok (Text.ofString value, rest) := by
  rw [readText, Text.ofString, Text.ofChars, readCodes_flatMap_escape]
  simp only [joinCodes_map_toNat]

end Texts

section Values

inductive Writable : Json → Prop
  | null : Writable null
  | bool (value : Bool) : Writable (bool value)
  | int {value : Int} : value.natAbs < 10 ^ maxDigits → Writable (int value)
  | float (value : Float) : Writable (float value)
  | string (value : String) : Writable (string value)
  | list {items : List Json} : (∀ item ∈ items, Writable item) → Writable (list items)
  | object {fields : List (Text × Json)} :
      (fields.map Prod.fst).Nodup → (∀ field ∈ fields, ∃ name : String, field.1 = name) →
      (∀ field ∈ fields, Writable field.2) → Writable (object fields)

theorem skipBlanks_append {blanks : List Char} (all : ∀ c ∈ blanks, isBlank c)
    (shown : ∀ c ∈ text.head?, ¬isBlank c) : skipBlanks (blanks ++ text) = text := by
  rw [skipBlanks, List.dropWhile_append_of_pos all]
  cases text with
  | nil => rfl
  | cons c more => exact List.dropWhile_cons_of_neg (shown c rfl)

theorem isBlank_of_mem_newLine {depth : Nat} : ∀ c ∈ newLine depth, isBlank c := by
  intro c member
  rcases List.mem_cons.1 member with rfl | space
  · decide
  · rw [List.eq_of_mem_replicate space]
    decide

theorem head_of_readValue {result : Json × List Char} (read : readValue fuel text = .ok result) :
    ∃ c more, text = c :: more ∧ ¬isBlank c ∧ c ≠ ']' := by
  cases fuel with
  | zero => cases read
  | succ fuel =>
    cases text with
    | nil => cases read
    | cons c more =>
      refine ⟨c, more, rfl, ?_, ?_⟩
      · intro blank
        simp only [isBlank, Bool.or_eq_true, beq_iff_eq] at blank
        rcases blank with ((rfl | rfl) | rfl) | rfl <;> cases read
      · rintro rfl
        cases read

theorem writeInt_ne_nil (value : Int) : writeInt value ≠ [] := by
  simp only [writeInt]
  split <;> simp

theorem writeFloat_ne_nil (x : Float) : writeFloat x ≠ [] := by
  intro none
  have read := @readValue_writeFloat 0 [] x (by simp [Ends])
  rw [none] at read
  cases read

mutual

theorem length_lt_writeOnto (depth : Nat) (rest : List Char) :
    (value : Json) → rest.length < (writeOnto depth rest value).length
  | .null => by simp only [writeOnto, List.length_append]; exact Nat.lt_add_of_pos_left (by decide)
  | .bool value => by cases value <;> simp [writeOnto] <;> omega
  | .int value => by simpa [writeOnto, List.length_pos_iff] using writeInt_ne_nil value
  | .float value => by simpa [writeOnto, List.length_pos_iff] using writeFloat_ne_nil value
  | .string value => by simp [writeOnto, writeString]; omega
  | .list [] => by simp only [writeOnto, List.length_cons]; omega
  | .list (item :: items) => by
      have first := length_lt_writeOnto (depth + 1)
        (writeItems (depth + 1) (newLine depth ++ ']' :: rest) items) item
      have others := length_le_writeItems (depth + 1) (newLine depth ++ ']' :: rest) items
      simp [writeOnto] at others ⊢
      omega
  | .object [] => by simp only [writeOnto, List.length_cons]; omega
  | .object ((key, value) :: fields) => by
      have first := length_lt_writeOnto (depth + 1)
        (writeFields (depth + 1) (newLine depth ++ '\x7d' :: rest) fields) value
      have others := length_le_writeFields (depth + 1) (newLine depth ++ '\x7d' :: rest) fields
      simp [writeOnto] at others ⊢
      omega

theorem length_le_writeItems (depth : Nat) (rest : List Char) :
    (items : List Json) → rest.length ≤ (writeItems depth rest items).length
  | [] => by simp [writeItems]
  | item :: items => by
      have first := length_lt_writeOnto depth (writeItems depth rest items) item
      have others := length_le_writeItems depth rest items
      simp [writeItems] at others ⊢
      omega

theorem length_le_writeFields (depth : Nat) (rest : List Char) :
    (fields : List (Text × Json)) → rest.length ≤ (writeFields depth rest fields).length
  | [] => by simp [writeFields]
  | (key, value) :: fields => by
      have first := length_lt_writeOnto depth (writeFields depth rest fields) value
      have others := length_le_writeFields depth rest fields
      simp [writeFields] at others ⊢
      omega

end

/-- The data is read back wherever it is written. -/
def ReadsBack (value : Json) : Prop :=
  ∀ (depth fuel : Nat) (rest : List Char), Ends rest →
    (writeOnto depth rest value).length ≤ fuel →
      readValue fuel (writeOnto depth rest value) = .ok (value, rest)

@[simp] theorem length_newLine (depth : Nat) : (newLine depth).length = 2 * depth + 1 := by
  simp [newLine]

theorem ends_newLine (depth : Nat) (text : List Char) : Ends (newLine depth ++ text) := by
  simp [Ends, newLine, Piece.isDigit]

theorem fuel_pos {depth : Nat} (long : (newLine depth ++ text).length ≤ fuel) : 0 < fuel := by
  simp at long
  omega

theorem readValue_skipBlanks {value : Json} (back : ReadsBack value) {depth : Nat}
    (blanks : List Char) (all : ∀ c ∈ blanks, isBlank c) (ends : Ends rest)
    (long : (writeOnto depth rest value).length ≤ fuel) :
    readValue fuel (skipBlanks (blanks ++ writeOnto depth rest value)) = .ok (value, rest) := by
  have read := back depth fuel rest ends long
  obtain ⟨c, more, text, shown, -⟩ := head_of_readValue read
  rw [skipBlanks_append all (by simpa [text] using shown), read]

section Items

variable {depth : Nat} {ending : List Char}

theorem ends_writeItems (items : List Json) (ends : Ends ending) :
    Ends (writeItems depth ending items) := by
  cases items with
  | nil => exact ends
  | cons item items => simp [writeItems, Ends, Piece.isDigit]

theorem readItems_writeItems {items : List Json} {item : Json} (ends : Ends ending)
    (close : skipBlanks ending = ']' :: rest) (first : ReadsBack item)
    (others : ∀ other ∈ items, ReadsBack other)
    (long : (newLine depth ++ writeOnto depth (writeItems depth ending items) item).length ≤ fuel) :
    readItems fuel (newLine depth ++ writeOnto depth (writeItems depth ending items) item) =
      .ok (item :: items, rest) := by
  induction items generalizing item fuel with
  | nil =>
    obtain ⟨fuel, rfl⟩ := Nat.exists_eq_add_one.2 (fuel_pos long)
    rw [writeItems] at long ⊢
    rw [readItems,
      readValue_skipBlanks first _ isBlank_of_mem_newLine ends (by simp at long; omega)]
    simp only [bind, Except.bind, close]
  | cons next items ih =>
    obtain ⟨fuel, rfl⟩ := Nat.exists_eq_add_one.2 (fuel_pos long)
    have shorter := length_lt_writeOnto depth (writeItems depth ending (next :: items)) item
    rw [readItems, readValue_skipBlanks first _ isBlank_of_mem_newLine
      (ends_writeItems (next :: items) ends) (by simp at long; omega)]
    rw [writeItems, List.cons_append] at long shorter ⊢
    have more := ih (others next (by simp)) (fun other member => others other (by simp [member]))
      (show _ ≤ fuel by simp at long shorter ⊢; omega)
    have comma (text : List Char) : skipBlanks (',' :: text) = ',' :: text := rfl
    simp only [bind, Except.bind, comma, more]

end Items

section Fields

variable {depth : Nat} {ending : List Char}

theorem insert_of_not_mem {key : Text} {value : Json} {fields : List (Text × Json)}
    (fresh : key ∉ fields.map Prod.fst) : insert key value fields = fields ++ [(key, value)] := by
  induction fields with
  | nil => rfl
  | cons field fields ih =>
    rw [List.map_cons, List.mem_cons, not_or] at fresh
    rw [insert, if_neg (Ne.symm fresh.1), ih fresh.2]
    rfl

theorem ends_writeFields (fields : List (Text × Json)) (ends : Ends ending) :
    Ends (writeFields depth ending fields) := by
  cases fields with
  | nil => exact ends
  | cons field fields => simp [writeFields, Ends, Piece.isDigit]

theorem readFields_field {name : String} {value : Json} {before : List (Text × Json)}
    {after : List Char} (ends : Ends after) (fresh : Text.ofString name ∉ before.map Prod.fst)
    (back : ReadsBack value) (long : (writeOnto depth after value).length ≤ fuel) :
    let found := readFields (fuel + 1) before
      (newLine depth ++ (writeString name ++ ':' :: ' ' :: writeOnto depth after value))
    (∀ rest, skipBlanks after = '\x7d' :: rest →
      found = .ok (before ++ [(Text.ofString name, value)], rest)) ∧
    (∀ rest, skipBlanks after = ',' :: rest →
      found = readFields fuel (before ++ [(Text.ofString name, value)]) rest) := by
  have opening : skipBlanks (newLine depth ++ (writeString name ++
      ':' :: ' ' :: writeOnto depth after value)) =
      '"' :: ((Text.ofString name).codes.flatMap escape ++ '"' ::
        ':' :: ' ' :: writeOnto depth after value) := by
    rw [skipBlanks_append isBlank_of_mem_newLine (by simp [writeString, isBlank])]
    simp [writeString]
  have colon (text : List Char) : skipBlanks (':' :: text) = ':' :: text := rfl
  have read : readValue fuel (skipBlanks (' ' :: writeOnto depth after value)) =
      .ok (value, after) :=
    readValue_skipBlanks back [' '] (List.forall_mem_singleton.2 (by decide)) ends long
  intro found
  constructor <;> intro rest next <;> simp only [found, readFields, opening, readText_writeString,
    bind, Except.bind, colon, read, insert_of_not_mem fresh, next]

theorem key_new {key : Text} {value : Json} {before fields : List (Text × Json)}
    (fresh : ((before ++ (key, value) :: fields).map Prod.fst).Nodup) :
    key ∉ before.map Prod.fst := by
  rw [List.map_append, List.nodup_append] at fresh
  exact fun member => fresh.2.2 key member key (by simp) rfl

theorem readFields_writeFields {key : Text} {value : Json} {fields before : List (Text × Json)}
    (ends : Ends ending) (close : skipBlanks ending = '\x7d' :: rest)
    (fresh : ((before ++ (key, value) :: fields).map Prod.fst).Nodup)
    (keys : ∀ field ∈ (key, value) :: fields, ∃ name : String, field.1 = name)
    (each : ∀ field ∈ (key, value) :: fields, ReadsBack field.2)
    (long : (newLine depth ++ (writeString key ++ ':' :: ' ' ::
      writeOnto depth (writeFields depth ending fields) value)).length ≤ fuel) :
    readFields fuel before (newLine depth ++ (writeString key ++ ':' :: ' ' ::
      writeOnto depth (writeFields depth ending fields) value)) =
        .ok (before ++ (key, value) :: fields, rest) := by
  induction fields generalizing key value before fuel with
  | nil =>
    obtain ⟨fuel, rfl⟩ := Nat.exists_eq_add_one.2 (fuel_pos long)
    obtain ⟨name, rfl⟩ := keys (key, value) (by simp)
    have first : ReadsBack value := each (Text.ofString name, value) (by simp)
    rw [writeFields] at long ⊢
    rw [(readFields_field ends (key_new fresh) first (by simp at long; omega)).1 rest close]
  | cons next fields ih =>
    obtain ⟨fuel, rfl⟩ := Nat.exists_eq_add_one.2 (fuel_pos long)
    obtain ⟨name, rfl⟩ := keys (key, value) (by simp)
    have first : ReadsBack value := each (Text.ofString name, value) (by simp)
    have shorter := length_lt_writeOnto depth (writeFields depth ending (next :: fields)) value
    have room : (writeOnto depth (writeFields depth ending (next :: fields)) value).length ≤
        fuel := by
      simp at long
      omega
    have comma : writeFields depth ending (next :: fields) =
        ',' :: (newLine depth ++ (writeString next.1 ++ ':' :: ' ' ::
          writeOnto depth (writeFields depth ending fields) next.2)) := by
      rw [writeFields, List.append_assoc, List.cons_append]
    rw [(readFields_field (ends_writeFields _ ends) (key_new fresh) first room).2 _
      (congrArg skipBlanks comma)]
    rw [comma] at long shorter
    have more := ih (show ((before ++ [(Text.ofString name, value)] ++ _).map Prod.fst).Nodup by
        simpa using fresh)
      (fun field member => keys field (List.mem_cons_of_mem _ member))
      (fun field member => each field (List.mem_cons_of_mem _ member))
      (show _ ≤ fuel by simp at long shorter ⊢; omega)
    rw [more, List.append_assoc, List.singleton_append]

end Fields

theorem readValue_items {items : List Json} {c : Char} {more : List Char}
    (start : skipBlanks text = c :: more) (shown : ¬isBlank c) (other : c ≠ ']')
    (read : readItems fuel text = .ok (items, rest)) :
    readValue (fuel + 1) ('[' :: text) = .ok (list items, rest) := by
  have same : readItems fuel (c :: more) = readItems fuel text := by
    cases fuel with
    | zero => rfl
    | succ fuel => rw [readItems, readItems, start, skipBlanks, List.dropWhile_cons_of_neg shown]
  simp [readValue, start, other, same, read, Except.map]

theorem readValue_fields {fields : List (Text × Json)} {more : List Char}
    (start : skipBlanks text = '"' :: more)
    (read : readFields fuel [] text = .ok (fields, rest)) :
    readValue (fuel + 1) ('\x7b' :: text) = .ok (object fields, rest) := by
  have same : readFields fuel [] ('"' :: more) = readFields fuel [] text := by
    cases fuel with
    | zero => rfl
    | succ fuel =>
      have stays : skipBlanks ('"' :: more) = '"' :: more := rfl
      rw [readFields, readFields, start, stays]
  simp [readValue, start, same, read, Except.map]

theorem ReadsBack.intro {value : Json}
    (read : ∀ depth fuel rest, Ends rest → (writeOnto depth rest value).length ≤ fuel + 1 →
      readValue (fuel + 1) (writeOnto depth rest value) = .ok (value, rest)) : ReadsBack value := by
  intro depth fuel rest ends long
  have shorter := length_lt_writeOnto depth rest value
  obtain ⟨fuel, rfl⟩ := Nat.exists_eq_add_one.2 (show 0 < fuel by omega)
  exact read depth fuel rest ends long

theorem close_newLine (depth : Nat) {c : Char} (shown : isBlank c = false) :
    skipBlanks (newLine depth ++ c :: rest) = c :: rest :=
  skipBlanks_append isBlank_of_mem_newLine (by simpa using shown)

theorem ReadsBack.list {items : List Json} (each : ∀ item ∈ items, ReadsBack item) :
    ReadsBack (list items) := by
  refine .intro fun depth fuel rest _ long => ?_
  cases items with
  | nil => rfl
  | cons item items =>
    rw [writeOnto, List.cons_append] at long ⊢
    have first := each item (by simp)
    have ends := ends_newLine depth (']' :: rest)
    have read := first (depth + 1) fuel
      (writeItems (depth + 1) (newLine depth ++ ']' :: rest) items) (ends_writeItems items ends)
      (by simp at long ⊢; omega)
    obtain ⟨c, more, text, shown, other⟩ := head_of_readValue read
    have start := skipBlanks_append (@isBlank_of_mem_newLine (depth + 1))
      (show ∀ d ∈ (c :: more).head?, ¬isBlank d by simpa using shown)
    rw [← text] at start
    exact readValue_items (start.trans text) shown other
      (readItems_writeItems ends (close_newLine depth rfl) first
        (fun other member => each other (by simp [member])) (by simpa using long))

theorem ReadsBack.object {fields : List (Text × Json)} (distinct : (fields.map Prod.fst).Nodup)
    (keys : ∀ field ∈ fields, ∃ name : String, field.1 = name)
    (each : ∀ field ∈ fields, ReadsBack field.2) : ReadsBack (object fields) := by
  refine .intro fun depth fuel rest _ long => ?_
  cases fields with
  | nil => rfl
  | cons field fields =>
    rw [writeOnto, List.cons_append, List.cons_append, List.append_assoc] at long ⊢
    exact readValue_fields
      (skipBlanks_append isBlank_of_mem_newLine (by simp [writeString, isBlank]))
      (readFields_writeFields (ends_newLine depth _) (close_newLine depth rfl) distinct keys each
        (by simpa using long))

/-- What can be written is read back wherever it stands. -/
theorem Writable.readsBack {value : Json} (writable : Writable value) : ReadsBack value := by
  induction writable with
  | null => exact .intro fun _ _ _ _ _ => readValue_word (by simp [words])
  | bool value =>
    refine .intro fun depth fuel rest _ _ => ?_
    rw [writeOnto]
    cases value <;> exact readValue_word (by simp [words])
  | int short => exact .intro fun _ _ _ ends _ => readValue_writeInt short ends
  | float value => exact .intro fun _ _ _ ends _ => readValue_writeFloat value ends
  | string value =>
    refine .intro fun depth fuel rest _ _ => ?_
    have read := @readText_writeString rest value
    simp [writeOnto, writeString, readValue, read, Except.map]
  | list _ ih => exact .list ih
  | object distinct keys _ ih => exact .object distinct keys ih

theorem read_write {value : Json} (writable : Writable value) : read value.write = .ok value := by
  have back := writable.readsBack 0 (2 * (writeOnto 0 [] value).length + 2) [] (by simp [Ends])
    (by omega)
  obtain ⟨c, more, text, shown, -⟩ := head_of_readValue back
  have start : skipBlanks (writeOnto 0 [] value) = writeOnto 0 [] value := by
    rw [text, skipBlanks, List.dropWhile_cons_of_neg shown]
  rw [read, write, String.toList_ofList, start, back]
  rfl

end Values

end Lox.Json
