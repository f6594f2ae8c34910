import Lox.Json.Read
import Lox.Json.Write
import Lox.Proofs.Number.Decimal

/-!
Numbers in JSON text: every double and every whole number that is not too long is read
back as it was written, whatever stands behind it, unless that goes on with the number.
-/

namespace Lox

section Digits

theorem digitsValue_append (left right : List Char) :
    digitsValue (left ++ right) = 10 ^ right.length * digitsValue left + digitsValue right := by
  rw [digitsValue, List.foldl_append]
  exact Nat.ofDigitChars_eq_ofDigitChars_zero

theorem digitsValue_zero_cons (digits : List Char) :
    digitsValue ('0' :: digits) = digitsValue digits :=
  rfl

theorem digitsValue_replicate_append (count : Nat) (digits : List Char) :
    digitsValue (List.replicate count '0' ++ digits) = digitsValue digits := by
  induction count with
  | zero => rfl
  | succ count ih => exact ih

theorem digitsValue_append_replicate (digits : List Char) (count : Nat) :
    digitsValue (digits ++ List.replicate count '0') = digitsValue digits * 10 ^ count := by
  have zeros := digitsValue_replicate_append count []
  rw [List.append_nil] at zeros
  rw [digitsValue_append, zeros, List.length_replicate, Nat.mul_comm]
  rfl

theorem digitsValue_toDigits (n : Nat) : digitsValue (Nat.toDigits 10 n) = n :=
  Nat.ofDigitChars_ten_toDigits

theorem Piece.isDigit_of_mem_toDigits {n : Nat} {c : Char} (member : c ∈ Nat.toDigits 10 n) :
    Piece.isDigit c := by
  have digit := Nat.isDigit_of_mem_toDigits (by decide) (by decide) member
  simpa [Piece.isDigit, Char.isDigit, Char.le_def] using digit

theorem head?_toDigits_ne_zero {n : Nat} (nonzero : n ≠ 0) :
    (Nat.toDigits 10 n).head? ≠ some '0' := by
  induction n using Nat.strongRecOn with
  | ind n ih =>
    rw [Nat.toDigits_eq_if (by decide)]
    split
    next small =>
      have cases : ∀ m < 10, m ≠ 0 → [Nat.digitChar m].head? ≠ some '0' := by decide
      exact cases n small nonzero
    next =>
      have before := ih (n / 10) (by omega) (by omega)
      cases digits : Nat.toDigits 10 (n / 10) with
      | nil => exact absurd digits Nat.toDigits_ne_nil
      | cons first more => simpa [digits] using before

end Digits

namespace Json

def NoDigit (text : List Char) : Prop :=
  ∀ c ∈ text.head?, ¬Piece.isDigit c

def Ends (text : List Char) : Prop :=
  ∀ c ∈ text.head?, ¬(Piece.isDigit c ∨ c = '.' ∨ c = 'e' ∨ c = 'E')

variable {digits whole rest : List Char}

theorem Ends.noDigit (ends : Ends rest) : NoDigit rest :=
  fun c member digit => ends c member (.inl digit)

theorem Ends.ne_point (ends : Ends rest) : rest.head? ≠ some '.' :=
  fun point => ends '.' point (.inr (.inl rfl))

theorem spanDigits_append (all : ∀ c ∈ digits, Piece.isDigit c) (stop : NoDigit rest) :
    spanDigits (digits ++ rest) = (digits, rest) := by
  rw [spanDigits, List.takeWhile_append_of_pos all, List.dropWhile_append_of_pos all]
  cases rest with
  | nil => simp
  | cons c more =>
    have other := stop c rfl
    simp [List.takeWhile_cons_of_neg other, List.dropWhile_cons_of_neg other]

theorem readExponent_of_ends (ends : Ends rest) : readExponent rest = none := by
  cases rest with
  | nil => rfl
  | cons c more =>
    have other := ends c rfl
    have unmarked : ¬(c = 'e' ∨ c = 'E') := fun mark => other (.inr (.inr mark))
    simp [readExponent, unmarked]

theorem readFraction_of_ne_point (other : rest.head? ≠ some '.') : readFraction rest = none := by
  unfold readFraction
  split
  next => simp at other
  next => rfl

theorem readFraction_append (nonempty : digits ≠ []) (all : ∀ c ∈ digits, Piece.isDigit c)
    (stop : NoDigit rest) : readFraction ('.' :: (digits ++ rest)) = some (digits, rest) := by
  simp [readFraction, spanDigits_append all stop, nonempty]

structure Whole (digits : List Char) : Prop where
  nonempty : digits ≠ []
  all : ∀ c ∈ digits, Piece.isDigit c
  leading : digits.head? = some '0' → digits = ['0']

theorem Whole.toDigits (n : Nat) : Whole (Nat.toDigits 10 n) where
  nonempty := Nat.toDigits_ne_nil
  all _ := Piece.isDigit_of_mem_toDigits
  leading zero := by
    by_cases none : n = 0
    · simp [none]
    · exact absurd zero (head?_toDigits_ne_zero none)

theorem Whole.singleton {c : Char} (digit : Piece.isDigit c) : Whole [c] where
  nonempty := by simp
  all := by simpa
  leading zero := by simpa using zero

theorem Whole.take {count : Nat} (plain : Whole whole) (some : 0 < count) :
    Whole (whole.take count) where
  nonempty := by simp [plain.nonempty]; omega
  all c member := plain.all c (List.mem_of_mem_take member)
  leading zero := by
    obtain ⟨more, rfl⟩ := Nat.exists_eq_add_of_lt some
    cases whole with
    | nil => simp at zero
    | cons first more =>
      rw [plain.leading (by simpa using zero)]
      simp

theorem Whole.append_zeros (plain : Whole whole) (nonzero : whole.head? ≠ some '0') (count : Nat) :
    Whole (whole ++ List.replicate count '0') where
  nonempty := by simp [plain.nonempty]
  all c member := by
    rcases List.mem_append.1 member with digit | zero
    · exact plain.all c digit
    · rw [List.eq_of_mem_replicate zero]
      decide
  leading zero := by
    cases whole with
    | nil => exact absurd rfl plain.nonempty
    | cons first more => exact absurd zero nonzero

theorem splitWhole (plain : Whole whole) :
    (if whole.head? = some '0' then (whole.take 1, whole.drop 1 ++ rest) else (whole, rest)) =
      (whole, rest) := by
  split
  next zero => simp [plain.leading zero]
  next => rfl

theorem readNumber_whole (negative : Bool) (plain : Whole whole) (ends : Ends rest)
    (short : whole.length ≤ maxDigits) :
    readNumber negative (whole ++ rest) =
      .ok (int (if negative then -(digitsValue whole : Int) else digitsValue whole), rest) := by
  rw [readNumber, spanDigits_append plain.all ends.noDigit]
  simp only [splitWhole plain]
  simp [plain.nonempty, readFraction_of_ne_point ends.ne_point, readExponent_of_ends ends,
    Nat.not_lt.2 short]

theorem readNumber_fraction (negative : Bool) (plain : Whole whole) (nonempty : digits ≠ [])
    (all : ∀ c ∈ digits, Piece.isDigit c) (ends : Ends rest) :
    readNumber negative (whole ++ '.' :: (digits ++ rest)) =
      .ok (float (Binary64.toFloat negative
        (Decimal.toWord ⟨digitsValue (whole ++ digits), -(digits.length : Int)⟩)), rest) := by
  have stop : NoDigit ('.' :: (digits ++ rest)) := by simp [NoDigit, Piece.isDigit]
  rw [readNumber, spanDigits_append plain.all stop]
  simp only [splitWhole plain, readFraction_append nonempty all ends.noDigit]
  simp [plain.nonempty, readExponent_of_ends ends]

section Scientific

def exponentDigits (n : Nat) : List Char :=
  let digits := Nat.toDigits 10 n
  if digits.length < 2 then '0' :: digits else digits

theorem exponentDigits_ne_nil (n : Nat) : exponentDigits n ≠ [] := by
  simp only [exponentDigits]
  split <;> simp

theorem isDigit_of_mem_exponentDigits {n : Nat} : ∀ c ∈ exponentDigits n, Piece.isDigit c := by
  intro c member
  simp only [exponentDigits] at member
  split at member
  next =>
    rcases List.mem_cons.1 member with rfl | digit
    · decide
    · exact Piece.isDigit_of_mem_toDigits digit
  next => exact Piece.isDigit_of_mem_toDigits member

theorem digitsValue_exponentDigits (n : Nat) : digitsValue (exponentDigits n) = n := by
  simp only [exponentDigits]
  split
  next => exact digitsValue_toDigits n
  next => exact digitsValue_toDigits n

def exponentText (power : Int) : List Char :=
  'e' :: (if power < 0 then '-' else '+') :: exponentDigits power.natAbs

def fractionText (digits : List Char) : List Char :=
  if digits = [] then [] else '.' :: digits

theorem readExponent_signed (negative : Bool) (nonempty : digits ≠ [])
    (all : ∀ c ∈ digits, Piece.isDigit c) (stop : NoDigit rest) :
    readExponent ('e' :: (if negative then '-' else '+') :: (digits ++ rest)) =
      some (if negative then -(digitsValue digits : Int) else digitsValue digits, rest) := by
  cases negative <;> simp [readExponent, spanDigits_append all stop, nonempty]

theorem readExponent_exponentText (power : Int) (stop : NoDigit rest) :
    readExponent (exponentText power ++ rest) = some (power, rest) := by
  have read := readExponent_signed (power < 0) (exponentDigits_ne_nil power.natAbs)
    isDigit_of_mem_exponentDigits stop
  have value : (if power < 0 then -(power.natAbs : Int) else power.natAbs) = power := by omega
  rw [digitsValue_exponentDigits] at read
  simp only [decide_eq_true_eq, value] at read
  exact read

theorem noDigit_fractionText {after : List Char} (stop : NoDigit after) :
    NoDigit (fractionText digits ++ after) := by
  unfold fractionText
  split
  next => exact stop
  next => simp [NoDigit, Piece.isDigit]

theorem readNumber_exponent (negative : Bool) {power : Int} (plain : Whole whole)
    (all : ∀ c ∈ digits, Piece.isDigit c) (stop : NoDigit rest) :
    readNumber negative (whole ++ (fractionText digits ++ (exponentText power ++ rest))) =
      .ok (float (Binary64.toFloat negative
        (Decimal.toWord ⟨digitsValue (whole ++ digits), power - digits.length⟩)), rest) := by
  have marked : NoDigit (exponentText power ++ rest) := by
    simp [NoDigit, exponentText, Piece.isDigit]
  have unpointed : (exponentText power ++ rest).head? ≠ some '.' := by simp [exponentText]
  have exponent := readExponent_exponentText power stop
  rw [readNumber, spanDigits_append plain.all (noDigit_fractionText marked)]
  simp only [splitWhole plain]
  by_cases none : digits = []
  · simp [none, fractionText, plain.nonempty, readFraction_of_ne_point unpointed, exponent]
  · have fraction := readFraction_append none all marked
    simp [none, fractionText, plain.nonempty, fraction, exponent]

theorem scientific_eq {d : Decimal} {first : Char} {more : List Char}
    (digits : Nat.toDigits 10 d.digits = first :: more) :
    Number.scientific d =
      [first] ++ (fractionText more ++ exponentText (more.length + d.exponent)) := by
  have power : ((first :: more).length : Int) + d.exponent - 1 = more.length + d.exponent := by
    simp
    omega
  simp only [Number.scientific, digits, power]
  cases more with
  | nil => simp [fractionText, exponentText, exponentDigits]
  | cons second more => simp [fractionText, exponentText, exponentDigits]

theorem readNumber_scientific (negative : Bool) (d : Decimal) (stop : NoDigit rest) :
    readNumber negative (Number.scientific d ++ rest) =
      .ok (float (Binary64.toFloat negative d.toWord), rest) := by
  have all : ∀ c ∈ Nat.toDigits 10 d.digits, Piece.isDigit c :=
    fun _ => Piece.isDigit_of_mem_toDigits
  have value := digitsValue_toDigits d.digits
  cases digits : Nat.toDigits 10 d.digits with
  | nil => exact absurd digits Nat.toDigits_ne_nil
  | cons first more =>
    rw [digits] at all value
    have exponent : (more.length + d.exponent : Int) - more.length = d.exponent := by omega
    rw [scientific_eq digits, List.append_assoc, List.append_assoc,
      readNumber_exponent negative (.singleton (all first (by simp)))
        (fun c member => all c (by simp [member])) stop,
      List.singleton_append, value, exponent]

end Scientific

section Positional

/-- The digits of a fraction in their places: those of a whole number, and behind a point as many
as the exponent says. -/
theorem positional_fraction {d : Decimal} (fraction : d.exponent < 0) :
    ∃ whole places, Number.positional d = whole ++ '.' :: places ∧ Whole whole ∧ places ≠ [] ∧
      (∀ c ∈ places, Piece.isDigit c) ∧ digitsValue (whole ++ places) = d.digits ∧
      -(places.length : Int) = d.exponent := by
  have plain := Whole.toDigits d.digits
  have value := digitsValue_toDigits d.digits
  simp only [Number.positional, Int.not_le.2 fraction, if_false]
  generalize Nat.toDigits 10 d.digits = digits at plain value ⊢
  split
  next inside =>
    obtain ⟨count, point⟩ := Int.eq_ofNat_of_zero_le (Int.le_of_lt inside)
    rw [point, Int.toNat_natCast]
    refine ⟨digits.take count, digits.drop count, rfl, plain.take (by omega), ?_, ?_, ?_, ?_⟩
    · simp
      omega
    · exact fun c member => plain.all c (List.mem_of_mem_drop member)
    · rw [List.take_append_drop, value]
    · simp
      omega
  next outside =>
    obtain ⟨zeros, gap⟩ := Int.eq_ofNat_of_zero_le
      (show 0 ≤ -((digits.length : Int) + d.exponent) by omega)
    rw [gap, Int.toNat_natCast]
    refine ⟨['0'], List.replicate zeros '0' ++ digits, rfl, .singleton (by decide), ?_, ?_, ?_, ?_⟩
    · simp [plain.nonempty]
    · intro c member
      rcases List.mem_append.1 member with zero | digit
      · rw [List.eq_of_mem_replicate zero]
        decide
      · exact plain.all c digit
    · rw [List.singleton_append, digitsValue_zero_cons, digitsValue_replicate_append, value]
    · simp
      omega

theorem readNumber_positional (negative : Bool) {d : Decimal} (fraction : d.exponent < 0)
    (ends : Ends rest) :
    readNumber negative (Number.positional d ++ rest) =
      .ok (float (Binary64.toFloat negative d.toWord), rest) := by
  obtain ⟨whole, places, written, plain, nonempty, all, value, exponent⟩ :=
    positional_fraction fraction
  rw [written, List.append_assoc, List.cons_append,
    readNumber_fraction negative plain nonempty all ends, value, exponent]

theorem readNumber_positional_whole (negative : Bool) {d : Decimal} (whole : 0 ≤ d.exponent)
    (zero : d.digits = 0 → d.exponent = 0) (ends : Ends rest) :
    readNumber negative (Number.positional d ++ '.' :: '0' :: rest) =
      .ok (float (Binary64.toFloat negative d.toWord), rest) := by
  obtain ⟨n, e⟩ := d
  obtain ⟨zeros, rfl⟩ := Int.eq_ofNat_of_zero_le whole
  have plain : Whole (Nat.toDigits 10 n ++ List.replicate zeros '0') := by
    by_cases none : n = 0
    · have single : zeros = 0 := by simpa using zero none
      simpa [single] using Whole.toDigits n
    · exact (Whole.toDigits n).append_zeros (head?_toDigits_ne_zero none) zeros
  have read := @readNumber_fraction ['0'] _ rest negative plain (by simp)
    (List.forall_mem_singleton.2 (by decide)) ends
  have value : digitsValue (Nat.toDigits 10 n ++ List.replicate zeros '0' ++ ['0']) =
      n * 10 ^ (zeros + 1) := by
    rw [List.append_assoc, ← List.replicate_succ', digitsValue_append_replicate,
      digitsValue_toDigits]
  have places : -((['0'] : List Char).length : Int) = zeros - (zeros + 1 : Nat) := by
    rw [List.length_singleton]
    omega
  rw [value, places, Decimal.toWord_mul_pow] at read
  simpa [Number.positional] using read

end Positional

theorem readNumber_dataDigits (negative : Bool) {d : Decimal}
    (zero : d.digits = 0 → d.exponent = 0) (ends : Ends rest) :
    readNumber negative (Number.dataDigits d ++ rest) =
      .ok (float (Binary64.toFloat negative d.toWord), rest) := by
  simp only [Number.dataDigits]
  split
  next => exact readNumber_scientific negative d ends.noDigit
  next =>
    split
    next whole =>
      rw [List.append_assoc]
      exact readNumber_positional_whole negative whole zero ends
    next fraction => exact readNumber_positional negative (by omega) ends

end Json

end Lox
