import Mathlib.Data.Nat.Digits.Lemmas
import Shakedown.Proofs.SourceMap.Numbers

/-!
# The texts that are read as numbers

A text is read as a list of numbers exactly when it is the concatenation of that many numerals: at
most seven digits each, all but the last of them marked as followed by another. A numeral may have
more digits than its number needs, and the two signs of zero are told apart in the text alone.
-/

namespace Shakedown
namespace Vlq

/-- The digits of one complete number. -/
structure Numeral where
  /-- The digits that another one follows, the lowest first. -/
  more : List Nat
  /-- The highest digit. -/
  last : Nat
  /-- There are at most seven digits. -/
  short : more.length < 7
  /-- A digit holds five bits. -/
  more_lt : ∀ digit ∈ more, digit < 32
  /-- So does the last one. -/
  last_lt : last < 32

/-- The text of digits: the sixth bit marks those that another one follows. -/
def spell (more : List Nat) (last : Nat) : List Char :=
  more.map (fun digit => digitChar (digit + 32)) ++ [digitChar last]

@[simp]
theorem spell_nil (last : Nat) : spell [] last = [digitChar last] := rfl

@[simp]
theorem spell_cons (digit : Nat) (more : List Nat) (last : Nat) :
    spell (digit :: more) last = digitChar (digit + 32) :: spell more last := rfl

namespace Numeral

/-- The text of a numeral. -/
def text (numeral : Numeral) : List Char :=
  spell numeral.more numeral.last

/-- The digits as one natural number. -/
def bits (numeral : Numeral) : Nat :=
  Nat.ofDigits 32 (numeral.more ++ [numeral.last])

/-- The number: its sign is the lowest bit, and its magnitude the others. -/
def value (numeral : Numeral) : Int :=
  (-1) ^ (numeral.bits % 2) * ((numeral.bits / 2 : Nat) : Int)

theorem value_eq_unzigzag (numeral : Numeral) : numeral.value = unzigzag numeral.bits := by
  unfold value unzigzag
  rcases Nat.mod_two_eq_zero_or_one numeral.bits with even | odd
  · simp [even]
  · simp [odd]

theorem bits_lt (numeral : Numeral) : numeral.bits < 32 ^ 7 := by
  have digits_lt : ∀ digit ∈ numeral.more ++ [numeral.last], digit < 32 := by
    intro digit member
    rcases List.mem_append.1 member with member | member
    · exact numeral.more_lt digit member
    · rw [List.mem_singleton.1 member]
      exact numeral.last_lt
  calc
    numeral.bits < 32 ^ (numeral.more ++ [numeral.last]).length :=
      Nat.ofDigits_lt_base_pow_length (by decide) digits_lt
    _ ≤ 32 ^ 7 := by
      apply Nat.pow_le_pow_right (by decide)
      simpa using numeral.short

/-- Seven digits hold a sign and 34 bits. -/
theorem abs_value_lt (numeral : Numeral) :
    -17179869184 < numeral.value ∧ numeral.value < 17179869184 := by
  have bits_lt := numeral.bits_lt
  rw [value_eq_unzigzag, unzigzag]
  split <;> omega

end Numeral

/-! ## One number -/

theorem digitOf?_eq_some {char : Char} {digit : Nat} (known : digitOf? char = some digit) :
    digit < 64 ∧ char = digitChar digit := by
  obtain ⟨small, at_digit, -⟩ := List.idxOf?_eq_some_iff.1 known
  refine ⟨small, ?_⟩
  rw [digitChar, ← List.getElem_eq_getD (h := small), at_digit]

/-- What one more low digit adds, with the place that the unfinished number has reached. -/
private theorem add_ofDigits_cons (bits count digit : Nat) (higher : List Nat) :
    bits + digit * weight count + Nat.ofDigits 32 higher * weight (count + 1) =
      bits + Nat.ofDigits 32 (digit :: higher) * weight count := by
  rw [Nat.ofDigits_cons, weight]
  ring

/-- The reader takes the rest of an unfinished number up to its last digit. -/
theorem decodeFrom_spell {more : List Nat} {last : Nat} (more_lt : ∀ digit ∈ more, digit < 32)
    (last_lt : last < 32) (bits : Nat) {count : Nat} (room : count + more.length < digitLimit)
    (rest : List Char) :
    decodeFrom bits count (spell more last ++ rest) =
      (decodeFrom 0 0 rest).map
        (unzigzag (bits + Nat.ofDigits 32 (more ++ [last]) * weight count) :: ·) := by
  induction more generalizing bits count with
  | nil =>
      rw [spell_nil, List.singleton_append, decodeFrom_last last_lt bits (by simpa using room)]
      simp
  | cons digit more ih =>
      rw [List.length_cons] at room
      rw [spell_cons, List.cons_append,
        decodeFrom_more (more_lt digit (by simp)) bits (by omega),
        ih (fun other member => more_lt other (by simp [member])) _ (by omega),
        List.cons_append, add_ofDigits_cons]

/-- Wherever a number is found, the text begins with the digits of one. -/
theorem exists_spell_of_decodeFrom {bits count : Nat} {text : List Char} {number : Int}
    {numbers : List Int} (read : decodeFrom bits count text = some (number :: numbers)) :
    ∃ more last rest, text = spell more last ++ rest ∧ count + more.length < digitLimit ∧
      (∀ digit ∈ more, digit < 32) ∧ last < 32 ∧
      number = unzigzag (bits + Nat.ofDigits 32 (more ++ [last]) * weight count) ∧
      decodeFrom 0 0 rest = some numbers := by
  induction text generalizing bits count with
  | nil =>
      rw [decodeFrom] at read
      split at read <;> simp at read
  | cons char rest ih =>
      rw [decodeFrom] at read
      cases known : digitOf? char with
      | none => simp [known] at read
      | some digit =>
          obtain ⟨digit_lt, rfl⟩ := digitOf?_eq_some known
          simp only [known] at read
          split_ifs at read with full marked
          · obtain ⟨more, last, after, rfl, room, more_lt, last_lt, number_eq, after_eq⟩ :=
              ih read
            refine ⟨digit % 32 :: more, last, after, ?_, ?_, ?_, last_lt, ?_, after_eq⟩
            · have char_eq : digit % 32 + 32 = digit := by omega
              rw [spell_cons, char_eq, List.cons_append]
            · rw [List.length_cons]
              omega
            · intro other member
              rcases List.mem_cons.1 member with rfl | member
              · exact Nat.mod_lt digit (by decide)
              · exact more_lt other member
            · rw [number_eq, List.cons_append, add_ofDigits_cons]
          · obtain ⟨others, others_eq, same⟩ := Option.map_eq_some_iff.1 read
            obtain ⟨number_eq, rfl⟩ := List.cons.inj same
            have low : digit % 32 = digit := Nat.mod_eq_of_lt (by omega)
            refine ⟨[], digit, rest, rfl, by simpa using full, by simp, by omega, ?_, others_eq⟩
            rw [← number_eq, low, List.nil_append, Nat.ofDigits_singleton]

theorem eq_nil_of_decodeFrom {bits count : Nat} {text : List Char}
    (read : decodeFrom bits count text = some []) : text = [] ∧ count = 0 := by
  induction text generalizing bits count with
  | nil =>
      rw [decodeFrom] at read
      split at read
      · exact ⟨rfl, ‹_›⟩
      · simp at read
  | cons char rest ih =>
      rw [decodeFrom] at read
      cases known : digitOf? char with
      | none => simp [known] at read
      | some digit =>
          simp only [known] at read
          split_ifs at read with full marked
          · exact absurd (ih read).2 (Nat.succ_ne_zero count)
          · simp at read

/-! ## Lists of numbers -/

theorem decode_numeral_append (numeral : Numeral) (rest : List Char) :
    decode (numeral.text ++ rest) = (decode rest).map (numeral.value :: ·) := by
  have room : 0 + numeral.more.length < digitLimit := by
    rw [Nat.zero_add]
    exact numeral.short
  rw [decode, Numeral.text,
    decodeFrom_spell numeral.more_lt numeral.last_lt 0 room, Numeral.value_eq_unzigzag]
  simp [decode, weight, Numeral.bits]

theorem exists_numeral_of_decode {text : List Char} {number : Int} {numbers : List Int}
    (read : decode text = some (number :: numbers)) :
    ∃ (numeral : Numeral) (rest : List Char), text = numeral.text ++ rest ∧
      number = numeral.value ∧ decode rest = some numbers := by
  obtain ⟨more, last, rest, rfl, room, more_lt, last_lt, number_eq, rest_eq⟩ :=
    exists_spell_of_decodeFrom read
  rw [Nat.zero_add] at room
  let numeral : Numeral := ⟨more, last, room, more_lt, last_lt⟩
  refine ⟨numeral, rest, rfl, ?_, rest_eq⟩
  rw [number_eq, numeral.value_eq_unzigzag]
  simp [weight, numeral, Numeral.bits]

/-- A text is read as the numbers of the numerals that it is the concatenation of, and not at all
when there are none. -/
theorem decode_eq_some_iff {text : List Char} {numbers : List Int} :
    decode text = some numbers ↔
      ∃ numerals : List Numeral, text = numerals.flatMap Numeral.text ∧
        numbers = numerals.map Numeral.value := by
  constructor
  · intro read
    induction numbers generalizing text with
    | nil => exact ⟨[], (eq_nil_of_decodeFrom read).1, rfl⟩
    | cons number numbers ih =>
        obtain ⟨numeral, rest, rfl, rfl, rest_eq⟩ := exists_numeral_of_decode read
        obtain ⟨numerals, rfl, rfl⟩ := ih rest_eq
        exact ⟨numeral :: numerals, rfl, rfl⟩
  · rintro ⟨numerals, rfl, rfl⟩
    induction numerals with
    | nil => rfl
    | cons numeral numerals ih =>
        rw [List.flatMap_cons, decode_numeral_append, ih]
        rfl

end Vlq
end Shakedown
