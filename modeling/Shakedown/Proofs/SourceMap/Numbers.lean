import Shakedown.SourceMap.Vlq

/-!
# Reading variable-length numbers back

A number of at most seven digits is read back from its text, whatever text follows it. So a list
of such numbers is read back from the concatenation of their texts.
-/

namespace Shakedown
namespace Vlq

/-! ## Digits -/

theorem digitOf?_digitChar {digit : Nat} (small : digit < 64) :
    digitOf? (digitChar digit) = some digit := by
  have table : ∀ digit : Fin 64, digitOf? (digitChar digit) = some digit.val := by
    decide +kernel
  exact table ⟨digit, small⟩

theorem digitChar_mem_alphabet {digit : Nat} (small : digit < 64) :
    digitChar digit ∈ alphabet := by
  have known : alphabet.idxOf? (digitChar digit) = some digit := digitOf?_digitChar small
  rw [← List.isSome_idxOf?, known]
  rfl

theorem digits_ne_nil (limit bits : Nat) : digits limit bits ≠ [] := by
  cases limit with
  | zero => simp [digits]
  | succ limit =>
      rw [digits]
      split <;> simp

theorem digits_lt {limit bits : Nat} (enough : bits ≤ limit) :
    ∀ digit ∈ digits limit bits, digit < 64 := by
  induction limit generalizing bits with
  | zero =>
      intro digit member
      rw [digits, List.mem_singleton] at member
      omega
  | succ limit ih =>
      intro digit member
      rw [digits] at member
      split at member
      · rw [List.mem_singleton] at member
        omega
      · rcases List.mem_cons.1 member with rfl | member
        · omega
        · exact ih (by omega) digit member

theorem encode_ne_nil (value : Int) : encode value ≠ [] := by
  simp [encode, digits_ne_nil]

/-- Numbers are written in the alphabet alone, so no separator occurs in them. -/
theorem mem_alphabet_of_mem_encode {value : Int} {char : Char} (member : char ∈ encode value) :
    char ∈ alphabet := by
  obtain ⟨digit, digit_mem, rfl⟩ := List.mem_map.1 member
  exact digitChar_mem_alphabet (digits_lt (Nat.le_refl _) digit digit_mem)

/-! ## Reading digits -/

theorem decodeFrom_last {digit : Nat} (last : digit < 32) (bits : Nat) {count : Nat}
    (room : count < digitLimit) (rest : List Char) :
    decodeFrom bits count (digitChar digit :: rest) =
      (decodeFrom 0 0 rest).map (unzigzag (bits + digit * weight count) :: ·) := by
  have known : digitOf? (digitChar digit) = some digit := digitOf?_digitChar (by omega)
  have low : digit % 32 = digit := Nat.mod_eq_of_lt last
  rw [decodeFrom, known]
  simp only [Nat.not_le.2 room, Nat.not_le.2 last, low, if_false]

theorem decodeFrom_more {low : Nat} (small : low < 32) (bits : Nat) {count : Nat}
    (room : count < digitLimit) (rest : List Char) :
    decodeFrom bits count (digitChar (low + 32) :: rest) =
      decodeFrom (bits + low * weight count) (count + 1) rest := by
  have known : digitOf? (digitChar (low + 32)) = some (low + 32) := digitOf?_digitChar (by omega)
  have value : (low + 32) % 32 = low := by omega
  rw [decodeFrom, known]
  simp only [Nat.not_le.2 room, value, if_false, Nat.le_add_left, if_true]

/-- Where a number is cut between two digits, the value read so far and the digits to come make
up the whole. `bits * weight count` is what they contribute, and it bounds how many there are. -/
theorem decodeFrom_digits {limit bits : Nat} (enough : bits ≤ limit) (read : Nat) {count : Nat}
    (room : count < digitLimit) (small : bits * weight count < weight digitLimit)
    (rest : List Char) :
    decodeFrom read count ((digits limit bits).map digitChar ++ rest) =
      (decodeFrom 0 0 rest).map (unzigzag (read + bits * weight count) :: ·) := by
  induction limit generalizing bits read count with
  | zero =>
      have last : bits < 32 := by omega
      exact decodeFrom_last last read room rest
  | succ limit ih =>
      rw [digits]
      by_cases last : bits < 32
      · rw [if_pos last]
        exact decodeFrom_last last read room rest
      · rw [if_neg last, List.map_cons, List.cons_append,
          decodeFrom_more (Nat.mod_lt bits (by decide)) read room]
        have contribution :
            bits * weight count = bits % 32 * weight count + bits / 32 * weight (count + 1) := by
          calc
            bits * weight count = (bits % 32 + 32 * (bits / 32)) * weight count := by
              rw [Nat.mod_add_div]
            _ = bits % 32 * weight count + bits / 32 * weight (count + 1) := by
              rw [Nat.add_mul, weight]
              congr 1
              ac_rfl
        have left : bits / 32 * weight (count + 1) < weight digitLimit := by omega
        have another : weight (count + 1) ≤ bits / 32 * weight (count + 1) :=
          Nat.le_mul_of_pos_left _ (by omega)
        have room' : count + 1 < digitLimit := by
          apply Nat.lt_of_not_le
          intro full
          exact absurd (weight_mono full) (Nat.not_le.2 (Nat.lt_of_le_of_lt another left))
        rw [ih (by omega) _ room' left, contribution, Nat.add_assoc]

/-! ## Lists of numbers -/

/-- A number that has at most as many digits as a number may have. -/
def Short (value : Int) : Prop :=
  zigzag value < weight digitLimit

theorem decode_encode_append {value : Int} (short : Short value) (rest : List Char) :
    decode (encode value ++ rest) = (decode rest).map (value :: ·) := by
  have whole : zigzag value * weight 0 < weight digitLimit := by
    rw [weight, Nat.mul_one]
    exact short
  rw [decode, encode, decodeFrom_digits (Nat.le_refl _) 0 (by decide) whole]
  simp [unzigzag_zigzag, decode, weight]

/-- Short numbers are read back from their texts written one behind the other. -/
theorem decode_flatMap_encode {values : List Int} (short : ∀ value ∈ values, Short value) :
    decode (values.flatMap encode) = some values := by
  induction values with
  | nil => simp [decode, decodeFrom]
  | cons value values ih =>
      rw [List.flatMap_cons, decode_encode_append (short value (by simp)),
        ih fun other member => short other (by simp [member])]
      rfl

/-- Differences of two 32-bit numbers are short. -/
theorem short_of_abs_lt {value : Int} (lower : -4294967296 < value) (upper : value < 4294967296) :
    Short value := by
  have bound : zigzag value < 8589934592 := by
    unfold zigzag
    split <;> omega
  exact Nat.lt_trans bound (by decide)

end Vlq
end Shakedown
