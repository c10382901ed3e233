/-!
# Variable-length numbers

A signed number is written as base-64 digits of five bits each, the lowest first. The sign is the
lowest bit of all, and a sixth bit marks the digits that another digit follows.
-/

namespace Shakedown
namespace Vlq

/-- The sixty-four digits in order. -/
def alphabet : List Char :=
  "ABCDEFGHIJKLMNOPQRSTUVWXYZabcdefghijklmnopqrstuvwxyz0123456789+/".toList

/-- The character of a digit. -/
def digitChar (digit : Nat) : Char :=
  alphabet.getD digit 'A'

/-- The digit of a character. -/
def digitOf? (char : Char) : Option Nat :=
  alphabet.idxOf? char

/-- The natural number whose lowest bit is the sign. -/
def zigzag (value : Int) : Nat :=
  if value < 0 then 2 * value.natAbs + 1 else 2 * value.natAbs

/-- The number that `zigzag` stands for. -/
def unzigzag (bits : Nat) : Int :=
  if bits % 2 = 1 then -((bits / 2 : Nat) : Int) else ((bits / 2 : Nat) : Int)

theorem unzigzag_zigzag (value : Int) : unzigzag (zigzag value) = value := by
  unfold unzigzag zigzag
  split <;> split <;> omega

/-- The digits of a natural number. A number needs fewer digits than its value, so `limit` does not
cut any off when it is the number itself. -/
def digits : (limit : Nat) → Nat → List Nat
  | 0, bits => [bits]
  | limit + 1, bits => if bits < 32 then [bits] else (bits % 32 + 32) :: digits limit (bits / 32)

/-- The text of a number. -/
def encode (value : Int) : List Char :=
  (digits (zigzag value) (zigzag value)).map digitChar

/-- The greatest number of digits that a number may have. -/
def digitLimit : Nat := 7

/-- What a digit counts for that stands behind as many others. -/
def weight : (count : Nat) → Nat
  | 0 => 1
  | count + 1 => 32 * weight count

theorem weight_mono {fewer more : Nat} (le : fewer ≤ more) : weight fewer ≤ weight more := by
  induction le with
  | refl => exact Nat.le_refl _
  | step _ ih =>
      rw [weight]
      omega

/-- The numbers that a text is the concatenation of. `bits` and `count` are the value and the
number of the digits already read of an unfinished number. -/
def decodeFrom : (bits count : Nat) → List Char → Option (List Int)
  | _, count, [] => if count = 0 then some [] else none
  | bits, count, char :: rest =>
      match digitOf? char with
      | none => none
      | some digit =>
          if digitLimit ≤ count then
            none
          else
            let bits := bits + digit % 32 * weight count
            if 32 ≤ digit then decodeFrom bits (count + 1) rest
            else (decodeFrom 0 0 rest).map (unzigzag bits :: ·)

/-- The numbers that a text is the concatenation of. -/
def decode (text : List Char) : Option (List Int) :=
  decodeFrom 0 0 text

end Vlq
end Shakedown
