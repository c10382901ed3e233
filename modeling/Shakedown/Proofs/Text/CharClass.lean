import Shakedown.Text.CharClass

/-!
# How the character classes lie in each other

The tables hold ranges, so whether a class lies in another, or apart from it, is seen range by range.
-/

namespace Shakedown
namespace CharClass

open CharTable

variable {inner outer : List (Nat × Nat)} {char : Char}

/-- A class lies in another when each of its ranges lies in a range of the other. -/
theorem contains_of_ranges
    (within : ∀ range ∈ inner, ∃ other ∈ outer, other.1 ≤ range.1 ∧ range.2 ≤ other.2)
    (contained : contains inner char) : contains outer char := by
  obtain ⟨range, among, bounds⟩ := List.any_eq_true.1 contained
  obtain ⟨other, among_others, first, last⟩ := within range among
  simp only [Bool.and_eq_true, decide_eq_true_eq] at bounds
  apply List.any_eq_true.2
  refine ⟨other, among_others, ?_⟩
  simp only [Bool.and_eq_true, decide_eq_true_eq]
  omega

/-- A class lies apart from another when each of its ranges lies apart from each of the other. -/
theorem not_contains_of_ranges
    (apart : ∀ range ∈ inner, ∀ other ∈ outer, other.2 < range.1 ∨ range.2 < other.1)
    (contained : contains inner char) : contains outer char = false := by
  obtain ⟨range, among, bounds⟩ := List.any_eq_true.1 contained
  simp only [Bool.and_eq_true, decide_eq_true_eq] at bounds
  apply List.any_eq_false.2
  intro other among_others
  have outside := apart range among other among_others
  simp only [Bool.and_eq_true, decide_eq_true_eq]
  omega

/-- A decimal digit is a word character. -/
theorem isWord_of_isDigit (digit : isDigit char) : isWord char := by
  rw [isDigit] at digit
  rw [isWord]
  split at digit
  · rename_i ascii
    rw [if_pos ascii, digit, Bool.or_true, Bool.true_or]
  · rename_i beyond
    have extends_ : contains identifierExtend char :=
      contains_of_ranges (by decide +kernel) digit
    have not_only : contains identifierOnly char = false :=
      not_contains_of_ranges (by decide +kernel) digit
    rw [if_neg beyond, extends_, not_only]
    simp

/-- A decimal digit is no blank. -/
theorem isBlank_of_isDigit (digit : isDigit char) : isBlank char = false := by
  rw [isDigit] at digit
  rw [isBlank]
  split at digit
  · rename_i ascii
    have above : 48 ≤ char.toNat := by
      rw [isAsciiDigit, Bool.and_eq_true, decide_eq_true_eq] at digit
      exact UInt32.le_iff_toNat_le.1 digit.1
    have no_space : char ≠ ' ' := by
      rintro rfl
      contradiction
    simp [ascii, no_space]
    omega
  · rename_i beyond
    rw [if_neg beyond]
    exact not_contains_of_ranges (by decide +kernel) digit

end CharClass
end Shakedown
