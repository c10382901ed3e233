import Shakedown.Proofs.Text.Boundary

/-!
# Ink

The characters that leave something on the page. A range that begins and ends with one is framed:
blanks and line breaks around it stay outside whichever way the range is widened.
-/

namespace Shakedown
namespace Text

/-- A character other than a space, a tab and the two that end lines in every convention. -/
def isInk (char : Char) : Bool :=
  char != ' ' && char != '\t' && char != '\n' && char != '\r'

/-- A test that blanks and line ends fail is passed by ink only. -/
theorem isInk_of_passes (test : Char → Bool) (space : test ' ' = false)
    (tab : test '\t' = false) (feed : test '\n' = false) (carriage : test '\r' = false) {char : Char}
    (passes : test char) : isInk char := by
  rw [isInk]
  simp only [Bool.and_eq_true, bne_iff_ne, ne_eq]
  refine ⟨⟨⟨?_, ?_⟩, ?_⟩, ?_⟩ <;> rintro rfl <;> simp_all

/-- `rest` is what a text holds from an offset on. -/
def LeftAt (text : List Char) (offset : Nat) (rest : List Char) : Prop :=
  ∃ front, text = front ++ rest ∧ width front = offset

/-- A character that leaves ink begins at the offset. -/
def InkFrom (text : List Char) (offset : Nat) : Prop :=
  ∃ char rest, LeftAt text offset (char :: rest) ∧ isInk char

/-- A character that leaves ink ends at the offset. -/
def InkUpTo (text : List Char) (offset : Nat) : Prop :=
  ∃ start char rest, LeftAt text start (char :: rest) ∧ offset = start + char.utf8Size ∧ isInk char

/-- A range of at least one byte that begins and ends with ink. -/
structure Framed (text : List Char) (span : Span) : Prop where
  /-- Its first character leaves ink. -/
  begins : InkFrom text span.start
  /-- Its last character leaves ink. -/
  ends : InkUpTo text span.stop
  /-- It holds something. -/
  proper : span.start < span.stop

variable {text rest : List Char} {offset : Nat}

theorem leftAt_zero (text : List Char) : LeftAt text 0 text :=
  ⟨[], rfl, rfl⟩

namespace LeftAt

theorem isBoundary (left : LeftAt text offset rest) : IsBoundary text offset := by
  obtain ⟨front, rfl, rfl⟩ := left
  exact isBoundary_iff.2 ⟨front, rest, rfl, rfl⟩

theorem add_width (left : LeftAt text offset rest) : offset + width rest = width text := by
  obtain ⟨front, rfl, rfl⟩ := left
  rw [width_append]

/-- Going on by some of the characters that are left. -/
theorem drop {part : List Char} (left : LeftAt text offset (part ++ rest)) :
    LeftAt text (offset + width part) rest := by
  obtain ⟨front, rfl, rfl⟩ := left
  exact ⟨front ++ part, by rw [List.append_assoc], width_append front part⟩

theorem tail {char : Char} (left : LeftAt text offset (char :: rest)) :
    LeftAt text (offset + char.utf8Size) rest := by
  have single : LeftAt text offset ([char] ++ rest) := left
  simpa using single.drop

/-- Only one text is left at an offset. -/
theorem unique {other : List Char} (left : LeftAt text offset rest)
    (also_left : LeftAt text offset other) : rest = other := by
  obtain ⟨front, text_eq, front_width⟩ := left
  obtain ⟨front', text_eq', front_width'⟩ := also_left
  have same : front ++ rest = front' ++ other := text_eq.symm.trans text_eq'
  obtain ⟨middle, front'_eq, rest_eq⟩ :=
    exists_eq_append_of_width_le same (Nat.le_of_eq (front_width.trans front_width'.symm))
  have middle_empty : middle = [] := by
    apply eq_nil_of_width_eq_zero
    rw [front'_eq, width_append] at front_width'
    omega
  rw [rest_eq, middle_empty, List.nil_append]

end LeftAt

theorem InkFrom.isBoundary (ink : InkFrom text offset) : IsBoundary text offset := by
  obtain ⟨char, rest, left, -⟩ := ink
  exact left.isBoundary

theorem InkUpTo.isBoundary (ink : InkUpTo text offset) : IsBoundary text offset := by
  obtain ⟨start, char, rest, left, rfl, -⟩ := ink
  exact left.tail.isBoundary

theorem InkUpTo.le_width (ink : InkUpTo text offset) : offset ≤ width text :=
  ink.isBoundary.le_width

end Text
end Shakedown
