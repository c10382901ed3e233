import Shakedown.Text.Basic

/-!
# Boundaries

Boundaries are the offsets at which a text can be taken apart. Between two of them lies a part of
the text, and a boundary inside a part takes it apart as well.
-/

namespace Shakedown
namespace Text

/-- The offset falls between two characters of the text or on one of its ends. -/
def IsBoundary (text : List Char) (offset : Nat) : Prop :=
  (splitAt? text offset).isSome

instance (text : List Char) (offset : Nat) : Decidable (IsBoundary text offset) :=
  inferInstanceAs (Decidable (_ = true))

theorem isBoundary_iff {text : List Char} {offset : Nat} :
    IsBoundary text offset ↔ ∃ front back, text = front ++ back ∧ width front = offset := by
  constructor
  · intro boundary
    obtain ⟨⟨front, back⟩, split⟩ := Option.isSome_iff_exists.1 boundary
    exact ⟨front, back, eq_append_of_splitAt? split⟩
  · rintro ⟨front, back, rfl, rfl⟩
    rw [IsBoundary, splitAt?_append]
    rfl

theorem isBoundary_width (text : List Char) : IsBoundary text (width text) :=
  isBoundary_iff.2 ⟨text, [], (List.append_nil text).symm, rfl⟩

theorem IsBoundary.le_width {text : List Char} {offset : Nat} (boundary : IsBoundary text offset) :
    offset ≤ width text := by
  obtain ⟨front, back, rfl, rfl⟩ := isBoundary_iff.1 boundary
  simp

@[simp]
theorem width_reverse (text : List Char) : width text.reverse = width text := by
  induction text with
  | nil => rfl
  | cons char rest ih =>
      rw [List.reverse_cons, width_append, ih, width_cons, width_cons, width_nil, Nat.add_zero,
        Nat.add_comm]

theorem eq_nil_of_width_eq_zero {text : List Char} (empty : width text = 0) : text = [] := by
  cases text with
  | nil => rfl
  | cons char rest =>
      have wide := char.utf8Size_pos
      rw [width_cons] at empty
      omega

/-- Of two ways to take a text apart, the earlier one also takes apart the front of the later. -/
theorem exists_eq_append_of_width_le {front back longer rest : List Char}
    (same : front ++ back = longer ++ rest) (shorter : width front ≤ width longer) :
    ∃ middle, longer = front ++ middle ∧ back = middle ++ rest := by
  rcases List.append_eq_append_iff.1 same with ⟨middle, longer_eq, back_eq⟩ |
      ⟨middle, front_eq, rest_eq⟩
  · exact ⟨middle, longer_eq, back_eq⟩
  · have middle_empty : middle = [] := by
      apply eq_nil_of_width_eq_zero
      rw [front_eq, width_append] at shorter
      omega
    subst middle_empty
    exact ⟨[], by simpa using front_eq.symm, by simpa using rest_eq.symm⟩

/-- A text is taken apart at an offset in one way. -/
theorem append_inj_of_width_eq {front back front' back' : List Char} (same : front ++ back = front' ++ back')
    (width_eq : width front = width front') : front = front' ∧ back = back' := by
  obtain ⟨middle, rfl, rfl⟩ := exists_eq_append_of_width_le same (Nat.le_of_eq width_eq)
  rw [width_append] at width_eq
  have empty : width middle = 0 := by omega
  obtain rfl := eq_nil_of_width_eq_zero empty
  simp

/-! ## Parts between boundaries -/

theorem slice?_eq_some_iff {text part : List Char} {start stop : Nat} :
    slice? text ⟨start, stop⟩ = some part ↔
      ∃ front back, text = front ++ (part ++ back) ∧ width front = start ∧
        start + width part = stop := by
  constructor
  · exact eq_append_of_slice?
  · rintro ⟨front, back, rfl, rfl, rfl⟩
    exact slice?_append front part back

theorem width_of_slice? {text part : List Char} {start stop : Nat}
    (part_eq : slice? text ⟨start, stop⟩ = some part) : start + width part = stop := by
  obtain ⟨-, -, -, -, stop_eq⟩ := slice?_eq_some_iff.1 part_eq
  exact stop_eq

theorem slice?_append_slice? {text first second : List Char} {start middle stop : Nat}
    (first_eq : slice? text ⟨start, middle⟩ = some first)
    (second_eq : slice? text ⟨middle, stop⟩ = some second) :
    slice? text ⟨start, stop⟩ = some (first ++ second) := by
  obtain ⟨front, back, rfl, rfl, rfl⟩ := slice?_eq_some_iff.1 first_eq
  obtain ⟨longer, rest, same, longer_width, rfl⟩ := slice?_eq_some_iff.1 second_eq
  rw [← List.append_assoc] at same
  obtain ⟨middle, longer_eq, back_eq⟩ :=
    exists_eq_append_of_width_le same (Nat.le_of_eq (by rw [width_append, longer_width]))
  have middle_empty : middle = [] := by
    apply eq_nil_of_width_eq_zero
    rw [longer_eq, width_append, width_append] at longer_width
    omega
  subst middle_empty
  refine slice?_eq_some_iff.2 ⟨front, rest, ?_, rfl, by rw [width_append]; omega⟩
  rw [back_eq, List.nil_append, List.append_assoc]

/-- A boundary between the ends of a part takes the part apart. -/
theorem exists_slice?_of_isBoundary {text part : List Char} {start middle stop : Nat}
    (part_eq : slice? text ⟨start, stop⟩ = some part) (boundary : IsBoundary text middle)
    (start_le : start ≤ middle) (le_stop : middle ≤ stop) :
    ∃ first second, part = first ++ second ∧ slice? text ⟨start, middle⟩ = some first ∧
      slice? text ⟨middle, stop⟩ = some second := by
  obtain ⟨front, back, text_eq, rfl, rfl⟩ := slice?_eq_some_iff.1 part_eq
  obtain ⟨longer, rest, longer_split, rfl⟩ := isBoundary_iff.1 boundary
  obtain ⟨first, rfl, behind⟩ :=
    exists_eq_append_of_width_le (text_eq.symm.trans longer_split) start_le
  rw [width_append] at le_stop
  obtain ⟨second, rfl, rest_eq⟩ := exists_eq_append_of_width_le behind.symm (by omega)
  refine ⟨first, second, rfl, slice?_eq_some_iff.2 ⟨front, rest, ?_, rfl, ?_⟩,
    slice?_eq_some_iff.2 ⟨front ++ first, back, ?_, rfl, ?_⟩⟩
  · rw [longer_split, List.append_assoc]
  · rw [width_append]
  · rw [longer_split, rest_eq]
  · rw [width_append, width_append]
    omega

theorem exists_slice? {text : List Char} {start stop : Nat} (start_boundary : IsBoundary text start)
    (stop_boundary : IsBoundary text stop) (ordered : start ≤ stop) :
    ∃ part, slice? text ⟨start, stop⟩ = some part := by
  have whole : slice? text ⟨0, width text⟩ = some text :=
    slice?_eq_some_iff.2 ⟨[], [], by simp, rfl, Nat.zero_add _⟩
  obtain ⟨-, tail, -, -, tail_eq⟩ := exists_slice?_of_isBoundary whole start_boundary
    (Nat.zero_le _) start_boundary.le_width
  obtain ⟨part, -, -, part_eq, -⟩ := exists_slice?_of_isBoundary tail_eq stop_boundary ordered
    stop_boundary.le_width
  exact ⟨part, part_eq⟩

end Text
end Shakedown
