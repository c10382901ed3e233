/-!
# Where a character stands first

Texts that are taken apart at the first place of a character are taken apart in one way only. A
character may be a byte as well.
-/

namespace Shakedown
namespace Text

variable {α : Type} {front front' back back' : List α} {char : α}

/-- A place of a character is the first one or stands behind it. -/
theorem eq_or_exists_of_append_cons (free : char ∉ front)
    (same : front ++ char :: back = front' ++ char :: back') :
    (front = front' ∧ back = back') ∨
      ∃ between, front' = front ++ char :: between ∧ back = between ++ char :: back' := by
  obtain ⟨part, front_eq, back_eq⟩ | ⟨part, front_eq, back_eq⟩ := List.append_eq_append_iff.1 same
  · cases part with
    | nil =>
        obtain ⟨-, rfl⟩ := List.cons_eq_cons.1 back_eq
        exact .inl ⟨by simpa using front_eq.symm, rfl⟩
    | cons first part =>
        obtain ⟨rfl, rfl⟩ := List.cons_eq_cons.1 back_eq
        exact .inr ⟨part, front_eq, rfl⟩
  · cases part with
    | nil =>
        obtain ⟨-, rfl⟩ := List.cons_eq_cons.1 back_eq
        exact .inl ⟨by simpa using front_eq, rfl⟩
    | cons first part =>
        obtain ⟨rfl, rfl⟩ := List.cons_eq_cons.1 back_eq
        exact absurd (front_eq ▸ by simp) free

/-- The first place of a character takes a text apart in one way. -/
theorem append_cons_inj (free : char ∉ front) (free' : char ∉ front')
    (same : front ++ char :: back = front' ++ char :: back') : front = front' ∧ back = back' := by
  obtain both | ⟨between, rfl, -⟩ := eq_or_exists_of_append_cons free same
  · exact both
  · exact absurd (by simp) free'

end Text
end Shakedown
