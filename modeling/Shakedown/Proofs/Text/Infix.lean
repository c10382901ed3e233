import Shakedown.Text.Basic

/-!
# Where a word stands

A word that shares no character with the text around a part stands in that part.
-/

namespace Shakedown
namespace Text

variable {word front text back : List Char}

theorem occurs_iff : occurs word text ↔ word <:+: text := by
  induction text with
  | nil => simp [occurs]
  | cons char rest ih => simp [occurs, ih, List.infix_cons_iff]

/-- What a range reads as stands in the text. -/
theorem infix_of_slice? {span : Span} (part_eq : slice? text span = some word) :
    word <:+: text := by
  obtain ⟨front, back, rfl, -, -⟩ := eq_append_of_slice? part_eq
  exact ⟨front, back, by simp⟩

/-- A word does not begin in a text that holds none of its characters. -/
theorem infix_of_infix_append (filled : word ≠ []) (apart : ∀ char ∈ word, char ∉ front)
    (held : word <:+: front ++ text) : word <:+: text := by
  induction front with
  | nil => exact held
  | cons char front ih =>
      rw [List.cons_append, List.infix_cons_iff] at held
      obtain begins | held := held
      · obtain ⟨first, others, rfl⟩ := List.exists_cons_of_ne_nil filled
        obtain ⟨rfl, -⟩ := List.cons_prefix_cons.1 begins
        exact absurd List.mem_cons_self (apart first List.mem_cons_self)
      · exact ih (fun other member held => apart other member (List.mem_cons_of_mem _ held)) held

/-- A word does not end in a text that holds none of its characters. -/
theorem infix_of_append_infix (filled : word ≠ []) (apart : ∀ char ∈ word, char ∉ back)
    (held : word <:+: text ++ back) : word <:+: text := by
  rw [← List.reverse_infix] at held ⊢
  rw [List.reverse_append] at held
  exact infix_of_infix_append (by simpa using filled) (by simpa using apart) held

end Text
end Shakedown
