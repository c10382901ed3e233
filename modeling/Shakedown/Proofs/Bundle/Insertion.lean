import Mathlib.Data.List.Infix
import Shakedown.Marker

/-!
# Texts with inserted markers

Pure markers are put in front of some places of a text. What stands in the text with the markers is
read back in the text without them: a marker is taken up as a whole or not at all, because none of
its ends fits to what the patterns of the bundle spell out.
-/

namespace Shakedown
namespace Marker

/-- The characters of the marker. -/
abbrev chars : List Char := pure.toList

/-- No marker begins in front of the text and ends inside it. -/
def Outside (text : List Char) : Prop :=
  ∀ first last more, chars = first ++ last → first ≠ [] → last ≠ [] → text ≠ last ++ more

/-- Text whose first slash stands behind some character that markers do not hold. -/
theorem outside_of_notMem (run : List Char) (char : Char) {more : List Char} (run_free : '/' ∉ run)
    (other : char ∉ chars) : Outside (run ++ char :: more) := by
  rintro first last others chars_eq - filled same
  have slash : '/' ∈ last := by
    have ends := congrArg List.getLast? chars_eq
    rw [List.getLast?_append_of_ne_nil _ filled] at ends
    exact List.mem_of_getLast? (ends.symm.trans rfl)
  obtain ⟨part, rfl, more_eq⟩ | ⟨part, rfl, -⟩ := List.append_eq_append_iff.1 same
  · cases part with
    | nil => exact run_free (by simpa using slash)
    | cons char part =>
        obtain ⟨rfl, -⟩ := List.cons_eq_cons.1 more_eq
        exact other (chars_eq ▸ by simp)
  · exact run_free (List.mem_append_left _ slash)

/-- A place, given by what stands behind it, that a marker may be put in front of. -/
structure Markable (behind : List Char) : Prop where
  /-- The place is not inside a marker. -/
  outside : Outside behind
  /-- What follows is neither a blank nor the end of a list of arguments. -/
  starts : ∃ char more, behind = char :: more ∧ char ≠ ' ' ∧ char ≠ ')'

/-- The second text is the first one, which `behind` follows, with markers in front of some places. -/
inductive Inserted (behind : List Char) : List Char → List Char → Prop
  /-- Nothing is left. -/
  | nil : Inserted behind [] []
  /-- A character stays. -/
  | keep {text result : List Char} (char : Char) :
      Inserted behind text result → Inserted behind (char :: text) (char :: result)
  /-- A marker is put in. -/
  | mark {text result : List Char} :
      Markable (text ++ behind) → Inserted behind text result → Inserted behind text (chars ++ result)

namespace Inserted

variable {behind text result : List Char}

theorem refl (behind text : List Char) : Inserted behind text text := by
  induction text with
  | nil => exact .nil
  | cons char text ih => exact .keep char ih

theorem append {more moreResult : List Char} (front : Inserted (more ++ behind) text result)
    (back : Inserted behind more moreResult) :
    Inserted behind (text ++ more) (result ++ moreResult) := by
  induction front with
  | nil => exact back
  | keep char _ ih => exact .keep char ih
  | mark markable _ ih =>
      rw [List.append_assoc]
      exact .mark (by rwa [List.append_assoc]) ih

/-- Inserting markers leaves out no character. -/
theorem sublist (inserted : Inserted behind text result) : text.Sublist result := by
  induction inserted with
  | nil => exact .slnil
  | keep char _ ih => exact .cons_cons char ih
  | mark _ _ ih => exact ih.trans (List.sublist_append_right _ _)

/-! ## Taking a text with markers apart -/

/-- A text with markers, taken apart outside the markers, is put in into two parts. -/
theorem split {front back : List Char} (inserted : Inserted behind text (front ++ back))
    (outside : Outside back) :
    ∃ first last, text = first ++ last ∧ Inserted (last ++ behind) first front ∧
      Inserted behind last back := by
  generalize result_eq : front ++ back = result at inserted
  induction inserted generalizing front with
  | nil =>
      obtain ⟨rfl, rfl⟩ := List.append_eq_nil_iff.1 result_eq
      exact ⟨[], [], rfl, .nil, .nil⟩
  | @keep text result char inserted ih =>
      cases front with
      | nil =>
          obtain rfl : back = char :: result := result_eq
          exact ⟨[], char :: text, rfl, .nil, .keep char inserted⟩
      | cons other front =>
          obtain ⟨rfl, front_eq⟩ := List.cons_eq_cons.1 result_eq
          obtain ⟨first, last, rfl, first_inserted, last_inserted⟩ := ih front_eq
          exact ⟨other :: first, last, rfl, .keep other first_inserted, last_inserted⟩
  | @mark text result markable inserted ih =>
      obtain ⟨others, chars_eq, rfl⟩ | ⟨others, rfl, rfl⟩ := List.append_eq_append_iff.1 result_eq
      · by_cases none_before : front = []
        · obtain rfl : chars = others := by simpa [none_before] using chars_eq
          subst none_before
          exact ⟨[], text, rfl, .nil, .mark markable inserted⟩
        · by_cases none_behind : others = []
          · obtain rfl : chars = front := by simpa [none_behind] using chars_eq
            have whole : [] ++ (others ++ result) = result := by simp [none_behind]
            obtain ⟨first, last, rfl, first_inserted, last_inserted⟩ := ih whole
            rw [List.append_assoc] at markable
            exact ⟨first, last, rfl, by simpa using .mark markable first_inserted,
              by simpa [none_behind] using last_inserted⟩
          · exact absurd rfl (outside front others result chars_eq none_before none_behind)
      · obtain ⟨first, last, rfl, first_inserted, last_inserted⟩ := ih rfl
        rw [List.append_assoc] at markable
        exact ⟨first, last, rfl, .mark markable first_inserted, last_inserted⟩

/-- The end of what stands in front of a place is kept, unless a marker is put there. -/
theorem suffix_or_getLast?_eq (inserted : Inserted behind text result) :
    chars <:+ result ∨ text.getLast? = result.getLast? := by
  induction inserted with
  | nil => exact .inr rfl
  | @keep text result char inserted ih =>
      obtain stands | same := ih
      · exact .inl (stands.trans (List.suffix_cons _ _))
      · rw [List.getLast?_cons, List.getLast?_cons, same]
        exact .inr rfl
  | @mark text result markable inserted ih =>
      obtain stands | same := ih
      · exact .inl (stands.trans (List.suffix_append _ _))
      · cases result with
        | nil => exact .inl (by simp)
        | cons char result =>
            rw [same, List.getLast?_append_of_ne_nil _ (List.cons_ne_nil char result)]
            exact .inr rfl

/-- An end of a marker is kept, unless a marker is put behind it. -/
theorem suffix_or_eq {first : List Char} (inserted : Inserted behind text result)
    (end_of : chars = first ++ text) (begun : first ≠ []) : chars <:+ result ∨ result = text := by
  induction inserted generalizing first with
  | nil => exact .inr rfl
  | @keep text result char inserted ih =>
      have rest_of : chars = (first ++ [char]) ++ text := by simpa using end_of
      obtain stands | rfl := ih rest_of (by simp)
      · exact .inl (stands.trans (List.suffix_cons _ _))
      · exact .inr rfl
  | @mark text result markable inserted ih =>
      by_cases done : text = []
      · obtain stands | rfl := ih end_of begun
        · exact .inl (stands.trans (List.suffix_append _ _))
        · exact .inl (by simp [done])
      · exact absurd rfl (markable.outside first text behind end_of begun done)

/-- A marker that stood in front of a place still does, or a new one stands there. -/
theorem suffix_of_suffix (inserted : Inserted behind text result) (stood : chars <:+ text) :
    chars <:+ result := by
  obtain ⟨front, rfl⟩ := stood
  generalize text_eq : front ++ chars = text at inserted
  induction inserted generalizing front with
  | nil => exact absurd (List.append_eq_nil_iff.1 text_eq).2 (List.cons_ne_nil _ _)
  | @keep text result char inserted ih =>
      cases front with
      | nil =>
          have whole : chars = [char] ++ text := text_eq
          obtain stands | rfl := suffix_or_eq inserted whole (List.cons_ne_nil _ _)
          · exact stands.trans (List.suffix_cons _ _)
          · rw [whole]
            exact List.suffix_refl _
      | cons other front =>
          obtain ⟨rfl, front_eq⟩ := List.cons_eq_cons.1 text_eq
          exact (ih front front_eq).trans (List.suffix_cons _ _)
  | mark _ _ ih => exact (ih front text_eq).trans (List.suffix_append _ _)

end Inserted

/-! ## Texts apart from markers -/

/-- No end of the text fits to the start of a marker. -/
def IsApart (part : List Char) : Prop :=
  ∀ rest, rest <:+ part → rest ≠ [] → ¬ rest <+: chars ∧ ¬ chars <+: rest

instance (part : List Char) : Decidable (IsApart part) :=
  decidable_of_iff (∀ rest ∈ part.tails, rest ≠ [] → ¬ rest <+: chars ∧ ¬ chars <+: rest)
    (forall_congr' fun rest => by rw [List.mem_tails])

/-- Text without slashes is apart from markers. -/
theorem isApart_of_notMem {part : List Char} (free : '/' ∉ part) : IsApart part := by
  intro rest ending filled
  obtain ⟨char, rest, rfl⟩ := List.exists_cons_of_ne_nil filled
  have other : char ≠ '/' := by
    rintro rfl
    exact free (ending.subset List.mem_cons_self)
  constructor
  · intro front
    exact other (List.cons_prefix_cons.1 front).1
  · intro front
    exact other (List.cons_prefix_cons.1 front).1.symm

namespace Inserted

variable {behind text : List Char}

/-- Where a text apart from markers stands, it stood before. -/
theorem exists_append (part : List Char) {more : List Char} (inserted : Inserted behind text (part ++ more))
    (apart : IsApart part) : ∃ rest, text = part ++ rest ∧ Inserted behind rest more := by
  induction part generalizing text with
  | nil => exact ⟨text, rfl, inserted⟩
  | cons char part ih =>
      generalize result_eq : char :: part ++ more = result at inserted
      cases inserted with
      | nil => contradiction
      | @keep text result _ inserted =>
          obtain ⟨rfl, rfl⟩ := List.cons_eq_cons.1 result_eq
          obtain ⟨rest, rfl, rest_inserted⟩ := ih inserted fun rest ending =>
            apart rest (ending.trans (List.suffix_cons _ _))
          exact ⟨rest, rfl, rest_inserted⟩
      | @mark text result markable inserted =>
          obtain ⟨not_front, not_begun⟩ := apart _ (List.suffix_refl _) (List.cons_ne_nil char part)
          have begun : chars <+: char :: part ++ more := ⟨result, result_eq.symm⟩
          obtain front | front :=
            List.prefix_or_prefix_of_prefix begun (List.prefix_append (char :: part) more)
          · exact absurd front not_begun
          · exact absurd front not_front

/-- A run of characters in front of a delimiter, with the markers taken out of it. -/
theorem exists_append_cons (run : List Char) (delimiter : Char) {more : List Char}
    (inserted : Inserted behind text (run ++ delimiter :: more))
    (delimits : delimiter = ' ' ∨ delimiter = ')') :
    ∃ part rest, text = part ++ delimiter :: rest ∧ part.Sublist run ∧ (run ≠ [] → part ≠ []) ∧
      Inserted behind rest more := by
  have free : delimiter ∉ chars := by
    obtain rfl | rfl := delimits <;> decide
  have outside : Outside (delimiter :: more) := outside_of_notMem [] delimiter List.not_mem_nil free
  obtain ⟨part, last, rfl, part_inserted, last_inserted⟩ := inserted.split outside
  have apart : IsApart [delimiter] :=
    isApart_of_notMem (by obtain rfl | rfl := delimits <;> decide)
  obtain ⟨rest, rfl, rest_inserted⟩ := exists_append [delimiter] last_inserted apart
  refine ⟨part, rest, rfl, part_inserted.sublist, ?_, rest_inserted⟩
  rintro filled rfl
  cases part_inserted with
  | nil => contradiction
  | mark markable =>
      obtain ⟨char, others, eq, not_blank, not_closing⟩ := markable.starts
      obtain ⟨rfl, -⟩ := List.cons_eq_cons.1 eq
      obtain rfl | rfl := delimits <;> contradiction

end Inserted
end Marker
end Shakedown
