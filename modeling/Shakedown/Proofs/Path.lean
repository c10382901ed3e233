import Mathlib.Data.List.Basic
import Shakedown.Path

/-!
# Components of paths that are put together

The components of a path are those of its parts in front of and behind a slash. A name is its own
only component, and what stands behind the last slash of a path may be changed alone.
-/

namespace Shakedown
namespace Path

/-- Whether a text is the name of a file or directory. -/
structure IsName (name : String) : Prop where
  /-- A name has no slash. -/
  plain : '/' ∉ name.toList
  /-- Nothing is no name. -/
  filled : name ≠ ""
  /-- A single dot names the place itself. -/
  noDot : name ≠ "."

instance (name : String) : Decidable (IsName name) :=
  decidable_of_iff ('/' ∉ name.toList ∧ name ≠ "" ∧ name ≠ ".")
    ⟨fun ⟨plain, filled, noDot⟩ => ⟨plain, filled, noDot⟩,
      fun ⟨plain, filled, noDot⟩ => ⟨plain, filled, noDot⟩⟩

theorem parts_eq_splitOn (text : List Char) : parts text = text.splitOn '/' := by
  induction text with
  | nil => rfl
  | cons char rest ih =>
      obtain ⟨part, others, rest_eq⟩ := List.exists_cons_of_ne_nil (List.splitOn_ne_nil '/' rest)
      rw [parts, List.splitOn_cons_eq_if_modifyHead, ih, rest_eq]
      by_cases slash : char = '/' <;> simp [slash]

/-- The components on both sides of a slash. -/
theorem components_of_slash {path : String} {front back : List Char}
    (path_eq : path.toList = front ++ '/' :: back) :
    components path = components (String.ofList front) ++ components (String.ofList back) := by
  simp only [components, path_eq, parts_eq_splitOn, String.toList_ofList,
    List.splitOn_append_cons_self, List.filter_append, List.map_append]

/-- The names among the parts of a path. -/
theorem filter_names {names : List String} (named : ∀ name ∈ names, IsName name) :
    ((names.map String.toList).filter fun part => part != [] && part != ['.']).map String.ofList =
      names := by
  rw [List.filter_eq_self.2, List.map_map]
  · exact (List.map_congr_left fun name _ => String.ofList_toList).trans names.map_id
  · intro part listed
    obtain ⟨name, member, rfl⟩ := List.mem_map.1 listed
    obtain ⟨-, filled, noDot⟩ := named name member
    have isFilled : name.toList ≠ "".toList := fun same => filled (String.toList_inj.1 same)
    have isNoDot : name.toList ≠ ".".toList := fun same => noDot (String.toList_inj.1 same)
    rw [Bool.and_eq_true, bne_iff_ne, bne_iff_ne]
    exact ⟨isFilled, isNoDot⟩

/-- Names with slashes between them are the components. -/
theorem components_intercalate {names : List String} (named : ∀ name ∈ names, IsName name) :
    components ("/".intercalate names) = names := by
  cases names with
  | nil => rfl
  | cons first rest =>
      have free : ∀ part ∈ (first :: rest).map String.toList, '/' ∉ part := by
        intro part listed
        obtain ⟨name, member, rfl⟩ := List.mem_map.1 listed
        exact (named name member).plain
      have split_eq : parts ("/".intercalate (first :: rest)).toList =
          (first :: rest).map String.toList := by
        rw [parts_eq_splitOn, String.toList_intercalate]
        exact List.splitOn_intercalate '/' free (List.cons_ne_nil _ _)
      rw [components, split_eq, filter_names named]

/-- A name is its own only component. -/
theorem components_name {name : String} (named : IsName name) : components name = [name] :=
  components_intercalate (List.forall_mem_singleton.2 named)

/-- A text is divided behind its last slash, and what stands there adds its own components. -/
theorem exists_lastPart (text : List Char) :
    ∃ front last above, text = front ++ last ∧ '/' ∉ last ∧ ∀ other : List Char,
      components (String.ofList (front ++ other)) = above ++ components (String.ofList other) := by
  by_cases slashed : '/' ∈ text
  · obtain ⟨last, front, reversed, plain⟩ :=
      List.eq_append_cons_of_mem (List.mem_reverse.2 slashed)
    have text_eq : text = front.reverse ++ '/' :: last.reverse := by
      simpa using congrArg List.reverse reversed
    refine ⟨front.reverse ++ ['/'], last.reverse, components (String.ofList front.reverse),
      by simp [text_eq], by simpa using plain, fun other => ?_⟩
    rw [List.append_assoc, List.singleton_append]
    exact components_of_slash String.toList_ofList
  · exact ⟨[], text, [], rfl, slashed, fun other => rfl⟩

end Path
end Shakedown
