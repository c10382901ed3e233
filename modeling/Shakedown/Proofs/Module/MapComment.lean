import Shakedown.Module.MapComment
import Shakedown.Proofs.Pattern.Search

/-!
# Lines that name a map

A line is found exactly where a line begins with the mark, and it is found with its line break.
-/

namespace Shakedown
namespace MapComment

open Pattern

/-- Whether a character belongs to a line and not to its line break. -/
def isInLine (char : Char) : Bool :=
  char != '\r' && char != '\n'

/-- The length of the line break that a text begins with. -/
def breakLength : List Char → Nat
  | '\r' :: '\n' :: _ => 2
  | '\n' :: _ => 1
  | _ => 0

/-- The length of the line that a text begins with, behind the mark. -/
def restLength (text : List Char) : Nat :=
  let line := text.takeWhile isInLine
  line.length + breakLength (text.drop line.length)

/-- A line that names a map begins at the place. -/
def Begins (cursor : Cursor) : Prop :=
  cursor.opensLine ∧ mark.toList <+: cursor.after

instance (cursor : Cursor) : Decidable (Begins cursor) :=
  inferInstanceAs (Decidable (_ ∧ _))

variable {cursor : Cursor} {found : Match}

theorem head?_lineBreak (cursor : Cursor) (groups : Groups) :
    ((Pattern.optional lineBreak).ways cursor groups).head? =
      some (cursor.skip (breakLength cursor.after), groups) := by
  obtain ⟨before, after⟩ := cursor
  cases after with
  | nil => rfl
  | cons char rest =>
      by_cases feed : char = '\n'
      · subst feed
        rfl
      by_cases carriage : char = '\r'
      · subst carriage
        cases rest with
        | nil => rfl
        | cons next rest =>
            by_cases next_feed : next = '\n'
            · subst next_feed
              rfl
            · simp [Pattern.optional, lineBreak, ways, next_feed, breakLength]
      · simp [Pattern.optional, lineBreak, ways, feed, carriage, breakLength]

/-- The first way to match the rest of a line. -/
theorem findSome?_rest (cursor : Cursor) (groups : Groups) :
    ((many (one isInLine)).ways cursor groups).findSome? (fun way =>
      ((all [Pattern.optional lineBreak]).ways way.1 way.2).head?) =
      some (cursor.skip (restLength cursor.after), groups) := by
  obtain ⟨others, line_eq⟩ := exists_ways_many_one isInLine cursor groups
  rw [line_eq, List.findSome?_cons, head?_ways_all_singleton, head?_lineBreak, Cursor.skip_skip,
    Cursor.after_skip]
  rfl

/-- A line that names a map is found where one begins, with everything up to the next line. -/
theorem matchAt?_pattern (cursor : Cursor) :
    pattern.matchAt? cursor =
      if cursor.opensLine && mark.toList.isPrefixOf cursor.after then
        some ⟨cursor, cursor.skip (mark.toList.length +
          restLength (cursor.after.drop mark.toList.length)), []⟩
      else none := by
  rw [matchAt?_eq, pattern, head?_ways_all_cons, ways_lineStart]
  cases opens : cursor.opensLine with
  | false => rfl
  | true =>
      rw [if_pos rfl, List.findSome?_singleton, head?_ways_all_cons, ways_literal]
      cases begins : mark.toList.isPrefixOf cursor.after with
      | false => rfl
      | true =>
          rw [if_pos rfl, List.findSome?_singleton, head?_ways_all_cons]
          have rest_eq := findSome?_rest (cursor.skip mark.toList.length) []
          rw [Cursor.skip_skip, Cursor.after_skip] at rest_eq
          exact congrArg _ rest_eq

theorem begins_of_matchAt? (matched : pattern.matchAt? cursor = some found) : Begins cursor := by
  rw [matchAt?_pattern] at matched
  split at matched
  · rename_i begins
    rw [Bool.and_eq_true, List.isPrefixOf_iff_prefix] at begins
    exact begins
  · contradiction

theorem advances_pattern : pattern.Advances := by
  intro cursor found matched
  have begins := (begins_of_matchAt? matched).2.length_le
  rw [matchAt?_pattern] at matched
  split at matched
  · obtain rfl := Option.some.inj matched
    have marked : 0 < mark.toList.length := by decide
    rw [Cursor.after_skip, List.length_drop]
    omega
  · contradiction

/-- What stands before the first line that names a map stays. -/
theorem take_prefix_strip {text : String} {count : Nat}
    (unmarked : ∀ place < count, ¬Begins ((Cursor.ofText text.toList).skip place)) :
    text.toList.take count <+: (strip text).toList := by
  have substitutes := substitutes_erase advances_pattern text.toList
  rw [strip, String.toList_ofList]
  generalize pattern.erase text.toList = result at substitutes ⊢
  rw [Cursor.ofText, ← List.take_append_drop count text.toList] at substitutes
  obtain ⟨later, result_eq⟩ := substitutes.exists_append fun front back kept_eq filled => by
    have back_length := List.length_pos_iff.2 filled
    have kept_length := congrArg List.length kept_eq
    rw [List.length_take, List.length_append] at kept_length
    have unmarked_here := unmarked front.length (by omega)
    have text_eq : text.toList = front ++ (back ++ text.toList.drop count) := by
      rw [← List.append_assoc, ← kept_eq, List.take_append_drop]
    rw [text_eq, Cursor.skip_ofText] at unmarked_here
    rw [List.append_nil]
    cases matched : pattern.matchAt? ⟨front.reverse, back ++ text.toList.drop count⟩ with
    | none => rfl
    | some found => exact absurd (begins_of_matchAt? matched) unmarked_here
  exact ⟨later, result_eq.symm⟩

end MapComment
end Shakedown
