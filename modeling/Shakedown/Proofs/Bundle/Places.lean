import Shakedown.Proofs.Bundle.Settling
import Shakedown.Proofs.Edit.Insertions

/-!
# Where the marking rules put in markers

A marking rule is told by what it searches for, which of the matches it marks and where in a match the
marker goes. What it makes of a text is the text with markers put in at places that ascend, and nothing
else.
-/

namespace Shakedown
namespace Marking

open Marker

/-- What a marking rule marks. -/
structure Target where
  /-- What is searched for. -/
  pattern : Pattern
  /-- Whether a match is marked. -/
  chosen : Match → Bool
  /-- The text of a match up to the marker. -/
  head : Match → List Char
  /-- What stands in a match in front of the marker and behind it. -/
  Fits : (head body : List Char) → Prop

namespace Target

/-- Where the marker of a match goes, in bytes. -/
def place (target : Target) (found : Match) : Nat :=
  found.start.offset + Text.width (target.head found)

/-- Where the markers go. -/
def places (target : Target) (text : List Char) : List Nat :=
  ((target.pattern.findAll text).filter target.chosen).map target.place

/-- What is put in where the matches are. -/
def marks (target : Target) (matches_ : List Match) : List (Nat × String) :=
  (matches_.filter target.chosen).map fun found => (target.place found, Marker.pure)

/-- The result is the text with markers put in at the places of the target. -/
structure IsMarked (target : Target) (text result : List Char) : Prop where
  /-- Markers are put in, and nothing else changes. -/
  result_eq : result = Meaning.text text ((target.places text).map (.insert · Marker.pure))
  /-- No two markers go to one place. -/
  ascending : (target.places text).Pairwise (· < ·)
  /-- Each place takes a match apart into what fits, and no marker stands in front of it. -/
  fits : ∀ place ∈ target.places text, ∃ found ∈ target.pattern.findAll text,
    ∃ before head body after, found.text = head ++ body ∧ target.Fits head body ∧
      text = before ++ (head ++ (body ++ after)) ∧ place = Text.width (before ++ head) ∧
      ¬chars <:+ before ++ head

/-- What the rule makes of a match, according to the target. -/
structure IsMarkedBy (target : Target) (rule : Pattern.Rule) : Prop where
  /-- A match goes on behind its head. -/
  parted : ∀ {before after found}, target.pattern.matchAt? ⟨before, after⟩ = some found →
    ∃ body, found.text = target.head found ++ body ∧ body ≠ [] ∧
      rule found = if target.chosen found then some (target.head found ++ (chars ++ body), found.stop)
        else none
  /-- What is chosen fits, and no marker stands in front of it. -/
  chosen : ∀ {before after found body}, target.pattern.matchAt? ⟨before, after⟩ = some found →
    found.text = target.head found ++ body → target.chosen found →
    target.Fits (target.head found) body ∧ ¬chars <:+ before.reverse ++ target.head found

namespace IsMarkedBy

variable {target : Target} {rule : Pattern.Rule} {cursor : Cursor} {result : List Char}
  {matches_ : List Match} (marked : target.IsMarkedBy rule)
include marked

theorem advances : target.pattern.Advances := by
  intro cursor found matched
  obtain ⟨body, text_eq, filled, -⟩ := marked.parted matched
  rw [(Pattern.after_eq_of_matchAt? matched).1, text_eq, List.length_append, List.length_append]
  have := List.length_pos_iff.2 filled
  omega

theorem goesAhead : rule.GoesAhead target.pattern := by
  intro cursor found new rest matched answered
  obtain ⟨body, -, -, rule_eq⟩ := marked.parted matched
  rw [rule_eq] at answered
  split at answered
  · obtain ⟨-, rfl⟩ := Prod.mk.inj (Option.some.inj answered)
    exact marked.advances cursor found matched
  · contradiction

omit marked in
theorem marks_behind (scans : Pattern.Scans target.pattern cursor matches_) :
    ∀ item ∈ target.marks matches_, cursor.offset ≤ item.1 := by
  intro item among
  obtain ⟨found, listed, rfl⟩ := List.mem_map.1 among
  have := scans.offset_le found (List.mem_filter.1 listed).1
  exact Nat.le_trans this (Nat.le_add_right _ _)

/-- The search and the substitution go the same way. -/
theorem eq_weave_of_substitutes (substitutes : Pattern.Substitutes target.pattern rule cursor result)
    (scans : Pattern.Scans target.pattern cursor matches_) :
    result = Meaning.weave (target.marks matches_) cursor.offset cursor.after := by
  induction substitutes generalizing matches_ with
  | done unmatched =>
      cases scans with
      | done => simp [marks]
      | hit matched => exact absurd (unmatched.symm.trans matched) (by simp)
  | @miss before after char result unmatched _ ih =>
      cases scans with
      | hit matched => exact absurd (unmatched.symm.trans matched) (by simp)
      | miss _ scans =>
          have step : (⟨before, char :: after⟩ : Cursor).offset + Text.width [char] =
              (⟨char :: before, after⟩ : Cursor).offset := by
            simp [Cursor.offset, Text.width_cons, Nat.add_comm]
          have behind := marks_behind scans
          rw [← step] at behind
          rw [ih scans, ← step]
          exact (Meaning.weave_append behind).symm
  | @kept cursor found result matched silent _ ih =>
      obtain ⟨others, rfl, others_scan⟩ := scans.exists_of_matchAt? matched
      obtain ⟨body, -, -, rule_eq⟩ := marked.parted matched
      have passed_over : ¬target.chosen found := by
        intro chosen
        rw [if_pos chosen, silent] at rule_eq
        contradiction
      have step : cursor.offset + Text.width found.text = found.stop.offset :=
        (congrArg Span.stop (Pattern.span_of_matchAt? matched)).symm
      have behind := marks_behind others_scan
      rw [← step] at behind
      rw [(Pattern.after_eq_of_matchAt? matched).1, marks, List.filter_cons_of_neg passed_over, ih others_scan,
        ← step]
      exact (Meaning.weave_append behind).symm
  | @replaced cursor rest found new result matched answered _ ih =>
      obtain ⟨others, rfl, others_scan⟩ := scans.exists_of_matchAt? matched
      obtain ⟨body, text_eq, -, rule_eq⟩ := marked.parted matched
      rw [answered] at rule_eq
      split at rule_eq
      · rename_i chosen
        obtain ⟨rfl, rfl⟩ := Prod.mk.inj (Option.some.inj rule_eq)
        have place_eq : cursor.offset + Text.width (target.head found) = target.place found := by
          rw [place, Pattern.start_of_matchAt? matched]
        have step : target.place found + Text.width body = found.stop.offset := by
          rw [← place_eq, Nat.add_assoc, ← Text.width_append, ← text_eq]
          exact (congrArg Span.stop (Pattern.span_of_matchAt? matched)).symm
        have others_behind := marks_behind others_scan
        have all_behind : ∀ item ∈ (target.place found, Marker.pure) :: target.marks others,
            cursor.offset + Text.width (target.head found) ≤ item.1 := by
          rw [place_eq]
          refine List.forall_mem_cons.2 ⟨Nat.le_refl _, fun item among => ?_⟩
          have := others_behind item among
          omega
        have marks_eq : target.marks (found :: others) =
            (target.place found, Marker.pure) :: target.marks others := by
          rw [marks, List.filter_cons_of_pos chosen, List.map_cons, marks]
        rw [(Pattern.after_eq_of_matchAt? matched).1, text_eq, List.append_assoc _ body, marks_eq,
          Meaning.weave_append all_behind, place_eq, Meaning.weave_cons, Meaning.weave_append (by rwa [step]),
          step, ← ih others_scan]
        simp
      · contradiction

/-- The rule puts in markers at the places of the target, and changes nothing else. -/
theorem isMarked (text : List Char) : target.IsMarked text (target.pattern.substitute rule text) where
  result_eq := by
    have substitutes := Pattern.substitutes_substitute marked.advances marked.goesAhead text
    have scans := Pattern.scans_findAll marked.advances text
    have put_in := Meaning.text_insertions text (target.marks (target.pattern.findAll text))
    rw [Meaning.insertions, marks, List.map_map] at put_in
    rw [marked.eq_weave_of_substitutes substitutes scans, places, List.map_map]
    exact put_in.symm
  ascending := by
    have scans := Pattern.scans_findAll marked.advances text
    rw [places, List.pairwise_map]
    refine (scans.ordered.sublist List.filter_sublist).imp_of_mem ?_
    intro found other listed _ ordered
    obtain ⟨matched, -⟩ := scans.matched found (List.mem_filter.1 listed).1
    obtain ⟨body, text_eq, filled, -⟩ := marked.parted matched
    have stop_eq : found.stop.offset = found.start.offset + Text.width found.text :=
      congrArg Span.stop (Pattern.span_of_matchAt? matched)
    have wide : 0 < Text.width body :=
      Nat.pos_of_ne_zero fun empty => filled (Text.eq_nil_of_width_eq_zero empty)
    rw [text_eq, Text.width_append] at stop_eq
    have ordered : found.stop.offset ≤ other.start.offset := ordered
    simp only [place]
    omega
  fits := by
    intro place among
    have scans := Pattern.scans_findAll marked.advances text
    obtain ⟨found, listed, rfl⟩ := List.mem_map.1 among
    obtain ⟨listed, chosen⟩ := List.mem_filter.1 listed
    obtain ⟨matched, same⟩ := scans.matched found listed
    obtain ⟨body, text_eq, -, -⟩ := marked.parted matched
    obtain ⟨fits, bare⟩ := marked.chosen matched text_eq chosen
    have after_eq := (Pattern.after_eq_of_matchAt? matched).1
    refine ⟨found, listed, found.start.before.reverse, target.head found, body, found.stop.after, text_eq, fits,
      ?_, ?_, bare⟩
    · rw [after_eq, text_eq, List.append_assoc] at same
      exact same.symm
    · rw [Text.width_append, Text.width_reverse]
      rfl

end IsMarkedBy
end Target
end Marking
end Shakedown
