import Shakedown.Bundle.Purify
import Shakedown.Proofs.Bundle.Class
import Shakedown.Proofs.Bundle.Enum.Wrapped
import Shakedown.Proofs.Bundle.Factory
import Shakedown.Proofs.Bundle.Import
import Shakedown.Proofs.Bundle.Places

/-!
# Rules that only put in text

The rules for classes, imports and factories put in markers and the first rule for enums puts in lines,
each at places that the rule's pattern tells. No character of the bundle is added, dropped or moved
otherwise.
-/

namespace Shakedown
namespace Marking

open Marker

/-! ## Targets -/

/-- Closures whose function bears the name of the variable. -/
def classTarget : Target where
  pattern := classOpening
  chosen found := found.group 2 == found.group 4
  head found := found.group 1
  Fits := IsClass

/-- Closures that set up inheritance. -/
def subclassTarget : Target where
  pattern := subclassOpening
  chosen _ := true
  head found := found.group 1
  Fits head body := IsDeclaration head ∧ IsSubclassOpening body

/-- Imports of modules that the tokens name. -/
def importTarget (kind : ImportKind) (tokens : List String) : Target where
  pattern := importAssignment tokens kind.ending kind.call
  chosen _ := true
  head found := found.group 1
  Fits head body := IsImportStart kind tokens head ∧ IsCall kind.Opening body

/-- Factories that no marker stands in front of. -/
def factoryTarget (pattern : Pattern) (start : List Char) (endings : List (List Char)) : Target where
  pattern := pattern
  chosen found := !found.start.follows chars
  head _ := []
  Fits head body := head = [] ∧ IsFactory start endings body

section Rules

variable {target : Target} {rule : Pattern.Rule} {before text rest head : List Char} {noted : Groups}

theorem not_suffix_of_blank (ends : head.getLast? = some ' ') (before : List Char) :
    ¬chars <:+ before ++ head := by
  rintro ⟨start, same⟩
  have last := congrArg List.getLast? same
  rw [Form.getLast?_append_chars, List.getLast?_append, ends] at last
  exact absurd last (by simp)

/-- A rule that marks between its groups, given how the groups take a match apart. -/
theorem isMarkedBy_of_groups (head_eq : target.head = fun found => found.group 1)
    (rule_eq : ∀ found, rule found = if target.chosen found then some (markGroup3 found) else none)
    (parts : ∀ {before after found}, target.pattern.matchAt? ⟨before, after⟩ = some found →
      ∃ head body, found.text = head ++ body ∧ found.group 1 = head ∧ found.group 3 = body ∧ body ≠ [] ∧
        head.getLast? = some ' ' ∧ (target.chosen found → target.Fits head body)) :
    target.IsMarkedBy rule where
  parted := by
    intro before after found matched
    obtain ⟨head, body, text_eq, rfl, rfl, filled, -⟩ := parts matched
    refine ⟨found.group 3, by rw [text_eq, head_eq], filled, ?_⟩
    rw [rule_eq, head_eq, markGroup3, List.append_assoc]
  chosen := by
    intro before after found body matched text_eq chosen
    obtain ⟨head, body', text_eq', rfl, -, -, ends, fits⟩ := parts matched
    rw [head_eq] at text_eq ⊢
    obtain rfl : body' = body := List.append_cancel_left (text_eq'.symm.trans text_eq)
    exact ⟨fits chosen, not_suffix_of_blank ends _⟩

end Rules

theorem isMarkedBy_class : classTarget.IsMarkedBy fun found =>
    if found.group 2 == found.group 4 then some (markGroup3 found) else none := by
  apply isMarkedBy_of_groups rfl fun _ => rfl
  intro before after found matched
  obtain ⟨-, taken⟩ := Pattern.takes_of_matchAt? matched
  obtain ⟨name, function, body, text_eq, fits, opening, head_eq, name_eq, body_eq, function_eq⟩ :=
    of_takes_classOpening taken
  have declaration : IsDeclaration ("var ".toList ++ (name ++ " = ".toList)) := ⟨name, fits.1, fits.2, rfl⟩
  refine ⟨_, body, text_eq, by rw [Match.group, head_eq]; rfl, by rw [Match.group, body_eq]; rfl, ?_,
    declaration.getLast?_eq, ?_⟩
  · obtain ⟨_, _, _, _, -, -, -, -, rfl⟩ := opening
    simp
  · intro chosen
    obtain rfl : name = function := by
      simpa [classTarget, Match.group, name_eq, function_eq] using chosen
    exact ⟨name, fits, rfl, opening⟩

theorem isMarkedBy_subclass : subclassTarget.IsMarkedBy fun found => some (markGroup3 found) := by
  apply isMarkedBy_of_groups rfl fun _ => rfl
  intro before after found matched
  obtain ⟨-, taken⟩ := Pattern.takes_of_matchAt? matched
  obtain ⟨-, head, body, text_eq, ⟨declaration, opening⟩, head_eq, body_eq⟩ := of_takes_subclassOpening taken
  refine ⟨head, body, text_eq, by rw [Match.group, head_eq]; rfl, by rw [Match.group, body_eq]; rfl, ?_,
    declaration.getLast?_eq, fun _ => ⟨declaration, opening⟩⟩
  obtain ⟨first, second, -, -, rfl⟩ := opening.exists_lines
  simp

theorem isMarkedBy_import (kind : ImportKind) (tokens : List String) :
    (importTarget kind tokens).IsMarkedBy fun found => some (markGroup3 found) := by
  apply isMarkedBy_of_groups rfl fun _ => rfl
  intro before after found matched
  obtain ⟨-, taken⟩ := Pattern.takes_of_matchAt? matched
  obtain ⟨head, body, text_eq, ⟨start, called⟩, head_eq, body_eq⟩ := of_takes_importAssignment taken
  refine ⟨head, body, text_eq, by rw [Match.group, head_eq]; rfl, by rw [Match.group, body_eq]; rfl, ?_, ?_,
    fun _ => ⟨start, called⟩⟩
  · obtain ⟨opening, arguments, -, -, -, rfl⟩ := called
    simp
  · obtain ⟨token, -, rfl⟩ := start
    simp [List.getLast?_append, List.getLast?_cons]

theorem isMarkedBy_factories {pattern : Pattern} {start : List Char} {endings : List (List Char)}
    (reads : ∀ {before text rest noted}, pattern.Takes before text rest [] noted →
      IsFactory start endings text) :
    (factoryTarget pattern start endings).IsMarkedBy fun found =>
      if found.start.follows chars then none else some (chars ++ found.text, found.stop) where
  parted := by
    intro before after found matched
    obtain ⟨-, taken⟩ := Pattern.takes_of_matchAt? matched
    obtain ⟨reference, ending, ⟨_, _, _, -, -, -, rfl⟩, -, text_eq⟩ := reads taken
    refine ⟨found.text, rfl, by simp [text_eq], ?_⟩
    simp only [factoryTarget]
    split <;> simp_all
  chosen := by
    intro before after found body matched text_eq chosen
    obtain ⟨-, taken⟩ := Pattern.takes_of_matchAt? matched
    obtain rfl : found.text = body := text_eq
    refine ⟨⟨rfl, reads taken⟩, fun stands => ?_⟩
    have stands : chars <:+ found.start.before.reverse := by
      rw [Pattern.start_of_matchAt? matched]
      simpa [factoryTarget] using stands
    simp [factoryTarget, follows_iff.2 stands] at chosen

/-- Without tokens there is nothing to mark. -/
theorem isMarked_markImportAssignments (kind : ImportKind) (tokens : List String) (text : List Char) :
    (importTarget kind tokens).IsMarked text (markImportAssignments kind.ending kind.call tokens text) := by
  have marked := (isMarkedBy_import kind tokens).isMarked text
  rw [markImportAssignments]
  split
  · rename_i none_listed
    have no_places : (importTarget kind tokens).places text = [] := by
      apply List.eq_nil_iff_forall_not_mem.2
      intro place among
      obtain ⟨_, -, _, _, _, _, -, ⟨⟨token, listed, -⟩, -⟩, -⟩ := marked.fits place among
      rw [List.isEmpty_iff.1 none_listed] at listed
      exact List.not_mem_nil listed
    have unchanged := Meaning.text_insertions text []
    rw [Meaning.weave_nil] at unchanged
    refine ⟨?_, marked.ascending, marked.fits⟩
    rw [no_places]
    exact unchanged.symm
  · exact marked

/-- The marker goes behind the sign of the assignment. -/
example : (importTarget .modules ["a"]).places "_a__ = __webpack_require__(1);".toList = [7] := by
  decide +kernel

end Marking

namespace Bundle

open Marking

/-- The rules that put in markers, each with what it marks. -/
def targets (tokens : List String) : List (String × Target) :=
  [ ("class-closures", classTarget)
  , ("extends-closures", subclassTarget)
  , ("webpack-imports", importTarget .modules tokens)
  , ("webpack-default-imports", importTarget .defaults tokens)
  , ("factory-calls", factoryTarget factoryUse [] factoryEndings)
  , ("module-factories", factoryTarget moduleConstruction "new ".toList moduleEndings) ]

/-- What the marking rules make of a text is the text with markers at places that ascend, each of them
in front of what the rule is for and none behind a marker. What the rule for enums filled line by line
makes of it is the text with lines around the enums. -/
theorem puts_in_only (tokens : List String) (text : List Char) :
    (∀ item ∈ targets tokens, ∃ rule, rule? item.1 = some rule ∧
      item.2.IsMarked text (rule.apply tokens text)) ∧
    ∃ rule, rule? "ts22-enums" = some rule ∧
      ∃ enums, Enum.IsWrapped [] text (rule.apply tokens text) enums := by
  refine ⟨?_, _, rfl, Enum.isWrapped_wrapPlain text⟩
  simp only [targets, List.forall_mem_cons]
  refine ⟨⟨_, rfl, ?classes⟩, ⟨_, rfl, ?subclasses⟩, ⟨_, rfl, ?imports⟩, ⟨_, rfl, ?defaults⟩, ⟨_, rfl, ?calls⟩,
    ⟨_, rfl, ?constructions⟩, by simp⟩
  case classes => exact isMarkedBy_class.isMarked text
  case subclasses => exact isMarkedBy_subclass.isMarked text
  case imports => exact isMarked_markImportAssignments .modules tokens text
  case defaults => exact isMarked_markImportAssignments .defaults tokens text
  case calls => exact (isMarkedBy_factories fun takes => (takes_factoryUse.1 takes).1).isMarked text
  case constructions =>
    exact (isMarkedBy_factories fun takes => (takes_moduleConstruction.1 takes).1).isMarked text

end Bundle
end Shakedown
