import Shakedown.Proofs.Bundle.Enum.Closure
import Shakedown.Proofs.Bundle.Enum.Plain
import Shakedown.Proofs.Bundle.Purify

/-!
# Rules that run twice

All rules but those for licenses and classes find nothing in what they made of a text. The rules for enums
make texts that they do not look for, the others leave alone what is marked.
-/

namespace Shakedown

/-- A rule that settles its form finds nothing in what it made. -/
theorem Marking.Settling.apply_apply (rule : Settling) (text : List Char) :
    rule.apply (rule.apply text) = rule.apply text :=
  rule.apply_eq (rule.settled text)

namespace Bundle

open Marking

variable {tokens : List String}

/-- The names of the rules that change nothing when they run a second time. -/
def repeatable : List String :=
  [ "ts22-enums", "ts23-enums", "extends-closures", "webpack-imports", "webpack-default-imports"
  , "factory-calls", "module-factories" ]

/-- A rule that changes nothing of the text it made changes nothing of the content it made. -/
theorem applyRule_of_apply {rule : BundleRule}
    (again : ∀ text, rule.apply tokens (rule.apply tokens text) = rule.apply tokens text) (content : String) :
    applyRule rule tokens (applyRule rule tokens content) = applyRule rule tokens content := by
  rw [applyRule, applyRule, String.toList_ofList, again]

/-- A rule that is applied to what it made changes nothing. -/
theorem applyRule_applyRule (fit : TokensFit tokens) (content : String) : ∀ name ∈ repeatable,
    ∃ rule, rule? name = some rule ∧
      applyRule rule tokens (applyRule rule tokens content) = applyRule rule tokens content := by
  simp only [repeatable, List.forall_mem_cons]
  refine ⟨⟨_, rfl, applyRule_of_apply ?plain content⟩, ⟨_, rfl, applyRule_of_apply ?closures content⟩,
    ⟨_, rfl, applyRule_of_apply ?subclasses content⟩, ⟨_, rfl, applyRule_of_apply ?imports content⟩,
    ⟨_, rfl, applyRule_of_apply ?defaults content⟩, ⟨_, rfl, applyRule_of_apply ?calls content⟩,
    ⟨_, rfl, applyRule_of_apply ?constructions content⟩, by simp⟩
  case plain => exact Enum.isRecasting_plain.substitute_substitute
  case closures => exact Enum.isRecasting_closure.substitute_substitute
  case subclasses => exact (Settling.ofMarks isMarkedBy_subclassOpening).apply_apply
  case imports => exact (importSettling .modules tokens fit).apply_apply
  case defaults => exact (importSettling .defaults tokens fit).apply_apply
  case calls => exact (Settling.ofMarks isMarkedBy_factoryUse).apply_apply
  case constructions => exact (Settling.ofMarks isMarkedBy_moduleConstruction).apply_apply

/-- An import that is marked is not marked again. -/
theorem applyRule_applyRule_importing : TokensFit ["a"] ∧
    (∀ name ∈ repeatable, ∃ rule, rule? name = some rule ∧
      applyRule rule ["a"] (applyRule rule ["a"] importing) = applyRule rule ["a"] importing) ∧
    ∃ rule, rule? "webpack-imports" = some rule ∧ applyRule rule ["a"] importing = importingMarked := by
  have fit : TokensFit ["a"] := by decide +kernel
  refine ⟨fit, applyRule_applyRule fit importing, _, rfl, ?_⟩
  apply String.toList_inj.1
  rw [applyRule, String.toList_ofList]
  decide +kernel

end Bundle
end Shakedown
