import Shakedown.Proofs.Module.Deletion
import Shakedown.Proofs.Script.Spelling
import Shakedown.Proofs.Text.Infix

/-!
# What a text without marks still holds

The passes of a module run when marks occur in its text. A mark is one way to write what a pass
looks for. So a pass that is not asked for has nothing to do but with what is written in another
way: with metadata in `propDecorators` or under a name with an escape, with lists that the decorate
helper applies, and with helpers that are not declared by the very words of a mark.
-/

namespace Shakedown

open Node Text

/-! ## Marks in the text -/

section Marks

variable {text name : String} {place span : Span}

/-- A name without an escape stands in the text. -/
theorem IsWrittenAt.slice?_eq (written : IsWrittenAt text.toList name place)
    (plain : '\\' ∉ (Text.slice text place).toList) :
    slice? text.toList place = some name.toList := by
  obtain ⟨part, part_eq, rfl | escaped⟩ := written
  · exact part_eq
  · exact absurd (by simpa [Text.slice, part_eq] using escaped) plain

theorem slice?_of_slice_eq {part : String} (filled : part.toList ≠ [])
    (part_eq : Text.slice text span = part) : slice? text.toList span = some part.toList := by
  subst part_eq
  unfold Text.slice at filled ⊢
  cases found : slice? text.toList span with
  | none => simp [found] at filled
  | some chars => simp

end Marks

namespace Metadata

variable {script : Script} {symbols : List Symbol} {statement : Node} {cut : Span}

/-- The properties that hold metadata. -/
def properties : List String :=
  ["decorators", "propDecorators", "ctorParameters"]

/-- A statement is cut, or cut in, only for a property that holds metadata. -/
theorem assigned_of_mem_statementCuts
    (member : cut ∈ (statementCuts script symbols statement).statements ∨
      cut ∈ (statementCuts script symbols statement).elements) :
    ∃ assignment, assignment? statement = some assignment ∧ assignment.property ∈ properties := by
  unfold statementCuts at member
  split at member
  · simp [Cuts.none] at member
  · rename_i assignment found
    refine ⟨assignment, found, ?_⟩
    split at member
    · rename_i property_eq
      simp [property_eq, properties]
    · rename_i property_eq
      simp [property_eq, properties]
    · rename_i property_eq
      simp [property_eq, properties]
    · simp [Cuts.none] at member

end Metadata

namespace Selection

open Optimize

variable {text file : String} {script : Script} {statement : Node}

/-- The statement assigns metadata that no mark tells of: to the property `propDecorators`, or to a
property whose name has an escape. -/
def AssignsHidden (text : String) : Node → Prop
  | .mk .expressionStatement _
      [.mk (.assignment "=") _ [.mk (.member property _) place [object], _]] =>
      property = "propDecorators" ∨ property ∈ metadataMarks ∧
        ∃ word : Span, object.span.stop ≤ word.start ∧ word.stop = place.stop ∧
          '\\' ∈ (Text.slice text word).toList
  | _ => False

/-- The statement declares a helper by the words of its mark: with `var`, under its name without an
escape, and with one blank at each end of the sign before its value. -/
def DeclaresMarked (text name : String) : Node → Prop
  | .mk (.variables _) span [.mk .declarator _ [.mk (.binding declared) place _, value]] =>
      declared = name ∧ '\\' ∉ (Text.slice text place).toList ∧
        Text.slice text ⟨span.start, place.start⟩ = "var " ∧
        Text.slice text ⟨place.stop, value.span.start⟩ = " = "
  | _ => False

/-- Metadata whose property the text names by a mark asks for the passes that drop it. -/
theorem assignsHidden_of_unmarked (spelled : statement.IsSpelled text.toList)
    (unmarked : (ofText text).metadata = false) {assignment : Metadata.PropertyAssignment}
    (found : Metadata.assignment? statement = some assignment)
    (metadata : assignment.property ∈ Metadata.properties) : AssignsHidden text statement := by
  obtain ⟨span, _, place, _, rfl, -⟩ := Metadata.assignment?_eq_some found
  obtain ⟨word, behind, ends, written⟩ := spelled
  by_cases listed : assignment.property ∈ metadataMarks
  · refine .inr ⟨listed, word, behind, ends, ?_⟩
    by_contra plain
    have stands := infix_of_slice? (written.slice?_eq plain)
    have marked : (ofText text).metadata = true :=
      List.any_eq_true.2 ⟨_, listed, occurs_iff.2 stands⟩
    rw [marked] at unmarked
    contradiction
  · obtain marked | hidden | marked : assignment.property = "decorators" ∨
        assignment.property = "propDecorators" ∨ assignment.property = "ctorParameters" := by
      simpa [Metadata.properties] using metadata
    · exact absurd (by simp [marked, metadataMarks]) listed
    · exact .inl hidden
    · exact absurd (by simp [marked, metadataMarks]) listed

/-- A helper that is declared by the words of its mark asks for the import. -/
theorem helpers_of_declaresMarked {name : String} (spelled : statement.IsSpelled text.toList)
    (helper : HelperImport.helper? statement = some name) (marked : DeclaresMarked text name statement) :
    (ofText text).helpers = true := by
  unfold HelperImport.helper? at helper
  split at helper
  · rename_i form span declaratorSpan declared place parts value?
    dsimp only at helper
    split at helper
    · rename_i known
      obtain rfl := Option.some.inj helper
      match value?, marked with
      | [value], ⟨declared_eq, plain, begins, assigns⟩ =>
          have written : IsWrittenAt text.toList declared place := spelled
          have named := written.slice?_eq plain
          have front := slice?_append_slice? (slice?_of_slice_eq (by decide) begins) named
          have whole := slice?_append_slice? front (slice?_of_slice_eq (by decide) assigns)
          refine List.any_eq_true.2 ⟨"var " ++ declared ++ " = ", ?_, occurs_iff.2 ?_⟩
          · exact List.mem_map.2 ⟨declared, by simpa [← declared_eq] using known, rfl⟩
          · simpa using infix_of_slice? whole
    · contradiction
  · contradiction

/-- What is cut in a text without marks is metadata that no mark tells of, or elements of lists that
the decorate helper applies. -/
theorem hidden_of_mem_deletion (read : Script.read text file = .ok script)
    (unmarked : (ofText text).metadata = false) {edit : Edit}
    (member : edit ∈ (deletion script).edits) :
    ∃ cut, edit = .remove cut ∧ ∃ statement ∈ script.program.body, AssignsHidden text statement ∨
      ∃ helper, Metadata.helper? script = some helper ∧
        cut ∈ Metadata.helperCuts script (Framework.symbols script) helper statement := by
  have hidden {statement : Node} (listed : statement ∈ script.program.body) {cut : Span}
      (held : cut ∈ (Metadata.statementCuts script (Framework.symbols script) statement).statements ∨
        cut ∈ (Metadata.statementCuts script (Framework.symbols script) statement).elements) :
      AssignsHidden text statement := by
    obtain ⟨assignment, found, metadata⟩ := Metadata.assigned_of_mem_statementCuts held
    exact assignsHidden_of_unmarked (Script.isSpelled_of_read read statement listed) unmarked found
      metadata
  obtain none | ⟨gap, whole, rfl⟩ | ⟨cut, element, rfl⟩ := Metadata.mem_edits_record member
  · contradiction
  · rw [Metadata.statements_cuts] at whole
    obtain ⟨statement, listed, held⟩ := List.mem_flatMap.1 whole
    exact ⟨gap, rfl, statement, listed, .inl (hidden listed (.inl held))⟩
  · obtain ⟨statement, listed, held⟩ := Metadata.mem_elements_cuts.1 element
    refine ⟨cut, rfl, statement, listed, ?_⟩
    obtain own | applied := List.mem_append.1 held
    · exact .inl (hidden listed (.inr own))
    · right
      cases found : Metadata.helper? script with
      | none =>
          rw [found] at applied
          contradiction
      | some helper =>
          rw [found] at applied
          exact ⟨helper, rfl, applied⟩

/-- What is imported in a text without marks is a helper that is not declared by the words of its
mark. -/
theorem unmarked_of_mem_record (read : Script.read text file = .ok script)
    (unmarked : (ofText text).helpers = false) {edit : Edit}
    (member : edit ∈ (HelperImport.record script Revision.empty).edits) :
    ∃ statement ∈ script.program.body, ∃ name, HelperImport.helper? statement = some name ∧
      ¬DeclaresMarked text name statement ∧ (edit = .remove statement.span ∨
        edit = .insert statement.span.start (HelperImport.importText name)) := by
  obtain none | ⟨statement, listed, name, found, edit_eq⟩ := HelperImport.mem_edits_record member
  · contradiction
  · refine ⟨statement, listed, name, found, fun marked => ?_, edit_eq⟩
    have asked := helpers_of_declaresMarked (Script.isSpelled_of_read read statement listed) found
      marked
    rw [asked] at unmarked
    contradiction

/-- Metadata of members, and a helper that is no `var`: no mark tells of either. -/
def unasked : String :=
  "C.propDecorators={};let __extends=f;"

end Selection
end Shakedown
