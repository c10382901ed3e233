import Shakedown.Module.Optimize
import Shakedown.Proofs.Edit.StatementGap
import Shakedown.Proofs.Pass.Metadata
import Shakedown.Proofs.Pass.PureCall
import Shakedown.Proofs.Pass.StaticMember

/-!
# Cuts of all passes

The passes cut without knowing of each other. Still their cuts never straddle: each belongs to one
statement of the top level, either as the statement, with or without the blanks around it, or as a
part of it, and what belongs to different statements keeps apart.
-/

namespace Shakedown

open Node Text Span

namespace Revision

/-- The cuts of a revision are ranges of the text that do not straddle, and a move takes its body out
of a range that no other move leaves out. -/
structure CutsNest (text : List Char) (revision : Revision) : Prop where
  /-- Every cut begins and ends on a boundary of the text. -/
  boundaries : ∀ cut ∈ revision.cuts, IsBoundary text cut.start ∧ IsBoundary text cut.stop
  /-- No cut ends before it begins. -/
  ordered : ∀ cut ∈ revision.cuts, cut.start ≤ cut.stop
  /-- Two cuts are apart or one of them lies inside the other. -/
  nested : revision.cuts.Pairwise fun cut other => cut.nests other
  /-- A move leaves out its body. -/
  bodies : ∀ body removed target suffix,
    .move body removed target suffix ∈ revision.edits → removed.covers body
  /-- The ranges that moves leave out are apart. -/
  movesApart : revision.moved.Pairwise fun removed other => removed.isApart other

end Revision

theorem HelperImport.mem_edits_record {script : Script} {revision : Revision} {edit : Edit}
    (member : edit ∈ (record script revision).edits) :
    edit ∈ revision.edits ∨ ∃ statement ∈ script.program.body, ∃ name,
      helper? statement = some name ∧ (edit = .remove statement.span ∨
        edit = .insert statement.span.start (importText name)) := by
  refine Revision.mem_edits_foldl (fun statement edit => ∃ name, helper? statement = some name ∧
    (edit = .remove statement.span ∨ edit = .insert statement.span.start (importText name))) ?_
    member
  intro revision statement edit member
  unfold replace at member
  split at member
  · exact .inl member
  · rename_i name found
    obtain removed | inserted := Revision.mem_edits_insert member
    · exact (Revision.mem_edits_remove removed).imp_right fun same => ⟨name, found, .inl same⟩
    · exact .inr ⟨name, found, .inr inserted⟩

namespace Optimize

variable {script : Script} {selection : Selection} {edit : Edit} {cut : Span}

/-! ## What is recorded -/

/-- The edits of the import of helpers. -/
def imported (script : Script) (helpers : Bool) : Revision :=
  if helpers then HelperImport.record script Revision.empty else Revision.empty

/-- The edits of all passes before members are folded. -/
def scrubbed (script : Script) (helpers : Bool) : Revision :=
  Metadata.record (Metadata.cuts script (Framework.symbols script))
    (PureCall.record script (if helpers then HelperImport.positions script else [])
      (imported script helpers))

/-- The edits of the selected passes before members are folded. -/
def prepared (script : Script) (selection : Selection) : Revision :=
  if selection.metadata then scrubbed script selection.helpers
  else imported script selection.helpers

theorem edits_eq (script : Script) (selection : Selection) :
    edits script selection =
      if selection.metadata then StaticMember.record script (prepared script selection)
      else prepared script selection := by
  obtain ⟨helpers, metadata⟩ := selection
  cases metadata <;> rfl

/-- What the passes record before members are folded, and for the sake of which part of the
program. -/
inductive Prepared (script : Script) (selection : Selection) : Edit → Prop
  /-- Something is inserted. -/
  | insertion {position : Nat} {text : String} :
      PureCall.IsAnchor script position → Prepared script selection (.insert position text)
  /-- The declaration of a helper is replaced. -/
  | helper {statement : Node} :
      statement ∈ script.program.body → (HelperImport.helper? statement).isSome →
      selection.helpers → Prepared script selection (.remove statement.span)
  /-- An assignment of metadata is cut as a whole. -/
  | statement {statement : Node} :
      selection.metadata → statement ∈ script.program.body →
      (Metadata.assignment? statement).isSome →
      statementGap script.text statement.span ∈
        (Metadata.cuts script (Framework.symbols script)).statements →
      Prepared script selection (.remove (statementGap script.text statement.span))
  /-- Elements are cut out of a list. -/
  | element {statement : Node} {cut : Span} :
      statement ∈ script.program.body →
      cut ∈ Metadata.elementsOf script (Framework.symbols script) statement →
      Prepared script selection (.remove cut)

/-- An assignment that was not left out moves into its class. -/
def Folded (script : Script) (selection : Selection) (statement : Node) (edit : Edit) : Prop :=
  selection.metadata ∧ statement ∈ script.program.body ∧
    StaticMember.Moves script (StaticMember.classes script) statement edit ∧
    ¬(prepared script selection).isGone statement.span

theorem Prepared.removed?_eq_none (prepared : Prepared script selection edit) :
    edit.removed? = none := by
  cases prepared <;> rfl

theorem prepared_imported (member : edit ∈ (imported script selection.helpers).edits) :
    Prepared script selection edit := by
  unfold imported at member
  split at member
  · rename_i helpers
    obtain none | ⟨statement, listed, name, found, rfl | rfl⟩ :=
      HelperImport.mem_edits_record member
    · contradiction
    · exact .helper listed (by rw [found]; rfl) helpers
    · exact .insertion (.inr (.inr ⟨statement, listed, statement, mem_nodes.2 (.inl rfl), rfl⟩))
  · contradiction

theorem prepared_of_mem (member : edit ∈ (prepared script selection).edits) :
    Prepared script selection edit := by
  unfold prepared at member
  split at member
  · rename_i metadata
    obtain before | ⟨gap, whole, rfl⟩ | ⟨cut, element, rfl⟩ := Metadata.mem_edits_record member
    · obtain before | ⟨position, text, rfl, anchor, -⟩ := PureCall.mem_edits_record before
      · exact prepared_imported before
      · exact .insertion anchor
    · obtain ⟨statement, listed, assigned, rfl⟩ := Metadata.mem_statements_cuts whole
      exact .statement metadata listed assigned whole
    · obtain ⟨statement, listed, held⟩ := Metadata.mem_elements_cuts.1 element
      exact .element listed held
  · exact prepared_imported member

/-- Moves stand behind everything that was prepared, in the order of the statements. -/
theorem exists_folded (script : Script) (selection : Selection) :
    ∃ folded : List (Node × Edit),
      (edits script selection).edits =
        (prepared script selection).edits ++ folded.map (·.2) ∧
      (folded.map (·.1)).Sublist script.program.body ∧
      ∀ choice ∈ folded, Folded script selection choice.1 choice.2 := by
  rw [edits_eq]
  split
  · rename_i metadata
    obtain ⟨chosen, sub, moves, edits_eq⟩ :=
      StaticMember.edits_record script (prepared script selection)
    refine ⟨chosen, edits_eq, sub, fun choice among => ?_⟩
    obtain ⟨choice_moves, still⟩ := moves choice among
    exact ⟨metadata, sub.mem (List.mem_map_of_mem among), choice_moves, still⟩
  · exact ⟨[], (List.append_nil _).symm, List.nil_sublist _, by simp⟩

/-- Every edit was prepared or folds a statement. -/
theorem prepared_or_folded (member : edit ∈ (edits script selection).edits) :
    edit ∈ (prepared script selection).edits ∨
      ∃ statement, Folded script selection statement edit := by
  obtain ⟨folded, edits_eq, -, all_folded⟩ := exists_folded script selection
  rw [edits_eq] at member
  obtain before | moved := List.mem_append.1 member
  · exact .inl before
  · obtain ⟨choice, among, rfl⟩ := List.mem_map.1 moved
    exact .inr ⟨choice.1, all_folded choice among⟩

/-! ## Cuts -/

/-- Everything that may be cut for the sake of one statement. -/
def cutsFor (script : Script) (statement : Node) : List Span :=
  statementGap script.text statement.span :: statement.span ::
    Metadata.elementsOf script (Framework.symbols script) statement

/-- What is cut is cut for the sake of one of the statements. -/
theorem mem_cuts_edits (member : cut ∈ (edits script selection).cuts) :
    cut ∈ script.program.body.flatMap (cutsFor script) := by
  obtain ⟨edit, listed, gap⟩ := List.mem_filterMap.1 member
  rw [List.mem_flatMap]
  obtain before | ⟨statement, -, in_body, moves, -⟩ := prepared_or_folded listed
  · cases prepared_of_mem before with
    | insertion => contradiction
    | @helper statement in_body =>
        obtain rfl := Option.some.inj gap
        exact ⟨statement, in_body, by simp [cutsFor]⟩
    | @statement statement metadata in_body =>
        obtain rfl := Option.some.inj gap
        exact ⟨statement, in_body, by simp [cutsFor]⟩
    | @element statement element in_body held =>
        obtain rfl := Option.some.inj gap
        exact ⟨statement, in_body, by simp [cutsFor, held]⟩
  · obtain rfl := Option.some.inj (moves.gap?.symm.trans gap)
    exact ⟨statement, in_body, by simp [cutsFor]⟩

/-- What is cut for the sake of a statement lies in the gap of the statement. -/
theorem tame_cutsFor {statement : Node} (spaced : statement.IsSpaced script.text.toList) :
    Tame script.text.toList (statementGap script.text statement.span)
      (cutsFor script statement) := by
  have framed := spaced.fits.framed
  have surrounds := surrounds_statementGap framed
  have proper := framed.proper
  have start_le := surrounds.start_le
  have le_stop := surrounds.le_stop
  have elements_tame : Tame script.text.toList statement.span
      (Metadata.elementsOf script (Framework.symbols script) statement) :=
    Metadata.tame_elementsOf spaced
  have in_statement := elements_tame.cons_outer framed.begins.isBoundary framed.ends.isBoundary
    (Nat.le_of_lt proper)
  exact (in_statement.mono surrounds.covers).cons_outer surrounds.start_boundary
    (surrounds.stop_boundary framed.ends.isBoundary) (by omega)

section Spaced

variable {first last : Nat} (row : InRow script.text.toList first last script.program.body)

include row

/-- The gaps of the statements follow each other. -/
theorem gaps_apart : script.program.body.Pairwise fun statement other =>
    (statementGap script.text statement.span).stop ≤
      (statementGap script.text other.span).start := by
  refine row.ordered.imp_of_mem fun {statement other} listed also_listed ordered => ?_
  exact statementGap_stop_le (row.spaced statement listed).fits.framed
    (row.spaced other also_listed).fits.framed ordered

theorem tame_edits : Tame script.text.toList ⟨0, width script.text.toList⟩
    (script.program.body.flatMap (cutsFor script)) := by
  refine Tame.flatMap (fun statement => statementGap script.text statement.span)
    (fun statement listed => tame_cutsFor (row.spaced statement listed)) ?_
    ((gaps_apart row).imp .inl)
  intro statement listed
  have framed := (row.spaced statement listed).fits.framed
  have inside := ((surrounds_statementGap framed).stop_boundary framed.ends.isBoundary).le_width
  exact covers_iff.2 ⟨Nat.zero_le _, inside⟩

/-- Every move takes the gap of a statement of its own. -/
theorem moves_apart (selection : Selection) :
    (edits script selection).moved.Pairwise fun removed other => removed.isApart other := by
  obtain ⟨folded, edits_eq, sub, all_folded⟩ := exists_folded script selection
  have none_prepared : (prepared script selection).edits.filterMap Edit.removed? = [] :=
    List.filterMap_eq_nil_iff.2 fun edit listed => (prepared_of_mem listed).removed?_eq_none
  have moves : ∀ choice ∈ folded,
      StaticMember.Moves script (StaticMember.classes script) choice.1 choice.2 :=
    fun choice among => (all_folded choice among).2.2.1
  rw [Revision.moved, edits_eq, List.filterMap_append, none_prepared, List.nil_append,
    StaticMember.removed?_of_moves moves, List.pairwise_map]
  exact ((gaps_apart row).sublist sub).imp isApart_of_le

/-- The body of a move is part of the statement that it moves. -/
theorem covers_body {body removed : Span} {target : Nat} {suffix : String}
    (member : .move body removed target suffix ∈ (edits script selection).edits) :
    removed.covers body := by
  obtain before | ⟨statement, -, listed, moves, -⟩ := prepared_or_folded member
  · have none_removed := (prepared_of_mem before).removed?_eq_none
    contradiction
  · have spaced := row.spaced statement listed
    obtain rfl := Option.some.inj moves.removed?
    exact covers_trans (surrounds_statementGap spaced.fits.framed).covers (moves.covers_body spaced)

theorem cutsNest_edits (selection : Selection) :
    (edits script selection).CutsNest script.text.toList := by
  have tame : Tame script.text.toList ⟨0, width script.text.toList⟩
      (edits script selection).cuts :=
    (tame_edits row).of_subset fun _ member => mem_cuts_edits member
  exact
    { boundaries := tame.boundaries
      ordered := tame.ordered
      nested := List.pairwise_of_forall_mem_list tame.nested
      bodies := fun _ _ _ _ member => covers_body row member
      movesApart := moves_apart row selection }

end Spaced

/-- Whatever text is read and whichever passes run, the recorded cuts nest. -/
theorem cutsNest_of_read {text file : String} {script : Script}
    (read : Script.read text file = .ok script) (selection : Selection) :
    (edits script selection).CutsNest text.toList := by
  have spaced := Script.isSpaced_of_read read
  rw [← Script.text_of_read read]
  exact cutsNest_edits spaced.row selection

/-- A class whose decorators are folded into it, with one of them left out. -/
def decorated : String :=
  "import{Input}from'@angular/core';var C=(function(){function C(){}return C}());" ++
    "C.decorators=[{type:Input},{type:O}];"

/-- The statement is moved as a whole, and the element inside it is cut. -/
theorem cutsNest_of_read_decorated : ∃ script,
    Script.read decorated "c.js" = .ok script ∧
    (edits script ⟨true, true⟩).cuts = [⟨92, 105⟩, ⟨78, 115⟩] ∧
    (edits script ⟨true, true⟩).CutsNest decorated.toList := by
  have cuts_eq : ((Script.read decorated "c.js").toOption.map fun script =>
      (edits script ⟨true, true⟩).cuts) = some [⟨92, 105⟩, ⟨78, 115⟩] := by
    decide +kernel
  obtain ⟨script, found, cuts_eq⟩ := Option.map_eq_some_iff.1 cuts_eq
  have read : Script.read decorated "c.js" = .ok script := Except.eq_ok_of_toOption found
  exact ⟨script, read, cuts_eq, cutsNest_of_read read ⟨true, true⟩⟩

end Optimize

end Shakedown
