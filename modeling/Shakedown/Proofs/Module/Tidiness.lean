import Shakedown.Proofs.Edit.Rendering
import Shakedown.Proofs.Module.Optimize

/-!
# The edits of all passes get along

What the passes record has a meaning only when nothing arrives where something is left out. A member
arrives in front of the `return` of its class. Nothing is cut there, unless the class bears the name
of a helper: then its whole declaration gives way to an import.
-/

namespace Shakedown
namespace Optimize

open Node Text Span

variable {script : Script} {selection : Selection} {edit : Edit} {cut : Span}

/-- No member moves into the declaration of a helper that is replaced. -/
def SparesHelpers (script : Script) (selection : Selection) : Prop :=
  selection.helpers → selection.metadata →
    ∀ statement ∈ script.program.body,
      ∀ folded ∈ StaticMember.foldable? script.scoping (StaticMember.classes script) statement,
        ∀ declaration ∈ script.program.body, (HelperImport.helper? declaration).isSome →
          StaticMember.classVariable? script.scoping declaration ≠ some folded.2

instance (script : Script) (selection : Selection) : Decidable (SparesHelpers script selection) :=
  inferInstanceAs (Decidable (_ → _ → _))

/-! ## Kinds of statements -/

/-- What declares a helper assigns nothing. -/
theorem assignment?_eq_none_of_helper {statement : Node}
    (found : (HelperImport.helper? statement).isSome) :
    Metadata.assignment? statement = none := by
  unfold HelperImport.helper? at found
  split at found
  · rfl
  · contradiction

/-- What declares a class assigns nothing. -/
theorem assignment?_eq_none_of_classVariable {scoping : Scoping} {statement : Node}
    {variable_ : StaticMember.ClassVariable}
    (found : StaticMember.classVariable? scoping statement = some variable_) :
    Metadata.assignment? statement = none := by
  unfold StaticMember.classVariable? at found
  split at found
  · rfl
  · contradiction

/-- A member that moves is an assignment. -/
theorem Folded.assigned {statement : Node} (folded : Folded script selection statement edit) :
    (Metadata.assignment? statement).isSome := by
  obtain ⟨-, -, ⟨assignment, variable_, foldable, -⟩, -⟩ := folded
  rw [(StaticMember.foldable?_eq_some foldable).1]
  rfl

/-- What is cut inside an assignment is cut inside its expression. -/
theorem inside_of_mem_elementsOf {text : List Char} {statement : Node}
    {assignment : Metadata.PropertyAssignment} (spaced : statement.IsSpaced text)
    (assigned : Metadata.assignment? statement = some assignment)
    (element : cut ∈ Metadata.elementsOf script (Framework.symbols script) statement) :
    assignment.expression.span.start < cut.start ∧ cut.stop < assignment.expression.span.stop := by
  obtain ⟨list, listed, isList, inside⟩ := Metadata.inList_of_mem_elementsOf spaced element
  obtain ⟨span, _, _, _, statement_eq, expression_eq⟩ := Metadata.assignment?_eq_some assigned
  rw [← expression_eq] at statement_eq
  subst statement_eq
  have below : list ∈ assignment.expression.nodes := by
    obtain rfl | ⟨child, member, below⟩ := mem_nodes.1 listed
    · contradiction
    · exact List.mem_singleton.1 member ▸ below
  have outside := covers_iff.1 ((spaced.child List.mem_cons_self).covers below)
  omega

/-! ## What is cut for the sake of different statements -/

section Spaced

variable {first last : Nat} (row : InRow script.text.toList first last script.program.body)

include row

/-- The gaps of two statements are apart. -/
theorem eq_or_gaps_apart {statement other : Node} (listed : statement ∈ script.program.body)
    (also_listed : other ∈ script.program.body) :
    statement = other ∨ (statementGap script.text statement.span).isApart
      (statementGap script.text other.span) := by
  have either := eq_or_isApart (fun statement : Node => statementGap script.text statement.span)
    (gaps_apart row) listed also_listed
  exact either

/-- What is cut for the sake of a statement lies in its gap. -/
theorem gap_covers {statement : Node} (listed : statement ∈ script.program.body)
    (member : cut ∈ cutsFor script statement) :
    (statementGap script.text statement.span).covers cut :=
  (tame_cutsFor (row.spaced statement listed)).within cut member

/-- What is cut for the sake of a statement is apart from the gaps of all others. -/
theorem apart_of_ne {statement other : Node} (listed : statement ∈ script.program.body)
    (also_listed : other ∈ script.program.body) (different : statement ≠ other)
    (member : cut ∈ cutsFor script statement) :
    cut.isApart (statementGap script.text other.span) := by
  have apart := (eq_or_gaps_apart row also_listed listed).resolve_left (Ne.symm different)
  rw [isApart_comm]
  exact isApart_of_covers apart (gap_covers row listed member)

/-- A statement lies in its gap. -/
theorem gap_covers_span {statement : Node} (listed : statement ∈ script.program.body) :
    (statementGap script.text statement.span).covers statement.span :=
  gap_covers row listed (by simp [cutsFor])

/-- Every tree of a statement begins in its gap. -/
theorem gap_holds_start {statement inner : Node} (listed : statement ∈ script.program.body)
    (below : inner ∈ statement.nodes) :
    (statementGap script.text statement.span).holds inner.span.start := by
  have spaced := row.spaced statement listed
  have inside := covers_trans (gap_covers_span row listed) (spaced.covers below)
  exact holds_of_covers inside (holds_start (isProper_iff.2 (spaced.below below).proper))

/-- An assignment that moves was not cut as a whole. -/
theorem Folded.uncut {statement : Node} (folded : Folded script selection statement edit) :
    .remove (statementGap script.text statement.span) ∉ (prepared script selection).edits := by
  obtain ⟨-, listed, -, still⟩ := folded
  refine fun removed => still ?_
  rw [Revision.isGone, List.any_eq_true]
  exact ⟨_, removed, gap_covers_span row listed⟩

/-! ## Removals and moves -/

/-- What is removed is apart from a member that moves, or an element inside its expression. -/
theorem apart_or_inside {statement : Node} {span : Span}
    (removed : .remove span ∈ (prepared script selection).edits)
    (folded : Folded script selection statement edit) :
    span.isApart (statementGap script.text statement.span) ∨
      ∃ assignment, Metadata.assignment? statement = some assignment ∧
        assignment.expression.span.start < span.start ∧
        span.stop < assignment.expression.span.stop := by
  obtain ⟨assignment, assigned⟩ := Option.isSome_iff_exists.1 folded.assigned
  have listed := folded.2.1
  cases prepared_of_mem removed with
  | @helper declaration in_body found =>
      have different : declaration ≠ statement := by
        rintro rfl
        rw [assignment?_eq_none_of_helper found] at assigned
        contradiction
      exact .inl (apart_of_ne row in_body listed different (by simp [cutsFor]))
  | @statement other metadata in_body =>
      have different : other ≠ statement := by
        rintro rfl
        exact folded.uncut row removed
      exact .inl (apart_of_ne row in_body listed different (by simp [cutsFor]))
  | @element other span in_body element =>
      by_cases same : other = statement
      · subst same
        exact .inr ⟨assignment, assigned,
          inside_of_mem_elementsOf (row.spaced other in_body) assigned element⟩
      · exact .inl (apart_of_ne row in_body listed same (by simp [cutsFor, element]))

/-- The body of a move, and what it leaves out. -/
theorem Folded.body {statement : Node} (folded : Folded script selection statement edit) :
    ∃ assignment variable_, Metadata.assignment? statement = some assignment ∧
      variable_ ∈ StaticMember.classes script ∧
      edit = .move assignment.expression.span (statementGap script.text statement.span)
        variable_.returnSpan.start (StaticMember.suffix script.text variable_.returnSpan.start) ∧
      Framed script.text.toList assignment.expression.span := by
  obtain ⟨-, listed, ⟨assignment, variable_, foldable, edit_eq⟩, -⟩ := folded
  obtain ⟨assigned, known, -⟩ := StaticMember.foldable?_eq_some foldable
  have expression_spaced := (row.spaced statement listed).below
    (Metadata.expression_mem_nodes assigned)
  exact ⟨assignment, variable_, assigned, known, edit_eq, expression_spaced.fits.framed⟩

/-- What is left out is apart or one inside the other. -/
theorem nested_gaps : ∀ gap ∈ Meaning.gaps (edits script selection).edits,
    ∀ other ∈ Meaning.gaps (edits script selection).edits,
      gap.isApart other ∨ gap.covers other ∨ other.covers gap := by
  intro gap gap_mem other other_mem
  have tame : Tame script.text.toList ⟨0, width script.text.toList⟩
      (edits script selection).cuts :=
    (tame_edits row).of_subset fun _ member => mem_cuts_edits member
  exact nests_iff.1 (tame.nested gap (List.mem_filter.1 gap_mem).1 other
    (List.mem_filter.1 other_mem).1)

/-! ## Where members arrive -/

/-- Where a member arrives nothing is left out. -/
theorem target_free (spares : SparesHelpers script selection) {statement : Node}
    {assignment : Metadata.PropertyAssignment} {variable_ : StaticMember.ClassVariable}
    (metadata : selection.metadata) (listed : statement ∈ script.program.body)
    (foldable : StaticMember.foldable? script.scoping (StaticMember.classes script) statement =
      some (assignment, variable_))
    (member : cut ∈ (edits script selection).cuts) :
    cut.holds variable_.returnSpan.start = false := by
  obtain ⟨-, known, -⟩ := StaticMember.foldable?_eq_some foldable
  obtain ⟨declaration, in_body, declared⟩ := List.mem_filterMap.1 known
  obtain ⟨returns, span_eq, below⟩ := StaticMember.exists_return declared
  rw [← span_eq]
  have spaced := row.spaced declaration in_body
  have returns_spaced := spaced.below below.mem_nodes
  have proper := returns_spaced.proper
  have held := gap_holds_start row in_body below.mem_nodes
  -- only what is cut for the sake of the declaration comes near
  have free_of_ne {other : Node} (also_listed : other ∈ script.program.body)
      (different : other ≠ declaration) (among : cut ∈ cutsFor script other) :
      cut.holds returns.span.start = false := by
    have apart := apart_of_ne row also_listed in_body different among
    exact Bool.eq_false_iff.2 fun holds => not_isApart_of_holds holds held apart
  have free_of_assigned {other : Node} (also_listed : other ∈ script.program.body)
      (assigned : (Metadata.assignment? other).isSome) (among : cut ∈ cutsFor script other) :
      cut.holds returns.span.start = false := by
    refine free_of_ne also_listed ?_ among
    rintro rfl
    rw [assignment?_eq_none_of_classVariable declared] at assigned
    contradiction
  obtain ⟨edit, recorded, gap⟩ := List.mem_filterMap.1 member
  obtain before | ⟨other, folded⟩ := prepared_or_folded recorded
  · cases prepared_of_mem before with
    | insertion => contradiction
    | @helper other also_listed found helpers =>
        obtain rfl := Option.some.inj gap
        refine free_of_ne also_listed ?_ (by simp [cutsFor])
        rintro rfl
        exact spares helpers metadata statement listed _ foldable other also_listed found declared
    | @statement other selected also_listed assigned =>
        obtain rfl := Option.some.inj gap
        exact free_of_assigned also_listed assigned (by simp [cutsFor])
    | @element other span also_listed element =>
        obtain rfl := Option.some.inj gap
        by_cases same : other = declaration
        · subst same
          obtain ⟨list, in_list, isList, inside⟩ := Metadata.inList_of_mem_elementsOf spaced element
          have free : ¬span.holds returns.span.start := by
            rw [holds_iff]
            obtain inner | apart := below.list_apart spaced in_list isList
            · have outside := covers_iff.1 (returns_spaced.covers inner)
              omega
            · omega
          exact Bool.eq_false_iff.2 free
        · exact free_of_ne also_listed same (by simp [cutsFor, element])
  · have among : cut ∈ cutsFor script other := by
      obtain ⟨-, -, moves, -⟩ := folded
      obtain rfl := Option.some.inj (moves.gap?.symm.trans gap)
      simp [cutsFor]
    exact free_of_assigned folded.2.1 folded.assigned among

end Spaced

/-! ## All edits -/

theorem isBoundary_of_mem_offsets (spaced : script.program.IsSpaced script.text.toList)
    (member : edit ∈ (edits script selection).edits) :
    ∀ offset ∈ edit.offsets, IsBoundary script.text.toList offset := by
  have boundaries := (cutsNest_edits spaced.row selection).boundaries
  have of_gap {gap : Span} (gap_eq : edit.gap? = some gap) :=
    boundaries gap (List.mem_filterMap.2 ⟨edit, member, gap_eq⟩)
  obtain before | ⟨statement, folded⟩ := prepared_or_folded member
  · cases prepared_of_mem before with
    | insertion anchor => simpa [Edit.offsets] using anchor.isBoundary spaced
    | helper => simpa [Edit.offsets] using of_gap rfl
    | statement => simpa [Edit.offsets] using of_gap rfl
    | element => simpa [Edit.offsets] using of_gap rfl
  · obtain ⟨assignment, variable_, -, known, rfl, framed⟩ := folded.body spaced.row
    obtain ⟨declaration, in_body, declared⟩ := List.mem_filterMap.1 known
    obtain ⟨returns, span_eq, below⟩ := StaticMember.exists_return declared
    have returns_spaced := (spaced.row.spaced declaration in_body).below below.mem_nodes
    obtain ⟨gap_begins, gap_ends⟩ := of_gap rfl
    simpa [Edit.offsets, ← span_eq] using ⟨framed.begins.isBoundary, framed.ends.isBoundary,
      gap_begins, gap_ends, returns_spaced.fits.framed.begins.isBoundary⟩

/-- What is removed is apart from all members that move, or inside the expression of one. -/
theorem apart_or_inside_of_mem {span : Span} (spaced : script.program.IsSpaced script.text.toList)
    (member : span ∈ (edits script selection).edits.filterMap Edit.removal?) :
    (∀ removed ∈ (edits script selection).moved, span.isApart removed) ∨
      ∃ body removed target suffix,
        .move body removed target suffix ∈ (edits script selection).edits ∧
          body.covers span ∧ span ≠ removed := by
  obtain ⟨edit, recorded, removal⟩ := List.mem_filterMap.1 member
  obtain ⟨rfl, proper⟩ := Edit.removal?_eq_some_iff.1 removal
  obtain removed | ⟨_, -, -, ⟨_, _, -, same⟩, -⟩ := prepared_or_folded recorded
  · by_cases all_apart : ∀ removed ∈ (edits script selection).moved, span.isApart removed
    · exact .inl all_apart
    · simp only [not_forall] at all_apart
      obtain ⟨gone, moved, near⟩ := all_apart
      obtain ⟨move, listed, removed_eq⟩ := List.mem_filterMap.1 moved
      obtain before | ⟨statement, folded⟩ := prepared_or_folded listed
      · rw [(prepared_of_mem before).removed?_eq_none] at removed_eq
        contradiction
      · obtain ⟨assignment, variable_, assigned, -, rfl, -⟩ := folded.body spaced.row
        obtain rfl := Option.some.inj removed_eq
        have outside := covers_iff.1 (covers_body spaced.row listed)
        obtain apart | ⟨other, also_assigned, start_lt, stop_lt⟩ :=
          apart_or_inside spaced.row removed folded
        · exact absurd apart near
        · obtain rfl := Option.some.inj (assigned.symm.trans also_assigned)
          refine .inr ⟨_, _, _, _, listed, covers_iff.2 (by omega), ?_⟩
          rintro rfl
          omega
  · contradiction

/-- The edits of all passes get along. -/
theorem tidy_edits (spaced : script.program.IsSpaced script.text.toList)
    (spares : SparesHelpers script selection) :
    Meaning.Tidy script.text.toList (edits script selection).edits where
  boundaries := fun edit member => isBoundary_of_mem_offsets spaced member
  nested := nested_gaps spaced.row
  movesApart := moves_apart spaced.row selection
  bodies := by
    intro body removed target suffix member
    refine ⟨?_, covers_body spaced.row member⟩
    obtain before | ⟨statement, folded⟩ := prepared_or_folded member
    · have none_removed := (prepared_of_mem before).removed?_eq_none
      contradiction
    · obtain ⟨assignment, variable_, -, -, edit_eq, framed⟩ := folded.body spaced.row
      obtain ⟨rfl, -⟩ := Edit.move.inj edit_eq
      exact isProper_iff.2 framed.proper
  removalsApart := fun span member => apart_or_inside_of_mem spaced member
  targets := by
    intro body removed target suffix member gap gap_mem
    obtain before | ⟨statement, metadata, listed, ⟨assignment, variable_, foldable, same⟩, -⟩ :=
      prepared_or_folded member
    · have none_removed := (prepared_of_mem before).removed?_eq_none
      contradiction
    · obtain ⟨-, -, rfl, -⟩ := Edit.move.inj same
      exact target_free spaced.row spares metadata listed foldable (List.mem_filter.1 gap_mem).1

end Optimize
end Shakedown
