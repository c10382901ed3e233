import Shakedown.Proofs.Edit.Occurrence
import Shakedown.Proofs.Module.Tidiness

/-!
# No assignment is lost

An assignment to a property of a name is metadata that is cut, a member that moves into its class, or
none of both. What is not cut occurs once in the optimized text, unless it moves into the declaration
of a helper.
-/

namespace Shakedown
namespace Optimize

open Node Text Span

variable {script : Script} {selection : Selection} {statement : Node}
  {assignment : Metadata.PropertyAssignment}

/-- The statement is not cut as metadata. -/
def IsUncut (script : Script) (selection : Selection) (statement : Node) : Prop :=
  selection.metadata → statementGap script.text statement.span ∉
    (Metadata.cuts script (Framework.symbols script)).statements

instance (script : Script) (selection : Selection) (statement : Node) :
    Decidable (IsUncut script selection statement) :=
  inferInstanceAs (Decidable (_ → _))

section Spaced

variable {first last : Nat} (row : InRow script.text.toList first last script.program.body)

include row

/-- Around an assignment that neither is cut nor moves, only elements of its lists are left out. -/
theorem clear_gaps (listed : statement ∈ script.program.body)
    (assigned : Metadata.assignment? statement = some assignment)
    (uncut : IsUncut script selection statement)
    (unmoved : ∀ edit ∈ (edits script selection).edits, ¬Folded script selection statement edit) :
    ∀ gap ∈ Meaning.gaps (edits script selection).edits, gap.isApart statement.span ∨
      gap ∈ Meaning.removals (edits script selection).edits statement.span := by
  intro gap gap_mem
  obtain ⟨⟨edit, member, gap_eq⟩, proper⟩ := Meaning.mem_gaps_iff.1 gap_mem
  have apart_of_ne {other : Node} (also_listed : other ∈ script.program.body)
      (different : other ≠ statement) (among : gap ∈ cutsFor script other) :
      gap.isApart statement.span :=
    isApart_of_covers (apart_of_ne row also_listed listed different among)
      (gap_covers_span row listed)
  obtain before | ⟨other, folded⟩ := prepared_or_folded member
  · cases prepared_of_mem before with
    | insertion => contradiction
    | @helper other also_listed found =>
        obtain rfl := Option.some.inj gap_eq
        refine .inl (apart_of_ne also_listed ?_ (by simp [cutsFor]))
        rintro rfl
        rw [assignment?_eq_none_of_helper found] at assigned
        contradiction
    | @statement other metadata also_listed _ whole =>
        obtain rfl := Option.some.inj gap_eq
        refine .inl (apart_of_ne also_listed ?_ (by simp [cutsFor]))
        rintro rfl
        exact uncut metadata whole
    | @element other span also_listed element =>
        obtain rfl := Option.some.inj gap_eq
        by_cases same : other = statement
        · subst same
          have inside := (Metadata.tame_elementsOf (row.spaced other listed)).within _ element
          exact .inr (Meaning.mem_removals_iff.2 ⟨member, proper, inside⟩)
        · exact .inl (apart_of_ne also_listed same (by simp [cutsFor, element]))
  · have among : gap ∈ cutsFor script other := by
      obtain ⟨-, -, moves, -⟩ := folded
      obtain rfl := Option.some.inj (moves.gap?.symm.trans gap_eq)
      simp [cutsFor]
    refine .inl (apart_of_ne folded.2.1 ?_ among)
    rintro rfl
    exact unmoved edit member folded

/-- A member arrives in the declaration of a class, away from all assignments. -/
theorem target_outside (listed : statement ∈ script.program.body)
    (assigned : Metadata.assignment? statement = some assignment)
    {variable_ : StaticMember.ClassVariable} (known : variable_ ∈ StaticMember.classes script) :
    statement.span.holds variable_.returnSpan.start = false := by
  obtain ⟨declaration, in_body, declared⟩ := List.mem_filterMap.1 known
  obtain ⟨returns, span_eq, below⟩ := StaticMember.exists_return declared
  have spaced := row.spaced declaration in_body
  have proper := (spaced.below below.mem_nodes).proper
  have in_declaration : declaration.span.holds variable_.returnSpan.start := by
    rw [← span_eq]
    exact holds_of_covers (spaced.covers below.mem_nodes) (holds_start (isProper_iff.2 proper))
  have different : declaration ≠ statement := by
    rintro rfl
    rw [assignment?_eq_none_of_classVariable declared] at assigned
    contradiction
  have apart : declaration.span.isApart statement.span :=
    isApart_of_covers (apart_of_ne row in_body listed different (by simp [cutsFor]))
      (gap_covers_span row listed)
  exact Bool.eq_false_iff.2 fun held => not_isApart_of_holds in_declaration held apart

theorem isClear (listed : statement ∈ script.program.body)
    (assigned : Metadata.assignment? statement = some assignment)
    (uncut : IsUncut script selection statement)
    (unmoved : ∀ edit ∈ (edits script selection).edits, ¬Folded script selection statement edit) :
    Meaning.IsClear (edits script selection).edits statement.span where
  gaps := clear_gaps row listed assigned uncut unmoved
  moves := by
    intro body removed target suffix member
    obtain before | ⟨other, folded⟩ := prepared_or_folded member
    · have none_removed := (prepared_of_mem before).removed?_eq_none
      contradiction
    · obtain ⟨_, variable_, -, known, edit_eq, -⟩ := folded.body row
      obtain ⟨rfl, rfl, rfl, rfl⟩ := Edit.move.inj edit_eq
      have different : other ≠ statement := by
        rintro rfl
        exact unmoved _ member folded
      have apart := apart_of_ne row folded.2.1 listed different List.mem_cons_self
      exact ⟨isApart_of_covers apart (gap_covers_span row listed),
        target_outside row listed assigned known⟩

end Spaced

/-- An assignment that is not cut occurs once: in its place, or in front of the `return` of the class
that it assigns a member of. -/
theorem occurs_once (spaced : script.program.IsSpaced script.text.toList)
    (spares : SparesHelpers script selection) (listed : statement ∈ script.program.body)
    (assigned : Metadata.assignment? statement = some assignment)
    (uncut : IsUncut script selection statement) :
    Meaning.StaysOnce script.text.toList (edits script selection).edits statement.span
        (Meaning.text script.text.toList (edits script selection).edits) ∨
      ∃ variable_, StaticMember.foldable? script.scoping (StaticMember.classes script) statement =
          some (assignment, variable_) ∧
        Meaning.MovesOnce script.text.toList (edits script selection).edits statement.span
          assignment.expression.span variable_.returnSpan.start
          (Meaning.text script.text.toList (edits script selection).edits) := by
  have tidy := tidy_edits spaced spares
  have row := spaced.row
  by_cases moved : ∃ edit ∈ (edits script selection).edits, Folded script selection statement edit
  · obtain ⟨_, member, -, -, ⟨folded, variable_, foldable, rfl⟩, -⟩ := moved
    obtain ⟨also_assigned, known, -⟩ := StaticMember.foldable?_eq_some foldable
    obtain rfl := Option.some.inj (assigned.symm.trans also_assigned)
    obtain ⟨declaration, in_body, declared⟩ := List.mem_filterMap.1 known
    obtain ⟨returns, span_eq, below⟩ := StaticMember.exists_return declared
    have framed := ((row.spaced declaration in_body).below below.mem_nodes).fits.framed
    rw [span_eq] at framed
    obtain ⟨char, rest, ⟨front, text_eq, front_width⟩, -⟩ := framed.begins
    exact .inr ⟨variable_, foldable,
      tidy.movesOnce member (gap_covers_span row listed) text_eq front_width⟩
  · have framed := (row.spaced statement listed).fits.framed
    have clear := isClear row listed assigned uncut fun edit member folded =>
      moved ⟨edit, member, folded⟩
    exact .inl (clear.staysOnce tidy framed.begins.isBoundary framed.ends.isBoundary
      (Nat.le_of_lt framed.proper))

/-- Whatever text is read and whichever passes run, an assignment that is not cut occurs once in the
optimized text, with the edits inside it made. -/
theorem occurs_once_of_read {text file : String} (read : Script.read text file = .ok script)
    (spares : SparesHelpers script selection) (listed : statement ∈ script.program.body)
    (assigned : Metadata.assignment? statement = some assignment)
    (uncut : IsUncut script selection statement) :
    Meaning.StaysOnce text.toList (edits script selection).edits statement.span
        ((edits script selection).render text).text.toList ∨
      ∃ variable_, StaticMember.foldable? script.scoping (StaticMember.classes script) statement =
          some (assignment, variable_) ∧
        Meaning.MovesOnce text.toList (edits script selection).edits statement.span
          assignment.expression.span variable_.returnSpan.start
          ((edits script selection).render text).text.toList := by
  have spaced := Script.isSpaced_of_read read
  obtain rfl := Script.text_of_read read
  have rendered : ((edits script selection).render script.text).text.toList =
      Meaning.text script.text.toList (edits script selection).edits :=
    (tidy_edits spaced spares).chunksOf_standFor.merge.text_eq
  rw [rendered]
  exact occurs_once spaced spares listed assigned uncut

/-- The list that is left over moves into the class. -/
theorem occurs_once_of_read_decorated : ∃ script statement assignment,
    Script.read decorated "c.js" = .ok script ∧ statement ∈ script.program.body ∧
    Metadata.assignment? statement = some assignment ∧ IsUncut script ⟨true, true⟩ statement ∧
    (Meaning.StaysOnce decorated.toList (edits script ⟨true, true⟩).edits statement.span
        ((edits script ⟨true, true⟩).render decorated).text.toList ∨
      ∃ variable_, StaticMember.foldable? script.scoping (StaticMember.classes script) statement =
          some (assignment, variable_) ∧
        Meaning.MovesOnce decorated.toList (edits script ⟨true, true⟩).edits statement.span
          assignment.expression.span variable_.returnSpan.start
          ((edits script ⟨true, true⟩).render decorated).text.toList) := by
  have suits : (Script.read decorated "c.js").toOption.any fun script =>
      SparesHelpers script ⟨true, true⟩ ∧ ∃ statement ∈ script.program.body,
        (Metadata.assignment? statement).isSome ∧ IsUncut script ⟨true, true⟩ statement := by
    decide +kernel
  obtain ⟨script, found, suits⟩ := (Option.any_eq_true _ _).1 suits
  obtain ⟨spares, statement, listed, assigned, uncut⟩ := of_decide_eq_true suits
  obtain ⟨assignment, assigned⟩ := Option.isSome_iff_exists.1 assigned
  have read : Script.read decorated "c.js" = .ok script := Except.eq_ok_of_toOption found
  exact ⟨script, statement, assignment, read, listed, assigned, uncut,
    occurs_once_of_read read spares listed assigned uncut⟩

/-- A helper that is a class with a member of its own. -/
def helperClass : String :=
  "var __extends=(function(){function __extends(){}return __extends}());__extends.p=1;"

/-- The member of a helper is not cut as metadata, and still lost with the declaration. -/
theorem lost_helperClass : ∃ script, Script.read helperClass "c.js" = .ok script ∧
    (∃ statement ∈ script.program.body, (Metadata.assignment? statement).isSome ∧
      IsUncut script ⟨true, true⟩ statement) ∧
    ((edits script ⟨true, true⟩).render helperClass).text =
      "/** PURE_IMPORTS_START tslib PURE_IMPORTS_END */\n" ++
        "import \x7b __extends \x7d from \"tslib\";" := by
  have lost : (Script.read helperClass "c.js").toOption.any fun script =>
      (∃ statement ∈ script.program.body, (Metadata.assignment? statement).isSome ∧
        IsUncut script ⟨true, true⟩ statement) ∧
      ((edits script ⟨true, true⟩).render helperClass).text =
        "/** PURE_IMPORTS_START tslib PURE_IMPORTS_END */\n" ++
          "import \x7b __extends \x7d from \"tslib\";" := by
    decide +kernel
  obtain ⟨script, found, lost⟩ := (Option.any_eq_true _ _).1 lost
  exact ⟨script, Except.eq_ok_of_toOption found, of_decide_eq_true lost⟩

end Optimize
end Shakedown
