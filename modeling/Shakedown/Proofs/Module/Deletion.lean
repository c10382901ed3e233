import Shakedown.Proofs.Edit.Occurrence
import Shakedown.Proofs.Module.Tidiness

/-!
# Dropping metadata alone only deletes

Without the other passes nothing is inserted and nothing moves. Every statement is left out as a
whole or stays in its place, with elements of its lists left out. That is said of the text: what is
left of it need not be read as the statements that are left, for a statement may have ended only
because the next line began with the one that is cut.
-/

namespace Shakedown
namespace Optimize

open Node Text Span

variable {script : Script} {edit : Edit} {statement : Node}

/-- What dropping metadata records on its own. -/
def deletion (script : Script) : Revision :=
  Metadata.record (Metadata.cuts script (Framework.symbols script)) Revision.empty

/-- The statement is cut as a whole. -/
def IsDropped (script : Script) (statement : Node) : Prop :=
  statementGap script.text statement.span ∈
    (Metadata.cuts script (Framework.symbols script)).statements

instance (script : Script) (statement : Node) : Decidable (IsDropped script statement) :=
  inferInstanceAs (Decidable (_ ∈ _))

/-- What is left of a script without its metadata. -/
structure Deletes (script : Script) (result : List Char) : Prop where
  /-- The text without what the cuts cover. -/
  result_eq : result =
    Meaning.read (Meaning.gaps (deletion script).edits) (fun _ => []) 0 script.text.toList
  /-- A statement that is dropped leaves nothing in its place. -/
  dropped : ∀ statement ∈ script.program.body, IsDropped script statement →
    ∀ offset, statement.span.holds offset →
      (Meaning.gaps (deletion script).edits).any (·.holds offset)
  /-- Any other statement stays. -/
  stays : ∀ statement ∈ script.program.body, ¬IsDropped script statement →
    Meaning.StaysOnce script.text.toList (deletion script).edits statement.span result
  /-- Of a statement that stays the elements of lists that are cut are left out, and nothing else. -/
  elements : ∀ statement ∈ script.program.body, ¬IsDropped script statement → ∀ cut,
    cut ∈ Meaning.removals (deletion script).edits statement.span ↔
      cut ∈ Metadata.elementsOf script (Framework.symbols script) statement ∧ cut.isProper

/-- Every edit cuts a statement or elements of its lists. -/
theorem mem_edits_deletion (member : edit ∈ (deletion script).edits) :
    ∃ statement ∈ script.program.body,
      (IsDropped script statement ∧ edit = .remove (statementGap script.text statement.span)) ∨
        ∃ cut ∈ Metadata.elementsOf script (Framework.symbols script) statement,
          edit = .remove cut := by
  obtain none | ⟨gap, whole, rfl⟩ | ⟨cut, element, rfl⟩ := Metadata.mem_edits_record member
  · contradiction
  · obtain ⟨statement, listed, -, rfl⟩ := Metadata.mem_statements_cuts whole
    exact ⟨statement, listed, .inl ⟨whole, rfl⟩⟩
  · obtain ⟨statement, listed, held⟩ := Metadata.mem_elements_cuts.1 element
    exact ⟨statement, listed, .inr ⟨cut, held, rfl⟩⟩

/-- Every edit is a removal for the sake of a statement. -/
theorem exists_removal (member : edit ∈ (deletion script).edits) :
    ∃ cut, edit = .remove cut ∧ ∃ statement ∈ script.program.body,
      cut ∈ cutsFor script statement := by
  obtain ⟨statement, listed, ⟨-, rfl⟩ | ⟨cut, element, rfl⟩⟩ := mem_edits_deletion member
  · exact ⟨_, rfl, statement, listed, by simp [cutsFor]⟩
  · exact ⟨cut, rfl, statement, listed, by simp [cutsFor, element]⟩

theorem put_deletion (script : Script) (source : List Char) :
    Meaning.put source (deletion script).edits = fun _ => [] := by
  funext offset
  refine List.flatMap_eq_nil_iff.2 fun edit member => ?_
  obtain ⟨cut, rfl, -⟩ := exists_removal member
  rfl

section Spaced

variable {first last : Nat} (row : InRow script.text.toList first last script.program.body)

include row

theorem tidy_deletion : Meaning.Tidy script.text.toList (deletion script).edits := by
  have tame : Tame script.text.toList ⟨0, width script.text.toList⟩ (deletion script).cuts := by
    refine (tame_edits row).of_subset fun cut member => ?_
    obtain ⟨edit, recorded, gap⟩ := List.mem_filterMap.1 member
    obtain ⟨cut, rfl, statement, listed, held⟩ := exists_removal recorded
    obtain rfl := Option.some.inj gap
    exact List.mem_flatMap.2 ⟨statement, listed, held⟩
  have no_move : ∀ body removed target suffix,
      .move body removed target suffix ∉ (deletion script).edits := by
    intro body removed target suffix member
    obtain ⟨cut, same, -⟩ := exists_removal member
    contradiction
  have none_moved : (deletion script).edits.filterMap Edit.removed? = [] := by
    refine List.filterMap_eq_nil_iff.2 fun edit member => ?_
    obtain ⟨cut, rfl, -⟩ := exists_removal member
    rfl
  exact
    { boundaries := by
        intro edit member
        obtain ⟨cut, rfl, -⟩ := exists_removal member
        simpa [Edit.offsets] using tame.boundaries cut (List.mem_filterMap.2 ⟨_, member, rfl⟩)
      nested := fun first first_gap second second_gap =>
        nests_iff.1 (tame.nested first (List.mem_filter.1 first_gap).1 second
          (List.mem_filter.1 second_gap).1)
      movesApart := none_moved ▸ .nil
      bodies := fun _ _ _ _ member => absurd member (no_move _ _ _ _)
      removalsApart := fun _ _ => .inl (by simp [none_moved])
      targets := fun _ _ _ _ member => absurd member (no_move _ _ _ _) }

/-- What is left out near a statement is the statement or elements of its lists. -/
theorem near_deletion (listed : statement ∈ script.program.body) {gap : Span}
    (member : .remove gap ∈ (deletion script).edits) :
    gap.isApart statement.span ∨
      (IsDropped script statement ∧ gap = statementGap script.text statement.span) ∨
      gap ∈ Metadata.elementsOf script (Framework.symbols script) statement := by
  obtain ⟨other, also_listed, shape⟩ := mem_edits_deletion member
  by_cases same : other = statement
  · subst same
    obtain ⟨dropped, gap_eq⟩ | ⟨cut, element, gap_eq⟩ := shape
    · obtain rfl := Edit.remove.inj gap_eq
      exact .inr (.inl ⟨dropped, rfl⟩)
    · obtain rfl := Edit.remove.inj gap_eq
      exact .inr (.inr element)
  · have among : gap ∈ cutsFor script other := by
      obtain ⟨-, gap_eq⟩ | ⟨cut, element, gap_eq⟩ := shape
      · obtain rfl := Edit.remove.inj gap_eq
        simp [cutsFor]
      · obtain rfl := Edit.remove.inj gap_eq
        simp [cutsFor, element]
    exact .inl (isApart_of_covers (apart_of_ne row also_listed listed same among)
      (gap_covers_span row listed))

theorem removals_deletion (listed : statement ∈ script.program.body)
    (kept : ¬IsDropped script statement) (cut : Span) :
    cut ∈ Meaning.removals (deletion script).edits statement.span ↔
      cut ∈ Metadata.elementsOf script (Framework.symbols script) statement ∧ cut.isProper := by
  rw [Meaning.mem_removals_iff]
  constructor
  · rintro ⟨removed, proper, inside⟩
    obtain apart | ⟨dropped, -⟩ | element := near_deletion row listed removed
    · have held := holds_start proper
      exact absurd apart (not_isApart_of_holds held (holds_of_covers inside held))
    · exact absurd dropped kept
    · exact ⟨element, proper⟩
  · rintro ⟨element, proper⟩
    have within := (Metadata.tame_elementsOf (row.spaced statement listed)).within cut element
    have among : cut ∈ (Metadata.cuts script (Framework.symbols script)).elements :=
      Metadata.mem_elements_cuts.2 ⟨statement, listed, element⟩
    exact ⟨Metadata.remove_mem_record_of_element among proper, proper, within⟩

theorem isClear_deletion (listed : statement ∈ script.program.body)
    (kept : ¬IsDropped script statement) :
    Meaning.IsClear (deletion script).edits statement.span where
  gaps := by
    intro gap gap_mem
    obtain ⟨⟨edit, member, gap_eq⟩, proper⟩ := Meaning.mem_gaps_iff.1 gap_mem
    obtain ⟨cut, rfl, -⟩ := exists_removal member
    obtain rfl := Option.some.inj gap_eq
    obtain apart | ⟨dropped, -⟩ | element := near_deletion row listed member
    · exact .inl apart
    · exact absurd dropped kept
    · exact .inr ((removals_deletion row listed kept cut).2 ⟨element, proper⟩)
  moves := by
    intro body removed target suffix member
    obtain ⟨cut, same, -⟩ := exists_removal member
    contradiction

theorem deletes_text : Deletes script (Meaning.text script.text.toList (deletion script).edits) where
  result_eq := by rw [Meaning.text, put_deletion, List.append_nil]
  dropped := by
    intro statement listed dropped offset held
    have gap_held : (statementGap script.text statement.span).holds offset :=
      holds_of_covers (gap_covers_span row listed) held
    have proper := isProper_of_holds gap_held
    exact List.any_eq_true.2 ⟨_, Meaning.mem_gaps_iff.2
      ⟨⟨_, Metadata.remove_mem_record_of_statement dropped proper, rfl⟩, proper⟩, gap_held⟩
  stays := by
    intro statement listed kept
    have framed := (row.spaced statement listed).fits.framed
    exact (isClear_deletion row listed kept).staysOnce (tidy_deletion row) framed.begins.isBoundary
      framed.ends.isBoundary (Nat.le_of_lt framed.proper)
  elements := fun statement listed kept => removals_deletion row listed kept

end Spaced

/-- A statement that ends with its line, and metadata on the next one. -/
def unfinished : String :=
  "a=b\nC.ctorParameters=function(){};\n(f)();"

end Optimize
end Shakedown
