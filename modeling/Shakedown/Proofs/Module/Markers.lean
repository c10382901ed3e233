import Shakedown.Proofs.Edit.Anchored
import Shakedown.Proofs.Module.Tidiness
import Shakedown.Proofs.Pass.ClassShape
import Shakedown.Proofs.Pass.TopLevelCalls

/-!
# No marker is lost or left over

Markers are recorded before anything is cut or moved. An element that is cut takes its markers along,
whatever else is cut begins in front of the calls in it, and members arrive inside of functions, where
no call is marked. So in the optimized text a marker stands in front of every call that is left, and
nowhere else.
-/

namespace Shakedown

open Node Text Span

namespace HelperImport

theorem helper?_mem {statement : Node} {name : String} (found : helper? statement = some name) :
    name ∈ helperNames := by
  unfold helper? at found
  split at found
  · dsimp only at found
    split at found
    · rename_i listed
      obtain rfl := Option.some.inj found
      exact List.elem_iff.1 listed
    · contradiction
  · contradiction

theorem at_notMem_importText {name : String} (listed : name ∈ helperNames) :
    '@' ∉ (importText name).toList := by
  have all : ∀ name ∈ helperNames, '@' ∉ (importText name).toList := by decide
  exact all name listed

end HelperImport

namespace Optimize

variable {script : Script} {selection : Selection} {place : Nat} {statement : Node}

/-! ## What is inserted -/

theorem at_notMem_imported {helpers : Bool} {text : String}
    (member : text ∈ (imported script helpers).textsAt place) : '@' ∉ text.toList := by
  have recorded := Revision.mem_textsAt.1 member
  unfold imported at recorded
  split at recorded
  · obtain none | ⟨_, -, name, found, removed | inserted⟩ := HelperImport.mem_edits_record recorded
    · contradiction
    · contradiction
    · obtain ⟨-, rfl⟩ := Edit.insert.inj inserted
      exact HelperImport.at_notMem_importText (HelperImport.helper?_mem found)
  · contradiction

/-- Moves insert nothing. -/
theorem textsAt_edits : (edits script selection).textsAt place =
    (prepared script selection).textsAt place := by
  obtain ⟨folded, edits_eq, -, all_folded⟩ := exists_folded script selection
  rw [Revision.textsAt, edits_eq, List.filterMap_append, Revision.textsAt]
  refine List.append_right_eq_self.2 (List.filterMap_eq_nil_iff.2 fun edit listed => ?_)
  obtain ⟨choice, among, rfl⟩ := List.mem_map.1 listed
  exact StaticMember.textAt?_of_moves (all_folded choice among).2.2.1

/-- What is inserted at a place is gone with an element that holds it. Otherwise the marker that the
place lacks stands there, with plain text around it, and none behind it but where the line that names
an interpreter ends. -/
theorem textsAt_edits_cases (asked : selection.metadata) (place : Nat) :
    ((edits script selection).textsAt place = [] ∧
        ∃ cut ∈ (Metadata.cuts script (Framework.symbols script)).elements, cut.holds place) ∨
      (∀ cut ∈ (Metadata.cuts script (Framework.symbols script)).elements,
        cut.holds place = false) ∧
      ∃ front back, (edits script selection).textsAt place = front ++
          (if place ∈ PureCall.unmarked script then [Marker.pure ++ " "] else []) ++ back ∧
        (∀ text ∈ front ++ back, '@' ∉ text.toList) ∧
        ((∀ line, script.program.hashbang = some line → line.stop ≠ place) → back = []) := by
  rw [textsAt_edits, prepared, if_pos asked, scrubbed, Metadata.textsAt_record]
  cases held : (Metadata.cuts script (Framework.symbols script)).elements.any (·.holds place) with
  | true => exact .inl ⟨rfl, List.any_eq_true.1 held⟩
  | false =>
      refine .inr ⟨by simpa using held, ?_⟩
      obtain ⟨front, back, texts_eq, plain, none_behind⟩ :=
        @PureCall.textsAt_record script (imported script selection.helpers) place
          (if selection.helpers then HelperImport.positions script else [])
      refine ⟨front ++ (imported script selection.helpers).textsAt place, back, ?_, ?_, none_behind⟩
      · simpa using texts_eq
      · intro text member
        simp only [List.mem_append] at member plain
        obtain (before | before) | behind := member
        · exact plain text (.inl before)
        · exact at_notMem_imported before
        · exact plain text (.inr behind)

/-! ## Where markers lie -/

theorem exists_statement (listed : place ∈ PureCall.unmarked script) :
    ∃ statement ∈ script.program.body, place ∈ PureCall.starts statement :=
  PureCall.mem_positions.1 (List.mem_filter.1 listed).1

/-- A statement that assigns begins with the name of an object, in front of all that is marked in it. -/
theorem lt_of_assigned {text : List Char} (spaced : statement.IsSpaced text)
    (shaped : statement.IsShaped) {assignment : Metadata.PropertyAssignment}
    (assigned : Metadata.assignment? statement = some assignment)
    (member : place ∈ PureCall.starts statement) : statement.span.start < place := by
  unfold Metadata.assignment? at assigned
  split at assigned
  · rename_i span assignmentSpan property isOptional memberSpan name nameSpan parts value
    have assignment_shaped := shaped.child List.mem_cons_self
    have object_shaped := (assignment_shaped.child List.mem_cons_self).child List.mem_cons_self
    obtain rfl : parts = [] := object_shaped.formed.name rfl
    have start_le := (Span.covers_iff.1 (spaced.fits.within _ List.mem_cons_self)).1
    refine Nat.lt_of_le_of_lt start_le
      (PureCall.lt_of_mem_startsOfList (spaced.child List.mem_cons_self) rfl ?_ ?_)
    · simp [PureCall.starts, PureCall.startsOfList]
    · simpa [PureCall.starts, PureCall.startsOfList] using member
  · contradiction

/-- So does the declaration of a helper begin in front of its value. -/
theorem lt_of_helper {text : List Char} (spaced : statement.IsSpaced text)
    (shaped : statement.IsShaped) (found : (HelperImport.helper? statement).isSome)
    (member : place ∈ PureCall.starts statement) : statement.span.start < place := by
  unfold HelperImport.helper? at found
  split at found
  · have declarator_shaped := shaped.child List.mem_cons_self
    have name_shaped := declarator_shaped.child List.mem_cons_self
    rename_i name nameSpan parts rest
    obtain rfl : parts = [] := name_shaped.formed.name rfl
    have start_le := (Span.covers_iff.1 (spaced.fits.within _ List.mem_cons_self)).1
    refine Nat.lt_of_le_of_lt start_le
      (PureCall.lt_of_mem_startsOfList (spaced.child List.mem_cons_self) rfl ?_ ?_)
    · simp [PureCall.starts, PureCall.startsOfList]
    · simpa [PureCall.starts, PureCall.startsOfList] using member
  · contradiction

section Read

variable {text file : String} (read : Script.read text file = .ok script)

include read

theorem lt_width (listed : place ∈ PureCall.unmarked script) :
    place < width script.text.toList := by
  have row := (Script.isSpaced_of_read read).row
  obtain ⟨statement, in_body, member⟩ := exists_statement listed
  have held := Span.holds_iff.1 (PureCall.holds_of_mem_starts (row.spaced statement in_body) member)
  have := (row.within statement in_body).2
  omega

/-- Markers stand behind the line that names an interpreter. -/
theorem stop_lt_of_hashbang (listed : place ∈ PureCall.unmarked script) {line : Span}
    (line_eq : script.program.hashbang = some line) : line.stop < place := by
  have spaced := Script.isSpaced_of_read read
  obtain ⟨statement, in_body, member⟩ := exists_statement listed
  have held :=
    Span.holds_iff.1 (PureCall.holds_of_mem_starts (spaced.row.spaced statement in_body) member)
  have := spaced.behind line line_eq statement in_body
  omega

/-- A gap begins where a marker stands only if it is that of an element. -/
theorem start_ne_of_free (listed : place ∈ PureCall.unmarked script)
    (free : ∀ cut ∈ (Metadata.cuts script (Framework.symbols script)).elements,
      cut.holds place = false) :
    ∀ gap ∈ Meaning.gaps (edits script selection).edits, gap.start ≠ place := by
  have row := (Script.isSpaced_of_read read).row
  have plain := Script.isPlain_of_read read
  obtain ⟨statement, in_body, member⟩ := exists_statement listed
  obtain ⟨inner, below, place_eq⟩ := (PureCall.mem_starts statement).1 place member
  have gap_held := place_eq ▸ gap_holds_start row in_body below
  -- what begins in the gap of another statement keeps apart
  have start_ne {other : Node} (also_in_body : other ∈ script.program.body) {gap : Span}
      (among : gap ∈ cutsFor script other) (proper : gap.isProper)
      (own : statement = other → gap.start < place) : gap.start ≠ place := by
    by_cases same : statement = other
    · exact Nat.ne_of_lt (own same)
    · rintro rfl
      exact not_isApart_of_holds (holds_start proper) gap_held
        (apart_of_ne row also_in_body in_body (Ne.symm same) among)
  have gap_le {other : Node} (also_in_body : other ∈ script.program.body) :
      (statementGap script.text other.span).start ≤ other.span.start :=
    (covers_iff.1 (gap_covers_span row also_in_body)).1
  intro gap gap_mem
  obtain ⟨⟨edit, recorded, gap_eq⟩, proper⟩ := Meaning.mem_gaps_iff.1 gap_mem
  obtain before | ⟨other, folded⟩ := prepared_or_folded recorded
  · cases prepared_of_mem before with
    | insertion => contradiction
    | @helper other also_in_body found =>
        obtain rfl := Option.some.inj gap_eq
        refine start_ne also_in_body (by simp [cutsFor]) proper ?_
        rintro rfl
        exact lt_of_helper (row.spaced statement in_body) (plain statement in_body).1 found member
    | @statement other _ also_in_body assigned =>
        obtain rfl := Option.some.inj gap_eq
        refine start_ne also_in_body (by simp [cutsFor]) proper ?_
        rintro rfl
        obtain ⟨assignment, assigned⟩ := Option.isSome_iff_exists.1 assigned
        exact Nat.lt_of_le_of_lt (gap_le in_body) (lt_of_assigned (row.spaced statement in_body)
          (plain statement in_body).1 assigned member)
    | @element other cut also_in_body element =>
        obtain rfl := Option.some.inj gap_eq
        rintro rfl
        have held := free cut (Metadata.mem_elements_cuts.2 ⟨other, also_in_body, element⟩)
        rw [holds_start proper] at held
        contradiction
  · obtain ⟨assignment, assigned⟩ := Option.isSome_iff_exists.1 folded.assigned
    obtain ⟨-, also_in_body, moves, -⟩ := folded
    obtain rfl := Option.some.inj (moves.gap?.symm.trans gap_eq)
    refine start_ne also_in_body (by simp [cutsFor]) proper ?_
    rintro rfl
    exact Nat.lt_of_le_of_lt (gap_le in_body) (lt_of_assigned (row.spaced statement in_body)
      (plain statement in_body).1 assigned member)

/-- Members arrive inside of functions, away from all markers. -/
theorem target_ne (listed : place ∈ PureCall.unmarked script)
    {variable_ : StaticMember.ClassVariable} (known : variable_ ∈ StaticMember.classes script) :
    variable_.returnSpan.start ≠ place := by
  have row := (Script.isSpaced_of_read read).row
  obtain ⟨statement, in_body, member⟩ := exists_statement listed
  obtain ⟨declaration, closure, constructorName, isClass, -⟩ :=
    StaticMember.exists_isClass read known
  have spaced := row.spaced declaration isClass.listed
  have surrounds := closure.surrounds_return (spaced.below isClass.isBelow.mem_nodes)
  rw [isClass.returns] at surrounds
  rintro rfl
  obtain rfl | apart := row.eq_or_apart in_body isClass.listed
  · have outside := PureCall.surrounds_of_isDeferred isClass.isBelow rfl spaced member
    exact Bool.false_ne_true (outside.symm.trans surrounds)
  · have held := holds_iff.1 (PureCall.holds_of_mem_starts (row.spaced statement in_body) member)
    have covers := covers_iff.1 (spaced.covers isClass.isBelow.mem_nodes)
    have within := holds_iff.1 (holds_of_surrounds surrounds)
    have covers : declaration.span.start ≤ closure.span.start ∧
      closure.span.stop ≤ declaration.span.stop := covers
    omega

/-! ## All edits -/

theorem marks_edits (asked : selection.metadata) :
    (edits script selection).Marks (PureCall.unmarked script) where
  nested := nested_gaps (Script.isSpaced_of_read read).row
  movesApart := moves_apart (Script.isSpaced_of_read read).row selection
  plain := by
    intro place marked text member
    obtain ⟨none, -⟩ | ⟨-, front, back, texts_eq, plain, -⟩ := textsAt_edits_cases asked place
    · rw [none] at member
      contradiction
    · rw [texts_eq, if_neg marked, List.append_nil] at member
      exact plain text member
  settled := by
    intro place listed
    obtain ⟨none, cut, element, held⟩ | ⟨free, front, back, texts_eq, plain, none_behind⟩ :=
      textsAt_edits_cases asked place
    · refine .inr ⟨none, cut, ?_, held⟩
      obtain ⟨folded, edits_eq, -⟩ := exists_folded script selection
      rw [edits_eq, prepared, if_pos asked]
      exact List.mem_append_left _
        (Metadata.remove_mem_record_of_element element (isProper_of_holds held))
    · obtain rfl := none_behind fun line line_eq =>
        Nat.ne_of_lt (stop_lt_of_hashbang read listed line_eq)
      rw [if_pos listed, List.append_nil] at texts_eq
      refine .inl ⟨⟨front, texts_eq, by simpa using plain⟩, start_ne_of_free read listed free, ?_⟩
      intro body removed suffix member
      obtain before | ⟨statement, -, -, ⟨assignment, variable_, foldable, same⟩, -⟩ :=
        prepared_or_folded member
      · have none_removed := (prepared_of_mem before).removed?_eq_none
        contradiction
      · obtain ⟨-, -, target_eq, -⟩ := Edit.move.inj same
        obtain ⟨-, known, -⟩ := StaticMember.foldable?_eq_some foldable
        exact target_ne read listed known target_eq.symm
  moves := by
    intro body removed target suffix member
    have row := (Script.isSpaced_of_read read).row
    obtain before | ⟨statement, folded⟩ := prepared_or_folded member
    · have none_removed := (prepared_of_mem before).removed?_eq_none
      contradiction
    · obtain ⟨assignment, variable_, assigned, -, edit_eq, framed⟩ := folded.body row
      obtain ⟨rfl, rfl, rfl, rfl⟩ := Edit.move.inj edit_eq
      have held := gap_holds_start row folded.2.1 (Metadata.expression_mem_nodes assigned)
      refine ⟨held, StaticMember.at_notMem_suffix _ _, fun span removed => ?_⟩
      obtain before | ⟨_, -, -, ⟨_, _, -, same⟩, -⟩ := prepared_or_folded removed
      · rw [Bool.eq_false_iff]
        intro surrounds
        obtain apart | ⟨other, also_assigned, start_lt, -⟩ := apart_or_inside row before folded
        · exact not_isApart_of_holds (holds_of_surrounds surrounds) held apart
        · obtain rfl := Option.some.inj (assigned.symm.trans also_assigned)
          have := (surrounds_iff.1 surrounds).1
          omega
      · contradiction

end Read

/-- Whatever text is read, when calls are marked no marker of the optimized text is left over and none
is missing: a marker stands only in front of what is copied from a call on that has none in the
text, and every such call of which the first byte is copied has one. -/
theorem fitsMarkers_of_read {text file : String} (read : Script.read text file = .ok script)
    (asked : selection.metadata) :
    Chunk.FitsMarkers (PureCall.unmarked script) ((edits script selection).chunks text) := by
  obtain rfl := Script.text_of_read read
  exact (marks_edits read asked).fitsMarkers fun place listed => lt_width read listed

/-- A class with a list of two elements, each of which calls something. -/
def decoratedCalls : String :=
  "import{Input}from'@angular/core';var C=(function(){function C(){}return C}());" ++
    "C.decorators=[{type:Input,args:[f()]},{type:g()}];"

/-- The first element goes with its marker, the second one moves with its own. -/
theorem fitsMarkers_of_read_decoratedCalls : ∃ script chunks,
    Script.read decoratedCalls "c.js" = .ok script ∧
    PureCall.unmarked script = [39, 110, 122] ∧
    (edits script ⟨true, true⟩).chunks decoratedCalls = chunks ∧
    chunks =
      [.synthetic "/** PURE_IMPORTS_START _angular_core PURE_IMPORTS_END */\n",
        .copied ⟨0, 39⟩, .synthetic "/*@__PURE__*/ ", .copied ⟨39, 65⟩, .copied ⟨78, 92⟩,
        .copied ⟨116, 122⟩, .synthetic "/*@__PURE__*/ ", .copied ⟨122, 127⟩, .synthetic ";",
        .copied ⟨65, 78⟩] ∧
    Chunk.FitsMarkers [39, 110, 122] chunks := by
  have suits : (Script.read decoratedCalls "c.js").toOption.any fun script =>
      PureCall.unmarked script = [39, 110, 122] ∧
      (edits script ⟨true, true⟩).chunks decoratedCalls =
        [.synthetic "/** PURE_IMPORTS_START _angular_core PURE_IMPORTS_END */\n",
          .copied ⟨0, 39⟩, .synthetic "/*@__PURE__*/ ", .copied ⟨39, 65⟩, .copied ⟨78, 92⟩,
          .copied ⟨116, 122⟩, .synthetic "/*@__PURE__*/ ", .copied ⟨122, 127⟩, .synthetic ";",
          .copied ⟨65, 78⟩] := by
    simp only [edits, PureCall.record, PureCall.unmarked, PureCall.positions_eq_insertionSort]
    decide +kernel
  obtain ⟨script, found, suits⟩ := (Option.any_eq_true _ _).1 suits
  obtain ⟨unmarked_eq, chunks_eq⟩ := of_decide_eq_true suits
  have read : Script.read decoratedCalls "c.js" = .ok script := Except.eq_ok_of_toOption found
  exact ⟨script, _, read, unmarked_eq, rfl, chunks_eq,
    unmarked_eq ▸ fitsMarkers_of_read read rfl⟩

end Optimize
end Shakedown
