import Shakedown.Proofs.Edit.Marked
import Shakedown.Proofs.Edit.Rendering

/-!
# Markers stay with what they mark

A marker is inserted where nothing else arrives behind it and no gap begins, or it is taken away with
the removal that holds its place. Then a walk that never stands inside a gap puts out each marker
right in front of what it copies from the place, and copies nothing from a place whose marker is
gone. It makes no difference how gaps nest, nor whether a body is lost together with its target.
-/

namespace Shakedown

namespace Layout

/-- No gap in force is around the position. -/
def Clear (layout : Layout) (active : List Nat) (position : Nat) : Prop :=
  ∀ gap ∈ layout.gaps, inForce active gap → gap.span.surrounds position = false

variable {layout : Layout} {active : List Nat} {place position stop : Nat} {gap : Gap}

theorem isProper_of_inForce (in_force : inForce active gap) : gap.span.isProper :=
  (Bool.and_eq_true _ _ ▸ in_force).1

theorem inForce_removal {span : Span} (held : span.holds place) :
    inForce active ⟨span, none⟩ := by
  simp [inForce, Span.isProper_of_holds held]

namespace Clear

/-- Where no gap begins at a clear position, none in force is met before the next place. -/
theorem stop_le (clear : layout.Clear active position)
    (found : layout.gapAt? active position = none) (ahead : position < stop)
    (gap_mem : gap ∈ layout.gaps) (in_force : inForce active gap)
    (before : gap.span.start < layout.nextPlace position stop) : gap.span.stop ≤ position := by
  obtain ⟨-, -, -, still⟩ := nextPlace_spec layout ahead
  rcases Nat.lt_trichotomy gap.span.start position with earlier | here | later
  · have around := clear gap gap_mem in_force
    simp only [Span.surrounds, Bool.and_eq_false_iff, decide_eq_false_iff_not] at around
    omega
  · rw [gapAt?_eq_none_iff.1 found gap gap_mem here] at in_force
    contradiction
  · exact absurd rfl ((still _ later before).2 gap gap_mem)

theorem nextPlace (clear : layout.Clear active position)
    (found : layout.gapAt? active position = none) (ahead : position < stop) :
    layout.Clear active (layout.nextPlace position stop) := by
  obtain ⟨behind, -⟩ := nextPlace_spec layout ahead
  intro gap gap_mem in_force
  rw [Bool.eq_false_iff]
  intro surrounds
  rw [Span.surrounds_iff] at surrounds
  have := clear.stop_le found ahead gap_mem in_force surrounds.1
  omega

end Clear

end Layout

namespace Revision

open Layout Meaning Chunk

/-- The marker of the place is inserted there behind plain text, and nothing else happens there. -/
structure IsAlive (revision : Revision) (place : Nat) : Prop where
  /-- The marker comes last. -/
  texts : ∃ texts : List String, revision.textsAt place = texts ++ [Marker.pure ++ " "] ∧
    ∀ text ∈ texts, '@' ∉ text.toList
  /-- What begins at the place stays. -/
  stays : ∀ cut ∈ gaps revision.edits, cut.start ≠ place
  /-- No body arrives at the place. -/
  still : ∀ body removed suffix, .move body removed place suffix ∉ revision.edits

/-- The place is removed with all that was inserted there. -/
structure IsGone (revision : Revision) (place : Nat) : Prop where
  /-- Nothing is inserted at the place. -/
  unmarked : revision.textsAt place = []
  /-- A removal holds the place. -/
  removed : ∃ span, .remove span ∈ revision.edits ∧ span.holds place

/-- The edits put markers at the places, unless they remove them, and nowhere else. -/
structure Marks (revision : Revision) (places : List Nat) : Prop where
  /-- Gaps are apart or one inside the other. -/
  nested : ∀ first ∈ gaps revision.edits, ∀ second ∈ gaps revision.edits,
    first.isApart second ∨ first.covers second ∨ second.covers first
  /-- The ranges that moves leave out are apart. -/
  movesApart : revision.moved.Pairwise fun first second => first.isApart second
  /-- At other places plain text is inserted. -/
  plain : ∀ place ∉ places, ∀ text ∈ revision.textsAt place, '@' ∉ text.toList
  /-- Every place has its marker or is removed. -/
  settled : ∀ place ∈ places, revision.IsAlive place ∨ revision.IsGone place
  /-- A body begins in what its move leaves out, at an offset that no removal surrounds, and plain
  text goes behind it. -/
  moves : ∀ body removed target suffix, .move body removed target suffix ∈ revision.edits →
    removed.holds body.start ∧ '@' ∉ suffix.toList ∧
      ∀ span, .remove span ∈ revision.edits → span.surrounds body.start = false

variable {revision : Revision} {places : List Nat} {active : List Nat}
  {place position stop : Nat} {renderBody : Move → List Chunk} {gap : Gap} {move : Move}

theorem mem_gaps (gap_mem : gap ∈ (ofEdits revision.edits).gaps) (proper : gap.span.isProper) :
    gap.span ∈ gaps revision.edits := by
  refine mem_gaps_iff_inForce.2 ⟨gap, gap_mem, rfl, ?_⟩
  cases move_eq : gap.move <;> simp [inForce, proper, move_eq]

/-- A marker that is put out stands in front of what is copied from its place. -/
theorem IsAlive.emit_append {rest : List Chunk} (alive : revision.IsAlive place)
    (listed : place ∈ places) (ahead : place < stop)
    (only : ∀ other ∈ places, (⟨place, stop⟩ : Span).holds other → other = place)
    (marked : IsMarked places rest) :
    IsMarked places ((ofEdits revision.edits).emit renderBody active place ++
      .copied ⟨place, stop⟩ :: rest) := by
  obtain ⟨texts, texts_eq, plain⟩ := alive.texts
  have emit_eq : (ofEdits revision.edits).emit renderBody active place =
      texts.map .synthetic ++ [.synthetic ("" ++ (Marker.pure ++ " "))] := by
    rw [emit, arrivalsAt_ofEdits alive.still, ← textsAt, texts_eq, String.empty_append,
      List.flatMap_map, List.flatMap_append, ← List.flatMap_singleton' (texts.map _),
      List.flatMap_map]
    rfl
  have plain_marked : IsMarked places (texts.map .synthetic) := by
    clear emit_eq texts_eq
    induction texts with
    | nil => exact .nil
    | cons text texts ih =>
        obtain ⟨first, others⟩ := List.forall_mem_cons.1 plain
        exact .plain first (ih others)
  rw [emit_eq, List.append_assoc]
  exact plain_marked.append (.marker (by simp) listed ahead only marked)

namespace Marks

/-! ## What a walk meets -/

/-- Behind the longest gap that begins at a clear position it is clear again. -/
theorem clear_behind (marks : revision.Marks places)
    (clear : (ofEdits revision.edits).Clear active position)
    (found : (ofEdits revision.edits).gapAt? active position = some gap) :
    (ofEdits revision.edits).Clear active gap.span.stop := by
  obtain ⟨gap_mem, start_eq, in_force, longest⟩ := longest_of_gapAt? found
  have proper := isProper_of_inForce in_force
  intro other other_mem other_force
  rw [Bool.eq_false_iff]
  intro surrounds
  rw [Span.surrounds_iff] at surrounds
  rcases marks.nested _ (mem_gaps gap_mem proper) _
    (mem_gaps other_mem (isProper_of_inForce other_force)) with apart | inside | outside
  · rw [Span.isProper_iff] at proper
    rw [Span.isApart_iff] at apart
    omega
  · have := (Span.covers_iff.1 inside).2
    omega
  · obtain ⟨start_le, -⟩ := Span.covers_iff.1 outside
    rcases Nat.lt_or_eq_of_le start_le with earlier | same_start
    · rw [Span.isProper_iff] at proper
      have around : other.span.surrounds position := Span.surrounds_iff.2 (by omega)
      rw [clear other other_mem other_force] at around
      contradiction
    · have := longest other other_mem (by omega) other_force
      omega

/-- What is copied holds none of the places, but for the position itself when its marker is there. -/
theorem eq_of_holds (marks : revision.Marks places)
    (clear : (ofEdits revision.edits).Clear active position)
    (found : (ofEdits revision.edits).gapAt? active position = none) (ahead : position < stop)
    (listed : place ∈ places)
    (held : (⟨position, (ofEdits revision.edits).nextPlace position stop⟩ : Span).holds place) :
    place = position ∧ revision.IsAlive place := by
  obtain ⟨position_le, before⟩ :
      position ≤ place ∧ place < (ofEdits revision.edits).nextPlace position stop :=
    Span.holds_iff.1 held
  obtain ⟨-, -, -, still⟩ := nextPlace_spec (ofEdits revision.edits) ahead
  obtain alive | gone := marks.settled place listed
  · rcases Nat.lt_or_eq_of_le position_le with behind | same
    · obtain ⟨texts, texts_eq, -⟩ := alive.texts
      have none_arrives := (still place behind before).1
      rw [arrivalsAt_ofEdits alive.still, ← textsAt, texts_eq] at none_arrives
      simp at none_arrives
    · exact ⟨same.symm, alive⟩
  · obtain ⟨span, removed, span_held⟩ := gone.removed
    have in_force : inForce active ⟨span, none⟩ := inForce_removal span_held
    obtain ⟨start_le, before_stop⟩ := Span.holds_iff.1 span_held
    have stop_le : span.stop ≤ position := clear.stop_le found ahead (removal_mem_gaps.2 removed)
      in_force (Nat.lt_of_le_of_lt start_le before)
    omega

/-- While the body of a move is rendered, its start is clear. -/
theorem clear_body (marks : revision.Marks places) (listed : move.IsFrom revision.edits) :
    (ofEdits revision.edits).Clear (move.index :: active) move.body.start := by
  obtain ⟨held, -, free⟩ := marks.moves _ _ _ _ listed.mem
  rintro ⟨span, taken⟩ gap_mem in_force
  cases taken with
  | none => exact free span (removal_mem_gaps.1 gap_mem)
  | some other =>
      obtain ⟨rfl, also_listed⟩ := move_mem_gaps.1 gap_mem
      rw [Bool.eq_false_iff]
      intro surrounds
      obtain rfl := listed.eq_of_holds marks.movesApart also_listed held
        (Span.holds_of_surrounds surrounds)
      simp [inForce] at in_force

/-! ## What a walk puts out -/

/-- At a place without a marker plain text and bodies are put out. -/
theorem emit (marks : revision.Marks places)
    (rendered : ∀ move : Move, move.IsFrom revision.edits → IsMarked places (renderBody move))
    (plain : ∀ text ∈ revision.textsAt place, '@' ∉ text.toList) :
    IsMarked places ((ofEdits revision.edits).emit renderBody active place) := by
  refine IsMarked.flatMap fun arrival member => ?_
  rw [mem_arrivalsAt] at member
  cases arrival with
  | text text =>
      exact .plain (plain text (mem_textsAt.2 (text_mem_arrivals.1 member))) .nil
  | moved move =>
      obtain ⟨-, listed⟩ := moved_mem_arrivals.1 member
      dsimp only
      split
      · exact .nil
      · exact (rendered move listed).append (.plain (marks.moves _ _ _ _ listed.mem).2.1 .nil)

/-- A walk from a clear position on leaves every marker with what it marks. -/
theorem walk (marks : revision.Marks places)
    (rendered : ∀ move : Move, move.IsFrom revision.edits → IsMarked places (renderBody move))
    {includeStop : Bool} (finish : includeStop → ∀ place ∈ places, place < stop) {rounds : Nat}
    (clear : position < stop → (ofEdits revision.edits).Clear active position) :
    IsMarked places ((ofEdits revision.edits).walk
      ((ofEdits revision.edits).emit renderBody active) active includeStop stop rounds position) := by
  -- Each round goes on at a position that is again clear, unless the range ends there.
  induction rounds generalizing position with
  | zero => exact .nil
  | succ rounds ih =>
      rw [Layout.walk]
      rcases Nat.lt_or_ge position stop with ahead | done
      · have not_done : ¬stop ≤ position := Nat.not_le.2 ahead
        have clear := clear ahead
        simp only [ahead, not_done, decide_true, Bool.true_or, Bool.true_and, if_false]
        cases found : (ofEdits revision.edits).gapAt? active position with
        | none =>
            obtain ⟨behind, -⟩ := nextPlace_spec (ofEdits revision.edits) ahead
            have only {place : Nat} := @eq_of_holds _ _ _ place _ _ marks clear found ahead
            have onward := @ih ((ofEdits revision.edits).nextPlace position stop) fun _ =>
              clear.nextPlace found ahead
            simp only [travels, Option.any_none, Bool.not_false, if_true]
            by_cases listed : position ∈ places
            · have held : Span.holds ⟨position, _⟩ position :=
                Span.holds_iff.2 ⟨Nat.le_refl _, behind⟩
              exact (only listed held).2.emit_append listed behind
                (fun other among held => (only among held).1) onward
            · refine (marks.emit rendered (marks.plain position listed)).append
                (.copied (Span.isProper_iff.2 behind) (fun place among => ?_) onward)
              rw [Bool.eq_false_iff]
              intro held
              exact listed ((only among held).1 ▸ among)
        | some gap =>
            obtain ⟨gap_mem, start_eq, in_force, -⟩ := longest_of_gapAt? found
            have plain : ∀ text ∈ revision.textsAt position, '@' ∉ text.toList := by
              by_cases listed : position ∈ places
              · obtain alive | gone := marks.settled position listed
                · have gap_listed := mem_gaps gap_mem (isProper_of_inForce in_force)
                  exact absurd start_eq (alive.stays _ gap_listed)
                · simp [gone.unmarked]
              · exact marks.plain position listed
            have here : IsMarked places (if !travels (some gap) position then
                (ofEdits revision.edits).emit renderBody active position else []) := by
              split
              · exact marks.emit rendered plain
              · exact .nil
            have onward := @ih (min gap.span.stop stop) fun before => by
              rw [Nat.min_eq_left (by omega)]
              exact marks.clear_behind clear found
            dsimp only
            split
            · exact here
            · exact here.append onward
      · have not_ahead : ¬position < stop := Nat.not_lt.2 done
        simp only [not_ahead, done, decide_false, Bool.false_or, if_true]
        split
        · rename_i emitted
          have included : includeStop := (Bool.and_eq_true _ _ ▸ emitted).1
          refine marks.emit rendered (marks.plain position fun listed => ?_)
          exact not_ahead (finish included position listed)
        · exact .nil

/-- However deep bodies nest, every marker in the chunks of a range stays with what it marks. -/
theorem chunksOf (marks : revision.Marks places) (depth : Nat) {span : Span}
    {includeStop : Bool} (finish : includeStop → ∀ place ∈ places, place < span.stop)
    (clear : (ofEdits revision.edits).Clear active span.start) :
    IsMarked places ((ofEdits revision.edits).chunksOf depth active span includeStop) := by
  induction depth generalizing active span includeStop with
  | zero => exact .nil
  | succ depth ih =>
      rw [Layout.chunksOf]
      exact marks.walk (fun move listed => ih (by simp) (marks.clear_body listed)) finish
        fun _ => clear

/-- The merged chunks have their markers where they belong. -/
theorem fitsMarkers {source : String} (marks : revision.Marks places)
    (inside : ∀ place ∈ places, place < Text.width source.toList) :
    FitsMarkers places (revision.chunks source) := by
  refine (marks.chunksOf _ (fun _ => inside) fun gap _ _ => ?_).merge.fitsMarkers
  simp [Span.surrounds]

end Marks

end Revision
end Shakedown
