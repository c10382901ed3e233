import Shakedown.SourceMap.Segment
import Mathlib.Data.List.Nodup

/-!
# The governing segment

A segment that reaches a place governs it when every other segment that does stands further to the
left. Places are compared in reading order, and reading on from a place never leads back.
-/

namespace Shakedown

/-! ## Reading order -/

namespace Position

theorem eq_iff {left right : Position} :
    left = right ↔ left.line = right.line ∧ left.column = right.column := by
  cases left
  cases right
  simp

theorem before_iff {left right : Position} :
    left.before right = true ↔
      left.line < right.line ∨ left.line = right.line ∧ left.column < right.column := by
  simp [before]

theorem before_trans {first second third : Position} (left : first.before second)
    (right : second.before third) : first.before third := by
  rw [before_iff] at *
  omega

theorem not_before_trans (first second third : Position) (left : !second.before first)
    (right : !third.before second) : !third.before first := by
  rw [Bool.not_eq_true', ← Bool.not_eq_true, before_iff] at *
  omega

theorem not_before_total (first second : Position) :
    !second.before first || !first.before second := by
  rw [Bool.or_eq_true, Bool.not_eq_true', Bool.not_eq_true', ← Bool.not_eq_true,
    ← Bool.not_eq_true, before_iff, before_iff]
  omega

theorem before_step (position : Position) (char : Char) : position.before (position.step char) := by
  have wide := utf16Width_pos char
  rw [before_iff, step]
  split
  · exact .inl (Nat.lt_succ_self _)
  · exact .inr ⟨rfl, by simp only; omega⟩

/-- Every text leads on from where it begins. -/
theorem before_advance (position : Position) {text : List Char} (filled : text ≠ []) :
    position.before (position.advance text) := by
  induction text generalizing position with
  | nil => exact absurd rfl filled
  | cons char rest ih =>
      rw [advance_cons]
      cases rest with
      | nil => exact before_step position char
      | cons next rest =>
          exact before_trans (before_step position char) (ih _ (List.cons_ne_nil _ _))

theorem eq_or_before_advance (position : Position) (text : List Char) :
    position.advance text = position ∨ position.before (position.advance text) := by
  cases text with
  | nil => exact .inl rfl
  | cons char rest => exact .inr (before_advance position (List.cons_ne_nil _ _))

end Position

/-! ## Segments that reach a place -/

namespace Segment

/-- The segment stands on the line of a place and not behind it. -/
def Reaches (segment : Segment) (place : Position) : Prop :=
  segment.generated.line = place.line ∧ segment.generated.column ≤ place.column

/-- The origin of a place that the segment governs. -/
def originAt (segment : Segment) (place : Position) : Option Origin :=
  segment.origin.map fun origin =>
    let offset := place.column - segment.generated.column
    { origin with position := ⟨origin.position.line, origin.position.column + offset⟩ }

theorem not_reaches_of_before {segment : Segment} {place : Position}
    (behind : place.before segment.generated) : ¬ segment.Reaches place := by
  rintro ⟨line_eq, column_le⟩
  rw [Position.before_iff] at behind
  omega

theorem mem_filter_reaches {segments : List Segment} {place : Position} {segment : Segment} :
    segment ∈ segments.filter (fun segment =>
        segment.generated.line == place.line && segment.generated.column ≤ place.column) ↔
      segment ∈ segments ∧ segment.Reaches place := by
  simp [Reaches]

theorem governing?_eq_none_iff {segments : List Segment} {place : Position} :
    governing? segments place = none ↔ ∀ segment ∈ segments, ¬ segment.Reaches place := by
  rw [governing?, lastGreatest?_eq_none_iff, List.eq_nil_iff_forall_not_mem]
  simp only [mem_filter_reaches, not_and]

theorem reaches_of_governing? {segments : List Segment} {place : Position} {segment : Segment}
    (governs : governing? segments place = some segment) :
    segment ∈ segments ∧ segment.Reaches place ∧
      ∀ other ∈ segments, other.Reaches place →
        other.generated.column ≤ segment.generated.column := by
  obtain ⟨member, greatest⟩ := greatest_of_lastGreatest? governs
  obtain ⟨member, reaches⟩ := mem_filter_reaches.1 member
  exact ⟨member, reaches, fun other other_mem other_reaches =>
    greatest other (mem_filter_reaches.2 ⟨other_mem, other_reaches⟩)⟩

theorem lookup_of_governing? {segments : List Segment} {place : Position} {segment : Segment}
    (governs : governing? segments place = some segment) :
    lookup segments place = segment.originAt place := by
  rw [lookup, governs]
  rfl

theorem lookup_of_ungoverned {segments : List Segment} {place : Position}
    (ungoverned : governing? segments place = none) : lookup segments place = none := by
  rw [lookup, ungoverned]

theorem nodup_of_pairwise_before {segments : List Segment}
    (ordered : segments.Pairwise fun earlier later =>
      earlier.generated.before later.generated) : (segments.map Segment.generated).Nodup := by
  refine List.pairwise_map.2 (List.Pairwise.imp (fun {earlier later} before same => ?_) ordered)
  rw [same, Position.before_iff] at before
  omega

/-! ## The one segment that governs -/

/-- Of these segments, `base` is the one that governs the place. -/
structure Governs (segments : List Segment) (base : Segment) (place : Position) : Prop where
  /-- The segment is one of them. -/
  member : base ∈ segments
  /-- It stands on the line of the place and not behind it. -/
  reaches : base.Reaches place
  /-- Every other segment that does so stands further to the left. -/
  closest : ∀ other ∈ segments, other.Reaches place →
    other = base ∨ other.generated.column < base.generated.column

namespace Governs

variable {segments : List Segment} {base : Segment} {place : Position}

theorem governing?_eq (governs : Governs segments base place) :
    governing? segments place = some base := by
  cases found : governing? segments place with
  | none => exact absurd governs.reaches (governing?_eq_none_iff.1 found base governs.member)
  | some other =>
      obtain ⟨other_mem, other_reaches, greatest⟩ := reaches_of_governing? found
      rcases governs.closest other other_mem other_reaches with rfl | further
      · rfl
      · exact absurd (greatest base governs.member governs.reaches) (Nat.not_le.2 further)

theorem lookup_eq (governs : Governs segments base place) :
    lookup segments place = base.originAt place :=
  lookup_of_governing? governs.governing?_eq

theorem of_governing? (distinct : (segments.map Segment.generated).Nodup)
    (found : governing? segments place = some base) : Governs segments base place := by
  obtain ⟨member, reaches, greatest⟩ := reaches_of_governing? found
  refine ⟨member, reaches, ?_⟩
  intro other other_mem other_reaches
  rcases Nat.lt_or_eq_of_le (greatest other other_mem other_reaches) with further | same_column
  · exact .inr further
  · have same_place : other.generated = base.generated :=
      Position.eq_iff.2 ⟨other_reaches.1.trans reaches.1.symm, same_column⟩
    exact .inl (List.inj_on_of_nodup_map distinct other_mem member same_place)

theorem of_mem_iff {others : List Segment} (governs : Governs segments base place)
    (same : ∀ segment, segment ∈ others ↔ segment ∈ segments) : Governs others base place :=
  ⟨(same base).2 governs.member, governs.reaches,
    fun other member => governs.closest other ((same other).1 member)⟩

/-- Segments ahead in reading order take no place from the governing one. -/
theorem append_left (front : List Segment) (governs : Governs segments base place)
    (ahead : ∀ other ∈ front, other.generated.before base.generated) :
    Governs (front ++ segments) base place := by
  refine ⟨List.mem_append_right _ governs.member, governs.reaches, ?_⟩
  intro other member reaches
  rcases List.mem_append.1 member with member | member
  · have same_line : other.generated.line = base.generated.line :=
      reaches.1.trans governs.reaches.1.symm
    have before := ahead other member
    rw [Position.before_iff] at before
    exact .inr (by omega)
  · exact governs.closest other member reaches

theorem append_right (back : List Segment) (governs : Governs segments base place)
    (behind : ∀ other ∈ back, ¬ other.Reaches place) :
    Governs (segments ++ back) base place := by
  refine ⟨List.mem_append_left _ governs.member, governs.reaches, ?_⟩
  intro other member reaches
  rcases List.mem_append.1 member with member | member
  · exact governs.closest other member reaches
  · exact absurd reaches (behind other member)

theorem cons {first : Segment} (governs : Governs segments base place)
    (ahead : first.generated.before base.generated) : Governs (first :: segments) base place :=
  governs.append_left [first] (by simpa using ahead)

theorem of_cons {first : Segment} (governs : Governs (first :: segments) base place)
    (member : base ∈ segments) : Governs segments base place :=
  ⟨member, governs.reaches, fun other inner => governs.closest other (List.mem_cons_of_mem _ inner)⟩

end Governs
end Segment
end Shakedown
