import Shakedown.Proofs.Edit.Meaning
import Shakedown.Proofs.Edit.Merge

/-!
# A walk reads

Walking along a range by gaps and stretches gives the same text as reading it character by
character. The walk never stands inside a gap: it steps over the longest one that begins where it
stands, and every gap around the place where that one ends would be around its start as well.
-/

namespace Shakedown
namespace Layout

/-! ## The gap at a place -/

theorem gapAt?_eq_none_iff {layout : Layout} {active : List Nat} {place : Nat} :
    layout.gapAt? active place = none ↔
      ∀ gap ∈ layout.gaps, gap.span.start = place → inForce active gap = false := by
  simp [gapAt?, List.filter_eq_nil_iff]

theorem longest_of_gapAt? {layout : Layout} {active : List Nat} {place : Nat} {gap : Gap}
    (found : layout.gapAt? active place = some gap) :
    gap ∈ layout.gaps ∧ gap.span.start = place ∧ inForce active gap = true ∧
      ∀ other ∈ layout.gaps, other.span.start = place → inForce active other = true →
        other.span.stop ≤ gap.span.stop := by
  obtain ⟨member, longest⟩ := greatest_of_lastGreatest? found
  simp only [List.mem_filter, Bool.and_eq_true, beq_iff_eq] at member longest
  obtain ⟨gap_mem, start_eq, in_force⟩ := member
  exact ⟨gap_mem, start_eq, in_force, fun other other_mem other_start other_force =>
    longest other ⟨other_mem, other_start, other_force⟩⟩

/-! ## The next place -/

theorem foldl_min_le (places : List Nat) (stop : Nat) :
    places.foldl min stop ≤ stop ∧ (∀ place ∈ places, places.foldl min stop ≤ place) ∧
      (places.foldl min stop = stop ∨ places.foldl min stop ∈ places) := by
  induction places generalizing stop with
  | nil => simp
  | cons first places ih =>
      obtain ⟨le_min, le_places, attained⟩ := ih (min stop first)
      rw [List.foldl_cons]
      refine ⟨Nat.le_trans le_min (Nat.min_le_left _ _), ?_, ?_⟩
      · intro place member
        rcases List.mem_cons.1 member with rfl | member
        · exact Nat.le_trans le_min (Nat.min_le_right _ _)
        · exact le_places place member
      · rcases attained with same | member
        · rw [same]
          rcases Nat.le_total stop first with le | le
          · exact .inl (Nat.min_eq_left le)
          · exact .inr (by simp [Nat.min_eq_right le])
        · exact .inr (List.mem_cons_of_mem _ member)

/-- Nothing happens strictly before the next place, which is the end of the range or a place where
something does. -/
theorem nextPlace_spec (layout : Layout) {position stop : Nat} (ahead : position < stop) :
    position < layout.nextPlace position stop ∧ layout.nextPlace position stop ≤ stop ∧
      (layout.nextPlace position stop = stop ∨
        (∃ arrival ∈ layout.arrivals, arrival.1 = layout.nextPlace position stop) ∨
        ∃ gap ∈ layout.gaps, gap.span.start = layout.nextPlace position stop) ∧
      ∀ place, position < place → place < layout.nextPlace position stop →
        layout.arrivalsAt place = [] ∧ ∀ gap ∈ layout.gaps, gap.span.start ≠ place := by
  have spec := foldl_min_le
    ((layout.arrivals.map (·.1) ++ layout.gaps.map (·.span.start)).filter (position < ·)) stop
  have next_eq : layout.nextPlace position stop =
      ((layout.arrivals.map (·.1) ++ layout.gaps.map (·.span.start)).filter
        (position < ·)).foldl min stop := rfl
  rw [← next_eq] at spec
  obtain ⟨le_stop, le_places, attained⟩ := spec
  simp only [List.mem_filter, List.mem_append, List.mem_map, decide_eq_true_eq]
    at le_places attained
  refine ⟨?_, le_stop, ?_, ?_⟩
  · rcases attained with same | ⟨-, behind⟩
    · rwa [same]
    · exact behind
  · exact attained.imp_right And.left
  · intro place behind before
    constructor
    · rw [arrivalsAt, List.map_eq_nil_iff, List.filter_eq_nil_iff]
      intro arrival member same
      have := le_places place ⟨.inl ⟨arrival, member, by simpa using same⟩, behind⟩
      omega
    · intro gap member same
      have := le_places place ⟨.inr ⟨gap, member, same⟩, behind⟩
      omega

/-! ## One range -/

/-- Every place of the layout is a boundary of the source. -/
structure Bounded (layout : Layout) (source : List Char) : Prop where
  /-- Things appear at boundaries. -/
  arrivals : ∀ arrival ∈ layout.arrivals, Text.IsBoundary source arrival.1
  /-- Gaps begin and end at boundaries. -/
  gaps : ∀ gap ∈ layout.gaps,
    Text.IsBoundary source gap.span.start ∧ Text.IsBoundary source gap.span.stop

/-- The range from `start` to `stop` is to be walked as it is read with the gaps `gaps` and with
`put` at each offset. -/
structure Stage (layout : Layout) (source : String) (active : List Nat)
    (emit : Nat → List Chunk) (gaps : List Span) (put : Nat → List Char)
    (start stop : Nat) : Prop where
  /-- The layout fits the source. -/
  bounded : layout.Bounded source.toList
  /-- The range ends at a boundary. -/
  boundary : Text.IsBoundary source.toList stop
  /-- Gaps lie in the range and hold something. -/
  within : ∀ span ∈ gaps, start ≤ span.start ∧ span.start < span.stop ∧ span.stop ≤ stop
  /-- Gaps are apart or one inside the other. -/
  nested : ∀ first ∈ gaps, ∀ second ∈ gaps,
    first.isApart second ∨ first.covers second ∨ second.covers first
  /-- They are the gaps in force that begin in the range. -/
  exact : ∀ span : Span, start ≤ span.start → span.start < stop →
    (span ∈ gaps ↔ ∃ gap ∈ layout.gaps, gap.span = span ∧ inForce active gap = true)
  /-- Only what appears at a place is emitted there. -/
  quiet : ∀ place, layout.arrivalsAt place = [] → emit place = []
  /-- Nothing is put where a gap surrounds it. -/
  hidden : ∀ place, gaps.any (·.surrounds place) = true → put place = []
  /-- Nothing is put where it travels with a body. -/
  leaving : ∀ place, start ≤ place → place < stop → gaps.any (·.surrounds place) = false →
    travels (layout.gapAt? active place) place = true → put place = []
  /-- Elsewhere the emitted chunks stand for what is put. -/
  emitted : ∀ place, start ≤ place → place < stop → gaps.any (·.surrounds place) = false →
    travels (layout.gapAt? active place) place = false →
      Chunk.StandFor source (emit place) (put place)

theorem any_surrounds_eq_false_iff {gaps : List Span} {place : Nat} :
    gaps.any (·.surrounds place) = false ↔
      ∀ span ∈ gaps, span.start < place → span.stop ≤ place := by
  simp [Span.surrounds]

theorem any_holds_eq_false_iff {gaps : List Span} {place : Nat} :
    gaps.any (·.holds place) = false ↔
      ∀ span ∈ gaps, span.start ≤ place → span.stop ≤ place := by
  simp [Span.holds]

namespace Stage

variable {layout : Layout} {source : String} {active : List Nat} {emit : Nat → List Chunk}
  {gaps : List Span} {put : Nat → List Char} {start stop position : Nat}

/-- The walk emits at a place that no gap surrounds what is put there. -/
theorem here_standFor (stage : Stage layout source active emit gaps put start stop)
    (start_le : start ≤ position) (ahead : position < stop)
    (clear : gaps.any (·.surrounds position) = false) :
    Chunk.StandFor source
      (if !travels (layout.gapAt? active position) position then emit position else [])
      (put position) := by
  cases leaving : travels (layout.gapAt? active position) position with
  | false => simpa using stage.emitted position start_le ahead clear leaving
  | true =>
      rw [stage.leaving position start_le ahead clear leaving]
      simpa using Chunk.StandFor.nil

theorem put_eq_nil_of_quiet (stage : Stage layout source active emit gaps put start stop)
    (start_le : start ≤ position) (ahead : position < stop)
    (still : layout.arrivalsAt position = []) : put position = [] := by
  cases clear : gaps.any (·.surrounds position) with
  | true => exact stage.hidden position clear
  | false =>
      have stands := stage.here_standFor start_le ahead clear
      rw [stage.quiet position still, ite_self] at stands
      exact stands.text_eq.symm

/-- The gap found at a place is one of the range, and the longest that begins there. -/
theorem mem_of_gapAt? (stage : Stage layout source active emit gaps put start stop)
    (start_le : start ≤ position) (ahead : position < stop) {gap : Gap}
    (found : layout.gapAt? active position = some gap) :
    gap.span ∈ gaps ∧ gap.span.start = position ∧
      ∀ span ∈ gaps, span.start = position → span.stop ≤ gap.span.stop := by
  obtain ⟨gap_mem, start_eq, in_force, longest⟩ := longest_of_gapAt? found
  refine ⟨?_, start_eq, ?_⟩
  · exact (stage.exact gap.span (by omega) (by omega)).2 ⟨gap, gap_mem, rfl, in_force⟩
  · intro span member span_start
    obtain ⟨other, other_mem, rfl, other_force⟩ :=
      (stage.exact span (by omega) (by omega)).1 member
    exact longest other other_mem span_start other_force

/-- Where no gap is found, none begins. -/
theorem start_ne_of_gapAt? (stage : Stage layout source active emit gaps put start stop)
    (start_le : start ≤ position) (ahead : position < stop)
    (found : layout.gapAt? active position = none) :
    ∀ span ∈ gaps, span.start ≠ position := by
  intro span member start_eq
  obtain ⟨gap, gap_mem, rfl, in_force⟩ := (stage.exact span (by omega) (by omega)).1 member
  rw [gapAt?_eq_none_iff.1 found gap gap_mem start_eq] at in_force
  exact Bool.false_ne_true in_force

/-! ## One step of the walk -/

/-- No gap surrounds the end of the longest gap at a clear place. -/
theorem clear_behind_gap (stage : Stage layout source active emit gaps put start stop)
    (clear : gaps.any (·.surrounds position) = false) {span : Span} (member : span ∈ gaps)
    (start_eq : span.start = position)
    (longest : ∀ other ∈ gaps, other.start = position → other.stop ≤ span.stop) :
    gaps.any (·.surrounds span.stop) = false := by
  rw [any_surrounds_eq_false_iff] at clear ⊢
  intro other other_mem other_before
  obtain ⟨-, span_proper, -⟩ := stage.within span member
  rcases stage.nested span member other other_mem with apart | inside | outside
  · rw [Span.isApart_iff] at apart
    omega
  · exact (Span.covers_iff.1 inside).2
  · rw [Span.covers_iff] at outside
    rcases Nat.lt_or_eq_of_le outside.1 with earlier | same_start
    · have := clear other other_mem (by omega)
      omega
    · exact longest other other_mem (by omega)

/-- A gap is read as what is put at its start. -/
theorem read_eq_put (stage : Stage layout source active emit gaps put start stop)
    {span : Span} (member : span ∈ gaps) (start_eq : span.start = position) {part : List Char}
    (part_eq : Text.slice? source.toList ⟨position, span.stop⟩ = some part) :
    Meaning.read gaps put position part = put position := by
  obtain ⟨start_le, proper, stop_le⟩ := stage.within span member
  have part_width := Text.width_of_slice? part_eq
  apply Meaning.read_gap
  · rintro rfl
    rw [Text.width_nil] at part_width
    omega
  · intro inner behind before
    refine List.any_eq_true.2 ⟨span, member, ?_⟩
    rw [Span.holds_iff]
    omega
  · intro inner behind before
    refine stage.hidden inner (List.any_eq_true.2 ⟨span, member, ?_⟩)
    rw [Span.surrounds_iff]
    omega

/-- From a clear place where no gap begins, no gap is met before the next place. -/
theorem free_before_nextPlace (stage : Stage layout source active emit gaps put start stop)
    (start_le : start ≤ position) (ahead : position < stop)
    (clear : gaps.any (·.surrounds position) = false)
    (found : layout.gapAt? active position = none) :
    ∀ span ∈ gaps, span.start < layout.nextPlace position stop → span.stop ≤ position := by
  intro span member before
  obtain ⟨-, -, -, still⟩ := nextPlace_spec layout ahead
  rcases Nat.lt_trichotomy span.start position with earlier | here | later
  · exact any_surrounds_eq_false_iff.1 clear span member earlier
  · exact absurd here (stage.start_ne_of_gapAt? start_le ahead found span member)
  · obtain ⟨gap, gap_mem, rfl, -⟩ := (stage.exact span (by omega)
      (by have := (stage.within span member); omega)).1 member
    exact absurd rfl ((still _ later before).2 gap gap_mem)

/-- The text up to the next place is read as what is put at its start and then itself. -/
theorem read_eq_put_append (stage : Stage layout source active emit gaps put start stop)
    (start_le : start ≤ position) (ahead : position < stop)
    (clear : gaps.any (·.surrounds position) = false)
    (found : layout.gapAt? active position = none) {part : List Char}
    (part_eq : Text.slice? source.toList ⟨position, layout.nextPlace position stop⟩ = some part) :
    Meaning.read gaps put position part = put position ++ part := by
  have free := stage.free_before_nextPlace start_le ahead clear found
  obtain ⟨behind, le_stop, -, still⟩ := nextPlace_spec layout ahead
  have part_width := Text.width_of_slice? part_eq
  apply Meaning.read_stretch
  · rintro rfl
    rw [Text.width_nil] at part_width
    omega
  · intro inner after before
    rw [any_holds_eq_false_iff]
    intro span member span_start
    have := free span member (by omega)
    omega
  · intro inner after before
    exact stage.put_eq_nil_of_quiet (by omega) (by omega) (still inner after (by omega)).1

/-- What is left from the start of a gap on is read as what is put there and what is left behind
the gap. -/
theorem read_from_gap (stage : Stage layout source active emit gaps put start stop)
    (start_le : start ≤ position) (ahead : position < stop)
    (clear : gaps.any (·.surrounds position) = false) {gap : Gap}
    (found : layout.gapAt? active position = some gap) {rest : List Char}
    (rest_eq : Text.slice? source.toList ⟨position, stop⟩ = some rest) :
    position < gap.span.stop ∧ gap.span.stop ≤ stop ∧
      gaps.any (·.surrounds gap.span.stop) = false ∧
      ∃ later, Text.slice? source.toList ⟨gap.span.stop, stop⟩ = some later ∧
        Meaning.read gaps put position rest =
          put position ++ Meaning.read gaps put gap.span.stop later := by
  obtain ⟨member, start_eq, longest⟩ := stage.mem_of_gapAt? start_le ahead found
  obtain ⟨-, proper, stop_le⟩ := stage.within gap.span member
  obtain ⟨gap_mem, -, -, -⟩ := longest_of_gapAt? found
  obtain ⟨part, later, rfl, part_eq, later_eq⟩ := Text.exists_slice?_of_isBoundary rest_eq
    (stage.bounded.gaps gap gap_mem).2 (by omega) stop_le
  refine ⟨by omega, stop_le, stage.clear_behind_gap clear member start_eq longest,
    later, later_eq, ?_⟩
  rw [Meaning.read_append, Text.width_of_slice? part_eq, stage.read_eq_put member start_eq part_eq]

/-- Where no gap begins, what is left is read as what is put there, the text up to the next place
and what is left from that place on. -/
theorem read_from_stretch (stage : Stage layout source active emit gaps put start stop)
    (start_le : start ≤ position) (ahead : position < stop)
    (clear : gaps.any (·.surrounds position) = false)
    (found : layout.gapAt? active position = none) {rest : List Char}
    (rest_eq : Text.slice? source.toList ⟨position, stop⟩ = some rest) :
    position < layout.nextPlace position stop ∧ layout.nextPlace position stop ≤ stop ∧
      gaps.any (·.surrounds (layout.nextPlace position stop)) = false ∧
      ∃ part later,
        Text.slice? source.toList ⟨position, layout.nextPlace position stop⟩ = some part ∧
        Text.slice? source.toList ⟨layout.nextPlace position stop, stop⟩ = some later ∧
        Meaning.read gaps put position rest =
          put position ++ part ++
            Meaning.read gaps put (layout.nextPlace position stop) later := by
  obtain ⟨behind, next_le, happens, -⟩ := nextPlace_spec layout ahead
  have next_boundary : Text.IsBoundary source.toList (layout.nextPlace position stop) := by
    rcases happens with at_stop | ⟨arrival, member, place_eq⟩ | ⟨gap, member, place_eq⟩
    · rw [at_stop]
      exact stage.boundary
    · rw [← place_eq]
      exact stage.bounded.arrivals arrival member
    · rw [← place_eq]
      exact (stage.bounded.gaps gap member).1
  have next_clear : gaps.any (·.surrounds (layout.nextPlace position stop)) = false := by
    rw [any_surrounds_eq_false_iff]
    intro span member before
    have := stage.free_before_nextPlace start_le ahead clear found span member before
    omega
  obtain ⟨part, later, rfl, part_eq, later_eq⟩ := Text.exists_slice?_of_isBoundary rest_eq
    next_boundary (Nat.le_of_lt behind) next_le
  refine ⟨behind, next_le, next_clear, part, later, part_eq, later_eq, ?_⟩
  rw [Meaning.read_append, Text.width_of_slice? part_eq,
    stage.read_eq_put_append start_le ahead clear found part_eq]

/-! ## The whole walk -/

/-- The walk from a clear place on stands for what is read from there on, with what is put at the
end where that is included. -/
theorem walk_standFor (stage : Stage layout source active emit gaps put start stop)
    (includeStop : Bool)
    (finish : includeStop = true →
      layout.gapAt? active stop = none ∧ Chunk.StandFor source (emit stop) (put stop))
    {rounds : Nat} (enough : stop - position < rounds) (start_le : start ≤ position)
    (le_stop : position ≤ stop) (clear : gaps.any (·.surrounds position) = false)
    {rest : List Char} (rest_eq : Text.slice? source.toList ⟨position, stop⟩ = some rest) :
    Chunk.StandFor source (layout.walk emit active includeStop stop rounds position)
      (Meaning.read gaps put position rest ++ if includeStop then put stop else []) := by
  -- Each round goes on at a place that is again clear, with what is left of the text from there on.
  induction rounds generalizing position rest with
  | zero => omega
  | succ rounds ih =>
      rw [walk]
      rcases Nat.eq_or_lt_of_le le_stop with rfl | ahead
      · have rest_width := Text.width_of_slice? rest_eq
        obtain rfl : rest = [] := Text.eq_nil_of_width_eq_zero (by omega)
        cases includeStop with
        | false => simpa [Meaning.read] using Chunk.StandFor.nil
        | true =>
            obtain ⟨none_found, stands⟩ := finish rfl
            simpa [Meaning.read, none_found, travels] using stands
      · have here := stage.here_standFor start_le ahead clear
        have not_done : ¬stop ≤ position := Nat.not_le.2 ahead
        simp only [ahead, not_done, decide_true, Bool.true_or, Bool.true_and, if_false]
        cases found : layout.gapAt? active position with
        | none =>
            obtain ⟨behind, next_le, next_clear, part, later, part_eq, later_eq, read_eq⟩ :=
              stage.read_from_stretch start_le ahead clear found rest_eq
            have onward := ih (by omega) (by omega) next_le next_clear later_eq
            rw [read_eq]
            simpa [found] using here.append ((Chunk.StandFor.copied part_eq).append onward)
        | some gap =>
            obtain ⟨behind, next_le, next_clear, later, later_eq, read_eq⟩ :=
              stage.read_from_gap start_le ahead clear found rest_eq
            have onward := ih (by omega) (by omega) next_le next_clear later_eq
            simp only [Nat.min_eq_left next_le, read_eq]
            split
            · -- The gap ends the range, and nothing more is to be emitted there.
              rename_i done
              simp only [Bool.and_eq_true, decide_eq_true_eq, Bool.not_eq_true'] at done
              obtain ⟨at_stop, rfl⟩ := done
              have later_width := Text.width_of_slice? later_eq
              obtain rfl : later = [] := Text.eq_nil_of_width_eq_zero (by omega)
              simpa [Meaning.read, found] using here
            · simpa [found] using here.append onward

end Stage

end Layout
end Shakedown
