import Shakedown.Proofs.SourceMap.InOrder
import Shakedown.Proofs.SourceMap.RoundTrip

/-!
# Chained maps chain their lookups

What becomes of an outer segment stays between this segment and the next one, so a place is
governed by one of the segments that its own outer segment became. Which of them that is depends on
where the governing inner segment stands: before the origin of the outer segment or behind it.
-/

namespace Shakedown
namespace SourceMap

open Segment (Governs)

/-! ## The range of an outer segment -/

theorem mem_carried {inner : List Segment} {segment candidate : Segment} {origin : Origin}
    {rangeEnd : Option Nat} :
    candidate ∈ carried inner segment origin rangeEnd ↔
      ∃ original ∈ inner, original.generated.line = origin.position.line ∧
        origin.position.column < original.generated.column ∧
        (∀ stop ∈ rangeEnd, original.generated.column < stop) ∧
        candidate =
          ⟨⟨segment.generated.line, segment.generated.column +
            (original.generated.column - origin.position.column)⟩, original.origin⟩ := by
  simp only [carried, List.mem_map, List.mem_filter, Bool.and_eq_true, beq_iff_eq,
    decide_eq_true_eq, Option.all_eq_true]
  constructor
  · rintro ⟨original, ⟨member, ⟨line_eq, behind⟩, ahead⟩, rfl⟩
    exact ⟨original, member, line_eq, behind, by simpa using ahead, rfl⟩
  · rintro ⟨original, member, line_eq, behind, ahead, rfl⟩
    exact ⟨original, ⟨member, ⟨line_eq, behind⟩, by simpa using ahead⟩, rfl⟩

theorem mem_rangeEnd? {segment next : Segment} {origin : Origin}
    (same_line : next.generated.line = segment.generated.line) :
    origin.position.column + (next.generated.column - segment.generated.column) ∈
      rangeEnd? segment origin (some next) := by
  simp [rangeEnd?, same_line]

/-- What becomes of a segment stands where the segment does or behind it on its line. -/
theorem place_of_mem_chain {inner : List Segment} {intermediate : Nat} {segment : Segment}
    {next : Option Segment} {chained : Segment}
    (member : chained ∈ chain inner intermediate segment next) :
    chained.generated = segment.generated ∨
      chained.generated.line = segment.generated.line ∧
        segment.generated.column < chained.generated.column := by
  unfold chain at member
  split at member
  · exact .inl (by rw [List.mem_singleton.1 member])
  · rcases List.mem_cons.1 member with rfl | inside
    · exact .inl rfl
    · obtain ⟨original, -, -, behind, -, rfl⟩ := mem_carried.1 inside
      exact .inr ⟨rfl, by simp only; omega⟩

theorem start_le_of_mem_chain {inner : List Segment} {intermediate : Nat} {segment : Segment}
    {next : Option Segment} {chained : Segment}
    (member : chained ∈ chain inner intermediate segment next) :
    chained.generated = segment.generated ∨ segment.generated.before chained.generated := by
  rcases place_of_mem_chain member with same | ⟨line_eq, column_lt⟩
  · exact .inl same
  · exact .inr (Position.before_iff.2 (.inr ⟨line_eq.symm, column_lt⟩))

/-- What becomes of a segment never leaks past the next one. -/
theorem before_next_of_mem_chain {inner : List Segment} {intermediate : Nat}
    {segment next chained : Segment} (ordered : segment.generated.before next.generated)
    (member : chained ∈ chain inner intermediate segment (some next)) :
    chained.generated.before next.generated := by
  unfold chain at member
  split at member
  · rwa [List.mem_singleton.1 member]
  · rename_i origin _
    rcases List.mem_cons.1 member with rfl | inside
    · exact ordered
    · obtain ⟨original, -, -, behind, ahead, rfl⟩ := mem_carried.1 inside
      rw [Position.before_iff] at ordered ⊢
      rcases ordered with earlier | ⟨same_line, column_lt⟩
      · exact .inl earlier
      · have within := ahead _ (mem_rangeEnd? same_line.symm)
        exact .inr ⟨same_line, by simp only; omega⟩

theorem start_le_of_mem_chainAll {inner : List Segment} {intermediate : Nat} {first : Segment}
    {rest : List Segment}
    (ordered : (first :: rest).Pairwise fun earlier later =>
      earlier.generated.before later.generated)
    {chained : Segment} (member : chained ∈ chainAll inner intermediate (first :: rest)) :
    chained.generated = first.generated ∨ first.generated.before chained.generated := by
  induction rest generalizing first with
  | nil =>
      rw [chainAll, chainAll, List.append_nil] at member
      exact start_le_of_mem_chain member
  | cons next rest ih =>
      obtain ⟨first_before, rest_ordered⟩ := List.pairwise_cons.1 ordered
      have next_behind := first_before next (by simp)
      rw [chainAll] at member
      rcases List.mem_append.1 member with member | member
      · exact start_le_of_mem_chain member
      · rcases ih rest_ordered member with same | behind
        · exact .inr (by rwa [same])
        · exact .inr (Position.before_trans next_behind behind)

/-- The segments that one outer segment becomes stand before those of all later ones. -/
theorem before_of_mem_chainAll {inner : List Segment} {intermediate : Nat} {first : Segment}
    {rest : List Segment}
    (ordered : (first :: rest).Pairwise fun earlier later =>
      earlier.generated.before later.generated)
    {earlier later : Segment}
    (earlier_mem : earlier ∈ chain inner intermediate first rest.head?)
    (later_mem : later ∈ chainAll inner intermediate rest) :
    earlier.generated.before later.generated := by
  obtain ⟨first_before, rest_ordered⟩ := List.pairwise_cons.1 ordered
  cases rest with
  | nil => simp [chainAll] at later_mem
  | cons next rest =>
      have ahead := before_next_of_mem_chain (first_before next (by simp)) earlier_mem
      rcases start_le_of_mem_chainAll rest_ordered later_mem with same | behind
      · rwa [same]
      · exact Position.before_trans ahead behind

/-! ## The governing segment of a chained place -/

/-- Where a segment with this origin leads from a place that it governs. -/
def target (segment : Segment) (origin : Origin) (place : Position) : Position :=
  ⟨origin.position.line,
    origin.position.column + (place.column - segment.generated.column)⟩

/-- The head of the chained segments governs a place unless an inner segment stands between the
origin of the outer segment and the target of the place. -/
theorem governs_head {inner : List Segment} {segment : Segment} {origin : Origin}
    {place : Position} (mapped : Option Origin) (rangeEnd : Option Nat)
    (reaches : segment.Reaches place)
    (free : ∀ original ∈ inner, original.Reaches (target segment origin place) →
      original.generated.column ≤ origin.position.column) :
    Governs (⟨segment.generated, mapped⟩ :: carried inner segment origin rangeEnd)
      ⟨segment.generated, mapped⟩ place := by
  refine ⟨by simp, reaches, ?_⟩
  intro other member other_reaches
  rcases List.mem_cons.1 member with same | inside
  · exact .inl same
  · exfalso
    obtain ⟨original, original_mem, line_eq, behind, -, rfl⟩ := mem_carried.1 inside
    obtain ⟨-, column_le⟩ := other_reaches
    have reached : original.Reaches (target segment origin place) :=
      ⟨line_eq, by simp only [target] at column_le ⊢; omega⟩
    have := free original original_mem reached
    omega

/-- An inner segment behind the origin of the outer segment that governs the target of a place is
carried over and governs the place. -/
theorem governs_carried {inner : List Segment} {segment original : Segment} {origin : Origin}
    {next : Option Segment} {place : Position} (mapped : Option Origin)
    (reaches : segment.Reaches place) (ahead : ∀ other ∈ next, place.before other.generated)
    (governs : Governs inner original (target segment origin place))
    (behind : origin.position.column < original.generated.column) :
    Governs (⟨segment.generated, mapped⟩ ::
        carried inner segment origin (rangeEnd? segment origin next))
      ⟨⟨segment.generated.line, segment.generated.column +
        (original.generated.column - origin.position.column)⟩, original.origin⟩ place := by
  obtain ⟨original_mem, ⟨line_eq, column_le⟩, closest⟩ := governs
  obtain ⟨segment_line, segment_le⟩ := reaches
  simp only [target] at line_eq column_le
  refine ⟨?_, ⟨segment_line, by simp only; omega⟩, ?_⟩
  · refine List.mem_cons_of_mem _ (mem_carried.2 ⟨original, original_mem, line_eq, behind, ?_, rfl⟩)
    intro stop stop_mem
    cases next with
    | none => simp [rangeEnd?] at stop_mem
    | some other =>
        have place_before := ahead other rfl
        rw [rangeEnd?] at stop_mem
        split at stop_mem
        · rename_i same_line
          obtain rfl := Option.some.inj stop_mem
          rw [Position.before_iff] at place_before
          omega
        · simp at stop_mem
  · intro other member other_reaches
    rcases List.mem_cons.1 member with rfl | inside
    · right
      simp only
      omega
    · obtain ⟨another, another_mem, another_line, another_behind, -, rfl⟩ := mem_carried.1 inside
      obtain ⟨-, another_le⟩ := other_reaches
      simp only at another_le
      have reached : another.Reaches (target segment origin place) :=
        ⟨another_line, by simp only [target]; omega⟩
      rcases closest another another_mem reached with rfl | further
      · exact .inl rfl
      · right
        simp only
        omega

/-- What a segment was moved ahead by is what its target lies further ahead. -/
theorem originAt_carried {segment original : Segment} {origin : Origin} (place : Position)
    (behind : origin.position.column < original.generated.column) :
    (Segment.mk ⟨segment.generated.line, segment.generated.column +
        (original.generated.column - origin.position.column)⟩ original.origin).originAt place =
      original.originAt (target segment origin place) := by
  have offset_eq : place.column - (segment.generated.column +
        (original.generated.column - origin.position.column)) =
      origin.position.column + (place.column - segment.generated.column) -
        original.generated.column := by
    omega
  simp only [Segment.originAt, target, offset_eq]

theorem originAt_head {segment original : Segment} {origin source : Origin} (place : Position)
    (source_eq : original.origin = some source)
    (column_le : original.generated.column ≤ origin.position.column) (fallback : Origin) :
    (Segment.mk segment.generated
        (some ((original.originAt origin.position).getD fallback))).originAt place =
      original.originAt (target segment origin place) := by
  simp only [Segment.originAt, source_eq, Option.map_some, Option.getD_some, target,
    Option.some.injEq, Origin.mk.injEq, Position.mk.injEq, true_and, and_true]
  omega

/-- For a place in its range a segment chains the lookups: the answer is that of the inner map, or
the place in the intermediate text where the inner map has no answer. -/
theorem exists_governs_chain {inner : List Segment} (intermediate : Nat)
    (distinct : (inner.map Segment.generated).Nodup) {segment : Segment} {origin : Origin}
    {next : Option Segment} {place : Position} (origin_eq : segment.origin = some origin)
    (reaches : segment.Reaches place) (ahead : ∀ other ∈ next, place.before other.generated) :
    ∃ base, Governs (chain inner intermediate segment next) base place ∧
      (base.originAt place = Segment.lookup inner (target segment origin place) ∨
        Segment.lookup inner origin.position = none ∧
          Segment.lookup inner (target segment origin place) = none ∧
          base.originAt place = some ⟨intermediate, target segment origin place, none⟩) := by
  have onward {original : Segment} (reached : original.Reaches origin.position) :
      original.Reaches (target segment origin place) :=
    ⟨reached.1, Nat.le_trans reached.2 (Nat.le_add_right _ _)⟩
  simp only [chain, origin_eq]
  cases found : Segment.governing? inner (target segment origin place) with
  | none =>
      have unreached := Segment.governing?_eq_none_iff.1 found
      have unknown : Segment.lookup inner origin.position = none := by
        apply Segment.lookup_of_ungoverned
        rw [Segment.governing?_eq_none_iff]
        exact fun original member reached => unreached original member (onward reached)
      refine ⟨_, governs_head _ _ reaches fun original member reached =>
        absurd reached (unreached original member), .inr ⟨unknown, ?_, ?_⟩⟩
      · exact Segment.lookup_of_ungoverned found
      · simp [unknown, Segment.originAt, target]
  | some original =>
      have governs := Governs.of_governing? distinct found
      obtain ⟨line_eq, column_le⟩ := governs.reaches
      simp only [target] at line_eq column_le
      by_cases behind : origin.position.column < original.generated.column
      · refine ⟨_, governs_carried _ reaches ahead governs behind, .inl ?_⟩
        rw [governs.lookup_eq, originAt_carried place behind]
      · have reached : original.Reaches origin.position := ⟨line_eq, Nat.not_lt.1 behind⟩
        have before_origin : Governs inner original origin.position :=
          ⟨governs.member, reached, fun other member other_reached =>
            governs.closest other member (onward other_reached)⟩
        refine ⟨_, governs_head _ _ reaches fun other member other_reached => ?_, ?_⟩
        · rcases governs.closest other member other_reached with rfl | further
          · exact Nat.not_lt.1 behind
          · omega
        · rw [governs.lookup_eq, before_origin.lookup_eq]
          cases source_eq : original.origin with
          | none => exact .inr (by simp [Segment.originAt, source_eq, target])
          | some source => exact .inl (originAt_head place source_eq (Nat.not_lt.1 behind) _)

/-- A place that a segment governs stands before all later segments. -/
theorem before_of_governs_head {first : Segment} {rest : List Segment}
    (ordered : (first :: rest).Pairwise fun earlier later =>
      earlier.generated.before later.generated)
    {place : Position} (governs : Governs (first :: rest) first place) {other : Segment}
    (member : other ∈ rest) : place.before other.generated := by
  have other_behind := (List.pairwise_cons.1 ordered).1 other member
  obtain ⟨line_eq, column_le⟩ := governs.reaches
  rw [Position.before_iff] at other_behind
  by_contra not_before
  rw [Position.before_iff] at not_before
  have other_reaches : other.Reaches place := by constructor <;> omega
  rcases governs.closest other (List.mem_cons_of_mem _ member) other_reaches with same | further
  · rw [same] at other_behind
    omega
  · have := other_reaches.1
    omega

/-- What later segments become does not reach back to a place in front of them. -/
theorem not_reaches_of_mem_chainAll {inner outer : List Segment} {intermediate : Nat}
    (ordered : outer.Pairwise fun earlier later => earlier.generated.before later.generated)
    {place : Position} (ahead : ∀ other ∈ outer, place.before other.generated)
    {chained : Segment} (member : chained ∈ chainAll inner intermediate outer) :
    ¬chained.Reaches place := by
  apply Segment.not_reaches_of_before
  cases outer with
  | nil => simp [chainAll] at member
  | cons first rest =>
      have first_behind := ahead first (by simp)
      rcases start_le_of_mem_chainAll ordered member with same | behind
      · rwa [same]
      · exact Position.before_trans first_behind behind

/-- Among all chained segments a place is governed by one of those that its outer segment became. -/
theorem exists_next_governs_chainAll (inner : List Segment) (intermediate : Nat)
    {outer : List Segment}
    (ordered : outer.Pairwise fun earlier later => earlier.generated.before later.generated)
    {segment : Segment} {place : Position} (governs : Governs outer segment place) :
    ∃ next : Option Segment, (∀ other ∈ next, place.before other.generated) ∧
      ∀ base, Governs (chain inner intermediate segment next) base place →
        Governs (chainAll inner intermediate outer) base place := by
  induction outer with
  | nil => exact absurd governs.member List.not_mem_nil
  | cons first rest ih =>
      have rest_ordered := (List.pairwise_cons.1 ordered).2
      rcases List.mem_cons.1 governs.member with rfl | inside
      · have ahead : ∀ other ∈ rest, place.before other.generated := fun _ member =>
          before_of_governs_head ordered governs member
        refine ⟨rest.head?, fun other head => ahead other (List.mem_of_mem_head? head), ?_⟩
        intro base base_governs
        apply base_governs.append_right
        exact fun other member => not_reaches_of_mem_chainAll rest_ordered ahead member
      · obtain ⟨next, ahead, lift⟩ := ih rest_ordered (governs.of_cons inside)
        refine ⟨next, ahead, fun base base_governs => ?_⟩
        have base_governs_rest := lift base base_governs
        apply base_governs_rest.append_left
        intro other member
        exact before_of_mem_chainAll ordered member base_governs_rest.member

theorem exists_reaches_of_mem_chainAll {inner outer : List Segment} {intermediate : Nat}
    {chained : Segment} {place : Position}
    (member : chained ∈ chainAll inner intermediate outer) (reaches : chained.Reaches place) :
    ∃ segment ∈ outer, segment.Reaches place := by
  induction outer with
  | nil => simp [chainAll] at member
  | cons first rest ih =>
      rcases List.mem_append.1 member with member | member
      · refine ⟨first, by simp, ?_⟩
        obtain ⟨line_eq, column_le⟩ := reaches
        rcases place_of_mem_chain member with same | ⟨same_line, column_lt⟩
        · exact ⟨by rw [← same, line_eq], by rwa [← same]⟩
        · exact ⟨same_line.symm.trans line_eq, by omega⟩
      · obtain ⟨segment, segment_mem, segment_reaches⟩ := ih member
        exact ⟨segment, List.mem_cons_of_mem _ segment_mem, segment_reaches⟩

/-! ## Chained segments in reading order -/

theorem nodup_carried {inner : List Segment} (distinct : (inner.map Segment.generated).Nodup)
    (segment : Segment) (origin : Origin) (rangeEnd : Option Nat) :
    ((carried inner segment origin rangeEnd).map Segment.generated).Nodup := by
  rw [carried, List.map_map]
  apply List.Nodup.map_on
  · intro first first_mem second second_mem same
    simp only [List.mem_filter, Bool.and_eq_true, beq_iff_eq, decide_eq_true_eq]
      at first_mem second_mem
    obtain ⟨first_mem, ⟨first_line, first_behind⟩, -⟩ := first_mem
    obtain ⟨second_mem, ⟨second_line, second_behind⟩, -⟩ := second_mem
    simp only [Function.comp, Position.mk.injEq, true_and] at same
    have same_place : first.generated = second.generated :=
      Position.eq_iff.2 ⟨first_line.trans second_line.symm, by omega⟩
    exact List.inj_on_of_nodup_map distinct first_mem second_mem same_place
  · exact (List.Nodup.of_map _ distinct).filter _

theorem nodup_chain {inner : List Segment} (intermediate : Nat)
    (distinct : (inner.map Segment.generated).Nodup) (segment : Segment) (next : Option Segment) :
    ((chain inner intermediate segment next).map Segment.generated).Nodup := by
  unfold chain
  split
  · simp
  · rename_i origin _
    rw [List.map_cons, List.nodup_cons]
    constructor
    · intro member
      obtain ⟨other, other_mem, same⟩ := List.mem_map.1 member
      obtain ⟨original, -, -, behind, -, rfl⟩ := mem_carried.1 other_mem
      rw [Position.eq_iff] at same
      simp only [true_and] at same
      omega
    · exact nodup_carried distinct segment origin _

theorem nodup_chainAll {inner : List Segment} (intermediate : Nat)
    (distinct : (inner.map Segment.generated).Nodup) {outer : List Segment}
    (ordered : outer.Pairwise fun earlier later => earlier.generated.before later.generated) :
    ((chainAll inner intermediate outer).map Segment.generated).Nodup := by
  induction outer with
  | nil => simp [chainAll]
  | cons first rest ih =>
      rw [chainAll, List.map_append, List.nodup_append]
      refine ⟨nodup_chain intermediate distinct first rest.head?,
        ih (List.pairwise_cons.1 ordered).2, ?_⟩
      intro here here_mem there there_mem same
      obtain ⟨earlier, earlier_mem, rfl⟩ := List.mem_map.1 here_mem
      obtain ⟨later, later_mem, rfl⟩ := List.mem_map.1 there_mem
      have before := before_of_mem_chainAll ordered earlier_mem later_mem
      rw [same, Position.before_iff] at before
      omega

/-! ## The chained map -/

/-- What two lists of segments have to meet for their lookups to chain. `intermediate` is the index
that the intermediate text gets as a source. -/
structure Chainable (outer inner : List Segment) (intermediate : Nat) : Prop where
  /-- The outer segments stand in strict reading order. -/
  ordered : outer.Pairwise fun earlier later => earlier.generated.before later.generated
  /-- All outer origins lie in one text, the intermediate one. -/
  oneSource : ∀ first ∈ outer, ∀ second ∈ outer, ∀ left ∈ first.origin, ∀ right ∈ second.origin,
    left.source = right.source
  /-- No two inner segments stand at one place. -/
  distinct : (inner.map Segment.generated).Nodup
  /-- The columns that chaining adds up fit into 32 bits. -/
  columns : ∀ chained ∈ chainAll inner intermediate outer,
    chained.generated.column < 4294967296 ∧
      ∀ origin ∈ chained.origin, origin.position.column < 4294967296
  /-- The index of the intermediate text fits into 32 bits. -/
  index : intermediate < 4294967296

theorem fits_of_mem_chain {inner : List Segment} {intermediate : Nat} {segment : Segment}
    {next : Option Segment} (small : intermediate < 4294967296)
    (inner_fits : ∀ original ∈ inner, original.Fits) (fits : segment.Fits) {chained : Segment}
    (member : chained ∈ chain inner intermediate segment next)
    (column : chained.generated.column < 4294967296)
    (originColumn : ∀ origin ∈ chained.origin, origin.position.column < 4294967296) :
    chained.Fits := by
  unfold chain at member
  split at member
  · rwa [List.mem_singleton.1 member]
  · rename_i origin origin_eq
    rcases List.mem_cons.1 member with rfl | inside
    · refine ⟨fits.generated, ?_⟩
      rintro mapped ⟨⟩
      have column_lt := originColumn _ rfl
      cases answer : Segment.lookup inner origin.position with
      | none =>
          exact ⟨small, (fits.origin origin origin_eq).position, by simp⟩
      | some found =>
          rw [answer] at column_lt
          cases governs : Segment.governing? inner origin.position with
          | none => simp [Segment.lookup_of_ungoverned governs] at answer
          | some original =>
              rw [Segment.lookup_of_governing? governs] at answer
              obtain ⟨source, source_eq, rfl⟩ := Option.map_eq_some_iff.1 answer
              have original_fits := inner_fits original (Segment.reaches_of_governing? governs).1
              have source_fits := original_fits.origin source source_eq
              exact ⟨source_fits.source, ⟨source_fits.position.1, column_lt⟩, source_fits.name⟩
    · obtain ⟨original, original_mem, -, -, -, rfl⟩ := mem_carried.1 inside
      exact ⟨⟨fits.generated.1, column⟩, (inner_fits original original_mem).origin⟩

theorem fits_of_mem_chainAll {inner outer : List Segment} {intermediate : Nat}
    (small : intermediate < 4294967296) (inner_fits : ∀ original ∈ inner, original.Fits)
    (outer_fits : ∀ segment ∈ outer, segment.Fits) {chained : Segment}
    (member : chained ∈ chainAll inner intermediate outer)
    (column : chained.generated.column < 4294967296)
    (originColumn : ∀ origin ∈ chained.origin, origin.position.column < 4294967296) :
    chained.Fits := by
  induction outer with
  | nil => simp [chainAll] at member
  | cons first rest ih =>
      rcases List.mem_append.1 member with member | member
      · exact fits_of_mem_chain small inner_fits (outer_fits first (by simp)) member column
          originColumn
      · exact ih (fun segment inside => outer_fits segment (List.mem_cons_of_mem _ inside)) member

/-- A stray names the intermediate text as a source of its own. -/
theorem firstStray?_map_of_unknown {outer inner : List Segment} (names : List String)
    (oneSource : ∀ first ∈ outer, ∀ second ∈ outer, ∀ left ∈ first.origin,
      ∀ right ∈ second.origin, left.source = right.source)
    {segment : Segment} {origin : Origin} (member : segment ∈ outer)
    (origin_eq : segment.origin = some origin)
    (unknown : Segment.lookup inner origin.position = none) :
    (firstStray? outer inner).map (fun stray => names.getD stray.source "") =
      some (names.getD origin.source "") := by
  cases found : firstStray? outer inner with
  | none =>
      have none_stray := List.findSome?_eq_none_iff.1 found segment member
      simp [origin_eq, unknown] at none_stray
  | some stray =>
      obtain ⟨other, other_mem, stray_eq⟩ := List.exists_of_findSome?_eq_some found
      have stray_mem : stray ∈ other.origin := (Option.filter_eq_some_iff.1 stray_eq).1
      rw [Option.map_some,
        oneSource other other_mem segment member stray stray_mem origin origin_eq]

theorem lookup_eq_of_segments {map : SourceMap} {segments : List Segment}
    (read : map.segments = .ok segments) (place : Position) :
    map.lookup place = .ok (Segment.lookup segments place) := by
  rw [lookup, read]
  rfl

/-- The name of the source that chaining adds, if there is a stray. -/
def addedSource? (outer : SourceMap) (outerSegments innerSegments : List Segment) : Option String :=
  (firstStray? outerSegments innerSegments).map fun stray => outer.sources.getD stray.source ""

/-- What the parts of a chained map are. -/
structure IsComposed (outer inner : SourceMap) (outerSegments innerSegments : List Segment)
    (composed : SourceMap) : Prop where
  /-- The intermediate text is added to the sources if there is a stray. -/
  sources : composed.sources =
    inner.sources ++ (addedSource? outer outerSegments innerSegments).toList
  /-- Where texts of sources are given, the intermediate text goes without. -/
  contents : composed.sourcesContent =
    if inner.sourcesContent.isEmpty then []
    else inner.sourcesContent ++
      (addedSource? outer outerSegments innerSegments).toList.map fun _ => none
  /-- The names are those of the inner map. -/
  names : composed.names = inner.names
  /-- The mappings are written for the chained segments in reading order. -/
  mappings : composed.mappings =
    Mappings.encode (inOrder (chainAll innerSegments (nextIndex inner.sources) outerSegments))

theorem exists_isComposed {outer inner : SourceMap} {outerSegments innerSegments : List Segment}
    (outer_read : outer.segments = .ok outerSegments)
    (inner_read : inner.segments = .ok innerSegments) :
    ∃ composed, compose outer inner = .ok composed ∧
      IsComposed outer inner outerSegments innerSegments composed := by
  simp only [compose, outer_read, inner_read]
  exact ⟨_, rfl, rfl, rfl, rfl, rfl⟩

/-- The columns that chaining adds up fit into 32 bits. -/
def ColumnsFit (outer inner : List Segment) (intermediate : Nat) : Prop :=
  ∀ chained ∈ chainAll inner intermediate outer, chained.generated.column < 4294967296 ∧
    ∀ origin ∈ chained.origin, origin.position.column < 4294967296

/-- The mappings of a chained map are read back as the chained segments in reading order. -/
theorem IsComposed.segments_eq {outer inner composed : SourceMap}
    {outerSegments innerSegments : List Segment}
    (parts : IsComposed outer inner outerSegments innerSegments composed)
    (outer_read : outer.segments = .ok outerSegments)
    (inner_read : inner.segments = .ok innerSegments)
    (columns : ColumnsFit outerSegments innerSegments (nextIndex inner.sources)) :
    composed.segments =
      .ok (inOrder (chainAll innerSegments (nextIndex inner.sources) outerSegments)) := by
  rw [segments, parts.mappings]
  refine segmentsOf_eq_ok_iff.2 (Mappings.decode_encode
    (linesAscend_of_pairwise_before (pairwise_before_inOrder _)) ?_)
  intro chained member
  have inside := mem_of_mem_inOrder member
  obtain ⟨column, originColumn⟩ := columns chained inside
  exact fits_of_mem_chainAll (nextIndex_lt _)
    (Mappings.fits_of_decode (segmentsOf_eq_ok_iff.1 inner_read))
    (Mappings.fits_of_decode (segmentsOf_eq_ok_iff.1 outer_read)) inside column originColumn

/-- The lookup in the chained segments, for each of the three answers that the lookups in a row
can give. -/
theorem lookup_inOrder_chainAll {outer inner : List Segment} {intermediate : Nat}
    (chainable : Chainable outer inner intermediate) (place : Position) :
    (Segment.lookup outer place = none →
      Segment.lookup (inOrder (chainAll inner intermediate outer)) place = none) ∧
    ∀ origin, Segment.lookup outer place = some origin →
      Segment.lookup (inOrder (chainAll inner intermediate outer)) place =
          Segment.lookup inner origin.position ∨
        Segment.lookup inner origin.position = none ∧
          Segment.lookup (inOrder (chainAll inner intermediate outer)) place =
            some ⟨intermediate, origin.position, none⟩ ∧
          ∃ segment ∈ outer, ∃ start, segment.origin = some start ∧
            start.source = origin.source ∧ Segment.lookup inner start.position = none := by
  have same := mem_inOrder_of_nodup
    (nodup_chainAll intermediate chainable.distinct chainable.ordered)
  cases found : Segment.governing? outer place with
  | none =>
      rw [Segment.lookup_of_ungoverned found]
      refine ⟨fun _ => ?_, by simp⟩
      apply Segment.lookup_of_ungoverned
      refine Segment.governing?_eq_none_iff.2 fun chained member reaches => ?_
      obtain ⟨segment, segment_mem, segment_reaches⟩ :=
        exists_reaches_of_mem_chainAll ((same chained).1 member) reaches
      exact Segment.governing?_eq_none_iff.1 found segment segment_mem segment_reaches
  | some segment =>
      have governs :=
        Governs.of_governing? (Segment.nodup_of_pairwise_before chainable.ordered) found
      obtain ⟨next, ahead, lift⟩ :=
        exists_next_governs_chainAll inner intermediate chainable.ordered governs
      rw [governs.lookup_eq, Segment.originAt]
      cases origin_eq : segment.origin with
      | none =>
          refine ⟨fun _ => ?_, by simp⟩
          have alone : Governs (chain inner intermediate segment next) segment place := by
            simp only [chain, origin_eq]
            exact ⟨by simp, governs.reaches,
              fun other member _ => .inl (List.mem_singleton.1 member)⟩
          rw [((lift segment alone).of_mem_iff same).lookup_eq, Segment.originAt, origin_eq]
          rfl
      | some start =>
          refine ⟨by simp, ?_⟩
          rintro origin ⟨⟩
          obtain ⟨base, base_governs, answer⟩ := exists_governs_chain intermediate
            chainable.distinct origin_eq governs.reaches ahead
          rw [((lift base base_governs).of_mem_iff same).lookup_eq]
          rcases answer with mapped | ⟨start_unknown, unknown, fallback⟩
          · exact .inl mapped
          · exact .inr ⟨unknown, fallback, segment, governs.member, start, origin_eq, rfl,
              start_unknown⟩

/-- A place of a chained map has the origin that the two lookups in a row give it. Where only the
inner one gives none, the chained map gives none either or the place in the intermediate text,
which it then has as its last source. -/
theorem lookup_compose {outer inner : SourceMap} {outerSegments innerSegments : List Segment}
    (outer_read : outer.segments = .ok outerSegments)
    (inner_read : inner.segments = .ok innerSegments)
    (chainable : Chainable outerSegments innerSegments inner.sources.length) :
    ∃ composed, compose outer inner = .ok composed ∧ ∀ place : Position,
      (outer.lookup place = .ok none → composed.lookup place = .ok none) ∧
      ∀ origin, outer.lookup place = .ok (some origin) →
        (∀ mapped, inner.lookup origin.position = .ok (some mapped) →
          composed.lookup place = .ok (some mapped)) ∧
        (inner.lookup origin.position = .ok none →
          composed.lookup place = .ok none ∨
          composed.lookup place = .ok (some
              { origin with source := inner.sources.length, name := none }) ∧
            composed.sources = inner.sources ++ [outer.sources.getD origin.source ""]) := by
  obtain ⟨composed, composed_eq, parts⟩ := exists_isComposed outer_read inner_read
  have index_eq := nextIndex_eq_length chainable.index
  have composed_read := parts.segments_eq outer_read inner_read
    (index_eq ▸ chainable.columns)
  rw [index_eq] at composed_read
  refine ⟨composed, composed_eq, fun place => ?_⟩
  obtain ⟨without, within⟩ := lookup_inOrder_chainAll chainable place
  simp only [lookup_eq_of_segments outer_read, lookup_eq_of_segments inner_read,
    lookup_eq_of_segments composed_read, Except.ok.injEq]
  refine ⟨without, fun origin outer_answer => ?_⟩
  rcases within origin outer_answer with answer | ⟨unknown, answer, stray⟩
  · rw [answer]
    exact ⟨fun mapped inner_answer => inner_answer, fun inner_answer => .inl inner_answer⟩
  · rw [answer, unknown]
    refine ⟨by simp, fun _ => .inr ⟨rfl, ?_⟩⟩
    obtain ⟨segment, member, start, origin_eq, source_eq, start_unknown⟩ := stray
    rw [parts.sources, addedSource?, firstStray?_map_of_unknown outer.sources chainable.oneSource
      member origin_eq start_unknown, source_eq]
    rfl

/-- Inner segments that stand in no order, one of them carried over into a range that the next
outer segment ends, and a line that only the intermediate text has. -/
theorem lookup_compose_carried :
    Chainable
      [⟨⟨0, 0⟩, none⟩, ⟨⟨0, 2⟩, some ⟨0, ⟨0, 0⟩, none⟩⟩, ⟨⟨0, 10⟩, some ⟨0, ⟨0, 5⟩, none⟩⟩,
        ⟨⟨1, 0⟩, some ⟨0, ⟨1, 0⟩, none⟩⟩]
      [⟨⟨0, 6⟩, some ⟨0, ⟨3, 6⟩, some 0⟩⟩, ⟨⟨0, 2⟩, some ⟨0, ⟨3, 0⟩, none⟩⟩, ⟨⟨0, 9⟩, none⟩] 1 ∧
    ∃ composed,
      compose ⟨3, "out.js", none, ["mid.js"], [], [], "A,EAAA,QAAK;AACL"⟩
          ⟨3, "mid.js", none, ["in.ts"], [], ["f"], "MAGMA,JAAN,O"⟩ = .ok composed ∧
        composed.lookup ⟨0, 1⟩ = .ok none ∧
        composed.lookup ⟨0, 9⟩ = .ok (some ⟨0, ⟨3, 7⟩, some 0⟩) ∧
        (composed.lookup ⟨1, 4⟩ = .ok none ∨
          composed.lookup ⟨1, 4⟩ = .ok (some ⟨1, ⟨1, 4⟩, none⟩) ∧
            composed.sources = ["in.ts", "mid.js"]) := by
  have outer_read :
      (⟨3, "out.js", none, ["mid.js"], [], [], "A,EAAA,QAAK;AACL"⟩ : SourceMap).segments =
        .ok [⟨⟨0, 0⟩, none⟩, ⟨⟨0, 2⟩, some ⟨0, ⟨0, 0⟩, none⟩⟩,
          ⟨⟨0, 10⟩, some ⟨0, ⟨0, 5⟩, none⟩⟩, ⟨⟨1, 0⟩, some ⟨0, ⟨1, 0⟩, none⟩⟩] := by
    rfl
  have inner_read :
      (⟨3, "mid.js", none, ["in.ts"], [], ["f"], "MAGMA,JAAN,O"⟩ : SourceMap).segments =
        .ok [⟨⟨0, 6⟩, some ⟨0, ⟨3, 6⟩, some 0⟩⟩, ⟨⟨0, 2⟩, some ⟨0, ⟨3, 0⟩, none⟩⟩,
          ⟨⟨0, 9⟩, none⟩] := by
    rfl
  have chainable : Chainable
      [⟨⟨0, 0⟩, none⟩, ⟨⟨0, 2⟩, some ⟨0, ⟨0, 0⟩, none⟩⟩, ⟨⟨0, 10⟩, some ⟨0, ⟨0, 5⟩, none⟩⟩,
        ⟨⟨1, 0⟩, some ⟨0, ⟨1, 0⟩, none⟩⟩]
      [⟨⟨0, 6⟩, some ⟨0, ⟨3, 6⟩, some 0⟩⟩, ⟨⟨0, 2⟩, some ⟨0, ⟨3, 0⟩, none⟩⟩, ⟨⟨0, 9⟩, none⟩] 1 := by
    constructor <;> decide
  refine ⟨chainable, ?_⟩
  obtain ⟨composed, composed_eq, chains⟩ := lookup_compose outer_read inner_read chainable
  refine ⟨composed, composed_eq, (chains ⟨0, 1⟩).1 rfl, ?_, ?_⟩
  · exact ((chains ⟨0, 9⟩).2 _ rfl).1 _ rfl
  · exact ((chains ⟨1, 4⟩).2 _ rfl).2 rfl

end SourceMap
end Shakedown
