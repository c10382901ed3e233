import Shakedown.Proofs.SourceMap.Composed

/-!
# Origins that the inner map does not know

Where the inner map knows no origin, a chained map leads into the intermediate text, to the line and the
column that the outer map gives. All these places share one source, which has the name that the outer
map gives to the source of the first of them. So a place keeps the name of its source when the outer map
has one source only, and of several sources those keep theirs that have the name of the first.
-/

namespace Shakedown
namespace SourceMap

/-! ## The segments at the places of the outer ones -/

/-- What an outer segment itself becomes. -/
def mapped (inner : List Segment) (intermediate : Nat) (segment : Segment) : Segment :=
  { segment with
    origin := segment.origin.map fun origin =>
      (Segment.lookup inner origin.position).getD
        { origin with source := intermediate, name := none } }

@[simp]
theorem mapped_generated (inner : List Segment) (intermediate : Nat) (segment : Segment) :
    (mapped inner intermediate segment).generated = segment.generated := rfl

theorem exists_chain_eq (inner : List Segment) (intermediate : Nat) (segment : Segment)
    (next : Option Segment) :
    ∃ inside, chain inner intermediate segment next = mapped inner intermediate segment :: inside := by
  obtain ⟨generated, origin⟩ := segment
  cases origin with
  | none => exact ⟨[], rfl⟩
  | some origin => exact ⟨_, rfl⟩

/-- At the place of an outer segment stands what the segment itself becomes. -/
theorem firstAt?_chainAll {inner outer : List Segment} (intermediate : Nat)
    (ordered : outer.Pairwise fun earlier later => earlier.generated.before later.generated)
    {segment : Segment} (member : segment ∈ outer) :
    firstAt? (chainAll inner intermediate outer) segment.generated =
      some (mapped inner intermediate segment) := by
  induction outer with
  | nil => exact absurd member List.not_mem_nil
  | cons first rest ih =>
      rw [chainAll]
      rcases List.mem_cons.1 member with rfl | behind
      · obtain ⟨inside, chain_eq⟩ := exists_chain_eq inner intermediate segment rest.head?
        rw [chain_eq, List.cons_append, firstAt?_cons, if_pos]
        rfl
      · have found := ih (List.pairwise_cons.1 ordered).2 behind
        obtain ⟨later_mem, later_eq⟩ := of_firstAt? found
        have free : firstAt? (chain inner intermediate first rest.head?) segment.generated = none := by
          rw [firstAt?_eq_none_iff]
          intro earlier earlier_mem same
          have before := before_of_mem_chainAll ordered earlier_mem later_mem
          rw [same, later_eq, Position.before_iff] at before
          omega
        rw [firstAt?_append, free, found, Option.none_or]

theorem mapped_of_stray {inner : List Segment} {segment : Segment} {origin : Origin}
    (stray : IsStray inner segment origin) (intermediate : Nat) :
    mapped inner intermediate segment =
      ⟨segment.generated, some ⟨intermediate, origin.position, none⟩⟩ := by
  simp [mapped, stray.1, stray.2]

/-! ## The source that strays share -/

/-- The origin is the first one in the outer segments that the inner ones do not know. -/
def IsFirstStray (outer inner : List Segment) (origin : Origin) : Prop :=
  ∃ front segment back, outer = front ++ segment :: back ∧ IsStray inner segment origin ∧
    ∀ earlier ∈ front, ∀ other, ¬ IsStray inner earlier other

theorem filter_origin_eq_some_iff {inner : List Segment} {segment : Segment} {origin : Origin} :
    (segment.origin.filter fun origin => (Segment.lookup inner origin.position).isNone) =
        some origin ↔ IsStray inner segment origin := by
  rw [Option.filter_eq_some_iff, Option.isNone_iff_eq_none]
  rfl

theorem isFirstStray_of_firstStray? {outer inner : List Segment} {origin : Origin}
    (found : firstStray? outer inner = some origin) : IsFirstStray outer inner origin := by
  obtain ⟨front, segment, back, rfl, stray, known⟩ := List.findSome?_eq_some_iff.1 found
  refine ⟨front, segment, back, rfl, filter_origin_eq_some_iff.1 stray, ?_⟩
  intro earlier member other other_stray
  have := known earlier member
  rw [filter_origin_eq_some_iff.2 other_stray] at this
  simp at this

/-- The source that chaining adds has the name of the source of the first stray. -/
theorem exists_isFirstStray {outer inner composed : SourceMap}
    {outerSegments innerSegments : List Segment}
    (parts : IsComposed outer inner outerSegments innerSegments composed) {segment : Segment}
    {origin : Origin} (member : segment ∈ outerSegments)
    (stray : IsStray innerSegments segment origin) :
    ∃ first, IsFirstStray outerSegments innerSegments first ∧
      composed.sources = inner.sources ++ [outer.sources.getD first.source ""] := by
  obtain ⟨first, found⟩ := Option.isSome_iff_exists.1 (firstStray?_isSome member stray)
  refine ⟨first, isFirstStray_of_firstStray? found, ?_⟩
  rw [parts.sources, addedSource?, found]
  rfl

/-- Where the inner map does not know an origin, the chained map has exactly one segment, which keeps the
line and the column of the origin. Its source has the name of the source of the first such origin, so
all keep the names of their sources when these are all the same. -/
theorem strays_share_source {outer inner : SourceMap} {outerSegments innerSegments : List Segment}
    (outer_read : outer.segments = .ok outerSegments)
    (inner_read : inner.segments = .ok innerSegments)
    (ordered : outerSegments.Pairwise fun earlier later =>
      earlier.generated.before later.generated)
    (columns : ColumnsFit outerSegments innerSegments (nextIndex inner.sources))
    (index : inner.sources.length < 4294967296) :
    ∃ composed segments, compose outer inner = .ok composed ∧ composed.segments = .ok segments ∧
      ∀ segment ∈ outerSegments, ∀ origin, IsStray innerSegments segment origin →
        (∀ chained, chained ∈ segments ∧ chained.generated = segment.generated ↔
          chained = ⟨segment.generated, some ⟨inner.sources.length, origin.position, none⟩⟩) ∧
        (∃ first, IsFirstStray outerSegments innerSegments first ∧
          composed.sources[inner.sources.length]? = some (outer.sources.getD first.source "")) ∧
        ((∀ other ∈ outerSegments, ∀ stray, IsStray innerSegments other stray →
            outer.sources.getD stray.source "" = outer.sources.getD origin.source "") →
          composed.sources[inner.sources.length]? =
            some (outer.sources.getD origin.source "")) := by
  obtain ⟨composed, composed_eq, parts⟩ := exists_isComposed outer_read inner_read
  have composed_read := parts.segments_eq outer_read inner_read columns
  rw [nextIndex_eq_length index] at composed_read
  refine ⟨composed, _, composed_eq, composed_read, ?_⟩
  intro segment member origin stray
  have here : firstAt? (chainAll innerSegments inner.sources.length outerSegments)
      segment.generated =
        some ⟨segment.generated, some ⟨inner.sources.length, origin.position, none⟩⟩ := by
    rw [firstAt?_chainAll _ ordered member, mapped_of_stray stray]
  obtain ⟨first, isFirst, sources_eq⟩ := exists_isFirstStray parts member stray
  have named : composed.sources[inner.sources.length]? =
      some (outer.sources.getD first.source "") := by
    simp [sources_eq]
  refine ⟨fun chained => ⟨?_, ?_⟩, ⟨first, isFirst, named⟩, ?_⟩
  · rintro ⟨chained_mem, same⟩
    have chained_first := mem_inOrder_iff.1 chained_mem
    rw [same, here] at chained_first
    exact (Option.some.inj chained_first).symm
  · rintro rfl
    exact ⟨mem_inOrder_iff.2 here, rfl⟩
  · intro same_name
    obtain ⟨front, other, back, outer_eq, other_stray, -⟩ := isFirst
    rw [named, same_name other (by simp [outer_eq]) first other_stray]

/-- Two strays with a known origin between them and a segment without origin behind them. -/
theorem strays_share_source_oneText :
    ([⟨⟨0, 0⟩, some ⟨0, ⟨4, 1⟩, none⟩⟩, ⟨⟨0, 3⟩, some ⟨0, ⟨0, 0⟩, none⟩⟩,
        ⟨⟨0, 5⟩, some ⟨0, ⟨2, 0⟩, none⟩⟩, ⟨⟨0, 9⟩, none⟩] : List Segment).Pairwise
      (fun earlier later => earlier.generated.before later.generated) ∧
    ColumnsFit
      [⟨⟨0, 0⟩, some ⟨0, ⟨4, 1⟩, none⟩⟩, ⟨⟨0, 3⟩, some ⟨0, ⟨0, 0⟩, none⟩⟩,
        ⟨⟨0, 5⟩, some ⟨0, ⟨2, 0⟩, none⟩⟩, ⟨⟨0, 9⟩, none⟩]
      [⟨⟨0, 0⟩, some ⟨0, ⟨1, 0⟩, none⟩⟩] 1 ∧
    IsStray [⟨⟨0, 0⟩, some ⟨0, ⟨1, 0⟩, none⟩⟩] ⟨⟨0, 5⟩, some ⟨0, ⟨2, 0⟩, none⟩⟩ ⟨0, ⟨2, 0⟩, none⟩ ∧
    ∃ composed segments,
      compose ⟨3, "out.js", none, ["mid.js"], [], [], "AAIC,GAJD,EAEA,I"⟩
          ⟨3, "mid.js", none, ["in.ts"], [], [], "AACA"⟩ = .ok composed ∧
        composed.segments = .ok segments ∧
        ⟨⟨0, 5⟩, some ⟨1, ⟨2, 0⟩, none⟩⟩ ∈ segments ∧ composed.sources[1]? = some "mid.js" := by
  have outer_read :
      (⟨3, "out.js", none, ["mid.js"], [], [], "AAIC,GAJD,EAEA,I"⟩ : SourceMap).segments =
        .ok [⟨⟨0, 0⟩, some ⟨0, ⟨4, 1⟩, none⟩⟩, ⟨⟨0, 3⟩, some ⟨0, ⟨0, 0⟩, none⟩⟩,
          ⟨⟨0, 5⟩, some ⟨0, ⟨2, 0⟩, none⟩⟩, ⟨⟨0, 9⟩, none⟩] := by
    rfl
  have inner_read : (⟨3, "mid.js", none, ["in.ts"], [], [], "AACA"⟩ : SourceMap).segments =
      .ok [⟨⟨0, 0⟩, some ⟨0, ⟨1, 0⟩, none⟩⟩] := by
    rfl
  have ordered : ([⟨⟨0, 0⟩, some ⟨0, ⟨4, 1⟩, none⟩⟩, ⟨⟨0, 3⟩, some ⟨0, ⟨0, 0⟩, none⟩⟩,
        ⟨⟨0, 5⟩, some ⟨0, ⟨2, 0⟩, none⟩⟩, ⟨⟨0, 9⟩, none⟩] : List Segment).Pairwise
      fun earlier later => earlier.generated.before later.generated := by
    decide
  have columns : ColumnsFit
      [⟨⟨0, 0⟩, some ⟨0, ⟨4, 1⟩, none⟩⟩, ⟨⟨0, 3⟩, some ⟨0, ⟨0, 0⟩, none⟩⟩,
        ⟨⟨0, 5⟩, some ⟨0, ⟨2, 0⟩, none⟩⟩, ⟨⟨0, 9⟩, none⟩]
      [⟨⟨0, 0⟩, some ⟨0, ⟨1, 0⟩, none⟩⟩] 1 := by
    unfold ColumnsFit
    decide
  have stray : IsStray [⟨⟨0, 0⟩, some ⟨0, ⟨1, 0⟩, none⟩⟩]
      ⟨⟨0, 5⟩, some ⟨0, ⟨2, 0⟩, none⟩⟩ ⟨0, ⟨2, 0⟩, none⟩ := by
    constructor <;> decide
  refine ⟨ordered, columns, stray, ?_⟩
  obtain ⟨composed, segments, composed_eq, composed_read, falls_back⟩ :=
    strays_share_source outer_read inner_read ordered columns (by decide)
  obtain ⟨place, -, named⟩ := falls_back _ (by simp) _ stray
  refine ⟨composed, segments, composed_eq, composed_read, ((place _).2 rfl).1, named ?_⟩
  intro other member origin other_stray
  simp only [List.mem_cons, List.not_mem_nil, or_false] at member
  rcases member with rfl | rfl | rfl | rfl <;> obtain ⟨origin_eq, -⟩ := other_stray <;>
    simp at origin_eq <;> simp [← origin_eq]

/-- Of two sources that the inner map does not know, the second one gets the name of the first. -/
theorem sources_of_strays_twoTexts :
    (⟨3, "out.js", none, ["a.js", "b.js"], [], [], "AAAA,CCAA"⟩ : SourceMap).segments =
      .ok [⟨⟨0, 0⟩, some ⟨0, ⟨0, 0⟩, none⟩⟩, ⟨⟨0, 1⟩, some ⟨1, ⟨0, 0⟩, none⟩⟩] ∧
    IsStray [] ⟨⟨0, 1⟩, some ⟨1, ⟨0, 0⟩, none⟩⟩ ⟨1, ⟨0, 0⟩, none⟩ ∧
    compose ⟨3, "out.js", none, ["a.js", "b.js"], [], [], "AAAA,CCAA"⟩
        ⟨3, "mid.js", none, [], [], [], ""⟩ =
      .ok ⟨3, "out.js", none, ["a.js"], [], [], "AAAA,CAAA"⟩ ∧
    (⟨3, "out.js", none, ["a.js"], [], [], "AAAA,CAAA"⟩ : SourceMap).segments =
      .ok [⟨⟨0, 0⟩, some ⟨0, ⟨0, 0⟩, none⟩⟩, ⟨⟨0, 1⟩, some ⟨0, ⟨0, 0⟩, none⟩⟩] := by
  have chained_eq : compose ⟨3, "out.js", none, ["a.js", "b.js"], [], [], "AAAA,CCAA"⟩
        ⟨3, "mid.js", none, [], [], [], ""⟩ =
      .ok ⟨3, "out.js", none, ["a.js"], [], [], Mappings.encode (inOrder
        [⟨⟨0, 0⟩, some ⟨0, ⟨0, 0⟩, none⟩⟩, ⟨⟨0, 1⟩, some ⟨0, ⟨0, 0⟩, none⟩⟩])⟩ := by
    rfl
  refine ⟨rfl, ⟨rfl, rfl⟩, ?_, rfl⟩
  rw [chained_eq, inOrder, List.mergeSort_of_pairwise (by decide)]
  rfl

end SourceMap
end Shakedown
