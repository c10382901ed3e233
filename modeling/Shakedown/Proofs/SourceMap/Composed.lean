import Shakedown.Proofs.SourceMap.Chaining

/-!
# Chained maps are well formed

Two maps are chained whenever their mappings can be read, and then the mappings of the result can be
read as well, in strict reading order. An origin in the result is one of the inner map, so its source
and its name are listed there, or it lies in the intermediate text, which is then listed behind the
sources of the inner map.
-/

namespace Shakedown
namespace SourceMap

/-! ## Origins of chained segments -/

/-- The origin lies in the intermediate text at a place that the inner segments do not know. -/
def IsStray (inner : List Segment) (segment : Segment) (origin : Origin) : Prop :=
  segment.origin = some origin ∧ Segment.lookup inner origin.position = none

theorem exists_of_lookup {segments : List Segment} {place : Position} {answer : Origin}
    (found : Segment.lookup segments place = some answer) :
    ∃ segment ∈ segments, ∃ origin, segment.origin = some origin ∧
      answer.source = origin.source ∧ answer.name = origin.name := by
  cases governs : Segment.governing? segments place with
  | none => simp [Segment.lookup_of_ungoverned governs] at found
  | some segment =>
      rw [Segment.lookup_of_governing? governs] at found
      obtain ⟨origin, origin_eq, rfl⟩ := Option.map_eq_some_iff.1 found
      exact ⟨segment, (Segment.reaches_of_governing? governs).1, origin, origin_eq, rfl, rfl⟩

/-- A chained segment has the source and the name of an inner segment, or stands for a stray. -/
theorem origin_of_mem_chain {inner : List Segment} {intermediate : Nat} {segment : Segment}
    {next : Option Segment} {chained : Segment} {answer : Origin}
    (member : chained ∈ chain inner intermediate segment next) (answer_eq : chained.origin = some answer) :
    (∃ original ∈ inner, ∃ origin, original.origin = some origin ∧
        answer.source = origin.source ∧ answer.name = origin.name) ∨
      (answer.source = intermediate ∧ answer.name = none ∧
        ∃ origin, IsStray inner segment origin) := by
  unfold chain at member
  split at member
  · rename_i origin_eq
    rw [List.mem_singleton.1 member, origin_eq] at answer_eq
    simp at answer_eq
  · rename_i origin origin_eq
    rcases List.mem_cons.1 member with rfl | inside
    · cases known : Segment.lookup inner origin.position with
      | none =>
          rw [known] at answer_eq
          obtain rfl := Option.some.inj answer_eq
          exact .inr ⟨rfl, rfl, origin, origin_eq, known⟩
      | some mapped =>
          rw [known] at answer_eq
          obtain rfl := Option.some.inj answer_eq
          exact .inl (exists_of_lookup known)
    · obtain ⟨original, original_mem, -, -, -, rfl⟩ := mem_carried.1 inside
      exact .inl ⟨original, original_mem, answer, answer_eq, rfl, rfl⟩

theorem origin_of_mem_chainAll {inner outer : List Segment} {intermediate : Nat} {chained : Segment}
    {answer : Origin} (member : chained ∈ chainAll inner intermediate outer)
    (answer_eq : chained.origin = some answer) :
    (∃ original ∈ inner, ∃ origin, original.origin = some origin ∧
        answer.source = origin.source ∧ answer.name = origin.name) ∨
      (answer.source = intermediate ∧ answer.name = none ∧
        ∃ segment ∈ outer, ∃ origin, IsStray inner segment origin) := by
  induction outer with
  | nil => simp [chainAll] at member
  | cons first rest ih =>
      rcases List.mem_append.1 member with here | behind
      · rcases origin_of_mem_chain here answer_eq with known | ⟨source_eq, name_eq, stray⟩
        · exact .inl known
        · exact .inr ⟨source_eq, name_eq, first, List.mem_cons_self, stray⟩
      · rcases ih behind with known | ⟨source_eq, name_eq, segment, segment_mem, stray⟩
        · exact .inl known
        · exact .inr ⟨source_eq, name_eq, segment, List.mem_cons_of_mem _ segment_mem, stray⟩

/-! ## The chained map -/

theorem firstStray?_isSome {outer inner : List Segment} {segment : Segment} {origin : Origin}
    (member : segment ∈ outer) (stray : IsStray inner segment origin) :
    (firstStray? outer inner).isSome := by
  rw [firstStray?, List.isSome_findSome?]
  refine List.any_eq_true.2 ⟨segment, member, ?_⟩
  simp [stray.1, stray.2]

theorem exists_segments_of_compose {outer inner composed : SourceMap}
    (composed_eq : compose outer inner = .ok composed) :
    (∃ segments, outer.segments = .ok segments) ∧ ∃ segments, inner.segments = .ok segments := by
  unfold compose at composed_eq
  cases outer_read : outer.segments with
  | error failure => simp [outer_read, bind, Except.bind] at composed_eq
  | ok outerSegments =>
      cases inner_read : inner.segments with
      | error failure => simp [outer_read, inner_read, bind, Except.bind] at composed_eq
      | ok innerSegments => exact ⟨⟨outerSegments, rfl⟩, ⟨innerSegments, rfl⟩⟩

/-! ## Well-formed maps -/

/-- The sources that the segments name are listed by the map. -/
def ListsSources (map : SourceMap) (segments : List Segment) : Prop :=
  ∀ segment ∈ segments, ∀ origin ∈ segment.origin, origin.source < map.sources.length

/-- The names that the segments give are listed by the map. -/
def ListsNames (map : SourceMap) (segments : List Segment) : Prop :=
  ∀ segment ∈ segments, ∀ origin ∈ segment.origin, ∀ name ∈ origin.name, name < map.names.length

/-- The map gives no texts of sources at all, or says of each source whether it gives its text. -/
def MatchesContents (map : SourceMap) : Prop :=
  map.sourcesContent = [] ∨ map.sourcesContent.length = map.sources.length

/-- A chained map is well formed as far as the inner map is. -/
structure KeepsForm (inner : SourceMap) (innerSegments : List Segment) (composed : SourceMap)
    (segments : List Segment) : Prop where
  /-- The segments stand in strict reading order. -/
  ordered : segments.Pairwise fun earlier later => earlier.generated.before later.generated
  /-- Sources that are named are listed. -/
  sources : ListsSources inner innerSegments → ListsSources composed segments
  /-- Names that are given are listed. -/
  names : ListsNames inner innerSegments → ListsNames composed segments
  /-- At most one source is added, behind those of the inner map. -/
  added : ∃ added, composed.sources = inner.sources ++ added ∧ added.length ≤ 1
  /-- The texts of the sources still match the sources. -/
  contents : MatchesContents inner → MatchesContents composed

namespace IsComposed

variable {outer inner composed : SourceMap} {outerSegments innerSegments : List Segment}

theorem listsSources (parts : IsComposed outer inner outerSegments innerSegments composed)
    (listed : ListsSources inner innerSegments) :
    ListsSources composed
      (inOrder (chainAll innerSegments (nextIndex inner.sources) outerSegments)) := by
  intro chained member answer answer_eq
  rw [parts.sources, List.length_append]
  rcases origin_of_mem_chainAll (mem_of_mem_inOrder member) answer_eq with
    ⟨original, original_mem, origin, origin_eq, source_eq, -⟩ |
    ⟨source_eq, -, segment, segment_mem, origin, stray⟩
  · have := listed original original_mem origin origin_eq
    omega
  · have index_le := nextIndex_le_length inner.sources
    obtain ⟨first, first_eq⟩ := Option.isSome_iff_exists.1 (firstStray?_isSome segment_mem stray)
    simp only [addedSource?, first_eq, Option.map_some, Option.toList_some, List.length_singleton]
    omega

theorem listsNames (parts : IsComposed outer inner outerSegments innerSegments composed)
    (listed : ListsNames inner innerSegments) :
    ListsNames composed
      (inOrder (chainAll innerSegments (nextIndex inner.sources) outerSegments)) := by
  intro chained member answer answer_eq name given
  rw [parts.names]
  rcases origin_of_mem_chainAll (mem_of_mem_inOrder member) answer_eq with
    ⟨original, original_mem, origin, origin_eq, -, name_eq⟩ | ⟨-, name_eq, -⟩
  · exact listed original original_mem origin origin_eq name (name_eq ▸ given)
  · rw [name_eq] at given
    simp at given

theorem exists_added (parts : IsComposed outer inner outerSegments innerSegments composed) :
    ∃ added, composed.sources = inner.sources ++ added ∧ added.length ≤ 1 := by
  refine ⟨_, parts.sources, ?_⟩
  cases addedSource? outer outerSegments innerSegments <;> simp

theorem matchesContents (parts : IsComposed outer inner outerSegments innerSegments composed)
    (listed : MatchesContents inner) : MatchesContents composed := by
  unfold MatchesContents
  rw [parts.contents, parts.sources]
  rcases listed with none_given | same_length
  · exact .inl (by simp [none_given])
  · split
    · exact .inl rfl
    · exact .inr (by simp [same_length])

end IsComposed

/-- Two maps are chained if and only if the mappings of both can be read. The mappings of the chained
map can be read then, and the map has the form that the inner map has: strict reading order, sources
and names within bounds, one more source at most, and texts to match the sources. -/
theorem keepsForm_of_compose (outer inner : SourceMap) :
    ((∃ composed, compose outer inner = .ok composed) ↔
      (∃ segments, outer.segments = .ok segments) ∧ ∃ segments, inner.segments = .ok segments) ∧
    ∀ outerSegments innerSegments, outer.segments = .ok outerSegments →
      inner.segments = .ok innerSegments →
      ColumnsFit outerSegments innerSegments (nextIndex inner.sources) →
      ∀ composed, compose outer inner = .ok composed →
        ∃ segments, composed.segments = .ok segments ∧
          KeepsForm inner innerSegments composed segments := by
  refine ⟨⟨fun ⟨_, composed_eq⟩ => exists_segments_of_compose composed_eq, ?_⟩, ?_⟩
  · rintro ⟨⟨outerSegments, outer_read⟩, innerSegments, inner_read⟩
    obtain ⟨composed, composed_eq, -⟩ := exists_isComposed outer_read inner_read
    exact ⟨composed, composed_eq⟩
  · intro outerSegments innerSegments outer_read inner_read columns composed composed_eq
    obtain ⟨other, other_eq, parts⟩ := exists_isComposed outer_read inner_read
    obtain rfl : other = composed := Except.ok.inj (other_eq.symm.trans composed_eq)
    exact ⟨_, parts.segments_eq outer_read inner_read columns, pairwise_before_inOrder _,
      parts.listsSources, parts.listsNames, parts.exists_added, parts.matchesContents⟩

/-- Outer segments in no order, two of them at one place and two with origins that the inner map does not
know; inner segments in no order either, two of them at one place. -/
theorem keepsForm_of_compose_unordered :
    ColumnsFit
      [⟨⟨0, 4⟩, some ⟨0, ⟨0, 2⟩, none⟩⟩, ⟨⟨0, 0⟩, some ⟨0, ⟨0, 0⟩, none⟩⟩, ⟨⟨0, 0⟩, none⟩,
        ⟨⟨1, 0⟩, some ⟨1, ⟨5, 0⟩, none⟩⟩]
      [⟨⟨0, 1⟩, some ⟨0, ⟨2, 0⟩, some 0⟩⟩, ⟨⟨0, 1⟩, none⟩, ⟨⟨0, 0⟩, some ⟨0, ⟨1, 3⟩, none⟩⟩] 1 ∧
    ∃ composed segments,
      compose ⟨3, "out.js", none, ["mid.js"], [], [], "IAAE,JAAF,A;ACKA"⟩
          ⟨3, "m.js", none, ["in.ts"], [none], ["f"], "CAEAA,A,DADG"⟩ = .ok composed ∧
        composed.segments = .ok segments ∧
        segments.Pairwise (fun earlier later => earlier.generated.before later.generated) ∧
        ListsSources composed segments ∧ ListsNames composed segments ∧
        MatchesContents composed := by
  have outer_read :
      (⟨3, "out.js", none, ["mid.js"], [], [], "IAAE,JAAF,A;ACKA"⟩ : SourceMap).segments =
        .ok [⟨⟨0, 4⟩, some ⟨0, ⟨0, 2⟩, none⟩⟩, ⟨⟨0, 0⟩, some ⟨0, ⟨0, 0⟩, none⟩⟩, ⟨⟨0, 0⟩, none⟩,
          ⟨⟨1, 0⟩, some ⟨1, ⟨5, 0⟩, none⟩⟩] := by
    rfl
  have inner_read :
      (⟨3, "m.js", none, ["in.ts"], [none], ["f"], "CAEAA,A,DADG"⟩ : SourceMap).segments =
        .ok [⟨⟨0, 1⟩, some ⟨0, ⟨2, 0⟩, some 0⟩⟩, ⟨⟨0, 1⟩, none⟩,
          ⟨⟨0, 0⟩, some ⟨0, ⟨1, 3⟩, none⟩⟩] := by
    rfl
  have columns : ColumnsFit
      [⟨⟨0, 4⟩, some ⟨0, ⟨0, 2⟩, none⟩⟩, ⟨⟨0, 0⟩, some ⟨0, ⟨0, 0⟩, none⟩⟩, ⟨⟨0, 0⟩, none⟩,
        ⟨⟨1, 0⟩, some ⟨1, ⟨5, 0⟩, none⟩⟩]
      [⟨⟨0, 1⟩, some ⟨0, ⟨2, 0⟩, some 0⟩⟩, ⟨⟨0, 1⟩, none⟩, ⟨⟨0, 0⟩, some ⟨0, ⟨1, 3⟩, none⟩⟩] 1 := by
    unfold ColumnsFit
    decide
  refine ⟨columns, ?_⟩
  obtain ⟨succeeds, keeps⟩ := keepsForm_of_compose
    ⟨3, "out.js", none, ["mid.js"], [], [], "IAAE,JAAF,A;ACKA"⟩
    ⟨3, "m.js", none, ["in.ts"], [none], ["f"], "CAEAA,A,DADG"⟩
  obtain ⟨composed, composed_eq⟩ := succeeds.2 ⟨⟨_, outer_read⟩, _, inner_read⟩
  obtain ⟨segments, composed_read, form⟩ :=
    keeps _ _ outer_read inner_read columns composed composed_eq
  refine ⟨composed, segments, composed_eq, composed_read, form.ordered, form.sources ?_, form.names ?_,
    form.contents (.inr rfl)⟩
  · unfold ListsSources
    decide
  · unfold ListsNames
    decide

end SourceMap
end Shakedown
