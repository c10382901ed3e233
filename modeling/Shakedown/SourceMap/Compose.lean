import Shakedown.SourceMap.Document

/-!
# Chaining source maps

Two maps in a row, from the generated text to an intermediate one and from there to the sources,
make one map. A range copied from the intermediate text carries over every inner segment that
falls into it. Where the inner map knows no origin the intermediate text itself is kept as one
more source.
-/

namespace Shakedown
namespace SourceMap

/-- Where in the intermediate text the range of an outer segment ends: at the next segment of the
same line, if there is one. -/
def rangeEnd? (segment : Segment) (origin : Origin) (next : Option Segment) : Option Nat :=
  match next with
  | none => none
  | some next =>
      if next.generated.line = segment.generated.line then
        some (origin.position.column + (next.generated.column - segment.generated.column))
      else
        none

/-- The inner segments strictly inside the range of an outer segment, moved to where the range is
in the generated text. -/
def carried (inner : List Segment) (segment : Segment) (origin : Origin) (rangeEnd : Option Nat) :
    List Segment :=
  let inside := inner.filter fun candidate =>
    candidate.generated.line == origin.position.line &&
      origin.position.column < candidate.generated.column &&
      rangeEnd.all (candidate.generated.column < ·)
  inside.map fun candidate =>
    let offset := candidate.generated.column - origin.position.column
    { candidate with
      generated := ⟨segment.generated.line, segment.generated.column + offset⟩ }

/-- What an outer segment becomes, given the index of the intermediate source. -/
def chain (inner : List Segment) (intermediate : Nat) (segment : Segment)
    (next : Option Segment) : List Segment :=
  match segment.origin with
  | none => [segment]
  | some origin =>
      let mapped := (Segment.lookup inner origin.position).getD
        { origin with source := intermediate, name := none }
      { segment with origin := some mapped } ::
        carried inner segment origin (rangeEnd? segment origin next)

/-- What the outer segments become. -/
def chainAll (inner : List Segment) (intermediate : Nat) : List Segment → List Segment
  | [] => []
  | segment :: rest =>
      chain inner intermediate segment rest.head? ++ chainAll inner intermediate rest

/-- The first origin in the intermediate text that the inner map does not know. -/
def firstStray? (outer inner : List Segment) : Option Origin :=
  outer.findSome? fun segment =>
    segment.origin.filter fun origin => (Segment.lookup inner origin.position).isNone

/-- The segments without those that stand at the same place as the one before. -/
def dropRepeated : List Segment → List Segment
  | [] => []
  | segment :: rest =>
      segment :: match dropRepeated rest with
        | [] => []
        | next :: others =>
            if next.generated = segment.generated then others else next :: others

/-- The segments in reading order, the first of those at one place. -/
def inOrder (segments : List Segment) : List Segment :=
  dropRepeated (segments.mergeSort fun left right => !right.generated.before left.generated)

/-- The index that one more source gets, a word of 32 bits. -/
def nextIndex (sources : List String) : Nat :=
  sources.length % 4294967296

theorem nextIndex_eq_length {sources : List String} (small : sources.length < 4294967296) :
    nextIndex sources = sources.length :=
  Nat.mod_eq_of_lt small

theorem nextIndex_lt (sources : List String) : nextIndex sources < 4294967296 :=
  Nat.mod_lt _ (by decide)

theorem nextIndex_le_length (sources : List String) : nextIndex sources ≤ sources.length :=
  Nat.mod_le _ _

/-- The map that leads through `outer` and then through `inner`. -/
def compose (outer inner : SourceMap) : Except Failure SourceMap := do
  let outerSegments ← outer.segments
  let innerSegments ← inner.segments
  let added := (firstStray? outerSegments innerSegments).map fun origin =>
    outer.sources.getD origin.source ""
  return {
    version := currentVersion
    file := outer.file
    sourceRoot := inner.sourceRoot
    sources := inner.sources ++ added.toList
    sourcesContent :=
      if inner.sourcesContent.isEmpty then []
      else inner.sourcesContent ++ added.toList.map fun _ => none
    names := inner.names
    mappings :=
      Mappings.encode (inOrder (chainAll innerSegments (nextIndex inner.sources) outerSegments)) }

end SourceMap
end Shakedown
