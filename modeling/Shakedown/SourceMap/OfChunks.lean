import Shakedown.Edit.Chunk
import Shakedown.SourceMap.Document

/-!
# The map of an edited text

Copied text gets a segment where it begins and one at each line start inside it; new text gets one
segment that has no origin.
-/

namespace Shakedown
namespace SourceMap

/-- Text copied from the one source, with its place there. -/
def copied (generated inSource : Position) : Segment :=
  { generated, origin := some { source := 0, position := inSource, name := none } }

/-- Text that has no source. -/
def unmapped (generated : Position) : Segment :=
  { generated, origin := none }

/-- The segments at the line starts inside a copied text. -/
def lineStarts (generated inSource : Position) : List Char → List Segment
  | [] => []
  | char :: rest =>
      let generated := generated.step char
      let inSource := inSource.step char
      if char = '\n' && !rest.isEmpty then
        copied generated inSource :: lineStarts generated inSource rest
      else
        lineStarts generated inSource rest

/-- The segments of a chunk that begins at `generated`. -/
def chunkSegments (source : String) (generated : Position) (chunk : Chunk) : List Segment :=
  let text := (chunk.text source).toList
  if text.isEmpty then
    []
  else
    match chunk with
    | .copied span =>
        let inSource := Position.ofOffset source span.start
        copied generated inSource :: lineStarts generated inSource text
    | .synthetic _ => [unmapped generated]

/-- The segments of chunks that begin at `generated`. -/
def chunksSegments (source : String) (generated : Position) : List Chunk → List Segment
  | [] => []
  | chunk :: rest =>
      chunkSegments source generated chunk ++
        chunksSegments source (generated.advance (chunk.text source).toList) rest

/-- The map of the text made of `chunks` of `source`. -/
def ofChunks (source : String) (chunks : List Chunk) (file sourceName : String) : SourceMap :=
  ofSegments file sourceName (some source) (chunksSegments source Position.origin chunks)

/-- The map that takes every place of a text to itself. -/
def identity (content file sourceName : String) : SourceMap :=
  ofChunks content [.copied ⟨0, Text.width content.toList⟩] file sourceName

end SourceMap
end Shakedown
