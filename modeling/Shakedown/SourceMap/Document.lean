import Shakedown.Failure
import Shakedown.SourceMap.Mappings

/-!
# Source map documents

A source map in the third version of the format: the sources of a generated text, the names used
in them, and the text of the mappings.
-/

namespace Shakedown

/-- A source map document. -/
structure SourceMap where
  /-- Version of the format. -/
  version : UInt8
  /-- Name of the generated file. -/
  file : String
  /-- What the names of the sources are relative to. -/
  sourceRoot : Option String
  /-- Names of the sources. -/
  sources : List String
  /-- Texts of the sources, as far as they are given. -/
  sourcesContent : List (Option String)
  /-- Names used in the sources. -/
  names : List String
  /-- Text of the mappings. -/
  mappings : String
  deriving DecidableEq, Repr, Inhabited

namespace SourceMap

/-- The version of the format that is written. -/
def currentVersion : UInt8 := 3

/-- The failure to read the text of mappings. -/
def malformed (mappings : String) : Failure :=
  { cause := .malformedMappings (String.ofList (mappings.toList.take 32)), file := "" }

/-- The segments of a text of mappings, or the failure to read it. -/
def segmentsOf (mappings : String) : Except Failure (List Segment) :=
  match Mappings.decode mappings with
  | some segments => .ok segments
  | none => .error (malformed mappings)

/-- The segments of a map. -/
def segments (map : SourceMap) : Except Failure (List Segment) :=
  segmentsOf map.mappings

/-- The origin of a place of the generated text. -/
def lookup (map : SourceMap) (place : Position) : Except Failure (Option Origin) :=
  map.segments.map (Segment.lookup · place)

/-- The map of a file with one source. -/
def ofSegments (file source : String) (content : Option String) (segments : List Segment) :
    SourceMap :=
  { version := currentVersion
    file
    sourceRoot := none
    sources := [source]
    sourcesContent := match content with
      | none => []
      | some text => [some text]
    names := []
    mappings := Mappings.encode segments }

end SourceMap
end Shakedown
