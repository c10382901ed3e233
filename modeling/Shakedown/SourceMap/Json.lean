import Shakedown.Json.Printer
import Shakedown.Json.Reader
import Shakedown.SourceMap.Document

/-!
# Source map documents as JSON

Only the version is required; the file and the source root may be `null`. Writing leaves an absent
source root and an empty list of source texts out.
-/

namespace Shakedown
namespace SourceMap

/-- The fields of a document in the order in which they are written. -/
def fieldNames : List String :=
  ["version", "file", "sourceRoot", "sources", "sourcesContent", "names", "mappings"]

/-- The document that a value stands for. -/
def ofJson? (json : Json) : Option SourceMap := do
  let fields ← json.fields? fieldNames
  return {
    version := ← fields.require "version" Json.byte?
    file := (← fields.getD "file" Json.optionalText? none).getD ""
    sourceRoot := ← fields.getD "sourceRoot" Json.optionalText? none
    sources := ← fields.getD "sources" (Json.list? Json.text?) []
    sourcesContent := ← fields.getD "sourcesContent" (Json.list? Json.optionalText?) []
    names := ← fields.getD "names" (Json.list? Json.text?) []
    mappings := ← fields.getD "mappings" Json.text? "" }

/-- The members that are written for a document. -/
def members (map : SourceMap) : List (List Char) :=
  [ Json.writeMember "version" map.version.toNat.repr.toList
  , Json.writeMember "file" (Json.writeText map.file) ] ++
  (map.sourceRoot.toList.map fun root => Json.writeMember "sourceRoot" (Json.writeText root)) ++
  [ Json.writeMember "sources" (Json.writeArray (map.sources.map Json.writeText)) ] ++
  (if map.sourcesContent.isEmpty then []
   else
    [ Json.writeMember "sourcesContent"
        (Json.writeArray (map.sourcesContent.map (Json.writeOptional Json.writeText))) ]) ++
  [ Json.writeMember "names" (Json.writeArray (map.names.map Json.writeText))
  , Json.writeMember "mappings" (Json.writeText map.mappings) ]

/-- The characters of a document. -/
def toJsonChars (map : SourceMap) : List Char :=
  Json.writeObject map.members

/-- The text of a document. -/
def toJson (map : SourceMap) : String :=
  String.ofList map.toJsonChars

/-- Reads the text of a document. -/
def ofText (text : String) : Except Failure SourceMap :=
  match (Json.read text).bind ofJson? with
  | some map => .ok map
  | none => .error { cause := .malformedMap, file := "" }

end SourceMap
end Shakedown
