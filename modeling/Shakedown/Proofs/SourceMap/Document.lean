import Shakedown.Proofs.Json.RoundTrip
import Shakedown.SourceMap.Json

/-!
# Reading a source map document that was written

Every document is written as the text of one object, and that object is read as the document.
-/

namespace Shakedown
namespace Json

variable {α : Type}

/-- A text as a value. -/
def ofText (text : String) : Json :=
  .string (some text)

theorem writes_list {write : α → List Char} {value : α → Json}
    (writes : ∀ item, Writes (write item) (value item)) (items : List α) :
    Writes (writeArray (items.map write)) (.array (items.map value)) := by
  refine writes_array ?_
  rw [List.forall₂_map_left_iff, List.forall₂_map_right_iff, List.forall₂_same]
  exact fun item _ => writes item

theorem list?_map {read : Json → Option α} {value : α → Json}
    (reads : ∀ item, read (value item) = some item) (items : List α) :
    list? read (.array (items.map value)) = some items := by
  induction items with
  | nil => rfl
  | cons item items ih =>
      simp only [list?] at ih ⊢
      simp [List.mapM_cons, reads, ih]

theorem text?_ofText (text : String) : text? (ofText text) = some text := rfl

theorem optionalText?_ofText (text : String) : optionalText? (ofText text) = some (some text) := rfl

theorem optionalText?_optional (text : Option String) :
    optionalText? (optional ofText text) = some text := by
  cases text <;> rfl

end Json

namespace SourceMap

/-- The members of a document as values. -/
def jsonMembers (map : SourceMap) : List (Option String × Json) :=
  [ (some "version", .integer map.version.toNat), (some "file", .ofText map.file) ] ++
  (map.sourceRoot.toList.map fun root => (some "sourceRoot", .ofText root)) ++
  [ (some "sources", .array (map.sources.map .ofText)) ] ++
  (if map.sourcesContent.isEmpty then []
   else [ (some "sourcesContent", .array (map.sourcesContent.map (Json.optional .ofText))) ]) ++
  [ (some "names", .array (map.names.map .ofText)), (some "mappings", .ofText map.mappings) ]

/-- A document as a value. -/
def json (map : SourceMap) : Json :=
  .object map.jsonMembers

theorem writes_json (map : SourceMap) : Json.Writes map.toJsonChars map.json := by
  have text (key text : String) := Json.writesMember key (Json.writes_text text)
  have texts (key : String) (items : List String) :=
    Json.writesMember key (Json.writes_list Json.writes_text items)
  have root : List.Forall₂ Json.WritesMember
      (map.sourceRoot.toList.map fun root => Json.writeMember "sourceRoot" (Json.writeText root))
      (map.sourceRoot.toList.map fun root => (some "sourceRoot", .ofText root)) := by
    cases map.sourceRoot with
    | none => exact .nil
    | some root => exact .cons (text _ root) .nil
  have contents : List.Forall₂ Json.WritesMember
      (if map.sourcesContent.isEmpty then [] else
        [Json.writeMember "sourcesContent"
          (Json.writeArray (map.sourcesContent.map (Json.writeOptional Json.writeText)))])
      (if map.sourcesContent.isEmpty then [] else
        [(some "sourcesContent", .array (map.sourcesContent.map (Json.optional .ofText)))]) := by
    split
    · exact .nil
    · have writes := Json.writes_list (Json.writes_optional Json.writes_text) map.sourcesContent
      exact .cons (Json.writesMember _ writes) .nil
  have first := Json.writesMember "version" (Json.writes_byte map.version)
  refine Json.writes_object (List.rel_append (List.rel_append (List.rel_append
    (List.rel_append ?_ root) ?_) contents) ?_)
  · exact .cons first (.cons (text _ _) .nil)
  · exact .cons (texts _ _) .nil
  · exact .cons (texts _ _) (.cons (text _ _) .nil)

/-- The fields that the reader finds in the value of a document. -/
theorem fields?_json (map : SourceMap) :
    map.json.fields? fieldNames =
      some ⟨map.jsonMembers.filterMap fun (key, value) => key.map (·, value), true⟩ := by
  obtain ⟨version, file, root, sources, contents, names, mappings⟩ := map
  cases root <;> cases contents <;> rfl

theorem byte?_toNat (byte : UInt8) : Json.byte? (.integer byte.toNat) = some byte := by
  have inByte := byte.toNat_lt
  simp only [Json.byte?]
  rw [if_pos (by omega)]
  simp

/-- The value of a document stands for it. -/
theorem ofJson?_json (map : SourceMap) : ofJson? map.json = some map := by
  have listed := Json.list?_map Json.text?_ofText
  have embedded := Json.list?_map Json.optionalText?_optional
  rw [ofJson?, fields?_json]
  obtain ⟨version, file, root, sources, contents, names, mappings⟩ := map
  rcases root with _ | root <;> rcases contents with _ | ⟨content, contents⟩ <;>
    simp [jsonMembers, Json.Fields.require, Json.Fields.getD, Json.Fields.get?, List.lookup_cons,
      byte?_toNat, listed, embedded, Json.text?_ofText, Json.optionalText?_ofText, -List.map_cons]

theorem read_toJson (map : SourceMap) : Json.read map.toJson = some map.json :=
  map.writes_json.read_ofList

/-- Reading the text of a document gives the document. -/
theorem ofText_toJson (map : SourceMap) : ofText map.toJson = .ok map := by
  rw [ofText, read_toJson, Option.bind_some, ofJson?_json]

end SourceMap
end Shakedown
