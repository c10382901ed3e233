import Shakedown.Cache
import Shakedown.Proofs.SourceMap.Document
import Shakedown.Proofs.FileTree
import Shakedown.Proofs.Text.Bytes
import Shakedown.Proofs.Text.First

/-!
# Entries of a cache

An entry is read as the result that was kept. Paths may share an entry, yet the text that is hashed
tells them apart: paths with the same entry have the same width, so the bytes can be divided from
their end.
-/

namespace Shakedown

/-! ## Reading an entry -/

namespace Output

/-- A result as a value. -/
def json (output : Output) : Json :=
  .object
    [ (some "content", .ofText output.content)
    , (some "sourceMap", Json.optional SourceMap.json output.map) ]

theorem writes_json (output : Output) : Json.Writes output.toJsonChars output.json := by
  have content := Json.writesMember "content" (Json.writes_text output.content)
  have map := Json.writesMember "sourceMap"
    (Json.writes_optional SourceMap.writes_json output.map)
  exact Json.writes_object (.cons content (.cons map .nil))

theorem mapOfJson?_optional (map : Option SourceMap) :
    mapOfJson? (Json.optional SourceMap.json map) = some map := by
  cases map with
  | none => rfl
  | some map => exact congrArg (Option.map some) map.ofJson?_json

theorem ofJson?_json (output : Output) : ofJson? output.json = some output := by
  simp [ofJson?, json, fieldNames, Json.fields?, Json.knownMembers?, Json.Fields.require,
    Json.Fields.optional, Json.Fields.get?, List.lookup_cons, mapOfJson?_optional, Json.text?_ofText]

end Output

namespace KeptResult

/-- An entry as a value. -/
def json (entry : KeptResult) : Json :=
  .object [(some "hash", .ofText entry.hash), (some "output", entry.output.json)]

theorem read_toJson (entry : KeptResult) : Json.read entry.toJson = some entry.json := by
  have hash := Json.writesMember "hash" (Json.writes_text entry.hash)
  have output := Json.writesMember "output" entry.output.writes_json
  exact (Json.writes_object (.cons hash (.cons output .nil))).read_ofList

/-- Reading an entry back gives what was kept. -/
theorem ofText?_toJson (entry : KeptResult) : ofText? entry.toJson = some entry := by
  rw [ofText?, read_toJson, Option.bind_some]
  simp [json, ofJson?, fieldNames, Json.fields?, Json.knownMembers?, Json.Fields.require,
    Json.Fields.get?, List.lookup_cons, Output.ofJson?_json, Json.text?_ofText]

end KeptResult

namespace Cache

/-! ## What is hashed -/

theorem bytesOf_eq (text : String) : FileTree.bytesOf text = Text.bytesOf text.toList :=
  Text.bytes_eq text

theorem bytesOf_injective {text text' : String}
    (same : FileTree.bytesOf text = FileTree.bytesOf text') : text = text' := by
  have texts := congrArg FileTree.textOf? same
  simpa using texts

/-- A zero byte comes from a zero character only. -/
theorem zero_notMem_bytesOf {text : String} (noZero : '\x00' ∉ text.toList) :
    0 ∉ FileTree.bytesOf text := by
  intro zero
  rw [bytesOf_eq, Text.bytesOf] at zero
  obtain ⟨char, inText, inBytes⟩ := List.mem_flatMap.1 zero
  have notZero : char ≠ '\x00' := fun same => noZero (same ▸ inText)
  have differs : (0 : UInt8) ≠ 0 := Text.ne_byte_of_ne inBytes notZero rfl (by decide)
  exact differs rfl

/-- How a character of a path stands in the name of an entry. -/
def entryChar (char : Char) : Char :=
  if char = '/' ∨ char = '\\' ∨ char = ':' then '_' else char

theorem entryName_eq (path : String) :
    entryName path = String.ofList (path.toList.map entryChar) ++ ".json" := rfl

theorem utf8Size_entryChar (char : Char) : (entryChar char).utf8Size = char.utf8Size := by
  unfold entryChar
  split
  case isTrue replaced => rcases replaced with rfl | rfl | rfl <;> rfl
  case isFalse => rfl

theorem width_map_entryChar (chars : List Char) :
    Text.width (chars.map entryChar) = Text.width chars := by
  induction chars with
  | nil => rfl
  | cons char chars ih => simp [Text.width_cons, utf8Size_entryChar, ih]

/-- Paths that share an entry have the same width. -/
theorem length_bytesOf_of_entryName {path path' : String}
    (same : entryName path = entryName path') :
    (FileTree.bytesOf path).length = (FileTree.bytesOf path').length := by
  have chars : path.toList.map entryChar = path'.toList.map entryChar := by
    have texts := congrArg String.toList same
    simpa [entryName_eq, String.toList_append] using texts
  rw [bytesOf_eq, bytesOf_eq, Text.length_bytesOf, Text.length_bytesOf,
    ← width_map_entryChar path.toList, chars, width_map_entryChar]

theorem flagByte_injective {flag flag' : Bool} (same : flagByte flag = flagByte flag') :
    flag = flag' := by
  revert same
  cases flag <;> cases flag' <;> decide

/-- Lists with a mark between them are divided at the last mark in one way. -/
theorem append_cons_inj_last {α : Type} {front front' back back' : List α} {mark : α}
    (free : mark ∉ back) (free' : mark ∉ back')
    (same : front ++ mark :: back = front' ++ mark :: back') : front = front' ∧ back = back' := by
  have reversed := congrArg List.reverse same
  simp only [List.reverse_append, List.reverse_cons, List.append_assoc, List.singleton_append]
    at reversed
  obtain ⟨backs, fronts⟩ :=
    Text.append_cons_inj (by simpa using free) (by simpa using free') reversed
  exact ⟨List.reverse_injective fronts, List.reverse_injective backs⟩

theorem keyBytes_eq (text input output : String) (emitMap strict : Bool) :
    keyBytes text ⟨some input, some output, emitMap, strict⟩ =
      (((FileTree.bytesOf text ++ [flagByte emitMap, flagByte strict]) ++
        FileTree.bytesOf input) ++ 0 :: FileTree.bytesOf output) ++ [0] := by
  simp [keyBytes, pathBytes]

/-- Where the results for two files share an entry, the bytes hashed tell the texts and the options
apart. -/
theorem eq_of_keyBytes {text text' input input' output output' : String}
    {emitMap emitMap' strict strict' : Bool}
    (free : '\x00' ∉ output.toList) (free' : '\x00' ∉ output'.toList)
    (shared : entryName input = entryName input')
    (same : keyBytes text ⟨some input, some output, emitMap, strict⟩ =
      keyBytes text' ⟨some input', some output', emitMap', strict'⟩) :
    text = text' ∧ Options.mk (some input) (some output) emitMap strict =
      ⟨some input', some output', emitMap', strict'⟩ := by
  rw [keyBytes_eq, keyBytes_eq] at same
  -- behind the last zero but one stands the output, and before it the input, whose width is known
  obtain ⟨ended, -⟩ := List.append_inj' same rfl
  obtain ⟨fronts, outputs⟩ :=
    append_cons_inj_last (zero_notMem_bytesOf free) (zero_notMem_bytesOf free') ended
  obtain ⟨fronts, inputs⟩ := List.append_inj' fronts (length_bytesOf_of_entryName shared)
  obtain ⟨texts, flags⟩ := List.append_inj' fronts rfl
  obtain ⟨emitsMap, isStrict⟩ : flagByte emitMap = flagByte emitMap' ∧
      flagByte strict = flagByte strict' := by simpa using flags
  obtain rfl := bytesOf_injective inputs
  obtain rfl := bytesOf_injective outputs
  obtain rfl := flagByte_injective emitsMap
  obtain rfl := flagByte_injective isStrict
  exact ⟨bytesOf_injective texts, rfl⟩

/-! ## Finding what was kept -/

section

variable {directory path text : String} {options : Options} {tree : FileTree}

theorem find_of_get?_none (held : tree.get? (entryLocation directory path) = none) :
    find directory path text options tree = (none, tree) := by
  simp [find, held]

theorem find_of_get? {entry : KeptResult}
    (held : tree.get? (entryLocation directory path) = some (FileTree.bytesOf entry.toJson)) :
    find directory path text options tree =
      (if entry.hash = hash text options then some entry.output else none, tree) := by
  simp [find, held, KeptResult.ofText?_toJson]

/-- What was kept is found for the same text and options, if a file may be written for it. -/
theorem find_keep (directory path text : String) (options : Options) (output : Output)
    (tree : FileTree) :
    find directory path text options (keep directory path text options output tree) =
      if tree.accepts (entryLocation directory path) then
        (some output, keep directory path text options output tree)
      else find directory path text options tree := by
  rw [keep]
  split
  case isFalse => rfl
  case isTrue =>
    have held := FileTree.get?_put tree (entryLocation directory path)
      (entryLocation directory path)
      (FileTree.bytesOf (KeptResult.toJson ⟨hash text options, output⟩))
    rw [if_pos rfl] at held
    rw [find_of_get? held, if_pos rfl]

end

/-- The text of a document or an entry is that of one value and is read back as what was written,
whatever characters its texts hold. So what is kept is found again. -/
theorem reads_what_is_written :
    (∀ map : SourceMap,
      Json.read map.toJson = some map.json ∧ SourceMap.ofText map.toJson = .ok map) ∧
    (∀ entry : KeptResult,
      Json.read entry.toJson = some entry.json ∧ KeptResult.ofText? entry.toJson = some entry) ∧
    ∀ directory path text options output tree,
      find directory path text options (keep directory path text options output tree) =
        if tree.accepts (entryLocation directory path) then
          (some output, keep directory path text options output tree)
        else find directory path text options tree :=
  ⟨fun map => ⟨map.read_toJson, map.ofText_toJson⟩,
    fun entry => ⟨entry.read_toJson, entry.ofText?_toJson⟩, find_keep⟩

end Cache
end Shakedown
