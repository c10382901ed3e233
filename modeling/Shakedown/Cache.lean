import Shakedown.Digest.Sha256
import Shakedown.FileTree
import Shakedown.Module.Optimize
import Shakedown.SourceMap.Json

/-!
# Caching results

A result is kept in one file for each input path. It holds as long as the text and the options are
the same, which is told by a digest of both.
-/

namespace Shakedown

/-- A kept result. -/
structure KeptResult where
  /-- The digest of the text and the options. -/
  hash : String
  /-- The result. -/
  output : Output
  deriving DecidableEq, Repr, Inhabited

namespace Output

/-- The fields of a result in order. -/
def fieldNames : List String := ["content", "sourceMap"]

/-- The map that a value stands for, which may be absent. -/
def mapOfJson? : Json → Option (Option SourceMap)
  | .null => some none
  | value => (SourceMap.ofJson? value).map some

/-- The result that a value stands for. -/
def ofJson? (json : Json) : Option Output := do
  let fields ← json.fields? fieldNames
  return {
    content := ← fields.require "content" Json.text?
    map := ← fields.optional "sourceMap" mapOfJson? none }

/-- The text of a result. -/
def toJsonChars (output : Output) : List Char :=
  Json.writeObject
    [ Json.writeMember "content" (Json.writeText output.content)
    , Json.writeMember "sourceMap" (Json.writeOptional SourceMap.toJsonChars output.map) ]

end Output

namespace KeptResult

/-- The fields of an entry in order. -/
def fieldNames : List String := ["hash", "output"]

/-- The entry that a value stands for. -/
def ofJson? (json : Json) : Option KeptResult := do
  let fields ← json.fields? fieldNames
  return {
    hash := ← fields.require "hash" Json.text?
    output := ← fields.require "output" Output.ofJson? }

/-- The entry that a text stands for. -/
def ofText? (text : String) : Option KeptResult :=
  (Json.read text).bind ofJson?

/-- The text of an entry. -/
def toJson (entry : KeptResult) : String :=
  String.ofList (Json.writeObject
    [ Json.writeMember "hash" (Json.writeText entry.hash)
    , Json.writeMember "output" entry.output.toJsonChars ])

end KeptResult

namespace Cache

/-- A byte that says yes or no. -/
def flagByte (flag : Bool) : UInt8 :=
  if flag then 1 else 0

/-- The bytes of a path, which may be absent, with a zero behind them. -/
def pathBytes (path : Option String) : List UInt8 :=
  FileTree.bytesOf (path.getD "") ++ [0]

/-- The bytes that tell a text and options from others. -/
def keyBytes (text : String) (options : Options) : List UInt8 :=
  FileTree.bytesOf text ++ [flagByte options.emitMap, flagByte options.strict] ++
    pathBytes options.inputPath ++ pathBytes options.outputPath

/-- The digest of a text and options. -/
def hash (text : String) (options : Options) : String :=
  Sha256.hexDigest (keyBytes text options)

/-- The name of the file that keeps the result for an input path. -/
def entryName (path : String) : String :=
  String.ofList (path.toList.map fun char =>
    if char = '/' ∨ char = '\\' ∨ char = ':' then '_' else char) ++ ".json"

/-- Where the result for an input path is kept. -/
def entryLocation (directory path : String) : Location :=
  Path.components directory ++ [entryName path]

/-- The kept result for an input path, and the tree behind the search: an entry that cannot be read
is taken away. -/
def find (directory path text : String) (options : Options) (tree : FileTree) :
    Option Output × FileTree :=
  let location := entryLocation directory path
  match (tree.get? location).bind FileTree.textOf? with
  | none => (none, tree)
  | some data =>
      match KeptResult.ofText? data with
      | none => (none, tree.erase location)
      | some entry =>
          (if entry.hash = hash text options then some entry.output else none, tree)

/-- The tree with a result kept for an input path. Where no file may be written nothing is kept. -/
def keep (directory path text : String) (options : Options) (output : Output) (tree : FileTree) :
    FileTree :=
  if tree.accepts (entryLocation directory path) then
    let entry : KeptResult := { hash := hash text options, output }
    tree.put (entryLocation directory path) (FileTree.bytesOf entry.toJson)
  else
    tree

/-- The tree with the directory of a cache. -/
def prepare (directory : String) (tree : FileTree) : FileTree :=
  tree.makeDirectory (Path.components directory)

end Cache
end Shakedown
