import Shakedown.Json.Basic
import Shakedown.Path

/-!
# Options of a run

What a caller may choose: the names recorded in a source map, whether a map is made, and whether a
failure is reported or answered by the text as it was.
-/

namespace Shakedown

/-- The options of a run over one module. -/
structure Options where
  /-- Path of the text, recorded as the source in a map. -/
  inputPath : Option String
  /-- Path of the result, whose last component is recorded as the file in a map. -/
  outputPath : Option String
  /-- Whether a source map is made. -/
  emitMap : Bool
  /-- Whether a failure is reported. -/
  strict : Bool
  deriving DecidableEq, Repr, Inhabited

namespace Options

/-- The options of a caller who chooses nothing. -/
def standard : Options :=
  { inputPath := none, outputPath := none, emitMap := false, strict := false }

/-- The fields of the options in order. -/
def fieldNames : List String :=
  ["inputFilePath", "outputFilePath", "emitSourceMap", "strict"]

/-- The options that a value stands for. -/
def ofJson? (json : Json) : Option Options := do
  let fields ← json.fields? fieldNames
  return {
    inputPath := ← fields.getD "inputFilePath" Json.optionalText? none
    outputPath := ← fields.getD "outputFilePath" Json.optionalText? none
    emitMap := ← fields.getD "emitSourceMap" Json.bool? false
    strict := ← fields.getD "strict" Json.bool? false }

/-- The file that messages are about. -/
def label (options : Options) : String :=
  options.inputPath.getD "<input>"

/-- The file recorded in a map. -/
def mapFile (options : Options) : String :=
  (options.outputPath.bind Path.fileName?).getD ""

/-- The source recorded in a map. It is named only when the result has a path too. -/
def mapSource (options : Options) : String :=
  match options.inputPath, options.outputPath with
  | some input, some _ => input
  | _, _ => ""

end Options

/-- The options of a run between other steps of a build. -/
structure LoadOptions where
  /-- Whether a source map is made. -/
  emitMap : Bool
  deriving DecidableEq, Repr, Inhabited

/-- The options that a value stands for. -/
def LoadOptions.ofJson? (json : Json) : Option LoadOptions := do
  let fields ← json.fields? ["sourceMap"]
  return { emitMap := ← fields.getD "sourceMap" Json.bool? false }

end Shakedown
