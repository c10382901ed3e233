import Shakedown.Edit.Render
import Shakedown.Module.MapComment
import Shakedown.Module.Options
import Shakedown.Pass.StaticMember
import Shakedown.Pass.HelperImport
import Shakedown.Pass.Metadata
import Shakedown.Pass.PureCall
import Shakedown.SourceMap.OfChunks

/-!
# Optimizing a module

The text decides which passes run. Every pass records its edits against the text as it was given;
they are rendered once and the result is read again. A run that fails leaves the text as it was or
reports the failure, and never returns a text that is changed in part.
-/

namespace Shakedown

/-- Which passes a text asks for. -/
structure Selection where
  /-- Whether helpers are imported. -/
  helpers : Bool
  /-- Whether calls are marked, metadata is dropped and members are folded. -/
  metadata : Bool
  deriving DecidableEq, Repr, Inhabited

namespace Selection

/-- The texts that ask for the import of helpers. -/
def helperMarks : List String :=
  HelperImport.helperNames.map fun name => "var " ++ name ++ " = "

/-- The texts that ask for the other passes. -/
def metadataMarks : List String :=
  ["decorators", "ctorParameters"]

/-- The passes that a text asks for. -/
def ofText (text : String) : Selection :=
  let holds (mark : String) : Bool := Text.occurs mark.toList text.toList
  { helpers := helperMarks.any holds, metadata := metadataMarks.any holds }

/-- Whether any pass runs. -/
def any (selection : Selection) : Bool :=
  selection.helpers || selection.metadata

end Selection

/-- The result of a run. -/
structure Output where
  /-- The text. -/
  content : String
  /-- The map of the text, when one was asked for. -/
  map : Option SourceMap
  deriving DecidableEq, Repr, Inhabited

namespace Optimize

/-- The edits of the selected passes. -/
def edits (script : Script) (selection : Selection) : Revision :=
  let imported :=
    if selection.helpers then HelperImport.record script Revision.empty else Revision.empty
  if selection.metadata then
    let helperPositions := if selection.helpers then HelperImport.positions script else []
    let marked := PureCall.record script helperPositions imported
    let scrubbed := Metadata.record (Metadata.cuts script (Framework.symbols script)) marked
    StaticMember.record script scrubbed
  else
    imported

/-- The text as it was. -/
def unchanged (content : String) (options : Options) : Output :=
  { content
    map :=
      if options.emitMap then
        some (SourceMap.identity content options.mapFile options.mapSource)
      else
        none }

/-- The rendering of all edits of a run. -/
def rendering (script : Script) (selection : Selection) (emitMap : Bool) : Rendering :=
  let edits := edits script selection
  let edits := if emitMap then MapComment.record script.text edits else edits
  edits.render script.text

/-- The text with the edits of the selected passes. -/
def changed (content : String) (selection : Selection) (options : Options) :
    Except Failure Output := do
  let script ← Script.read content options.label
  let rendering := rendering script selection options.emitMap
  Script.check rendering.text options.label
  if options.emitMap then
    let file := options.mapFile
    return {
      content := if file.isEmpty then rendering.text else MapComment.append rendering.text file
      map := some (SourceMap.ofChunks content rendering.chunks file options.mapSource) }
  else
    return { content := rendering.text, map := none }

end Optimize

/-- Optimizes a module. A failure is reported only in strict mode. -/
def optimize (content : String) (options : Options) : Except Failure Output :=
  let selection := Selection.ofText content
  if selection.any then
    match Optimize.changed content selection options with
    | .ok output => .ok output
    | .error failure =>
        if options.strict then .error failure else .ok (Optimize.unchanged content options)
  else
    .ok (Optimize.unchanged content options)

end Shakedown
