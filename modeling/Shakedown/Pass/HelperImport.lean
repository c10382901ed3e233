import Shakedown.Edit.Basic
import Shakedown.Script.Basic

/-!
# Importing helpers

A compiler that has no helper library at hand declares its helpers in every file. Such a
declaration is replaced by the import of the helper.
-/

namespace Shakedown
namespace HelperImport

/-- The module that holds the helpers. -/
def libraryName : String := "tslib"

/-- The helpers that are imported. -/
def helperNames : List String :=
  ["__extends", "__decorate", "__metadata", "__param"]

/-- The name without the third of three leading underscores. -/
def normalName (name : String) : String :=
  match name.toList with
  | '_' :: '_' :: '_' :: rest => String.ofList ('_' :: '_' :: rest)
  | _ => name

/-- The helper that a statement declares, when it declares nothing else. -/
def helper? : Node → Option String
  | .mk (.variables _) _ [.mk .declarator _ (.mk (.binding name) _ _ :: _)] =>
      let name := normalName name
      if helperNames.contains name then some name else none
  | _ => none

/-- The import of a helper. -/
def importText (name : String) : String :=
  "import \x7b " ++ name ++ " \x7d from \"" ++ libraryName ++ "\";"

/-- Replaces a statement if it declares a helper. -/
def replace (revision : Revision) (statement : Node) : Revision :=
  match helper? statement with
  | none => revision
  | some name =>
      (revision.remove statement.span).insert statement.span.start (importText name)

/-- The starts of the statements that declare helpers. -/
def positions (script : Script) : List Nat :=
  (script.program.body.filter fun statement => (helper? statement).isSome).map (·.span.start)

/-- Records the replacement of every helper of a script. -/
def record (script : Script) (revision : Revision) : Revision :=
  script.program.body.foldl replace revision

end HelperImport
end Shakedown
