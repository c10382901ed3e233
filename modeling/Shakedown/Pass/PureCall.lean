import Shakedown.Edit.Basic
import Shakedown.Manifest
import Shakedown.Marker
import Shakedown.Pass.HelperImport

/-!
# Marking calls at the top level

Every call and construction that runs when the module is loaded gets a pure marker, and the module
gets a manifest of the modules that it imports bindings from.
-/

namespace Shakedown
namespace PureCall

/-- Whether a node is the expression of a function. -/
def isFunctionExpression (node : Node) : Bool :=
  match node.kind with
  | .function .expression _ _ => true
  | _ => false

mutual

/-- Where the markers of a tree belong: at the start of each call and construction outside
functions. A call of a function expression that fills parentheses is marked at the opening
parenthesis. -/
def starts : Node → List Nat
  | .mk (.function _ _ _) _ _ => []
  | .mk (.arrow _ _) _ _ => []
  | .mk .parenthesized span [.mk (.call _) callSpan (callee :: inputs)] =>
      let start :=
        if isFunctionExpression callee.withoutParentheses then span.start else callSpan.start
      start :: (starts callee ++ startsOfList inputs)
  | .mk (.call _) span children => span.start :: startsOfList children
  | .mk .construct span children => span.start :: startsOfList children
  | .mk _ _ children => startsOfList children

/-- Where the markers of several trees belong. -/
def startsOfList : List Node → List Nat
  | [] => []
  | node :: rest => starts node ++ startsOfList rest

end

/-- The numbers of a list without those that equal the one before. -/
def dropEqualNeighbours : List Nat → List Nat
  | [] => []
  | [value] => [value]
  | first :: second :: rest =>
      if first = second then dropEqualNeighbours (second :: rest)
      else first :: dropEqualNeighbours (second :: rest)

/-- Where the markers of a program belong, in the order of the text. -/
def positions (program : Program) : List Nat :=
  dropEqualNeighbours ((startsOfList program.body).mergeSort fun left right => left ≤ right)

/-- The module that a statement imports bindings from, with the start of the statement. -/
def importedModule? : Node → Option (Nat × String)
  | .mk (.importDeclaration source _ true) span _ => some (span.start, Manifest.token source)
  | _ => none

/-- The tokens of the modules that a program imports bindings from, counting the helpers at the
given offsets as imported. -/
def importTokens (program : Program) (helperPositions : List Nat) : List String :=
  let imports := program.body.filterMap importedModule?
  let helpers := helperPositions.map fun position =>
    (position, Manifest.token HelperImport.libraryName)
  let inOrder := (imports ++ helpers).mergeSort fun left right => left.1 ≤ right.1
  Manifest.distinct (inOrder.map (·.2))

/-- Whether a comment is a manifest. -/
def isManifest (comment : List Char) : Bool :=
  let inner := Text.dropRepeated ['*'] (Text.dropRepeated ['/', '*'] comment)
  Manifest.openWord.toList.isPrefixOf (Text.trimFront inner)

/-- Whether a manifest stands before the first statement. -/
def beginsWithManifest (script : Script) : Bool :=
  let bodyStart := match script.program.body with
    | [] => Text.width script.text.toList
    | first :: _ => first.span.start
  (script.program.comments.takeWhile (·.stop ≤ bodyStart)).any fun comment =>
    isManifest (script.slice comment).toList

/-- The offsets that get a marker: those that have none in the text. -/
def unmarked (script : Script) : List Nat :=
  (positions script.program).filter fun position =>
    !Marker.endsWithMarker (Text.charsBefore script.text position)

/-- Records the manifest of a script, unless it has one. It goes before everything else, or behind
the line that names an interpreter. -/
def recordManifest (script : Script) (helperPositions : List Nat) (revision : Revision) :
    Revision :=
  if beginsWithManifest script then
    revision
  else
    let comment := Manifest.comment (importTokens script.program helperPositions)
    match script.program.hashbang with
    | some line => revision.insert line.stop ("\n" ++ comment)
    | none => revision.insertFirst 0 (comment ++ "\n")

/-- Records the markers and the manifest of a script. -/
def record (script : Script) (helperPositions : List Nat) (revision : Revision) : Revision :=
  let marked := (unmarked script).foldl
    (fun revision position => revision.insert position (Marker.pure ++ " ")) revision
  recordManifest script helperPositions marked

end PureCall
end Shakedown
