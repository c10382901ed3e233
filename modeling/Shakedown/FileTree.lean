import Shakedown.Failure
import Shakedown.Path

/-!
# File trees

The files and directories below one place, as values. A path is a list of components; a file may
be written only into a directory that is there, and not in the place of a directory.
-/

namespace Shakedown

/-- A path by its components. -/
abbrev Location := List String

/-- Files and directories below one place. -/
structure FileTree where
  /-- The files with their bytes, in the order of their paths. -/
  files : List (Location × List UInt8)
  /-- The directories other than the place itself. -/
  directories : List Location
  deriving DecidableEq, Repr, Inhabited

namespace FileTree

/-- Nothing. -/
def empty : FileTree := ⟨[], []⟩

/-- Whether one path comes before another: component by component. -/
def precedes : Location → Location → Bool
  | _, [] => false
  | [], _ :: _ => true
  | left :: lefts, right :: rights =>
      if left = right then precedes lefts rights else left < right

/-- The bytes of a file. -/
def get? (tree : FileTree) (location : Location) : Option (List UInt8) :=
  tree.files.lookup location

/-- Files in the order of their paths, with one more in its place. -/
def place (location : Location) (bytes : List UInt8) :
    List (Location × List UInt8) → List (Location × List UInt8)
  | [] => [(location, bytes)]
  | (other, content) :: rest =>
      if other = location then (location, bytes) :: rest
      else if precedes location other then (location, bytes) :: (other, content) :: rest
      else (other, content) :: place location bytes rest

/-- The tree with the bytes of a file. -/
def put (tree : FileTree) (location : Location) (bytes : List UInt8) : FileTree :=
  { tree with files := place location bytes tree.files }

/-- The tree without a file. -/
def erase (tree : FileTree) (location : Location) : FileTree :=
  { tree with files := tree.files.filter (·.1 != location) }

/-- Whether a directory is there. -/
def hasDirectory (tree : FileTree) (location : Location) : Bool :=
  location.isEmpty || tree.directories.contains location

/-- Whether a file may be written at a location: the directory for it is there, and none stands in
its place. -/
def accepts (tree : FileTree) (location : Location) : Bool :=
  tree.hasDirectory location.dropLast && !tree.hasDirectory location

/-- The paths above and at a location, the longest last. -/
def ancestors : Location → List Location
  | [] => []
  | component :: rest => [component] :: (ancestors rest).map (component :: ·)

/-- The tree with a directory and those above it. -/
def makeDirectory (tree : FileTree) (location : Location) : FileTree :=
  let missing := (ancestors location).filter fun above => !tree.hasDirectory above
  { tree with directories := tree.directories ++ missing }

/-- The files below a directory, or the file at the location itself: the components behind the
location. -/
def below (tree : FileTree) (location : Location) : List Location :=
  tree.files.filterMap fun (path, _) =>
    if location.isPrefixOf path then some (path.drop location.length) else none

/-- The text that bytes are, if they are one. -/
def textOf? (bytes : List UInt8) : Option String :=
  String.fromUTF8? ⟨bytes.toArray⟩

/-- The bytes of a text. -/
def bytesOf (text : String) : List UInt8 :=
  text.toUTF8.data.toList

end FileTree

/-- A run that reads and changes a file tree. A failure keeps the changes made before it. -/
abbrev Disk := ExceptT Failure (StateM FileTree)

namespace Disk

/-- Why no file can be used at a path. -/
def obstacle (path : String) (tree : FileTree) : Cause :=
  if !path.isEmpty && tree.hasDirectory (Path.components path) then .directory else .missingFile

/-- Reads a file as text. -/
def read (path : String) : Disk String := do
  let tree ← getThe FileTree
  match tree.get? (Path.components path) with
  | none => throw { cause := obstacle path tree, file := path }
  | some bytes =>
      match FileTree.textOf? bytes with
      | none => throw { cause := .notText, file := path }
      | some text => return text

/-- Writes a file where one may be written. -/
def write (path text : String) : Disk Unit := do
  let location := Path.components path
  let tree ← getThe FileTree
  if tree.accepts location then
    set (tree.put location (FileTree.bytesOf text))
  else
    throw { cause := obstacle path tree, file := path }

end Disk
end Shakedown
