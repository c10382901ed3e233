import Shakedown.Command

/-!
# The command line

Loads the files that a request may look at, runs the request on them as values, and writes back
what has changed.
-/

namespace Shakedown
namespace Main

/-- The bytes of a file on disk, if it can be read. -/
def bytesOnDisk (path : String) : IO (Option (List UInt8)) := do
  try
    return some (← IO.FS.readBinFile path).data.toList
  catch _ =>
    return none

/-- The files at some paths, with the directories that they are in. -/
def load (paths : List String) : IO FileTree := do
  let mut tree := FileTree.empty
  for path in paths do
    let location := Path.components path
    tree := tree.makeDirectory location.dropLast
    if let some bytes ← bytesOnDisk path then
      tree := tree.put location bytes
  return tree

/-- Writes the files at some paths that differ between two trees. -/
def save (paths : List String) (old new : FileTree) : IO Unit := do
  for path in paths do
    let location := Path.components path
    if new.get? location != old.get? location then
      match new.get? location with
      | some bytes => IO.FS.writeBinFile path ⟨bytes.toArray⟩
      | none => IO.FS.removeFile path

/-- Runs a step that looks at some paths only. -/
def onDisk {α : Type} (paths : List String) (step : Disk α) : IO (Except Failure α) := do
  let old ← load paths
  let (result, new) := step.run.run old
  save paths old new
  return result

/-- The paths of all files below a directory. -/
partial def pathsBelow (directory : String) : IO (List String) := do
  let here ← IO.currentDir
  let mut paths : List String := []
  for entry in ← (here / directory).readDir do
    let path := directory ++ "/" ++ entry.fileName
    if ← (here / path).isDir then
      paths := paths ++ (← pathsBelow path)
    else
      paths := paths ++ [path]
  return paths

/-- A tree of the names below a directory, in which all files are empty. -/
def namesBelow (directory : String) : IO FileTree := do
  return (← pathsBelow directory).foldl (fun tree path => tree.put (Path.components path) [])
    FileTree.empty

/-- Optimizes a file. -/
def optimizeOne (options : RunOptions) (cache : Option String) (input output : String) :
    IO (Except Failure Bool) := do
  let kept ← match cache with
    | none => pure []
    | some directory =>
        IO.FS.createDirAll directory
        pure [directory ++ "/" ++ Cache.entryName input]
  onDisk ([input, output, Batch.mapPath output] ++ kept)
    (Batch.optimizeOne input output options cache)

/-- Purifies a file. -/
def purifyOne (input output : String) : IO (Except Failure Bool) :=
  onDisk [input, output] do
    Batch.purifyOne input output
    return false

/-- Prints a failure. -/
def complain (failure : Failure) : IO Unit :=
  IO.eprintln failure.report.display

/-- Processes one file whose result has a path, and tells whether all went well. -/
def processFile (process : String → String → IO (Except Failure Bool)) (input : String)
    (output : Except Failure String) : IO Bool := do
  let result ← match output with
    | .error failure => pure (.error failure)
    | .ok output => process input output
  match result with
  | .ok _ => return true
  | .error failure =>
      complain failure
      return false

/-- Processes files, each with the path of its result, and tells whether all went well. -/
def processFiles (process : String → String → IO (Except Failure Bool))
    (output : String → Except Failure String) (inputs : List String) : IO Bool := do
  let results ← inputs.mapM fun input => processFile process input (output input)
  return results.all id

/-- Whether a path names a directory. -/
def isDirectory (path : String) : IO Bool := do
  return ← ((← IO.currentDir) / path).isDir

/-- Does what a caller asks for, and tells whether all went well. -/
def run : Command → IO Bool
  | .optimize input output options useCache => do
      let process := optimizeOne options (if useCache then some Command.cacheDirectory else none)
      if ← isDirectory input then
        processFiles process (Batch.outputPath · Batch.optimizedMark)
          (Batch.scripts input (← namesBelow input))
      else
        processFile process input (Command.outputPath input Batch.optimizedMark output)
  | .purify input output => do
      if ← isDirectory input then
        processFiles purifyOne .ok (Batch.bundles input (← namesBelow input))
      else
        processFile purifyOne input (Command.outputPath input Batch.purifiedMark output)

end Main
end Shakedown

/-- Exits with one when a file failed, and with two when the request is not understood. -/
def main (words : List String) : IO UInt32 := do
  match Shakedown.Command.ofWords? words with
  | none =>
      IO.eprintln Shakedown.Command.usage
      return 2
  | some command => return if ← Shakedown.Main.run command then 0 else 1
