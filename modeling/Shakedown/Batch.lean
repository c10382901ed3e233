import Shakedown.Bundle.Purify
import Shakedown.Cache

/-!
# Files and directories

Optimizing and purifying single files, and all files of a directory that are meant for it.
-/

namespace Shakedown

/-- What a caller chooses for all files. -/
structure RunOptions where
  /-- Whether maps are written. -/
  emitMap : Bool
  /-- Whether a failure is reported. -/
  strict : Bool
  deriving DecidableEq, Repr, Inhabited

/-- What became of the files of a directory. -/
structure RunReport where
  /-- Number of files that were processed. -/
  processed : Nat
  /-- Number of those whose result came from the cache. -/
  cached : Nat
  /-- The other files with the reason. -/
  failed : List (String × Failure)
  deriving DecidableEq, Repr, Inhabited

namespace Batch

/-! ## Names of files -/

/-- What an optimized file has before its extension. -/
def optimizedMark : String := ".ngo"

/-- What a purified file has before its extension. -/
def purifiedMark : String := ".purify"

/-- Whether a name ends in a given way. -/
def hasEnding (name ending : String) : Bool :=
  Text.endsWith name.toList ending.toList

/-- Whether a path names a script. -/
def isScriptPath (path : String) : Bool :=
  hasEnding path ".js" || hasEnding path ".ts"

/-- Checks that a path names a script. -/
def checkInput (path : String) : Except Failure Unit :=
  if isScriptPath path then .ok () else .error { cause := .notScript, file := path }

/-- The path of the result: that of the input with a suffix before its extension. -/
def outputPath (input suffix : String) : Except Failure String := do
  checkInput input
  let chars := input.toList
  let stem := chars.take (chars.length - 3)
  return String.ofList (stem ++ suffix.toList ++ chars.drop (chars.length - 3))

/-- The path of the map of a result. -/
def mapPath (output : String) : String :=
  output ++ ".map"

/-! ## Single files -/

/-- The options for one file. -/
def fileOptions (input output : String) (options : RunOptions) : Options :=
  { inputPath := some input
    outputPath := some output
    emitMap := options.emitMap
    strict := options.strict }

/-- Writes a result and its map. -/
def writeOutput (path : String) (output : Output) : Disk Unit := do
  Disk.write path output.content
  match output.map with
  | none => return
  | some map => Disk.write (mapPath path) map.toJson

/-- The kept result for a file, if there is a cache and it has one. -/
def findKept (cache : Option String) (input content : String) (options : Options) :
    Disk (Option Output) := do
  match cache with
  | none => return none
  | some directory =>
      let (kept, tree) := Cache.find directory input content options (← getThe FileTree)
      set tree
      return kept

/-- Optimizes a file, and tells whether the result came from the cache. -/
def optimizeOne (input output : String) (options : RunOptions) (cache : Option String) :
    Disk Bool := do
  let content ← Disk.read input
  let options := fileOptions input output options
  match ← findKept cache input content options with
  | some kept =>
      writeOutput output kept
      return true
  | none =>
      let result ← (optimize content options : Except Failure Output)
      if let some directory := cache then
        modifyThe FileTree (Cache.keep directory input content options result)
      writeOutput output result
      return false

/-- Purifies a file. -/
def purifyOne (input output : String) : Disk Unit := do
  Disk.write output (Bundle.purify (← Disk.read input))

/-! ## Directories -/

/-- A path below a directory that is given as `base`. -/
def join (base : String) : Location → String
  | [] => base
  | components =>
      let rest := String.intercalate "/" components
      if hasEnding base "/" then base ++ rest else base ++ "/" ++ rest

/-- The name of a file that stands at `rest` below a directory. -/
def nameBelow (directory : String) (rest : Location) : String :=
  match rest.getLast? with
  | some name => name
  | none => (Path.fileName? directory).getD ""

/-- The files below a directory whose names are accepted, in the order of their paths. An empty
path names no directory. -/
def filesBelow (accepts : String → Bool) (directory : String) (tree : FileTree) : List String :=
  if directory.isEmpty then
    []
  else
    let found := tree.below (Path.components directory)
    (found.filter fun rest => accepts (nameBelow directory rest)).map (join directory)

/-- The scripts below a directory, without the results of earlier runs. -/
def scripts (directory : String) (tree : FileTree) : List String :=
  filesBelow (fun name => hasEnding name ".js" && !hasEnding name (optimizedMark ++ ".js"))
    directory tree

/-- The bundles below a directory. -/
def bundles (directory : String) (tree : FileTree) : List String :=
  filesBelow (hasEnding · ".bundle.js") directory tree

/-- The report with what became of one more file. -/
def addResult (report : RunReport) (path : String) : Except Failure Bool → RunReport
  | .ok fromCache =>
      { report with
        processed := report.processed + 1
        cached := if fromCache then report.cached + 1 else report.cached }
  | .error failure => { report with failed := report.failed ++ [(path, failure)] }

/-- Processes files one behind the other and reports what became of them. -/
def processAll (process : String → Disk Bool) (paths : List String) :
    StateM FileTree RunReport :=
  paths.foldlM
    (fun report path => do
      let result ← (process path).run
      return addResult report path result)
    { processed := 0, cached := 0, failed := [] }

/-- Optimizes a script beside itself. -/
def optimizeBeside (options : RunOptions) (cache : Option String) (input : String) :
    Disk Bool := do
  let output ← (outputPath input optimizedMark : Except Failure String)
  optimizeOne input output options cache

/-- Optimizes every script below a directory beside itself. -/
def optimizeAll (directory : String) (options : RunOptions) (cache : Option String) :
    StateM FileTree RunReport := do
  processAll (optimizeBeside options cache) (scripts directory (← get))

/-- Purifies every bundle below a directory in place. -/
def purifyAll (directory : String) : StateM FileTree RunReport := do
  let purifyInPlace (path : String) : Disk Bool := do
    purifyOne path path
    return false
  processAll purifyInPlace (bundles directory (← get))

end Batch
end Shakedown
