import Shakedown.Batch

/-!
# Commands

What a caller may ask for on the command line: optimizing or purifying a file, or all files of a
directory that are meant for it.
-/

namespace Shakedown

/-- A request of a caller. -/
inductive Command
  /-- Optimize scripts, with or without the cache. -/
  | optimize (input : String) (output : Option String) (options : RunOptions) (useCache : Bool)
  /-- Purify bundles. -/
  | purify (input : String) (output : Option String)
  deriving DecidableEq, Repr, Inhabited

namespace Command

/-- Where results are kept. -/
def cacheDirectory : String := ".build-optimizer/cache"

/-- The words that change how scripts are optimized. -/
def optimizeFlags : List String :=
  ["--strict", "--no-source-map", "--no-cache"]

/-- Whether a word is a flag. -/
def isFlag (word : String) : Bool :=
  "--".toList.isPrefixOf word.toList

/-- The paths and flags among words; none when there is no path, there are more than two, or a flag
is not among the known ones. -/
def pathsAndFlags? (known : List String) (words : List String) :
    Option (String × Option String × List String) :=
  let (flags, paths) := words.partition isFlag
  if flags.all known.contains then
    match paths with
    | [input] => some (input, none, flags)
    | [input, output] => some (input, some output, flags)
    | _ => none
  else
    none

/-- The request that the words of a command line make. -/
def ofWords? : List String → Option Command
  | "optimize" :: words =>
      (pathsAndFlags? optimizeFlags words).map fun (input, output, flags) =>
        let options : RunOptions :=
          { emitMap := !flags.contains "--no-source-map", strict := flags.contains "--strict" }
        .optimize input output options (!flags.contains "--no-cache")
  | "purify" :: words =>
      (pathsAndFlags? [] words).map fun (input, output, _) => .purify input output
  | _ => none

/-- How requests are made. -/
def usage : String :=
  "optimize <input> [output] [--strict] [--no-source-map] [--no-cache]\n" ++
    "purify <input> [output]"

/-- The path of the result for one file: the one that is given, or the path beside the input. -/
def outputPath (input suffix : String) (output : Option String) : Except Failure String := do
  Batch.checkInput input
  match output with
  | some output => return output
  | none => Batch.outputPath input suffix

end Command
end Shakedown
