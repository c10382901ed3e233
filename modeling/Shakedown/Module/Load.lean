import Shakedown.Module.Optimize
import Shakedown.SourceMap.Compose

/-!
# Optimizing between other steps of a build

A build hands on each text with the map of the steps before. The new map is chained onto that one,
so that places still lead back to the first sources. Maps travel beside the text, so the text names
none.
-/

namespace Shakedown

/-- The map of a step, chained onto that of the steps before. -/
def chainMaps (map previous : Option SourceMap) : Except Failure (Option SourceMap) :=
  match map, previous with
  | some map, some previous =>
      let renamed := { map with sources := [previous.file], file := previous.file }
      (SourceMap.compose renamed previous).map some
  | map, _ => .ok map

/-- Optimizes a module that other steps have made. -/
def load (content : String) (previous : Option SourceMap) (options : LoadOptions) :
    Except Failure Output := do
  let output ← optimize content { Options.standard with emitMap := options.emitMap }
  return {
    content := MapComment.strip output.content
    map := ← chainMaps output.map previous }

end Shakedown
