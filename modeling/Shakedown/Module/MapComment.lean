import Shakedown.Edit.Basic
import Shakedown.Pattern.Search

/-!
# Comments that name a source map

A line that begins with the mark names the map of the text. The lines of a text that is given are
taken out before a new one is written.
-/

namespace Shakedown
namespace MapComment

/-- The start of a line that names a map. -/
def mark : String := "//# sourceMappingURL="

/-- A line that names a map, with its line break. -/
def pattern : Pattern :=
  .all
    [ .lineStart, .literal mark.toList
    , .many (.one fun char => char != '\r' && char != '\n'), .optional .lineBreak ]

/-- A text without the lines that name a map. -/
def strip (text : String) : String :=
  String.ofList (pattern.erase text.toList)

/-- Records that the lines that name a map are taken out. -/
def record (text : String) (revision : Revision) : Revision :=
  (pattern.findAll text.toList).foldl (fun revision found => revision.remove found.span) revision

/-- A text with a last line that names the map of `file`. -/
def append (text file : String) : String :=
  let ended :=
    match text.toList.getLast? with
    | none => text
    | some last => if last = '\n' then text else text ++ "\n"
  ended ++ mark ++ file ++ ".map"

end MapComment
end Shakedown
