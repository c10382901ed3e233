import Shakedown.Text.CharClass
import Shakedown.Text.Basic

/-!
# Pure markers

A comment in front of a call tells the minifier that the call may go when its result is not used.
-/

namespace Shakedown
namespace Marker

/-- The marker that is written. -/
def pure : String := "/*@__PURE__*/"

/-- The other spelling, which counts as a marker as well. -/
def alternative : String := "/*#__PURE__*/"

/-- Whether a text ends in a marker, blanks behind it aside. -/
def endsWithMarker (text : List Char) : Bool :=
  let trimmed := Text.trimBack text
  Text.endsWith trimmed pure.toList || Text.endsWith trimmed alternative.toList

end Marker
end Shakedown
