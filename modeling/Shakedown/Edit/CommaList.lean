import Shakedown.Text.Basic

/-!
# Cutting elements out of a comma list

Taking elements out of an array or object literal has to leave a list whose commas still separate.
A run of removed elements is cut up to the next element that stays, or from the end of the last
element that stays when nothing follows the run. When no element stays, the inside of the brackets
goes as a whole.
-/

namespace Shakedown
namespace CommaList

/-- The cuts of a list whose last kept element ends at `keptStop`. `run` is the range of the
removed elements read since then, if any. -/
def runCuts : (keptStop : Nat) → (run : Option Span) → List (Span × Bool) → List Span
  | _, none, [] => []
  | keptStop, some run, [] => [⟨keptStop, run.stop⟩]
  | _, none, (item, false) :: rest => runCuts item.stop none rest
  | _, some run, (item, false) :: rest => ⟨run.start, item.start⟩ :: runCuts item.stop none rest
  | keptStop, none, (item, true) :: rest => runCuts keptStop (some item) rest
  | keptStop, some run, (item, true) :: rest =>
      runCuts keptStop (some ⟨run.start, item.stop⟩) rest

/-- The cuts that take the marked elements out of the list inside `inner`. -/
def cuts (items : List (Span × Bool)) (inner : Span) : List Span :=
  if !items.isEmpty && items.all (·.2) then [inner] else runCuts inner.start none items

/-- The inside of a pair of brackets. -/
def inside (brackets : Span) : Span :=
  ⟨brackets.start + 1, max (brackets.stop - 1) (brackets.start + 1)⟩

end CommaList
end Shakedown
