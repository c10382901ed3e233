import Shakedown.Text.Basic

/-!
# Cutting whole statements

Taking a statement out should leave no stray blanks behind: the blanks before it on its line go
with it, and a statement alone on its line takes the line break too.
-/

namespace Shakedown
namespace StatementGap

/-- A space or a tab. -/
def isIndent (byte : UInt8) : Bool :=
  byte == 32 || byte == 9

/-- Length of the rest of a line that holds only blanks, its line break included; a line that
holds more, or that no break ends, has no such rest. -/
def blankLineEnd? (rest : List UInt8) : Option Nat :=
  let blanks := (rest.takeWhile isIndent).length
  match rest.dropWhile isIndent with
  | 13 :: 10 :: _ => some (blanks + 2)
  | 10 :: _ => some (blanks + 1)
  | _ => none

/-- The range to leave out for the statement at `span`. -/
def widen (bytes : List UInt8) (span : Span) : Span :=
  let indent := ((bytes.take span.start).reverse.takeWhile isIndent).length
  let start := span.start - indent
  let stop := min span.stop bytes.length
  let opensLine := match (bytes.take start).reverse with
    | [] => true
    | last :: _ => last == 10
  if opensLine then
    ⟨start, stop + (blankLineEnd? (bytes.drop stop)).getD 0⟩
  else
    ⟨start, stop⟩

end StatementGap

/-- The range to leave out of a text to take out the statement at `span`. -/
def statementGap (source : String) (span : Span) : Span :=
  StatementGap.widen (Text.bytes source) span

end Shakedown
