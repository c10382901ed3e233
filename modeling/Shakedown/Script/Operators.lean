import Shakedown.Script.Node

/-!
# Operators between operands

A row of operands with operators between them becomes a tree: operators of higher precedence bind
first, equals from left to right, and powers from right to left.
-/

namespace Shakedown

/-- An operator between two operands. -/
structure BinaryOperator where
  /-- How it is written. -/
  text : String
  /-- How tightly it binds. -/
  precedence : Nat
  deriving DecidableEq, Repr, Inhabited

namespace BinaryOperator

/-- The operators that are signs, by precedence. -/
def signs : List (String × Nat) :=
  [ ("??", 1), ("||", 2), ("&&", 3), ("|", 4), ("^", 5), ("&", 6), ("==", 7), ("!=", 7), ("===", 7)
  , ("!==", 7), ("<", 8), (">", 8), ("<=", 8), (">=", 8), ("<<", 9), (">>", 9), (">>>", 9)
  , ("+", 10), ("-", 10), ("*", 11), ("/", 11), ("%", 11), ("**", 12) ]

/-- How tightly comparisons bind. -/
def comparisonPrecedence : Nat := 8

/-- The operator that a sign is. -/
def ofSign? (sign : String) : Option BinaryOperator :=
  (signs.lookup sign).map (⟨sign, ·⟩)

/-- The operator that a word is. -/
def ofWord? (allowsIn : Bool) : String → Option BinaryOperator
  | "instanceof" => some ⟨"instanceof", comparisonPrecedence⟩
  | "in" => if allowsIn then some ⟨"in", comparisonPrecedence⟩ else none
  | _ => none

/-- Whether an operator takes an operand from `next`, which stands to the right of it. -/
def bindsBefore (next operator : BinaryOperator) : Bool :=
  if operator.text == "**" && next.text == "**" then false
  else next.precedence ≤ operator.precedence

/-- Whether a node is the result of `||` or `&&`. -/
def isLogical : Node → Bool
  | .mk (.binary "||") _ _ => true
  | .mk (.binary "&&") _ _ => true
  | _ => false

/-- Whether a node is the result of `??`. -/
def isFallback : Node → Bool
  | .mk (.binary "??") _ _ => true
  | _ => false

/-- Whether a node is an operator applied to an operand behind it. -/
def isUnary : Node → Bool
  | .mk (.unary _) _ _ => true
  | .mk .await _ _ => true
  | _ => false

/-- Whether an operator may take two operands: `??` does not mix with `||` and `&&`, and a power
has no unary operator on its left side. -/
def mayTake (operator : BinaryOperator) (left right : Node) : Bool :=
  match operator.text with
  | "??" => !isLogical left && !isLogical right
  | "||" => !isFallback left && !isFallback right
  | "&&" => !isFallback left && !isFallback right
  | "**" => !isUnary left
  | _ => true

/-- The node of an operator with its operands. -/
def combine? (operator : BinaryOperator) (left right : Node) : Option Node :=
  if operator.mayTake left right then
    some (.mk (.binary operator.text) ⟨left.span.start, right.span.stop⟩ [left, right])
  else
    none

/-- Gives operators, the nearest first, their operands as long as they bind. -/
def reduce (binds : BinaryOperator → Bool) :
    List (Node × BinaryOperator) → Node → Option (List (Node × BinaryOperator) × Node)
  | [], right => some ([], right)
  | (left, operator) :: waiting, right =>
      if binds operator then (operator.combine? left right).bind (reduce binds waiting)
      else some ((left, operator) :: waiting, right)

/-- The tree of a row; `waiting` are the operators on the left whose right operand is not complete,
the nearest first. -/
def assemble (waiting : List (Node × BinaryOperator)) (operand : Node) :
    List (BinaryOperator × Node) → Option Node
  | [] => (reduce (fun _ => true) waiting operand).map (·.2)
  | (operator, next) :: rest =>
      (reduce (bindsBefore operator) waiting operand).bind fun (waiting, left) =>
        assemble ((left, operator) :: waiting) next rest

end BinaryOperator

/-- The operators that assign. -/
def assignmentOperators : List String :=
  [ "=", "+=", "-=", "*=", "/=", "%=", "**=", "<<=", ">>=", ">>>=", "&=", "|=", "^=", "&&=", "||="
  , "??=" ]

end Shakedown
