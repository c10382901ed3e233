import Shakedown.Pass.Metadata

/-!
# Folding static members into their class

A class is compiled to a closure that returns its constructor, and assignments of its static
members follow. Moving them in front of the `return` makes the class one expression that can be
dropped as a whole.
-/

namespace Shakedown
namespace StaticMember

/-- A variable that holds a class. -/
structure ClassVariable where
  /-- Name of the variable and of the constructor. -/
  name : String
  /-- The symbol of the variable. -/
  symbol : Symbol
  /-- Where the declaration ends; only later assignments are folded. -/
  declarationStop : Nat
  /-- The `return` statement of the closure. -/
  returnSpan : Span
  deriving DecidableEq, Repr, Inhabited

/-- The body of a function expression. -/
def functionBody? : Node → Option (List Node)
  | .mk (.function .expression _ _) _ parts =>
      parts.findSome? fun
        | .mk (.body _) _ statements => some statements
        | _ => none
  | _ => none

/-- The statements of a closure that is called at once, with the parentheses around the call or
around the function. -/
def calledBody? : Node → Option (List Node)
  | .mk .parenthesized span parts =>
      match (Node.mk .parenthesized span parts).withoutParentheses with
      | .mk (.call _) _ (callee :: _) => functionBody? callee
      | _ => none
  | .mk (.call _) _ (.mk .parenthesized _ [function] :: _) => functionBody? function
  | _ => none

/-- Whether a statement declares a function with a name. -/
def declaresFunction (name : String) : Node → Bool
  | .mk (.function .declaration _ _) _ (.mk (.binding declared) _ _ :: _) => declared == name
  | _ => false

/-- The range of the `return` statement that ends a class body: at least two statements, of which
the first declares the constructor. -/
def classReturn? (name : String) : List Node → Option Span
  | first :: second :: rest =>
      if declaresFunction name first then
        match (second :: rest).getLast? with
        | some (.mk .returnStatement span _) => some span
        | _ => none
      else
        none
  | _ => none

/-- The class that a statement declares, if it declares one and nothing else. -/
def classVariable? (scoping : Scoping) : Node → Option ClassVariable
  | .mk (.variables _) span [.mk .declarator _ [.mk (.binding name) nameSpan _, value]] => do
      let symbol ← scoping.symbolAt? nameSpan.start
      let returnSpan ← classReturn? name (← calledBody? value)
      return { name, symbol, declarationStop := span.stop, returnSpan }
  | _ => none

/-- The classes that a script declares at its top level. -/
def classes (script : Script) : List ClassVariable :=
  script.program.body.filterMap (classVariable? script.scoping)

/-- The text behind a moved assignment: a semicolon, and the start of a new line when the `return`
is the first thing on its own. -/
def suffix (text : String) (returnStart : Nat) : String :=
  let before := (Text.charsBefore text returnStart).reverse
  let indent := (before.takeWhile (· != '\n')).reverse
  let hasLineBreak := before.any (· == '\n')
  if hasLineBreak && indent.all fun char => char == ' ' || char == '\t' then
    ";\n" ++ String.ofList indent
  else
    ";"

/-- The class that a statement assigns a member of, with the assignment. -/
def foldable? (scoping : Scoping) (classes : List ClassVariable) (statement : Node) :
    Option (Metadata.PropertyAssignment × ClassVariable) := do
  let assignment ← Metadata.assignment? statement
  let symbol ← scoping.sole? assignment.object.span.start
  let variable_ ← classes.find? (·.symbol == symbol)
  if statement.span.start < variable_.declarationStop then none
  else some (assignment, variable_)

/-- Records the move of a statement if it belongs into a class and is not left out already. -/
def move (script : Script) (classes : List ClassVariable) (revision : Revision)
    (statement : Node) : Revision :=
  match foldable? script.scoping classes statement with
  | none => revision
  | some (assignment, variable_) =>
      if revision.isGone statement.span then
        revision
      else
        let target := variable_.returnSpan.start
        revision.move assignment.expression.span (statementGap script.text statement.span)
          target (suffix script.text target)

/-- Records the moves of all static members of a script. -/
def record (script : Script) (revision : Revision) : Revision :=
  script.program.body.foldl (move script (classes script)) revision

end StaticMember
end Shakedown
