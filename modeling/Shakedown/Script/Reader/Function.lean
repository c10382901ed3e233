import Shakedown.Script.Reader.Basic

/-!
# Reading patterns, parameters and bodies

What functions are made of: patterns that declare names, lists of parameters, and bodies with their
directives.
-/

namespace Shakedown
namespace Reader

/-- Reads a pattern with the standard value that it may have. -/
def patternElement (grammar : Grammar) : Reader Node := do
  let start ← startOffset
  let target ← grammar.pattern
  if ← takeSign "=" then
    let standard ← bracketed grammar.assignment
    node start .withDefault [target, standard]
  else
    return target

/-- Reads a rest pattern whose dots come next. -/
def restPattern (grammar : Grammar) : Reader Node := do
  let start ← startOffset
  expectSign "..."
  let target ← grammar.pattern
  node start .rest [target]

/-- Reads the elements of an array pattern up to and with the closing bracket. -/
def arrayPatternElements (grammar : Grammar) : Reader (List Node) :=
  loop (fun items => do
    if ← takeSign "]" then
      return .inr items
    let token ← peek
    if isSign token "," then
      advance
      return .inl (items ++ [.mk .hole token.span []])
    if isSign token "..." then
      let rest ← restPattern grammar
      expectSign "]"
      return .inr (items ++ [rest])
    let element ← patternElement grammar
    unless ← atSign "]" do
      expectSign ","
    return .inl (items ++ [element])) []

/-- Reads a member of an object pattern. -/
def patternMember (grammar : Grammar) : Reader Node := do
  let token ← peek
  let start := token.span.start
  let second ← peekSecond
  let isShorthand := isName token && !second.any (isSign · ":")
  if isShorthand then
    let text ← name
    let key : Node := .mk (.propertyName text) token.span []
    let target : Node := .mk (.binding text) token.span []
    if ← takeSign "=" then
      let standard ← bracketed grammar.assignment
      let value ← node start .withDefault [target, standard]
      node start (.patternProperty .shorthand false) [key, value]
    else
      node start (.patternProperty .shorthand false) [key, target]
  else
    let (key, isComputed) ← propertyKey grammar
    expectSign ":"
    let value ← patternElement grammar
    node start (.patternProperty .value isComputed) [key, value]

/-- Reads what takes the other members of an object: dots and a name. -/
def restBinding : Reader Node := do
  let start ← startOffset
  expectSign "..."
  let target ← binding
  node start .rest [target]

/-- Reads the members of an object pattern up to and with the closing brace. -/
def objectPatternMembers (grammar : Grammar) : Reader (List Node) :=
  loop (fun items => do
    if ← takeSign "\x7d" then
      return .inr items
    if ← atSign "..." then
      let rest ← restBinding
      expectSign "\x7d"
      return .inr (items ++ [rest])
    let member ← patternMember grammar
    unless ← atSign "\x7d" do
      expectSign ","
    return .inl (items ++ [member])) []

/-- Reads a pattern that declares names. -/
def patternProduction (grammar : Grammar) : Reader Node := do
  let start ← startOffset
  if ← takeSign "[" then
    let elements ← arrayPatternElements grammar
    node start .arrayPattern elements
  else if ← takeSign "\x7b" then
    let members ← objectPatternMembers grammar
    node start .objectPattern members
  else
    binding

/-- Reads decorators, if any come next. -/
def decorators (grammar : Grammar) : Reader (List Node) :=
  loop (fun items => do
    let start ← startOffset
    unless ← takeSign "@" do
      return .inr items
    let expression ←
      within (fun context => { context with inDecorator := true }) grammar.leftHand
    return .inl (items ++ [← node start .decorator [expression]])) []

/-- Reads a parameter. -/
def parameter (grammar : Grammar) : Reader Node := do
  let start ← startOffset
  let marks ← decorators grammar
  let isRest ← atSign "..."
  let pattern ← if isRest then restPattern grammar else patternElement grammar
  if isRest then
    unless ← atSign ")" do
      unexpected
  if marks.isEmpty then return pattern
  else node start .decorated (marks ++ [pattern])

/-- Reads parameters in parentheses. -/
def parameters (grammar : Grammar) : Reader Node := do
  let start ← startOffset
  expectSign "("
  let items ← bracketed (commaList ")" (parameter grammar))
  node start .parameters items

/-- The directive that a statement is, if it is one. -/
def directive? (statement : Node) : Option String :=
  match statement with
  | .mk .expressionStatement _ [.mk (.string _ raw) _ _] =>
      some (String.ofList (raw.toList.drop 1).dropLast)
  | _ => none

/-- The directives at the start of a list of statements, and the statements behind them. -/
def splitDirectives : List Node → List String × List Node
  | [] => ([], [])
  | statement :: rest =>
      match directive? statement with
      | none => ([], statement :: rest)
      | some text =>
          let (directives, others) := splitDirectives rest
          (text :: directives, others)

/-- Reads statements up to a token that `closes`, which stays. -/
def statementList (grammar : Grammar) (closes : Token → Bool) : Reader (List Node) :=
  loop (fun items => do
    if closes (← peek) then
      return .inr items
    return .inl (items ++ [← grammar.statement false])) []

/-- Whether a token closes a block. -/
def closesBlock (token : Token) : Bool :=
  isSign token "\x7d" || token.kind == .finish

/-- Reads the body of a function in braces. -/
def functionBody (grammar : Grammar) : Reader Node := do
  let start ← startOffset
  expectSign "\x7b"
  let (directives, items) := splitDirectives (← statementList grammar closesBlock)
  expectSign "\x7d"
  node start (.body directives) items

/-- The context inside a function. -/
def functionContext (isAsync isGenerator : Bool) : ReadContext :=
  { allowsIn := true
    inGenerator := isGenerator
    allowsAwait := isAsync
    inFunction := true
    atTopLevel := false
    inDecorator := false }

/-- Reads the parameters and the body of a function. -/
def functionRest (grammar : Grammar) (start : Nat) (form : FunctionForm)
    (isAsync isGenerator : Bool) (named : List Node) : Reader Node :=
  within (fun _ => functionContext isAsync isGenerator) do
    let inputs ← parameters grammar
    let body ← functionBody grammar
    node start (.function form isAsync isGenerator) (named ++ [inputs, body])

/-- Whether a member may have a list of parameters: a getter has none, and a setter has one that is
no rest. -/
def mayHaveParameters (form : MemberForm) (items : List Node) : Bool :=
  match form, items with
  | .getter, _ => items.isEmpty
  | .setter, [.mk .rest _ _] => false
  | .setter, [_] => true
  | .setter, _ => false
  | _, _ => true

/-- Reads the function of a member from its parameters on. -/
def method (grammar : Grammar) (form : MemberForm) (isAsync isGenerator : Bool) : Reader Node := do
  let start ← startOffset
  let function ← functionRest grammar start .method isAsync isGenerator []
  match function.children with
  | .mk .parameters _ items :: _ =>
      unless mayHaveParameters form items do
        failAt start
  | _ => return function
  return function

/-- Reads a function from the word `function` on. A declaration has a name unless it is `nameless`.
The name of an expression belongs to the function, that of a declaration to what is around. -/
def functionFrom (grammar : Grammar) (start : Nat) (form : FunctionForm) (isAsync : Bool)
    (nameless : Bool) : Reader Node := do
  expectWord "function"
  let isGenerator ← takeSign "*"
  let hasName := isName (← peek)
  if !hasName && !nameless then
    unexpected
  let named ←
    if hasName then
      if form == .expression then
        pure [← within (fun context =>
          { context with inGenerator := isGenerator, allowsAwait := isAsync }) binding]
      else
        pure [← binding]
    else
      pure []
  functionRest grammar start form isAsync isGenerator named

end Reader
end Shakedown
