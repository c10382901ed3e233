import Shakedown.Script.Operators
import Shakedown.Script.Reader.Class
import Shakedown.Script.Target

/-!
# Reading expressions

From the inside out: operands, members and calls, operators before and behind an operand, rows of
operators, and assignments and arrow functions.
-/

namespace Shakedown
namespace Reader

/-! ## Operands -/

/-- Reads an expression, which may be several with commas between them. -/
def expression (grammar : Grammar) : Reader Node := do
  let start ← startOffset
  let first ← grammar.assignment
  let all ← loop (fun items => do
    if ← takeSign "," then
      return .inl (items ++ [← grammar.assignment])
    else
      return .inr items) [first]
  match all with
  | [single] => return single
  | several => node start .sequence several

/-- Reads an element of an array or an argument. -/
def spreadable (grammar : Grammar) : Reader Node := do
  let start ← startOffset
  if ← takeSign "..." then
    let value ← grammar.assignment
    node start .spread [value]
  else
    grammar.assignment

/-- Reads arguments whose opening parenthesis is behind. -/
def argumentsRest (grammar : Grammar) : Reader (List Node) :=
  bracketed (commaList ")" (spreadable grammar))

/-- Reads an array. An element left out is where the comma behind it stands. -/
def arrayLiteral (grammar : Grammar) : Reader Node := do
  let start ← startOffset
  expectSign "["
  let items ← bracketed (loop (fun items => do
    if ← takeSign "]" then
      return .inr items
    let token ← peek
    if isSign token "," then
      advance
      return .inl (items ++ [.mk .hole token.span []])
    let element ← spreadable grammar
    unless ← atSign "]" do
      expectSign ","
    return .inl (items ++ [element])) [])
  node start .array items

/-- Reads a member of an object from behind the words that change it. -/
def objectMethod (grammar : Grammar) (start : Nat) (form : MemberForm)
    (isAsync isGenerator : Bool) : Reader Node := do
  let (key, isComputed) ← propertyKey grammar
  let function ← method grammar form isAsync isGenerator
  node start (.property form isComputed) [key, function]

/-- Reads a member of an object that begins with its name. -/
def plainMember (grammar : Grammar) : Reader Node := do
  let token ← peek
  let start := token.span.start
  let second ← peekSecond
  let goesOn := second.any fun second => isSign second ":" || isSign second "("
  if isName token && !goesOn then
    let text ← name
    let key : Node := .mk (.propertyName text) token.span []
    let value : Node := .mk (.reference text) token.span []
    if ← takeSign "=" then
      let standard ← grammar.assignment
      node start .shorthandDefault [key, value, standard]
    else
      node start (.property .shorthand false) [key, value]
  else
    let (key, isComputed) ← propertyKey grammar
    if ← atSign "(" then
      let function ← method grammar .method false false
      node start (.property .method isComputed) [key, function]
    else
      expectSign ":"
      let value ← grammar.assignment
      node start (.property .value isComputed) [key, value]

/-- Reads a member of an object. -/
def objectMember (grammar : Grammar) : Reader Node := do
  let start ← startOffset
  if ← atSign "..." then
    spreadable grammar
  else if ← takeSign "*" then
    objectMethod grammar start .method false true
  else if ← takeModifier "async" true true then
    let isGenerator ← takeSign "*"
    objectMethod grammar start .method true isGenerator
  else if ← takeModifier "get" false false then
    objectMethod grammar start .getter false false
  else if ← takeModifier "set" false false then
    objectMethod grammar start .setter false false
  else
    plainMember grammar

/-- Reads an object. -/
def objectLiteral (grammar : Grammar) : Reader Node := do
  let start ← startOffset
  expectSign "\x7b"
  let members ← bracketed (commaList "\x7d" (objectMember grammar))
  node start .object members

/-- Reads a template; only one with a tag may hold malformed escapes. -/
def template (grammar : Grammar) (isTagged : Bool) : Reader Node := do
  let start ← startOffset
  let (pieces, items) ← loop (fun (pieces, items) => do
    let token ← peek
    match token.kind with
    | .template raw isValid isLast =>
        if !isValid && !isTagged then
          unexpected
        advance
        let pieces := pieces ++ [raw]
        if isLast then
          return .inr (pieces, items)
        let value ← bracketed (expression grammar)
        let brace ← peek
        unless isSign brace "\x7d" do
          unexpected
        match Lexer.templateAt brace with
        | .error fault => throw fault
        | .ok token =>
            modify fun state => { state with token }
            return .inl (pieces, items ++ [value])
    | _ => unexpected) (([] : List String), ([] : List Node))
  node start (.template pieces) items

/-- Reads the regular expression that begins with the slash to be read next. -/
def regex : Reader Node := do
  let slash ← peek
  match Lexer.regexAt slash with
  | .error fault => throw fault
  | .ok token =>
      modify fun state => { state with token }
      match token.kind with
      | .regex raw =>
          advance
          node token.span.start (.regex raw) []
      | _ => unexpected

/-- Reads the specifier of an imported module, and perhaps options, in parentheses. -/
def importArguments (grammar : Grammar) : Reader (List Node) := do
  expectSign "("
  bracketed do
    let specifier ← grammar.assignment
    let isLast := !(← takeSign ",") || (← atSign ")")
    let options ← if isLast then pure [] else pure [← grammar.assignment]
    let _ ← takeSign ","
    expectSign ")"
    return specifier :: options

/-- Reads an import used as an expression. -/
def importExpression (grammar : Grammar) : Reader Node := do
  let start ← startOffset
  expectWord "import"
  if ← takeSign "." then
    let property ← word
    if property == "meta" then
      modify fun state => { state with isModule := true }
      node start (.metaProperty "import" "meta") []
    else if property == "defer" || property == "source" then
      let items ← importArguments grammar
      node start (.importCall property) items
    else
      unexpected
  else
    let items ← importArguments grammar
    node start (.importCall "") items

/-- Reads a function or a name that begins with the word `async`. -/
def asyncOperand (grammar : Grammar) : Reader Node := do
  let start ← startOffset
  let second ← peekSecond
  if second.any fun second => isWord second "function" && !second.opensLine then
    advance
    functionFrom grammar start .expression true true
  else
    reference

/-- Reads an operand that begins with a word. -/
def wordOperand (grammar : Grammar) (text : String) : Reader Node := do
  let start ← startOffset
  match text with
  | "function" => functionFrom grammar start .expression false true
  | "class" => classFrom grammar start [] false
  | "async" => asyncOperand grammar
  | "this" => advance; node start (.keyword text) []
  | "null" => advance; node start (.keyword text) []
  | "true" => advance; node start (.keyword text) []
  | "false" => advance; node start (.keyword text) []
  | "super" =>
      advance
      unless (← atSign "(") || (← atSign ".") || (← atSign "[") do
        unexpected
      node start (.keyword text) []
  | _ => reference

/-- Reads an operand: what neither operators nor members nor calls take apart. -/
def operand (grammar : Grammar) : Reader Node := do
  let token ← peek
  let start := token.span.start
  match token.kind with
  | .word text isEscaped => if isEscaped then reference else wordOperand grammar text
  | .string value raw => advance; node start (.string value raw) []
  | .number raw => advance; node start (.number raw) []
  | .template _ _ _ => template grammar false
  | .sign "(" =>
      advance
      let inner ← bracketed (expression grammar)
      expectSign ")"
      node start .parenthesized [inner]
  | .sign "[" => arrayLiteral grammar
  | .sign "\x7b" => objectLiteral grammar
  | .sign "/" => regex
  | .sign "/=" => regex
  | .sign "@" =>
      let marks ← decorators grammar
      classFrom grammar start marks false
  | _ => unexpected

/-! ## Members and calls -/

/-- Reads the member behind a dot. -/
def memberName (start : Nat) (object : Node) (isOptional : Bool) : Reader Node := do
  match (← peek).kind with
  | .privateName text =>
      advance
      node start (.privateMember text isOptional) [object]
  | _ =>
      let text ← word
      node start (.member text isOptional) [object]

/-- Reads an expression in brackets behind an object. -/
def indexRest (grammar : Grammar) (start : Nat) (object : Node) (isOptional : Bool) :
    Reader Node := do
  expectSign "["
  let key ← bracketed (expression grammar)
  expectSign "]"
  node start (.index isOptional) [object, key]

/-- Reads arguments behind a callee. -/
def callRest (grammar : Grammar) (start : Nat) (callee : Node) (isOptional : Bool) :
    Reader Node := do
  expectSign "("
  let items ← argumentsRest grammar
  node start (.call isOptional) (callee :: items)

/-- Reads what follows a question mark and dot. -/
def optionalLink (grammar : Grammar) (start : Nat) (object : Node) : Reader Node := do
  if ← atSign "(" then callRest grammar start object true
  else if ← atSign "[" then indexRest grammar start object true
  else memberName start object true

/-- Whether a token is a piece of a template. -/
def isTemplate (token : Token) : Bool :=
  match token.kind with
  | .template _ _ _ => true
  | _ => false

/-- Reads the members, calls and templates behind an operand. Where calls are not allowed neither
are optional links. -/
def links (grammar : Grammar) (allowsCalls : Bool) (start : Nat) (base : Node) : Reader Node :=
  loop (fun (object, hasOptional) => do
    let token ← peek
    let inDecorator := (← read).inDecorator
    if isSign token "." then
      advance
      return .inl (← memberName start object false, hasOptional)
    else if isSign token "?." then
      unless allowsCalls do
        unexpected
      advance
      return .inl (← optionalLink grammar start object, true)
    else if isSign token "[" && !inDecorator then
      return .inl (← indexRest grammar start object false, hasOptional)
    else if isSign token "(" && allowsCalls then
      return .inl (← callRest grammar start object false, hasOptional)
    else if isTemplate token then
      if hasOptional then
        unexpected
      let quasi ← template grammar true
      return .inl (← node start .taggedTemplate [object, quasi], hasOptional)
    else if hasOptional then
      return .inr (← node start .chain [object])
    else
      return .inr object) (base, false)

/-- Reads a construction, or `new.target`. -/
def construction (grammar : Grammar) : Reader Node := do
  let start ← startOffset
  expectWord "new"
  if ← takeSign "." then
    expectWord "target"
    node start (.metaProperty "new" "target") []
  else
    let callee ← grammar.callee
    if ← takeSign "(" then
      let items ← argumentsRest grammar
      node start .construct (callee :: items)
    else
      node start .construct [callee]

/-- Reads the callee of a construction. -/
def calleeProduction (grammar : Grammar) : Reader Node := do
  let start ← startOffset
  let second ← peekSecond
  if (← atWord "import") && !second.any (isSign · ".") then
    unexpected
  let base ←
    if ← atWord "new" then construction grammar
    else if ← atWord "import" then importExpression grammar
    else operand grammar
  links grammar false start base

/-- Reads a member or call, or what these begin with. -/
def leftHandProduction (grammar : Grammar) : Reader Node := do
  let start ← startOffset
  let base ←
    if ← atWord "new" then construction grammar
    else if ← atWord "import" then importExpression grammar
    else operand grammar
  links grammar true start base

/-! ## Operators -/

/-- The target that is a single value; an expression that is none stops the reading. -/
def simpleTarget (expression : Node) : Reader Node :=
  match expression.simpleTarget? with
  | some target => return target
  | none => failAt expression.span.start

/-- The target that an expression is; an expression that is none stops the reading. -/
def target (expression : Node) : Reader Node :=
  match expression.target? with
  | some target => return target
  | none => failAt expression.span.start

/-- Reads an operand with the operator that may stand behind it. -/
def postfixOperand (grammar : Grammar) : Reader Node := do
  let start ← startOffset
  let inner ← grammar.leftHand
  let token ← peek
  if (isSign token "++" || isSign token "--") && !token.opensLine then
    let goal ← simpleTarget inner
    advance
    node start (.update (if isSign token "++" then "++" else "--") false) [goal]
  else
    return inner

/-- Whether a token on the same line makes the word `await` before it an operator even where no
function is asynchronous. -/
def suggestsAwait (token : Token) : Bool :=
  !token.opensLine &&
    match token.kind with
    | .word _ _ => true
    | .number _ => true
    | .string _ _ => true
    | _ => false

/-- Reads `await` and its operand, or the name `await`. -/
def awaitOperand (grammar : Grammar) : Reader Node := do
  let start ← startOffset
  let allowed := (← read).allowsAwait
  if allowed || (← peekSecond).any suggestsAwait then
    advance
    unless allowed do
      modify fun state => { state with hasEarlyAwait := true }
    let inner ← grammar.unary
    node start .await [inner]
  else
    postfixOperand grammar

/-- Reads an operand with the operators before and behind it. -/
def unaryProduction (grammar : Grammar) : Reader Node := do
  let token ← peek
  let start := token.span.start
  let prefixed (operator : String) : Reader Node := do
    advance
    let inner ← grammar.unary
    node start (.unary operator) [inner]
  let stepped (operator : String) : Reader Node := do
    advance
    let goal ← simpleTarget (← grammar.unary)
    node start (.update operator true) [goal]
  match token.kind with
  | .sign "+" => prefixed "+"
  | .sign "-" => prefixed "-"
  | .sign "!" => prefixed "!"
  | .sign "~" => prefixed "~"
  | .sign "++" => stepped "++"
  | .sign "--" => stepped "--"
  | .word "delete" false => prefixed "delete"
  | .word "typeof" false => prefixed "typeof"
  | .word "void" false => prefixed "void"
  | .word "await" false => awaitOperand grammar
  | _ => postfixOperand grammar

/-- Reads an operand of a row that may be a private name before `in`. -/
def rowOperand (grammar : Grammar) : Reader Node := do
  let token ← peek
  match token.kind with
  | .privateName text =>
      advance
      unless (← atWord "in") && (← read).allowsIn do
        unexpected
      node token.span.start (.privateName text) []
  | _ => grammar.unary

/-- The operator between operands that a token is. -/
def binaryOperator? (allowsIn : Bool) (token : Token) : Option BinaryOperator :=
  match token.kind with
  | .sign sign => BinaryOperator.ofSign? sign
  | .word text false => BinaryOperator.ofWord? allowsIn text
  | _ => none

/-- Reads a row of operands with operators between them. -/
def row (grammar : Grammar) : Reader Node := do
  let first ← rowOperand grammar
  let others ← loop (fun items => do
    match binaryOperator? (← read).allowsIn (← peek) with
    | some operator =>
        advance
        let operand ←
          if operator.precedence < BinaryOperator.comparisonPrecedence then rowOperand grammar
          else grammar.unary
        return .inl (items ++ [(operator, operand)])
    | none => return .inr items) []
  match BinaryOperator.assemble [] first others with
  | some tree => return tree
  | none => failAt first.span.start

/-- Reads a row, or a choice between two expressions by one. -/
def conditional (grammar : Grammar) : Reader Node := do
  let start ← startOffset
  let test ← row grammar
  if ← takeSign "?" then
    let first ← bracketed grammar.assignment
    expectSign ":"
    let second ← grammar.assignment
    node start .conditional [test, first, second]
  else
    return test

/-! ## Arrow functions and assignments -/

/-- Reads an arrow on the line of what stands before it. -/
def arrow : Reader Unit := do
  if (← peek).opensLine then
    unexpected
  expectSign "=>"

/-- Reads the one parameter of an arrow function that needs no parentheses. -/
def singleParameter : Reader Node := do
  let start ← startOffset
  let only ← binding
  node start .parameters [only]

/-- Reads parameters and the arrow behind them. -/
def arrowHead (inputs : Reader Node) : Reader Node := do
  let read ← inputs
  arrow
  return read

/-- Whether what follows an opening parenthesis may be a parameter. -/
def beginsParameter (token : Token) : Bool :=
  isName token || isSign token ")" || isSign token "[" || isSign token "\x7b" ||
    isSign token "..." || isSign token "@"

/-- Reads the head of an asynchronous arrow function, if one comes next. -/
def asyncHead? (grammar : Grammar) : Reader (Option Node) := do
  let second ← peekSecond
  let inputs : Option (Reader Node) :=
    match second with
    | none => none
    | some second =>
        if second.opensLine then none
        else if isName second then some singleParameter
        else if isSign second "(" then some (parameters grammar)
        else none
  match inputs with
  | none => return none
  | some inputs =>
      attempt do
        advance
        within (fun context => { context with allowsAwait := true }) (arrowHead inputs)

/-- Reads the head of an arrow function, if one comes next, and tells whether it is
asynchronous. -/
def arrowHead? (grammar : Grammar) : Reader (Option (Node × Bool)) := do
  let token ← peek
  if isWord token "async" then
    if let some head ← asyncHead? grammar then
      return some (head, true)
  let second ← peekSecond
  if isName token && second.any (fun second => isSign second "=>" && !second.opensLine) then
    return (← attempt (arrowHead singleParameter)).map (·, false)
  else if isSign token "(" && second.any beginsParameter then
    return (← attempt (arrowHead (parameters grammar))).map (·, false)
  else
    return none

/-- Reads the body of an arrow function. An expression as the body is its only statement. -/
def arrowBody (grammar : Grammar) (start : Nat) (inputs : Node) (isAsync : Bool) :
    Reader Node := do
  let allowsIn := (← read).allowsIn
  let context := functionContext isAsync false
  if ← atSign "\x7b" then
    let body ← within (fun _ => context) (functionBody grammar)
    node start (.arrow isAsync false) [inputs, body]
  else
    let bodyStart ← startOffset
    let value ← within (fun _ => { context with allowsIn }) grammar.assignment
    let statement ← node bodyStart .expressionStatement [value]
    let body ← node bodyStart (.body []) [statement]
    node start (.arrow isAsync true) [inputs, body]

/-- Whether a token cannot begin the operand of `yield`. -/
def endsYield (token : Token) : Bool :=
  token.opensLine || token.kind == .finish ||
    [")", "]", "\x7d", ",", ";", ":"].any (isSign token) || isWord token "in" || isWord token "of"

/-- Reads `yield` with its operand. -/
def yieldExpression (grammar : Grammar) : Reader Node := do
  let start ← startOffset
  expectWord "yield"
  let token ← peek
  if isSign token "*" && !token.opensLine then
    advance
    let value ← grammar.assignment
    node start (.yield true) [value]
  else if endsYield token then
    node start (.yield false) []
  else
    let value ← grammar.assignment
    node start (.yield false) [value]

/-- The operator that assigns that a token is. -/
def assignmentOperator? (token : Token) : Option String :=
  match token.kind with
  | .sign sign => if assignmentOperators.contains sign then some sign else none
  | _ => none

/-- Reads an expression without commas. -/
def assignmentProduction (grammar : Grammar) : Reader Node := do
  let start ← startOffset
  if let some (inputs, isAsync) ← arrowHead? grammar then
    return ← arrowBody grammar start inputs isAsync
  if (← atWord "yield") && (← read).inGenerator then
    return ← yieldExpression grammar
  let left ← conditional grammar
  match assignmentOperator? (← peek) with
  | none => return left
  | some operator =>
      let goal ← if operator == "=" then target left else simpleTarget left
      advance
      let value ← grammar.assignment
      node start (.assignment operator) [goal, value]

end Reader
end Shakedown
