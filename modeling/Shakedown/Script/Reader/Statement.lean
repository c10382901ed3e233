import Shakedown.Script.Reader.ModuleItem

/-!
# Reading statements

Declarations of variables, control flow, blocks, functions and classes. A statement that stands
alone where only one is allowed may not declare a class or a variable of its block.
-/

namespace Shakedown
namespace Reader

/-! ## Variables -/

/-- Whether a token may begin a pattern. -/
def beginsPattern (token : Token) : Bool :=
  isName token || isSign token "[" || isSign token "\x7b"

/-- The declaration that the next tokens begin, with the number of words that say so. -/
def variableForm? : Reader (Option (VariableForm × Nat)) := do
  let token ← peek
  let second ← peekSecond
  let onLine := second.any fun second =>
    isName second && !second.opensLine && !isWord second "of"
  match token.kind with
  | .word "var" false => return some (.var, 1)
  | .word "const" false => return some (.const, 1)
  | .word "let" false => return if second.any beginsPattern then some (.let_, 1) else none
  | .word "using" false => return if onLine then some (.using_, 1) else none
  | .word "await" false =>
      let isUsing := second.any fun second => isWord second "using" && !second.opensLine
      if (← read).allowsAwait && isUsing then
        return if (← peekThird).any fun third => isName third && !third.opensLine then
          some (.awaitUsing, 2)
        else
          none
      else
        return none
  | _ => return none

/-- Reads the words that begin a declaration. -/
def skipWords : Nat → Reader Unit
  | 0 => return
  | count + 1 => do
      advance
      skipWords count

/-- Reads a declared pattern with its value. -/
def declarator (grammar : Grammar) : Reader Node := do
  let start ← startOffset
  let pattern ← grammar.pattern
  if ← takeSign "=" then
    let value ← grammar.assignment
    node start .declarator [pattern, value]
  else
    node start .declarator [pattern]

/-- Reads declarators with commas between them. -/
def declarators (grammar : Grammar) : Reader (List Node) := do
  let first ← declarator grammar
  loop (fun items => do
    if ← takeSign "," then
      return .inl (items ++ [← declarator grammar])
    else
      return .inr items) [first]

/-- Whether a declarator has the value that its form asks for: constants and patterns need one. -/
def hasNeededValue (form : VariableForm) : Node → Bool
  | .mk .declarator _ [.mk (.binding _) _ _] => form == .var || form == .let_
  | .mk .declarator _ [_] => false
  | _ => true

/-- Reads a declaration of variables as a statement. -/
def variableStatement (grammar : Grammar) (form : VariableForm) (words : Nat) : Reader Node := do
  let start ← startOffset
  skipWords words
  let items ← declarators grammar
  unless items.all (hasNeededValue form) do
    unexpected
  semicolon
  node start (.variables form) items

/-! ## Control flow -/

/-- Reads an expression in parentheses. -/
def condition (grammar : Grammar) : Reader Node := do
  expectSign "("
  let test ← bracketed (expression grammar)
  expectSign ")"
  return test

/-- Reads statements in braces. -/
def block (grammar : Grammar) : Reader Node := do
  let start ← startOffset
  expectSign "\x7b"
  let items ← statementList grammar closesBlock
  expectSign "\x7d"
  node start .block items

/-- Reads an `if` statement. -/
def ifStatement (grammar : Grammar) : Reader Node := do
  let start ← startOffset
  expectWord "if"
  let test ← condition grammar
  let first ← grammar.statement true
  if ← takeWord "else" then
    let second ← grammar.statement true
    node start .ifStatement [test, first, second]
  else
    node start .ifStatement [test, first]

/-- Reads the rest of a loop over properties or elements, from behind its head. -/
def loopOver (grammar : Grammar) (start : Nat) (head : Node) (isAwait : Bool) : Reader Node := do
  if ← takeWord "of" then
    let items ← bracketed grammar.assignment
    expectSign ")"
    let body ← grammar.statement true
    node start (.forOfStatement isAwait) [head, items, body]
  else
    if isAwait then
      unexpected
    expectWord "in"
    let object ← bracketed (expression grammar)
    expectSign ")"
    let body ← grammar.statement true
    node start .forInStatement [head, object, body]

/-- Reads an expression of a loop unless the sign behind it comes at once. -/
def loopPart (grammar : Grammar) (close : String) : Reader (List Node) := do
  if ← takeSign close then
    return []
  else
    let part ← bracketed (expression grammar)
    expectSign close
    return [part]

/-- Reads the rest of a counting loop, from behind its first part. -/
def loopWhile (grammar : Grammar) (start : Nat) (first : List Node) : Reader Node := do
  expectSign ";"
  let test ← loopPart grammar ";"
  let update ← loopPart grammar ")"
  let body ← grammar.statement true
  node start (.forStatement (!first.isEmpty) (!test.isEmpty) (!update.isEmpty))
    (first ++ test ++ update ++ [body])

/-- Reads a loop whose first part declares variables. -/
def declaringLoop (grammar : Grammar) (start : Nat) (isAwait : Bool) (form : VariableForm)
    (words : Nat) : Reader Node := do
  let headStart ← startOffset
  skipWords words
  let items ← within (fun context => { context with allowsIn := false }) (declarators grammar)
  let head ← node headStart (.variables form) items
  if (← atWord "of") || (← atWord "in") then
    match items with
    | [.mk .declarator _ [_]] => loopOver grammar start head isAwait
    | [.mk .declarator _ [.mk (.binding _) _ _, _]] =>
        if form == .var && (← atWord "in") then loopOver grammar start head isAwait
        else unexpected
    | _ => unexpected
  else
    if isAwait then
      unexpected
    unless items.all (hasNeededValue form) do
      unexpected
    loopWhile grammar start [head]

/-- Reads a loop that begins with the word `for`. -/
def forLoop (grammar : Grammar) : Reader Node := do
  let start ← startOffset
  expectWord "for"
  let isAwait ← takeWord "await"
  if isAwait && !(← read).allowsAwait then
    modify fun state => { state with hasEarlyAwait := true }
  expectSign "("
  if ← atSign ";" then
    if isAwait then
      unexpected
    loopWhile grammar start []
  else
    match ← variableForm? with
    | some (form, words) => declaringLoop grammar start isAwait form words
    | none =>
        let isAsyncOf := (← atWord "async") && (← peekSecond).any (isWord · "of")
        let first ←
          within (fun context => { context with allowsIn := false }) (expression grammar)
        if (← atWord "of") && isAsyncOf && !isAwait then
          unexpected
        if (← atWord "of") || (← atWord "in") then
          loopOver grammar start (← target first) isAwait
        else
          if isAwait then
            unexpected
          loopWhile grammar start [first]

/-- Reads a `while` loop. -/
def whileLoop (grammar : Grammar) : Reader Node := do
  let start ← startOffset
  expectWord "while"
  let test ← condition grammar
  let body ← grammar.statement true
  node start .whileStatement [test, body]

/-- Reads a loop with its test at the end, behind which no semicolon is needed. -/
def doLoop (grammar : Grammar) : Reader Node := do
  let start ← startOffset
  expectWord "do"
  let body ← grammar.statement true
  expectWord "while"
  let test ← condition grammar
  let _ ← takeSign ";"
  node start .doWhileStatement [body, test]

/-- Reads a `with` statement. -/
def withStatement (grammar : Grammar) : Reader Node := do
  let start ← startOffset
  expectWord "with"
  let object ← condition grammar
  let body ← grammar.statement true
  node start .withStatement [object, body]

/-- Whether a token ends the statements of a case. -/
def closesCase (token : Token) : Bool :=
  closesBlock token || isWord token "case" || isWord token "default"

/-- Reads a case of a `switch` statement. -/
def switchCase (grammar : Grammar) : Reader Node := do
  let start ← startOffset
  let isDefault ← takeWord "default"
  let test ←
    if isDefault then
      pure []
    else
      expectWord "case"
      pure [← bracketed (expression grammar)]
  expectSign ":"
  let items ← statementList grammar closesCase
  node start (.switchCase isDefault) (test ++ items)

/-- Reads a `switch` statement. -/
def switchStatement (grammar : Grammar) : Reader Node := do
  let start ← startOffset
  expectWord "switch"
  let object ← condition grammar
  expectSign "\x7b"
  let cases ← loop (fun items => do
    if ← takeSign "\x7d" then
      return .inr items
    return .inl (items ++ [← switchCase grammar])) []
  node start .switchStatement (object :: cases)

/-- Reads the handler of a `try` statement. -/
def catchClause (grammar : Grammar) : Reader Node := do
  let start ← startOffset
  expectWord "catch"
  let input ←
    if ← takeSign "(" then
      let pattern ← grammar.pattern
      expectSign ")"
      pure [pattern]
    else
      pure []
  let body ← block grammar
  node start (.catchClause !input.isEmpty) (input ++ [body])

/-- Reads a `try` statement. -/
def tryStatement (grammar : Grammar) : Reader Node := do
  let start ← startOffset
  expectWord "try"
  let body ← block grammar
  let handler ← if ← atWord "catch" then pure [← catchClause grammar] else pure []
  let finalizer ← if ← takeWord "finally" then pure [← block grammar] else pure []
  if handler.isEmpty && finalizer.isEmpty then
    unexpected
  node start (.tryStatement (!handler.isEmpty) (!finalizer.isEmpty)) (body :: handler ++ finalizer)

/-- Reads the label that a jump may name. -/
def jumpLabel? : Reader (Option String) := do
  let token ← peek
  if isName token && !token.opensLine then
    return some (← name)
  else
    return none

/-- Reads a jump out of a loop or to its next round. -/
def jump (kind : Option String → NodeKind) : Reader Node := do
  let start ← startOffset
  advance
  let label ← jumpLabel?
  semicolon
  node start (kind label) []

/-- Reads a `return` statement, which only a function has. -/
def returnStatement (grammar : Grammar) : Reader Node := do
  let start ← startOffset
  unless (← read).inFunction do
    unexpected
  expectWord "return"
  let token ← peek
  let value ←
    if token.opensLine || isSign token ";" || closesBlock token then pure []
    else pure [← expression grammar]
  semicolon
  node start .returnStatement value

/-- Reads a `throw` statement, whose value is on its line. -/
def throwStatement (grammar : Grammar) : Reader Node := do
  let start ← startOffset
  expectWord "throw"
  if (← peek).opensLine then
    unexpected
  let value ← expression grammar
  semicolon
  node start .throwStatement [value]

/-! ## Statements -/

/-- Reads a statement that is an expression, or one with a label. -/
def expressionStatement (grammar : Grammar) : Reader Node := do
  let token ← peek
  let start := token.span.start
  if isName token && (← peekSecond).any (isSign · ":") then
    let label ← name
    expectSign ":"
    let body ← grammar.statement true
    node start (.labeled label) [body]
  else
    let value ← expression grammar
    semicolon
    node start .expressionStatement [value]

/-- Whether a node is a generator. -/
def isGenerator (node : Node) : Bool :=
  match node.kind with
  | .function _ _ isGenerator => isGenerator
  | _ => false

/-- Reads a statement that begins with a word, unless the word begins an expression. -/
def wordStatement (grammar : Grammar) (isSingle : Bool) (text : String) : Reader Node := do
  let start ← startOffset
  match text with
  | "if" => ifStatement grammar
  | "for" => forLoop grammar
  | "while" => whileLoop grammar
  | "do" => doLoop grammar
  | "with" => withStatement grammar
  | "switch" => switchStatement grammar
  | "try" => tryStatement grammar
  | "break" => jump .breakStatement
  | "continue" => jump .continueStatement
  | "return" => returnStatement grammar
  | "throw" => throwStatement grammar
  | "debugger" =>
      advance
      semicolon
      node start .debuggerStatement []
  | "function" =>
      let item ← functionFrom grammar start .declaration false false
      if isSingle && isGenerator item then
        failAt start
      return item
  | "import" =>
      if (← peekSecond).any fun second => isSign second "." || isSign second "(" then
        expressionStatement grammar
      else
        importDeclaration
  | "export" => exportItem grammar
  | "class" =>
      if isSingle then
        unexpected
      classFrom grammar start [] true
  | "async" =>
      let second ← peekSecond
      if second.any fun second => isWord second "function" && !second.opensLine then
        if isSingle then
          unexpected
        advance
        functionFrom grammar start .declaration true false
      else
        expressionStatement grammar
  | _ => expressionStatement grammar

/-- Reads a statement. -/
def statementProduction (grammar : Grammar) (isSingle : Bool) : Reader Node := do
  let token ← peek
  let start := token.span.start
  match token.kind with
  | .sign "\x7b" => block grammar
  | .sign ";" =>
      advance
      node start .emptyStatement []
  | .sign "@" =>
      if isSingle then
        unexpected
      let marks ← decorators grammar
      classFrom grammar start marks true
  | .word text false =>
      match ← variableForm? with
      | some (form, words) =>
          if isSingle && form.isLexical then
            unexpected
          variableStatement grammar form words
      | none => wordStatement grammar isSingle text
  | _ => expressionStatement grammar

end Reader
end Shakedown
