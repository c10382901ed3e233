import Shakedown.Script.Lexer
import Shakedown.Script.Node

/-!
# Reading trees

The reader looks at one token at a time. What surrounds a construct is a context that is handed
down; what was read so far is a state that is handed on, so that trying a second way to read a text
starts from the same state as the first.

Productions that contain each other are tied together by `Grammar`: each takes the grammar for the
parts inside it, and a grammar is made from one whose parts may nest less deeply.
-/

namespace Shakedown

/-- What surrounds a construct. -/
structure ReadContext where
  /-- Whether `in` is an operator. -/
  allowsIn : Bool
  /-- Whether the innermost function is a generator. -/
  inGenerator : Bool
  /-- Whether `await` is an operator. -/
  allowsAwait : Bool
  /-- Whether a function is around. -/
  inFunction : Bool
  /-- Whether no function is around. -/
  atTopLevel : Bool
  /-- Whether brackets end a decorator. -/
  inDecorator : Bool
  deriving Repr, Inhabited

/-- What was read so far. -/
structure ReadState where
  /-- The token to be read next. -/
  token : Token
  /-- Byte offset behind the last token read. -/
  lastStop : Nat
  /-- The comments so far, the last one first. -/
  comments : List Span
  /-- Whether something was read that only a module has. -/
  isModule : Bool
  /-- Whether `await` was an operator where only a module has it. -/
  hasEarlyAwait : Bool
  /-- Whether `await` was a name outside functions. -/
  hasAwaitName : Bool
  deriving Repr, Inhabited

/-- A step of reading. -/
abbrev Reader := ReaderT ReadContext (StateT ReadState (Except SyntaxFault))

/-- The productions that contain each other. -/
structure Grammar where
  /-- An expression without commas. -/
  assignment : Reader Node
  /-- An operand with the operators before it. -/
  unary : Reader Node
  /-- A member or call, or what these begin with. -/
  leftHand : Reader Node
  /-- The callee of a construction. -/
  callee : Reader Node
  /-- A pattern that declares names. -/
  pattern : Reader Node
  /-- A statement of a list; `isSingle` tells that it is the only one allowed. -/
  statement : (isSingle : Bool) → Reader Node

namespace Reader

/-- Stops at the token to be read next. -/
def unexpected {α : Type} : Reader α := do
  throw ⟨(← get).token.span.start⟩

/-- Stops at a byte offset. -/
def failAt {α : Type} (offset : Nat) : Reader α :=
  throw ⟨offset⟩

/-- The token to be read next. -/
def peek : Reader Token :=
  return (← get).token

/-- The start of the token to be read next. -/
def startOffset : Reader Nat :=
  return (← get).token.span.start

/-- Goes on to the token behind the one to be read next. -/
def advance : Reader Unit := do
  let state ← get
  match Lexer.next state.token.span.stop state.token.after with
  | .error fault => throw fault
  | .ok (token, comments) =>
      set { state with
        token
        lastStop := state.token.span.stop
        comments := comments ++ state.comments }

/-- The token behind the one to be read next, if the text goes on with a token. -/
def peekSecond : Reader (Option Token) := do
  let token := (← get).token
  match Lexer.next token.span.stop token.after with
  | .error _ => return none
  | .ok (second, _) => return some second

/-- Whether a token is a sign. -/
def isSign (token : Token) (sign : String) : Bool :=
  token.kind == .sign sign

/-- Whether a token is a word without escapes. -/
def isWord (token : Token) (word : String) : Bool :=
  token.kind == .word word false

/-- Whether a token is a word that may be a name. -/
def isName (token : Token) : Bool :=
  match token.kind with
  | .word text _ => !reservedWords.contains text
  | _ => false

/-- Whether a sign comes next. -/
def atSign (sign : String) : Reader Bool :=
  return isSign (← peek) sign

/-- Whether a word comes next. -/
def atWord (word : String) : Reader Bool :=
  return isWord (← peek) word

/-- Reads a sign if it comes next, and tells whether it did. -/
def takeSign (sign : String) : Reader Bool := do
  if ← atSign sign then
    advance
    return true
  else
    return false

/-- Reads a word if it comes next, and tells whether it did. -/
def takeWord (word : String) : Reader Bool := do
  if ← atWord word then
    advance
    return true
  else
    return false

/-- Reads a sign. -/
def expectSign (sign : String) : Reader Unit := do
  unless ← takeSign sign do
    unexpected

/-- Reads a word. -/
def expectWord (word : String) : Reader Unit := do
  unless ← takeWord word do
    unexpected

/-- A node that reaches from a byte offset to the last token read. -/
def node (start : Nat) (kind : NodeKind) (children : List Node) : Reader Node :=
  return .mk kind ⟨start, (← get).lastStop⟩ children

/-- Reads the end of a statement: a semicolon, or a place where one may be left out. -/
def semicolon : Reader Unit := do
  if ← takeSign ";" then
    return
  let token ← peek
  unless isSign token "\x7d" || token.kind == .finish || token.opensLine do
    unexpected

/-- Repeats a step until it answers. Every round reads a token, so there are no more rounds than
characters left. -/
def loop {σ α : Type} (step : σ → Reader (σ ⊕ α)) (start : σ) : Reader α := do
  go ((← peek).after.length + 2) start
where
  /-- Up to `rounds` steps. -/
  go : Nat → σ → Reader α
    | 0, _ => unexpected
    | rounds + 1, state => do
        match ← step state with
        | .inl state => go rounds state
        | .inr result => return result

/-- Reads items up to and with a closing sign, with commas between them and perhaps one behind the
last. -/
def commaList (close : String) (item : Reader Node) : Reader (List Node) :=
  loop (fun items => do
    if ← takeSign close then
      return .inr items
    let items := items ++ [← item]
    unless ← atSign close do
      expectSign ","
    return .inl items) []

/-- Reads with another context. -/
def within {α : Type} (change : ReadContext → ReadContext) (reader : Reader α) : Reader α :=
  withReader change reader

/-- Reads the inside of brackets, where `in` is always an operator. -/
def bracketed {α : Type} (reader : Reader α) : Reader α :=
  within (fun context => { context with allowsIn := true, inDecorator := false }) reader

/-- Reads in one way or, when the text does not fit, in another one. -/
def orElse {α : Type} (first second : Reader α) : Reader α :=
  fun context state =>
    match first context state with
    | .ok result => .ok result
    | .error _ => second context state

/-- Tries to read; a text that does not fit is left as it is. -/
def attempt {α : Type} (reader : Reader α) : Reader (Option α) :=
  orElse (some <$> reader) (return none)

/-- The token behind the next two, if the text goes on that far. -/
def peekThird : Reader (Option Token) :=
  fun context state =>
    match (do advance; peekSecond : Reader (Option Token)) context state with
    | .ok (third, _) => .ok (third, state)
    | .error _ => .ok (none, state)

/-- Checks that `await` and `yield` are not used as names where they are operators. -/
def checkName (name : String) (offset : Nat) : Reader Unit := do
  let context ← read
  if name == "await" && context.allowsAwait then
    failAt offset
  if name == "yield" && context.inGenerator then
    failAt offset
  if name == "await" && context.atTopLevel then
    modify fun state => { state with hasAwaitName := true }

/-- Reads a name that is no reserved word. -/
def name : Reader String := do
  let token ← peek
  match token.kind with
  | .word text _ =>
      if reservedWords.contains text then
        unexpected
      checkName text token.span.start
      advance
      return text
  | _ => unexpected

/-- Reads the use of a name. -/
def reference : Reader Node := do
  let start ← startOffset
  let text ← name
  node start (.reference text) []

/-- Reads the declaration of a name. -/
def binding : Reader Node := do
  let start ← startOffset
  let text ← name
  node start (.binding text) []

/-- Reads any word. -/
def word : Reader String := do
  match (← peek).kind with
  | .word text _ =>
      advance
      return text
  | _ => unexpected

/-- Reads a string and gives its value. -/
def stringValue : Reader String := do
  match (← peek).kind with
  | .string value _ =>
      advance
      return value
  | _ => unexpected

/-- Reads the name of a property that is no expression. -/
def literalKey : Reader Node := do
  let token ← peek
  match token.kind with
  | .word text _ =>
      advance
      node token.span.start (.propertyName text) []
  | .string value raw =>
      advance
      node token.span.start (.string value raw) []
  | .number raw =>
      advance
      node token.span.start (.number raw) []
  | _ => unexpected

/-- Reads the name of a property, and tells whether it is computed. -/
def propertyKey (grammar : Grammar) : Reader (Node × Bool) := do
  if ← takeSign "[" then
    let key ← bracketed grammar.assignment
    expectSign "]"
    return (key, true)
  else
    return (← literalKey, false)

end Reader
end Shakedown
