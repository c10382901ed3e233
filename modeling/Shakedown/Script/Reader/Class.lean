import Shakedown.Script.Reader.Function

/-!
# Reading classes

A class has decorators, perhaps a name and a superclass, and members: methods, accessors, fields
and static blocks.
-/

namespace Shakedown
namespace Reader

/-- Whether a token may begin the name of a member. -/
def beginsKey (token : Token) : Bool :=
  match token.kind with
  | .word _ _ => true
  | .privateName _ => true
  | .string _ _ => true
  | .number _ => true
  | .sign sign => sign == "["
  | _ => false

/-- Reads a word if it comes next and changes the member behind it, and tells whether it did. A
member name follows, or a star where `mayStar`; it is on the same line where `sameLine`. -/
def takeModifier (text : String) (mayStar sameLine : Bool) : Reader Bool := do
  unless ← atWord text do
    return false
  match ← peekSecond with
  | none => return false
  | some second =>
      if (beginsKey second || (mayStar && isSign second "*")) && !(sameLine && second.opensLine)
      then
        advance
        return true
      else
        return false

/-- Reads the name of a class member, and tells whether it is computed. -/
def memberKey (grammar : Grammar) : Reader (Node × Bool) := do
  let token ← peek
  match token.kind with
  | .privateName text =>
      advance
      return (← node token.span.start (.privateName text) [], false)
  | _ => propertyKey grammar

/-- The context of a field or static block. -/
def memberContext : ReadContext :=
  { allowsIn := true
    inGenerator := false
    allowsAwait := false
    inFunction := false
    atTopLevel := false
    inDecorator := false }

/-- Reads a field from behind its name. -/
def classField (grammar : Grammar) (start : Nat) (marks : List Node) (key : Node)
    (isStatic isComputed isAccessor : Bool) : Reader Node := do
  let value ←
    if ← takeSign "=" then
      pure [← within (fun _ => memberContext) grammar.assignment]
    else
      pure []
  semicolon
  node start (.classField isStatic isComputed isAccessor) (marks ++ key :: value)

/-- Reads a member from behind its decorators and the word `static`. -/
def classMemberRest (grammar : Grammar) (start : Nat) (marks : List Node) (isStatic : Bool) :
    Reader Node := do
  let isAccessor ← takeModifier "accessor" false true
  let isAsync ← if isAccessor then pure false else takeModifier "async" true true
  let isGenerator ← if isAccessor then pure false else takeSign "*"
  let plain := !isAccessor && !isAsync && !isGenerator
  let isGetter ← if plain then takeModifier "get" false false else pure false
  let isSetter ← if plain && !isGetter then takeModifier "set" false false else pure false
  let (key, isComputed) ← memberKey grammar
  let form : MemberForm :=
    if isGetter then .getter else if isSetter then .setter else .method
  if isAsync || isGenerator || isGetter || isSetter || (← atSign "(") then
    let function ← method grammar form isAsync isGenerator
    node start (.classMethod form isStatic isComputed) (marks ++ [key, function])
  else
    classField grammar start marks key isStatic isComputed isAccessor

/-- Reads a member of a class. -/
def classMember (grammar : Grammar) : Reader Node := do
  let start ← startOffset
  let marks ← decorators grammar
  let opensBlock := (← peekSecond).any (isSign · "\x7b")
  if (← atWord "static") && opensBlock && marks.isEmpty then
    advance
    advance
    let items ← within (fun _ => memberContext) (statementList grammar closesBlock)
    expectSign "\x7d"
    node start .staticBlock items
  else
    let isStatic ← takeModifier "static" true false
    classMemberRest grammar start marks isStatic

/-- Reads the members of a class in braces. -/
def classBody (grammar : Grammar) : Reader Node := do
  let start ← startOffset
  expectSign "\x7b"
  let items ← loop (fun items => do
    if ← takeSign "\x7d" then
      return .inr items
    if ← takeSign ";" then
      return .inl items
    return .inl (items ++ [← classMember grammar])) []
  node start .classBody items

/-- Reads a class from the word `class` on. Its name may be absent, also where it is declared. -/
def classFrom (grammar : Grammar) (start : Nat) (marks : List Node) (isDeclaration : Bool) :
    Reader Node := do
  expectWord "class"
  let named ← if isName (← peek) then pure [← binding] else pure []
  let parent ← if ← takeWord "extends" then pure [← grammar.leftHand] else pure []
  let body ← classBody grammar
  node start (.classDefinition isDeclaration !parent.isEmpty) (marks ++ named ++ parent ++ [body])

end Reader
end Shakedown
