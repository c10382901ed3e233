import Shakedown.Script.Reader.Expression

/-!
# Reading imports and exports

A text that holds one of these is a module.
-/

namespace Shakedown
namespace Reader

/-- Notes that the text is a module. -/
def markModule : Reader Unit :=
  modify fun state => { state with isModule := true }

/-- Reads a name of the other module, which may be a string. -/
def foreignName : Reader String := do
  match (← peek).kind with
  | .string _ _ => stringValue
  | _ => word

/-- Reads an attribute of an import. -/
def importAttribute : Reader Node := do
  let start ← startOffset
  let key ← foreignName
  expectSign ":"
  let value ← stringValue
  node start (.importAttribute key value) []

/-- Reads the attributes of an import, if any come next. -/
def importAttributes : Reader (List Node) := do
  let token ← peek
  if isWord token "with" || (isWord token "assert" && !token.opensLine) then
    advance
    expectSign "\x7b"
    commaList "\x7d" importAttribute
  else
    return []

/-- Reads an imported name with the name that it gets. -/
def importSpecifier : Reader Node := do
  let token ← peek
  let start := token.span.start
  let isRenamed := (← peekSecond).any (isWord · "as")
  let isText := match token.kind with
    | .string _ _ => true
    | _ => false
  if isText then
    let imported ← stringValue
    expectWord "as"
    node start (.importSpecifier imported) [← binding]
  else if isRenamed then
    let imported ← word
    expectWord "as"
    node start (.importSpecifier imported) [← binding]
  else
    let local_ ← binding
    match local_.kind with
    | .binding text => node start (.importSpecifier text) [local_]
    | _ => unexpected

/-- Reads an import of everything under one name. -/
def importNamespace : Reader Node := do
  let start ← startOffset
  expectSign "*"
  expectWord "as"
  node start .importNamespace [← binding]

/-- Reads imported names in braces. -/
def importNames : Reader (List Node) := do
  expectSign "\x7b"
  commaList "\x7d" importSpecifier

/-- Reads what an import names. -/
def importClause : Reader (List Node) := do
  if ← atSign "*" then
    return [← importNamespace]
  else if ← atSign "\x7b" then
    importNames
  else
    let start ← startOffset
    let first ← node start .importDefault [← binding]
    if ← takeSign "," then
      if ← atSign "*" then
        return [first, ← importNamespace]
      else
        return first :: (← importNames)
    else
      return [first]

/-- Reads the word that says when the other module is run, if one comes next. -/
def importPhase : Reader String := do
  let token ← peek
  let second ← peekSecond
  if isWord token "defer" && second.any (isSign · "*") then
    advance
    return "defer"
  else if isWord token "source" && second.any (fun second => isName second && !isWord second "from")
  then
    advance
    return "source"
  else
    return ""

/-- Reads an import. -/
def importDeclaration : Reader Node := do
  let start ← startOffset
  expectWord "import"
  markModule
  match (← peek).kind with
  | .string _ _ =>
      let source ← stringValue
      let marks ← importAttributes
      semicolon
      node start (.importDeclaration source "" false) marks
  | _ =>
      let phase ← importPhase
      let clause ← importClause
      expectWord "from"
      let source ← stringValue
      let marks ← importAttributes
      semicolon
      node start (.importDeclaration source phase true) (clause ++ marks)

/-- An exported name as it is read: where it begins and ends, the local name, whether that is a
string, and the name that it gets. -/
structure ExportEntry where
  /-- The bytes of the local name. -/
  localSpan : Span
  /-- The bytes of the entry. -/
  span : Span
  /-- The local name. -/
  name : String
  /-- Whether the local name is a string. -/
  isText : Bool
  /-- The exported name. -/
  exported : String

/-- Reads an exported name. -/
def exportEntry : Reader ExportEntry := do
  let token ← peek
  let isText := match token.kind with
    | .string _ _ => true
    | _ => false
  let name ← foreignName
  let exported ← if ← takeWord "as" then foreignName else pure name
  return {
    localSpan := token.span
    span := ⟨token.span.start, (← get).lastStop⟩
    name
    isText
    exported }

/-- Reads exported names in braces. -/
def exportEntries : Reader (List ExportEntry) := do
  expectSign "\x7b"
  loop (fun items => do
    if ← takeSign "\x7d" then
      return .inr items
    let items := items ++ [← exportEntry]
    unless ← atSign "\x7d" do
      expectSign ","
    return .inl items) []

/-- An entry of a list of exports. Without a source its name is one of this module. -/
def exportSpecifier (isLocal : Bool) (entry : ExportEntry) : Reader Node := do
  if isLocal then
    if entry.isText || reservedWords.contains entry.name ||
        strictReservedWords.contains entry.name then
      failAt entry.localSpan.start
    return .mk (.exportSpecifier entry.name entry.exported) entry.span
      [.mk (.reference entry.name) entry.localSpan []]
  else
    return .mk (.exportSpecifier entry.name entry.exported) entry.span []

/-- Reads a list of exports. -/
def exportList (start : Nat) : Reader Node := do
  let entries ← exportEntries
  let source ← if ← takeWord "from" then some <$> stringValue else pure none
  let marks ← if source.isSome then importAttributes else pure []
  semicolon
  let specifiers ← entries.mapM (exportSpecifier source.isNone)
  node start (.exportList source) (specifiers ++ marks)

/-- Reads an export of all names of another module. -/
def exportAll (start : Nat) : Reader Node := do
  expectSign "*"
  let exported ← if ← takeWord "as" then some <$> foreignName else pure none
  expectWord "from"
  let source ← stringValue
  let marks ← importAttributes
  semicolon
  node start (.exportAll source exported) marks

/-- Reads the export of a value without a name. -/
def exportDefault (grammar : Grammar) (start : Nat) : Reader Node := do
  let token ← peek
  let itemStart := token.span.start
  let second ← peekSecond
  let item ←
    if isWord token "function" then
      functionFrom grammar itemStart .declaration false true
    else if isWord token "async" &&
        second.any (fun second => isWord second "function" && !second.opensLine) then
      advance
      functionFrom grammar itemStart .declaration true true
    else if isWord token "class" then
      classFrom grammar itemStart [] true
    else if isSign token "@" then
      let marks ← decorators grammar
      classFrom grammar itemStart marks true
    else
      let value ← grammar.assignment
      semicolon
      pure value
  node start .exportDefault [item]

/-- Whether a statement declares names that a module may export. -/
def isDeclaration (statement : Node) : Bool :=
  match statement.kind with
  | .variables form => form == .var || form == .let_ || form == .const
  | .function .declaration _ _ => true
  | .classDefinition true _ => true
  | _ => false

/-- Reads an export. -/
def exportItem (grammar : Grammar) : Reader Node := do
  let start ← startOffset
  expectWord "export"
  markModule
  if ← atSign "\x7b" then
    exportList start
  else if ← atSign "*" then
    exportAll start
  else if ← takeWord "default" then
    exportDefault grammar start
  else
    let itemStart ← startOffset
    let item ← grammar.statement false
    unless isDeclaration item do
      failAt itemStart
    node start .exportDeclaration [item]

end Reader
end Shakedown
