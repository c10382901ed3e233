import Shakedown.Script.Reader.Statement

/-!
# Reading programs

A text is first read as a script. When it holds something that only a module has, `await` is an
operator outside functions, and if the text used it as a name there it is read once more. A text
that is no module must not have used `await` as an operator where no function is asynchronous.
-/

namespace Shakedown

/-- The productions whose parts nest at most `depth` deep. -/
def grammar : (depth : Nat) → Grammar
  | 0 =>
      { assignment := Reader.unexpected
        unary := Reader.unexpected
        leftHand := Reader.unexpected
        callee := Reader.unexpected
        pattern := Reader.unexpected
        statement := fun _ => Reader.unexpected }
  | depth + 1 =>
      { assignment := fun context state =>
          Reader.assignmentProduction (grammar depth) context state
        unary := fun context state => Reader.unaryProduction (grammar depth) context state
        leftHand := fun context state => Reader.leftHandProduction (grammar depth) context state
        callee := fun context state => Reader.calleeProduction (grammar depth) context state
        pattern := fun context state => Reader.patternProduction (grammar depth) context state
        statement := fun isSingle context state =>
          Reader.statementProduction (grammar depth) isSingle context state }

/-- A depth that no text of a length reaches: between two characters each production is entered at
most once. -/
def depthLimit (length : Nat) : Nat :=
  8 * (length + 2)

/-- The context outside functions. -/
def topLevelContext (allowsAwait : Bool) : ReadContext :=
  { allowsIn := true
    inGenerator := false
    allowsAwait
    inFunction := false
    atTopLevel := true
    inDecorator := false }

/-- The names that a statement exports. -/
def exportedNames : Node → List String
  | .mk .exportDeclaration _ [.mk (.variables _) _ declarators] =>
      declarators.flatMap fun
        | .mk .declarator _ (pattern :: _) => pattern.bindings.filterMap Node.name?
        | _ => []
  | .mk .exportDeclaration _ [.mk _ _ (.mk (.binding name) _ _ :: _)] => [name]
  | .mk (.exportList _) _ specifiers =>
      specifiers.filterMap fun
        | .mk (.exportSpecifier _ exported) _ _ => some exported
        | _ => none
  | .mk (.exportAll _ (some exported)) _ _ => [exported]
  | .mk .exportDefault _ _ => ["default"]
  | _ => []

/-- The offset of the first statement that exports a name again. -/
def repeatedExport? (known : List String) : List Node → Option Nat
  | [] => none
  | statement :: rest =>
      let names := exportedNames statement
      if names.any known.contains || !names.Nodup then some statement.span.start
      else repeatedExport? (names ++ known) rest

/-- The offset of the first shorthand with a standard value that is in no pattern. -/
def strayDefault? (nodes : List Node) : Option Nat :=
  nodes.findSome? fun
    | .mk .shorthandDefault _ (key :: _) => some key.span.stop
    | _ => none

/-- Reads a program with the goal given by `allowsAwait`; also what was noted on the way. -/
def readGoal (allowsAwait : Bool) (text : List Char) :
    Except SyntaxFault (Program × ReadState) := do
  let hashbang := Lexer.hashbang? text
  let (offset, rest) := match hashbang with
    | some (span, rest) => (span.stop, rest)
    | none => (0, text)
  let (token, comments) ← Lexer.next offset rest
  let start : ReadState :=
    { token
      lastStop := offset
      comments
      isModule := false
      hasEarlyAwait := false
      hasAwaitName := false }
  let items := Reader.statementList (grammar (depthLimit text.length)) (·.kind == .finish)
  let (statements, state) ← items (topLevelContext allowsAwait) start
  let (directives, body) := Reader.splitDirectives statements
  match strayDefault? (Node.nodesOfList body) with
  | some offset => throw ⟨offset⟩
  | none =>
      match repeatedExport? [] body with
      | some offset => throw ⟨offset⟩
      | none =>
          return (
            { body
              directives
              hashbang := hashbang.map (·.1)
              comments := state.comments.reverse
              isModule := state.isModule }, state)

/-- Reads a program. -/
def Program.read (text : String) : Except SyntaxFault Program :=
  let chars := text.toList
  match readGoal false chars with
  | .ok (program, state) =>
      if state.isModule then
        if state.hasAwaitName then
          match readGoal true chars with
          | .ok (again, _) => .ok again
          | .error _ => .ok program
        else
          .ok program
      else if state.hasEarlyAwait then
        .error ⟨state.token.span.start⟩
      else
        .ok program
  | .error fault =>
      match readGoal true chars with
      | .ok (program, state) => if state.isModule then .ok program else .error fault
      | .error _ => .error fault

end Shakedown
