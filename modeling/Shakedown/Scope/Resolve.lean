import Shakedown.Scope.Frame

/-!
# What names mean

Reading a program from its start to its end with a stack of open scopes gives, for every use of a
name, the symbol that it means.
-/

namespace Shakedown

/-- What the use of a name means. -/
inductive Meaning
  /-- Nothing that the program declares. -/
  | undeclared
  /-- The one declaration of a symbol. -/
  | sole (symbol : Symbol)
  /-- A symbol that is declared more than once. -/
  | contested (symbol : Symbol)
  deriving DecidableEq, Repr, Inhabited

namespace ScopeStack

/-- Declares names in the innermost scope. -/
def declareAll (stack : ScopeStack) (bindings : List Node) : ScopeStack :=
  bindings.foldl
    (fun stack binding => stack.declare binding.span.start (binding.name?.getD "")) stack

/-- Declares variables in the way that their form asks for. -/
def declareForm (stack : ScopeStack) (form : VariableForm) (bindings : List Node) : ScopeStack :=
  if form.isLexical then
    stack.declareAll bindings
  else
    bindings.foldl
      (fun stack binding => stack.declareVariable binding.span.start (binding.name?.getD "")) stack

/-- The declaring names among the parts of a function or class. -/
def ownNames (parts : List Node) : List Node :=
  parts.filter fun
    | .mk (.binding _) _ _ => true
    | _ => false

/-- The patterns among declarators. -/
def declaredPatterns (declarators : List Node) : List Node :=
  declarators.filterMap fun
    | .mk .declarator _ (pattern :: _) => some pattern
    | _ => none

/-- Whether the body among the parts of a function asks for strict mode. -/
def hasStrictBody (parts : List Node) : Bool :=
  parts.any fun
    | .mk (.body directives) _ _ => asksStrict directives
    | _ => false

/-- The scope of a function with the given parts. -/
def functionFrame (stack : ScopeStack) (parts : List Node) : Frame :=
  Frame.fresh true (stack.top.isStrict || hasStrictBody parts)

/-- The scope of a block. -/
def blockFrame (stack : ScopeStack) : Frame :=
  Frame.fresh false stack.top.isStrict

mutual

/-- Reads a node. `isBranch` tells that it is a branch of an `if` statement: a function declared
there outside strict mode declares no name. -/
def readNode (isBranch : Bool) : Node → ScopeStack → ScopeStack
  | .mk kind span children, stack =>
      match kind, children with
      | .reference name, _ => stack.use span.start name
      | .function form _ _, parts =>
          let outer :=
            if form == .declaration && !(isBranch && !stack.top.isStrict) then
              stack.declareAll (ownNames parts)
            else
              stack
          outer.inScope (stack.functionFrame parts) fun inner =>
            readNodes parts
              (if form == .expression then inner.declareAll (ownNames parts) else inner)
      | .arrow _ _, parts => stack.inScope (stack.functionFrame parts) (readNodes parts)
      | .parameters, items =>
          (readNodes items (stack.declareAll (Node.bindingsOfList items))).settle
      | .classDefinition isDeclaration _, parts =>
          let outer := if isDeclaration then stack.declareAll (ownNames parts) else stack
          outer.inScope (Frame.fresh false true) fun inner =>
            readNodes parts (if isDeclaration then inner else inner.declareAll (ownNames parts))
      | .staticBlock, items => stack.inScope (Frame.fresh true true) (readNodes items)
      | .variables form, declarators => readDeclarators form declarators stack
      | .importDefault, parts => stack.declareAll (ownNames parts)
      | .importNamespace, parts => stack.declareAll (ownNames parts)
      | .importSpecifier _, parts => stack.declareAll (ownNames parts)
      | .block, items => stack.inScope stack.blockFrame (readNodes items)
      | .forStatement _ _ _, parts => stack.inScope stack.blockFrame (readNodes parts)
      | .forInStatement, parts => stack.inScope stack.blockFrame (readNodes parts)
      | .forOfStatement _, parts => stack.inScope stack.blockFrame (readNodes parts)
      | .switchStatement, object :: cases =>
          (readNode false object stack).inScope stack.blockFrame (readNodes cases)
      | .catchClause _, [pattern, body] =>
          stack.inScope stack.blockFrame fun inner =>
            readNode false body
              (readNode false pattern (inner.declareAll pattern.bindings)).settle
      | .ifStatement, parts => readBranches parts stack
      | _, parts => readNodes parts stack

/-- Reads nodes one behind the other. -/
def readNodes : List Node → ScopeStack → ScopeStack
  | [], stack => stack
  | node :: rest, stack => readNodes rest (readNode false node stack)

/-- Reads the parts of an `if` statement. -/
def readBranches : List Node → ScopeStack → ScopeStack
  | [], stack => stack
  | node :: rest, stack => readBranches rest (readNode true node stack)

/-- Reads declarators, each with its names before its value. -/
def readDeclarators (form : VariableForm) : List Node → ScopeStack → ScopeStack
  | [], stack => stack
  | declarator :: rest, stack =>
      let declared := stack.declareForm form
        (Node.bindingsOfList (declaredPatterns [declarator]))
      readDeclarators form rest (readNode false declarator declared)

end

/-- The names of a whole program. -/
def ofProgram (program : Program) : ScopeStack :=
  let start : ScopeStack :=
    { frames := [Frame.fresh true program.isStrict]
      settled := []
      uses := []
      repeated := []
      declarations := [] }
  (readNodes program.body start).settle

end ScopeStack

/-- The names of a program. -/
structure Scoping where
  /-- The uses of names in the order of the text. -/
  uses : List NameUse
  /-- The symbol of each use that has one. -/
  meanings : List (Nat × Symbol)
  /-- The symbols that are declared more than once. -/
  repeated : List Symbol
  /-- The symbol of each declaring name, by the offset of the name. -/
  declarations : List (Nat × Symbol)
  deriving Repr, Inhabited

namespace Scoping

/-- The names of a program. -/
def ofProgram (program : Program) : Scoping :=
  let stack := ScopeStack.ofProgram program
  { uses := stack.uses.mergeSort fun left right => left.offset ≤ right.offset
    meanings := stack.settled
    repeated := stack.repeated
    declarations := stack.declarations }

/-- What the use of a name at an offset means. -/
def resolve (scoping : Scoping) (offset : Nat) : Meaning :=
  match scoping.meanings.lookup offset with
  | none => .undeclared
  | some symbol =>
      if scoping.repeated.contains symbol then .contested symbol else .sole symbol

/-- The symbol that the use of a name means, when it has exactly one declaration. -/
def sole? (scoping : Scoping) (offset : Nat) : Option Symbol :=
  match scoping.resolve offset with
  | .sole symbol => some symbol
  | _ => none

/-- The symbol that the name declared at an offset belongs to. -/
def symbolAt? (scoping : Scoping) (offset : Nat) : Option Symbol :=
  scoping.declarations.lookup offset

end Scoping
end Shakedown
