import Shakedown.Edit.Basic
import Shakedown.Edit.CommaList
import Shakedown.Edit.StatementGap
import Shakedown.Pass.Framework
import Shakedown.Pass.HelperImport

/-!
# Dropping metadata

Compilers attach what decorators said about a class to the class: as lists in its properties
`decorators` and `propDecorators`, as a function in its property `ctorParameters`, or through a
helper that applies decorators. Entries that name a decorator of the framework are dropped, and a
statement whose entries are all dropped goes as a whole. A statement that only partly has the
expected shape stays as it is.
-/

namespace Shakedown
namespace Metadata

/-- Classes whose constructor metadata is needed while the platform starts. -/
def keptClasses : List String :=
  ["PlatformRef_", "TestabilityRegistry", "Console", "BrowserPlatformLocation"]

/-- An assignment to a named property of a name: the name, the property and the value. -/
structure PropertyAssignment where
  /-- The reference to the object. -/
  object : Node
  /-- The name of the object. -/
  name : String
  /-- The name of the property. -/
  property : String
  /-- The assignment as a whole. -/
  expression : Node
  /-- The value. -/
  value : Node

/-- The assignment that a statement is, if it is a plain one to a property of a name. -/
def assignment? : Node → Option PropertyAssignment
  | .mk .expressionStatement _
      [.mk (.assignment "=") span [.mk (.member property isOptional) memberSpan
        [.mk (.reference name) nameSpan parts], value]] =>
      let object : Node := .mk (.reference name) nameSpan parts
      let target : Node := .mk (.member property isOptional) memberSpan [object]
      some
        { object
          name
          property
          expression := .mk (.assignment "=") span [target, value]
          value }
  | _ => none

/-- What is cut: whole statements, and elements of lists. -/
structure Cuts where
  /-- Ranges of whole statements. -/
  statements : List Span
  /-- Ranges inside lists. -/
  elements : List Span
  deriving DecidableEq, Repr, Inhabited

namespace Cuts

/-- Nothing. -/
def none : Cuts := ⟨[], []⟩

/-- The cuts of two parts, the first before the second. -/
def append (first second : Cuts) : Cuts :=
  ⟨first.statements ++ second.statements, first.elements ++ second.elements⟩

/-- A whole statement. -/
def statement (script : Script) (statement : Node) : Cuts :=
  ⟨[statementGap script.text statement.span], []⟩

/-- Ranges inside lists. -/
def inside (spans : List Span) : Cuts := ⟨[], spans⟩

end Cuts

/-- The values of the property `type` of an object. -/
def typeValues (members : List Node) : List Node :=
  members.filterMap fun
    | .mk (.property _ false) _ [.mk (.propertyName "type") _ _, value] => some value
    | _ => none

/-- Whether an object describes a use of a decorator of the framework: it has one property `type`,
which names the decorator. -/
def describesDecorator (script : Script) (symbols : List Symbol) : Node → Bool
  | .mk .object _ members =>
      match typeValues members with
      | [value] => Framework.namesSymbol script.scoping symbols value
      | _ => false
  | _ => false

/-- Whether a node is an object literal. -/
def isObject (node : Node) : Bool :=
  match node.kind with
  | .object => true
  | _ => false

/-- A list that holds objects only: each element, and whether it is dropped. -/
def markedElements? (script : Script) (symbols : List Symbol) (elements : List Node) :
    Option (List (Span × Bool)) :=
  if elements.all isObject then
    some (elements.map fun element => (element.span, describesDecorator script symbols element))
  else
    none

/-- The cuts of a statement `X.decorators = …`. -/
def decoratorCuts (script : Script) (symbols : List Symbol) (statement value : Node) : Cuts :=
  match value with
  | .mk .array span elements =>
      match markedElements? script symbols elements with
      | none => Cuts.none
      | some marked =>
          if marked.all (·.2) then Cuts.statement script statement
          else Cuts.inside (CommaList.cuts marked (CommaList.inside span))
  | _ => Cuts.none

/-- A member whose value is an array: its range, and the range and elements of the array. -/
structure ListMember where
  /-- The range of the member. -/
  span : Span
  /-- The range of the array. -/
  arraySpan : Span
  /-- The elements of the array. -/
  elements : List Node

/-- The member as one whose value is an array. -/
def listMember? : Node → Option ListMember
  | .mk (.property _ _) span [_, .mk .array arraySpan elements] =>
      some { span, arraySpan, elements }
  | _ => none

/-- Whether all elements of a member are dropped. -/
def isDropped (script : Script) (symbols : List Symbol) (member : ListMember) : Bool :=
  (markedElements? script symbols member.elements).any fun marked => marked.all (·.2)

/-- The cuts inside a member that is not dropped as a whole. -/
def memberCuts (script : Script) (symbols : List Symbol) (member : ListMember) : List Span :=
  match markedElements? script symbols member.elements with
  | none => []
  | some marked =>
      if marked.all (·.2) then [] else CommaList.cuts marked (CommaList.inside member.arraySpan)

/-- The cuts of a statement `X.propDecorators = …`. -/
def propertyDecoratorCuts (script : Script) (symbols : List Symbol) (statement value : Node) :
    Cuts :=
  match value with
  | .mk .object span members =>
      match members.mapM listMember? with
      | none => Cuts.none
      | some lists =>
          let marked := lists.map fun member => (member.span, isDropped script symbols member)
          if marked.all (·.2) then Cuts.statement script statement
          else
            Cuts.inside (CommaList.cuts marked (CommaList.inside span) ++
              lists.flatMap (memberCuts script symbols))
  | _ => Cuts.none

/-- The cuts of a statement `X.ctorParameters = …`. -/
def constructorCuts (script : Script) (statement : Node) (name : String) (value : Node) : Cuts :=
  match value.kind with
  | .function .expression _ _ =>
      if keptClasses.contains name then Cuts.none else Cuts.statement script statement
  | _ => Cuts.none

/-- The cuts of a statement at the top level. -/
def statementCuts (script : Script) (symbols : List Symbol) (statement : Node) : Cuts :=
  match assignment? statement with
  | none => Cuts.none
  | some assignment =>
      match assignment.property with
      | "decorators" => decoratorCuts script symbols statement assignment.value
      | "propDecorators" => propertyDecoratorCuts script symbols statement assignment.value
      | "ctorParameters" => constructorCuts script statement assignment.name assignment.value
      | _ => Cuts.none

/-! ## The helper that applies decorators -/

/-- The names of the helper. -/
def decorateNames : List String :=
  ["__decorate", "___decorate"]

/-- Whether a node is `Reflect.decorate`. -/
def isReflectDecorate : Node → Bool
  | .mk (.member "decorate" _) _ [.mk (.reference "Reflect") _ _] => true
  | _ => false

/-- The offset of the name of the helper, when a declarator declares it. -/
def declaredHelper? : Node → Option Nat
  | .mk .declarator _ [.mk (.binding name) span _, value] =>
      if decorateNames.contains name && value.nodes.any isReflectDecorate then some span.start
      else none
  | _ => none

/-- The offset of the local name of the helper, when it is imported. -/
def importedHelper? : Node → Option Nat
  | .mk (.importSpecifier imported) _ [binding] =>
      if decorateNames.contains imported then some binding.span.start else none
  | _ => none

/-- The offset of the name of the helper, when a statement declares or imports it. -/
def helperName? : Node → Option Nat
  | .mk (.importDeclaration source _ _) _ parts =>
      if source == HelperImport.libraryName then parts.findSome? importedHelper? else none
  | .mk (.variables _) _ declarators => declarators.findSome? declaredHelper?
  | _ => none

/-- The symbol of the helper of a script. -/
def helper? (script : Script) : Option Symbol :=
  (script.program.body.findSome? helperName?).bind script.scoping.symbolAt?

/-- The array of decorators that a statement `target = helper([…], target)` applies. -/
def appliedDecorators? (script : Script) (helper : Symbol) : Node → Option (Span × List Node)
  | .mk .expressionStatement _
      [.mk (.assignment "=") _ [_,
        .mk (.call _) _ [.mk (.reference _) calleeSpan _, .mk .array span elements, _]]] =>
      if script.scoping.sole? calleeSpan.start == some helper then some (span, elements)
      else none
  | _ => none

/-- Whether an element calls a decorator of the framework. -/
def callsDecorator (script : Script) (symbols : List Symbol) : Node → Bool
  | .mk (.call _) _ (callee :: _) => Framework.namesSymbol script.scoping symbols callee
  | _ => false

/-- The cuts inside an array of applied decorators. -/
def appliedCuts (script : Script) (symbols : List Symbol) (span : Span) (elements : List Node) :
    List Span :=
  let marked := elements.map fun element => (element.span, callsDecorator script symbols element)
  if marked.any (·.2) then CommaList.cuts marked (CommaList.inside span) else []

mutual

/-- The cuts in statements of a tree that apply decorators, at any depth but not inside each
other. -/
def helperCuts (script : Script) (symbols : List Symbol) (helper : Symbol) : Node → List Span
  | .mk kind span children =>
      match appliedDecorators? script helper (.mk kind span children) with
      | some (arraySpan, elements) => appliedCuts script symbols arraySpan elements
      | none => helperCutsOfList script symbols helper children

/-- The cuts of several trees. -/
def helperCutsOfList (script : Script) (symbols : List Symbol) (helper : Symbol) :
    List Node → List Span
  | [] => []
  | node :: rest =>
      helperCuts script symbols helper node ++ helperCutsOfList script symbols helper rest

end

/-- All cuts of a script. -/
def cuts (script : Script) (symbols : List Symbol) : Cuts :=
  let body := script.program.body
  let listed := (body.map (statementCuts script symbols)).foldl Cuts.append Cuts.none
  match helper? script with
  | none => listed
  | some helper =>
      listed.append (Cuts.inside (helperCutsOfList script symbols helper body))

/-- Number of ranges that are cut. -/
def Cuts.size (cuts : Cuts) : Nat :=
  cuts.statements.length + cuts.elements.length

/-- Records the cuts: whole statements leave what is inserted at their start, elements take it
with them. -/
def record (cuts : Cuts) (revision : Revision) : Revision :=
  cuts.elements.foldl Revision.cutOut (cuts.statements.foldl Revision.remove revision)

end Metadata
end Shakedown
