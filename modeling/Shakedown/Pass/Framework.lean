import Shakedown.Script.Basic

/-!
# Names of the framework

Which declarations of a script stand for decorators of the framework. A use of a name counts only
by the declaration that it means, never by its spelling.
-/

namespace Shakedown
namespace Framework

/-- The module that exports the decorators. -/
def moduleName : String := "@angular/core"

/-- The decorators whose metadata is dropped. -/
def decoratorNames : List String :=
  [ "Component", "Directive", "Injectable", "NgModule", "Pipe", "ContentChild", "ContentChildren"
  , "HostBinding", "HostListener", "Input", "Output", "ViewChild", "ViewChildren" ]

/-- Whether a statement imports the framework's module. -/
def importsFramework : Node → Bool
  | .mk (.importDeclaration source _ _) _ _ => source == moduleName
  | _ => false

/-- The offset of the local name of an imported decorator. -/
def importedDecorator? : Node → Option Nat
  | .mk (.importSpecifier imported) _ [binding] =>
      if decoratorNames.contains imported then some binding.span.start else none
  | _ => none

/-- The decorators that a declarator declares, by name and offset. -/
def declaredDecorator? : Node → Option (String × Nat)
  | .mk .declarator _ (.mk (.binding name) span _ :: _) =>
      if decoratorNames.contains name then some (name, span.start) else none
  | _ => none

/-- The decorators that a statement declares as variables. -/
def declaredDecorators : Node → List (String × Nat)
  | .mk (.variables _) _ declarators => declarators.filterMap declaredDecorator?
  | _ => []

/-- The symbols of declaring names, each once. -/
def symbolsAt (scoping : Scoping) (offsets : List Nat) : List Symbol :=
  (offsets.filterMap scoping.symbolAt?).eraseDups

/-- The symbols that stand for decorators. Imports from the framework's module decide; a script
without any counts as the framework itself when it declares every decorator at its top level. -/
def symbols (script : Script) : List Symbol :=
  let body := script.program.body
  if body.any importsFramework then
    let specifiers := (body.filter importsFramework).flatMap Node.children
    symbolsAt script.scoping (specifiers.filterMap importedDecorator?)
  else
    let declared := body.flatMap declaredDecorators
    if decoratorNames.all fun name => declared.any (·.1 == name) then
      symbolsAt script.scoping (declared.map (·.2))
    else
      []

/-- Whether an expression is a name that means one of the symbols and nothing else. -/
def namesSymbol (scoping : Scoping) (symbols : List Symbol) : Node → Bool
  | .mk (.reference _) span _ => (scoping.sole? span.start).any symbols.contains
  | _ => false

end Framework
end Shakedown
