import Shakedown.Marker
import Shakedown.Pattern.Search

/-!
# Marking expressions in bundled text

Rules that put a pure marker in front of an expression whose text shows that it has no effect:
closures that make a class, imports of modules that a manifest lists, and calls of two known
factories.
-/

namespace Shakedown
namespace Marking

/-- The matched text with a marker between groups 1 and 3. -/
def markGroup3 (found : Match) : List Char × Cursor :=
  (found.group 1 ++ Marker.pure.toList ++ found.group 3, found.stop)

/-- The declaration of a variable up to its value, at the start of a line. Group 1 is all of it and
group 2 the name. -/
def declarationStart : Pattern :=
  .seq .lineStart
    (.group 1 (.all [.literal "var ".toList, .group 2 .visible, .literal " = ".toList]))

/-- A line that holds a comment or a part of one, indented by four spaces. -/
def commentLine : Pattern :=
  .all
    [ .literal "    ".toList
    , .any [.literal "/**".toList, .literal " *".toList, .literal "*/".toList, .literal "//".toList]
    , .many (.one fun char => char != '\r' && char != '\n')
    , .lineBreak ]

/-- A closure that opens with a function; group 4 is the name of the function. -/
def classOpening : Pattern :=
  .seq declarationStart
    (.group 3 (.all
      [ .literal "(function () \x7b".toList, .lineBreak
      , .many commentLine
      , .literal "    function ".toList
      , .group 4
          (.seq (.one fun char => !CharClass.isBlank char)
            (.few (.one fun char => !CharClass.isBlank char)))
      , .literal ['('], .many (.one (· != ')')), .literal ") \x7b".toList, .lineBreak ]))

/-- Marks closures whose function bears the name of the variable. -/
def markClassClosures (text : List Char) : List Char :=
  classOpening.substitute
    (fun found => if found.group 2 == found.group 4 then some (markGroup3 found) else none) text

/-- A closure that opens with the call that sets up inheritance. -/
def subclassOpening : Pattern :=
  .seq declarationStart
    (.group 3 (.all
      [ .literal "(function (_super) \x7b".toList, .lineBreak
      , .literal "    ".toList, .word, .literal "__extends(".toList
      , .some (.one CharClass.isWord), .literal ", _super);".toList, .lineBreak ]))

/-- Marks closures that set up inheritance. -/
def markExtendsClosures (text : List Char) : List Char :=
  subclassOpening.substitute (fun found => some (markGroup3 found)) text

/-- The assignment of a module to the variable of an import. The name of the variable ends in a
token, which is group 2, and `ending`. -/
def importAssignment (tokens : List String) (ending : String) (call : Pattern) : Pattern :=
  .seq
    (.group 1 (.all
      [ .literal ['_'], .group 2 (.any (tokens.map fun token => .literal token.toList))
      , .literal (ending ++ " = ").toList ]))
    (.group 3 call)

/-- Marks assignments of modules. Without tokens there is nothing to mark. -/
def markImportAssignments (ending : String) (call : Pattern) (tokens : List String)
    (text : List Char) : List Char :=
  if tokens.isEmpty then text
  else (importAssignment tokens ending call).substitute (fun found => some (markGroup3 found)) text

/-- The call that loads a module. -/
def requireCall : Pattern :=
  .all [.literal "__webpack_require__(".toList, .visible, .literal ");".toList]

/-- The call that takes the default export of a module. -/
def defaultCall : Pattern :=
  .all
    [ .literal "__webpack_require__.".toList, .one CharClass.isWord, .literal ['('], .visible
    , .literal ");".toList ]

/-- Marks the loading of the modules that the tokens name. -/
def markImports : (tokens : List String) → List Char → List Char :=
  markImportAssignments "__" requireCall

/-- Marks taking the default export of the modules that the tokens name. -/
def markDefaultImports : (tokens : List String) → List Char → List Char :=
  markImportAssignments "___default" defaultCall

/-- The start of a reference to an export of the framework's core module, up to the comment that
names the export. -/
def coreExport : Pattern :=
  .all
    [ .word, .literal "__WEBPACK_IMPORTED_MODULE_".toList, .digits
    , .literal "__angular_core__[\"".toList, .some (.one CharClass.isWord)
    , .literal "\" /* ".toList ]

/-- The call of a factory. -/
def factoryUse : Pattern :=
  .all
    [ coreExport, .any [.literal "ɵccf".toList, .literal "ɵcmf".toList]
    , .literal " */](".toList ]

/-- The construction of a module factory. -/
def moduleConstruction : Pattern :=
  .all [.literal "new ".toList, coreExport, .literal "NgModuleFactory */]".toList]

/-- Puts a marker in front of every match that has none. -/
def markMatches (pattern : Pattern) (text : List Char) : List Char :=
  pattern.substitute
    (fun found =>
      if found.start.follows Marker.pure.toList then none
      else some (Marker.pure.toList ++ found.text, found.stop))
    text

/-- Marks the calls of factories. -/
def markFactoryCalls : List Char → List Char :=
  markMatches factoryUse

/-- Marks the construction of module factories. -/
def markModuleFactories : List Char → List Char :=
  markMatches moduleConstruction

end Marking
end Shakedown
