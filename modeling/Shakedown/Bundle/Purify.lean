import Shakedown.Bundle.Enum
import Shakedown.Bundle.License
import Shakedown.Bundle.Marking
import Shakedown.Manifest

/-!
# Purifying bundles

A bundle is text only, so every rule is a substitution. The rules run in a fixed order, each on
what the one before it left; the tokens are those of the manifests in the text as it was given.
-/

namespace Shakedown

/-- A substitution over bundled text. -/
structure BundleRule where
  /-- Name of the rule. -/
  name : String
  /-- The text that the rule makes of a text, given the tokens of the manifests. -/
  apply : (tokens : List String) → List Char → List Char

namespace Bundle

/-- The rules in their order. -/
def rules : List BundleRule :=
  [ ⟨"strip-licenses", fun _ => License.strip⟩
  , ⟨"ts22-enums", fun _ => Enum.wrapPlain⟩
  , ⟨"ts23-enums", fun _ => Enum.wrapClosure⟩
  , ⟨"class-closures", fun _ => Marking.markClassClosures⟩
  , ⟨"extends-closures", fun _ => Marking.markExtendsClosures⟩
  , ⟨"webpack-imports", Marking.markImports⟩
  , ⟨"webpack-default-imports", Marking.markDefaultImports⟩
  , ⟨"factory-calls", fun _ => Marking.markFactoryCalls⟩
  , ⟨"module-factories", fun _ => Marking.markModuleFactories⟩ ]

/-- The text that one rule makes of a text. -/
def applyRule (rule : BundleRule) (tokens : List String) (content : String) : String :=
  String.ofList (rule.apply tokens content.toList)

/-- The rule with a name. -/
def rule? (name : String) : Option BundleRule :=
  rules.find? (·.name == name)

/-- A purified bundle. -/
def purify (content : String) : String :=
  let tokens := Manifest.tokensOf content
  rules.foldl (fun text rule => applyRule rule tokens text) content

/-- The rules that change a text as they run one after the other, each with the text behind it. -/
def changesFrom (tokens : List String) (content : String) :
    List BundleRule → List (String × String)
  | [] => []
  | rule :: rest =>
      let next := applyRule rule tokens content
      let others := changesFrom tokens next rest
      if next = content then others else (rule.name, next) :: others

/-- The rules that change a bundle, each with the text behind it. -/
def changes (content : String) : List (String × String) :=
  changesFrom (Manifest.tokensOf content) content rules

end Bundle
end Shakedown
