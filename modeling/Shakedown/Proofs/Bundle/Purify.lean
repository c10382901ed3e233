import Shakedown.Bundle.Purify
import Shakedown.Proofs.Bundle.Factory
import Shakedown.Proofs.Bundle.Import
import Shakedown.Proofs.Bundle.Subclass

/-!
# Purified bundles

The marking rules, one behind the other, leave a text that each of them leaves alone. So a purified bundle
stays as it is when it is purified again, unless taking out licenses joined the text around them, a rule
for enums or classes finds something new, or a new manifest names modules.
-/

namespace Shakedown

open Marker

namespace Manifest

/-- Tokens hold token characters only. -/
theorem tokensFit_tokensOf (content : String) : Marking.TokensFit (tokensOf content) := by
  intro token listed
  have among := mem_of_mem_distinct listed
  obtain ⟨part, among_parts, rfl⟩ := List.mem_map.1 among
  obtain ⟨_, -, among_tokens⟩ := List.mem_flatMap.1 among_parts
  have is_token := (List.mem_filter.1 among_tokens).2
  rw [isToken, Bool.and_eq_true] at is_token
  rw [String.toList_ofList]
  exact List.all_eq_true.1 is_token.2

end Manifest

namespace Marking

variable {tokens tokens' : List String} {text : List Char}

/-- The rules from the one for subclasses on, in their order. -/
def settlings (tokens : List String) (fit : TokensFit tokens) : List Settling :=
  [ .ofMarks isMarkedBy_subclassOpening
  , importSettling .modules tokens fit
  , importSettling .defaults tokens fit
  , .ofMarks isMarkedBy_factoryUse
  , .ofMarks isMarkedBy_moduleConstruction ]

/-- What settles the forms of the rules for some tokens settles those for fewer. -/
theorem isSettledIn_settlings (fit : TokensFit tokens) (fit' : TokensFit tokens')
    (subset : ∀ token ∈ tokens', token ∈ tokens)
    (settled : ∀ rule ∈ settlings tokens fit, rule.form.IsSettledIn text) :
    ∀ rule ∈ settlings tokens' fit', rule.form.IsSettledIn text := by
  simp only [settlings, List.forall_mem_cons] at settled ⊢
  obtain ⟨subclasses, imports, defaults, calls, constructions, -⟩ := settled
  exact ⟨subclasses, isSettledIn_of_subset fit fit' subset imports,
    isSettledIn_of_subset fit fit' subset defaults, calls, constructions, by simp⟩

end Marking

namespace Bundle

open Marking

variable {content : String}

/-- What the rules make of a text, one behind the other. -/
def applyAll (rules : List BundleRule) (tokens : List String) (text : List Char) : List Char :=
  rules.foldl (fun text rule => rule.apply tokens text) text

theorem toList_foldl_applyRule (rules : List BundleRule) (tokens : List String) (content : String) :
    (rules.foldl (fun text rule => applyRule rule tokens text) content).toList =
      applyAll rules tokens content.toList := by
  induction rules generalizing content with
  | nil => rfl
  | cons rule rules ih =>
      rw [List.foldl_cons, ih, applyRule, String.toList_ofList]
      rfl

theorem toList_purify (content : String) :
    (purify content).toList = applyAll rules (Manifest.tokensOf content) content.toList := by
  simp only [purify]
  generalize Manifest.tokensOf content = tokens
  exact toList_foldl_applyRule rules tokens content

/-- Rules that each leave a text alone leave it alone together. -/
theorem applyAll_eq {rules : List BundleRule} {tokens : List String} {text : List Char}
    (alone : ∀ rule ∈ rules, rule.apply tokens text = text) : applyAll rules tokens text = text := by
  induction rules with
  | nil => rfl
  | cons rule rules ih =>
      obtain ⟨first, others⟩ := List.forall_mem_cons.1 alone
      rw [applyAll, List.foldl_cons, first]
      exact ih others

/-- One rule changes the text, and those before and behind it leave it alone. -/
theorem applyAll_append_cons_eq {front back : List BundleRule} {rule : BundleRule}
    {tokens : List String} {text result : List Char} (before : ∀ rule ∈ front, rule.apply tokens text = text)
    (applied : rule.apply tokens text = result)
    (behind : applyAll back tokens result = result) :
    applyAll (front ++ rule :: back) tokens text = result := by
  have front_eq := applyAll_eq before
  rw [applyAll] at front_eq ⊢
  rw [List.foldl_append, front_eq, List.foldl_cons, applied]
  exact behind

/-- The rules that rewrite more than a statement find nothing in the text: no license comment, no enum
that is not wrapped, and no class that is not marked. -/
structure IsRewritten (text : List Char) : Prop where
  /-- No license comment is left. -/
  licenses : License.strip text = text
  /-- No enum filled line by line is left. -/
  plainEnums : Enum.wrapPlain text = text
  /-- No enum filled in a closure is left. -/
  closureEnums : Enum.wrapClosure text = text
  /-- No class that could be marked is left. -/
  classes : markClassClosures text = text

/-- In a text that all rules ran over, the forms of the last five are settled. -/
theorem isSettledIn_applyAll {tokens : List String} (fit : TokensFit tokens) (text : List Char) :
    ∀ rule ∈ settlings tokens fit, rule.form.IsSettledIn (applyAll rules tokens text) := by
  have last_five : applyAll rules tokens text = (settlings tokens fit).foldl
      (fun text rule => rule.apply text) (applyAll (rules.take 4) tokens text) := rfl
  rw [last_five]
  exact Settling.forall_isSettledIn_foldl _ _

/-- A text that the first four rules leave alone and the others have settled is left alone by all. -/
theorem apply_eq_of_isSettledIn {tokens : List String} {text : List Char} (fit : TokensFit tokens)
    (rewritten : IsRewritten text) (settled : ∀ rule ∈ settlings tokens fit, rule.form.IsSettledIn text) :
    ∀ rule ∈ rules, rule.apply tokens text = text := by
  have alone : ∀ rule ∈ settlings tokens fit, rule.apply text = text := fun rule member =>
    rule.apply_eq (settled rule member)
  simp only [settlings, List.forall_mem_cons] at alone
  obtain ⟨subclasses, imports, defaults, calls, constructions, -⟩ := alone
  simp only [rules, List.forall_mem_cons]
  exact ⟨rewritten.licenses, rewritten.plainEnums, rewritten.closureEnums, rewritten.classes, subclasses,
    imports, defaults, calls, constructions, by simp⟩

/-- A bundle with an import that its manifest lists. -/
def importing : String :=
  "/** PURE_IMPORTS_START a PURE_IMPORTS_END */\n_a__ = __webpack_require__(1);"

/-- The bundle with the import marked. -/
def importingMarked : String :=
  "/** PURE_IMPORTS_START a PURE_IMPORTS_END */\n_a__ = /*@__PURE__*/__webpack_require__(1);"

/-- A license comment between the parts of another one. -/
def nestedLicenses : String :=
  "//** @license */** @license */\nvar a = 1;\n"

/-- The bundle without the inner comment. -/
def outerLicense : String :=
  "/** @license */\nvar a = 1;\n"

end Bundle
end Shakedown
