import Mathlib.Tactic.Simproc.ExistsAndEq
import Shakedown.Manifest
import Shakedown.Proofs.Bundle.Settling

/-!
# Imports in bundled text

Two rules look for assignments to the variable of an import whose name ends in a token: one for the call
that loads the module, one for the call that takes its default export.
-/

namespace Shakedown
namespace Marking

open Marker

/-! ## What the rules look for -/

/-- A call with one argument at least, given how it opens. -/
def IsCall (Opening : List Char → Prop) (body : List Char) : Prop :=
  ∃ start arguments : List Char, Opening start ∧ arguments ≠ [] ∧
    (∀ char ∈ arguments, !CharClass.isBlank char) ∧ body = start ++ (arguments ++ ");".toList)

/-- Every token holds token characters only. -/
def TokensFit (tokens : List String) : Prop :=
  ∀ token ∈ tokens, ∀ char ∈ token.toList, Manifest.isTokenChar char

instance (tokens : List String) : Decidable (TokensFit tokens) :=
  decidable_of_iff (tokens.all fun token => token.toList.all Manifest.isTokenChar) (by simp [TokensFit])

/-- What one of the two rules looks for: how the name of the variable ends, and the call. -/
structure ImportKind where
  /-- What stands behind the token in the name. -/
  ending : String
  /-- The pattern of the call. -/
  call : Pattern
  /-- How the call opens. -/
  Opening : List Char → Prop
  /-- The pattern takes the calls that open so. -/
  call_takes : ∀ {before text rest groups noted}, call.Takes before text rest groups noted ↔
    IsCall Opening text ∧ noted = groups
  /-- The name ends in token characters. -/
  ending_fits : ∀ char ∈ ending.toList, Manifest.isTokenChar char
  /-- The call is one of the function that loads modules. -/
  opening_eq : ∀ start, Opening start →
    ∃ more, start = "__webpack_require__".toList ++ more ∧ '/' ∉ more ∧ ' ' ∉ more

/-- The variable of an import up to its value. -/
def IsImportStart (kind : ImportKind) (tokens : List String) (head : List Char) : Prop :=
  ∃ token ∈ tokens, head = ['_'] ++ (token.toList ++ (kind.ending ++ " = ").toList)

section Takes

variable {before text rest : List Char} {groups noted : Groups}

open Pattern hiding some

theorem takes_requireCall :
    requireCall.Takes before text rest groups noted ↔
      IsCall (· = "__webpack_require__(".toList) text ∧ noted = groups := by
  simp only [requireCall, takes_all_cons, takes_all_nil, takes_literal, visible, takes_some_one, IsCall,
    and_assoc, existsAndEq, true_and, List.append_nil]
  constructor
  · rintro ⟨arguments, rfl, filled, visible, noted_eq⟩
    exact ⟨⟨arguments, filled, visible, rfl⟩, noted_eq⟩
  · rintro ⟨⟨arguments, filled, visible, rfl⟩, noted_eq⟩
    exact ⟨arguments, rfl, filled, visible, noted_eq⟩

/-- How the call that takes the default export of a module opens. -/
def IsDefaultOpening (start : List Char) : Prop :=
  ∃ char, CharClass.isWord char ∧ start = "__webpack_require__.".toList ++ ([char] ++ ['('])

theorem takes_defaultCall :
    defaultCall.Takes before text rest groups noted ↔ IsCall IsDefaultOpening text ∧ noted = groups := by
  simp only [defaultCall, takes_all_cons, takes_all_nil, takes_literal, takes_one, visible, takes_some_one,
    IsCall, IsDefaultOpening, and_assoc, existsAndEq, true_and, List.append_nil]
  constructor
  · rintro ⟨arguments, char, rfl, word, filled, visible, noted_eq⟩
    exact ⟨⟨arguments, char, word, filled, visible, by simp⟩, noted_eq⟩
  · rintro ⟨⟨arguments, char, word, filled, visible, rfl⟩, noted_eq⟩
    exact ⟨arguments, char, by simp, word, filled, visible, noted_eq⟩

theorem IsDefaultOpening.exists_append {start : List Char} (opening : IsDefaultOpening start) :
    ∃ more, start = "__webpack_require__".toList ++ more ∧ '/' ∉ more ∧ ' ' ∉ more := by
  obtain ⟨char, word, rfl⟩ := opening
  refine ⟨['.', char, '('], by simp, ?_, ?_⟩ <;> simp only [List.mem_cons, List.not_mem_nil, not_or]
  · exact ⟨by decide, by rintro rfl; exact absurd word (by decide), by decide, not_false⟩
  · exact ⟨by decide, by rintro rfl; exact absurd word (by decide), by decide, not_false⟩

/-- Imports of whole modules. -/
def ImportKind.modules : ImportKind where
  ending := "__"
  call := requireCall
  Opening := (· = "__webpack_require__(".toList)
  call_takes := takes_requireCall
  ending_fits := List.all_eq_true.1 (by decide +kernel)
  opening_eq := by
    rintro start rfl
    exact ⟨['('], rfl, by decide, by decide⟩

/-- Default exports of modules. -/
def ImportKind.defaults : ImportKind where
  ending := "___default"
  call := defaultCall
  Opening := IsDefaultOpening
  call_takes := takes_defaultCall
  ending_fits := List.all_eq_true.1 (by decide +kernel)
  opening_eq _ := IsDefaultOpening.exists_append

variable {kind : ImportKind} {tokens : List String}

theorem of_takes_importAssignment
    (takes : (importAssignment tokens kind.ending kind.call).Takes before text rest [] noted) :
    ∃ head body, text = head ++ body ∧ (IsImportStart kind tokens head ∧ IsCall kind.Opening body) ∧
      noted.lookup 1 = some head ∧ noted.lookup 3 = some body := by
  simp only [importAssignment, takes_seq, takes_group, takes_all_cons, takes_all_nil, takes_any,
    List.mem_map, takes_literal, kind.call_takes, and_assoc, existsAndEq, true_and, List.append_nil]
    at takes
  obtain ⟨body, token, rfl, listed, called, rfl⟩ := takes
  exact ⟨_, body, rfl, ⟨⟨token, listed, rfl⟩, called⟩, rfl, rfl⟩

theorem exists_takes_importAssignment {head body : List Char} (rest : List Char)
    (fits : IsImportStart kind tokens head ∧ IsCall kind.Opening body) :
    ∃ noted, (importAssignment tokens kind.ending kind.call).Takes before (head ++ body) rest [] noted := by
  obtain ⟨⟨token, listed, rfl⟩, called⟩ := fits
  simp only [importAssignment, takes_seq, takes_group, takes_all_cons, takes_all_nil, takes_any,
    List.mem_map, takes_literal, kind.call_takes, and_assoc, existsAndEq, true_and, and_true,
    List.append_nil]
  exact ⟨body, token, rfl, listed, called⟩

end Takes

/-! ## The form -/

variable {kind : ImportKind} {tokens : List String}

/-- The name of a variable of an import holds token characters only. -/
theorem IsImportStart.exists_name {head : List Char} (start : IsImportStart kind tokens head)
    (fit : TokensFit tokens) :
    ∃ name, head = ('_' :: name) ++ " = ".toList ∧ ∀ char ∈ '_' :: name, Manifest.isTokenChar char := by
  obtain ⟨token, listed, rfl⟩ := start
  refine ⟨token.toList ++ kind.ending.toList, by simp, ?_⟩
  intro char member
  obtain rfl | member := List.mem_cons.1 member
  · decide
  · obtain member | member := List.mem_append.1 member
    · exact fit token listed char member
    · exact kind.ending_fits char member

/-- A call opens without slashes and blanks. -/
theorem ImportKind.notMem_of_opening {start : List Char} (opening : kind.Opening start) :
    '/' ∉ start ∧ ' ' ∉ start := by
  obtain ⟨more, rfl, slash_free, blank_free⟩ := kind.opening_eq start opening
  simp only [List.mem_append, not_or]
  exact ⟨⟨by decide, slash_free⟩, ⟨by decide, blank_free⟩⟩

/-- Behind a part of a call nothing that is named by token characters is assigned to. -/
theorem IsCall.append_ne {first last rest name more : List Char} (called : IsCall kind.Opening (first ++ last))
    (filled : last ≠ [])
    (name_fits : ∀ char ∈ name, Manifest.isTokenChar char) : last ++ rest ≠ name ++ ' ' :: more := by
  obtain ⟨start, arguments, opening, -, visible, body_eq⟩ := called
  have last_free : ' ' ∉ last := by
    intro member
    have among : ' ' ∈ first ++ last := List.mem_append_right _ member
    rw [body_eq] at among
    simp only [List.mem_append] at among
    obtain among | among | among := among
    · exact (kind.notMem_of_opening opening).2 among
    · exact blank_notMem_of_isVisible visible among
    · exact absurd among (by decide)
  have closed : ';' ∈ last := by
    have ends := congrArg List.getLast? body_eq
    rw [List.getLast?_append_of_ne_nil _ filled] at ends
    exact List.mem_of_getLast? (ends.trans (by simp))
  intro same
  obtain ⟨part, name_eq, -⟩ | ⟨part, last_eq, more_eq⟩ := List.append_eq_append_iff.1 same
  · exact absurd (name_fits ';' (by simp [name_eq, closed])) (by decide)
  · cases part with
    | nil => exact absurd (name_fits ';' (by simpa [last_eq] using closed)) (by decide)
    | cons char part =>
        obtain ⟨rfl, -⟩ := List.cons_eq_cons.1 more_eq
        exact last_free (by simp [last_eq])

theorem slash_notMem_of_isTokenChar {text : List Char} (fits : ∀ char ∈ text, Manifest.isTokenChar char) :
    '/' ∉ text := by
  intro member
  exact absurd (fits _ member) (by decide)

theorem blank_notMem_of_isTokenChar {text : List Char} (fits : ∀ char ∈ text, Manifest.isTokenChar char) :
    ' ' ∉ text := by
  intro member
  exact absurd (fits _ member) (by decide)

/-- An import: the assignment to its variable, then the call that loads the module. -/
def importForm (kind : ImportKind) (tokens : List String) (fit : TokensFit tokens) : Form where
  Opens _ := True
  Fits head body := IsImportStart kind tokens head ∧ IsCall kind.Opening body
  opens_none := trivial
  opens_behind _ := trivial
  headed := true
  head_ends := by
    rintro head body - ⟨start, -⟩
    obtain ⟨name, rfl, -⟩ := start.exists_name fit
    rw [List.getLast?_append_of_ne_nil _ (by decide)]
    rfl
  head_eq_nil headless := absurd headless (by decide)
  starts := by
    rintro head body ⟨⟨token, -, rfl⟩, -⟩
    exact ⟨'_', _, rfl, by decide⟩
  outside := by
    rintro head body rest ⟨start, -⟩
    obtain ⟨name, rfl, name_fits⟩ := start.exists_name fit
    rw [List.append_assoc]
    exact outside_of_notMem _ ' ' (slash_notMem_of_isTokenChar name_fits) (by decide)
  markable := by
    rintro head body rest ⟨-, start, arguments, opening, -, -, rfl⟩
    obtain ⟨more, rfl, -, -⟩ := kind.opening_eq start opening
    exact ⟨outside_of_notMem "__".toList 'w' (by decide) (by decide),
      '_', _, rfl, by decide, by decide⟩
  opens_of_slash _ _ _ := trivial
  fits_of_inserted := by
    rintro head body rest text inserted ⟨declared, start, arguments, opening, filled, visible, rfl⟩
    have head_free : '/' ∉ head := by
      obtain ⟨name, rfl, name_fits⟩ := declared.exists_name fit
      rw [List.mem_append, not_or]
      exact ⟨slash_notMem_of_isTokenChar name_fits, by decide⟩
    have start_free := (kind.notMem_of_opening opening).1
    simp only [List.append_assoc] at inserted
    obtain ⟨called, rfl, called_inserted⟩ := inserted.exists_append _ (isApart_of_notMem head_free)
    obtain ⟨behind, rfl, behind_inserted⟩ :=
      called_inserted.exists_append _ (isApart_of_notMem start_free)
    obtain ⟨arguments', closed, rfl, among, filled', closed_inserted⟩ :=
      Inserted.exists_append_cons arguments ')' behind_inserted (.inr rfl)
    obtain ⟨rest', rfl, -⟩ :=
      Inserted.exists_append [';'] closed_inserted (by decide)
    refine ⟨head, start ++ (arguments' ++ ");".toList), rest', by simp, declared, start, arguments',
      opening, filled' filled, ?_, rfl⟩
    exact fun char member => visible char (among.subset member)
  not_inside := by
    rintro head first last rest head' body' rest' ⟨-, called⟩ ⟨declared', -⟩ filled - - same
    obtain ⟨name, rfl, name_fits⟩ := declared'.exists_name fit
    rw [List.append_assoc] at same
    exact called.append_ne filled name_fits same
  blocked := by
    rintro front back body head' body' rest' more ⟨declared, -⟩ filled - ⟨declared', called'⟩ same
    obtain ⟨name, head_eq, name_fits⟩ := declared.exists_name fit
    obtain ⟨name', rfl, name_fits'⟩ := declared'.exists_name fit
    obtain ⟨part, name_eq, rfl⟩ | ⟨part, -, back_eq⟩ := List.append_eq_append_iff.1 head_eq
    · have part_fits : ∀ char ∈ part, Manifest.isTokenChar char := fun char member =>
        name_fits char (name_eq ▸ List.mem_append_right _ member)
      simp only [List.append_assoc] at same
      obtain ⟨-, assigned⟩ := Text.append_cons_inj (blank_notMem_of_isTokenChar part_fits)
        (blank_notMem_of_isTokenChar name_fits') same
      have assigned : "= ".toList ++ (chars ++ more) = "= ".toList ++ (body' ++ rest') := assigned
      have called := List.append_cancel_left assigned
      obtain ⟨start, arguments, opening, -, -, rfl⟩ := called'
      obtain ⟨_, rfl, -, -⟩ := kind.opening_eq start opening
      exact absurd (List.cons_eq_cons.1 called).1 (by decide)
    · obtain ⟨char, back, rfl⟩ := List.exists_cons_of_ne_nil filled
      have among : char ∈ " = ".toList := back_eq ▸ by simp
      obtain rfl : char = '_' := (List.cons_eq_cons.1 same).1
      exact absurd among (by decide)

/-! ## The rules -/

theorem isMarkedBy_importAssignment (fit : TokensFit tokens) : (importForm kind tokens fit).IsMarkedBy
    (importAssignment tokens kind.ending kind.call) (fun found => some (markGroup3 found)) :=
  isMarkedBy_markGroup3 rfl (fun takes => ⟨trivial, of_takes_importAssignment takes⟩)
    (fun rest _ fits => exists_takes_importAssignment rest fits)

/-- The rule that marks imports. Without tokens it looks for nothing. -/
def importSettling (kind : ImportKind) (tokens : List String) (fit : TokensFit tokens) : Settling where
  form := importForm kind tokens fit
  apply := markImportAssignments kind.ending kind.call tokens
  inserted text := by
    rw [markImportAssignments]
    split
    · exact .refl [] text
    · exact (isMarkedBy_importAssignment fit).inserted_substitute text
  settled text := by
    rw [markImportAssignments]
    split
    · rename_i none_listed
      rintro start head body rest - - ⟨⟨token, listed, -⟩, -⟩
      rw [List.isEmpty_iff.1 none_listed] at listed
      exact absurd listed List.not_mem_nil
    · exact (isMarkedBy_importAssignment fit).isSettledIn_substitute text
  apply_eq settled := by
    rw [markImportAssignments]
    split
    · rfl
    · exact (isMarkedBy_importAssignment fit).substitute_eq settled

/-- With fewer tokens, the rule looks for less. -/
theorem isSettledIn_of_subset {tokens' : List String} {text : List Char}
    (fit : TokensFit tokens) (fit' : TokensFit tokens') (subset : ∀ token ∈ tokens', token ∈ tokens)
    (settled : (importForm kind tokens fit).IsSettledIn text) :
    (importForm kind tokens' fit').IsSettledIn text := by
  rintro start head body rest text_eq opens ⟨⟨token, listed, head_eq⟩, called⟩
  exact settled start head body rest text_eq opens ⟨⟨token, subset token listed, head_eq⟩, called⟩

end Marking
end Shakedown
