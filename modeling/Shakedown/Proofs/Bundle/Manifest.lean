import Mathlib.Data.List.Infix
import Mathlib.Tactic.Simproc.ExistsAndEq
import Shakedown.Manifest
import Shakedown.Proofs.Pattern.Takes
import Shakedown.Proofs.Text.First
import Shakedown.Proofs.Text.Infix

/-!
# Manifests are read back

The manifests that a bundle carries name the modules that were listed in them, whatever stands
between them: the search finds each manifest as a whole, passes over one that lists nothing, and
takes each list apart at the commas that joined it.
-/

namespace Shakedown
namespace Manifest

/-! ## Lists of tokens -/

variable {text : List Char} {lists : List (List Char)}

theorem parts_eq_splitOn (text : List Char) : parts text = text.splitOn ',' := by
  induction text with
  | nil => rfl
  | cons char rest ih =>
      obtain ⟨part, others, rest_eq⟩ := List.exists_cons_of_ne_nil (List.splitOn_ne_nil ',' rest)
      rw [parts, List.splitOn_cons_eq_if_modifyHead, ih, rest_eq]
      by_cases comma : char = ',' <;> simp [comma]

/-- Taking a list apart at its commas undoes joining its parts. -/
theorem parts_intercalate (filled : lists ≠ []) (free : ∀ list ∈ lists, ',' ∉ list) :
    parts ([','].intercalate lists) = lists := by
  rw [parts_eq_splitOn, List.splitOn_intercalate ',' free filled]

theorem forall_mem_intercalate {P : Char → Prop} (comma : P ',')
    (all : ∀ list ∈ lists, ∀ char ∈ list, P char) : ∀ char ∈ [','].intercalate lists, P char := by
  induction lists with
  | nil => simp
  | cons first others ih =>
      obtain ⟨first_all, others_all⟩ := List.forall_mem_cons.1 all
      by_cases last : others = []
      · simpa [last] using first_all
      · rw [List.intercalate_cons_of_ne_nil last]
        simpa [or_imp, forall_and] using ⟨first_all, comma, ih others_all⟩

/-- Adding elements one by one adds those that are new, each once. -/
theorem foldl_addNew {α : Type} [BEq α] [LawfulBEq α] (known items : List α) :
    items.foldl addNew known =
      known ++ (items.filter fun item => !known.contains item).eraseDups := by
  induction items generalizing known with
  | nil => simp
  | cons item items ih =>
      rw [List.foldl_cons, ih, addNew]
      cases listed : known.contains item with
      | true =>
          simp only [listed, if_true, List.filter_cons, Bool.not_true, Bool.false_eq_true, if_false]
      | false =>
          simp only [listed, Bool.false_eq_true, if_false, List.filter_cons, Bool.not_false,
            if_true, List.eraseDups_cons, List.filter_filter, List.contains_append,
            List.append_assoc, List.singleton_append, Bool.not_or, List.contains_cons,
            List.contains_nil, Bool.or_false]
          simp only [Bool.and_comm]

theorem distinct_eq_eraseDups {α : Type} [BEq α] [LawfulBEq α] (items : List α) :
    distinct items = items.eraseDups := by
  have all_new : items.filter (fun item => !([] : List α).contains item) = items :=
    List.filter_eq_self.2 (by simp)
  rw [distinct, foldl_addNew, all_new, List.nil_append]

/-! ## Specifiers -/

/-- A character of a plain specifier. -/
def isSpecifierChar (char : Char) : Bool :=
  CharClass.isAsciiLetter char || CharClass.isAsciiDigit char || "_$./@-".toList.contains char

/-- A specifier whose token can be listed in a manifest. -/
structure IsSpecifier (specifier : String) : Prop where
  /-- There is something to list. -/
  filled : specifier ≠ ""
  /-- No character is out of place in a list. -/
  plain : ∀ char ∈ specifier.toList, isSpecifierChar char

instance (specifier : String) : Decidable (IsSpecifier specifier) :=
  decidable_of_iff (specifier ≠ "" ∧ specifier.toList.all isSpecifierChar)
    ⟨fun ⟨filled, plain⟩ => ⟨filled, List.all_eq_true.1 plain⟩,
      fun plain => ⟨plain.filled, List.all_eq_true.2 plain.plain⟩⟩

theorem toNat_lt_of_isSpecifierChar {char : Char} (plain : isSpecifierChar char) :
    char.toNat < 128 := by
  have bound {first last : Char} (small : last.toNat < 128)
      (between : (first ≤ char && char ≤ last) = true) : char.toNat < 128 := by
    have below : char.toNat ≤ last.toNat := (Bool.and_eq_true_iff.1 between).2 |> of_decide_eq_true
    omega
  simp only [isSpecifierChar, CharClass.isAsciiLetter, CharClass.isAsciiDigit, Bool.or_eq_true,
    List.contains_iff_mem] at plain
  obtain ((lower | upper) | digit) | sign := plain
  · exact bound (by decide) lower
  · exact bound (by decide) upper
  · exact bound (by decide) digit
  · have small : ∀ sign ∈ "_$./@-".toList, sign.toNat < 128 := by simp
    exact small char sign

/-- A character that a token may hold, and that ends neither the token nor a list of tokens. -/
structure IsListable (char : Char) : Prop where
  /-- A token may hold it. -/
  token : isTokenChar char
  /-- The list goes on. -/
  visible : !CharClass.isBlank char
  /-- The token goes on. -/
  inside : char ≠ ','

instance (char : Char) : Decidable (IsListable char) :=
  decidable_of_iff (isTokenChar char ∧ !CharClass.isBlank char ∧ char ≠ ',')
    ⟨fun ⟨token, visible, inside⟩ => ⟨token, visible, inside⟩,
      fun listable => ⟨listable.token, listable.visible, listable.inside⟩⟩

/-- What the characters of a specifier become can be listed. -/
theorem isListable_tokenChar {char : Char} (plain : isSpecifierChar char) :
    IsListable (tokenChar char) := by
  have ascii : ∀ code : Fin 128, isSpecifierChar (Char.ofNat code) →
      IsListable (tokenChar (Char.ofNat code)) := by
    decide +kernel
  have checked := ascii ⟨char.toNat, toNat_lt_of_isSpecifierChar plain⟩
  rw [Char.ofNat_toNat] at checked
  exact checked plain

theorem IsSpecifier.listable {specifier : String} (plain : IsSpecifier specifier) :
    ∀ char ∈ (token specifier).toList, IsListable char := by
  rw [token, String.toList_ofList]
  intro char member
  obtain ⟨other, among, rfl⟩ := List.mem_map.1 member
  exact isListable_tokenChar (plain.plain other among)

theorem IsSpecifier.isToken {specifier : String} (plain : IsSpecifier specifier) :
    isToken (token specifier).toList := by
  rw [Manifest.isToken, Bool.and_eq_true, List.all_eq_true]
  refine ⟨?_, fun char member => (plain.listable char member).token⟩
  have filled := plain.filled
  simpa [token] using filled

/-! ## Manifests in a text -/

/-- What a manifest opens with. -/
def opening : List Char :=
  ("/** " ++ openWord ++ " ").toList

/-- What a manifest closes with. -/
def closing : List Char :=
  (" " ++ closeWord ++ " */").toList

/-- The list in a manifest. -/
def listed (tokens : List String) : List Char :=
  [','].intercalate (tokens.map String.toList)

theorem toList_comment (tokens : List String) :
    (comment tokens).toList = opening ++ (listed tokens ++ closing) := by
  simp [comment, opening, closing, listed, String.toList_intercalate]

section Search

open Pattern hiding some

variable {before rest gap : List Char} {groups noted : Groups} {found : List Match}

theorem takes_pattern :
    pattern.Takes before text rest groups noted ↔
      ∃ list, list ≠ [] ∧ (∀ char ∈ list, !CharClass.isBlank char) ∧
        text = opening ++ (list ++ closing) ∧ noted = (1, list) :: groups := by
  simp only [pattern, takes_all_cons, takes_all_nil, takes_literal, takes_group, visible,
    takes_some_one, and_assoc, existsAndEq, true_and, List.append_nil]
  constructor
  · rintro ⟨list, rfl, filled, visible, rfl⟩
    exact ⟨list, filled, visible, rfl, rfl⟩
  · rintro ⟨list, filled, visible, rfl, rfl⟩
    exact ⟨list, rfl, filled, visible, rfl⟩

theorem advances_pattern : pattern.Advances := by
  intro cursor found matched
  obtain ⟨before, after⟩ := cursor
  obtain ⟨after_eq, takes⟩ := takes_of_matchAt? matched
  obtain ⟨list, -, -, text_eq, -⟩ := takes_pattern.1 takes
  have long : 0 < opening.length := by decide +kernel
  rw [after_eq, text_eq, List.length_append, List.length_append]
  omega

/-- A match begins with an opening. -/
theorem opening_prefix_of_matchAt? {cursor : Cursor} {found : Match}
    (matched : pattern.matchAt? cursor = some found) : opening <+: cursor.after := by
  obtain ⟨before, after⟩ := cursor
  obtain ⟨after_eq, takes⟩ := takes_of_matchAt? matched
  obtain ⟨list, -, -, text_eq, -⟩ := takes_pattern.1 takes
  exact ⟨list ++ (closing ++ found.stop.after), by simp [after_eq, text_eq]⟩

theorem unmatched_of_head (other : text.head? ≠ some '/') :
    pattern.matchAt? ⟨before, text⟩ = none := by
  cases matched : pattern.matchAt? ⟨before, text⟩ with
  | none => rfl
  | some found =>
      obtain ⟨behind, rfl⟩ := opening_prefix_of_matchAt? matched
      have slash : opening.head? = some '/' := by decide +kernel
      rw [List.head?_append, slash] at other
      exact absurd rfl other

/-- No manifest begins in a text without the word that opens one, unless it goes on with something
else than a slash behind it. -/
theorem unmatched_of_quiet (quiet : ¬openWord.toList <:+: gap) (filled : gap ≠ [])
    (apart : ∀ char, rest.head? = some char → char = '/') :
    pattern.matchAt? ⟨before, gap ++ rest⟩ = none := by
  cases matched : pattern.matchAt? ⟨before, gap ++ rest⟩ with
  | none => rfl
  | some found =>
      obtain ⟨behind, same⟩ := opening_prefix_of_matchAt? matched
      have within : openWord.toList <:+: opening := by decide +kernel
      obtain ⟨part, gap_eq, -⟩ | ⟨part, opening_eq, rest_eq⟩ := List.append_eq_append_iff.1 same
      · exact absurd (within.trans ⟨[], part, by simp [gap_eq]⟩) quiet
      · cases part with
        | nil => exact absurd (by simpa [opening_eq] using within) quiet
        | cons char part =>
            -- the opening would go on behind the gap, with the slash that it has only at its start
            obtain rfl := apart char (by rw [rest_eq]; rfl)
            obtain ⟨first, others, rfl⟩ := List.exists_cons_of_ne_nil filled
            have slash_free : '/' ∉ opening.tail := by decide +kernel
            exact absurd (by simp [opening_eq]) slash_free

/-- A manifest that lists nothing is not found. -/
theorem unmatched_of_empty : pattern.matchAt? ⟨before, opening ++ (closing ++ rest)⟩ = none := by
  cases matched : pattern.matchAt? ⟨before, opening ++ (closing ++ rest)⟩ with
  | none => rfl
  | some found =>
      obtain ⟨after_eq, takes⟩ := takes_of_matchAt? matched
      obtain ⟨list, filled, plain, text_eq, -⟩ := takes_pattern.1 takes
      obtain ⟨first, others, rfl⟩ := List.exists_cons_of_ne_nil filled
      have blank : closing.head? = some ' ' := by decide +kernel
      rw [text_eq, List.append_assoc, List.append_cancel_left_eq] at after_eq
      have same := congrArg List.head? after_eq
      rw [List.head?_append, blank] at same
      obtain rfl : ' ' = first := by simpa using same
      exact absurd (plain ' ' List.mem_cons_self) (by decide)

/-- The search goes on with the last slash of a manifest that lists nothing. -/
theorem scans_empty (scans : Scans pattern ⟨before, opening ++ (closing ++ rest)⟩ found) :
    ∃ before', Scans pattern ⟨before', '/' :: rest⟩ found := by
  obtain ⟨start, manifest_eq, slash_free⟩ :
      ∃ start, opening ++ closing = ('/' :: start) ++ ['/'] ∧ '/' ∉ start :=
    ⟨((opening ++ closing).drop 1).dropLast, by decide +kernel, by decide +kernel⟩
  have unmatched : pattern.matchAt? ⟨before, opening ++ (closing ++ rest)⟩ = none :=
    unmatched_of_empty
  rw [← List.append_assoc, manifest_eq, List.append_assoc] at scans unmatched
  refine ⟨_, scans.of_append fun front back start_eq filled => ?_⟩
  cases front with
  | nil =>
      obtain rfl : '/' :: start = back := start_eq
      exact unmatched
  | cons char front =>
      obtain ⟨-, rfl⟩ := List.cons_eq_cons.1 start_eq
      obtain ⟨first, others, rfl⟩ := List.exists_cons_of_ne_nil filled
      refine unmatched_of_head fun slash => slash_free ?_
      obtain rfl : first = '/' := by simpa using slash
      simp

/-- A manifest that lists something is found as a whole. -/
theorem matchAt?_manifest (before rest : List Char) {list : List Char} (filled : list ≠ [])
    (plain : ∀ char ∈ list, !CharClass.isBlank char) :
    ∃ found, pattern.matchAt? ⟨before, opening ++ (list ++ closing) ++ rest⟩ = some found ∧
      found.group 1 = list ∧ found.stop.after = rest := by
  have takes : pattern.Takes before (opening ++ (list ++ closing)) rest [] [(1, list)] :=
    takes_pattern.2 ⟨list, filled, plain, rfl, rfl⟩
  obtain ⟨found, matched, after_eq, found_takes⟩ := exists_match_of_takes takes
  obtain ⟨list', -, plain', text_eq, groups_eq⟩ := takes_pattern.1 found_takes
  have closing_eq : closing = ' ' :: closing.tail := by decide +kernel
  have blank_free {list : List Char} (plain : ∀ char ∈ list, !CharClass.isBlank char) :
      ' ' ∉ list :=
    fun member => absurd (plain _ member) (by decide)
  rw [text_eq, closing_eq] at after_eq
  simp only [List.append_assoc, List.append_cancel_left_eq, List.cons_append] at after_eq
  obtain ⟨rfl, rest_eq⟩ := Text.append_cons_inj (blank_free plain) (blank_free plain') after_eq
  refine ⟨found, matched, ?_, (List.append_cancel_left rest_eq).symm⟩
  rw [Match.group, groups_eq]
  rfl

end Search

/-- A manifest in a bundle with the text behind it. -/
structure Listing where
  /-- The modules that are listed. -/
  specifiers : List String
  /-- What stands between the manifest and the next one. -/
  behind : String

/-- The characters of a manifest and of the text behind it. -/
def Listing.chars (listing : Listing) : List Char :=
  (comment (listing.specifiers.map token)).toList ++ listing.behind.toList

/-- A listing that leaves its manifest readable. -/
structure Listing.IsPlain (listing : Listing) : Prop where
  /-- All modules can be listed. -/
  specifiers : ∀ specifier ∈ listing.specifiers, IsSpecifier specifier
  /-- The text behind it opens no manifest. -/
  behind : ¬openWord.toList <:+: listing.behind.toList

instance (listing : Listing) : Decidable listing.IsPlain :=
  decidable_of_iff ((∀ specifier ∈ listing.specifiers, IsSpecifier specifier) ∧
      ¬openWord.toList <:+: listing.behind.toList)
    ⟨fun ⟨specifiers, behind⟩ => ⟨specifiers, behind⟩,
      fun plain => ⟨plain.specifiers, plain.behind⟩⟩

/-- A bundle: the manifests of its modules with any text between them. -/
def bundled (front : String) (listings : List Listing) : String :=
  String.ofList (front.toList ++ listings.flatMap Listing.chars)

section Run

open Pattern hiding some

variable {before rest gap : List Char} {found : List Match}
  {listing : Listing} {listings : List Listing}

/-- The tokens in a list of matches. -/
def tokensIn (found : List Match) : List (List Char) :=
  (found.map (·.group 1)).flatMap fun list => (parts list).filter isToken

theorem parts_listed {specifiers : List String} (filled : specifiers ≠ [])
    (plain : ∀ specifier ∈ specifiers, IsSpecifier specifier) :
    (parts (listed (specifiers.map token))).filter isToken =
      specifiers.map fun specifier => (token specifier).toList := by
  rw [listed, List.map_map]
  have free : ∀ list ∈ specifiers.map (String.toList ∘ token), ',' ∉ list := by
    intro list member comma
    obtain ⟨specifier, among, rfl⟩ := List.mem_map.1 member
    exact ((plain specifier among).listable ',' comma).inside rfl
  have all_tokens : ∀ list ∈ specifiers.map (String.toList ∘ token), isToken list := by
    intro list member
    obtain ⟨specifier, among, rfl⟩ := List.mem_map.1 member
    exact (plain specifier among).isToken
  rw [parts_intercalate (by simpa using filled) free, List.filter_eq_self.2 all_tokens]
  rfl

theorem listed_ne_nil {specifiers : List String} (filled : specifiers ≠ [])
    (plain : ∀ specifier ∈ specifiers, IsSpecifier specifier) :
    listed (specifiers.map token) ≠ [] := by
  intro empty
  have none_listed := parts_listed filled plain
  rw [empty] at none_listed
  exact filled (List.map_eq_nil_iff.1 none_listed.symm)

theorem visible_listed {specifiers : List String}
    (plain : ∀ specifier ∈ specifiers, IsSpecifier specifier) :
    ∀ char ∈ listed (specifiers.map token), !CharClass.isBlank char := by
  refine forall_mem_intercalate (by decide) fun list member char held => ?_
  rw [List.map_map] at member
  obtain ⟨specifier, among, rfl⟩ := List.mem_map.1 member
  exact ((plain specifier among).listable char held).visible

theorem tokensIn_append (first others : List Match) :
    tokensIn (first ++ others) = tokensIn first ++ tokensIn others := by
  rw [tokensIn, List.map_append, List.flatMap_append]
  rfl

/-- Nothing is found in text without the word that opens a manifest. -/
theorem scans_behind (quiet : ¬openWord.toList <:+: gap)
    (apart : ∀ char, rest.head? = some char → char = '/')
    (scans : Scans pattern ⟨before, gap ++ rest⟩ found) :
    Scans pattern ⟨gap.reverse ++ before, rest⟩ found :=
  scans.of_append fun front back gap_eq filled =>
    unmatched_of_quiet (fun held => quiet (held.trans ⟨front, [], by simp [gap_eq]⟩)) filled apart

/-- One manifest adds its tokens to what is found, and the search goes on behind it. -/
theorem scans_listing (plain : listing.IsPlain)
    (scans : Scans pattern ⟨before, listing.chars ++ rest⟩ found) :
    ∃ first others before' gap, found = first ++ others ∧
      tokensIn first = (listing.specifiers.map fun specifier => (token specifier).toList) ∧
      ¬openWord.toList <:+: gap ∧ Scans pattern ⟨before', gap ++ rest⟩ others := by
  obtain ⟨specifiers, behind⟩ := listing
  obtain ⟨plain, quiet⟩ := plain
  simp only [Listing.chars, toList_comment, List.append_assoc] at plain quiet scans ⊢
  by_cases filled : specifiers = []
  · subst filled
    obtain ⟨before', further⟩ := scans_empty scans
    refine ⟨[], found, before', '/' :: behind.toList, rfl, rfl, ?_, further⟩
    rw [List.infix_cons_iff]
    rintro (begins | held)
    · have letter : openWord.toList = 'P' :: openWord.toList.tail := by decide +kernel
      rw [letter] at begins
      exact absurd (List.cons_prefix_cons.1 begins).1 (by decide)
    · exact quiet held
  · obtain ⟨first, matched, group_eq, after_eq⟩ := matchAt?_manifest before (behind.toList ++ rest)
      (listed_ne_nil filled plain) (visible_listed plain)
    simp only [List.append_assoc] at matched
    obtain ⟨others, rfl, further⟩ := scans.exists_of_matchAt? matched
    have stop_eq : first.stop = ⟨first.stop.before, behind.toList ++ rest⟩ :=
      Cursor.eq_of_parts rfl after_eq
    refine ⟨[first], others, _, behind.toList, rfl, ?_, quiet, stop_eq ▸ further⟩
    rw [tokensIn, List.map_singleton, List.flatMap_singleton, group_eq, parts_listed filled plain]

/-- The search finds the tokens of all manifests. -/
theorem tokensIn_of_scans (plain : ∀ listing ∈ listings, listing.IsPlain)
    (quiet : ¬openWord.toList <:+: gap)
    (scans : Scans pattern ⟨before, gap ++ listings.flatMap Listing.chars⟩ found) :
    tokensIn found = listings.flatMap fun listing =>
      listing.specifiers.map fun specifier => (token specifier).toList := by
  induction listings generalizing before gap found with
  | nil =>
      have further := scans_behind quiet (by simp) scans
      cases further with
      | done => rfl
      | hit matched =>
          have none_left : pattern.matchAt? ⟨gap.reverse ++ before, []⟩ = none :=
            unmatched_of_head (by simp)
          exact absurd (none_left.symm.trans matched) (by simp)
  | cons listing listings ih =>
      obtain ⟨first_plain, plain⟩ := List.forall_mem_cons.1 plain
      rw [List.flatMap_cons] at scans
      have slash : ∀ char, (listing.chars ++ listings.flatMap Listing.chars).head? = some char →
          char = '/' := by
        have opens : opening.head? = some '/' := by decide +kernel
        rw [Listing.chars, toList_comment, List.append_assoc, List.append_assoc, List.head?_append,
          opens]
        exact fun char same => (Option.some.inj same).symm
      obtain ⟨first, others, _, gap, rfl, first_eq, quiet, scans⟩ :=
        scans_listing first_plain (scans_behind quiet slash scans)
      rw [tokensIn_append, first_eq, ih plain quiet scans, List.flatMap_cons]

end Run

/-- The tokens of a bundle are those of the modules that its manifests list, each once and in the
order in which they come first. -/
theorem tokensOf_bundled {front : String} {listings : List Listing}
    (quiet : ¬openWord.toList <:+: front.toList) (plain : ∀ listing ∈ listings, listing.IsPlain) :
    tokensOf (bundled front listings) =
      ((listings.flatMap Listing.specifiers).map token).eraseDups := by
  have scans := Pattern.scans_findAll advances_pattern (bundled front listings).toList
  simp only [bundled, String.toList_ofList, Cursor.ofText] at scans
  have tokens_eq := tokensIn_of_scans plain quiet scans
  simp only [tokensIn] at tokens_eq
  simp only [tokensOf, bundled, String.toList_ofList]
  rw [tokens_eq, distinct_eq_eraseDups]
  congr 1
  simp [List.map_flatMap, Function.comp_def]

/-- Three modules of a bundle: two with imports, of which they share one, and one without. -/
def threeListings : List Listing :=
  [ ⟨["@angular/core", "rxjs/Observable"], "\nvar a = 1;\n"⟩
  , ⟨[], "* PURE_IMPORTS_END */"⟩
  , ⟨["rxjs/Observable", "tslib"], "\n"⟩ ]

theorem tokensOf_bundled_shared :
    ¬openWord.toList <:+: "(function () \x7b ".toList ∧
      (∀ listing ∈ threeListings, listing.IsPlain) ∧
      tokensOf (bundled "(function () \x7b " threeListings) =
        ["_angular_core", "rxjs_Observable", "tslib"] := by
  have quiet : ¬openWord.toList <:+: "(function () \x7b ".toList := by decide +kernel
  have plain : ∀ listing ∈ threeListings, listing.IsPlain := by decide +kernel
  refine ⟨quiet, plain, ?_⟩
  rw [tokensOf_bundled quiet plain]
  decide +kernel

end Manifest
end Shakedown
