import Shakedown.Proofs.Bundle.Marked

/-!
# Which imports are marked

The rules for imports look for a token behind an underscore and in front of the ending of the variable.
Names of modules hold underscores, so a token that is the tail of a name counts as the name, and so does
a token with more in front of the name. What is marked otherwise is an import whose module is a token.
-/

namespace Shakedown
namespace Marking

open Marker

variable {kind : ImportKind} {tokens : List String}

/-- The start of an import: the name of its variable, then the sign of the assignment. -/
theorem IsImportStart.append_inj {head head' rest rest' : List Char} (fit : TokensFit tokens)
    (starts : IsImportStart kind tokens head) (starts' : IsImportStart kind tokens head')
    {first last : List Char} (head_eq : head' = first ++ last) (filled : last ≠ [])
    (same : head ++ rest = last ++ rest') : head = last := by
  obtain ⟨name, rfl, name_fits⟩ := starts.exists_name fit
  obtain ⟨name', rfl, name_fits'⟩ := starts'.exists_name fit
  obtain ⟨part, -, assigned⟩ | ⟨part, name_eq, rfl⟩ := List.append_eq_append_iff.1 head_eq
  · -- the tail would begin in the sign of the assignment
    obtain ⟨char, last, rfl⟩ := List.exists_cons_of_ne_nil filled
    obtain rfl : '_' = char := (List.cons_eq_cons.1 same).1
    have among : '_' ∈ " = ".toList := assigned ▸ by simp
    exact absurd among (by decide)
  · have part_fits : ∀ char ∈ part, Manifest.isTokenChar char := fun char member =>
      name_fits' char (name_eq ▸ List.mem_append_right _ member)
    have split : ('_' :: name) ++ ' ' :: ("= ".toList ++ rest) = part ++ ' ' :: ("= ".toList ++ rest') := by
      simpa using same
    obtain ⟨rfl, -⟩ := Text.append_cons_inj (blank_notMem_of_isTokenChar name_fits)
      (blank_notMem_of_isTokenChar part_fits) split
    rfl

/-- An import that does not begin in front of another one has the same call, or stands behind it. -/
theorem eq_or_exists_behind {front head call rest head' call' rest' : List Char} (fit : TokensFit tokens)
    (starts : IsImportStart kind tokens head) (starts' : IsImportStart kind tokens head')
    (called' : IsCall kind.Opening call')
    (same : front ++ (head ++ (call ++ rest)) = head' ++ (call' ++ rest')) :
    front ++ head = head' ∨
      ∃ more, front = head' ++ call' ++ more ∧ rest' = more ++ (head ++ (call ++ rest)) := by
  obtain ⟨name, name_eq, name_fits⟩ := starts.exists_name fit
  have not_in_call : ∀ {first last}, call' = first ++ last → last ≠ [] →
      last ++ rest' ≠ head ++ (call ++ rest) := by
    rintro first last rfl filled same
    rw [name_eq, List.append_assoc] at same
    exact called'.append_ne filled name_fits same
  have call_filled : call' ≠ [] := by
    obtain ⟨_, _, -, -, -, rfl⟩ := called'
    simp
  obtain ⟨last, head_eq, rest_eq⟩ | ⟨first, rfl, rest_eq⟩ := List.append_eq_append_iff.1 same
  · by_cases done : last = []
    · subst done
      exact absurd rest_eq.symm (not_in_call (List.nil_append _).symm call_filled)
    · left
      rw [head_eq, starts.append_inj fit starts' head_eq done rest_eq]
  · obtain ⟨more, rfl, behind⟩ | ⟨last, call_eq, last_eq⟩ := List.append_eq_append_iff.1 rest_eq
    · exact .inr ⟨more, by simp, behind⟩
    · by_cases done : last = []
      · subst done
        obtain rfl : call' = first := by simpa using call_eq
        exact .inr ⟨[], by simp, last_eq.symm⟩
      · exact absurd last_eq.symm (not_in_call call_eq done)

/-- Every import that a token fits is found, though perhaps with another token. -/
theorem exists_place_of_scans {cursor : Cursor} {matches_ : List Match} (fit : TokensFit tokens)
    (scans : Pattern.Scans (importTarget kind tokens).pattern cursor matches_)
    {front head call rest : List Char} (starts : IsImportStart kind tokens head)
    (called : IsCall kind.Opening call) (after_eq : cursor.after = front ++ (head ++ (call ++ rest))) :
    ∃ found ∈ matches_, (importTarget kind tokens).place found =
      cursor.offset + Text.width (front ++ head) := by
  induction scans generalizing front with
  | done =>
      obtain ⟨token, -, rfl⟩ := starts
      simp at after_eq
  | @miss before after char others unmatched _ ih =>
      have after_eq : char :: after = front ++ (head ++ (call ++ rest)) := after_eq
      cases front with
      | nil =>
          obtain ⟨noted, taken⟩ : ∃ noted, (importTarget kind tokens).pattern.Takes before (head ++ call) rest
              [] noted := exists_takes_importAssignment rest ⟨starts, called⟩
          have matched := Pattern.matchAt?_ne_none_of_takes taken
          rw [List.append_assoc] at matched
          rw [after_eq] at unmatched
          exact absurd unmatched matched
      | cons other front =>
          obtain ⟨rfl, behind⟩ := List.cons_eq_cons.1 after_eq
          obtain ⟨found, listed, place_eq⟩ := ih behind
          refine ⟨found, listed, ?_⟩
          simp only [place_eq, Cursor.offset, List.cons_append, Text.width_cons]
          omega
  | @hit cursor found others matched _ ih =>
      obtain ⟨found_eq, taken⟩ := Pattern.takes_of_matchAt? matched
      obtain ⟨head', call', text_eq, ⟨starts', called'⟩, group_eq, -⟩ := of_takes_importAssignment taken
      have same : front ++ (head ++ (call ++ rest)) = head' ++ (call' ++ found.stop.after) := by
        rw [← after_eq, ← List.append_assoc head', ← text_eq]
        exact found_eq
      obtain rfl | ⟨more, rfl, rest_eq⟩ := eq_or_exists_behind fit starts starts' called' same
      · refine ⟨found, List.mem_cons_self, ?_⟩
        rw [Target.place, Pattern.start_of_matchAt? matched]
        simp [importTarget, Match.group, group_eq]
      · obtain ⟨other, listed, other_eq⟩ := ih rest_eq
        have stop_eq : found.stop.offset = cursor.offset + Text.width (head' ++ call') := by
          rw [← text_eq]
          exact congrArg Span.stop (Pattern.span_of_matchAt? matched)
        refine ⟨other, List.mem_cons_of_mem _ listed, ?_⟩
        rw [other_eq, stop_eq, List.append_assoc (head' ++ call'), Text.width_append (head' ++ call'),
          Nat.add_assoc]

/-- Where an import has its marker, told by what stands in front of the call. -/
theorem mem_places_iff {front call rest : List Char} (fit : TokensFit tokens)
    (called : IsCall kind.Opening call) :
    Text.width (front ++ " = ".toList) ∈
        (importTarget kind tokens).places (front ++ (" = ".toList ++ (call ++ rest))) ↔
      ∃ token ∈ tokens, '_' :: (token.toList ++ kind.ending.toList) <:+ front := by
  have marked := (isMarkedBy_import kind tokens).isMarked
    (front ++ (" = ".toList ++ (call ++ rest)))
  constructor
  · intro among
    obtain ⟨_, -, before, head, body, after, -, ⟨⟨token, listed, rfl⟩, -⟩, text_eq, place_eq, -⟩ :=
      marked.fits _ among
    have same : (before ++ '_' :: (token.toList ++ kind.ending.toList) ++ " = ".toList) ++ (body ++ after) =
        (front ++ " = ".toList) ++ (call ++ rest) := by
      simpa using text_eq.symm
    obtain ⟨front_eq, -⟩ := Text.append_inj_of_width_eq same (by rw [place_eq]; simp)
    exact ⟨token, listed, before, List.append_cancel_right front_eq⟩
  · rintro ⟨token, listed, start, rfl⟩
    have starts : IsImportStart kind tokens ('_' :: (token.toList ++ kind.ending.toList) ++ " = ".toList) :=
      ⟨token, listed, by simp⟩
    have scans := Pattern.scans_findAll (isMarkedBy_import kind tokens).advances
      (start ++ '_' :: (token.toList ++ kind.ending.toList) ++ (" = ".toList ++ (call ++ rest)))
    have after_eq : start ++ '_' :: (token.toList ++ kind.ending.toList) ++ (" = ".toList ++ (call ++ rest)) =
        start ++ (('_' :: (token.toList ++ kind.ending.toList) ++ " = ".toList) ++ (call ++ rest)) := by simp
    obtain ⟨found, among, place_eq⟩ := exists_place_of_scans fit scans starts called after_eq
    refine List.mem_map.2 ⟨found, List.mem_filter.2 ⟨among, rfl⟩, ?_⟩
    rw [place_eq]
    simp [Cursor.offset, Cursor.ofText]

/-! ## Names and their tails -/

/-- The variable of an import: the number of the module and its name. -/
def importVariable (kind : ImportKind) (number name : List Char) : List Char :=
  "__WEBPACK_IMPORTED_MODULE_".toList ++ (number ++ ('_' :: (name ++ kind.ending.toList)))

/-- Two names are the same, or one is what stands behind an underscore of the other. -/
def ShareTail (name other : List Char) : Prop :=
  name = other ∨ '_' :: name <:+ other ∨ '_' :: other <:+ name

/-- A token that a variable ends in shares a tail with the name of the module. -/
theorem shareTail_of_suffix {front number name token : List Char}
    (stands : '_' :: (token ++ kind.ending.toList) <:+ front ++ importVariable kind number name) :
    ShareTail token name := by
  obtain ⟨start, same⟩ := stands
  have same : start ++ '_' :: token ++ kind.ending.toList =
      front ++ "__WEBPACK_IMPORTED_MODULE_".toList ++ number ++ '_' :: name ++ kind.ending.toList := by
    unfold importVariable at same
    simpa using same
  have ends := List.append_cancel_right same
  have token_ends : '_' :: token <:+ start ++ '_' :: token := List.suffix_append _ _
  have name_ends : '_' :: name <:+ start ++ '_' :: token := ends ▸ List.suffix_append _ _
  obtain within | within := List.suffix_or_suffix_of_suffix token_ends name_ends
  · obtain same | inside := List.suffix_cons_iff.1 within
    · exact .inl (List.cons_eq_cons.1 same).2
    · exact .inr (.inl inside)
  · obtain same | inside := List.suffix_cons_iff.1 within
    · exact .inl (List.cons_eq_cons.1 same).2.symm
    · exact .inr (.inr inside)

/-- What a rule for imports marks, told by the tails of the names. -/
structure MarksTails (kind : ImportKind) (tokens : List String) (text result : List Char) : Prop where
  /-- Markers are put in at the places of the target, and nothing else changes. -/
  marked : (importTarget kind tokens).IsMarked text result
  /-- A call is marked when the text in front of it ends in a token with an underscore before it. -/
  marks_iff : ∀ front number name call rest, IsCall kind.Opening call →
    text = front ++ importVariable kind number name ++ (" = ".toList ++ (call ++ rest)) →
    (Text.width (front ++ importVariable kind number name ++ " = ".toList) ∈
        (importTarget kind tokens).places text ↔
      ∃ token ∈ tokens, '_' :: (token.toList ++ kind.ending.toList) <:+ front ++ importVariable kind number name)
  /-- What is marked has a name that shares a tail with a token. -/
  shares : ∀ front number name call rest, IsCall kind.Opening call →
    text = front ++ importVariable kind number name ++ (" = ".toList ++ (call ++ rest)) →
    Text.width (front ++ importVariable kind number name ++ " = ".toList) ∈
      (importTarget kind tokens).places text →
    ∃ token ∈ tokens, ShareTail token.toList name
  /-- A module that is a token is marked. -/
  listed : ∀ front number name call rest, IsCall kind.Opening call →
    text = front ++ importVariable kind number name.toList ++ (" = ".toList ++ (call ++ rest)) →
    name ∈ tokens → Text.width (front ++ importVariable kind number name.toList ++ " = ".toList) ∈
      (importTarget kind tokens).places text

theorem marksTails_markImportAssignments (kind : ImportKind) (fit : TokensFit tokens) (text : List Char) :
    MarksTails kind tokens text (markImportAssignments kind.ending kind.call tokens text) where
  marked := isMarked_markImportAssignments kind tokens text
  marks_iff := by
    rintro front number name call rest called rfl
    exact mem_places_iff fit called
  shares := by
    rintro front number name call rest called rfl marked
    obtain ⟨token, listed, stands⟩ := (mem_places_iff fit called).1 marked
    exact ⟨token, listed, shareTail_of_suffix stands⟩
  listed := by
    rintro front number name call rest called rfl listed
    refine (mem_places_iff fit called).2 ⟨name, listed, ?_⟩
    unfold importVariable
    exact ⟨front ++ "__WEBPACK_IMPORTED_MODULE_".toList ++ number, by simp⟩

end Marking

namespace Bundle

open Marking

variable {tokens : List String}

/-- The rules for imports, each with what it looks for. -/
def importRules : List (String × ImportKind) :=
  [("webpack-imports", .modules), ("webpack-default-imports", .defaults)]

/-- An import is marked when the name of its variable ends in a token. So the module, or what stands behind
an underscore of its name, is a token, or stands behind an underscore of one. -/
theorem marks_tails (fit : TokensFit tokens) (text : List Char) : ∀ item ∈ importRules,
    ∃ rule, rule? item.1 = some rule ∧ MarksTails item.2 tokens text (rule.apply tokens text) := by
  simp only [importRules, List.forall_mem_cons]
  refine ⟨⟨_, rfl, ?modules⟩, ⟨_, rfl, ?defaults⟩, by simp⟩
  case modules => exact marksTails_markImportAssignments .modules fit text
  case defaults => exact marksTails_markImportAssignments .defaults fit text

/-- An import of a module that no manifest lists. -/
def unlisted : List Char :=
  "var __WEBPACK_IMPORTED_MODULE_0_a_b__ = __webpack_require__(1);".toList

/-- The tail of a name counts as the name. -/
theorem marks_tails_unlisted : TokensFit ["b"] ∧ ∀ item ∈ importRules,
    ∃ rule, rule? item.1 = some rule ∧ MarksTails item.2 ["b"] unlisted (rule.apply ["b"] unlisted) := by
  have fit : TokensFit ["b"] := by decide +kernel
  exact ⟨fit, marks_tails fit unlisted⟩

/-- A module that is no token is marked. -/
theorem markImports_unlisted : "a_b" ∉ ["b"] ∧
    unlisted = "var ".toList ++ importVariable .modules ['0'] "a_b".toList ++ " = __webpack_require__(1);".toList ∧
    markImports ["b"] unlisted = "var ".toList ++ importVariable .modules ['0'] "a_b".toList ++
      " = /*@__PURE__*/__webpack_require__(1);".toList := by
  decide +kernel

end Bundle
end Shakedown
