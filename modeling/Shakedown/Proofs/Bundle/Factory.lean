import Mathlib.Tactic.Simproc.ExistsAndEq
import Shakedown.Proofs.Bundle.Settling

/-!
# Factories in bundled text

Two rules look for references to exports of the core module that are called or constructed.
-/

namespace Shakedown
namespace Marking

open Marker

/-! ## What the rules look for -/

/-- A reference to an export of the core module, up to the comment that names the export. -/
def IsCoreExport (text : List Char) : Prop :=
  ∃ receiver number name : List Char, (∀ char ∈ receiver, CharClass.isWord char) ∧
    (number ≠ [] ∧ ∀ char ∈ number, CharClass.isDigit char) ∧
    (name ≠ [] ∧ ∀ char ∈ name, CharClass.isWord char) ∧
    text = receiver ++ ("__WEBPACK_IMPORTED_MODULE_".toList ++ (number ++
      ("__angular_core__[\"".toList ++ (name ++ "\" /* ".toList))))

/-- A factory: how it starts, a reference to an export, and one of the endings. -/
def IsFactory (start : List Char) (endings : List (List Char)) (text : List Char) : Prop :=
  ∃ reference ending, IsCoreExport reference ∧ ending ∈ endings ∧ text = start ++ (reference ++ ending)

/-- The names of the two factories whose calls are marked, up to their arguments. -/
abbrev factoryEndings : List (List Char) :=
  ["ɵccf */](".toList, "ɵcmf */](".toList]

/-- The name of the factory whose construction is marked. -/
abbrev moduleEndings : List (List Char) :=
  ["NgModuleFactory */]".toList]

section Takes

variable {before text rest : List Char} {groups noted : Groups}

open Pattern hiding some

theorem takes_coreExport :
    coreExport.Takes before text rest groups noted ↔ IsCoreExport text ∧ noted = groups := by
  simp only [coreExport, takes_all_cons, takes_all_nil, takes_literal, word, takes_many_one, digits,
    takes_some_one, IsCoreExport, and_assoc, existsAndEq, true_and, List.append_nil]
  constructor
  · rintro ⟨receiver, number, name, rfl, receiver_word, numbered, digits, named, name_word, noted_eq⟩
    exact ⟨⟨receiver, number, name, receiver_word, numbered, digits, named, name_word, rfl⟩, noted_eq⟩
  · rintro ⟨⟨receiver, number, name, receiver_word, numbered, digits, named, name_word, rfl⟩, noted_eq⟩
    exact ⟨receiver, number, name, rfl, receiver_word, numbered, digits, named, name_word, noted_eq⟩

theorem takes_factoryUse :
    factoryUse.Takes before text rest groups noted ↔
      IsFactory [] factoryEndings text ∧ noted = groups := by
  simp only [factoryUse, takes_all_cons, takes_all_nil, takes_coreExport, takes_any, takes_literal,
    IsFactory, List.mem_cons, List.not_mem_nil, or_false, or_and_right, exists_or, exists_eq_left,
    and_assoc, existsAndEq, true_and, List.append_nil, List.nil_append]
  constructor
  · rintro ⟨reference, _, _, _, rfl, exported, ⟨rfl, rfl, rfl, noted_eq⟩ | ⟨rfl, rfl, rfl, noted_eq⟩⟩
    · exact ⟨⟨reference, _, exported, .inl ⟨rfl, rfl⟩⟩, noted_eq⟩
    · exact ⟨⟨reference, _, exported, .inr ⟨rfl, rfl⟩⟩, noted_eq⟩
  · rintro ⟨⟨reference, _, exported, ⟨rfl, rfl⟩ | ⟨rfl, rfl⟩⟩, noted_eq⟩
    · exact ⟨reference, "ɵccf".toList, _, groups, rfl, exported, .inl ⟨rfl, rfl, rfl, noted_eq⟩⟩
    · exact ⟨reference, "ɵcmf".toList, _, groups, rfl, exported, .inr ⟨rfl, rfl, rfl, noted_eq⟩⟩

theorem takes_moduleConstruction :
    moduleConstruction.Takes before text rest groups noted ↔
      IsFactory "new ".toList moduleEndings text ∧ noted = groups := by
  simp only [moduleConstruction, takes_all_cons, takes_all_nil, takes_coreExport, takes_literal,
    IsFactory, List.mem_singleton, and_assoc, existsAndEq, true_and, List.append_nil]
  constructor
  · rintro ⟨reference, rfl, exported, noted_eq⟩
    exact ⟨⟨reference, exported, rfl⟩, noted_eq⟩
  · rintro ⟨⟨reference, exported, rfl⟩, noted_eq⟩
    exact ⟨reference, rfl, exported, noted_eq⟩

end Takes

/-! ## The form -/

variable {start : List Char} {endings : List (List Char)}

/-- What the endings of a factory must be like: they close the comment, and what closes them does not
stand in front of a comment. -/
def EndingsFit (start : List Char) (endings : List (List Char)) : Prop :=
  ∀ ending ∈ endings, IsApart ("\" /* ".toList ++ ending) ∧ '[' ∉ ending ∧
    ending.getLast?.any fun char => !CharClass.isWord char && !start.contains char

instance (start : List Char) (endings : List (List Char)) : Decidable (EndingsFit start endings) :=
  inferInstanceAs (Decidable (∀ ending ∈ endings, _ ∧ _ ∧ _ = true))

/-- A factory is a run of word characters, a bracket and the rest. -/
theorem IsFactory.exists_bracket {text : List Char} (factory : IsFactory start endings text)
    (fit : EndingsFit start endings) :
    ∃ run tail char, text = (start ++ run) ++ '[' :: tail ∧ (run ≠ [] ∧ ∀ char ∈ run, CharClass.isWord char) ∧
      '[' ∉ tail ∧ tail.getLast? = some char ∧ CharClass.isWord char = false ∧ char ∉ start := by
  obtain ⟨reference, ending, ⟨receiver, number, name, receiver_word, ⟨-, digits⟩, ⟨-, name_word⟩, rfl⟩,
    listed, rfl⟩ := factory
  obtain ⟨-, ending_free, closes⟩ := fit ending listed
  obtain ⟨char, ends, closes⟩ := Option.any_eq_true _ _ |>.1 closes
  obtain ⟨not_word, not_start⟩ : CharClass.isWord char = false ∧ char ∉ start := by simpa using closes
  refine ⟨receiver ++ ("__WEBPACK_IMPORTED_MODULE_".toList ++ (number ++ "__angular_core__".toList)),
    ['\"'] ++ (name ++ ("\" /* ".toList ++ ending)), char, by simp, ⟨by simp, ?_⟩, ?_, ?_, not_word,
    not_start⟩
  · intro char member
    simp only [List.mem_append] at member
    obtain member | member | member | member := member
    · exact receiver_word char member
    · exact List.all_eq_true.1 (by decide) char member
    · exact CharClass.isWord_of_isDigit (digits char member)
    · exact List.all_eq_true.1 (by decide) char member
  · simp only [List.mem_append, not_or]
    refine ⟨by decide, ?_, by decide, ending_free⟩
    intro member
    exact absurd (name_word _ member) (by decide)
  · have filled : ending ≠ [] := by
      rintro rfl
      contradiction
    rw [List.getLast?_append_of_ne_nil _ (by simp), List.getLast?_append_of_ne_nil _ (by simp),
      List.getLast?_append_of_ne_nil _ filled, ends]

theorem slash_notMem_start (start_eq : start = [] ∨ start = "new ".toList) : '/' ∉ start := by
  obtain rfl | rfl := start_eq <;> decide

/-- A factory does not begin inside a marker. -/
theorem IsFactory.outside {text : List Char} (factory : IsFactory start endings text)
    (start_eq : start = [] ∨ start = "new ".toList) (rest : List Char) : Outside (text ++ rest) := by
  obtain ⟨_, ending, ⟨receiver, number, name, receiver_word, -, -, rfl⟩, -, rfl⟩ := factory
  have free : '/' ∉ start ++ (receiver ++ "__".toList) := by
    simp only [List.mem_append, not_or]
    exact ⟨slash_notMem_start start_eq, slash_notMem_of_isWord receiver_word, by decide⟩
  have outside := @outside_of_notMem _ 'W' ("EBPACK_IMPORTED_MODULE_".toList ++ (number ++
    ("__angular_core__[\"".toList ++ (name ++ ("\" /* ".toList ++ (ending ++ rest)))))) free (by decide)
  simpa using outside

/-- A factory begins with a word character. -/
theorem IsFactory.exists_cons {text : List Char} (factory : IsFactory start endings text)
    (fit : EndingsFit start endings) (start_eq : start = [] ∨ start = "new ".toList) :
    ∃ char more, text = char :: more ∧ CharClass.isWord char := by
  obtain ⟨run, tail, -, rfl, ⟨run_filled, run_word⟩, -, -, -, -⟩ := factory.exists_bracket fit
  obtain rfl | rfl := start_eq
  · obtain ⟨char, run, rfl⟩ := List.exists_cons_of_ne_nil run_filled
    exact ⟨char, _, rfl, run_word char List.mem_cons_self⟩
  · exact ⟨'n', _, rfl, by decide⟩

/-- Inside of a factory, behind its start, no factory begins. -/
theorem IsFactory.append_ne {first last rest text more : List Char}
    (factory : IsFactory start endings (first ++ last)) (fit : EndingsFit start endings)
    (factory' : IsFactory start endings text) (start_free : '[' ∉ start)
    (filled : last ≠ []) (between : ∀ run run', start ++ run = first ++ (start ++ run') →
      (∀ char ∈ run, CharClass.isWord char) → run' ≠ [] → False) : last ++ rest ≠ text ++ more := by
  intro same
  obtain ⟨run, tail, char, text_eq, ⟨-, run_word⟩, tail_free, ends, not_word, not_start⟩ :=
    factory.exists_bracket fit
  obtain ⟨run', tail', -, rfl, ⟨run_filled', run_word'⟩, -, -, -, -⟩ := factory'.exists_bracket fit
  have bracket_free : ∀ run, (∀ char ∈ run, CharClass.isWord char) → '[' ∉ start ++ run := by
    intro run word member
    obtain member | member := List.mem_append.1 member
    · exact start_free member
    · exact absurd (word _ member) (by decide)
  simp only [List.append_assoc (start ++ run')] at same
  obtain ⟨part, run_eq, rfl⟩ | ⟨part, -, part_eq⟩ := List.append_eq_append_iff.1 text_eq
  · have part_free : '[' ∉ part := fun member =>
      bracket_free run run_word (run_eq ▸ List.mem_append_right _ member)
    rw [List.append_assoc] at same
    obtain ⟨rfl, -⟩ := Text.append_cons_inj part_free (bracket_free run' run_word') same
    exact between run run' run_eq run_word run_filled'
  · cases part with
    | nil =>
        obtain rfl : '[' :: tail = last := part_eq
        have same : [] ++ '[' :: (tail ++ rest) = (start ++ run') ++ '[' :: (tail' ++ more) := same
        obtain ⟨none_before, -⟩ := Text.append_cons_inj List.not_mem_nil
          (bracket_free run' run_word') same
        exact run_filled' (List.append_eq_nil_iff.1 none_before.symm).2
    | cons bracket part =>
        have tail_eq : tail = part ++ last := (List.cons_eq_cons.1 part_eq).2
        subst tail_eq
        rw [List.getLast?_append_of_ne_nil _ filled] at ends
        have among := List.mem_of_getLast? ends
        have not_before : char ∉ start ++ run' := by
          intro member
          obtain member | member := List.mem_append.1 member
          · exact not_start member
          · exact Bool.false_ne_true (not_word.symm.trans (run_word' char member))
        obtain ⟨_, before_eq, -⟩ | ⟨between, last_eq, bracket_eq⟩ := List.append_eq_append_iff.1 same
        · exact not_before (before_eq ▸ List.mem_append_left _ among)
        · cases between with
          | nil => exact not_before (by simpa [last_eq] using among)
          | cons other between =>
              obtain ⟨rfl, -⟩ := List.cons_eq_cons.1 bracket_eq
              exact tail_free (by simp [last_eq])

/-- A factory: a reference to an export of the core module, with what stands around it. Without a start
it begins where a run of word characters begins. -/
def factoryForm (start : List Char) (endings : List (List Char)) (fit : EndingsFit start endings)
    (start_eq : start = [] ∨ start = "new ".toList) : Form where
  Opens last := start = [] → ∀ char, last = some char → CharClass.isWord char = false
  Fits head body := head = [] ∧ IsFactory start endings body
  opens_none := by simp
  opens_behind := by
    rintro head body ⟨rfl, factory⟩ - char ends
    obtain ⟨run, tail, last, rfl, -, -, tail_ends, not_word, -⟩ := factory.exists_bracket fit
    have filled : tail ≠ [] := by
      rintro rfl
      contradiction
    rw [List.nil_append, List.append_cons, List.getLast?_append_of_ne_nil _ filled, tail_ends] at ends
    rwa [← Option.some.inj ends]
  headed := false
  head_ends headed := absurd headed (by decide)
  head_eq_nil _ fits := fits.1
  starts := by
    rintro head body ⟨rfl, factory⟩
    obtain ⟨char, more, rfl, word⟩ := factory.exists_cons fit start_eq
    refine ⟨char, more, rfl, ?_⟩
    rintro rfl
    exact absurd word (by decide)
  outside := by
    rintro head body rest ⟨rfl, factory⟩
    exact factory.outside start_eq rest
  markable := by
    rintro head body rest ⟨rfl, factory⟩
    refine ⟨factory.outside start_eq rest, ?_⟩
    obtain ⟨char, more, rfl, word⟩ := factory.exists_cons fit start_eq
    refine ⟨char, _, rfl, ?_, ?_⟩
    · rintro rfl
      exact absurd word (by decide)
    · rintro rfl
      exact absurd word (by decide)
  opens_of_slash headed := absurd headed (by decide)
  fits_of_inserted := by
    rintro head body rest text inserted ⟨rfl, ⟨reference, ending, exported, listed, rfl⟩⟩
    obtain ⟨receiver, number, name, receiver_word, numbered, ⟨named, name_word⟩, rfl⟩ := exported
    have number_free : '/' ∉ number := slash_notMem_of_isWord fun char member =>
      CharClass.isWord_of_isDigit (numbered.2 char member)
    have reference_free : '/' ∉ start ++ (receiver ++ ("__WEBPACK_IMPORTED_MODULE_".toList ++
        (number ++ ("__angular_core__[\"".toList ++ name)))) := by
      simp only [List.mem_append, not_or]
      exact ⟨slash_notMem_start start_eq, slash_notMem_of_isWord receiver_word, by decide, number_free,
        by decide, slash_notMem_of_isWord name_word⟩
    simp only [List.nil_append, List.append_assoc] at inserted
    obtain ⟨behind, rfl, behind_inserted⟩ :=
      Inserted.exists_append _ (by simpa using inserted) (isApart_of_notMem reference_free)
    obtain ⟨rest', rfl, -⟩ := Inserted.exists_append ("\" /* ".toList ++ ending)
      (by simpa using behind_inserted) (fit ending listed).1
    exact ⟨[], _, rest', by simp, rfl, _, ending, ⟨receiver, number, name, receiver_word, numbered,
      ⟨named, name_word⟩, rfl⟩, listed, rfl⟩
  not_inside := by
    rintro head first last rest head' body' rest' ⟨rfl, factory⟩ ⟨rfl, factory'⟩ filled inside opens
    rw [List.nil_append] at inside opens ⊢
    have start_free : '[' ∉ start := by
      obtain rfl | rfl := start_eq <;> decide
    apply factory.append_ne fit factory' start_free filled
    intro run run' run_eq run_word run_filled'
    obtain rfl | rfl := start_eq
    · obtain ⟨char, ends⟩ := List.getLast?_isSome.2 inside |> Option.isSome_iff_exists.1
      have among : char ∈ run := by
        rw [List.nil_append, List.nil_append] at run_eq
        exact run_eq ▸ List.mem_append_left _ (List.mem_of_getLast? ends)
      exact Bool.false_ne_true ((opens rfl char ends).symm.trans (run_word char among))
    · have same : "new".toList ++ ' ' :: run = (first ++ "new".toList) ++ ' ' :: run' := by
        simpa using run_eq
      obtain ⟨new_eq, -⟩ | ⟨_, -, rfl⟩ := Text.eq_or_exists_of_append_cons (by decide) same
      · exact inside (List.self_eq_append_left.1 new_eq)
      · exact absurd (run_word ' ' (by simp)) (by decide)
  blocked := by
    rintro front back body head' body' rest' more ⟨none_before, -⟩ filled
    exact absurd (List.append_eq_nil_iff.1 none_before).2 filled

theorem isMarkedBy_factory {start : List Char} {endings : List (List Char)}
    {fit : EndingsFit start endings} {start_eq : start = [] ∨ start = "new ".toList} {pattern : Pattern}
    (takes : ∀ {before text rest noted}, pattern.Takes before text rest [] noted ↔
      IsFactory start endings text ∧ noted = []) :
    (factoryForm start endings fit start_eq).IsMarkedBy pattern (fun found =>
      if found.start.follows chars then none else some (chars ++ found.text, found.stop)) := by
  apply isMarkedBy_markMatches rfl
  · intro before text rest noted
    rw [takes]
    simp [factoryForm]
  · rintro char body ⟨-, factory⟩
    obtain rfl | rfl := start_eq
    · cases word : CharClass.isWord char with
      | false =>
          refine .inl fun _ other same => ?_
          rwa [← Option.some.inj same]
      | true =>
          obtain ⟨_, ending, ⟨receiver, number, name, receiver_word, numbered, named, rfl⟩, listed, rfl⟩ :=
            factory
          refine .inr ⟨rfl, _, ending, ⟨char :: receiver, number, name, ?_, numbered, named, rfl⟩, listed, rfl⟩
          exact List.forall_mem_cons.2 ⟨word, receiver_word⟩
    · exact .inl fun none_before => absurd none_before (by decide)

/-- The form of the calls of factories. -/
def factoryCallForm : Form :=
  factoryForm [] factoryEndings (by decide +kernel) (.inl rfl)

/-- The form of the constructions of module factories. -/
def moduleFactoryForm : Form :=
  factoryForm "new ".toList moduleEndings (by decide +kernel) (.inr rfl)

theorem isMarkedBy_factoryUse : factoryCallForm.IsMarkedBy factoryUse (fun found =>
    if found.start.follows chars then none else some (chars ++ found.text, found.stop)) :=
  isMarkedBy_factory takes_factoryUse

theorem isMarkedBy_moduleConstruction : moduleFactoryForm.IsMarkedBy moduleConstruction (fun found =>
    if found.start.follows chars then none else some (chars ++ found.text, found.stop)) :=
  isMarkedBy_factory takes_moduleConstruction

end Marking
end Shakedown
