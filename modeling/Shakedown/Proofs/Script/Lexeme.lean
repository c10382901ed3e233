import Shakedown.Proofs.Script.Lexing

/-!
# Lexemes with another text behind them

A reader of the lexer looks one character past what it takes, and no lexeme goes on with a slash. So
it takes the same when the text behind begins alike or with a slash.
-/

namespace Shakedown
namespace Lexer

/-- The text may stand behind a lexeme in place of `after`: it begins alike, or with a slash. -/
def StandsFor (after other : List Char) : Prop :=
  other.head? = after.head? ∨ other.head? = some '/'

namespace StandsFor

variable {after other : List Char}

theorem refl (after : List Char) : StandsFor after after :=
  .inl rfl

/-- In front of both texts the same part may stand. -/
theorem append (stands : StandsFor after other) (part : List Char) :
    StandsFor (part ++ after) (part ++ other) := by
  cases part with
  | nil => exact stands
  | cons char rest => exact .inl rfl

/-- A test that fails on the slash and behind a lexeme fails on what stands there instead. -/
theorem head_fails {test : Char → Bool} (stands : StandsFor after other)
    (fails : after.head?.any test = false) (slash : test '/' = false) :
    other.head?.any test = false := by
  obtain same | begins := stands
  · rw [same, fails]
  · simp [begins, slash]

end StandsFor

/-- What a reader takes off the front of a text, it takes when another text stands behind. -/
def TakesAlike (read : List Char → Option (List Char)) (text after : List Char) : Prop :=
  ∃ part, text = part ++ after ∧ ∀ other, StandsFor after other → read (part ++ other) = some other

namespace TakesAlike

variable {read next : List Char → Option (List Char)} {text middle after : List Char}

theorem bind (first : TakesAlike read text middle) (second : TakesAlike next middle after) :
    TakesAlike (fun text => (read text).bind next) text after := by
  obtain ⟨front, rfl, first⟩ := first
  obtain ⟨back, rfl, second⟩ := second
  refine ⟨front ++ back, (List.append_assoc ..).symm, fun other stands => ?_⟩
  dsimp only
  rw [List.append_assoc, first _ (stands.append back), Option.bind_some, second other stands]

theorem congr (takes : TakesAlike read text after) (same : ∀ text, next text = read text) :
    TakesAlike next text after := by
  obtain ⟨part, text_eq, takes⟩ := takes
  exact ⟨part, text_eq, fun other stands => (same _).trans (takes other stands)⟩

/-- A reader that takes a character and leaves the rest to another one. -/
theorem cons {char : Char} (behind : TakesAlike next text after)
    (steps : ∀ other, read (char :: other) = next other) : TakesAlike read (char :: text) after := by
  obtain ⟨part, rfl, takes⟩ := behind
  exact ⟨char :: part, rfl, fun other stands => (steps _).trans (takes other stands)⟩

end TakesAlike

/-- With a round for each character there is one to begin with. -/
theorem exists_round {part : List Char} {rounds : Nat} (filled : part ≠ [])
    (le : part.length ≤ rounds) : ∃ fewer, rounds = fewer + 1 := by
  have := List.length_pos_iff.2 filled
  exact ⟨rounds - 1, by omega⟩

/-! ## Names -/

/-- Whether a character goes on with a name, or begins one. -/
def extendsName (opening : Bool) (char : Char) : Bool :=
  (if opening then ScriptChar.beginsName char else ScriptChar.continuesName char) || char == '\\'

/-- A brace of an escape. -/
def isBrace (char : Char) : Bool :=
  char == '\x7b' || char == '\x7d'

/-- An escape by a number is made of digits and braces. -/
theorem unicodeEscape?_append {text after : List Char} {value : Nat}
    (read : unicodeEscape? text = some (value, after)) :
    ∃ part, text = part ++ after ∧ (∀ char ∈ part, (hexDigit? char).isSome ∨ isBrace char) ∧
      ∀ other, unicodeEscape? (part ++ other) = some (value, other) := by
  have braced : ∀ {text : List Char} {start : Nat} {isEmpty : Bool},
      bracedValue? start isEmpty text = some (value, after) → ∃ part, text = part ++ after ∧
        (∀ char ∈ part, (hexDigit? char).isSome ∨ isBrace char) ∧
        ∀ other, bracedValue? start isEmpty (part ++ other) = some (value, other) := by
    intro text start isEmpty read
    fun_induction bracedValue? start isEmpty text with
    | case1 => simp at read
    | case2 => simp at read
    | case3 start isEmpty rest filled =>
        obtain ⟨rfl, rfl⟩ := by simpa using read
        exact ⟨['\x7d'], rfl, List.forall_mem_singleton.2 (.inr rfl), fun other => by
          simp [bracedValue?, filled]⟩
    | case4 => simp at read
    | case5 => simp at read
    | case6 start isEmpty char rest open_ digit digit_eq value' small ih =>
        obtain ⟨part, rfl, quiet, reads⟩ := ih read
        refine ⟨char :: part, rfl, List.forall_mem_cons.2 ⟨.inl (by simp [digit_eq]), quiet⟩,
          fun other => ?_⟩
        rw [List.cons_append, bracedValue?, if_neg open_, digit_eq]
        simpa [value'] using ⟨Nat.lt_of_not_le small, reads other⟩
  unfold unicodeEscape? at read
  split at read
  · obtain ⟨part, rfl, quiet, reads⟩ := braced read
    exact ⟨_ :: part, rfl, List.forall_mem_cons.2 ⟨.inr rfl, quiet⟩, reads⟩
  · rename_i a b c d rest not_brace
    split at read
    · rename_i a_eq b_eq c_eq d_eq
      obtain ⟨rfl, rfl⟩ := by simpa using read
      refine ⟨[a, b, c, d], rfl, by simp [a_eq, b_eq, c_eq, d_eq], fun other => ?_⟩
      simp only [List.cons_append, List.nil_append]
      unfold unicodeEscape?
      split
      · simp_all
      · rename_i same
        obtain ⟨rfl, rfl, rfl, rfl, rfl⟩ := by simpa using same
        simp [a_eq, b_eq, c_eq, d_eq]
      · rename_i none_fits
        exact (none_fits a b c d other rfl).elim
    · simp at read
  · simp at read

/-- A name ends where no character extends it. -/
theorem readName_stop {limit : Nat} {opening : Bool} {text : List Char}
    (ends : text.head?.any (extendsName opening) = false) :
    readName limit opening text = some ([], false, text) := by
  cases limit with
  | zero => rfl
  | succ limit =>
      cases text with
      | nil => rfl
      | cons char rest =>
          simp only [List.head?_cons, Option.any_some, extendsName, Bool.or_eq_false_iff,
            beq_eq_false_iff_ne] at ends
          rw [readName, ends.1]
          · rfl
          · exact ends.2

theorem readName_append {limit : Nat} {opening : Bool} {text after name : List Char}
    {isEscaped : Bool} (read : readName limit opening text = some (name, isEscaped, after))
    (long : text.length < limit) :
    ∃ part, text = part ++ after ∧ ∀ other wider, StandsFor after other → part.length ≤ wider →
      readName wider opening (part ++ other) = some (name, isEscaped, other) := by
  have stops {opening : Bool} {after other : List Char}
      (ends : after.head?.any (extendsName opening) = false) (stands : StandsFor after other)
      (wider : Nat) : readName wider opening ([] ++ other) = some ([], false, other) :=
    readName_stop (stands.head_fails ends (by cases opening <;> decide))
  fun_induction readName limit opening text generalizing name isEscaped with
  | case1 => simp at long
  | case2 limit opening =>
      obtain ⟨rfl, rfl, rfl⟩ := by simpa using read
      exact ⟨[], rfl, fun other wider stands _ => stops rfl stands wider⟩
  | case3 => simp at read
  | case4 => simp at read
  | case5 limit opening digits value rest escape_eq char scalar_eq fits ih =>
      obtain ⟨⟨others, escaped, after'⟩, read', same⟩ := Option.map_eq_some_iff.1 read
      obtain ⟨rfl, rfl, rfl⟩ := by simpa using same
      obtain ⟨front, rfl, -, escapes⟩ := unicodeEscape?_append escape_eq
      obtain ⟨part, rfl, reads⟩ := ih read' (by simp at long; omega)
      refine ⟨'\\' :: 'u' :: (front ++ part), by simp, fun other wider stands le => ?_⟩
      obtain ⟨wider, rfl⟩ := exists_round (List.cons_ne_nil _ _) le
      simp only [List.length_cons, List.length_append] at le
      have behind := reads other wider stands (by omega)
      simp only [List.cons_append, List.append_assoc, readName, escapes, scalar_eq, if_pos fits,
        behind, Option.map_some]
  | case6 => simp at read
  | case7 => simp at read
  | case8 limit opening char rest plain fits ih =>
      obtain ⟨⟨others, escaped, after'⟩, read', same⟩ := Option.map_eq_some_iff.1 read
      obtain ⟨rfl, rfl, rfl⟩ := by simpa using same
      obtain ⟨part, rfl, reads⟩ := ih read' (by simp at long; omega)
      refine ⟨char :: part, rfl, fun other wider stands le => ?_⟩
      obtain ⟨wider, rfl⟩ := exists_round (List.cons_ne_nil _ _) le
      simp only [List.length_cons] at le
      have behind := reads other wider stands (by omega)
      rw [List.cons_append, readName, if_pos fits, behind]
      · rfl
      · exact plain
  | case9 limit opening char rest plain fails =>
      obtain ⟨rfl, rfl, rfl⟩ := by simpa using read
      have ends : (char :: rest).head?.any (extendsName opening) = false := by
        simpa [extendsName, Bool.eq_false_iff.2 fails] using plain
      exact ⟨[], rfl, fun other wider stands _ => stops ends stands wider⟩

/-! ## Numbers -/

theorem stops_of_readDigits {isDigit : Char → Bool} {behindDigit : Bool} {text after : List Char}
    (read : readDigits isDigit behindDigit text = some after) : after.head?.any isDigit = false := by
  fun_induction readDigits isDigit behindDigit text with
  | case1 => simp_all
  | case2 char rest _ ih => exact ih read
  | case3 => simp at read
  | case4 => simp at read
  | case5 behindDigit char rest _ digit ih => exact ih read
  | case6 => simp_all [← Option.some.inj read]

/-- Digits end where none follows and no underscore either. -/
theorem readDigits_stop {isDigit : Char → Bool} {behindDigit : Bool} {text : List Char}
    (ends : text.head?.any (fun char => isDigit char || char == '_') = false) :
    readDigits isDigit behindDigit text = some text := by
  cases text with
  | nil => rfl
  | cons char rest =>
      simp only [List.head?_cons, Option.any_some, Bool.or_eq_false_iff, beq_eq_false_iff_ne] at ends
      rw [readDigits, ends.1]
      · rfl
      · exact ends.2

section Digits

variable {isDigit : Char → Bool} (slash : isDigit '/' = false)
include slash

theorem takesAlike_readDigits {behindDigit : Bool} {text after : List Char}
    (read : readDigits isDigit behindDigit text = some after) :
    TakesAlike (readDigits isDigit behindDigit) text after := by
  have stops {behindDigit : Bool} {after : List Char}
      (ends : after.head?.any (fun char => isDigit char || char == '_') = false) :
      TakesAlike (readDigits isDigit behindDigit) after after :=
    ⟨[], rfl, fun other stands => readDigits_stop (stands.head_fails ends (by simp [slash]))⟩
  fun_induction readDigits isDigit behindDigit text with
  | case1 =>
      obtain rfl := Option.some.inj read
      exact stops rfl
  | case2 char rest digit ih =>
      obtain ⟨part, text_eq, takes⟩ := ih read
      cases part with
      | nil =>
          have ends := stops_of_readDigits read
          rw [← show char :: rest = after from text_eq] at ends
          simp [digit] at ends
      | cons first part =>
          obtain ⟨rfl, rfl⟩ := List.cons.inj text_eq
          refine ⟨'_' :: char :: part, rfl, fun other stands => ?_⟩
          simp only [List.cons_append, readDigits, if_pos digit]
          exact takes other stands
  | case3 => simp at read
  | case4 => simp at read
  | case5 behindDigit char rest plain digit ih =>
      refine (ih read).cons fun other => ?_
      rw [readDigits, if_pos digit]
      exact plain
  | case6 behindDigit char rest plain foreign =>
      obtain rfl := Option.some.inj read
      exact stops (by simpa [Bool.eq_false_iff.2 foreign] using plain)

theorem takesAlike_readSomeDigits {text after : List Char}
    (read : readSomeDigits isDigit text = some after) :
    TakesAlike (readSomeDigits isDigit) text after := by
  cases text with
  | nil => simp [readSomeDigits] at read
  | cons char rest =>
      rw [readSomeDigits] at read
      split at read
      · rename_i digit
        exact (takesAlike_readDigits slash read).cons fun other => by rw [readSomeDigits, if_pos digit]
      · simp at read

end Digits

/-- Reading digits takes one at least. -/
theorem eq_cons_of_takesAlike {isDigit : Char → Bool} (slash : isDigit '/' = false)
    {text after : List Char} (takes : TakesAlike (readSomeDigits isDigit) text after) :
    ∃ char part, text = char :: part ++ after ∧ ∀ other, StandsFor after other →
      readSomeDigits isDigit (char :: part ++ other) = some other := by
  obtain ⟨part, rfl, takes⟩ := takes
  cases part with
  | nil =>
      have none_read := takes ['/'] (.inr rfl)
      simp [readSomeDigits, slash] at none_read
  | cons char part => exact ⟨char, part, rfl, takes⟩

theorem takesAlike_readExponent {text after : List Char} (read : readExponent text = some after) :
    TakesAlike readExponent text after := by
  have slash : ScriptChar.isDigit '/' = false := by decide
  have stops {after : List Char}
      (ends : after.head?.any (fun char => char = 'e' ∨ char = 'E') = false) :
      TakesAlike readExponent after after := by
    refine ⟨[], rfl, fun other stands => ?_⟩
    have ends := stands.head_fails ends (by decide)
    cases other with
    | nil => rfl
    | cons char rest => exact if_neg (by simpa using ends)
  unfold readExponent at read
  split at read
  · obtain rfl := Option.some.inj read
    exact stops rfl
  rename_i char rest
  split at read
  case isFalse foreign =>
    obtain rfl := Option.some.inj read
    exact stops (by simpa using foreign)
  case isTrue marks =>
    have signed {sign : Char} {rest : List Char} (sign_eq : sign = '+' ∨ sign = '-')
        (read : readSomeDigits ScriptChar.isDigit rest = some after) :
        TakesAlike readExponent (char :: sign :: rest) after := by
      obtain ⟨part, rfl, takes⟩ := takesAlike_readSomeDigits slash read
      refine ⟨char :: sign :: part, rfl, fun other stands => ?_⟩
      rw [← takes other stands]
      obtain rfl | rfl := sign_eq <;> exact if_pos marks
    split at read
    · exact signed (.inl rfl) read
    · exact signed (.inr rfl) read
    · rename_i no_plus no_minus
      obtain ⟨first, part, rfl, takes⟩ :=
        eq_cons_of_takesAlike slash (takesAlike_readSomeDigits slash read)
      refine ⟨char :: first :: part, rfl, fun other stands => ?_⟩
      rw [← takes other stands]
      unfold readExponent
      dsimp only [List.cons_append]
      rw [if_pos marks]
      split
      · simp_all
      · simp_all
      · rfl

/-- A big number ends with its mark, any other one before what is none. -/
theorem takesAlike_readBigMark (text : List Char) :
    TakesAlike (fun text => some (readBigMark text)) text (readBigMark text) := by
  have stops {text : List Char} (ends : text.head?.any (· == 'n') = false) :
      readBigMark text = text := by
    unfold readBigMark
    split <;> simp_all
  cases marked : text.head?.any (· == 'n') with
  | false =>
      rw [stops marked]
      exact ⟨[], rfl, fun other stands => congrArg some (stops (stands.head_fails marked (by decide)))⟩
  | true =>
      cases text with
      | nil => simp at marked
      | cons char rest =>
          obtain rfl : char = 'n' := by simpa using marked
          exact ⟨['n'], rfl, fun other _ => rfl⟩

theorem takesAlike_readFraction {text after : List Char} (read : readFraction text = some after) :
    TakesAlike readFraction text after := by
  unfold readFraction at read
  split at read
  · simp at read
  · rename_i rest no_underscore
    obtain ⟨part, rfl, takes⟩ := takesAlike_readDigits (by decide) read
    refine ⟨'.' :: part, rfl, fun other stands => ?_⟩
    have plain : (part ++ other).head?.any (· == '_') = false := by
      refine (stands.append part).head_fails ?_ (by decide)
      cases behind : part ++ after with
      | nil => rfl
      | cons char _ => simpa using fun same => no_underscore _ (by rw [behind, same])
    have reads := takes other stands
    rw [List.cons_append]
    generalize part ++ other = behind at plain reads
    unfold readFraction
    split <;> simp_all
  · rename_i plain
    obtain rfl := Option.some.inj read
    refine ⟨[], rfl, fun other stands => ?_⟩
    have ends : text.head?.any (· == '.') = false := by
      cases text with
      | nil => rfl
      | cons char rest => simpa using fun same => plain _ (by rw [same])
    have ends := stands.head_fails ends (by decide)
    unfold readFraction
    split <;> simp_all

theorem takesAlike_readTail {text after : List Char}
    (read : (readFraction text).bind readExponent = some after) :
    TakesAlike (fun text => (readFraction text).bind readExponent) text after := by
  obtain ⟨middle, fraction, exponent⟩ := Option.bind_eq_some_iff.1 read
  exact (takesAlike_readFraction fraction).bind (takesAlike_readExponent exponent)

theorem isDigitOf_slash (base : Nat) : isDigitOf base '/' = false := by
  have foreign : hexDigit? '/' = none := by decide
  rw [isDigitOf, foreign]
  rfl

theorem takesAlike_readBased {base : Nat} {text after : List Char}
    (read : readBased base text = some after) : TakesAlike (readBased base) text after := by
  obtain ⟨middle, digits, rfl⟩ := Option.map_eq_some_iff.1 read
  refine ((takesAlike_readSomeDigits (isDigitOf_slash base) digits).bind
    (takesAlike_readBigMark middle)).congr fun text => ?_
  exact Option.map_eq_bind

/-- A run of characters that pass a test ends before one that does not. -/
theorem span_append {test : Char → Bool} {front other : List Char} (all : ∀ char ∈ front, test char)
    (ends : other.head?.any test = false) :
    (front ++ other).takeWhile test = front ∧ (front ++ other).dropWhile test = other := by
  have none_taken : other.takeWhile test = [] ∧ other.dropWhile test = other := by
    cases other with
    | nil => exact ⟨rfl, rfl⟩
    | cons char rest =>
        have fails : test char = false := ends
        simp [fails]
  rw [List.takeWhile_append_of_pos all, List.dropWhile_append_of_pos all, none_taken.1,
    none_taken.2, List.append_nil]
  exact ⟨rfl, rfl⟩

theorem head_dropWhile (test : Char → Bool) (text : List Char) :
    (text.dropWhile test).head?.any test = false := by
  have fails := List.head?_dropWhile_not test text
  cases head_eq : (text.dropWhile test).head? with
  | none => rfl
  | some char => simpa [head_eq] using fails

/-- What is read behind a leading zero with another digit. -/
theorem takesAlike_readZeroLed {digit : Char} {text after : List Char}
    (is_digit : ScriptChar.isDigit digit) (read : readZeroLed (digit :: text) = some after) :
    TakesAlike (fun text => readZeroLed (digit :: text)) text after := by
  have text_eq := (List.takeWhile_append_dropWhile (p := ScriptChar.isDigit) (l := text)).symm
  have all : ∀ char ∈ text.takeWhile ScriptChar.isDigit, ScriptChar.isDigit char :=
    fun char member => List.all_eq_true.1 List.all_takeWhile char member
  have ends := head_dropWhile ScriptChar.isDigit text
  rw [readZeroLed, List.takeWhile_cons_of_pos is_digit, List.dropWhile_cons_of_pos is_digit] at read
  generalize text.takeWhile ScriptChar.isDigit = digits at *
  generalize text.dropWhile ScriptChar.isDigit = rest at *
  subst text_eq
  have reads {other : List Char} (stands : StandsFor rest other) :
      readZeroLed (digit :: (digits ++ other)) =
        if (digit :: digits).all (isDigitOf 8) then some other
        else (readFraction other).bind readExponent := by
    obtain ⟨taken, left⟩ := span_append all (stands.head_fails ends (by decide))
    rw [readZeroLed, List.takeWhile_cons_of_pos is_digit, List.dropWhile_cons_of_pos is_digit, taken,
      left]
  split at read
  · rename_i octal
    obtain rfl := Option.some.inj read
    exact ⟨digits, rfl, fun other stands => (reads stands).trans (if_pos octal)⟩
  · rename_i decimal
    obtain ⟨part, rfl, takes⟩ := takesAlike_readTail read
    refine ⟨digits ++ part, (List.append_assoc ..).symm, fun other stands => ?_⟩
    dsimp only
    rw [List.append_assoc, reads (stands.append part), if_neg decimal]
    exact takes other stands

/-- Reads what follows the whole part of a number. -/
def readWholeEnd (text : List Char) : Option (List Char) :=
  if text.head?.any (· == 'n') then some (text.drop 1) else (readFraction text).bind readExponent

theorem takesAlike_readWholeEnd {text after : List Char} (read : readWholeEnd text = some after) :
    TakesAlike readWholeEnd text after := by
  unfold readWholeEnd at read
  split at read
  · rename_i marked
    cases text with
    | nil => simp at marked
    | cons char rest =>
        obtain rfl := Option.some.inj read
        exact ⟨[char], rfl, fun other _ => if_pos marked⟩
  · rename_i unmarked
    obtain ⟨part, rfl, takes⟩ := takesAlike_readTail read
    refine ⟨part, rfl, fun other stands => (if_neg ?_).trans (takes other stands)⟩
    rw [(stands.append part).head_fails (Bool.eq_false_iff.2 unmarked) (by decide)]
    exact Bool.false_ne_true

/-- Whether a character behind a zero names a base or is misplaced there. -/
def marksBase (char : Char) : Bool :=
  ['x', 'X', 'o', 'O', 'b', 'B', '_'].contains char

theorem readNumber_zero {text : List Char} (plain : text.head?.any marksBase = false) :
    readNumber ('0' :: text) =
      if text.head?.any ScriptChar.isDigit then readZeroLed text else readWholeEnd text := by
  cases text with
  | nil => rfl
  | cons char rest =>
      have plain : marksBase char = false := plain
      simp only [marksBase, List.contains_cons, Bool.or_eq_false_iff, beq_eq_false_iff_ne] at plain
      simp [readNumber, readWholeEnd, plain]

theorem readNumber_plain {char : Char} {text : List Char} (not_zero : char ≠ '0')
    (not_dot : char ≠ '.') :
    readNumber (char :: text) =
      (readSomeDigits ScriptChar.isDigit (char :: text)).bind readWholeEnd := by
  unfold readNumber
  split <;> try simp_all
  refine congrArg _ (funext fun rest => ?_)
  unfold readWholeEnd
  cases rest with
  | nil => rfl
  | cons mark rest =>
      by_cases marks : mark = 'n'
      · simp [marks]
      · simp [marks]

/-- A number that neither a zero nor a dot begins. -/
theorem takesAlike_readNumber_plain {first : Char} {text after : List Char} (not_zero : first ≠ '0')
    (not_dot : first ≠ '.') (read : readNumber (first :: text) = some after) :
    TakesAlike readNumber (first :: text) after := by
  rw [readNumber_plain not_zero not_dot] at read
  obtain ⟨middle, digits, tail⟩ := Option.bind_eq_some_iff.1 read
  obtain ⟨char, front, text_eq, reads⟩ :=
    eq_cons_of_takesAlike (by decide) (takesAlike_readSomeDigits (by decide) digits)
  obtain ⟨back, rfl, ends⟩ := takesAlike_readWholeEnd tail
  obtain ⟨rfl, rfl⟩ := List.cons.inj text_eq
  refine ⟨first :: (front ++ back), by simp, fun other stands => ?_⟩
  have whole := reads (back ++ other) (stands.append back)
  rw [List.cons_append] at whole
  rw [List.cons_append, readNumber_plain not_zero not_dot, List.append_assoc, whole]
  exact ends other stands

/-- A number in a base that is named behind a zero. -/
theorem takesAlike_readNumber_based {mark : Char} {rest after : List Char} (marks : marksBase mark)
    (read : readNumber ('0' :: mark :: rest) = some after) :
    TakesAlike readNumber ('0' :: mark :: rest) after := by
  have based {base : Nat} (read : readBased base rest = some after)
      (steps : ∀ other, readNumber ('0' :: mark :: other) = readBased base other) :
      TakesAlike readNumber ('0' :: mark :: rest) after := by
    have behind : TakesAlike (fun text => readNumber ('0' :: text)) (mark :: rest) after :=
      (takesAlike_readBased read).cons steps
    exact behind.cons fun _ => rfl
  simp only [marksBase, List.contains_cons, List.contains_nil, Bool.or_false, Bool.or_eq_true,
    beq_iff_eq] at marks
  rcases marks with rfl | rfl | rfl | rfl | rfl | rfl | rfl
  · exact based read fun _ => rfl
  · exact based read fun _ => rfl
  · exact based read fun _ => rfl
  · exact based read fun _ => rfl
  · exact based read fun _ => rfl
  · exact based read fun _ => rfl
  · cases read

/-- A number that a zero begins and no base. -/
theorem takesAlike_readNumber_zero {text after : List Char} (plain : text.head?.any marksBase = false)
    (read : readNumber ('0' :: text) = some after) : TakesAlike readNumber ('0' :: text) after := by
  rw [readNumber_zero plain] at read
  split at read
  · rename_i digit
    cases text with
    | nil => simp at digit
    | cons second rest =>
        obtain ⟨part, rfl, takes⟩ := takesAlike_readZeroLed digit read
        refine ⟨'0' :: second :: part, rfl, fun other stands => ?_⟩
        rw [List.cons_append, List.cons_append, readNumber_zero (by exact plain),
          if_pos (by exact digit)]
        exact takes other stands
  · rename_i not_digit
    obtain ⟨part, rfl, takes⟩ := takesAlike_readWholeEnd read
    refine ⟨'0' :: part, rfl, fun other stands => ?_⟩
    have behind := stands.append part
    rw [List.cons_append, readNumber_zero (behind.head_fails plain (by decide)),
      behind.head_fails (Bool.eq_false_iff.2 not_digit) (by decide)]
    exact takes other stands

theorem takesAlike_readNumber {text after : List Char} (read : readNumber text = some after) :
    TakesAlike readNumber text after := by
  cases text with
  | nil => simp [readNumber, readSomeDigits] at read
  | cons first text =>
  by_cases is_dot : first = '.'
  · subst is_dot
    obtain ⟨middle, digits, exponent⟩ := Option.bind_eq_some_iff.1
      (show (readSomeDigits ScriptChar.isDigit text).bind readExponent = some after from read)
    exact ((takesAlike_readSomeDigits (by decide) digits).bind
      (takesAlike_readExponent exponent)).cons fun _ => rfl
  by_cases is_zero : first = '0'
  · subst is_zero
    cases plain : text.head?.any marksBase with
    | false => exact takesAlike_readNumber_zero plain read
    | true =>
        cases text with
        | nil => simp at plain
        | cons mark rest => exact takesAlike_readNumber_based plain read
  · exact takesAlike_readNumber_plain is_zero is_dot read

end Lexer
end Shakedown
