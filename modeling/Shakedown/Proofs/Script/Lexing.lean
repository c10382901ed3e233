import Shakedown.Proofs.Text.Ink
import Shakedown.Script.Lexer

/-!
# Where tokens lie

Every reader of the lexer takes characters off the front of the text and hands on the rest. A token
takes at least one, begins behind all blanks and comments, and ends with ink: a quote, a bracket, a
letter or a digit, never a blank.
-/

namespace Shakedown

namespace ScriptChar

theorem isInk_of_not_blank {char : Char} (within : endsLine char = false)
    (filled : isBlank char = false) : Text.isInk char :=
  Text.isInk_of_passes (fun char => !endsLine char && !isBlank char) (by decide) (by decide)
    (by decide) (by decide) (by simp [within, filled])

theorem isInk_of_continuesName {char : Char} (fits : continuesName char) : Text.isInk char :=
  Text.isInk_of_passes _ (by decide) (by decide) (by decide) (by decide) fits

theorem isInk_of_beginsName {char : Char} (fits : beginsName char) : Text.isInk char :=
  Text.isInk_of_passes _ (by decide) (by decide) (by decide) (by decide) fits

end ScriptChar

namespace Lexer

open Text

/-- `after` is behind some characters of `text`, all of which leave ink. -/
def TakesInk (text after : List Char) : Prop :=
  ∃ part, text = part ++ after ∧ ∀ char ∈ part, isInk char

/-- `after` is behind a part of `text` that ends with ink. -/
def TakesLexeme (text after : List Char) : Prop :=
  ∃ part last, text = part ++ last :: after ∧ isInk last

namespace TakesInk

theorem refl (text : List Char) : TakesInk text text :=
  ⟨[], rfl, by simp⟩

theorem cons {char : Char} {text after : List Char} (ink : isInk char)
    (takes : TakesInk text after) : TakesInk (char :: text) after := by
  obtain ⟨part, rfl, part_ink⟩ := takes
  exact ⟨char :: part, rfl, by simpa [ink] using part_ink⟩

theorem trans {text middle after : List Char} (first : TakesInk text middle)
    (second : TakesInk middle after) : TakesInk text after := by
  obtain ⟨front, rfl, front_ink⟩ := first
  obtain ⟨back, rfl, back_ink⟩ := second
  refine ⟨front ++ back, by simp, fun char member => ?_⟩
  exact (List.mem_append.1 member).elim (front_ink char) (back_ink char)

/-- Taking all characters of a leading run that satisfy a test that only ink passes. -/
theorem dropWhile {test : Char → Bool} (only_ink : ∀ char, test char → isInk char)
    (text : List Char) : TakesInk text (text.dropWhile test) :=
  ⟨text.takeWhile test, List.takeWhile_append_dropWhile.symm,
    fun char member => only_ink char (List.all_eq_true.1 List.all_takeWhile char member)⟩

/-- Taking ink from behind a character that leaves ink takes a lexeme. -/
theorem lexeme {char : Char} {text after : List Char} (ink : isInk char)
    (takes : TakesInk text after) : TakesLexeme (char :: text) after := by
  obtain ⟨part, rfl, part_ink⟩ := takes
  rcases List.eq_nil_or_concat part with rfl | ⟨front, last, rfl⟩
  · exact ⟨[], char, rfl, ink⟩
  · exact ⟨char :: front, last, by simp, part_ink last (by simp)⟩

end TakesInk

theorem TakesLexeme.append {text after : List Char} (front : List Char)
    (takes : TakesLexeme text after) : TakesLexeme (front ++ text) after := by
  obtain ⟨part, last, rfl, ink⟩ := takes
  exact ⟨front ++ part, last, by simp, ink⟩

theorem TakesLexeme.trans_ink {text middle after : List Char} (first : TakesLexeme text middle)
    (second : TakesInk middle after) : TakesLexeme text after := by
  obtain ⟨front, last, rfl, ink⟩ := first
  exact (second.lexeme ink).append front

/-! ## Names -/

theorem isInk_of_hexDigit? {char : Char} {digit : Nat} (read : hexDigit? char = some digit) :
    isInk char :=
  isInk_of_passes (fun char => (hexDigit? char).isSome) (by decide) (by decide) (by decide)
    (by decide) (by simp [read])

theorem takesInk_of_bracedValue? {value : Nat} {isEmpty : Bool} {text after : List Char}
    {result : Nat} (read : bracedValue? value isEmpty text = some (result, after)) :
    TakesInk text after := by
  induction text generalizing value isEmpty with
  | nil => simp [bracedValue?] at read
  | cons char rest ih =>
      rw [bracedValue?] at read
      split at read
      · rename_i closing
        split at read
        · simp at read
        · obtain ⟨-, rfl⟩ := by simpa using read
          exact (TakesInk.refl _).cons (closing ▸ by decide)
      · split at read
        · simp at read
        · rename_i digit digit_eq
          dsimp only at read
          split at read
          · simp at read
          · exact (ih read).cons (isInk_of_hexDigit? digit_eq)

theorem takesInk_of_unicodeEscape? {text after : List Char} {value : Nat}
    (read : unicodeEscape? text = some (value, after)) : TakesInk text after := by
  unfold unicodeEscape? at read
  split at read
  · exact (takesInk_of_bracedValue? read).cons (by decide)
  · split at read
    · rename_i a_eq b_eq c_eq d_eq
      obtain ⟨-, rfl⟩ := by simpa using read
      exact ((((TakesInk.refl _).cons (isInk_of_hexDigit? d_eq)).cons
        (isInk_of_hexDigit? c_eq)).cons (isInk_of_hexDigit? b_eq)).cons (isInk_of_hexDigit? a_eq)
    · simp at read
  · simp at read

/-- A name is ink throughout, and one whose first character is still to come has at least that. -/
theorem takes_of_readName {limit : Nat} {opening : Bool} {text after name : List Char}
    {isEscaped : Bool} (read : readName limit opening text = some (name, isEscaped, after)) :
    TakesInk text after ∧
      (0 < limit → opening = true → namesBegin text = true → TakesLexeme text after) := by
  have fits_ink : ∀ {opening : Bool} {char : Char},
      (if opening then ScriptChar.beginsName char else ScriptChar.continuesName char) = true →
        isInk char := by
    intro opening char fits
    cases opening with
    | true => exact ScriptChar.isInk_of_beginsName fits
    | false => exact ScriptChar.isInk_of_continuesName fits
  fun_induction readName limit opening text generalizing name isEscaped with
  | case1 opening text =>
      obtain ⟨-, -, rfl⟩ := by simpa using read
      exact ⟨.refl _, by simp⟩
  | case2 =>
      obtain ⟨-, -, rfl⟩ := by simpa using read
      exact ⟨.refl _, by simp [namesBegin]⟩
  | case3 => simp at read
  | case4 => simp at read
  | case5 limit opening digits value rest escape_eq char scalar_eq fits ih =>
      obtain ⟨⟨others, escaped, after'⟩, read', same⟩ := Option.map_eq_some_iff.1 read
      obtain ⟨-, -, rfl⟩ := by simpa using same
      have behind_sign : TakesInk ('u' :: digits) after' :=
        ((takesInk_of_unicodeEscape? escape_eq).trans (ih read').1).cons (by decide)
      exact ⟨behind_sign.cons (by decide), fun _ _ _ => behind_sign.lexeme (by decide)⟩
  | case6 => simp at read
  | case7 => simp at read
  | case8 limit opening char rest _ fits ih =>
      obtain ⟨⟨others, escaped, after'⟩, read', same⟩ := Option.map_eq_some_iff.1 read
      obtain ⟨-, -, rfl⟩ := by simpa using same
      exact ⟨(ih read').1.cons (fits_ink fits), fun _ _ _ => (ih read').1.lexeme (fits_ink fits)⟩
  | case9 limit opening char rest plain fails =>
      obtain ⟨-, -, rfl⟩ := by simpa using read
      refine ⟨.refl _, fun _ opens begins => ?_⟩
      subst opens
      have escaped : char = '\\' := by simp_all [namesBegin]
      exact absurd escaped plain

/-- Whether characters are a way to write a name: with an escape, or else as it is. -/
def Spells (name written : List Char) (isEscaped : Bool) : Prop :=
  if isEscaped then '\\' ∈ written else written = name

/-- What a name is read from is a way to write it. -/
theorem spells_of_readName {limit : Nat} {opening : Bool} {text after name : List Char}
    {isEscaped : Bool} (read : readName limit opening text = some (name, isEscaped, after)) :
    ∃ written, text = written ++ after ∧ Spells name written isEscaped := by
  fun_induction readName limit opening text generalizing name isEscaped with
  | case1 =>
      obtain ⟨rfl, rfl, rfl⟩ := by simpa using read
      exact ⟨[], rfl, rfl⟩
  | case2 =>
      obtain ⟨rfl, rfl, rfl⟩ := by simpa using read
      exact ⟨[], rfl, rfl⟩
  | case3 => simp at read
  | case4 => simp at read
  | case5 limit opening digits value rest escape_eq char scalar_eq fits ih =>
      obtain ⟨⟨others, escaped, after'⟩, read', same⟩ := Option.map_eq_some_iff.1 read
      obtain ⟨rfl, rfl, rfl⟩ := by simpa using same
      obtain ⟨part, rfl, -⟩ := takesInk_of_unicodeEscape? escape_eq
      obtain ⟨written, rfl, -⟩ := ih read'
      exact ⟨'\\' :: 'u' :: (part ++ written), by simp, by simp [Spells]⟩
  | case6 => simp at read
  | case7 => simp at read
  | case8 limit opening char rest _ fits ih =>
      obtain ⟨⟨others, escaped, after'⟩, read', same⟩ := Option.map_eq_some_iff.1 read
      obtain ⟨rfl, rfl, rfl⟩ := by simpa using same
      obtain ⟨written, rfl, spells⟩ := ih read'
      refine ⟨char :: written, rfl, ?_⟩
      cases escaped with
      | true => exact List.mem_cons_of_mem _ spells
      | false => exact congrArg (char :: ·) spells
  | case9 =>
      obtain ⟨rfl, rfl, rfl⟩ := by simpa using read
      exact ⟨[], rfl, rfl⟩

/-! ## Numbers -/

theorem isInk_of_isDigit {char : Char} (digit : ScriptChar.isDigit char) : isInk char :=
  isInk_of_passes _ (by decide) (by decide) (by decide) (by decide) digit

theorem isInk_of_isDigitOf {base : Nat} {char : Char} (digit : isDigitOf base char) :
    isInk char := by
  rw [isDigitOf, Option.any_eq_true] at digit
  obtain ⟨value, read, -⟩ := digit
  exact isInk_of_hexDigit? read

section Digits

variable {isDigit : Char → Bool} (only_ink : ∀ char, isDigit char → isInk char)
include only_ink

theorem takesInk_of_readDigits {behindDigit : Bool} {text after : List Char}
    (read : readDigits isDigit behindDigit text = some after) : TakesInk text after := by
  fun_induction readDigits isDigit behindDigit text with
  | case1 => simp_all [TakesInk.refl]
  | case2 char rest _ ih => exact (ih read).cons (by decide)
  | case3 => simp at read
  | case4 => simp at read
  | case5 behindDigit char rest _ digit ih => exact (ih read).cons (only_ink char digit)
  | case6 => simp_all [TakesInk.refl]

theorem eq_cons_of_readSomeDigits {text after : List Char}
    (read : readSomeDigits isDigit text = some after) :
    ∃ char rest, text = char :: rest ∧ isInk char ∧ TakesInk rest after := by
  cases text with
  | nil => simp [readSomeDigits] at read
  | cons char rest =>
      rw [readSomeDigits] at read
      split at read
      · rename_i digit
        exact ⟨char, rest, rfl, only_ink char digit, takesInk_of_readDigits only_ink read⟩
      · simp at read

theorem takesInk_of_readSomeDigits {text after : List Char}
    (read : readSomeDigits isDigit text = some after) : TakesInk text after := by
  obtain ⟨char, rest, rfl, ink, takes⟩ := eq_cons_of_readSomeDigits only_ink read
  exact takes.cons ink

theorem takesLexeme_of_readSomeDigits {text after : List Char}
    (read : readSomeDigits isDigit text = some after) : TakesLexeme text after := by
  obtain ⟨char, rest, rfl, ink, takes⟩ := eq_cons_of_readSomeDigits only_ink read
  exact takes.lexeme ink

end Digits

theorem takesInk_of_readExponent {text after : List Char} (read : readExponent text = some after) :
    TakesInk text after := by
  have digits_ink {rest : List Char}
      (read : readSomeDigits ScriptChar.isDigit rest = some after) : TakesInk rest after :=
    takesInk_of_readSomeDigits (fun _ => isInk_of_isDigit) read
  unfold readExponent at read
  split at read
  · simp_all [TakesInk.refl]
  · rename_i char rest
    split at read
    · rename_i marks
      have mark_ink : isInk char := by rcases marks with rfl | rfl <;> decide
      split at read
      · exact ((digits_ink read).cons (by decide)).cons mark_ink
      · exact ((digits_ink read).cons (by decide)).cons mark_ink
      · exact (digits_ink read).cons mark_ink
    · simp_all [TakesInk.refl]

theorem takesInk_readBigMark (text : List Char) : TakesInk text (readBigMark text) := by
  unfold readBigMark
  split
  · exact (TakesInk.refl _).cons (by decide)
  · exact .refl _

theorem takesInk_of_readFraction {text after : List Char} (read : readFraction text = some after) :
    TakesInk text after := by
  unfold readFraction at read
  split at read
  · simp at read
  · exact (takesInk_of_readDigits (fun _ => isInk_of_isDigit) read).cons (by decide)
  · simp_all [TakesInk.refl]

/-- What may follow the whole part of a number. -/
theorem takesInk_of_readFraction_readExponent {text after : List Char}
    (read : (readFraction text).bind readExponent = some after) : TakesInk text after := by
  obtain ⟨middle, fraction, exponent⟩ := Option.bind_eq_some_iff.1 read
  exact (takesInk_of_readFraction fraction).trans (takesInk_of_readExponent exponent)

theorem takesInk_of_readBased {base : Nat} {text after : List Char}
    (read : readBased base text = some after) : TakesInk text after := by
  obtain ⟨middle, digits, rfl⟩ := Option.map_eq_some_iff.1 read
  exact (takesInk_of_readSomeDigits (fun _ => isInk_of_isDigitOf) digits).trans
    (takesInk_readBigMark middle)

theorem takesInk_of_readZeroLed {text after : List Char} (read : readZeroLed text = some after) :
    TakesInk text after := by
  have digits : TakesInk text (text.dropWhile ScriptChar.isDigit) :=
    .dropWhile (fun _ => isInk_of_isDigit) text
  rw [readZeroLed] at read
  split at read
  · simp_all
  · exact digits.trans (takesInk_of_readFraction_readExponent read)

theorem takesLexeme_of_readNumber {text after : List Char} (read : readNumber text = some after) :
    TakesLexeme text after := by
  have behind_zero {mark : Char} {rest : List Char} (ink : isInk mark)
      (takes : TakesInk rest after) : TakesLexeme ('0' :: mark :: rest) after :=
    (takes.cons ink).lexeme (by decide)
  unfold readNumber at read
  split at read
  · exact behind_zero (by decide) (takesInk_of_readBased read)
  · exact behind_zero (by decide) (takesInk_of_readBased read)
  · exact behind_zero (by decide) (takesInk_of_readBased read)
  · exact behind_zero (by decide) (takesInk_of_readBased read)
  · exact behind_zero (by decide) (takesInk_of_readBased read)
  · exact behind_zero (by decide) (takesInk_of_readBased read)
  · simp at read
  · split at read
    · exact (takesInk_of_readZeroLed read).lexeme (by decide)
    · split at read
      · rename_i mark
        obtain rfl := Option.some.inj read
        exact behind_zero (mark ▸ by decide) (.refl _)
      · exact (takesInk_of_readFraction_readExponent read).lexeme (by decide)
  · obtain ⟨middle, digits, exponent⟩ := Option.bind_eq_some_iff.1 read
    exact ((takesInk_of_readSomeDigits (fun _ => isInk_of_isDigit) digits).trans
      (takesInk_of_readExponent exponent)).lexeme (by decide)
  · obtain ⟨middle, digits, rest_read⟩ := Option.bind_eq_some_iff.1 read
    refine (takesLexeme_of_readSomeDigits (fun _ => isInk_of_isDigit) digits).trans_ink ?_
    split at rest_read
    · obtain rfl := Option.some.inj rest_read
      exact (TakesInk.refl _).cons (by decide)
    · exact takesInk_of_readFraction_readExponent rest_read

/-! ## Strings, templates and regular expressions -/

theorem octalValue_suffix (first : Nat) (text : List Char) : (octalValue first text).2 <:+ text := by
  unfold octalValue
  split
  · exact List.suffix_refl _
  · split
    · exact List.suffix_refl _
    · split
      · exact List.suffix_cons _ _
      · split
        · exact List.suffix_cons _ _
        · exact (List.suffix_cons _ _).trans (List.suffix_cons _ _)

theorem suffix_of_readEscape {text after : List Char} {pieces : List Piece} {isValid : Bool}
    (read : readEscape text = some (pieces, isValid, after)) : after <:+ text := by
  unfold readEscape at read
  split at read
  case h_1 => simp at read
  case h_2 | h_3 | h_4 | h_5 | h_6 | h_7 =>
    obtain ⟨-, -, rfl⟩ := by simpa using read
    exact List.suffix_cons _ _
  case h_8 =>
    obtain ⟨-, -, rfl⟩ := by simpa using read
    exact (List.suffix_cons _ _).trans (List.suffix_cons _ _)
  case h_9 =>
    split at read
    · obtain ⟨-, -, rfl⟩ := by simpa using read
      exact ((List.suffix_cons _ _).trans (List.suffix_cons _ _)).trans (List.suffix_cons _ _)
    · simp at read
  case h_10 => simp at read
  case h_11 =>
    obtain ⟨⟨value, rest⟩, escape, same⟩ := Option.map_eq_some_iff.1 read
    obtain ⟨-, -, rfl⟩ := by simpa using same
    obtain ⟨part, rfl, -⟩ := takesInk_of_unicodeEscape? escape
    exact (List.suffix_append _ _).trans (List.suffix_cons _ _)
  case h_12 =>
    split at read
    · obtain ⟨-, -, rfl⟩ := by simpa using read
      exact List.suffix_cons _ _
    · split at read
      · dsimp only at read
        split at read
        · obtain ⟨-, -, rfl⟩ := by simpa using read
          exact (octalValue_suffix _ _).trans (List.suffix_cons _ _)
        · obtain ⟨-, -, rfl⟩ := by simpa using read
          exact List.suffix_cons _ _
      · obtain ⟨-, -, rfl⟩ := by simpa using read
        exact List.suffix_cons _ _

/-- A lexeme that is a closing character behind some others. -/
theorem takesLexeme_of_suffix {text rest after : List Char} {last : Char}
    (rest_eq : last :: after <:+ rest) (inside : rest <:+ text) (ink : isInk last) :
    TakesLexeme text after := by
  obtain ⟨part, rfl⟩ := rest_eq.trans inside
  exact ⟨part, last, rfl, ink⟩

theorem suffix_of_readString {quote : Char} {limit : Nat} {text after : List Char}
    {pieces : List Piece} (read : readString quote limit text = some (pieces, after)) :
    quote :: after <:+ text := by
  induction limit generalizing text pieces with
  | zero => simp [readString] at read
  | succ limit ih =>
      cases text with
      | nil => simp [readString] at read
      | cons char rest =>
          rw [readString] at read
          split at read
          · rename_i closing
            obtain ⟨-, rfl⟩ := by simpa using read
            exact closing ▸ List.suffix_refl _
          · split at read
            · simp at read
            · split at read
              · split at read
                · simp at read
                · rename_i rest' escape
                  obtain ⟨⟨others, after'⟩, read', same⟩ := Option.map_eq_some_iff.1 read
                  obtain ⟨-, rfl⟩ := by simpa using same
                  exact ((ih read').trans (suffix_of_readEscape escape)).trans
                    (List.suffix_cons _ _)
              · obtain ⟨⟨others, after'⟩, read', same⟩ := Option.map_eq_some_iff.1 read
                obtain ⟨-, rfl⟩ := by simpa using same
                exact (ih read').trans (List.suffix_cons _ _)

/-- A piece of a template ends with a grave accent or an opening brace. -/
theorem takesLexeme_of_readTemplate {limit : Nat} {text after : List Char} {isValid isLast : Bool}
    (read : readTemplate limit text = some (isValid, isLast, after)) : TakesLexeme text after := by
  have shorter {text rest : List Char} (inside : rest <:+ text) (takes : TakesLexeme rest after) :
      TakesLexeme text after := by
    obtain ⟨front, rfl⟩ := inside
    exact takes.append front
  fun_induction readTemplate limit text generalizing isValid isLast with
  | case1 => simp at read
  | case2 => simp at read
  | case3 =>
      obtain ⟨-, -, rfl⟩ := by simpa using read
      exact ⟨[], _, rfl, by decide⟩
  | case4 =>
      obtain ⟨-, -, rfl⟩ := by simpa using read
      exact ⟨['$'], _, rfl, by decide⟩
  | case5 limit rest pieces isValid' rest' escape ih =>
      obtain ⟨⟨valid, last, after'⟩, read', same⟩ := Option.map_eq_some_iff.1 read
      obtain ⟨-, -, rfl⟩ := by simpa using same
      exact shorter ((suffix_of_readEscape escape).trans (List.suffix_cons _ _)) (ih read')
  | case6 => simp at read
  | case7 limit char rest escape ih =>
      obtain ⟨⟨valid, last, after'⟩, read', same⟩ := Option.map_eq_some_iff.1 read
      obtain ⟨-, -, rfl⟩ := by simpa using same
      exact shorter ((List.suffix_cons _ _).trans (List.suffix_cons _ _)) (ih read')
  | case8 limit char rest _ _ _ ih => exact shorter (List.suffix_cons _ _) (ih read)

theorem suffix_of_readRegexBody {inClass : Bool} {text after : List Char}
    (read : readRegexBody inClass text = some after) : '/' :: after <:+ text := by
  fun_induction readRegexBody inClass text with
  | case1 => simp at read
  | case2 => simp at read
  | case3 inClass char rest _ ih =>
      exact ((ih read).trans (List.suffix_cons _ _)).trans (List.suffix_cons _ _)
  | case4 => simp at read
  | case5 inClass char rest _ _ closing =>
      obtain rfl := Option.some.inj read
      obtain ⟨rfl, -⟩ := by simpa using closing
      exact List.suffix_refl _
  | case6 inClass rest _ _ _ ih => exact (ih read).trans (List.suffix_cons _ _)
  | case7 inClass rest _ _ _ _ ih => exact (ih read).trans (List.suffix_cons _ _)
  | case8 inClass char rest _ _ _ _ _ ih => exact (ih read).trans (List.suffix_cons _ _)

theorem takesLexeme_of_readRegex {text after : List Char} (read : readRegex text = some after) :
    TakesLexeme text after := by
  obtain ⟨rest, body, flagged⟩ := Option.bind_eq_some_iff.1 read
  dsimp only at flagged
  split at flagged
  · obtain rfl := Option.some.inj flagged
    have closed : TakesLexeme text rest :=
      takesLexeme_of_suffix (suffix_of_readRegexBody body) (List.suffix_refl _) (by decide)
    exact closed.trans_ink (.dropWhile (fun _ => ScriptChar.isInk_of_continuesName) rest)
  · simp at flagged

/-! ## Tokens -/

theorem signOf?_spec {text sign : List Char} (found : signOf? text = some sign) :
    text = sign ++ text.drop sign.length ∧ TakesLexeme text (text.drop sign.length) := by
  have listed := List.mem_of_find?_eq_some found
  have passes := List.find?_some found
  have starts : sign <+: text := by
    simp only [Bool.and_eq_true, List.isPrefixOf_iff_prefix] at passes
    exact passes.1
  obtain ⟨rest, rfl⟩ := starts
  have all_ink : signs.all fun sign => sign ≠ [] ∧ sign.all isInk := by decide
  obtain ⟨filled, sign_ink⟩ := of_decide_eq_true (List.all_eq_true.1 all_ink sign listed)
  replace sign_ink := List.all_eq_true.1 sign_ink
  obtain ⟨char, others, rfl⟩ := List.exists_cons_of_ne_nil filled
  rw [List.drop_left]
  refine ⟨rfl, TakesInk.lexeme (sign_ink char (by simp)) ⟨others, rfl, ?_⟩⟩
  exact fun other member => sign_ink other (by simp [member])

/-- Skipping goes forward and stops at ink or at the end of the text. -/
structure Skipped.IsFrom (text : List Char) (offset : Nat) (skipped : Skipped) : Prop where
  /-- What is behind the blanks is what the text holds there. -/
  left : LeftAt text skipped.offset skipped.after
  /-- No step goes back. -/
  offset_le : offset ≤ skipped.offset
  /-- The next character is no blank. -/
  ink : ∀ char rest, skipped.after = char :: rest → isInk char

theorem Skipped.IsFrom.further {text : List Char} {offset earlier : Nat} {skipped : Skipped}
    (later : skipped.IsFrom text offset) (le : earlier ≤ offset) : skipped.IsFrom text earlier :=
  ⟨later.left, Nat.le_trans le later.offset_le, later.ink⟩

theorem skip_isFrom {text : List Char} {mode : SkipMode} {offset : Nat} {endedLine : Bool}
    {comments : List Span} {rest : List Char} {skipped : Skipped}
    (skips : skip mode offset endedLine comments rest = some skipped)
    (left : LeftAt text offset rest) : skipped.IsFrom text offset := by
  have at_end {start stop : Nat} {ended : Bool} {spans : List Span}
      (left : LeftAt text stop []) (le : start ≤ stop) :
      Skipped.IsFrom text start ⟨[], stop, ended, spans⟩ :=
    ⟨left, le, by simp⟩
  fun_induction skip mode offset endedLine comments rest
  -- a comment that does not end
  case case3 | case9 => simp at skips
  -- the text ends
  case case1 | case2 =>
    obtain rfl := Option.some.inj skips
    exact at_end left (Nat.le_refl _)
  case case4 | case5 | case7 | case8 =>
    obtain rfl := Option.some.inj skips
    exact at_end left.tail (Nat.le_add_right _ _)
  -- a token begins
  case case6 | case14 =>
    obtain rfl := Option.some.inj skips
    refine ⟨left, Nat.le_refl _, fun char rest same => ?_⟩
    obtain ⟨rfl, -⟩ := List.cons.inj same
    apply ScriptChar.isInk_of_not_blank <;> simp_all
  -- one character is skipped
  case case10 ih | case11 ih | case15 ih | case16 ih | case18 ih =>
    exact (ih skips left.tail).further (Nat.le_add_right _ _)
  -- a sign of two characters is skipped
  case case12 sign ih | case13 sign ih | case17 sign ih =>
    obtain ⟨rfl, rfl⟩ := by simpa using sign
    exact (ih skips left.tail.tail).further (Nat.le_add_right _ _)

end Lexer

/-- A token has its place in a text, and what it hands on is the text behind it. -/
structure Token.LiesIn (text : List Char) (token : Token) : Prop where
  /-- The text behind the token. -/
  left : Text.LeftAt text token.span.stop token.after
  /-- A token that is not the end of the text is framed by ink. -/
  framed : token.kind ≠ .finish → Text.Framed text token.span
  /-- The end of the text has no characters. -/
  finished : token.kind = .finish → token.span = ⟨Text.width text, Text.width text⟩
  /-- A sign is written out in the text. -/
  sign : ∀ sign, token.kind = .sign sign →
    Text.LeftAt text token.span.start (sign.toList ++ token.after) ∧
      token.span.stop = token.span.start + Text.width sign.toList
  /-- A word is written in one of its ways. -/
  word : ∀ name isEscaped, token.kind = .word name isEscaped →
    ∃ written, Text.slice? text token.span = some written ∧
      Lexer.Spells name.toList written isEscaped

namespace Lexer

open Text

theorem rawText_append (part after : List Char) : rawText (part ++ after) after = part := by
  simp [rawText]

/-- A range over a lexeme that begins with ink is framed. -/
theorem framed_of_takesLexeme {text rest after : List Char} {offset : Nat}
    (left : LeftAt text offset rest) (ink : ∀ char rest', rest = char :: rest' → isInk char)
    (takes : TakesLexeme rest after) :
    LeftAt text (offset + width (rawText rest after)) after ∧
      Framed text ⟨offset, offset + width (rawText rest after)⟩ := by
  obtain ⟨part, last, rfl, last_ink⟩ := takes
  have split : part ++ last :: after = (part ++ [last]) ++ after := by simp
  have wide := last.utf8Size_pos
  rw [split, rawText_append, width_append]
  refine ⟨?_, ?_, ⟨offset + width part, last, after, left.drop, ?_, last_ink⟩, ?_⟩
  · rw [split] at left
    simpa using left.drop
  · obtain ⟨char, rest, cons_eq⟩ :
        ∃ char rest, part ++ last :: after = char :: rest := by cases part <;> simp
    rw [cons_eq] at left
    exact ⟨char, rest, left, ink char rest cons_eq⟩
  · simp [Nat.add_assoc]
  · simp only [width_cons, width_nil]
    omega

theorem tokenOf_liesIn {text after : List Char} {offset : Nat} {skipped : Skipped}
    {kind : TokenKind} (reached : skipped.IsFrom text offset)
    (takes : TakesLexeme skipped.after after) (not_finish : kind ≠ .finish)
    (written : ∀ sign, kind = .sign sign → skipped.after = sign.toList ++ after)
    (named : ∀ name isEscaped, kind = .word name isEscaped →
      ∃ written, skipped.after = written ++ after ∧ Spells name.toList written isEscaped) :
    (tokenOf skipped kind after).LiesIn text := by
  obtain ⟨left, framed⟩ := framed_of_takesLexeme reached.left reached.ink takes
  exact
    { left
      framed := fun _ => framed
      finished := fun finish => absurd finish not_finish
      sign := fun sign is_sign => by
        have text_eq := written sign is_sign
        refine ⟨text_eq ▸ reached.left, ?_⟩
        rw [tokenOf, text_eq, rawText_append]
      word := fun name isEscaped is_word => by
        obtain ⟨written, text_eq, spells⟩ := named name isEscaped is_word
        refine ⟨written, ?_, spells⟩
        obtain ⟨front, split, front_width⟩ := reached.left
        rw [tokenOf, text_eq, rawText_append]
        exact slice?_eq_some_iff.2 ⟨front, after, by rw [split, text_eq], front_width, rfl⟩ }

/-- The characters between quotes, with both quotes. -/
theorem takesLexeme_of_readString {quote : Char} {limit : Nat} {rest after : List Char}
    {pieces : List Piece} (ink : isInk quote)
    (read : readString quote limit rest = some (pieces, after)) :
    TakesLexeme (quote :: rest) after :=
  takesLexeme_of_suffix (suffix_of_readString read) (List.suffix_cons _ _) ink

/-- A token lies in the text from where the blanks before it end. -/
theorem readToken?_liesIn {text : List Char} {offset : Nat} {skipped : Skipped} {token : Token}
    (reached : skipped.IsFrom text offset) (read : readToken? skipped = some token) :
    token.LiesIn text ∧ token.span.start = skipped.offset := by
  obtain ⟨rest, start, ended, comments⟩ := skipped
  have tokened {kind : TokenKind} {after : List Char} (takes : TakesLexeme rest after)
      (not_finish : kind ≠ .finish) (plain : ∀ sign, kind ≠ .sign sign)
      (unnamed : ∀ name isEscaped, kind ≠ .word name isEscaped) :
      (tokenOf ⟨rest, start, ended, comments⟩ kind after).LiesIn text ∧
        (tokenOf ⟨rest, start, ended, comments⟩ kind after).span.start = start :=
    ⟨tokenOf_liesIn reached takes not_finish (fun sign is_sign => absurd is_sign (plain sign))
      fun name isEscaped is_word => absurd is_word (unnamed name isEscaped), rfl⟩
  unfold readToken? at read
  dsimp only at read
  split at read
  case h_1 =>
    obtain rfl := Option.some.inj read
    have at_end : start = width text := by simpa using reached.left.add_width
    have no_width : rawText ([] : List Char) [] = [] := rfl
    exact ⟨
      { left := by simpa [tokenOf, no_width] using reached.left
        framed := fun not_finish => absurd rfl not_finish
        finished := fun _ => by simp [tokenOf, no_width, at_end]
        sign := by simp [tokenOf]
        word := by simp [tokenOf] }, rfl⟩
  case h_2 | h_3 =>
    obtain ⟨⟨pieces, after⟩, string, rfl⟩ := Option.map_eq_some_iff.1 read
    exact tokened (takesLexeme_of_readString (by decide) string) (by simp) (by simp) (by simp)
  case h_4 =>
    obtain ⟨⟨isValid, isLast, after⟩, piece, rfl⟩ := Option.map_eq_some_iff.1 read
    exact tokened ((takesLexeme_of_readTemplate piece).append ['\x60']) (by simp) (by simp)
      (by simp)
  case h_5 =>
    split at read
    · rename_i begins
      obtain ⟨⟨name, isEscaped, after⟩, named, rfl⟩ := Option.map_eq_some_iff.1 read
      have takes := (takes_of_readName named).2 (Nat.succ_pos _) rfl begins
      exact tokened (takes.append ['#']) (by simp) (by simp) (by simp)
    · simp at read
  case h_6 =>
    split at read
    · obtain ⟨after, number, ended⟩ := Option.bind_eq_some_iff.1 read
      split at ended
      · obtain rfl := Option.some.inj ended
        exact tokened (takesLexeme_of_readNumber number) (by simp) (by simp) (by simp)
      · simp at ended
    · split at read
      · rename_i begins
        obtain ⟨⟨name, isEscaped, after⟩, named, rfl⟩ := Option.map_eq_some_iff.1 read
        refine ⟨tokenOf_liesIn reached ((takes_of_readName named).2 (Nat.succ_pos _) rfl begins)
          (by simp) (by simp) fun word escaped is_word => ?_, rfl⟩
        obtain ⟨rfl, rfl⟩ : String.ofList name = word ∧ isEscaped = escaped := by
          simpa using is_word
        simpa using spells_of_readName named
      · obtain ⟨sign, found, rfl⟩ := Option.map_eq_some_iff.1 read
        obtain ⟨split_eq, takes⟩ := signOf?_spec found
        refine ⟨tokenOf_liesIn reached takes (by simp) (fun other is_sign => ?_) (by simp), rfl⟩
        obtain rfl : String.ofList sign = other := by simpa using is_sign
        rwa [String.toList_ofList]

/-- The next token lies in the text, not before the offset from which it is read. -/
theorem next_liesIn {text rest : List Char} {offset : Nat} {token : Token} {comments : List Span}
    (left : LeftAt text offset rest) (read : next offset rest = .ok (token, comments)) :
    token.LiesIn text ∧ offset ≤ token.span.start := by
  unfold next at read
  split at read
  · simp at read
  · rename_i skipped skips
    split at read
    · simp at read
    · rename_i token' token_eq
      obtain ⟨rfl, -⟩ := by simpa using read
      have reached := skip_isFrom skips left
      obtain ⟨lies, start_eq⟩ := readToken?_liesIn reached token_eq
      exact ⟨lies, start_eq ▸ reached.offset_le⟩

/-- No token begins with the end of a line. -/
theorem lt_start_of_next {text rest : List Char} {offset : Nat} {char : Char} {token : Token}
    {comments : List Span} (left : LeftAt text offset (char :: rest))
    (ends : ScriptChar.endsLine char) (read : next offset (char :: rest) = .ok (token, comments)) :
    offset < token.span.start := by
  have wide := char.utf8Size_pos
  unfold next at read
  split at read
  · simp at read
  · rename_i skipped skips
    split at read
    · simp at read
    · rename_i token' token_eq
      obtain ⟨rfl, -⟩ := by simpa using read
      have behind : offset + char.utf8Size ≤ skipped.offset := by
        cases rest with
        | nil =>
            rw [skip, if_pos ends] at skips
            exact Option.some.inj skips ▸ Nat.le_refl _
        | cons second others =>
            rw [skip, if_pos ends] at skips
            exact (skip_isFrom skips left.tail).offset_le
      have start_eq := (readToken?_liesIn (skip_isFrom skips left) token_eq).2
      omega

/-! ## Tokens read once more -/

/-- Another lexeme read from the start of a sign is a token in its place. -/
theorem liesIn_of_sign {text after : List Char} {token other : Token} {sign : String}
    (lies : token.LiesIn text) (is_sign : token.kind = .sign sign)
    (takes : TakesLexeme (sign.toList ++ token.after) after)
    (other_eq : other.span = ⟨token.span.start,
      token.span.start + width (rawText (sign.toList ++ token.after) after)⟩)
    (after_eq : other.after = after) (not_finish : other.kind ≠ .finish)
    (not_sign : ∀ sign, other.kind ≠ .sign sign)
    (not_word : ∀ name isEscaped, other.kind ≠ .word name isEscaped) : other.LiesIn text := by
  obtain ⟨char, rest, begins, ink⟩ := (lies.framed (by simp [is_sign])).begins
  have left := (lies.sign sign is_sign).1
  have rest_eq := left.unique begins
  obtain ⟨behind, framed⟩ := framed_of_takesLexeme left
    (fun char' rest' same => (List.cons.inj (rest_eq.symm.trans same)).1 ▸ ink) takes
  exact
    { left := by rw [other_eq, after_eq]; exact behind
      framed := fun _ => by rw [other_eq]; exact framed
      finished := fun finish => absurd finish not_finish
      sign := fun sign is_sign => absurd is_sign (not_sign sign)
      word := fun name isEscaped is_word => absurd is_word (not_word name isEscaped) }

theorem regexAt_liesIn {text : List Char} {slash token : Token} (lies : slash.LiesIn text)
    (read : regexAt slash = .ok token) :
    token.LiesIn text ∧ token.span.start = slash.span.start ∧ token.kind ≠ .finish := by
  unfold regexAt at read
  split at read
  · rename_i sign is_sign
    dsimp only at read
    split at read
    · simp at read
    · rename_i after regex
      obtain rfl := Except.ok.inj read
      have takes := (takesLexeme_of_readRegex regex).append ((sign.toList ++ slash.after).take 1)
      rw [List.take_append_drop] at takes
      exact ⟨liesIn_of_sign lies is_sign takes rfl rfl (by simp) (by simp) (by simp), rfl, by simp⟩
  · simp at read

theorem templateAt_liesIn {text : List Char} {brace token : Token} (lies : brace.LiesIn text)
    (is_brace : brace.kind = .sign "\x7d") (read : templateAt brace = .ok token) :
    token.LiesIn text ∧ token.span.start = brace.span.start ∧ token.kind ≠ .finish := by
  unfold templateAt at read
  split at read
  · simp at read
  · rename_i isValid isLast after piece
    obtain rfl := Except.ok.inj read
    have takes := (takesLexeme_of_readTemplate piece).append ['\x7d']
    obtain ⟨part, last, after_eq, -⟩ := takesLexeme_of_readTemplate piece
    have inside : brace.after = (part ++ [last]) ++ after := by simp [after_eq]
    have whole : ['\x7d'] ++ brace.after = ('\x7d' :: (part ++ [last])) ++ after := by simp [after_eq]
    refine ⟨liesIn_of_sign lies is_brace takes ?_ rfl (by simp) (by simp) (by simp), rfl, by simp⟩
    rw [show "\x7d".toList = ['\x7d'] from rfl, whole, rawText_append, inside, rawText_append]

end Lexer
end Shakedown
