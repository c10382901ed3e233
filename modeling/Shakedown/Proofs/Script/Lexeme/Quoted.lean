import Shakedown.Proofs.Script.Lexeme

/-!
# Strings, templates and regular expressions with another text behind them

What has a sign at its end is read up to that sign, so any other text may stand behind it. Only the
flags of a regular expression are read as far as they go.
-/

namespace Shakedown
namespace Lexer

theorem head?_append_eq {part : List Char} (filled : part ≠ []) (after other : List Char) :
    (part ++ other).head? = (part ++ after).head? := by
  cases part with
  | nil => contradiction
  | cons char rest => rfl

/-! ## Escapes -/

/-- The digit that a text begins with, if it passes a test. -/
def headDigit? (test : Nat → Bool) (text : List Char) : Option Nat :=
  (text.head?.bind hexDigit?).filter test

theorem headDigit?_congr {test : Nat → Bool} {text other : List Char}
    (same : other.head? = text.head?) : headDigit? test other = headDigit? test text := by
  rw [headDigit?, same, headDigit?]

theorem octalValue_stop {first : Nat} {text : List Char} (ends : headDigit? (· < 8) text = none) :
    octalValue first text = (first, text) := by
  cases text with
  | nil => rfl
  | cons char rest =>
      have foreign : (hexDigit? char).filter (· < 8) = none := ends
      simp only [octalValue, foreign]

theorem octalValue_cons {first second : Nat} {char : Char} {text : List Char}
    (digit : (hexDigit? char).filter (· < 8) = some second)
    (ends : headDigit? (fun digit => digit < 8 && first < 4) text = none) :
    octalValue first (char :: text) = (8 * first + second, text) := by
  cases text with
  | nil => simp only [octalValue, digit]
  | cons other rest =>
      have foreign : (hexDigit? other).filter (fun digit => digit < 8 && first < 4) = none := ends
      simp only [octalValue, digit, foreign]

/-- The digits behind the first one are read as far as they count. -/
theorem octalValue_append {first value : Nat} {text after : List Char}
    (read : octalValue first text = (value, after)) :
    ∃ part, text = part ++ after ∧ (∀ char ∈ part, (hexDigit? char).isSome) ∧
      ∀ other, other.head? = after.head? → octalValue first (part ++ other) = (value, other) := by
  have isSome {char : Char} {test : Nat → Bool} {digit : Nat}
      (found : (hexDigit? char).filter test = some digit) : (hexDigit? char).isSome := by
    obtain ⟨digit_eq, -⟩ := Option.filter_eq_some_iff.1 found
    simp [digit_eq]
  have stop (ends : headDigit? (· < 8) text = none) : ∃ part, text = part ++ after ∧
      (∀ char ∈ part, (hexDigit? char).isSome) ∧
      ∀ other, other.head? = after.head? → octalValue first (part ++ other) = (value, other) := by
    obtain ⟨rfl, rfl⟩ := Prod.mk.inj ((octalValue_stop ends).symm.trans read)
    exact ⟨[], rfl, nofun, fun other same => octalValue_stop ((headDigit?_congr same).trans ends)⟩
  cases text with
  | nil => exact stop rfl
  | cons char rest =>
  cases second_eq : (hexDigit? char).filter (· < 8) with
  | none => exact stop second_eq
  | some second =>
  cases third_eq : headDigit? (fun digit => digit < 8 && first < 4) rest with
  | none =>
      obtain ⟨rfl, rfl⟩ := Prod.mk.inj ((octalValue_cons second_eq third_eq).symm.trans read)
      exact ⟨[char], rfl, by simpa using isSome second_eq, fun other same =>
        octalValue_cons second_eq ((headDigit?_congr same).trans third_eq)⟩
  | some third =>
      cases rest with
      | nil => contradiction
      | cons last rest =>
          have third_eq : (hexDigit? last).filter (fun digit => digit < 8 && first < 4) =
              some third := third_eq
          simp only [octalValue, second_eq, third_eq] at read
          obtain ⟨rfl, rfl⟩ := Prod.mk.inj read
          exact ⟨[char, last], rfl, by simpa using ⟨isSome second_eq, isSome third_eq⟩,
            fun other _ => by simp [octalValue, second_eq, third_eq]⟩

/-! ### All of them -/

/-- The letters of escapes that are not read by what the character is. -/
def escapeLetters : List Char :=
  ['n', 't', 'r', 'b', 'f', 'v', 'x', 'u']

/-- An escape of a character that is no letter with a meaning and does not end a line in two. -/
theorem readEscape_plain {char : Char} {rest : List Char} (plain : escapeLetters.contains char = false)
    (single : char = '\r' → rest.head?.any (· == '\n') = false) :
    readEscape (char :: rest) =
      if ScriptChar.endsLine char then some ([], true, rest)
      else if ScriptChar.isDigit char then
        if char.toNat - '0'.toNat < 8 then
          some ([.char (Char.ofNat (octalValue (char.toNat - '0'.toNat) rest).1)],
            char.toNat - '0'.toNat == 0 && !(rest.head?.any ScriptChar.isDigit),
            (octalValue (char.toNat - '0'.toNat) rest).2)
        else some ([.char char], false, rest)
      else some ([.char char], true, rest) := by
  simp only [escapeLetters, List.contains_cons, List.contains_nil, Bool.or_false,
    Bool.or_eq_false_iff, beq_eq_false_iff_ne] at plain
  unfold readEscape
  split <;> simp_all

/-- Whether a character can be behind the first one of an escape. The signs that end a piece of a
template cannot. -/
def goesOnInEscape (char : Char) : Bool :=
  (hexDigit? char).isSome || isBrace char || char == '\n'

/-- An escape of a character without a letter's meaning takes the digits of a number behind it. -/
theorem readEscape_plain_append {char : Char} {rest after : List Char} {pieces : List Piece}
    {isValid : Bool} (plain : escapeLetters.contains char = false)
    (single : char = '\r' → rest.head?.any (· == '\n') = false)
    (read : readEscape (char :: rest) = some (pieces, isValid, after)) :
    ∃ part, rest = part ++ after ∧ (∀ other ∈ part, goesOnInEscape other) ∧
      ∀ other, other.head? = after.head? →
        readEscape (char :: (part ++ other)) = some (pieces, isValid, other) := by
  have reads (behind : List Char) (begins : behind.head? = rest.head?) :=
    readEscape_plain plain fun ends : char = '\r' => begins ▸ single ends
  rw [reads rest rfl] at read
  split at read
  · rename_i ends
    obtain ⟨rfl, rfl, rfl⟩ := by simpa using read
    exact ⟨[], rfl, nofun, fun other begins => (reads other begins).trans (if_pos ends)⟩
  rename_i within
  split at read
  · rename_i digit
    split at read
    · rename_i octal
      cases value_eq : octalValue (char.toNat - '0'.toNat) rest with
      | mk value rest' =>
      rw [value_eq] at read
      obtain ⟨rfl, rfl, rfl⟩ := by simpa using read
      obtain ⟨part, rfl, digits, octals⟩ := octalValue_append value_eq
      refine ⟨part, rfl, fun other member => by simp [goesOnInEscape, digits other member],
        fun other begins => ?_⟩
      have same : (part ++ other).head? = (part ++ rest').head? := by
        simp [List.head?_append, begins]
      rw [reads _ same, if_neg within, if_pos digit, if_pos octal, octals other begins, same]
      rfl
    · rename_i large
      obtain ⟨rfl, rfl, rfl⟩ := by simpa using read
      refine ⟨[], rfl, nofun, fun other begins => (reads other begins).trans ?_⟩
      rw [if_neg within, if_pos digit, if_neg large]
  · rename_i foreign
    obtain ⟨rfl, rfl, rfl⟩ := by simpa using read
    refine ⟨[], rfl, nofun, fun other begins => (reads other begins).trans ?_⟩
    rw [if_neg within, if_neg foreign]

theorem readEscape_append {text after : List Char} {pieces : List Piece} {isValid : Bool}
    (read : readEscape text = some (pieces, isValid, after)) :
    ∃ char part, text = char :: part ++ after ∧ (∀ other ∈ part, goesOnInEscape other) ∧
      ∀ other, other.head? = after.head? →
        readEscape (char :: part ++ other) = some (pieces, isValid, other) := by
  have whole := read
  unfold readEscape at read
  split at read
  case h_1 | h_10 => contradiction
  case h_2 | h_3 | h_4 | h_5 | h_6 | h_7 =>
    obtain ⟨rfl, rfl, rfl⟩ := by simpa using read
    exact ⟨_, [], rfl, nofun, fun _ _ => rfl⟩
  case h_8 =>
    obtain ⟨rfl, rfl, rfl⟩ := by simpa using read
    exact ⟨'\r', ['\n'], rfl, List.forall_mem_singleton.2 rfl, fun _ _ => rfl⟩
  case h_9 a b rest =>
    split at read
    · rename_i a_eq b_eq
      obtain ⟨rfl, rfl, rfl⟩ := by simpa using read
      exact ⟨'x', [a, b], rfl, by simp [goesOnInEscape, a_eq, b_eq], fun other _ => by
        simp [readEscape, a_eq, b_eq]⟩
    · contradiction
  case h_11 rest =>
    obtain ⟨⟨value, rest'⟩, escape, same⟩ := Option.map_eq_some_iff.1 read
    obtain ⟨rfl, rfl, rfl⟩ := by simpa using same
    obtain ⟨part, rfl, goes_on, reads⟩ := unicodeEscape?_append escape
    refine ⟨'u', part, rfl, fun other member => ?_, fun other _ => ?_⟩
    · obtain digit | brace := goes_on other member <;> simp [goesOnInEscape, *]
    · simp [readEscape, reads]
  case h_12 char rest _ _ _ _ _ _ single _ _ _ =>
    have plain : escapeLetters.contains char = false := by
      simp_all [escapeLetters]
    have single : char = '\r' → rest.head?.any (· == '\n') = false := by
      rintro rfl
      cases rest with
      | nil => rfl
      | cons second rest => simpa using fun same => single rest rfl (by rw [same])
    obtain ⟨part, rfl, goes_on, reads⟩ := readEscape_plain_append plain single whole
    exact ⟨char, part, rfl, goes_on, reads⟩

/-- A malformed escape is none with another text behind it, if there is a character before that text
that cannot go on in it. -/
theorem readEscape_eq_none {char ending : Char} {part after : List Char}
    (fails : readEscape (char :: part ++ after) = none) (listed : ending ∈ part)
    (ends : goesOnInEscape ending = false) (other : List Char) :
    readEscape (char :: part ++ other) = none := by
  cases read : readEscape (char :: part ++ other) with
  | none => rfl
  | some escape =>
      obtain ⟨pieces, isValid, left⟩ := escape
      obtain ⟨first, taken, text_eq, goes_on, reads⟩ := readEscape_append read
      obtain ⟨rfl, rest_eq⟩ := List.cons.inj text_eq
      have within (inside : ending ∈ taken) : False := by
        rw [goes_on ending inside] at ends
        contradiction
      obtain ⟨kept, rfl, -⟩ | ⟨kept, rfl, rfl⟩ := List.append_eq_append_iff.1
        (show part ++ other = taken ++ left from rest_eq)
      · exact (within (List.mem_append_left _ listed)).elim
      · have behind : kept ≠ [] := by
          rintro rfl
          exact within (by simpa using listed)
        have found := reads (kept ++ after) (head?_append_eq behind other after)
        rw [List.cons_append, List.append_assoc, ← List.cons_append, found] at fails
        contradiction

/-! ## Strings -/

theorem readString_append {quote : Char} {limit : Nat} {text after : List Char} {pieces : List Piece}
    (read : readString quote limit text = some (pieces, after)) :
    ∃ part, text = part ++ after ∧ part ≠ [] ∧ ∀ other wider, part.length ≤ wider →
      readString quote wider (part ++ other) = some (pieces, other) := by
  fun_induction readString quote limit text generalizing pieces with
  | case1 => contradiction
  | case2 => contradiction
  | case3 limit rest =>
      obtain ⟨rfl, rfl⟩ := Prod.mk.inj (Option.some.inj read)
      refine ⟨[quote], rfl, List.cons_ne_nil _ _, fun other wider le => ?_⟩
      obtain ⟨wider, rfl⟩ := exists_round (List.cons_ne_nil _ _) le
      simp [readString]
  | case4 => contradiction
  | case5 => contradiction
  | case6 limit rest pieces _ rest' escape not_quote _ ih =>
      obtain ⟨⟨others, left⟩, behind, same⟩ := Option.map_eq_some_iff.1 read
      obtain ⟨rfl, rfl⟩ := Prod.mk.inj same
      obtain ⟨part, rfl, filled, reads⟩ := ih behind
      obtain ⟨char, taken, rfl, -, escapes⟩ := readEscape_append escape
      refine ⟨'\\' :: (char :: taken ++ part), by simp, List.cons_ne_nil _ _, fun other wider le => ?_⟩
      obtain ⟨wider, rfl⟩ := exists_round (List.cons_ne_nil _ _) le
      simp only [List.length_cons, List.length_append] at le
      have escaped := escapes (part ++ other) (head?_append_eq filled left other)
      rw [List.cons_append, List.append_assoc, readString, if_neg not_quote, if_neg (by decide),
        if_pos rfl, escaped]
      simp only [reads other wider (by omega), Option.map_some]
  | case7 limit char rest not_quote within plain ih =>
      obtain ⟨⟨others, left⟩, behind, same⟩ := Option.map_eq_some_iff.1 read
      obtain ⟨rfl, rfl⟩ := Prod.mk.inj same
      obtain ⟨part, rfl, filled, reads⟩ := ih behind
      refine ⟨char :: part, rfl, List.cons_ne_nil _ _, fun other wider le => ?_⟩
      obtain ⟨wider, rfl⟩ := exists_round (List.cons_ne_nil _ _) le
      simp only [List.length_cons] at le
      rw [List.cons_append, readString, if_neg not_quote, if_neg within, if_neg plain,
        reads other wider (by omega)]
      rfl

/-! ## Templates -/

theorem readTemplate_append {limit : Nat} {text after : List Char} {isValid isLast : Bool}
    (read : readTemplate limit text = some (isValid, isLast, after)) :
    ∃ part, text = part ++ after ∧ (∃ ending ∈ part, goesOnInEscape ending = false) ∧
      ∀ other wider, part.length ≤ wider →
        readTemplate wider (part ++ other) = some (isValid, isLast, other) := by
  fun_induction readTemplate limit text generalizing isValid isLast with
  | case1 => contradiction
  | case2 => contradiction
  | case3 limit rest =>
      obtain ⟨rfl, rfl, rfl⟩ := by simpa using read
      refine ⟨['\x60'], rfl, ⟨'\x60', by decide⟩, fun other wider le => ?_⟩
      obtain ⟨wider, rfl⟩ := exists_round (List.cons_ne_nil _ _) le
      rfl
  | case4 limit rest =>
      obtain ⟨rfl, rfl, rfl⟩ := by simpa using read
      refine ⟨['$', '\x7b'], rfl, ⟨'$', by decide⟩, fun other wider le => ?_⟩
      obtain ⟨wider, rfl⟩ := exists_round (List.cons_ne_nil _ _) le
      rfl
  | case5 limit rest pieces valid rest' escape ih =>
      obtain ⟨⟨restValid, last, left⟩, behind, same⟩ := Option.map_eq_some_iff.1 read
      obtain ⟨rfl, rfl, rfl⟩ := by simpa using same
      obtain ⟨part, rfl, ended, reads⟩ := ih behind
      obtain ⟨char, taken, rfl, -, escapes⟩ := readEscape_append escape
      obtain ⟨ending, listed, ends⟩ := ended
      refine ⟨'\\' :: (char :: taken ++ part), by simp, ⟨ending, by simp [listed], ends⟩,
        fun other wider le => ?_⟩
      obtain ⟨wider, rfl⟩ := exists_round (List.cons_ne_nil _ _) le
      simp only [List.length_cons, List.length_append] at le
      have begins := head?_append_eq (List.ne_nil_of_mem listed) left other
      have escaped : readEscape (char :: (taken ++ (part ++ other))) = _ := escapes _ begins
      simp only [List.cons_append, List.append_assoc, readTemplate, escaped,
        reads other wider (by omega), Option.map_some]
  | case6 => contradiction
  | case7 limit char rest escape ih =>
      obtain ⟨⟨restValid, last, left⟩, behind, same⟩ := Option.map_eq_some_iff.1 read
      obtain ⟨rfl, rfl, rfl⟩ := by simpa using same
      obtain ⟨part, rfl, ⟨ending, listed, ends⟩, reads⟩ := ih behind
      refine ⟨'\\' :: char :: part, by simp, ⟨ending, by simp [listed], ends⟩,
        fun other wider le => ?_⟩
      obtain ⟨wider, rfl⟩ := exists_round (List.cons_ne_nil _ _) le
      simp only [List.length_cons] at le
      have fails := readEscape_eq_none escape listed ends other
      rw [List.cons_append, List.cons_append, readTemplate, ← List.cons_append, fails]
      simp only [reads other wider (by omega), Option.map_some]
  | case8 limit char rest not_end not_opening not_escape ih =>
      obtain ⟨part, rfl, ⟨ending, listed, ends⟩, reads⟩ := ih read
      refine ⟨char :: part, rfl, ⟨ending, by simp [listed], ends⟩, fun other wider le => ?_⟩
      obtain ⟨wider, rfl⟩ := exists_round (List.cons_ne_nil _ _) le
      simp only [List.length_cons] at le
      rw [List.cons_append, readTemplate, reads other wider (by omega)]
      · exact not_end
      · cases part with
        | nil => contradiction
        | cons second part =>
            rintro others rfl same
            exact not_opening _ rfl (by rw [List.cons_append, (List.cons.inj same).1])
      · exact not_escape

/-! ## Regular expressions -/

theorem readRegexBody_append {inClass : Bool} {text after : List Char}
    (read : readRegexBody inClass text = some after) :
    ∃ part, text = part ++ after ∧ part ≠ [] ∧
      ∀ other, readRegexBody inClass (part ++ other) = some other := by
  fun_induction readRegexBody inClass text with
  | case1 => contradiction
  | case2 => contradiction
  | case3 inClass char rest within ih =>
      obtain ⟨part, rfl, -, reads⟩ := ih read
      exact ⟨'\\' :: char :: part, rfl, List.cons_ne_nil _ _, fun other => by
        rw [List.cons_append, List.cons_append, readRegexBody, if_neg within, reads other]⟩
  | case4 => contradiction
  | case5 inClass char rest plain within closes =>
      obtain rfl := Option.some.inj read
      obtain ⟨rfl, outside⟩ := by simpa using closes
      refine ⟨['/'], rfl, List.cons_ne_nil _ _, fun other => ?_⟩
      rw [List.cons_append, readRegexBody, if_neg within, if_pos closes]
      · rfl
      · simp
  | case6 inClass rest plain within inside ih =>
      obtain ⟨part, rfl, -, reads⟩ := ih read
      exact ⟨'[' :: part, rfl, List.cons_ne_nil _ _, fun other => by
        simp [readRegexBody, within, reads other]⟩
  | case7 inClass rest plain within inside _ ih =>
      obtain ⟨part, rfl, -, reads⟩ := ih read
      exact ⟨']' :: part, rfl, List.cons_ne_nil _ _, fun other => by
        simp [readRegexBody, within, reads other]⟩
  | case8 inClass char rest plain within inside not_opening not_closing ih =>
      obtain ⟨part, rfl, filled, reads⟩ := ih read
      refine ⟨char :: part, rfl, List.cons_ne_nil _ _, fun other => ?_⟩
      rw [List.cons_append, readRegexBody, if_neg within, if_neg inside, if_neg not_opening,
        if_neg not_closing, reads other]
      cases part with
      | nil => contradiction
      | cons second part => exact fun _ _ escapes _ => plain _ _ escapes rfl

theorem takesAlike_readRegex {text after : List Char} (read : readRegex text = some after) :
    TakesAlike readRegex text after := by
  obtain ⟨rest, body, flagged⟩ := Option.bind_eq_some_iff.1 read
  dsimp only at flagged
  split at flagged
  case isFalse => contradiction
  rename_i fits
  obtain ⟨front, rfl, -, reads⟩ := readRegexBody_append body
  have rest_eq := (List.takeWhile_append_dropWhile (p := ScriptChar.continuesName) (l := rest)).symm
  have all : ∀ char ∈ rest.takeWhile ScriptChar.continuesName, ScriptChar.continuesName char :=
    fun char member => List.all_eq_true.1 List.all_takeWhile char member
  have ends := head_dropWhile ScriptChar.continuesName rest
  generalize rest.takeWhile ScriptChar.continuesName = flags at *
  generalize rest.dropWhile ScriptChar.continuesName = behind at *
  obtain rfl := Option.some.inj flagged
  subst rest_eq
  refine ⟨front ++ flags, (List.append_assoc ..).symm, fun other stands => ?_⟩
  obtain ⟨taken, left⟩ := span_append all (stands.head_fails ends (by decide))
  rw [List.append_assoc, readRegex, reads, Option.bind_some]
  dsimp only
  rw [taken, left, if_pos]
  simp only [Bool.and_eq_true, bne_iff_ne] at fits ⊢
  refine ⟨fits.1, fun escapes => ?_⟩
  obtain same | begins := stands
  · exact fits.2 (same ▸ escapes)
  · rw [begins] at escapes
    contradiction

end Lexer
end Shakedown
