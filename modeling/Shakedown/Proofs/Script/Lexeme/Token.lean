import Shakedown.Proofs.Script.Lexeme.Quoted

/-!
# Tokens with another text behind them

A token is read in the same way when what stands behind it stops it from growing just as well: it
begins alike or with a slash, and no sign goes on in it that did not go on before.
-/

namespace Shakedown
namespace Lexer

open Text

/-- The text may stand behind a token in place of `after`. -/
structure Follows (lexeme after other : List Char) : Prop where
  /-- It begins alike, or with a slash. -/
  stands : StandsFor after other
  /-- Behind the end of the text there is nothing. -/
  finish : lexeme = [] → other = []
  /-- A slash would open a comment with another one. -/
  slash : lexeme = ['/'] → other.head? = after.head?
  /-- What a sign could take from it, a sign could take before. -/
  front : ∀ part, '/' ∉ part → part <+: other → part <+: after
  /-- A question mark stands apart from a number that begins with a dot. -/
  number : lexeme = ['?'] → ∀ inner outer, after = '.' :: inner → other = '.' :: outer →
    inner.head?.any ScriptChar.isDigit → outer.head?.any ScriptChar.isDigit

/-! ## Signs -/

/-- Whether a text begins with a sign that is no part of a number. -/
def fitsSign (text sign : List Char) : Bool :=
  sign.isPrefixOf text && !(sign == ['?', '.'] && ((text.drop 2).head?.any ScriptChar.isDigit))

theorem fitsSign_iff {text sign : List Char} : fitsSign text sign ↔ sign <+: text ∧
    (sign = ['?', '.'] → (text.drop 2).head?.any ScriptChar.isDigit = false) := by
  rw [fitsSign, Bool.and_eq_true, List.isPrefixOf_iff_prefix, Bool.not_eq_true', Bool.and_eq_false_imp,
    beq_iff_eq]

theorem signOf?_eq (text : List Char) : signOf? text = signs.find? (fitsSign text) :=
  rfl

/-- Only a sign of division has a slash in it, at its start, and none goes on behind a question mark
with a dot. -/
theorem sign_shape : ∀ sign ∈ signs, sign ≠ [] ∧ '/' ∉ sign.drop 1 ∧
    (['?', '.'] <+: sign → sign = ['?', '.']) := by
  decide

theorem signOf?_alike {sign after other : List Char} (found : signOf? (sign ++ after) = some sign)
    (follows : Follows sign after other) : signOf? (sign ++ other) = some sign := by
  rw [signOf?_eq] at *
  obtain ⟨fits, front, back, signs_eq, longer⟩ := List.find?_eq_some_iff_append.1 found
  obtain ⟨filled, -, dotted⟩ := sign_shape sign (by simp [signs_eq])
  obtain ⟨-, no_number⟩ := fitsSign_iff.1 fits
  refine List.find?_eq_some_iff_append.2
    ⟨fitsSign_iff.2 ⟨List.prefix_append _ _, ?_⟩, front, back, signs_eq, fun long before => ?_⟩
  · rintro rfl
    exact follows.stands.head_fails (no_number rfl) (by decide)
  -- a sign that comes first here would have come first there
  have skipped : ¬fitsSign (sign ++ after) long := by simpa using longer long before
  suffices fails : ¬fitsSign (sign ++ other) long by simpa using fails
  intro also_fits
  obtain ⟨⟨rest, text_eq⟩, no_other⟩ := fitsSign_iff.1 also_fits
  obtain ⟨-, single, -⟩ := sign_shape long (by simp [signs_eq, before])
  obtain ⟨kept, rfl, -⟩ | ⟨kept, rfl, other_eq⟩ := List.append_eq_append_iff.1 text_eq
  · refine skipped (fitsSign_iff.2 ⟨(List.prefix_append _ _).trans (List.prefix_append _ _), ?_⟩)
    rintro rfl
    exact no_number (dotted (List.prefix_append _ _))
  · have plain : '/' ∉ kept := by
      cases sign with
      | nil => contradiction
      | cons char sign => exact fun member => single (List.mem_append_right _ member)
    obtain ⟨left, rfl⟩ := follows.front kept plain ⟨rest, other_eq.symm⟩
    refine skipped (fitsSign_iff.2 ⟨⟨left, List.append_assoc ..⟩, fun long_eq => ?_⟩)
    obtain ⟨rfl, rfl⟩ | ⟨rfl, rfl⟩ : sign = ['?'] ∧ kept = ['.'] ∨ sign = ['?', '.'] ∧ kept = [] := by
      obtain ⟨rfl, -⟩ | ⟨others, rfl, behind⟩ := List.append_eq_cons_iff.1 long_eq
      · contradiction
      · obtain ⟨rfl, rfl⟩ | ⟨none_left, rfl, no_more⟩ := List.append_eq_cons_iff.1 behind.symm
        · exact .inl ⟨rfl, rfl⟩
        · obtain ⟨rfl, rfl⟩ := List.append_eq_nil_iff.1 no_more.symm
          exact .inr ⟨rfl, rfl⟩
    · refine Bool.eq_false_iff.2 fun digit => ?_
      have also_digit := follows.number rfl left rest rfl other_eq digit
      have no_digit := no_other rfl
      subst other_eq
      rw [show ((['?'] ++ (['.'] ++ rest)).drop 2) = rest from rfl, also_digit] at no_digit
      contradiction
    · exact no_number rfl

/-! ## Tokens -/

/-- A character that tells by itself what is to be read. -/
def opensQuoted (char : Char) : Bool :=
  ['\x27', '\x22', '\x60', '#'].contains char

/-- What a character begins that does not tell by itself: a number, a name or a sign. -/
theorem readToken?_plain {char : Char} {rest : List Char} {offset : Nat} {endedLine : Bool}
    {comments : List Span} (plain : opensQuoted char = false) :
    readToken? ⟨char :: rest, offset, endedLine, comments⟩ =
      if ScriptChar.isDigit char || (char == '.' && rest.head?.any ScriptChar.isDigit) then
        (readNumber (char :: rest)).bind fun after =>
          if endsNumber after then
            some (tokenOf ⟨char :: rest, offset, endedLine, comments⟩
              (.number (String.ofList (rawText (char :: rest) after))) after)
          else none
      else if namesBegin (char :: rest) then
        (readName ((char :: rest).length + 1) true (char :: rest)).map fun (name, isEscaped, after) =>
          tokenOf ⟨char :: rest, offset, endedLine, comments⟩ (.word (String.ofList name) isEscaped) after
      else
        (signOf? (char :: rest)).map fun sign =>
          tokenOf ⟨char :: rest, offset, endedLine, comments⟩ (.sign (String.ofList sign))
            ((char :: rest).drop sign.length) := by
  simp only [opensQuoted, List.contains_cons, List.contains_nil, Bool.or_false,
    Bool.or_eq_false_iff, beq_eq_false_iff_ne] at plain
  unfold readToken?
  dsimp only
  split <;> simp_all

theorem tokenOf_append {lexeme other : List Char} {offset : Nat} {endedLine : Bool}
    {comments : List Span} {kind : TokenKind} :
    tokenOf ⟨lexeme ++ other, offset, endedLine, comments⟩ kind other =
      ⟨kind, ⟨offset, offset + width lexeme⟩, endedLine, other⟩ := by
  rw [tokenOf, rawText_append]

/-- A token of a kind is read from a lexeme, whatever follows it in place of `after`. -/
def ReadsFrom (lexeme after : List Char) (kind : TokenKind) : Prop :=
  ∀ other, Follows lexeme after other → ∀ offset endedLine comments,
    readToken? ⟨lexeme ++ other, offset, endedLine, comments⟩ =
      some ⟨kind, ⟨offset, offset + width lexeme⟩, endedLine, other⟩

theorem readsFrom_string {quote : Char} (quotes : quote = '\x27' ∨ quote = '\x22')
    {rest after : List Char} {limit : Nat} {pieces : List Piece}
    (read : readString quote limit rest = some (pieces, after)) :
    ∃ lexeme, quote :: rest = lexeme ++ after ∧ ReadsFrom lexeme after
      (.string (String.ofList (Piece.textWithEscapes pieces))
        (String.ofList (rawText (quote :: rest) after))) := by
  obtain ⟨part, rfl, -, reads⟩ := readString_append read
  refine ⟨quote :: part, rfl, fun other _ offset endedLine comments => ?_⟩
  have again := reads other ((quote :: (part ++ other)).length + 1) (by simp; omega)
  rw [← List.cons_append, rawText_append]
  obtain rfl | rfl := quotes
  all_goals
    simp only [List.cons_append, readToken?, again, Option.map_some]
    rw [← List.cons_append, tokenOf_append, rawText_append]

theorem readsFrom_template {rest after : List Char} {limit : Nat} {isValid isLast : Bool}
    (read : readTemplate limit rest = some (isValid, isLast, after)) :
    ∃ lexeme, '\x60' :: rest = lexeme ++ after ∧ ReadsFrom lexeme after
      (.template (String.ofList (rawText ('\x60' :: rest) after)) isValid isLast) := by
  obtain ⟨part, rfl, -, reads⟩ := readTemplate_append read
  refine ⟨'\x60' :: part, rfl, fun other _ offset endedLine comments => ?_⟩
  have again := reads other (('\x60' :: (part ++ other)).length + 1) (by simp; omega)
  rw [← List.cons_append, rawText_append]
  simp only [List.cons_append, readToken?, again, Option.map_some]
  rw [← List.cons_append, tokenOf_append, rawText_append]

theorem endsNumber_eq (text : List Char) :
    endsNumber text = !text.head?.any (extendsName false) := by
  cases text with
  | nil => rfl
  | cons char rest => simp [endsNumber, extendsName, bne]

/-- A name that begins is taken from the text. -/
theorem readName_of_namesBegin {limit : Nat} {text after name : List Char} {isEscaped : Bool}
    (read : readName limit true text = some (name, isEscaped, after)) (long : text.length < limit)
    (begins : namesBegin text) :
    ∃ part, text = part ++ after ∧ part ≠ [] ∧ ∀ other wider, StandsFor after other →
      part.length ≤ wider → readName wider true (part ++ other) = some (name, isEscaped, other) := by
  obtain ⟨part, text_eq, reads⟩ := readName_append read long
  obtain ⟨front, last, taken, -⟩ := (takes_of_readName read).2 (by omega) rfl begins
  refine ⟨part, text_eq, ?_, reads⟩
  rintro rfl
  have longer := congrArg List.length (text_eq.symm.trans taken)
  simp at longer
  omega

theorem namesBegin_append {part : List Char} (filled : part ≠ []) (after other : List Char) :
    namesBegin (part ++ other) = namesBegin (part ++ after) := by
  cases part with
  | nil => contradiction
  | cons char part => rfl

theorem readsFrom_privateName {limit : Nat} {rest after name : List Char} {isEscaped : Bool}
    (read : readName limit true rest = some (name, isEscaped, after)) (long : rest.length < limit)
    (begins : namesBegin rest) : ∃ lexeme, '#' :: rest = lexeme ++ after ∧
      ReadsFrom lexeme after (.privateName (String.ofList name)) := by
  obtain ⟨part, rfl, filled, reads⟩ := readName_of_namesBegin read long begins
  refine ⟨'#' :: part, rfl, fun other follows offset endedLine comments => ?_⟩
  have again := reads other (('#' :: (part ++ other)).length + 1) follows.stands (by simp; omega)
  have also_begins := (namesBegin_append filled after other).trans begins
  simp only [List.cons_append, readToken?, also_begins, if_true, again, Option.map_some]
  rw [← List.cons_append, tokenOf_append]

section Plain

variable {char : Char} {rest after : List Char}

/-- A character that begins no number begins none with another text behind the lexeme. -/
theorem not_number_append {part other : List Char} (stands : StandsFor after other)
    (no_number : ¬(ScriptChar.isDigit char ||
      (char == '.' && (part ++ after).head?.any ScriptChar.isDigit))) :
    ¬(ScriptChar.isDigit char || (char == '.' && (part ++ other).head?.any ScriptChar.isDigit)) := by
  simp only [Bool.or_eq_true, Bool.and_eq_true, not_or, not_and, Bool.not_eq_true] at *
  exact ⟨no_number.1, fun dot => (stands.append part).head_fails (no_number.2 dot) (by decide)⟩

theorem readsFrom_number (plain : opensQuoted char = false)
    (number : ScriptChar.isDigit char || (char == '.' && rest.head?.any ScriptChar.isDigit))
    (read : readNumber (char :: rest) = some after) (ends : endsNumber after) :
    ∃ lexeme, char :: rest = lexeme ++ after ∧ ReadsFrom lexeme after
      (.number (String.ofList (rawText (char :: rest) after))) := by
  obtain ⟨lexeme, text_eq, reads⟩ := takesAlike_readNumber read
  have before_slash := reads ['/'] (.inr rfl)
  cases lexeme with
  | nil => contradiction
  | cons first part =>
  obtain ⟨rfl, rfl⟩ := List.cons.inj text_eq
  refine ⟨char :: part, rfl, fun other follows offset endedLine comments => ?_⟩
  have also_number : ScriptChar.isDigit char ||
      (char == '.' && (part ++ other).head?.any ScriptChar.isDigit) := by
    by_cases dot : char = '.'
    · have filled : part ≠ [] := by
        rintro rfl
        subst dot
        contradiction
      rwa [head?_append_eq filled after other]
    · simpa [dot] using number
  have also_ends : endsNumber other := by
    rw [endsNumber_eq, Bool.not_eq_true'] at *
    exact follows.stands.head_fails ends (by decide)
  rw [List.cons_append, readToken?_plain plain, if_pos also_number, ← List.cons_append,
    reads other follows.stands, Option.bind_some, if_pos also_ends, tokenOf_append, rawText_append,
    ← rawText_append (char :: part) after]
  rfl

theorem readsFrom_word {limit : Nat} {name : List Char} {isEscaped : Bool}
    (plain : opensQuoted char = false)
    (no_number : ¬(ScriptChar.isDigit char || (char == '.' && rest.head?.any ScriptChar.isDigit)))
    (begins : namesBegin (char :: rest)) (long : (char :: rest).length < limit)
    (read : readName limit true (char :: rest) = some (name, isEscaped, after)) :
    ∃ lexeme, char :: rest = lexeme ++ after ∧
      ReadsFrom lexeme after (.word (String.ofList name) isEscaped) := by
  obtain ⟨lexeme, text_eq, filled, reads⟩ := readName_of_namesBegin read long begins
  cases lexeme with
  | nil => contradiction
  | cons first part =>
  obtain ⟨rfl, rfl⟩ := List.cons.inj text_eq
  refine ⟨char :: part, rfl, fun other follows offset endedLine comments => ?_⟩
  have again := reads other ((char :: part ++ other).length + 1) follows.stands (by simp; omega)
  rw [List.cons_append, readToken?_plain plain, if_neg (not_number_append follows.stands no_number),
    if_pos (by exact begins), ← List.cons_append, again]
  exact congrArg some tokenOf_append

theorem readsFrom_sign {sign : List Char} (plain : opensQuoted char = false)
    (no_number : ¬(ScriptChar.isDigit char || (char == '.' && rest.head?.any ScriptChar.isDigit)))
    (no_name : ¬namesBegin (char :: rest)) (found : signOf? (char :: rest) = some sign) :
    ∃ lexeme, char :: rest = lexeme ++ (char :: rest).drop sign.length ∧
      ReadsFrom lexeme ((char :: rest).drop sign.length) (.sign (String.ofList sign)) := by
  obtain ⟨text_eq, -⟩ := signOf?_spec found
  obtain ⟨filled, -⟩ := sign_shape sign (List.mem_of_find?_eq_some found)
  refine ⟨sign, text_eq, fun other follows offset endedLine comments => ?_⟩
  generalize (char :: rest).drop sign.length = after at text_eq follows
  cases sign with
  | nil => contradiction
  | cons first part =>
  obtain ⟨rfl, rfl⟩ := List.cons.inj text_eq
  have also_found : signOf? (char :: part ++ other) = some (char :: part) :=
    signOf?_alike found follows
  rw [List.cons_append, readToken?_plain plain, if_neg (not_number_append follows.stands no_number),
    if_neg (by exact no_name), ← List.cons_append, also_found, Option.map_some, List.drop_left,
    tokenOf_append]

end Plain

/-- Every token is read from a lexeme that reaches up to the text behind it. -/
theorem readsFrom_of_readToken? {skipped : Skipped} {token : Token}
    (read : readToken? skipped = some token) :
    ∃ lexeme, skipped.after = lexeme ++ token.after ∧ ReadsFrom lexeme token.after token.kind ∧
      token = tokenOf skipped token.kind token.after := by
  obtain ⟨rest, start, ended, comments⟩ := skipped
  unfold readToken? at read
  dsimp only at read
  split at read
  case h_1 =>
    obtain rfl := Option.some.inj read
    refine ⟨[], rfl, fun other follows offset endedLine comments => ?_, rfl⟩
    obtain rfl := follows.finish rfl
    rfl
  case h_2 rest =>
    obtain ⟨⟨pieces, after⟩, string, rfl⟩ := Option.map_eq_some_iff.1 read
    obtain ⟨lexeme, text_eq, reads⟩ := readsFrom_string (.inl rfl) string
    exact ⟨lexeme, text_eq, reads, rfl⟩
  case h_3 rest =>
    obtain ⟨⟨pieces, after⟩, string, rfl⟩ := Option.map_eq_some_iff.1 read
    obtain ⟨lexeme, text_eq, reads⟩ := readsFrom_string (.inr rfl) string
    exact ⟨lexeme, text_eq, reads, rfl⟩
  case h_4 rest =>
    obtain ⟨⟨isValid, isLast, after⟩, piece, rfl⟩ := Option.map_eq_some_iff.1 read
    obtain ⟨lexeme, text_eq, reads⟩ := readsFrom_template piece
    exact ⟨lexeme, text_eq, reads, rfl⟩
  case h_5 rest =>
    split at read
    · rename_i begins
      obtain ⟨⟨name, isEscaped, after⟩, named, rfl⟩ := Option.map_eq_some_iff.1 read
      obtain ⟨lexeme, text_eq, reads⟩ := readsFrom_privateName named (by rw [List.length_cons]; omega) begins
      exact ⟨lexeme, text_eq, reads, rfl⟩
    · contradiction
  case h_6 char rest not_single not_double not_back not_hash =>
    have plain : opensQuoted char = false := by
      simp only [opensQuoted, List.contains_cons, List.contains_nil, Bool.or_false,
        Bool.or_eq_false_iff, beq_eq_false_iff_ne]
      exact ⟨not_single, not_double, not_back, not_hash⟩
    split at read
    · rename_i number
      obtain ⟨after, taken, ended⟩ := Option.bind_eq_some_iff.1 read
      split at ended
      · rename_i ends
        obtain rfl := Option.some.inj ended
        obtain ⟨lexeme, text_eq, reads⟩ := readsFrom_number plain number taken ends
        exact ⟨lexeme, text_eq, reads, rfl⟩
      · contradiction
    rename_i no_number
    split at read
    · rename_i begins
      obtain ⟨⟨name, isEscaped, after⟩, named, rfl⟩ := Option.map_eq_some_iff.1 read
      obtain ⟨lexeme, text_eq, reads⟩ := readsFrom_word plain no_number begins (by simp) named
      exact ⟨lexeme, text_eq, reads, rfl⟩
    · rename_i no_name
      obtain ⟨sign, found, rfl⟩ := Option.map_eq_some_iff.1 read
      obtain ⟨lexeme, text_eq, reads⟩ := readsFrom_sign plain no_number no_name found
      exact ⟨lexeme, text_eq, reads, rfl⟩

end Lexer
end Shakedown
