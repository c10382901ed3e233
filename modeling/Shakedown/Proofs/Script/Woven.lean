import Shakedown.Proofs.Edit.Meaning
import Shakedown.Proofs.Script.Lexeme.Gap

/-!
# Remarks in front of tokens

Comments that are put into a text in front of its tokens leave every token what it is. Only the sign
of division is not read in the same way in front of a comment: it opens another one with the slash of
the comment.
-/

namespace Shakedown
namespace Lexer

open Text

/-! ## Woven texts -/

/-- A text with others put in, each in front of the character at its offset. -/
def woven (put : Nat → List Char) (offset : Nat) (text : List Char) : List Char :=
  Meaning.read [] put offset text ++ put (offset + width text)

section Woven

variable {put : Nat → List Char} {offset : Nat} {text front back : List Char} {char : Char}

theorem woven_nil : woven put offset [] = put offset :=
  rfl

theorem woven_cons :
    woven put offset (char :: text) = put offset ++ char :: woven put (offset + char.utf8Size) text := by
  simp [woven, Meaning.read, Nat.add_assoc]

/-- Where nothing is put, the text stays. -/
theorem woven_bare (bare : ∀ place, offset ≤ place → place < offset + width front → put place = []) :
    woven put offset (front ++ back) = front ++ woven put (offset + width front) back := by
  have front_eq : Meaning.read [] put offset front = front :=
    Meaning.read_eq_self fun place from_ before => ⟨rfl, bare place from_ before⟩
  rw [woven, Meaning.read_append, front_eq, width_append, woven, List.append_assoc, Nat.add_assoc]

/-- Where nothing is put inside, the text stays behind what is put in front of it. -/
theorem woven_whole (filled : front ≠ [])
    (whole : ∀ place, offset < place → place < offset + width front → put place = []) :
    woven put offset (front ++ back) =
      put offset ++ (front ++ woven put (offset + width front) back) := by
  have front_eq : Meaning.read [] put offset front = put offset ++ front :=
    Meaning.read_stretch filled (fun _ _ _ => rfl) whole
  rw [woven, Meaning.read_append, front_eq, width_append, woven]
  simp only [List.append_assoc, Nat.add_assoc]

theorem woven_congr {also_put : Nat → List Char}
    (same : ∀ place, offset ≤ place → also_put place = put place) :
    woven also_put offset text = woven put offset text := by
  induction text generalizing offset with
  | nil => exact same offset (Nat.le_refl _)
  | cons char rest ih =>
      rw [woven_cons, woven_cons, same offset (Nat.le_refl _), ih fun place from_ => same place (by omega)]

/-- What else is put in front of all. -/
theorem woven_lead {also_put : Nat → List Char} {lead : List Char}
    (first : also_put offset = lead ++ put offset)
    (same : ∀ place, offset < place → also_put place = put place) :
    woven also_put offset text = lead ++ woven put offset text := by
  cases text with
  | nil => exact first
  | cons char rest =>
      have wide := char.utf8Size_pos
      rw [woven_cons, woven_cons, first, woven_congr fun place from_ => same place (by omega),
        List.append_assoc]

/-- Where something is put that begins with a slash, the text does. -/
theorem bare_or_slash (opens : put offset = [] ∨ (put offset).head? = some '/') (text : List Char) :
    put offset = [] ∨ (woven put offset text).head? = some '/' := by
  refine opens.imp_right fun opens => ?_
  cases text with
  | nil => exact opens
  | cons char rest => rw [woven_cons, List.head?_append, opens]; rfl

theorem head?_woven (bare : put offset = []) : (woven put offset text).head? = text.head? := by
  cases text with
  | nil => rw [woven_nil, bare]
  | cons char rest => rw [woven_cons, bare]; rfl

/-- Up to a slash the woven text is the text itself. -/
theorem front_of_woven (opens : ∀ place, put place = [] ∨ (put place).head? = some '/')
    {part : List Char} (plain : '/' ∉ part) (taken : part <+: woven put offset text) :
    part <+: text := by
  induction part generalizing offset text with
  | nil => exact List.nil_prefix
  | cons first part ih =>
      rw [List.mem_cons, not_or] at plain
      obtain ⟨rest, woven_eq⟩ := taken
      have begins : (woven put offset text).head? = some first := by rw [← woven_eq]; rfl
      obtain bare | slash := bare_or_slash (opens offset) text
      · cases text with
        | nil =>
            rw [woven_nil, bare] at woven_eq
            contradiction
        | cons char text =>
            rw [woven_cons, bare] at woven_eq
            obtain ⟨rfl, rest_eq⟩ := List.cons.inj woven_eq
            exact (List.prefix_cons_inj _).2 (ih plain.2 ⟨rest, rest_eq⟩)
      · exact absurd (Option.some.inj (slash.symm.trans begins)) plain.1

end Woven

/-- What is put into a text are comments that end on their line. -/
structure AreRemarks (put : Nat → List Char) : Prop where
  /-- They are skipped where a token may begin. -/
  skips : ∀ place, Skips (put place) false
  /-- They begin with the slash of a comment. -/
  opens : ∀ place, put place = [] ∨ (put place).head? = some '/'

namespace AreRemarks

variable {put : Nat → List Char} {offset : Nat} {text lexeme after : List Char}

/-- A woven text may stand behind a token, with nothing put at the end of the text, behind a slash or
into a number behind a question mark. -/
theorem follows (remarks : AreRemarks put)
    (finish : lexeme = [] → after = [] ∧ put offset = [])
    (slash : lexeme = ['/'] → put offset = [])
    (number : lexeme = ['?'] → ∀ inner, after = '.' :: inner → inner.head?.any ScriptChar.isDigit →
      put (offset + 1) = []) : Follows lexeme after (woven put offset after) where
  stands := (bare_or_slash (remarks.opens offset) after).imp_left head?_woven
  finish := by
    intro empty
    obtain ⟨rfl, bare⟩ := finish empty
    exact bare
  slash := fun sign => head?_woven (slash sign)
  front := fun _ plain taken => front_of_woven remarks.opens plain taken
  number := by
    rintro sign inner outer rfl other_eq digit
    have bare : put offset = [] := (bare_or_slash (remarks.opens offset) ('.' :: inner)).resolve_right
      fun slash => by simp [other_eq] at slash
    rw [woven_cons, bare] at other_eq
    obtain rfl := (List.cons.inj other_eq).2
    have dot : '.'.utf8Size = 1 := rfl
    rwa [dot, head?_woven (number sign inner rfl digit)]

end AreRemarks

/-! ## Single tokens -/

theorem Follows.refl {lexeme after : List Char} (filled : lexeme ≠ []) : Follows lexeme after after where
  stands := .refl after
  finish := fun empty => absurd empty filled
  slash := fun _ => rfl
  front := fun _ _ taken => taken
  number := by
    rintro - inner outer rfl same digit
    obtain rfl := (List.cons.inj same).2
    exact digit

/-- A lexeme of one character that begins nothing else is a sign. -/
theorem ReadsFrom.kind_eq {char : Char} {after : List Char} {kind : TokenKind}
    (reads : ReadsFrom [char] after kind) (plain : opensQuoted char = false)
    (no_digit : ScriptChar.isDigit char = false) (no_dot : char ≠ '.')
    (no_name : ∀ rest, namesBegin (char :: rest) = false) :
    kind = .sign (String.ofList [char]) := by
  have read := reads after (.refl (List.cons_ne_nil _ _)) 0 false []
  rw [List.singleton_append, readToken?_plain plain, if_neg (by simp [no_digit, no_dot]),
    if_neg (by simp [no_name])] at read
  obtain ⟨sign, found, token_eq⟩ := Option.map_eq_some_iff.1 read
  obtain ⟨kind_eq, -, -, after_eq⟩ := Token.mk.inj token_eq
  obtain ⟨text_eq, -⟩ := signOf?_spec found
  rw [after_eq] at text_eq
  obtain rfl := List.append_cancel_right (show [char] ++ after = sign ++ after from text_eq)
  exact kind_eq.symm

/-- The remarks keep apart from the end of the text, of a slash, and of a question mark before a
number. -/
structure Clear (put : Nat → List Char) (token : Token) : Prop where
  /-- Nothing is put at the end of the text. -/
  finish : token.kind = .finish → put token.span.stop = []
  /-- Nothing is put behind the sign of division. -/
  slash : token.kind = .sign "/" → put token.span.stop = []
  /-- Nothing is put into a number. -/
  number : token.kind = .sign "?" → ∀ inner, token.after = '.' :: inner →
    inner.head?.any ScriptChar.isDigit → put (token.span.stop + 1) = []

/-- Only the end of the text has no lexeme, and there is nothing behind it. -/
theorem Lexes.finish {text rest gap lexeme : List Char} {offset : Nat} {token : Token}
    (lexes : Lexes offset rest token gap lexeme) (lies : token.LiesIn text) (empty : lexeme = []) :
    token.kind = .finish ∧ token.after = [] := by
  subst empty
  have stop_eq : token.span.stop = token.span.start := by rw [lexes.span_eq]; simp
  have finish : token.kind = .finish :=
    Decidable.byContradiction fun live => by have := (lies.framed live).proper; omega
  have left := lies.left.add_width
  rw [lies.finished finish] at left
  exact ⟨finish, eq_nil_of_width_eq_zero (by simpa using left)⟩

section Reading

variable {put : Nat → List Char} {text rest gap lexeme : List Char} {offset : Nat} {token : Token}

theorem Lexes.finish_clear (lexes : Lexes offset rest token gap lexeme) (lies : token.LiesIn text)
    (clear : Clear put token) (empty : lexeme = []) : token.after = [] ∧ put token.span.stop = [] :=
  (lexes.finish lies empty).symm.imp_right clear.finish

theorem Lexes.follows (remarks : AreRemarks put) (lexes : Lexes offset rest token gap lexeme)
    (lies : token.LiesIn text) (clear : Clear put token) :
    Follows lexeme token.after (woven put token.span.stop token.after) := by
  refine remarks.follows (lexes.finish_clear lies clear) ?_ ?_
  · rintro rfl
    exact clear.slash (lexes.reads.kind_eq rfl rfl (by decide) fun _ => rfl)
  · rintro rfl
    exact clear.number (lexes.reads.kind_eq rfl rfl (by decide) fun _ => rfl)

/-- Around a lexeme nothing is put but in front of it and further behind. -/
theorem Lexes.woven_eq (lexes : Lexes offset rest token gap lexeme) (lies : token.LiesIn text)
    (clear : Clear put token) (bare : ∀ place, offset ≤ place → place < token.span.stop →
      place ≠ token.span.start → put place = []) :
    woven put offset rest =
      gap ++ (put token.span.start ++ (lexeme ++ woven put token.span.stop token.after)) := by
  have start_eq : token.span.start = offset + width gap := by rw [lexes.span_eq]
  have stop_eq : token.span.stop = token.span.start + width lexeme := by rw [lexes.span_eq]
  rw [lexes.text_eq, woven_bare, ← start_eq]
  · congr 1
    cases lexeme with
    | nil =>
        obtain ⟨after_eq, none⟩ := lexes.finish_clear lies clear rfl
        rw [after_eq, woven_nil, none]
        simp [woven_nil]
    | cons char part =>
        rw [stop_eq]
        refine woven_whole (List.cons_ne_nil _ _) fun place behind before => ?_
        exact bare place (by omega) (by omega) (by omega)
  · exact fun place from_ before => bare place from_ (by omega) (by omega)

/-- The gap is skipped in front of what is put. -/
theorem Lexes.skipsTo_gap (lexes : Lexes offset rest token gap lexeme) (lies : token.LiesIn text)
    (clear : Clear put token) : SkipsTo gap (put token.span.start ++
      (lexeme ++ woven put token.span.stop token.after)) token.opensLine := by
  refine fun offset endedLine comments => lexes.clears _ (fun empty => ?_) 0 offset endedLine comments
  obtain ⟨rfl, after_eq⟩ := List.append_eq_nil_iff.1 empty
  have none := (lexes.finish_clear lies clear rfl).2
  have stop_eq : token.span.stop = token.span.start := by rw [lexes.span_eq]; simp
  rw [after_eq, List.nil_append, woven_nil, ← stop_eq, none]
  rfl

/-- A token is read behind remarks as it was read without them. -/
theorem next_woven (remarks : AreRemarks put) {lead : List Char} {ends : Bool} {comments : List Span}
    (skips : Skips lead ends) (left : LeftAt text offset rest)
    (read : next offset rest = .ok (token, comments)) (clear : Clear put token)
    (bare : ∀ place, offset ≤ place → place < token.span.stop → place ≠ token.span.start →
      put place = []) (start : Nat) :
    ∃ other comments, next start (lead ++ woven put offset rest) = .ok (other, comments) ∧
      other.kind = token.kind ∧ other.opensLine = (ends || token.opensLine) ∧
      other.after = woven put token.span.stop token.after := by
  obtain ⟨gap, lexeme, lexes⟩ := exists_lexes read
  have lies := (next_liesIn left read).1
  have skips_all := (skips.to _).append
    ((lexes.skipsTo_gap lies clear).append ((remarks.skips token.span.start).to _))
  obtain ⟨comments, read⟩ := lexes.next skips_all (lexes.follows remarks lies clear) start
  rw [lexes.woven_eq lies clear bare]
  simp only [List.append_assoc, Bool.or_false] at read
  exact ⟨_, comments, read, rfl, rfl, rfl⟩

end Reading

end Lexer
end Shakedown
