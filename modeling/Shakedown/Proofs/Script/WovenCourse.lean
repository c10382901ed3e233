import Shakedown.Proofs.Script.Program
import Shakedown.Proofs.Script.Woven

/-!
# Courses in woven texts

With remarks in front of the tokens that are passed, reading takes the same course: a token that is
read once more is read again in the same way, and each token is followed by the same one.
-/

namespace Shakedown

theorem Token.LiesIn.start_le {text : List Char} {token : Token} (lies : token.LiesIn text) :
    token.span.start ≤ token.span.stop := by
  by_cases finish : token.kind = .finish
  · exact Nat.le_of_eq (by rw [lies.finished finish])
  · exact Nat.le_of_lt (lies.framed finish).proper

namespace Lexer

open Text

/-! ## Tokens read once more -/

/-- A token that is read in the place of another one goes on where that one ended, and is read again
wherever the text goes on in the same way. -/
structure Extends (token other : Token) (part : List Char) : Prop where
  /-- There is more of it. -/
  filled : part ≠ []
  /-- That much is taken from the text. -/
  after_eq : token.after = part ++ other.after
  /-- So the token has its place. -/
  span_eq : other.span = ⟨token.span.start, token.span.stop + width part⟩
  /-- The line is the same. -/
  opensLine_eq : other.opensLine = token.opensLine
  /-- It is read in another text. -/
  again : ∀ first rest, first.kind = token.kind → first.after = part ++ rest →
    StandsFor other.after rest → ∃ second, Reread first second ∧ second.kind = other.kind ∧
      second.after = rest ∧ second.opensLine = first.opensLine

/-- A regular expression goes on behind the sign that its start was read as. -/
theorem readRegex_behind {front text after : List Char} (front_eq : front = [] ∨ front = ['='])
    (read : readRegex (front ++ text) = some after) :
    ∃ part, part ≠ [] ∧ text = part ++ after ∧ ∀ other, StandsFor after other →
      readRegex (front ++ (part ++ other)) = some other := by
  obtain ⟨taken, text_eq, reads⟩ := takesAlike_readRegex read
  have before_slash := reads ['/'] (.inr rfl)
  obtain rfl | rfl := front_eq
  · refine ⟨taken, ?_, text_eq, reads⟩
    rintro rfl
    contradiction
  · cases taken with
    | nil => contradiction
    | cons char part =>
        obtain ⟨rfl, rfl⟩ := List.cons.inj (show '=' :: text = char :: (part ++ after) from text_eq)
        refine ⟨part, ?_, rfl, reads⟩
        rintro rfl
        contradiction

theorem Reread.ne_finish {token other : Token} (reread : Reread token other) :
    token.kind ≠ .finish := by
  cases reread with
  | regex is_slash => obtain slash | slash := is_slash <;> simp [slash]
  | template is_brace => simp [is_brace]

theorem exists_extends_regex {text : List Char} {slash token : Token} (lies : slash.LiesIn text)
    (is_slash : slash.kind = .sign "/" ∨ slash.kind = .sign "/=") (lexed : regexAt slash = .ok token) :
    ∃ part, Extends slash token part := by
  obtain ⟨sign, is_sign, front, sign_eq, front_eq⟩ : ∃ sign, slash.kind = .sign sign ∧
      ∃ front, sign.toList = '/' :: front ∧ (front = [] ∨ front = ['=']) := by
    obtain divides | assigns := is_slash
    · exact ⟨_, divides, [], rfl, .inl rfl⟩
    · exact ⟨_, assigns, ['='], rfl, .inr rfl⟩
  have stop_eq := (lies.sign _ is_sign).2
  rw [regexAt, is_sign] at lexed
  simp only [sign_eq, List.cons_append, List.drop_succ_cons, List.drop_zero] at lexed
  split at lexed
  · contradiction
  rename_i after regex
  obtain rfl := Except.ok.inj lexed
  obtain ⟨part, filled, after_eq, reads⟩ := readRegex_behind front_eq regex
  have raw_eq (rest : List Char) : rawText ('/' :: (front ++ (part ++ rest))) rest =
      '/' :: (front ++ part) := by
    rw [← List.append_assoc, ← List.cons_append, rawText_append]
  refine ⟨part, filled, after_eq, ?_, rfl, fun first rest kind_eq rest_eq stands => ?_⟩
  · simp [after_eq, raw_eq, stop_eq, sign_eq, Nat.add_assoc]
  · have again : regexAt first = .ok ⟨.regex (String.ofList ('/' :: (front ++ part))),
        ⟨first.span.start, first.span.start + width ('/' :: (front ++ part))⟩, first.opensLine,
        rest⟩ := by
      rw [regexAt, kind_eq, is_sign]
      simp only [sign_eq, List.cons_append, List.drop_succ_cons, List.drop_zero, rest_eq,
        reads rest stands, raw_eq]
    exact ⟨_, .regex (kind_eq ▸ is_slash) again, by simp [after_eq, raw_eq], rfl, rfl⟩

theorem exists_extends_template {text : List Char} {brace token : Token} (lies : brace.LiesIn text)
    (is_brace : brace.kind = .sign "\x7d") (lexed : templateAt brace = .ok token) :
    ∃ part, Extends brace token part := by
  have stop_eq := (lies.sign _ is_brace).2
  unfold templateAt at lexed
  split at lexed
  · contradiction
  rename_i isValid isLast after piece
  obtain rfl := Except.ok.inj lexed
  obtain ⟨part, after_eq, ⟨ending, listed, -⟩, reads⟩ := readTemplate_append piece
  refine ⟨part, List.ne_nil_of_mem listed, after_eq, ?_, rfl, fun first rest kind_eq rest_eq _ => ?_⟩
  · simp [after_eq, rawText_append, stop_eq, Nat.add_assoc]
  · have again : templateAt first = .ok ⟨.template (String.ofList ('\x7d' :: part)) isValid isLast,
        ⟨first.span.start, first.span.start + width ('\x7d' :: part)⟩, first.opensLine, rest⟩ := by
      rw [templateAt, rest_eq, reads rest _ (by simp; omega)]
      simp only [rawText_append]
    exact ⟨_, .template (kind_eq.trans is_brace) again, by simp [after_eq, rawText_append], rfl, rfl⟩

theorem Reread.exists_extends {text : List Char} {token other : Token} (reread : Reread token other)
    (lies : token.LiesIn text) : ∃ part, Extends token other part := by
  cases reread with
  | regex is_slash lexed => exact exists_extends_regex lies is_slash lexed
  | template is_brace lexed => exact exists_extends_template lies is_brace lexed

/-! ## Courses -/

/-- A number that begins with a dot has a digit behind it. -/
theorem reaches_of_next_dot {offset : Nat} {inner : List Char} {token : Token} {comments : List Span}
    (digit : inner.head?.any ScriptChar.isDigit)
    (read : next offset ('.' :: inner) = .ok (token, comments)) :
    token.span.start = offset ∧ offset + 2 ≤ token.span.stop := by
  have skip_eq : skip .between offset false [] ('.' :: inner) = some ⟨'.' :: inner, offset, false, []⟩ :=
    skip_of_beginsToken (by cases inner <;> rfl)
  rw [next, skip_eq] at read
  dsimp only at read
  rw [readToken?_plain rfl, if_pos (by simp [digit])] at read
  split at read
  · contradiction
  rename_i token' number
  obtain ⟨rfl, -⟩ := Prod.mk.inj (Except.ok.inj read)
  obtain ⟨after, taken, ended⟩ := Option.bind_eq_some_iff.1 number
  obtain ⟨part, text_eq, reads⟩ := takesAlike_readNumber taken
  have before_slash := reads ['/'] (.inr rfl)
  split at ended
  · obtain rfl := Option.some.inj ended
    refine ⟨rfl, ?_⟩
    rw [tokenOf, text_eq, rawText_append]
    -- neither nothing nor the dot alone is a number
    cases part with
    | nil => contradiction
    | cons first part =>
        cases part with
        | nil =>
            obtain ⟨rfl, -⟩ := List.cons.inj (show '.' :: inner = first :: after from text_eq)
            contradiction
        | cons second part =>
            have := first.utf8Size_pos
            have := second.utf8Size_pos
            simp only [width_cons]
            omega
  · contradiction

variable {text : List Char} {put : Nat → List Char} {token last : Token} {taken : List Token}

namespace Course

/-- A passed token begins with the first one or behind it. -/
theorem apart (course : Course token taken last) (lies : token.LiesIn text) :
    ∀ passed ∈ taken, passed.span.start = token.span.start ∨ token.span.stop ≤ passed.span.start := by
  induction course with
  | here => exact nofun
  | again reread course ih =>
      obtain ⟨part, more⟩ := reread.exists_extends lies
      intro passed listed
      have := ih (reread.liesIn lies).1 passed listed
      rw [more.span_eq] at this
      dsimp only at this
      omega
  | pass live lexed course ih =>
      obtain ⟨second_lies, start_le⟩ := next_liesIn lies.left lexed
      refine List.forall_mem_cons.2 ⟨.inl rfl, fun passed listed => .inr ?_⟩
      have := second_lies.start_le
      have := ih second_lies passed listed
      omega

/-- Nothing is passed at the end of the text. -/
theorem eq_nil_of_finish (course : Course token taken last) (finish : token.kind = .finish) :
    taken = [] := by
  cases course with
  | here => rfl
  | again reread => exact absurd finish reread.ne_finish
  | pass live => exact absurd finish live

end Course

/-- From an offset on, whatever is put is put where a token begins that is passed, and not behind a sign
of division. -/
structure Placed (put : Nat → List Char) (offset : Nat) (taken : List Token) : Prop where
  /-- Something is put only where a token begins. -/
  starts : ∀ place, offset ≤ place → put place ≠ [] → place ∈ taken.map (·.span.start)
  /-- Nothing is put behind the sign of division. -/
  slash : ∀ passed ∈ taken, passed.kind = .sign "/" → put passed.span.stop = []

namespace Placed

variable {offset : Nat}

/-- Nothing is put in front of the first token or into it. -/
theorem bare (placed : Placed put offset taken) (course : Course token taken last)
    (lies : token.LiesIn text) {place : Nat} (from_ : offset ≤ place)
    (before : place < token.span.stop) (inside : place ≠ token.span.start) : put place = [] := by
  refine Decidable.byContradiction fun filled => ?_
  obtain ⟨passed, listed, rfl⟩ := List.mem_map.1 (placed.starts place from_ filled)
  have := course.apart lies passed listed
  omega

/-- What holds of all that is passed holds of what is passed behind the first token. -/
theorem tail (placed : Placed put offset (token :: taken)) {further : Nat} (le : offset ≤ further)
    (behind : token.span.start < further) : Placed put further taken where
  starts := by
    intro place from_ filled
    obtain same | among := List.mem_cons.1 (placed.starts place (by omega) filled)
    · dsimp only at same
      omega
    · exact among
  slash := (List.forall_mem_cons.1 placed.slash).2

theorem clear (placed : Placed put offset taken) (course : Course token taken last)
    (lies : token.LiesIn text) (finish : last.kind = .finish) (le : offset ≤ token.span.start) :
    Clear put token where
  finish := by
    intro at_end
    have := lies.start_le
    refine Decidable.byContradiction fun filled => ?_
    have among := placed.starts _ (by omega) filled
    rw [course.eq_nil_of_finish at_end] at among
    contradiction
  slash := by
    intro sign
    cases course with
    | here => simp [sign] at finish
    | again reread course =>
        obtain ⟨part, more⟩ := reread.exists_extends lies
        have wide : width part ≠ 0 := fun zero => more.filled (eq_nil_of_width_eq_zero zero)
        have proper := (lies.framed reread.ne_finish).proper
        have start_eq : _ = token.span.start := congrArg (·.start) more.span_eq
        have stop_eq : _ = token.span.stop + width part := congrArg (·.stop) more.span_eq
        exact placed.bare course (reread.liesIn lies).1 (by omega) (by omega) (by omega)
    | pass => exact placed.slash token List.mem_cons_self sign
  number := by
    intro sign inner after_eq digit
    cases course with
    | here => simp [sign] at finish
    | again reread => cases reread <;> simp_all
    | @pass _ second _ taken _ live lexed course =>
        have proper := (lies.framed live).proper
        have second_lies := (next_liesIn lies.left lexed).1
        rw [after_eq] at lexed
        obtain ⟨start_eq, le_stop⟩ := reaches_of_next_dot digit lexed
        have from_stop : Placed put token.span.stop taken := placed.tail (by omega) proper
        exact from_stop.bare course second_lies (by omega) (by omega) (by omega)

end Placed

/-! ## Courses in woven texts -/

/-- The tokens of a text in which remarks stand are those of the text without them: none is lost, taken
apart or read as another one, and behind the first one no line ends that did not end before. -/
theorem Course.woven (remarks : AreRemarks put) (course : Course token taken last)
    (lies : token.LiesIn text) (finish : last.kind = .finish)
    (placed : Placed put token.span.start taken) {first : Token} {ends : Bool}
    (kind_eq : first.kind = token.kind) (line_eq : first.opensLine = (ends || token.opensLine))
    (after_eq : first.after = Lexer.woven put token.span.stop token.after) :
    ∃ others ending, Course first others ending ∧ ending.kind = .finish ∧
      (others ++ [ending]).map (·.kind) = (taken ++ [last]).map (·.kind) ∧
      (others ++ [ending]).map (·.opensLine) =
        ((taken ++ [last]).map (·.opensLine)).modifyHead (ends || ·) := by
  induction course generalizing first ends with
  | here => exact ⟨[], first, .here first, kind_eq.trans finish, by simp [kind_eq], by simp [line_eq]⟩
  | @again token other last taken reread course ih =>
      obtain ⟨part, more⟩ := reread.exists_extends lies
      obtain ⟨other_lies, start_eq, -⟩ := reread.liesIn lies
      have stop_eq : other.span.stop = token.span.stop + width part := by rw [more.span_eq]
      have proper := (lies.framed reread.ne_finish).proper
      have again_eq : first.after = part ++ Lexer.woven put other.span.stop other.after := by
        rw [after_eq, more.after_eq, woven_bare, stop_eq]
        intro place behind before
        exact placed.bare course other_lies (by omega) (by omega) (by omega)
      obtain ⟨second, reread_again, second_kind, second_after, second_line⟩ :=
        more.again first _ kind_eq again_eq ((bare_or_slash (remarks.opens _) _).imp_left head?_woven)
      obtain ⟨others, ending, course, result⟩ := ih other_lies finish (start_eq ▸ placed) second_kind
        (by rw [second_line, line_eq, more.opensLine_eq]) second_after
      exact ⟨others, ending, .again reread_again course, result⟩
  | @pass token second last taken comments live lexed course ih =>
      obtain ⟨second_lies, stop_le⟩ := next_liesIn lies.left lexed
      have proper := (lies.framed live).proper
      have from_stop : Placed put token.span.stop taken := placed.tail (Nat.le_of_lt proper) proper
      have from_second : Placed put second.span.start taken := placed.tail (by omega) (by omega)
      obtain ⟨other, _, read, other_kind, other_line, other_after⟩ := next_woven remarks .nil lies.left
        lexed (from_second.clear course second_lies finish (Nat.le_refl _))
        (fun _ => from_stop.bare course second_lies) first.span.stop
      obtain ⟨others, ending, course, finish, kinds, lines⟩ := ih second_lies finish from_second
        other_kind other_line other_after
      refine ⟨first :: others, ending, .pass (kind_eq ▸ live) (after_eq ▸ read) course, finish, ?_, ?_⟩
      · simp [kind_eq, kinds]
      · have no_line : (fun line => false || line) = id := funext Bool.false_or
        rw [no_line, List.modifyHead_id] at lines
        simp [line_eq, lines]

/-- The last token lies in the text, too. -/
theorem Course.last_liesIn (course : Course token taken last) (lies : token.LiesIn text) :
    last.LiesIn text := by
  induction course with
  | here => exact lies
  | again reread _ ih => exact ih (reread.liesIn lies).1
  | pass _ lexed _ ih => exact ih (next_liesIn lies.left lexed).1

/-! ## Whole texts -/

theorem Tokenizes.liesIn {tokens : List Token} (tokenizes : Tokenizes text tokens) :
    ∀ token ∈ tokens, token.LiesIn text := by
  obtain ⟨first, comments, taken, last, lexed, course, -, rfl⟩ := tokenizes
  have lies := (next_liesIn (leftAt_opening text) lexed).1
  exact List.forall_mem_append.2
    ⟨course.liesIn lies, List.forall_mem_singleton.2 (course.last_liesIn lies)⟩

/-- A text that does not begin with the name of an interpreter does not with remarks in it. -/
theorem hashbang?_woven (opens : ∀ place, put place = [] ∨ (put place).head? = some '/')
    (plain : hashbang? text = none) : hashbang? (woven put 0 text) = none := by
  unfold hashbang?
  split
  · rename_i rest woven_eq
    obtain ⟨others, rfl⟩ := front_of_woven opens (by decide : '/' ∉ ['#', '!']) ⟨rest, woven_eq.symm⟩
    contradiction
  · rfl

/-- The line that names an interpreter is the same with another text behind it. -/
theorem hashbang?_append {line : Span} {rest : List Char} (found : hashbang? text = some (line, rest)) :
    ∃ front, text = front ++ rest ∧ width front = line.stop ∧
      ∀ other, other.head?.all ScriptChar.endsLine → hashbang? (front ++ other) = some (line, other) := by
  unfold hashbang? at found
  split at found
  case h_2 => contradiction
  rename_i behind
  obtain ⟨rfl, rfl⟩ := Prod.mk.inj (Option.some.inj found)
  have all : ∀ char ∈ behind.takeWhile (fun char => !ScriptChar.endsLine char),
      !ScriptChar.endsLine char :=
    fun char member => List.all_eq_true.1 List.all_takeWhile char member
  refine ⟨'#' :: '!' :: behind.takeWhile fun char => !ScriptChar.endsLine char, ?_, ?_, ?_⟩
  · simp [List.takeWhile_append_dropWhile]
  · rw [width_cons, width_cons, ← Nat.add_assoc]
    rfl
  · intro other ends
    have stops : other.head?.any (fun char => !ScriptChar.endsLine char) = false := by
      cases other with
      | nil => rfl
      | cons char other => simpa using ends
    obtain ⟨taken, left⟩ := span_append all stops
    simp only [List.cons_append, hashbang?, taken, left]

/-- A text whose reading begins with remarks and goes on with remarks in front of its tokens has the
tokens of the text without them. -/
theorem Tokenizes.woven {tokens : List Token} (tokenizes : Tokenizes text tokens)
    (remarks : AreRemarks put)
    (starts : ∀ place, put place ≠ [] → place < width text ∧ place ∈ tokens.map (·.span.start))
    (slash : ∀ passed ∈ tokens, passed.kind = .sign "/" → put passed.span.stop = [])
    {other lead : List Char} {origin : Nat} {ends : Bool} (skips : Skips lead ends)
    (opening_eq : opening other =
      (origin, lead ++ Lexer.woven put (opening text).1 (opening text).2)) :
    ∃ others, Tokenizes other others ∧ others.map (·.kind) = tokens.map (·.kind) ∧
      others.map (·.opensLine) = (tokens.map (·.opensLine)).modifyHead (ends || ·) := by
  obtain ⟨token, comments, taken, last, lexed, course, finish, rfl⟩ := tokenizes
  have left := leftAt_opening text
  obtain ⟨lies, le⟩ := next_liesIn left lexed
  have last_start : last.span.start = width text := by
    rw [(course.last_liesIn lies).finished finish]
  have placed : Placed put 0 taken := by
    refine ⟨fun place _ filled => ?_, fun passed listed => slash passed (List.mem_append_left _ listed)⟩
    obtain ⟨before, listed⟩ := starts place filled
    rw [List.map_append, List.mem_append] at listed
    refine listed.resolve_right fun at_end => ?_
    simp only [List.map_cons, List.map_nil, List.mem_singleton] at at_end
    omega
  obtain ⟨first, comments, read, kind_eq, line_eq, after_eq⟩ := next_woven remarks skips left lexed
    (placed.clear course lies finish (Nat.zero_le _))
    (fun place _ => placed.bare course lies (Nat.zero_le place)) origin
  obtain ⟨others, ending, course, finish, kinds, lines⟩ := course.woven remarks lies finish
    ⟨fun place _ => placed.starts place (Nat.zero_le place), placed.slash⟩ kind_eq line_eq after_eq
  exact ⟨_, ⟨first, comments, others, ending, opening_eq ▸ read, course, finish, rfl⟩, kinds, lines⟩

end Lexer
end Shakedown
