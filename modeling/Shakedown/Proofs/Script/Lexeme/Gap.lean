import Shakedown.Proofs.Script.Lexeme.Token
import Shakedown.Proofs.Script.Skipping

/-!
# The gap before a token

What is skipped before a token is skipped before other texts as well. Only a comment that the end of
the text ends goes on with whatever follows.
-/

namespace Shakedown
namespace Lexer

open Text

/-- The text is skipped in front of another one; `ends` tells that a line ends in it. -/
def SkipsTo (chars rest : List Char) (ends : Bool) : Prop :=
  ∀ offset endedLine comments, ∃ inner,
    skip .between offset endedLine comments (chars ++ rest) =
      skip .between (offset + width chars) (endedLine || ends) (inner ++ comments) rest

theorem Skips.to {chars : List Char} {ends : Bool} (skips : Skips chars ends) (rest : List Char) :
    SkipsTo chars rest ends :=
  fun offset endedLine comments => skips offset endedLine comments rest

theorem SkipsTo.append {front back rest : List Char} {ends also_ends : Bool}
    (first : SkipsTo front (back ++ rest) ends) (second : SkipsTo back rest also_ends) :
    SkipsTo (front ++ back) rest (ends || also_ends) := by
  intro offset endedLine comments
  obtain ⟨inner, first_eq⟩ := first offset endedLine comments
  obtain ⟨others, second_eq⟩ := second (offset + width front) (endedLine || ends) (inner ++ comments)
  refine ⟨others ++ inner, ?_⟩
  rw [List.append_assoc, first_eq, second_eq, width_append, Nat.add_assoc, Bool.or_assoc,
    List.append_assoc]

/-! ## Single steps -/

section Steps

variable {char : Char} {start offset : Nat} {endedLine : Bool} {comments : List Span}
  {text : List Char}

theorem skip_lineEnd (ends : ScriptChar.endsLine char) :
    skip .between offset endedLine comments (char :: text) =
      skip .between (offset + char.utf8Size) true comments text := by
  cases text <;> simp [skip, ends]

theorem skip_blank (within : ¬ScriptChar.endsLine char) (is_blank : ScriptChar.isBlank char) :
    skip .between offset endedLine comments (char :: text) =
      skip .between (offset + char.utf8Size) endedLine comments text := by
  cases text <;> simp [skip, within, is_blank]

theorem skip_line_end (ends : ScriptChar.endsLine char) :
    skip (.line start) offset endedLine comments (char :: text) =
      skip .between (offset + char.utf8Size) true (⟨start, offset⟩ :: comments) text := by
  cases text <;> simp [skip, ends]

theorem skip_line (within : ¬ScriptChar.endsLine char) :
    skip (.line start) offset endedLine comments (char :: text) =
      skip (.line start) (offset + char.utf8Size) endedLine comments text := by
  cases text <;> simp [skip, within]

theorem skip_block_step (inside : char = '*' → text.head? ≠ some '/') :
    skip (.block start) offset endedLine comments (char :: text) =
      skip (.block start) (offset + char.utf8Size) (endedLine || ScriptChar.endsLine char) comments
        text := by
  cases text with
  | nil => rfl
  | cons second rest =>
      rw [skip, if_neg]
      simpa using inside

end Steps

/-! ## Where a token begins -/

/-- Whether a text begins with neither a blank nor a comment. -/
def beginsToken : List Char → Bool
  | [] => true
  | char :: rest =>
      !ScriptChar.endsLine char && !ScriptChar.isBlank char &&
        !(char == '/' && rest.head?.any fun second => second == '/' || second == '*')

theorem skip_of_beginsToken {text : List Char} {offset : Nat} {endedLine : Bool}
    {comments : List Span} (begins : beginsToken text) :
    skip .between offset endedLine comments text = some ⟨text, offset, endedLine, comments⟩ := by
  cases text with
  | nil => rfl
  | cons char rest =>
      simp only [beginsToken, Bool.and_eq_true, Bool.not_eq_true'] at begins
      obtain ⟨⟨within, filled⟩, no_comment⟩ := begins
      cases rest with
      | nil => simp [skip, within, filled]
      | cons second rest =>
          have no_comment : (char == '/' && (second == '/' || second == '*')) = false := no_comment
          by_cases slash : char = '/' <;> simp_all [skip]

/-- Where a token begins, it begins with another text behind its lexeme. -/
theorem Follows.beginsToken {lexeme after other : List Char} (follows : Follows lexeme after other)
    (begins : beginsToken (lexeme ++ after)) : Lexer.beginsToken (lexeme ++ other) := by
  match lexeme with
  | [] => rw [follows.finish rfl]; rfl
  | [char] =>
      by_cases slash : char = '/'
      · subst slash
        rw [List.singleton_append, Lexer.beginsToken, follows.slash rfl]
        exact begins
      · simpa [Lexer.beginsToken, slash] using begins
  | char :: second :: rest => exact begins

/-! ## What is skipped -/

/-- The mode with a comment that began elsewhere. -/
def SkipMode.opened (start : Nat) : SkipMode → SkipMode
  | .between => .between
  | .line _ => .line start
  | .block _ => .block start

/-- What is skipped in a mode up to a text; a comment that the end of the text ends is skipped only
there. -/
def Clears (mode : SkipMode) (gap : List Char) (ends : Bool) (after : List Char) : Prop :=
  ∀ other, (after = [] → other = []) → ∀ start offset endedLine comments, ∃ inner,
    skip (mode.opened start) offset endedLine comments (gap ++ other) =
      skip .between (offset + width gap) (endedLine || ends) (inner ++ comments) other

namespace Clears

variable {mode next : SkipMode} {gap after : List Char} {ends : Bool}

theorem nil : Clears .between [] false after :=
  fun other _ start offset endedLine comments => ⟨[], by simp [SkipMode.opened]⟩

/-- A step of skipping in front of what is cleared. -/
theorem step (part : List Char) (also_ends : Bool) (clears : Clears next gap ends after)
    (steps : ∀ other, (after = [] → other = []) → ∀ start offset endedLine comments,
      ∃ later inner, skip (mode.opened start) offset endedLine comments (part ++ (gap ++ other)) =
        skip (next.opened later) (offset + width part) (endedLine || also_ends) (inner ++ comments)
          (gap ++ other)) :
    Clears mode (part ++ gap) (also_ends || ends) after := by
  intro other allowed start offset endedLine comments
  obtain ⟨later, inner, step_eq⟩ := steps other allowed start offset endedLine comments
  obtain ⟨others, rest_eq⟩ := clears other allowed later (offset + width part)
    (endedLine || also_ends) (inner ++ comments)
  refine ⟨others ++ inner, ?_⟩
  rw [List.append_assoc, step_eq, rest_eq, width_append, Nat.add_assoc, Bool.or_assoc,
    List.append_assoc]

variable {char : Char} {start : Nat}

/-- The end of the text ends a comment up to the end of the line. -/
theorem finish : Clears (.line start) [] false [] := by
  intro other finish start offset endedLine comments
  obtain rfl := finish rfl
  exact ⟨[⟨start, offset⟩], by simp [SkipMode.opened, skip]⟩

theorem lineEnd (ends_line : ScriptChar.endsLine char) (clears : Clears .between gap ends after) :
    Clears .between (char :: gap) (true || ends) after :=
  clears.step [char] true fun _ _ _ _ _ _ => ⟨0, [], by
    simp [SkipMode.opened, skip_lineEnd ends_line]⟩

theorem blank (within : ¬ScriptChar.endsLine char) (is_blank : ScriptChar.isBlank char)
    (clears : Clears .between gap ends after) : Clears .between (char :: gap) ends after :=
  clears.step [char] false fun _ _ _ _ _ _ => ⟨0, [], by
    simp [SkipMode.opened, skip_blank within is_blank]⟩

theorem openLine (clears : Clears (.line start) gap ends after) :
    Clears .between ('/' :: '/' :: gap) ends after :=
  clears.step ['/', '/'] false fun _ _ _ offset _ _ => ⟨offset, [], by
    simp [SkipMode.opened, skip, ScriptChar.endsLine, ScriptChar.isBlank]
    rfl⟩

theorem openBlock (clears : Clears (.block start) gap ends after) :
    Clears .between ('/' :: '*' :: gap) ends after :=
  clears.step ['/', '*'] false fun _ _ _ offset _ _ => ⟨offset, [], by
    simp [SkipMode.opened, skip, ScriptChar.endsLine, ScriptChar.isBlank]
    rfl⟩

theorem line_end (ends_line : ScriptChar.endsLine char) (clears : Clears .between gap ends after) :
    Clears (.line start) (char :: gap) (true || ends) after :=
  clears.step [char] true fun _ _ start offset _ _ => ⟨0, [⟨start, offset⟩], by
    simp [SkipMode.opened, skip_line_end ends_line]⟩

theorem line (within : ¬ScriptChar.endsLine char) (clears : Clears (.line start) gap ends after) :
    Clears (.line start) (char :: gap) ends after :=
  clears.step [char] false fun _ _ start _ _ _ => ⟨start, [], by
    simp [SkipMode.opened, skip_line within]⟩

theorem closeBlock (clears : Clears .between gap ends after) :
    Clears (.block start) ('*' :: '/' :: gap) ends after :=
  clears.step ['*', '/'] false fun _ _ start offset _ _ => ⟨0, [⟨start, offset + 2⟩], by
    simp [SkipMode.opened, skip]
    rfl⟩

/-- A comment between its signs does not end with nothing. -/
theorem block_ne_nil (clears : Clears (.block start) gap ends after) : gap ≠ [] := by
  rintro rfl
  obtain ⟨inner, none_eq⟩ := clears [] (fun _ => rfl) 0 0 false []
  contradiction

theorem block (inside : char = '*' → (gap ++ after).head? ≠ some '/')
    (clears : Clears (.block start) gap ends after) :
    Clears (.block start) (char :: gap) (ScriptChar.endsLine char || ends) after :=
  clears.step [char] (ScriptChar.endsLine char) fun other _ start _ _ _ => ⟨start, [], by
    have still_inside : char = '*' → (gap ++ other).head? ≠ some '/' := by
      rwa [head?_append_eq clears.block_ne_nil after other]
    simp [SkipMode.opened, skip_block_step still_inside]⟩

end Clears

/-- What was skipped is a gap in front of a token, and would be one in front of other tokens. -/
structure IsGap (mode : SkipMode) (offset : Nat) (endedLine : Bool) (text : List Char)
    (skipped : Skipped) (gap : List Char) (ends : Bool) : Prop where
  /-- The token is behind the gap. -/
  text_eq : text = gap ++ skipped.after
  /-- So is its offset. -/
  offset_eq : skipped.offset = offset + width gap
  /-- Lines end in the gap or before. -/
  endedLine_eq : skipped.endedLine = (endedLine || ends)
  /-- A token begins. -/
  begins : beginsToken skipped.after
  /-- The gap can stand elsewhere. -/
  clears : Clears mode gap ends skipped.after

namespace IsGap

variable {mode next : SkipMode} {offset start : Nat} {endedLine ends : Bool} {text gap : List Char}
  {comments : List Span} {skipped : Skipped}

theorem nil (begins : beginsToken text) :
    IsGap .between offset endedLine text ⟨text, offset, endedLine, comments⟩ [] false :=
  ⟨rfl, rfl, (Bool.or_false _).symm, begins, .nil⟩

theorem finish :
    IsGap (.line start) offset endedLine [] ⟨[], offset, endedLine, comments⟩ [] false :=
  ⟨rfl, rfl, (Bool.or_false _).symm, rfl, .finish⟩

theorem extend (part : List Char) (also_ends : Bool)
    (behind : IsGap next (offset + width part) (endedLine || also_ends) text skipped gap ends)
    (clears : Clears mode (part ++ gap) (also_ends || ends) skipped.after) :
    IsGap mode offset endedLine (part ++ text) skipped (part ++ gap) (also_ends || ends) where
  text_eq := by rw [behind.text_eq, List.append_assoc]
  offset_eq := by rw [behind.offset_eq, width_append, Nat.add_assoc]
  endedLine_eq := by rw [behind.endedLine_eq, Bool.or_assoc]
  begins := behind.begins
  clears := clears

end IsGap

theorem exists_gap {mode : SkipMode} {offset : Nat} {endedLine : Bool} {comments : List Span}
    {text : List Char} {skipped : Skipped}
    (skips : skip mode offset endedLine comments text = some skipped) :
    ∃ gap ends, IsGap mode offset endedLine text skipped gap ends := by
  fun_induction skip mode offset endedLine comments text
  -- a comment that does not end
  case case3 | case9 => contradiction
  -- the text ends
  case case1 =>
    obtain rfl := Option.some.inj skips
    exact ⟨[], false, .nil rfl⟩
  case case2 =>
    obtain rfl := Option.some.inj skips
    exact ⟨[], false, .finish⟩
  -- it ends behind a last character that is skipped
  case case4 char _ ends_line =>
    obtain rfl := Option.some.inj skips
    exact ⟨_, _, IsGap.extend [char] true (by simpa using .nil rfl) (.lineEnd ends_line .nil)⟩
  case case5 char _ within is_blank =>
    obtain rfl := Option.some.inj skips
    exact ⟨_, _, IsGap.extend [char] false (by simpa using .nil rfl) (.blank within is_blank .nil)⟩
  case case7 char _ start ends_line =>
    obtain rfl := Option.some.inj skips
    exact ⟨_, _, IsGap.extend [char] true (by simpa using .nil rfl) (.line_end ends_line .nil)⟩
  case case8 char _ start within =>
    obtain rfl := Option.some.inj skips
    exact ⟨_, _, IsGap.extend [char] false (by simpa using .nil rfl) (.line within .finish)⟩
  -- a token begins
  case case6 char _ within filled =>
    obtain rfl := Option.some.inj skips
    exact ⟨[], false, .nil (by simp [beginsToken, within, filled])⟩
  case case14 char second rest within filled no_line no_block =>
    obtain rfl := Option.some.inj skips
    refine ⟨[], false, .nil ?_⟩
    by_cases slash : char = '/' <;> simp_all [beginsToken]
  -- one more character is skipped
  case case10 char second rest _ ends_line ih =>
    obtain ⟨gap, ends, behind⟩ := ih skips
    exact ⟨_, _, .extend [char] true (by simpa using behind) (.lineEnd ends_line behind.clears)⟩
  case case11 char second rest _ within is_blank ih =>
    obtain ⟨gap, ends, behind⟩ := ih skips
    exact ⟨_, _, .extend [char] false (by simpa using behind) (.blank within is_blank behind.clears)⟩
  case case15 char second rest _ start ends_line ih =>
    obtain ⟨gap, ends, behind⟩ := ih skips
    exact ⟨_, _, .extend [char] true (by simpa using behind) (.line_end ends_line behind.clears)⟩
  case case16 char second rest _ start within ih =>
    obtain ⟨gap, ends, behind⟩ := ih skips
    exact ⟨_, _, .extend [char] false (by simpa using behind) (.line within behind.clears)⟩
  case case18 char second rest _ start inside ih =>
    obtain ⟨gap, ends, behind⟩ := ih skips
    have still_inside : char = '*' → (gap ++ skipped.after).head? ≠ some '/' := by
      rw [← behind.text_eq]
      simpa using inside
    exact ⟨_, _, .extend [char] (ScriptChar.endsLine char) (by simpa using behind)
      (.block still_inside behind.clears)⟩
  -- the two of a sign are skipped
  case case12 rest _ _ _ sign ih =>
    obtain ⟨rfl, rfl⟩ := by simpa using sign
    obtain ⟨gap, ends, behind⟩ := ih skips
    exact ⟨_, _, .extend ['/', '/'] false (by rw [Bool.or_false]; exact behind) (.openLine behind.clears)⟩
  case case13 rest _ _ _ _ sign ih =>
    obtain ⟨rfl, rfl⟩ := by simpa using sign
    obtain ⟨gap, ends, behind⟩ := ih skips
    exact ⟨_, _, .extend ['/', '*'] false (by rw [Bool.or_false]; exact behind) (.openBlock behind.clears)⟩
  case case17 rest _ start sign ih =>
    obtain ⟨rfl, rfl⟩ := by simpa using sign
    obtain ⟨gap, ends, behind⟩ := ih skips
    exact ⟨_, _, .extend ['*', '/'] false (by rw [Bool.or_false]; exact behind) (.closeBlock behind.clears)⟩

/-! ## Tokens behind gaps -/

/-- A token is read from a lexeme behind a gap, and could be read elsewhere. -/
structure Lexes (offset : Nat) (text : List Char) (token : Token) (gap lexeme : List Char) : Prop where
  /-- The text is the gap, the lexeme and what is behind the token. -/
  text_eq : text = gap ++ (lexeme ++ token.after)
  /-- So the token has its place. -/
  span_eq : token.span = ⟨offset + width gap, offset + width gap + width lexeme⟩
  /-- The gap can stand in front of another lexeme. -/
  clears : Clears .between gap token.opensLine (lexeme ++ token.after)
  /-- The token begins where the gap ends. -/
  begins : beginsToken (lexeme ++ token.after)
  /-- The lexeme can stand in front of another text. -/
  reads : ReadsFrom lexeme token.after token.kind

theorem exists_lexes {offset : Nat} {text : List Char} {token : Token} {comments : List Span}
    (read : next offset text = .ok (token, comments)) :
    ∃ gap lexeme, Lexes offset text token gap lexeme := by
  unfold next at read
  split at read
  · contradiction
  rename_i skipped skips
  split at read
  · contradiction
  rename_i token' token_read
  obtain ⟨rfl, -⟩ := Prod.mk.inj (Except.ok.inj read)
  obtain ⟨gap, ends, is_gap⟩ := exists_gap skips
  obtain ⟨lexeme, after_eq, reads, token_eq⟩ := readsFrom_of_readToken? token_read
  have opens_eq : token'.opensLine = ends := by
    rw [token_eq]
    exact is_gap.endedLine_eq.trans (Bool.false_or _)
  refine ⟨gap, lexeme, ?_, ?_, ?_, ?_, reads⟩
  · rw [is_gap.text_eq, after_eq]
  · rw [token_eq, tokenOf, after_eq, rawText_append, is_gap.offset_eq]
  · rw [opens_eq, ← after_eq]
    exact is_gap.clears
  · exact after_eq ▸ is_gap.begins

/-- Where the lexeme stands behind what is skipped, its token is read. -/
theorem Lexes.next {offset : Nat} {text : List Char} {token : Token} {gap lexeme : List Char}
    (lexes : Lexes offset text token gap lexeme) {lead other : List Char} {ends : Bool}
    (skips : SkipsTo lead (lexeme ++ other) ends) (follows : Follows lexeme token.after other)
    (start : Nat) : ∃ comments, Lexer.next start (lead ++ (lexeme ++ other)) =
      .ok (⟨token.kind, ⟨start + width lead, start + width lead + width lexeme⟩, ends, other⟩,
        comments) := by
  obtain ⟨inner, skip_eq⟩ := skips start false []
  refine ⟨inner ++ [], ?_⟩
  rw [Lexer.next, skip_eq, skip_of_beginsToken (follows.beginsToken lexes.begins)]
  simp only [lexes.reads other follows, Bool.false_or]

end Lexer
end Shakedown
