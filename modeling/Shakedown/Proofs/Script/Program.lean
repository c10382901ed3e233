import Shakedown.Proofs.Script.Reader.Statement
import Shakedown.Script.Basic

/-!
# Programs spaced out

However deep the productions may nest, each leaves one tree. So the statements of every text that
is read lie in it in a row, and each of them is spaced out.
-/

namespace Shakedown

open Node Text

/-- A grammar of any depth leaves trees spaced out. -/
theorem nests_grammar (text : List Char) (origin depth : Nat) :
    Reader.Nests text origin (grammar depth) := by
  induction depth with
  | zero =>
      exact
        { assignment := fun _ _ _ => Reader.meets_unexpected
          unary := fun _ _ _ => Reader.meets_unexpected
          leftHand := fun _ _ _ => Reader.meets_unexpected
          callee := fun _ _ _ => Reader.meets_unexpected
          pattern := fun _ _ _ => Reader.meets_unexpected
          statement := fun _ _ _ _ => Reader.meets_unexpected }
  | succ depth nests =>
      exact
        { assignment := fun context state => nests.assignmentProduction context state
          unary := fun context state => nests.unaryProduction context state
          leftHand := fun context state => nests.leftHandProduction context state
          callee := fun context state => nests.calleeProduction context state
          pattern := fun context state => nests.patternProduction context state
          statement := fun _ context state => nests.statementProduction context state }

theorem Lexer.leftAt_hashbang {text after : List Char} {span : Span}
    (found : hashbang? text = some (span, after)) : LeftAt text span.stop after := by
  unfold hashbang? at found
  split at found
  · rename_i rest
    obtain ⟨rfl, rfl⟩ := Prod.mk.inj (Option.some.inj found)
    refine ⟨'#' :: '!' :: rest.takeWhile fun char => !ScriptChar.endsLine char, ?_, ?_⟩
    · simp [List.takeWhile_append_dropWhile]
    · rw [width_cons, width_cons, ← Nat.add_assoc]
      rfl
  · contradiction

/-- The line that names an interpreter ends where a line ends, or the text. -/
theorem Lexer.endsLine_of_hashbang {text after : List Char} {span : Span}
    (found : hashbang? text = some (span, after)) :
    after = [] ∨ ∃ char rest, after = char :: rest ∧ ScriptChar.endsLine char := by
  unfold hashbang? at found
  split at found
  · rename_i rest
    obtain ⟨-, rfl⟩ := Prod.mk.inj (Option.some.inj found)
    cases left : rest.dropWhile fun char => !ScriptChar.endsLine char with
    | nil => exact .inl rfl
    | cons char behind =>
        have stops := List.head?_dropWhile_not (fun char => !ScriptChar.endsLine char) rest
        rw [left] at stops
        exact .inr ⟨char, behind, rfl, by simpa using stops⟩
  · contradiction

theorem Lexer.leftAt_opening (text : List Char) : LeftAt text (opening text).1 (opening text).2 := by
  unfold opening
  split
  · rename_i line rest found
    exact leftAt_hashbang found
  · exact leftAt_zero text

/-- Reading begins behind the first line, if that is none of the program. -/
theorem sound_start {text rest : List Char} {offset : Nat} {token : Token} {comments : List Span}
    (left : LeftAt text offset rest) (lexed : Lexer.next offset rest = .ok (token, comments)) :
    Reader.Sound text offset
      { token, lastStop := offset, comments, isModule := false, hasEarlyAwait := false,
        hasAwaitName := false } := by
  obtain ⟨lies, behind⟩ := Lexer.next_liesIn left lexed
  exact
    { lies
      origin_le := Nat.le_refl _
      lastStop_le := behind
      ends := fun further => absurd further (Nat.lt_irrefl _) }

theorem Except.bind_eq_ok {ε α β : Type} {first : Except ε α} {next : α → Except ε β}
    {result : β} :
    (first >>= next) = .ok result ↔ ∃ value, first = .ok value ∧ next value = .ok result := by
  cases first with
  | error fault => exact ⟨nofun, fun ⟨_, none_first, _⟩ => nomatch none_first⟩
  | ok value => exact ⟨fun run => ⟨value, rfl, run⟩, fun ⟨_, same, run⟩ => by cases same; exact run⟩

theorem Except.eq_ok_of_toOption {ε α : Type} {result : Except ε α} {value : α}
    (found : result.toOption = some value) : result = .ok value := by
  cases result with
  | error fault => contradiction
  | ok given => exact congrArg Except.ok (Option.some.inj found)

/-- The parts of a program lie in the text. -/
structure Program.IsSpaced (text : List Char) (program : Program) : Prop where
  /-- The statements lie in a row. -/
  row : InRow text 0 (width text) program.body
  /-- The line that names an interpreter ends on a boundary. -/
  hashbang : ∀ line, program.hashbang = some line → IsBoundary text line.stop
  /-- All statements begin behind that line. -/
  behind : ∀ line, program.hashbang = some line →
    ∀ statement ∈ program.body, line.stop < statement.span.start

/-- The statements of a program are those of a list that is read from a sound state on. -/
theorem statements_of_readGoal {allowsAwait : Bool} {text : List Char} {program : Program}
    {state : ReadState} (read : readGoal allowsAwait text = .ok (program, state)) :
    ∃ offset start statements ended, Reader.Sound text offset start ∧
      Reader.statementList (grammar (depthLimit text.length)) (·.kind == .finish)
        (topLevelContext allowsAwait) start = .ok (statements, ended) ∧
      program.body = (Reader.splitDirectives statements).2 ∧
      program.hashbang = (Lexer.hashbang? text).map (·.1) ∧
      (∀ line after, Lexer.hashbang? text = some (line, after) →
        width text ≤ start.token.span.start ∨ line.stop < start.token.span.start) ∧
      Lexer.next (Lexer.opening text).1 (Lexer.opening text).2 =
        .ok (start.token, start.comments) := by
  unfold readGoal at read
  extract_lets hashbang items at read
  split at read
  rename_i offset rest begins
  have opening_eq : Lexer.opening text = (offset, rest) := begins
  have left : LeftAt text offset rest := by simpa [opening_eq] using Lexer.leftAt_opening text
  obtain ⟨⟨token, comments⟩, lexed, read⟩ := Except.bind_eq_ok.1 read
  obtain ⟨⟨statements, ended⟩, run, read⟩ := Except.bind_eq_ok.1 read
  have behind : ∀ line after, Lexer.hashbang? text = some (line, after) →
      width text ≤ token.span.start ∨ line.stop < token.span.start := by
    intro line after found
    have begins : (line.stop, after) = (offset, rest) := by
      rw [← begins, show hashbang = some (line, after) from found]
    obtain ⟨rfl, rfl⟩ := Prod.mk.inj begins
    obtain rfl | ⟨char, others, rfl, ends⟩ := Lexer.endsLine_of_hashbang found
    · have at_end : line.stop = width text := by simpa using left.add_width
      exact .inl (at_end ▸ (Lexer.next_liesIn left lexed).2)
    · exact .inr (Lexer.lt_start_of_next left ends lexed)
  refine ⟨offset, _, statements, ended, sound_start left lexed, run, ?_⟩
  dsimp only at read
  split at read
  · contradiction
  split at read
  · contradiction
  · obtain ⟨rfl, rfl⟩ := Prod.mk.inj (Except.ok.inj read)
    exact ⟨rfl, rfl, behind, opening_eq ▸ lexed⟩

/-- A program is spaced out whichever goal it is read for. -/
theorem isSpaced_readGoal {allowsAwait : Bool} {text : List Char} {program : Program}
    {state : ReadState} (read : readGoal allowsAwait text = .ok (program, state)) :
    program.IsSpaced text := by
  obtain ⟨offset, start, statements, ended, sound, run, body_eq, hashbang_eq, behind, -⟩ :=
    statements_of_readGoal read
  have nests := nests_grammar text offset (depthLimit text.length)
  have trail := nests.statementList _ _ _ sound statements ended run
  have row := trail.row.sublist (Reader.suffix_splitDirectives statements).sublist
  rw [← body_eq] at row
  refine ⟨row.whole, fun line line_eq => ?_, fun line line_eq statement listed => ?_⟩
  · obtain ⟨⟨span, after⟩, found, rfl⟩ := Option.map_eq_some_iff.1 (hashbang_eq.symm.trans line_eq)
    exact (Lexer.leftAt_hashbang found).isBoundary
  · obtain ⟨⟨span, after⟩, found, rfl⟩ := Option.map_eq_some_iff.1 (hashbang_eq.symm.trans line_eq)
    have proper := (row.spaced statement listed).proper
    have start_le := (row.within statement listed).1
    have stop_le := (row.whole.within statement listed).2
    show span.stop < statement.span.start
    obtain whole | before := behind span after found <;> omega

/-- A list of statements ends at a token that closes it. -/
theorem Reader.meets_statementList {grammar : Grammar} {closes : Token → Bool}
    {context : ReadContext} {state : ReadState} :
    Meets (statementList grammar closes) context state fun _ after => closes after.token := by
  refine meets_loop (fun _ _ => True) trivial fun items state _ => meets_peek ?_
  split
  · exact meets_pure ‹_›
  · exact meets_bind fun _ _ _ => meets_pure trivial

/-- A program is read token by token, and each of its trees begins where one of the tokens does. -/
theorem tokenizes_readGoal {allowsAwait : Bool} {text : List Char} {program : Program}
    {state : ReadState} (read : readGoal allowsAwait text = .ok (program, state)) :
    ∃ tokens, Lexer.Tokenizes text tokens ∧
      ∀ statement ∈ program.body, statement.BeginsIn (tokens.map (·.span.start)) := by
  obtain ⟨offset, start, statements, ended, sound, run, body_eq, -, -, lexed⟩ :=
    statements_of_readGoal read
  have nests := nests_grammar text offset (depthLimit text.length)
  obtain ⟨taken, course, begin_in⟩ := (nests.statementList _ _ _ sound statements ended run).roots
  have finishes := Reader.meets_statementList statements ended run
  refine ⟨taken ++ [ended.token], ⟨_, _, taken, _, lexed, course, by simpa using finishes, rfl⟩, ?_⟩
  intro statement listed
  rw [body_eq] at listed
  have among := (Reader.suffix_splitDirectives statements).mem listed
  exact (begin_in statement among).mono (by simp)

/-- Every program that is read is read for one of the goals. -/
theorem Program.exists_readGoal {text : String} {program : Program}
    (read : Program.read text = .ok program) :
    ∃ allowsAwait state, readGoal allowsAwait text.toList = .ok (program, state) := by
  unfold Program.read at read
  dsimp only at read
  split at read
  · rename_i once state once_read
    have first : readGoal false text.toList = .ok (once, state) := once_read
    split at read
    · split at read
      · split at read
        · rename_i again ended again_read
          exact ⟨true, ended, Except.ok.inj read ▸ again_read⟩
        · exact ⟨false, state, Except.ok.inj read ▸ first⟩
      · exact ⟨false, state, Except.ok.inj read ▸ first⟩
    split at read
    · contradiction
    · exact ⟨false, state, Except.ok.inj read ▸ first⟩
  · split at read
    · rename_i again state again_read
      split at read
      · exact ⟨true, state, Except.ok.inj read ▸ again_read⟩
      · contradiction
    · contradiction

namespace Script

variable {text file : String} {script : Script}

theorem text_of_read (read : Script.read text file = .ok script) : script.text = text := by
  unfold Script.read at read
  split at read
  · exact Except.ok.inj read ▸ rfl
  · contradiction

theorem scoping_of_read (read : Script.read text file = .ok script) :
    script.scoping = Scoping.ofProgram script.program := by
  unfold Script.read at read
  split at read
  · exact Except.ok.inj read ▸ rfl
  · contradiction

/-- The program of a script that was read is spaced out in its text. -/
theorem isSpaced_of_read (read : Script.read text file = .ok script) :
    script.program.IsSpaced script.text.toList := by
  unfold Script.read at read
  split at read
  · rename_i program program_read
    obtain rfl := Except.ok.inj read
    obtain ⟨allowsAwait, state, goal_read⟩ := Program.exists_readGoal program_read
    exact isSpaced_readGoal goal_read
  · contradiction

/-- The line that names an interpreter is the first one of the text. -/
theorem hashbang_of_read (read : Script.read text file = .ok script) :
    script.program.hashbang = (Lexer.hashbang? text.toList).map (·.1) := by
  unfold Script.read at read
  split at read
  · rename_i program program_read
    obtain rfl := Except.ok.inj read
    obtain ⟨allowsAwait, state, goal_read⟩ := Program.exists_readGoal program_read
    obtain ⟨_, _, _, _, -, -, -, hashbang_eq, -⟩ := statements_of_readGoal goal_read
    exact hashbang_eq
  · contradiction

/-- A script is read token by token, and each of its trees begins where one of the tokens does. -/
theorem exists_tokens (read : Script.read text file = .ok script) :
    ∃ tokens, Lexer.Tokenizes text.toList tokens ∧
      ∀ statement ∈ script.program.body, statement.BeginsIn (tokens.map (·.span.start)) := by
  unfold Script.read at read
  split at read
  · rename_i program program_read
    obtain rfl := Except.ok.inj read
    obtain ⟨allowsAwait, state, goal_read⟩ := Program.exists_readGoal program_read
    exact tokenizes_readGoal goal_read
  · contradiction

end Script

end Shakedown
