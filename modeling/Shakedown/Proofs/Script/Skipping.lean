import Shakedown.Script.Lexer

/-!
# Text that no token sees

Blanks, line ends and whole comments are skipped wherever a token may begin. What is put in front of a
token and consists of these changes nothing but the offset of the token and whether a line ended
before it.
-/

namespace Shakedown
namespace Lexer

open Text

/-- The text is skipped where a token may begin; `ends` tells that a line ends in it. -/
def Skips (chars : List Char) (ends : Bool) : Prop :=
  ∀ offset endedLine comments rest, ∃ inner,
    skip .between offset endedLine comments (chars ++ rest) =
      skip .between (offset + width chars) (endedLine || ends) (inner ++ comments) rest

namespace Skips

theorem nil : Skips [] false :=
  fun offset endedLine comments rest => ⟨[], by simp⟩

theorem append {front back : List Char} {ends also_ends : Bool} (first : Skips front ends)
    (second : Skips back also_ends) : Skips (front ++ back) (ends || also_ends) := by
  intro offset endedLine comments rest
  obtain ⟨inner, first_eq⟩ := first offset endedLine comments (back ++ rest)
  obtain ⟨others, second_eq⟩ := second (offset + width front) (endedLine || ends) (inner ++ comments)
    rest
  refine ⟨others ++ inner, ?_⟩
  rw [List.append_assoc, first_eq, second_eq, width_append, Nat.add_assoc, Bool.or_assoc,
    List.append_assoc]

theorem blank {char : Char} (is_blank : ScriptChar.isBlank char)
    (within : ScriptChar.endsLine char = false) : Skips [char] false := by
  intro offset endedLine comments rest
  refine ⟨[], ?_⟩
  cases rest <;> simp [skip, is_blank, within]

theorem lineEnd {char : Char} (ends : ScriptChar.endsLine char) : Skips [char] true := by
  intro offset endedLine comments rest
  refine ⟨[], ?_⟩
  cases rest <;> simp [skip, ends]

end Skips

/-- The inside of a comment is read up to the star and slash that close it. -/
theorem skip_block {content : List Char} (plain : '/' ∉ content) (start offset : Nat)
    (endedLine : Bool) (comments : List Span) (rest : List Char) :
    skip (.block start) offset endedLine comments (content ++ '*' :: '/' :: rest) =
      skip .between (offset + width content + 2) (endedLine || content.any ScriptChar.endsLine)
        (⟨start, offset + width content + 2⟩ :: comments) rest := by
  induction content generalizing offset endedLine with
  | nil => simp [skip]
  | cons char content ih =>
      have plain : '/' ∉ content := fun member => plain (List.mem_cons_of_mem _ member)
      obtain ⟨second, others, text_eq, second_plain⟩ : ∃ second others,
          content ++ '*' :: '/' :: rest = second :: others ∧ second ≠ '/' := by
        cases content with
        | nil => exact ⟨'*', '/' :: rest, rfl, by decide⟩
        | cons second content =>
            exact ⟨second, _, rfl, fun same => plain (same ▸ List.mem_cons_self)⟩
      rw [List.cons_append, text_eq, skip, if_neg (by simp [second_plain]), ← text_eq, ih plain]
      simp [Nat.add_assoc, Bool.or_assoc]

/-- A comment between a slash with a star and a star with a slash. -/
def remark (content : List Char) : List Char :=
  '/' :: '*' :: content ++ ['*', '/']

theorem skips_remark {content : List Char} (plain : '/' ∉ content) :
    Skips (remark content) (content.any ScriptChar.endsLine) := by
  intro offset endedLine comments rest
  refine ⟨[⟨offset, offset + width (remark content)⟩], ?_⟩
  have opens : skip .between offset endedLine comments (remark content ++ rest) =
      skip (.block offset) (offset + 2) endedLine comments (content ++ '*' :: '/' :: rest) := by
    simp [remark, skip, ScriptChar.endsLine, ScriptChar.isBlank]
  have wide : offset + width (remark content) = offset + 2 + width content + 2 := by
    have star : '*'.utf8Size = 1 := rfl
    have slash : '/'.utf8Size = 1 := rfl
    simp only [remark, List.cons_append, width_cons, width_append, width_nil, star, slash]
    omega
  rw [opens, skip_block plain, wide]
  rfl

end Lexer
end Shakedown
