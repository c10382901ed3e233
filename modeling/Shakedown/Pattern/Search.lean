import Shakedown.Pattern.Basic

/-!
# Searching and substituting

A search reads a text from left to right, and goes on behind each match that it found. A
substitution may take more text than the match itself, or leave the match as it is.
-/

namespace Shakedown
namespace Pattern

/-- The matches from a place on. Each round goes at least one character ahead. -/
def matchesFrom (pattern : Pattern) : (rounds : Nat) → Cursor → List Match
  | 0, _ => []
  | rounds + 1, cursor =>
      match pattern.matchAt? cursor with
      | Option.some found => found :: matchesFrom pattern rounds found.stop
      | none =>
          match cursor.after with
          | [] => []
          | char :: after => matchesFrom pattern rounds ⟨char :: cursor.before, after⟩

/-- The matches in a text, from left to right and apart from each other. -/
def findAll (pattern : Pattern) (text : List Char) : List Match :=
  pattern.matchesFrom (text.length + 1) (Cursor.ofText text)

/-- What a rule makes of a match: new text, and the place from which the old text goes on. A match
without an answer stays as it is. -/
abbrev Rule := Match → Option (List Char × Cursor)

/-- The text from a place on, with a rule applied to the matches. -/
def substituteFrom (pattern : Pattern) (rule : Rule) : (rounds : Nat) → Cursor → List Char
  | 0, cursor => cursor.after
  | rounds + 1, cursor =>
      match pattern.matchAt? cursor with
      | Option.some found =>
          match rule found with
          | Option.some (new, rest) => new ++ substituteFrom pattern rule rounds rest
          | none => found.text ++ substituteFrom pattern rule rounds found.stop
      | none =>
          match cursor.after with
          | [] => []
          | char :: after =>
              char :: substituteFrom pattern rule rounds ⟨char :: cursor.before, after⟩

/-- A text with a rule applied to the matches. -/
def substitute (pattern : Pattern) (rule : Rule) (text : List Char) : List Char :=
  pattern.substituteFrom rule (text.length + 1) (Cursor.ofText text)

/-- A text without the matches. -/
def erase (pattern : Pattern) (text : List Char) : List Char :=
  pattern.substitute (fun found => Option.some ([], found.stop)) text

end Pattern
end Shakedown
