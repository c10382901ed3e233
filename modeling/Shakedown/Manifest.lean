import Shakedown.Pattern.Search

/-!
# Manifests of pure imports

A module that is prepared for bundling lists, in one comment, the modules that it imports bindings
from. The purifier of the bundle reads the comments back. A module is listed under its token: its
specifier with slashes, at signs and dashes made underscores.
-/

namespace Shakedown
namespace Manifest

/-- The word that opens a manifest. -/
def openWord : String := "PURE_IMPORTS_START"

/-- The word that closes a manifest. -/
def closeWord : String := "PURE_IMPORTS_END"

/-- How a character of a specifier appears in a token. -/
def tokenChar (char : Char) : Char :=
  if char = '/' ∨ char = '@' ∨ char = '-' then '_' else char

/-- The token of a module specifier. -/
def token (specifier : String) : String :=
  String.ofList (specifier.toList.map tokenChar)

/-- The comment that lists tokens. -/
def comment (tokens : List String) : String :=
  "/** " ++ openWord ++ " " ++ String.intercalate "," tokens ++ " " ++ closeWord ++ " */"

/-- A manifest comment; its list is group 1. -/
def pattern : Pattern :=
  .all
    [ .literal ("/** " ++ openWord ++ " ").toList
    , .group 1 .visible
    , .literal (" " ++ closeWord ++ " */").toList ]

/-- A character that a token may hold. -/
def isTokenChar (char : Char) : Bool :=
  CharClass.isWord char || char == '$' || char == '.'

/-- A list of characters that can be a token. -/
def isToken (text : List Char) : Bool :=
  !text.isEmpty && text.all isTokenChar

/-- The parts of a list between its commas. -/
def parts : List Char → List (List Char)
  | [] => [[]]
  | char :: rest =>
      match parts rest with
      | [] => [[char]]
      | part :: others => if char = ',' then [] :: part :: others else (char :: part) :: others

/-- A list with an element at its end, unless it holds it already. -/
def addNew {α : Type} [BEq α] (known : List α) (item : α) : List α :=
  if known.contains item then known else known ++ [item]

/-- The elements of a list in the order of their first occurrence. -/
def distinct {α : Type} [BEq α] (items : List α) : List α :=
  items.foldl addNew []

theorem mem_of_mem_distinct {α : Type} [BEq α] {items : List α} {item : α}
    (member : item ∈ distinct items) : item ∈ items := by
  have added : ∀ known : List α, item ∈ items.foldl addNew known → item ∈ known ∨ item ∈ items := by
    clear member
    induction items with
    | nil => exact fun known member => .inl member
    | cons first others ih =>
        intro known member
        obtain member | member := ih _ member
        · rw [addNew] at member
          split at member
          · exact .inl member
          · obtain member | member := List.mem_append.1 member
            · exact .inl member
            · exact .inr (List.mem_singleton.1 member ▸ List.mem_cons_self)
        · exact .inr (List.mem_cons_of_mem _ member)
  exact (added [] member).resolve_left List.not_mem_nil

/-- The tokens of all manifests of a text, in the order of their first occurrence. -/
def tokensOf (content : String) : List String :=
  let lists := (pattern.findAll content.toList).map (·.group 1)
  distinct ((lists.flatMap fun list => (parts list).filter isToken).map String.ofList)

end Manifest
end Shakedown
