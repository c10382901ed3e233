/-!
# Paths

A path is a text whose components are separated by slashes. Empty components and single dots name
no place of their own.
-/

namespace Shakedown
namespace Path

/-- The parts of a text between its slashes. -/
def parts : List Char → List (List Char)
  | [] => [[]]
  | char :: rest =>
      match parts rest with
      | [] => [[char]]
      | part :: others => if char = '/' then [] :: part :: others else (char :: part) :: others

/-- The components of a path that name a place. -/
def components (path : String) : List String :=
  ((parts path.toList).filter fun part => part != [] && part != ['.']).map String.ofList

/-- The last component of a path, unless the path ends in a step upwards or names no place. -/
def fileName? (path : String) : Option String :=
  match (components path).getLast? with
  | some ".." => none
  | last => last

end Path
end Shakedown
