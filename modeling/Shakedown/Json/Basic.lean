/-!
# JSON values

A value as a strict reader sees it. An integer literal is told apart from other numbers, and a
string whose escapes leave a surrogate unpaired is kept as a string that stands for no text.
-/

namespace Shakedown

/-- A JSON value. -/
inductive Json
  | null
  | bool (value : Bool)
  /-- A number written without fraction and exponent, other than minus zero. -/
  | integer (value : Int)
  /-- Any other number, as it is written. -/
  | decimal (literal : String)
  /-- A string, or none when its escapes stand for no text. -/
  | string (text : Option String)
  | array (items : List Json)
  /-- The members in the order in which they are written, repeated keys included. -/
  | object (members : List (Option String × Json))
  deriving Repr, Inhabited

namespace Json

/-- The value of a string. -/
def text? : Json → Option String
  | string text => text
  | _ => none

/-- The value of a string, or the absence of one written as `null`. -/
def optionalText? : Json → Option (Option String)
  | null => some none
  | value => value.text?.map some

/-- The value of a Boolean. -/
def bool? : Json → Option Bool
  | bool value => some value
  | _ => none

/-- The value of an integer below 256. -/
def byte? : Json → Option UInt8
  | integer value => if 0 ≤ value ∧ value < 256 then some value.toNat.toUInt8 else none
  | _ => none

/-- The values of an array, each read by `read`. -/
def list? {α : Type} (read : Json → Option α) : Json → Option (List α)
  | array items => items.mapM read
  | _ => none

/-- A record: the values of named fields, at most one for each. -/
structure Fields where
  /-- The fields present. -/
  present : List (String × Json)
  /-- Whether each value bears the name of its field; otherwise its place tells the field. -/
  isNamed : Bool
  deriving Repr, Inhabited

namespace Fields

/-- The value of a field. -/
def get? (fields : Fields) (name : String) : Option Json :=
  fields.present.lookup name

/-- Reads a field that must be present. -/
def require {α : Type} (fields : Fields) (name : String) (read : Json → Option α) : Option α :=
  (fields.get? name).bind read

/-- Reads a field that may be absent where fields are named. -/
def optional {α : Type} (fields : Fields) (name : String) (read : Json → Option α) (absent : α) :
    Option α :=
  match fields.get? name with
  | none => if fields.isNamed then some absent else none
  | some value => read value

/-- Reads a field that may be absent. -/
def getD {α : Type} (fields : Fields) (name : String) (read : Json → Option α) (absent : α) :
    Option α :=
  match fields.get? name with
  | none => some absent
  | some value => read value

end Fields

/-- The members with a name that the record knows; none when such a name is repeated or a key
stands for no text. -/
def knownMembers? (names : List String) :
    List (Option String × Json) → Option (List (String × Json))
  | [] => some []
  | (none, _) :: _ => none
  | (some key, value) :: rest =>
      match knownMembers? names rest with
      | none => none
      | some known =>
          if !names.contains key then some known
          else if known.any (·.1 == key) then none
          else some ((key, value) :: known)

/-- Reads a record from an object, or from an array of its fields in order. An array may leave
fields at its end away but has none in excess. -/
def fields? (names : List String) : Json → Option Fields
  | object members => (knownMembers? names members).map fun present => ⟨present, true⟩
  | array items => if names.length < items.length then none else some ⟨names.zip items, false⟩
  | _ => none

end Json
end Shakedown
