import Shakedown.Script.Node

/-!
# Scopes while a program is read

A stack of frames, one for each scope that is open. A frame knows the names declared in it and the
uses of names that are not settled yet. When a scope closes, each use of a name declared in it
belongs to that declaration, and all other uses are handed to the scope around.

A declaration is known by the offset of its first declaring name. Declaring a name again where it
is visible in the same scope adds to the symbol that is there, and from then on no single
declaration stands for that symbol. A variable that belongs to the function passes through the
blocks between its declaration and the function. If one of them declares the name, the two are one
symbol, which then belongs to the function unless the function declares the name itself.
-/

namespace Shakedown

/-- A declared thing, by the offset of its first declaring name. -/
abbrev Symbol := Nat

/-- One use of a name. -/
structure NameUse where
  /-- Offset of the use. -/
  offset : Nat
  /-- The name. -/
  name : String
  deriving DecidableEq, Repr, Inhabited

/-- An open scope. -/
structure Frame where
  /-- Whether variables that belong to a function stop here. -/
  isFunction : Bool
  /-- Whether the scope is in strict mode. -/
  isStrict : Bool
  /-- The names declared in the scope. -/
  declared : List (String × Symbol)
  /-- The names of variables that passed through. -/
  passed : List (String × Symbol)
  /-- The uses that are not settled, the last one first. -/
  pending : List NameUse
  deriving Repr, Inhabited

/-- A scope in which nothing is declared. -/
def Frame.fresh (isFunction isStrict : Bool) : Frame :=
  { isFunction, isStrict, declared := [], passed := [], pending := [] }

/-- The symbol that a declaration of `name` in the scope adds to. -/
def Frame.known? (frame : Frame) (name : String) : Option Symbol :=
  frame.declared.lookup name <|> frame.passed.lookup name

/-- The names of a program as far as it is read. -/
structure ScopeStack where
  /-- The open scopes, the innermost first. -/
  frames : List Frame
  /-- The settled uses: offset of the use and symbol. -/
  settled : List (Nat × Symbol)
  /-- All uses, the last one first. -/
  uses : List NameUse
  /-- The symbols that are declared more than once. -/
  repeated : List Symbol
  /-- The symbol of each declaring name, by the offset of the name. -/
  declarations : List (Nat × Symbol)
  deriving Repr, Inhabited

namespace ScopeStack

/-- The innermost scope. -/
def top (stack : ScopeStack) : Frame :=
  stack.frames.headD (Frame.fresh true false)

/-- Changes the innermost scope. -/
def changeTop (stack : ScopeStack) (change : Frame → Frame) : ScopeStack :=
  match stack.frames with
  | [] => stack
  | frame :: frames => { stack with frames := change frame :: frames }

/-- Notes the use of a name in the innermost scope. -/
def use (stack : ScopeStack) (offset : Nat) (name : String) : ScopeStack :=
  let noted := { stack with uses := ⟨offset, name⟩ :: stack.uses }
  noted.changeTop fun frame => { frame with pending := ⟨offset, name⟩ :: frame.pending }

/-- Notes that a declaring name belongs to a symbol. -/
def note (stack : ScopeStack) (offset : Nat) (symbol : Symbol) : ScopeStack :=
  { stack with declarations := (offset, symbol) :: stack.declarations }

/-- Notes that a symbol is declared again. -/
def noteRepeated (stack : ScopeStack) (offset : Nat) (symbol : Symbol) : ScopeStack :=
  { stack.note offset symbol with repeated := symbol :: stack.repeated }

/-- A scope with one more declared name. -/
def addName (name : String) (symbol : Symbol) (frame : Frame) : Frame :=
  { frame with declared := (name, symbol) :: frame.declared }

/-- Declares a name in the innermost scope. -/
def declare (stack : ScopeStack) (offset : Nat) (name : String) : ScopeStack :=
  match stack.top.known? name with
  | some symbol => stack.noteRepeated offset symbol
  | none => (stack.note offset offset).changeTop (addName name offset)

/-- The scopes up to that of the function, and the scopes from there on. -/
def splitAtFunction : List Frame → List Frame × List Frame
  | [] => ([], [])
  | frame :: frames =>
      if frame.isFunction then ([], frame :: frames)
      else
        let (blocks, rest) := splitAtFunction frames
        (frame :: blocks, rest)

/-- The scopes without the declaration of a name in the first of them that declares it. -/
def forgetFirst (name : String) : List Frame → List Frame
  | [] => []
  | frame :: frames =>
      if (frame.declared.lookup name).isSome then
        { frame with declared := frame.declared.filter (·.1 != name) } :: frames
      else
        frame :: forgetFirst name frames

/-- A scope that a variable passed through. -/
def addPassed (name : String) (symbol : Symbol) (frame : Frame) : Frame :=
  { frame with passed := (name, symbol) :: frame.passed.filter (·.1 != name) }

/-- Moves the symbol of a name out of the blocks into the scope of the function, the first of
`rest`, unless the function declares the name itself. -/
def hoist (name : String) (symbol : Symbol) (blocks rest : List Frame) : List Frame :=
  match rest with
  | [] => blocks
  | function :: outer =>
      if (function.declared.lookup name).isSome then blocks ++ function :: outer
      else forgetFirst name blocks ++ addName name symbol function :: outer

/-- Declares a variable that belongs to the function. -/
def declareVariable (stack : ScopeStack) (offset : Nat) (name : String) : ScopeStack :=
  let (blocks, rest) := splitAtFunction stack.frames
  match blocks.findSome? (·.known? name) with
  | some symbol =>
      let passed := blocks.map (addPassed name symbol)
      { stack.noteRepeated offset symbol with frames := hoist name symbol passed rest }
  | none =>
      let inner := { stack with frames := rest }.declare offset name
      let symbol := (inner.declarations.lookup offset).getD offset
      { inner with frames := blocks.map (addPassed name symbol) ++ inner.frames }

/-- Settles the uses of names that the innermost scope declares and hands the others to the scope
around. -/
def settle (stack : ScopeStack) : ScopeStack :=
  match stack.frames with
  | frame :: outer :: frames =>
      let (inside, outside) :=
        frame.pending.partition fun use => (frame.declared.lookup use.name).isSome
      let found := inside.filterMap fun use =>
        (frame.declared.lookup use.name).map fun symbol => (use.offset, symbol)
      { stack with
        settled := found ++ stack.settled
        frames :=
          { frame with pending := [] } ::
            { outer with pending := outside ++ outer.pending } :: frames }
  | [frame] =>
      let found := frame.pending.filterMap fun use =>
        (frame.declared.lookup use.name).map fun symbol => (use.offset, symbol)
      { stack with settled := found ++ stack.settled, frames := [{ frame with pending := [] }] }
  | [] => stack

/-- Opens a scope, reads what is inside, and closes the scope. -/
def inScope (frame : Frame) (inside : ScopeStack → ScopeStack) (stack : ScopeStack) :
    ScopeStack :=
  let stack := (inside { stack with frames := frame :: stack.frames }).settle
  { stack with frames := stack.frames.drop 1 }

end ScopeStack
end Shakedown
