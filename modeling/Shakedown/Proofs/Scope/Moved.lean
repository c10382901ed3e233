import Shakedown.Proofs.Scope.Reading

/-!
# Programs that differ in places only

Symbols and uses are known by their offsets. Where the names of two programs differ in their places
alone, all that is known of the one is known of the other in its own places, so the meanings of the
names are the same.
-/

namespace Shakedown

open Node

/-- A use in its new place. -/
def NameUse.moved (position : Nat → Nat) (use : NameUse) : NameUse :=
  { use with offset := position use.offset }

/-- A scope with its names in their new places. -/
def Frame.moved (position : Nat → Nat) (frame : Frame) : Frame :=
  { frame with
    declared := frame.declared.map (Prod.map id position)
    passed := frame.passed.map (Prod.map id position)
    pending := frame.pending.map (NameUse.moved position) }

/-- A meaning with its symbol in its new place. -/
def Meaning.moved (position : Nat → Nat) : Meaning → Meaning
  | .undeclared => .undeclared
  | .sole symbol => .sole (position symbol)
  | .contested symbol => .contested (position symbol)

namespace ScopeStack

/-- A stack of scopes with all names in their new places. -/
def moved (position : Nat → Nat) (stack : ScopeStack) : ScopeStack where
  frames := stack.frames.map (Frame.moved position)
  settled := stack.settled.map (Prod.map position position)
  uses := stack.uses.map (NameUse.moved position)
  repeated := stack.repeated.map position
  declarations := stack.declarations.map (Prod.map position position)

variable {position : Nat → Nat} {name : String} {symbol : Symbol}

/-! ## Each change in its new places -/

theorem lookup_map_id {α β γ : Type} [BEq α] [LawfulBEq α] (change : β → γ) (list : List (α × β))
    (key : α) : (list.map (Prod.map id change)).lookup key = (list.lookup key).map change := by
  induction list with
  | nil => rfl
  | cons pair rest ih =>
      rw [List.map_cons, List.lookup_cons, List.lookup_cons, ih]
      cases same : key == pair.1 <;> simp [same]

@[simp] theorem lookup_declared_moved (frame : Frame) (name : String) :
    (frame.moved position).declared.lookup name = (frame.declared.lookup name).map position :=
  lookup_map_id position frame.declared name

@[simp] theorem known?_moved (frame : Frame) (name : String) :
    (frame.moved position).known? name = (frame.known? name).map position := by
  rw [Frame.known?, Frame.known?, lookup_declared_moved, Frame.moved, lookup_map_id]
  cases frame.declared.lookup name <;> rfl

@[simp] theorem isStrict_moved (frame : Frame) : (frame.moved position).isStrict = frame.isStrict :=
  rfl

@[simp] theorem isFunction_moved (frame : Frame) :
    (frame.moved position).isFunction = frame.isFunction :=
  rfl

theorem top_moved (stack : ScopeStack) : (stack.moved position).top = stack.top.moved position := by
  obtain ⟨_ | ⟨frame, frames⟩, settled, uses, repeated, declarations⟩ := stack <;> rfl

theorem use_moved (stack : ScopeStack) (offset : Nat) (name : String) :
    (stack.moved position).use (position offset) name = (stack.use offset name).moved position := by
  obtain ⟨_ | ⟨frame, frames⟩, settled, uses, repeated, declarations⟩ := stack <;> rfl

theorem declare_moved (stack : ScopeStack) (offset : Nat) (name : String) :
    (stack.moved position).declare (position offset) name =
      (stack.declare offset name).moved position := by
  rw [declare, declare, top_moved, known?_moved]
  cases stack.top.known? name with
  | some symbol => rfl
  | none =>
      obtain ⟨_ | ⟨frame, frames⟩, settled, uses, repeated, declarations⟩ := stack <;> rfl

theorem splitAtFunction_moved (frames : List Frame) :
    splitAtFunction (frames.map (Frame.moved position)) =
      ((splitAtFunction frames).1.map (Frame.moved position),
        (splitAtFunction frames).2.map (Frame.moved position)) := by
  induction frames with
  | nil => rfl
  | cons frame frames ih =>
      rw [List.map_cons, splitAtFunction, splitAtFunction, ih, isFunction_moved]
      split <;> rfl

theorem findSome?_known?_moved (frames : List Frame) (name : String) :
    (frames.map (Frame.moved position)).findSome? (·.known? name) =
      (frames.findSome? (·.known? name)).map position := by
  induction frames with
  | nil => rfl
  | cons frame frames ih =>
      rw [List.map_cons, List.findSome?_cons, List.findSome?_cons, ih, known?_moved]
      cases frame.known? name <;> rfl

theorem filter_map_id (list : List (String × Symbol)) (name : String) :
    (list.map (Prod.map id position)).filter (·.1 != name) =
      (list.filter (·.1 != name)).map (Prod.map id position) := by
  rw [List.filter_map]
  rfl

theorem addPassed_moved (frame : Frame) (name : String) (symbol : Symbol) :
    addPassed name (position symbol) (frame.moved position) =
      (addPassed name symbol frame).moved position := by
  simp [addPassed, Frame.moved, filter_map_id]

theorem map_addPassed_moved (frames : List Frame) (name : String) (symbol : Symbol) :
    (frames.map (Frame.moved position)).map (addPassed name (position symbol)) =
      (frames.map (addPassed name symbol)).map (Frame.moved position) := by
  simp [addPassed_moved]

theorem forgetFirst_moved (frames : List Frame) (name : String) :
    forgetFirst name (frames.map (Frame.moved position)) =
      (forgetFirst name frames).map (Frame.moved position) := by
  induction frames with
  | nil => rfl
  | cons frame frames ih =>
      rw [List.map_cons, forgetFirst, forgetFirst, ih, lookup_declared_moved, Option.isSome_map]
      split
      · simp [Frame.moved, filter_map_id]
      · rfl

theorem hoist_moved (name : String) (symbol : Symbol) (blocks rest : List Frame) :
    hoist name (position symbol) (blocks.map (Frame.moved position))
        (rest.map (Frame.moved position)) =
      (hoist name symbol blocks rest).map (Frame.moved position) := by
  cases rest with
  | nil => rfl
  | cons function outer =>
      rw [List.map_cons, hoist, hoist, lookup_declared_moved, Option.isSome_map]
      split
      · simp
      · rw [forgetFirst_moved, List.map_append, List.map_cons]
        rfl

/-- A variable that no block declares is declared in the scope of the function. -/
theorem declareVariable_eq_of_new {stack inner : ScopeStack} {blocks rest : List Frame}
    {offset : Nat} (split_eq : splitAtFunction stack.frames = (blocks, rest))
    (fresh : blocks.findSome? (·.known? name) = none)
    (inner_eq : ScopeStack.declare { stack with frames := rest } offset name = inner)
    (noted : inner.declarations.lookup offset = some symbol) :
    stack.declareVariable offset name =
      { inner with frames := blocks.map (addPassed name symbol) ++ inner.frames } := by
  simp only [declareVariable, split_eq, fresh, inner_eq, noted]
  rfl

theorem declareVariable_moved (stack : ScopeStack) (offset : Nat) (name : String) :
    (stack.moved position).declareVariable (position offset) name =
      (stack.declareVariable offset name).moved position := by
  obtain ⟨blocks, rest, split_eq⟩ : ∃ blocks rest, splitAtFunction stack.frames = (blocks, rest) :=
    ⟨_, _, rfl⟩
  have split_moved : splitAtFunction (stack.moved position).frames =
      (blocks.map (Frame.moved position), rest.map (Frame.moved position)) := by
    rw [moved, splitAtFunction_moved, split_eq]
  have known_moved : (blocks.map (Frame.moved position)).findSome? (·.known? name) = _ :=
    findSome?_known?_moved blocks name
  cases known : blocks.findSome? (·.known? name) with
  | some symbol =>
      rw [known, Option.map_some] at known_moved
      simp only [declareVariable, split_eq, split_moved, known, known_moved, map_addPassed_moved,
        hoist_moved]
      rfl
  | none =>
      rw [known, Option.map_none] at known_moved
      have inner_moved : ScopeStack.declare _ (position offset) name = _ :=
        declare_moved { stack with frames := rest } offset name
      obtain ⟨symbol, declarations_eq, -⟩ :=
        (declares_declare { stack with frames := rest } offset name).noted
      rw [declareVariable_eq_of_new split_eq known rfl
          (by rw [declarations_eq, List.lookup_cons_self]),
        declareVariable_eq_of_new split_moved known_moved inner_moved (by
          rw [moved, declarations_eq, List.map_cons, Prod.map_apply, List.lookup_cons_self])]
      simp [moved, addPassed_moved]

theorem settledIn_moved (frame : Frame) :
    settledIn (frame.moved position) = (settledIn frame).map (Prod.map position position) := by
  rw [settledIn, settledIn, List.map_filterMap, Frame.moved, List.filterMap_map]
  congr 1
  funext use
  dsimp only [Function.comp_apply, NameUse.moved]
  rw [lookup_map_id]
  cases frame.declared.lookup use.name <;> rfl

theorem handedOn_moved (frame : Frame) :
    handedOn (frame.moved position) = (handedOn frame).map (NameUse.moved position) := by
  rw [handedOn, handedOn, Frame.moved, List.filter_map]
  dsimp only
  congr 1
  refine List.filter_congr fun use _ => ?_
  simp [NameUse.moved, lookup_map_id]

theorem settle_moved (stack : ScopeStack) :
    (stack.moved position).settle = stack.settle.moved position := by
  obtain ⟨_ | ⟨frame, _ | ⟨outer, frames⟩⟩, settled, uses, repeated, declarations⟩ := stack
  · rfl
  · rw [settle_eq_of_outermost rfl, settle_eq_of_outermost rfl]
    simp [moved, settledIn_moved]
    rfl
  · rw [settle_eq_of_around rfl, settle_eq_of_around rfl]
    simp only [moved, List.map_cons, settledIn_moved, handedOn_moved, List.map_append]
    simp [hand, emptied, Frame.moved]

/-- Reading in new places is moving what was read. -/
theorem simulation_moved (position : Nat → Nat) : Simulation position true true
    fun _ stack partner => partner = stack.moved position where
  isStrict := by rintro _ stack _ rfl; rw [top_moved, isStrict_moved]
  use := by rintro _ stack _ offset name rfl; exact use_moved stack offset name
  declare := by rintro _ stack _ offset name - rfl; exact declare_moved stack offset name
  declareVariable := by
    rintro _ stack _ offset name - rfl
    exact declareVariable_moved stack offset name
  settle := by rintro _ stack _ - rfl; exact settle_moved stack
  enter := by rintro _ stack _ isFunction isStrict rfl; rfl
  leave := by
    rintro _ _ stack _ rfl
    rw [leave, leave, settle_moved]
    simp [moved]

/-- Programs that mirror each other have the same names, each in its own places. -/
theorem ofProgram_of_mirrors {program image : Program}
    (strict_eq : image.isStrict = program.isStrict)
    (mirrored : mirrorsAll position program.body image.body) :
    ofProgram image = (ofProgram program).moved position := by
  have permitted : true ∈ ([] : List Bool) ∨ ∀ node ∈ program.body, node.Permits true true :=
    .inr fun node _ => node.permits_all
  rw [ofProgram, ofProgram, strict_eq,
    ← settle_moved (readNodes program.body ⟨[.fresh true program.isStrict], [], [], [], []⟩)]
  exact congrArg settle ((simulation_moved position).readNodes permitted mirrored rfl)

end ScopeStack

namespace Scoping

/-- What a use means is told by the symbol that it is settled with. -/
theorem resolve_eq (scoping : Scoping) (offset : Nat) : scoping.resolve offset =
    match scoping.meanings.lookup offset with
    | none => .undeclared
    | some symbol => if symbol ∈ scoping.repeated then .contested symbol else .sole symbol := by
  rw [resolve]
  cases scoping.meanings.lookup offset <;> simp only [List.contains_iff_mem]

theorem lookup_map_of_injective {position : Nat → Nat} (injective : Function.Injective position)
    (list : List (Nat × Symbol)) (offset : Nat) :
    (list.map (Prod.map position position)).lookup (position offset) =
      (list.lookup offset).map position := by
  induction list with
  | nil => rfl
  | cons pair rest ih =>
      rw [List.map_cons, List.lookup_cons, List.lookup_cons, ih, Prod.map_fst]
      by_cases same : offset = pair.1
      · simp [same]
      · have apart : position offset ≠ position pair.1 := fun eq => same (injective eq)
        rw [beq_false_of_ne same, beq_false_of_ne apart]

/-- So the names of programs that mirror each other mean the same. -/
theorem resolve_of_mirrors {position : Nat → Nat} (injective : Function.Injective position)
    {program image : Program} (strict_eq : image.isStrict = program.isStrict)
    (mirrored : mirrorsAll position program.body image.body) (offset : Nat) :
    (ofProgram image).resolve (position offset) =
      ((ofProgram program).resolve offset).moved position := by
  have stack_eq := ScopeStack.ofProgram_of_mirrors strict_eq mirrored
  have meanings_eq : (ofProgram image).meanings =
      (ofProgram program).meanings.map (Prod.map position position) :=
    congrArg ScopeStack.settled stack_eq
  have repeated_eq : (ofProgram image).repeated = (ofProgram program).repeated.map position :=
    congrArg ScopeStack.repeated stack_eq
  rw [resolve_eq, resolve_eq, meanings_eq, repeated_eq, lookup_map_of_injective injective]
  cases (ofProgram program).meanings.lookup offset with
  | none => rfl
  | some symbol =>
      have repeated_iff : position symbol ∈ (ofProgram program).repeated.map position ↔
          symbol ∈ (ofProgram program).repeated :=
        ⟨fun listed => by
          obtain ⟨other, among, same⟩ := List.mem_map.1 listed
          exact injective same ▸ among, List.mem_map_of_mem⟩
      simp only [Option.map_some, repeated_iff]
      split <;> rfl

end Scoping
end Shakedown
