import Shakedown.Proofs.Scope.Local

/-!
# Uses that wait

A use that waits in the scope of a function does not change how the rest of the function is read.
So two stacks that differ in what waits there, in what is settled and in what is declared again keep
differing in the same way, whatever is read on both.
-/

namespace Shakedown
namespace ScopeStack

/-- The innermost scope belongs to a function and is in the given mode, inside the given scopes. -/
def InFunction (isStrict : Bool) (outer : List Frame) (stack : ScopeStack) : Prop :=
  ∃ frame : Frame, frame.isFunction ∧ frame.isStrict = isStrict ∧ stack.frames = frame :: outer

theorem InFunction.opened {isStrict : Bool} {outer : List Frame} {stack : ScopeStack}
    (inside : InFunction isStrict outer stack) : stack.frames ≠ [] := by
  obtain ⟨frame, -, -, frames_eq⟩ := inside
  simp [frames_eq]

theorem InFunction.mode {isStrict : Bool} {outer : List Frame} {stack : ScopeStack}
    (inside : InFunction isStrict outer stack) : stack.top.isStrict = isStrict := by
  obtain ⟨frame, -, mode, frames_eq⟩ := inside
  simp [top, frames_eq, mode]

/-- The second stack has what the first one has and what is added, in its innermost scope and below.
Only the uses whose offset is kept are looked at. -/
structure Adds (isStrict : Bool) (kept : Nat → Prop) (added : Gain) (outer : List Frame)
    (stack more : ScopeStack) : Prop where
  /-- The innermost scopes belong to functions and differ in the uses that wait. -/
  frames : ∃ frame pending waiting, frame.isFunction ∧ frame.isStrict = isStrict ∧
    stack.frames = withPending pending frame :: outer ∧
    more.frames = withPending waiting frame :: outer ∧
    ∀ use, kept use.offset → (use ∈ waiting ↔ use ∈ pending ∨ use ∈ added.pending)
  /-- More uses are settled. -/
  settled : ∀ offset symbol, kept offset →
    ((offset, symbol) ∈ more.settled ↔
      (offset, symbol) ∈ stack.settled ∨ (offset, symbol) ∈ added.settled)
  /-- More symbols are declared again. -/
  repeated : ∀ symbol, symbol ∈ more.repeated ↔
    symbol ∈ stack.repeated ∨ symbol ∈ added.repeated

section Adds

variable {isStrict : Bool} {kept : Nat → Prop} {added : Gain} {outer : List Frame}
  {stack more : ScopeStack}
  {scopes : List Bool}

theorem Adds.inSameMode (adds : Adds isStrict kept added outer stack more) :
    InSameMode stack more := by
  obtain ⟨⟨frame, pending, waiting, -, -, frames_eq, more_eq, -⟩, -, -⟩ := adds
  constructor
  · simp [frames_eq]
  · simp [more_eq]
  · simp [top, frames_eq, more_eq, withPending]

theorem Adds.grow (adds : Adds isStrict kept added outer stack more) (gain : Gain) :
    Adds isStrict kept added outer (stack.grow [] gain) (more.grow [] gain) := by
  obtain ⟨⟨frame, pending, waiting, is_function, mode, frames_eq, more_eq, waits⟩, settled,
    repeated⟩ := adds
  refine ⟨⟨frame, gain.pending ++ pending, gain.pending ++ waiting, is_function, mode, ?_, ?_, ?_⟩,
    ?_, ?_⟩
  · simp [ScopeStack.grow, frames_eq, hand, withPending]
  · simp [ScopeStack.grow, more_eq, hand, withPending]
  · intro use is_kept
    simp [waits use is_kept, or_assoc]
  · intro offset symbol is_kept
    simp [ScopeStack.grow, settled offset symbol is_kept, or_assoc]
  · intro symbol
    simp [ScopeStack.grow, repeated symbol, or_assoc]

/-- What is gained on both stacks may be counted as having been there before. -/
theorem exists_of_grown (grown : Grown (Adds isStrict kept added outer) scopes stack more) :
    ∃ inner base other,
      Adds isStrict kept added outer base other ∧ inner.map Frame.isFunction = scopes ∧
      stack = base.grow inner .none ∧ more = other.grow inner .none := by
  obtain ⟨inner, gain, base, other, adds, flags, rfl, rfl⟩ := grown
  exact ⟨inner, _, _, adds.grow gain, flags, base.grow_eq inner gain, other.grow_eq inner gain⟩

theorem Adds.declare (adds : Adds isStrict kept added outer stack more)
    (offset : Nat) (name : String) :
    Adds isStrict kept added outer (stack.declare offset name) (more.declare offset name) := by
  obtain ⟨⟨frame, pending, waiting, is_function, mode, frames_eq, more_eq, waits⟩, settled,
    again⟩ := adds
  obtain ⟨changed, symbol, repeated, flag, changed_mode, declares⟩ :=
    exists_declare frame offset name
  rw [declares _ _ stack frames_eq, declares _ _ more more_eq]
  refine ⟨⟨changed, pending, waiting, flag ▸ is_function, changed_mode.trans mode, rfl, rfl, waits⟩,
    settled, fun symbol => ?_⟩
  simp [again symbol, or_assoc]

/-- A variable of the function may pass through blocks on its way. -/
theorem declareVariable_grown (adds : Adds isStrict kept added outer stack more)
    {blocks : List Frame}
    (blocks_only : true ∉ blocks.map Frame.isFunction) (offset : Nat) (name : String) :
    Grown (Adds isStrict kept added outer) (blocks.map Frame.isFunction)
      ((stack.grow blocks .none).declareVariable offset name)
      ((more.grow blocks .none).declareVariable offset name) := by
  obtain ⟨⟨function, pending, waiting, is_function, mode, frames_eq, more_eq, waits⟩, settled,
    again⟩ := adds
  obtain ⟨changed, owner, symbol, repeated, flags, owner_flag, owner_mode, declares⟩ :=
    exists_declareVariable blocks_only is_function offset name
  have grown_frames : ∀ base : ScopeStack, ∀ waiting,
      base.frames = withPending waiting function :: outer →
      (base.grow blocks .none).frames = blocks ++ withPending waiting function :: outer := by
    intro base waiting base_frames
    rw [ScopeStack.grow, base_frames]
    rfl
  rw [declares _ _ _ (grown_frames stack pending frames_eq),
    declares _ _ _ (grown_frames more waiting more_eq)]
  refine ⟨changed, .none,
    ⟨withPending pending owner :: outer, stack.settled, stack.uses, repeated ++ stack.repeated,
      (offset, symbol) :: stack.declarations⟩,
    ⟨withPending waiting owner :: outer, more.settled, more.uses, repeated ++ more.repeated,
      (offset, symbol) :: more.declarations⟩, ?_, flags, rfl, rfl⟩
  refine ⟨⟨owner, pending, waiting, owner_flag, owner_mode.trans mode, rfl, rfl, waits⟩, settled,
    fun symbol => ?_⟩
  simp [again symbol, or_assoc]

/-- Reading keeps what is added, as long as the uses that wait are not settled in between. -/
theorem simulation_adds (isStrict : Bool) (kept : Nat → Prop) (added : Gain) (outer : List Frame) :
    Simulation id true false (Grown (Adds isStrict kept added outer)) :=
  have alike : Simulation id false false (Grown (Adds isStrict kept added outer)) :=
    simulation_grown Adds.inSameMode
  { isStrict := alike.isStrict
    use := alike.use
    declare := by
      intro scopes stack more offset name _ start
      cases scopes with
      | cons isFunction scopes =>
          exact alike.declare offset name (.inl (List.cons_ne_nil _ _)) start
      | nil =>
          obtain ⟨inner, base, other, adds, flags, rfl, rfl⟩ := exists_of_grown start
          obtain rfl := List.map_eq_nil_iff.1 flags
          rw [grow_none, grow_none]
          exact .of_related (adds.declare offset name)
    declareVariable := by
      intro scopes stack more offset name _ start
      by_cases owned : true ∈ scopes
      · exact alike.declareVariable offset name (.inl owned) start
      · obtain ⟨blocks, base, other, adds, rfl, rfl, rfl⟩ := exists_of_grown start
        exact declareVariable_grown adds owned offset name
    settle := alike.settle
    enter := alike.enter
    leave := alike.leave }

/-! ## Adding more -/

theorem Adds.left (adds : Adds isStrict kept added outer stack more) :
    InFunction isStrict outer stack := by
  obtain ⟨frame, pending, waiting, is_function, mode, frames_eq, -⟩ := adds.frames
  exact ⟨withPending pending frame, is_function, mode, frames_eq⟩

theorem Adds.right (adds : Adds isStrict kept added outer stack more) :
    InFunction isStrict outer more := by
  obtain ⟨frame, pending, waiting, is_function, mode, -, more_eq, -⟩ := adds.frames
  exact ⟨withPending waiting frame, is_function, mode, more_eq⟩

theorem Adds.refl (kept : Nat → Prop) (inside : InFunction isStrict outer stack) :
    Adds isStrict kept .none outer stack stack where
  frames := by
    obtain ⟨frame, is_function, mode, frames_eq⟩ := inside
    exact ⟨frame, frame.pending, frame.pending, is_function, mode, frames_eq, frames_eq,
      by simp [Gain.none]⟩
  settled := by simp [Gain.none]
  repeated := by simp [Gain.none]

theorem Adds.mono {fewer : Nat → Prop} (adds : Adds isStrict kept added outer stack more)
    (implies : ∀ offset, fewer offset → kept offset) :
    Adds isStrict fewer added outer stack more := by
  obtain ⟨⟨frame, pending, waiting, is_function, mode, frames_eq, more_eq, waits⟩, settled,
    repeated⟩ := adds
  exact ⟨⟨frame, pending, waiting, is_function, mode, frames_eq, more_eq,
    fun use is_kept => waits use (implies _ is_kept)⟩,
    fun offset symbol is_kept => settled offset symbol (implies _ is_kept), repeated⟩

theorem Adds.trans {further : Gain} {most : ScopeStack}
    (adds : Adds isStrict kept added outer stack more)
    (behind : Adds isStrict kept further outer more most) :
    Adds isStrict kept (added.append further) outer stack most := by
  obtain ⟨⟨frame, pending, waiting, is_function, mode, frames_eq, more_eq, waits⟩, settled,
    repeated⟩ := adds
  obtain ⟨⟨again, between, waiting', -, -, between_eq, most_eq, waits'⟩, settled', repeated'⟩ :=
    behind
  obtain ⟨same, -⟩ := List.cons.inj (more_eq.symm.trans between_eq)
  obtain rfl : waiting = between := congrArg Frame.pending same
  have frame_eq : withPending waiting' again = withPending waiting' frame :=
    (congrArg (withPending waiting') same.symm :)
  refine ⟨⟨frame, pending, waiting', is_function, mode, frames_eq, frame_eq ▸ most_eq, ?_⟩, ?_, ?_⟩
  · intro use is_kept
    simp [waits' use is_kept, waits use is_kept, Gain.append, or_assoc]
  · intro offset symbol is_kept
    simp [settled' offset symbol is_kept, settled offset symbol is_kept, Gain.append, or_assoc]
  · intro symbol
    simp [repeated' symbol, repeated symbol, Gain.append, or_assoc]

theorem Adds.of_grown (grown : Grown (Adds isStrict kept added outer) [] stack more) :
    Adds isStrict kept added outer stack more := by
  obtain ⟨inner, base, other, both, flags, rfl, rfl⟩ := exists_of_grown grown
  obtain rfl := List.map_eq_nil_iff.1 flags
  rwa [grow_none, grow_none]

/-- What is read next on both stacks keeps what is added. -/
theorem Adds.readNodes (adds : Adds isStrict kept added outer stack more) {nodes : List Node}
    (permits : ∀ node ∈ nodes, node.Permits true false) :
    Adds isStrict kept added outer (ScopeStack.readNodes nodes stack)
      (ScopeStack.readNodes nodes more) :=
  .of_grown ((simulation_adds isStrict kept added outer).readNodes (.inr permits)
    (Node.mirrorsAll_refl fun node _ => node.mirrors_refl) (.of_related adds))

theorem Adds.declareForm (adds : Adds isStrict kept added outer stack more) (form : VariableForm)
    (bindings : List Node) :
    Adds isStrict kept added outer (stack.declareForm form bindings)
      (more.declareForm form bindings) :=
  .of_grown ((simulation_adds isStrict kept added outer).declareForm (.inr rfl)
    (by simp [Node.moveName, Function.comp_def]) (.of_related adds))

/-- A tree that declares nothing around it adds what it gains. -/
theorem adds_readNode (inside : InFunction isStrict outer stack) {node : Node}
    (permits : node.Permits false false) :
    Adds isStrict kept (gainOf isStrict node) outer stack
      (ScopeStack.readNode false node stack) := by
  rw [readNode_eq_grow permits inside.opened, inside.mode]
  obtain ⟨frame, is_function, mode, frames_eq⟩ := inside
  refine ⟨⟨frame, frame.pending, (gainOf isStrict node).pending ++ frame.pending, is_function, mode,
    frames_eq, ?_, fun use _ => ?_⟩, fun offset symbol _ => ?_, fun symbol => ?_⟩
  · simp [ScopeStack.grow, frames_eq, hand, withPending]
  · simp [or_comm]
  · simp [ScopeStack.grow, or_comm]
  · simp [ScopeStack.grow, or_comm]

end Adds
end ScopeStack
end Shakedown
