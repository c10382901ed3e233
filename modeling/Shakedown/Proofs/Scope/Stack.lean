import Shakedown.Scope.Frame

/-!
# What changes a stack of scopes

Declaring a name changes what the scopes declare and what is noted about symbols, nothing else: the
scopes stay the same in number and sort, and no use is added, settled or lost.
-/

namespace Shakedown

/-- What declarations leave alone in a scope. -/
def Frame.outline (frame : Frame) : Bool × Bool × List NameUse :=
  (frame.isFunction, frame.isStrict, frame.pending)

namespace ScopeStack

variable {stack after : ScopeStack} {offset : Nat} {name : String} {symbol : Symbol}
  {frames blocks rest : List Frame}

/-- A name is declared at an offset, for a symbol of its own or for one that is declared again. -/
structure Declares (offset : Nat) (stack after : ScopeStack) : Prop where
  /-- No use is settled. -/
  settled : after.settled = stack.settled
  /-- No use is noted. -/
  uses : after.uses = stack.uses
  /-- The scopes are of the same sorts and have the same uses. -/
  outlines : after.frames.map Frame.outline = stack.frames.map Frame.outline
  /-- The name has a symbol. -/
  noted : ∃ symbol, after.declarations = (offset, symbol) :: stack.declarations ∧
    (symbol = offset ∧ after.repeated = stack.repeated ∨ after.repeated = symbol :: stack.repeated)

@[simp] theorem outline_addName (frame : Frame) :
    (addName name symbol frame).outline = frame.outline :=
  rfl

@[simp] theorem outline_addPassed (frame : Frame) :
    (addPassed name symbol frame).outline = frame.outline :=
  rfl

theorem map_outline_addPassed :
    (frames.map (addPassed name symbol)).map Frame.outline = frames.map Frame.outline := by
  simp

theorem splitAtFunction_append (frames : List Frame) :
    (splitAtFunction frames).1 ++ (splitAtFunction frames).2 = frames := by
  induction frames with
  | nil => rfl
  | cons frame frames ih =>
      unfold splitAtFunction
      split
      · rfl
      · simp [ih]

theorem map_outline_forgetFirst :
    (forgetFirst name frames).map Frame.outline = frames.map Frame.outline := by
  induction frames with
  | nil => rfl
  | cons frame frames ih =>
      unfold forgetFirst
      split
      · rfl
      · simp [ih]

theorem map_outline_hoist :
    (hoist name symbol blocks rest).map Frame.outline = (blocks ++ rest).map Frame.outline := by
  unfold hoist
  split
  · simp
  split
  · rfl
  · simp [map_outline_forgetFirst]

theorem declares_declare (stack : ScopeStack) (offset : Nat) (name : String) :
    stack.Declares offset (stack.declare offset name) := by
  unfold declare
  split
  · rename_i symbol _
    exact ⟨rfl, rfl, rfl, symbol, rfl, .inr rfl⟩
  · obtain ⟨frames, settled, uses, repeated, declarations⟩ := stack
    cases frames <;> exact ⟨rfl, rfl, rfl, offset, rfl, .inl ⟨rfl, rfl⟩⟩

theorem declares_declareVariable (stack : ScopeStack) (offset : Nat) (name : String) :
    stack.Declares offset (stack.declareVariable offset name) := by
  have whole := splitAtFunction_append stack.frames
  unfold declareVariable
  split
  rename_i blocks rest split_eq
  rw [split_eq] at whole
  split
  · rename_i symbol _
    refine ⟨rfl, rfl, ?_, symbol, rfl, .inr rfl⟩
    rw [← whole]
    simp [map_outline_hoist]
  · have declared := declares_declare { stack with frames := rest } offset name
    refine ⟨declared.settled, declared.uses, ?_, declared.noted⟩
    have outlines := declared.outlines
    dsimp only at outlines ⊢
    rw [List.map_append, map_outline_addPassed, outlines, ← List.map_append, whole]

/-! ## What a declaration looks at -/

/-- A scope with the given uses. -/
def withPending (pending : List NameUse) (frame : Frame) : Frame :=
  { frame with pending }

@[simp] theorem withPending_self (frame : Frame) : withPending frame.pending frame = frame :=
  rfl

/-- Declaring a name looks at the names of the innermost scope and at nothing else. -/
theorem exists_declare (frame : Frame) (offset : Nat) (name : String) :
    ∃ changed symbol repeated, changed.isFunction = frame.isFunction ∧
      changed.isStrict = frame.isStrict ∧
      ∀ pending outer, ∀ stack : ScopeStack, stack.frames = withPending pending frame :: outer →
        stack.declare offset name = { stack with
          frames := withPending pending changed :: outer
          repeated := repeated ++ stack.repeated
          declarations := (offset, symbol) :: stack.declarations } := by
  have top_eq : ∀ pending outer, ∀ stack : ScopeStack,
      stack.frames = withPending pending frame :: outer →
      stack.top.known? name = frame.known? name := by
    intro pending outer stack frames_eq
    rw [top, frames_eq]
    rfl
  cases known : frame.known? name with
  | some symbol =>
      refine ⟨frame, symbol, [symbol], rfl, rfl, fun pending outer stack frames_eq => ?_⟩
      simp [declare, top_eq pending outer stack frames_eq, known, noteRepeated, note, ← frames_eq]
  | none =>
      refine ⟨addName name offset frame, offset, [], rfl, rfl,
        fun pending outer stack frames_eq => ?_⟩
      simp [declare, top_eq pending outer stack frames_eq, known, changeTop, note, frames_eq,
        addName, withPending]

/-- The blocks in front of the scope of a function. -/
theorem splitAtFunction_eq {function : Frame} (blocks_only : true ∉ blocks.map Frame.isFunction)
    (is_function : function.isFunction) (outer : List Frame) :
    splitAtFunction (blocks ++ function :: outer) = (blocks, function :: outer) := by
  induction blocks with
  | nil => simp [splitAtFunction, is_function]
  | cons block blocks ih =>
      obtain ⟨block_flag, blocks_only⟩ : true ≠ block.isFunction ∧
          true ∉ blocks.map Frame.isFunction := by
        rw [List.map_cons, List.mem_cons, not_or] at blocks_only
        exact blocks_only
      rw [List.cons_append, splitAtFunction, if_neg (Ne.symm block_flag), ih blocks_only]

theorem exists_function (owned : true ∈ frames.map Frame.isFunction) :
    ∃ blocks function outer, frames = blocks ++ function :: outer ∧
      true ∉ blocks.map Frame.isFunction ∧ function.isFunction := by
  induction frames with
  | nil => contradiction
  | cons frame frames ih =>
      cases flag : frame.isFunction with
      | true => exact ⟨[], frame, frames, rfl, by simp, flag⟩
      | false =>
          obtain ⟨blocks, function, outer, rfl, blocks_only, is_function⟩ := ih (by
            simpa [flag] using owned)
          exact ⟨frame :: blocks, function, outer, rfl, by simpa [flag] using blocks_only,
            is_function⟩

theorem map_isFunction_forgetFirst :
    (forgetFirst name frames).map Frame.isFunction = frames.map Frame.isFunction := by
  simpa [Frame.outline, Function.comp_def] using
    congrArg (List.map Prod.fst) (map_outline_forgetFirst : (forgetFirst name frames).map _ = _)

/-- Declaring a variable looks at the names of the scopes up to that of the function. -/
theorem exists_declareVariable {function : Frame} (blocks_only : true ∉ blocks.map Frame.isFunction)
    (is_function : function.isFunction) (offset : Nat) (name : String) :
    ∃ changed owner symbol repeated, changed.map Frame.isFunction = blocks.map Frame.isFunction ∧
      owner.isFunction ∧ owner.isStrict = function.isStrict ∧
      ∀ pending outer, ∀ stack : ScopeStack,
        stack.frames = blocks ++ withPending pending function :: outer →
        stack.declareVariable offset name = { stack with
          frames := changed ++ withPending pending owner :: outer
          repeated := repeated ++ stack.repeated
          declarations := (offset, symbol) :: stack.declarations } := by
  have split_eq : ∀ pending outer,
      splitAtFunction (blocks ++ withPending pending function :: outer) =
        (blocks, withPending pending function :: outer) :=
    fun pending => splitAtFunction_eq blocks_only
      (show (withPending pending function).isFunction from is_function)
  cases passed : blocks.findSome? (·.known? name) with
  | some symbol =>
      cases own : (function.declared.lookup name).isSome with
      | true =>
          refine ⟨blocks.map (addPassed name symbol), function, symbol, [symbol], ?_, is_function,
            rfl, fun pending outer stack frames_eq => ?_⟩
          · simp [addPassed]
          · have own : ((withPending pending function).declared.lookup name).isSome := own
            simp only [declareVariable, frames_eq, split_eq, passed, hoist, own]
            rfl
      | false =>
          refine ⟨forgetFirst name (blocks.map (addPassed name symbol)),
            addName name symbol function, symbol, [symbol], ?_, is_function, rfl,
            fun pending outer stack frames_eq => ?_⟩
          · simp [map_isFunction_forgetFirst, addPassed]
          · have own : ((withPending pending function).declared.lookup name).isSome = false := own
            simp only [declareVariable, frames_eq, split_eq, passed, hoist, own]
            rfl
  | none =>
      obtain ⟨changed, symbol, repeated, flag, mode, declares⟩ :=
        exists_declare function offset name
      refine ⟨blocks.map (addPassed name symbol), changed, symbol, repeated, ?_, flag ▸ is_function,
        mode, fun pending outer stack frames_eq => ?_⟩
      · simp [addPassed]
      · simp only [declareVariable, frames_eq, split_eq, passed]
        rw [declares pending outer
          { stack with frames := withPending pending function :: outer } rfl]
        simp

/-! ## Settling uses -/

/-- The uses in a scope that are settled when it closes. -/
def settledIn (frame : Frame) : List (Nat × Symbol) :=
  frame.pending.filterMap fun use =>
    (frame.declared.lookup use.name).map fun symbol => (use.offset, symbol)

/-- The uses in a scope that are handed to the scope around when it closes. -/
def handedOn (frame : Frame) : List NameUse :=
  frame.pending.filter fun use => (frame.declared.lookup use.name).isNone

/-- A scope with more uses. -/
def hand (uses : List NameUse) (frame : Frame) : Frame :=
  { frame with pending := uses ++ frame.pending }

/-- A scope whose uses are settled. -/
def emptied (frame : Frame) : Frame :=
  { frame with pending := [] }

theorem mem_settledIn {frame : Frame} : (offset, symbol) ∈ settledIn frame ↔
    ∃ use ∈ frame.pending, use.offset = offset ∧ frame.declared.lookup use.name = some symbol := by
  simp only [settledIn, List.mem_filterMap, Option.map_eq_some_iff, Prod.mk.injEq]
  constructor
  · rintro ⟨use, listed, _, found, rfl, rfl⟩
    exact ⟨use, listed, rfl, found⟩
  · rintro ⟨use, listed, rfl, found⟩
    exact ⟨use, listed, symbol, found, rfl, rfl⟩

theorem mem_handedOn {frame : Frame} {use : NameUse} : use ∈ handedOn frame ↔
    use ∈ frame.pending ∧ frame.declared.lookup use.name = none := by
  simp [handedOn]

theorem partition_pending (frame : Frame) :
    ((frame.pending.partition fun use => (frame.declared.lookup use.name).isSome).1.filterMap
        fun use => (frame.declared.lookup use.name).map fun symbol => (use.offset, symbol)) =
      settledIn frame ∧
    (frame.pending.partition fun use => (frame.declared.lookup use.name).isSome).2 =
      handedOn frame := by
  rw [List.partition_eq_filter_filter]
  constructor
  · rw [List.filterMap_filter]
    congr 1
    funext use
    cases frame.declared.lookup use.name <;> rfl
  · refine List.filter_congr fun use _ => ?_
    cases found : frame.declared.lookup use.name <;> simp [found]

/-- A scope that has one around it hands on what it cannot settle. -/
theorem settle_eq_of_around {frame outer : Frame}
    (frames_eq : stack.frames = frame :: outer :: frames) :
    stack.settle = { stack with
      settled := settledIn frame ++ stack.settled
      frames := emptied frame :: hand (handedOn frame) outer :: frames } := by
  obtain ⟨inside_eq, outside_eq⟩ := partition_pending frame
  rw [← inside_eq, ← outside_eq]
  simp only [settle, frames_eq]
  rfl

/-- The outermost scope forgets what it cannot settle. -/
theorem settle_eq_of_outermost {frame : Frame} (frames_eq : stack.frames = [frame]) :
    stack.settle = { stack with
      settled := settledIn frame ++ stack.settled, frames := [emptied frame] } := by
  simp only [settle, frames_eq]
  rfl

@[simp] theorem uses_settle (stack : ScopeStack) : stack.settle.uses = stack.uses := by
  unfold settle
  split <;> rfl

@[simp] theorem repeated_settle (stack : ScopeStack) : stack.settle.repeated = stack.repeated := by
  unfold settle
  split <;> rfl

@[simp] theorem declarations_settle (stack : ScopeStack) :
    stack.settle.declarations = stack.declarations := by
  unfold settle
  split <;> rfl

theorem suffix_settle (stack : ScopeStack) : stack.settled <:+ stack.settle.settled := by
  obtain ⟨_ | ⟨frame, _ | ⟨outer, frames⟩⟩, settled, uses, repeated, declarations⟩ := stack
  · exact List.suffix_refl _
  · rw [settle_eq_of_outermost rfl]
    exact List.suffix_append _ _
  · rw [settle_eq_of_around rfl]
    exact List.suffix_append _ _

/-! ## Noting uses -/

@[simp] theorem settled_use (stack : ScopeStack) :
    (stack.use offset name).settled = stack.settled := by
  unfold use changeTop
  dsimp only
  split <;> rfl

@[simp] theorem repeated_use (stack : ScopeStack) :
    (stack.use offset name).repeated = stack.repeated := by
  unfold use changeTop
  dsimp only
  split <;> rfl

@[simp] theorem declarations_use (stack : ScopeStack) :
    (stack.use offset name).declarations = stack.declarations := by
  unfold use changeTop
  dsimp only
  split <;> rfl

end ScopeStack
end Shakedown
