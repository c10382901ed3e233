import Shakedown.Proofs.Scope.Added

/-!
# Trees read inside a function

Trees that declare nothing around them can be read at the end of a function instead of behind it.
What they add then waits in the scope of the function first: the uses of names that the function
declares are settled there, and all others are handed to the scope around.
-/

namespace Shakedown

open Node

/-- What reading trees adds in a mode, whatever is around them. -/
def ScopeStack.gainsOf (isStrict : Bool) : List Node → Gain
  | [] => .none
  | node :: rest => (gainOf isStrict node).append (gainsOf isStrict rest)

namespace ScopeStack

/-- A function before its parts are read. -/
def atParts (isStrict : Bool) (parts : List Node) (stack : ScopeStack) : ScopeStack :=
  (stack.enter (.fresh true (isStrict || hasStrictBody parts))).declareAll (ownNames parts)

/-- The names that a function expression declares in its own scope, when it is read in a mode. -/
def ownScope (isStrict : Bool) (parts : List Node) : List (String × Symbol) :=
  (readNodes parts (atParts isStrict parts (blank isStrict))).top.declared

/-- A use is not captured when no use at its offset has a name that the scope declares. -/
def Escapes (declared : List (String × Symbol)) (uses : List NameUse) (offset : Nat) : Prop :=
  ∀ use ∈ uses, use.offset = offset → declared.lookup use.name = none

/-- Where the innermost scope is one of a function, the two ways of reading make no difference but
what the second one adds, in a scope with the declared names. -/
structure Differs (isStrict : Bool) (declared : List (String × Symbol)) (added : Gain)
    (read change : ScopeStack → ScopeStack) : Prop where
  /-- Uses of other names are added. -/
  adds : ∀ {outer stack}, InFunction isStrict outer stack →
    Adds isStrict (Escapes declared added.pending) added outer (read stack) (change stack)
  /-- Uses of declared names are settled. -/
  captures : ∀ {outer stack}, InFunction isStrict outer stack → ∀ use ∈ added.pending,
    ∀ symbol, declared.lookup use.name = some symbol →
      (use.offset, symbol) ∈ (change stack).settled

section Differs

variable {isStrict : Bool} {kept : Nat → Prop} {declared : List (String × Symbol)} {added : Gain}
  {outer : List Frame} {stack more : ScopeStack} {read change : ScopeStack → ScopeStack}

/-- Reading trees outside all functions leaves the scopes around the innermost one alone. -/
theorem InFunction.readNodes (inside : InFunction isStrict outer stack) {nodes : List Node}
    (permits : ∀ node ∈ nodes, node.Permits true false) :
    InFunction isStrict outer (ScopeStack.readNodes nodes stack) :=
  ((Adds.refl (fun _ => True) inside).readNodes permits).left

theorem InFunction.declareForm (inside : InFunction isStrict outer stack) (form : VariableForm)
    (bindings : List Node) : InFunction isStrict outer (stack.declareForm form bindings) :=
  ((Adds.refl (fun _ => True) inside).declareForm form bindings).left

theorem readNodes_append (before after : List Node) (stack : ScopeStack) :
    readNodes (before ++ after) stack = readNodes after (readNodes before stack) := by
  induction before generalizing stack with
  | nil => rfl
  | cons node rest ih => rw [List.cons_append, readNodes, readNodes, ih]

/-- What is settled stays settled. -/
theorem invariant_mem_settled (meaning : Nat × Symbol) : Invariant (meaning ∈ ·.settled) where
  use := fun offset name settled => by rwa [settled_use]
  declare := fun offset name settled => by rwa [(declares_declare _ offset name).settled]
  declareVariable := fun offset name settled => by
    rwa [(declares_declareVariable _ offset name).settled]
  settle := fun settled => (suffix_settle _).mem settled
  enter := fun _ _ settled => settled
  leave := fun settled => (suffix_settle _).mem settled

/-- The difference stays the same between trees that are read both ways. -/
theorem Differs.around (differs : Differs isStrict declared added read change)
    (before after : List Node) (before_permits : ∀ node ∈ before, node.Permits true false)
    (after_permits : ∀ node ∈ after, node.Permits true false) :
    Differs isStrict declared added (fun stack => readNodes after (read (readNodes before stack)))
      fun stack => readNodes after (change (readNodes before stack)) where
  adds := fun inside => (differs.adds (inside.readNodes before_permits)).readNodes after_permits
  captures := fun inside use listed symbol found =>
    (invariant_mem_settled (use.offset, symbol)).readNodes after
      (differs.captures (inside.readNodes before_permits) use listed symbol found)

theorem Differs.row {node change : Node}
    (differs : Differs isStrict declared added (readNode false node) (readNode false change))
    (before after : List Node) (before_permits : ∀ node ∈ before, node.Permits true false)
    (after_permits : ∀ node ∈ after, node.Permits true false) :
    Differs isStrict declared added (readNodes (before ++ node :: after))
      (readNodes (before ++ change :: after)) := by
  have row_eq : ∀ node, readNodes (before ++ node :: after) =
      fun stack => readNodes after (readNode false node (readNodes before stack)) := by
    intro node
    funext stack
    rw [readNodes_append, readNodes]
  rw [row_eq, row_eq]
  exact differs.around before after before_permits after_permits

/-- Trees that declare nothing around them add what they gain. -/
theorem adds_readNodes {members : List Node}
    (permits : ∀ member ∈ members, member.Permits false false)
    (inside : InFunction isStrict outer stack) :
    Adds isStrict kept (gainsOf isStrict members) outer stack (readNodes members stack) := by
  induction members generalizing stack with
  | nil => exact .refl kept inside
  | cons member rest ih =>
      obtain ⟨first, others⟩ := List.forall_mem_cons.1 permits
      have adds : Adds isStrict kept (gainOf isStrict member) outer stack _ :=
        adds_readNode inside first
      exact adds.trans (ih others adds.right)

/-- Only what is among the gains counts, not where. -/
theorem Adds.congr {same : Gain} (adds : Adds isStrict kept added outer stack more)
    (pending : ∀ use, use ∈ same.pending ↔ use ∈ added.pending)
    (settled : ∀ meaning, meaning ∈ same.settled ↔ meaning ∈ added.settled)
    (repeated : ∀ symbol, symbol ∈ same.repeated ↔ symbol ∈ added.repeated) :
    Adds isStrict kept same outer stack more := by
  obtain ⟨⟨frame, waiting, more_waiting, is_function, mode, frames_eq, more_eq, waits⟩, settles,
    repeats⟩ := adds
  refine ⟨⟨frame, waiting, more_waiting, is_function, mode, frames_eq, more_eq, ?_⟩, ?_, ?_⟩
  · exact fun use is_kept => (waits use is_kept).trans (or_congr_right (pending use).symm)
  · exact fun offset symbol is_kept => (settles offset symbol is_kept).trans
      (or_congr_right (settled (offset, symbol)).symm)
  · exact fun symbol => (repeats symbol).trans (or_congr_right (repeated symbol).symm)

section Members

variable {nodes others : List Node}

theorem mem_pending_gainsOf {use : NameUse} : use ∈ (gainsOf isStrict nodes).pending ↔
    ∃ node ∈ nodes, use ∈ (gainOf isStrict node).pending := by
  induction nodes with
  | nil => simp [gainsOf, Gain.none]
  | cons node rest ih => simp [gainsOf, Gain.append, ih]

theorem mem_settled_gainsOf {meaning : Nat × Symbol} :
    meaning ∈ (gainsOf isStrict nodes).settled ↔
      ∃ node ∈ nodes, meaning ∈ (gainOf isStrict node).settled := by
  induction nodes with
  | nil => simp [gainsOf, Gain.none]
  | cons node rest ih => simp [gainsOf, Gain.append, ih]

theorem mem_repeated_gainsOf {symbol : Symbol} : symbol ∈ (gainsOf isStrict nodes).repeated ↔
    ∃ node ∈ nodes, symbol ∈ (gainOf isStrict node).repeated := by
  induction nodes with
  | nil => simp [gainsOf, Gain.none]
  | cons node rest ih => simp [gainsOf, Gain.append, ih]

theorem Adds.of_members (adds : Adds isStrict kept (gainsOf isStrict nodes) outer stack more)
    (same : ∀ node, node ∈ others ↔ node ∈ nodes) :
    Adds isStrict kept (gainsOf isStrict others) outer stack more := by
  refine adds.congr ?_ ?_ ?_
  · simp [mem_pending_gainsOf, same]
  · simp [mem_settled_gainsOf, same]
  · simp [mem_repeated_gainsOf, same]

theorem Adds.of_append (adds : Adds isStrict kept
      ((gainsOf isStrict nodes).append (gainsOf isStrict others)) outer stack more) :
    Adds isStrict kept (gainsOf isStrict (nodes ++ others)) outer stack more := by
  refine adds.congr ?_ ?_ ?_
  · simp [mem_pending_gainsOf, Gain.append, or_and_right, exists_or]
  · simp [mem_settled_gainsOf, Gain.append, or_and_right, exists_or]
  · simp [mem_repeated_gainsOf, Gain.append, or_and_right, exists_or]

/-- When a tree is read that was read before on the other stack, its gain is no difference any
more. -/
theorem Adds.catchUp {node : Node}
    (adds : Adds isStrict kept (gainsOf isStrict (node :: nodes)) outer
      stack more) (permits : node.Permits false false) :
    Adds isStrict kept (gainsOf isStrict nodes) outer (readNode false node stack) more := by
  have inside := adds.left
  rw [readNode_eq_grow permits inside.opened, inside.mode]
  obtain ⟨⟨frame, waiting, more_waiting, is_function, mode, frames_eq, more_eq, waits⟩, settles,
    repeats⟩ := adds
  refine ⟨⟨frame, (gainOf isStrict node).pending ++ waiting, more_waiting, is_function, mode, ?_,
    more_eq, fun use is_kept => ?_⟩, fun offset symbol is_kept => ?_, fun symbol => ?_⟩
  · simp [ScopeStack.grow, frames_eq, hand, withPending]
  · rw [waits use is_kept]
    simp only [gainsOf, Gain.append, List.mem_append]
    grind
  · rw [settles offset symbol is_kept]
    simp only [gainsOf, Gain.append, ScopeStack.grow, List.mem_append]
    grind
  · rw [repeats symbol]
    simp only [gainsOf, Gain.append, ScopeStack.grow, List.mem_append]
    grind

end Members

/-- Where nothing is added the outermost scope settles the same uses in the same way. -/
theorem Adds.settle_outermost (adds : Adds isStrict kept .none [] stack more) :
    (∀ offset symbol, kept offset →
      ((offset, symbol) ∈ more.settle.settled ↔ (offset, symbol) ∈ stack.settle.settled)) ∧
      ∀ symbol, symbol ∈ more.settle.repeated ↔ symbol ∈ stack.settle.repeated := by
  obtain ⟨⟨frame, pending, waiting, -, -, frames_eq, more_eq, waits⟩, settled, repeated⟩ := adds
  rw [settle_eq_of_outermost frames_eq, settle_eq_of_outermost more_eq]
  constructor
  · intro offset symbol is_kept
    have settled_iff := settled offset symbol is_kept
    have inside_iff : (offset, symbol) ∈ settledIn (withPending waiting frame) ↔
        (offset, symbol) ∈ settledIn (withPending pending frame) := by
      simp only [mem_settledIn, withPending]
      refine exists_congr fun use => ?_
      constructor
      · rintro ⟨listed, rfl, found⟩
        exact ⟨((waits use is_kept).1 listed).resolve_right List.not_mem_nil, rfl, found⟩
      · rintro ⟨listed, rfl, found⟩
        exact ⟨(waits use is_kept).2 (.inl listed), rfl, found⟩
    simp only [List.mem_append, inside_iff, settled_iff, Gain.none, List.not_mem_nil, or_false]
  · intro symbol
    simpa [Gain.none] using repeated symbol

theorem differs_insert {members : List Node}
    (permits : ∀ member ∈ members, member.Permits false false) :
    Differs isStrict [] (gainsOf isStrict members) id (readNodes members) where
  adds := adds_readNodes permits
  captures := fun _ _ _ _ found => by contradiction

/-- What is added in the scope of a function is added around the function when it closes, but for
the uses of names that the function declares. -/
theorem Adds.leave {around : Frame} {mode : Bool} (around_function : around.isFunction)
    (around_mode : around.isStrict = isStrict)
    (adds : Adds mode (fun _ => True) added (around :: outer) stack more) :
    Adds isStrict (Escapes stack.top.declared added.pending) added outer
      stack.leave more.leave := by
  obtain ⟨⟨frame, pending, waiting, -, -, frames_eq, more_eq, waits⟩, settled, repeated⟩ := adds
  have declared_eq : stack.top.declared = frame.declared := by simp [top, frames_eq, withPending]
  rw [declared_eq, ScopeStack.leave, ScopeStack.leave, settle_eq_of_around frames_eq,
    settle_eq_of_around more_eq]
  refine ⟨⟨around, handedOn (withPending pending frame) ++ around.pending,
    handedOn (withPending waiting frame) ++ around.pending, around_function, around_mode, rfl, rfl,
    fun use escapes => ?_⟩, fun offset symbol escapes => ?_, repeated⟩
  · have added_escapes : use ∈ added.pending → frame.declared.lookup use.name = none :=
      fun listed => escapes use listed rfl
    have waits_iff := waits use trivial
    simp only [List.mem_append, mem_handedOn, withPending]
    grind
  · have settled_iff := settled offset symbol trivial
    have settles_iff : (offset, symbol) ∈ settledIn (withPending waiting frame) ↔
        (offset, symbol) ∈ settledIn (withPending pending frame) := by
      simp only [mem_settledIn, withPending]
      constructor
      · rintro ⟨use, listed, offset_eq, found⟩
        obtain before | inserted := (waits use trivial).1 listed
        · exact ⟨use, before, offset_eq, found⟩
        · rw [escapes use inserted offset_eq] at found
          contradiction
      · rintro ⟨use, listed, offset_eq, found⟩
        exact ⟨use, (waits use trivial).2 (.inl listed), offset_eq, found⟩
    simp only [List.mem_append, settles_iff, settled_iff, or_assoc]

/-- A use of a name that the function declares is settled when the function closes. -/
theorem Adds.captures {around : Frame} {mode : Bool}
    (adds : Adds mode (fun _ => True) added (around :: outer) stack more) {use : NameUse}
    (inserted : use ∈ added.pending) {symbol : Symbol}
    (captured : stack.top.declared.lookup use.name = some symbol) :
    (use.offset, symbol) ∈ more.leave.settled := by
  obtain ⟨⟨frame, pending, waiting, -, -, frames_eq, more_eq, waits⟩, settled, repeated⟩ := adds
  have declared_eq : stack.top.declared = frame.declared := by simp [top, frames_eq, withPending]
  rw [declared_eq] at captured
  rw [ScopeStack.leave, settle_eq_of_around more_eq]
  exact List.mem_append_left _ (mem_settledIn.2
    ⟨use, (waits use trivial).2 (.inr inserted), rfl, captured⟩)

/-! ## A function with trees inserted -/

/-- The parts of a function are read in the same way wherever the function stands. -/
theorem grown_parts (isStrict : Bool) {related : ScopeStack → ScopeStack → Prop}
    (alike : ∀ {base other}, related base other → InSameMode base other)
    {base other : ScopeStack} (both : related base other) (parts nodes : List Node) :
    Grown related [true] (readNodes nodes (atParts isStrict parts base))
      (readNodes nodes (atParts isStrict parts other)) := by
  have simulation := simulation_grown alike
  have named : (ownNames parts).map declaredName =
      ((ownNames parts).map declaredName).map (moveName id) := by simp [moveName, Function.comp_def]
  have declared := simulation.declareAll (.inl (List.cons_ne_nil _ _)) named
    (simulation.enter true (isStrict || hasStrictBody parts) (.of_related both))
  exact simulation.readNodes (.inl List.mem_cons_self)
    (mirrorsAll_refl fun node _ => node.mirrors_refl) declared

/-- The names that a function declares do not depend on where it is read. -/
theorem top_readNodes_parts (inside : InFunction isStrict outer stack) (parts : List Node) :
    (readNodes parts (atParts isStrict parts stack)).top.declared = ownScope isStrict parts := by
  have alike : ∀ {base other}, base = blank isStrict ∧ other = stack → InSameMode base other := by
    rintro _ _ ⟨rfl, rfl⟩
    exact ⟨List.cons_ne_nil _ _, inside.opened, inside.mode⟩
  obtain ⟨inner, gain, _, _, ⟨rfl, rfl⟩, flags, blank_eq, stack_eq⟩ :=
    grown_parts isStrict alike ⟨rfl, rfl⟩ parts parts
  obtain - | ⟨own, inner⟩ := inner
  · contradiction
  · rw [ownScope, stack_eq, blank_eq]
    rfl

theorem readNode_function_expression (inside : InFunction isStrict outer stack)
    (isBranch isAsync isGenerator : Bool) (span : Span) (parts : List Node) :
    readNode isBranch (.mk (.function .expression isAsync isGenerator) span parts) stack =
      (readNodes parts (atParts isStrict parts stack)).leave := by
  simp [readNode, inScope_eq, functionFrame, inside.mode, atParts]

/-- The scopes while the parts of a function are read. -/
theorem exists_around (inside : InFunction isStrict outer stack) (parts nodes : List Node) :
    ∃ around : Frame, around.isFunction ∧ around.isStrict = isStrict ∧
      InFunction (isStrict || hasStrictBody parts) (around :: outer)
        (readNodes nodes (atParts isStrict parts stack)) := by
  have alike : ∀ {base other}, base = stack ∧ other = stack → InSameMode base other := by
    rintro _ _ ⟨rfl, rfl⟩
    exact ⟨inside.opened, inside.opened, rfl⟩
  obtain ⟨inner, gain, base, _, ⟨base_eq, -⟩, flags, read_eq, -⟩ :=
    grown_parts isStrict alike ⟨rfl, rfl⟩ parts nodes
  obtain ⟨frame, is_function, mode, frames_eq⟩ := inside
  obtain - | ⟨own, _ | ⟨second, inner⟩⟩ := inner <;> simp at flags
  have frames_read : (readNodes nodes (atParts isStrict parts stack)).frames =
      own :: hand gain.pending frame :: outer := by
    simp [read_eq, base_eq, grow, frames_eq]
  have sorts_read : (readNodes nodes (atParts isStrict parts stack)).sorts =
      (true, isStrict || hasStrictBody parts) :: stack.sorts := by
    rw [sorts_readNodes, atParts, sorts_declareAll]
    rfl
  have own_sort := congrArg List.head? sorts_read
  rw [sorts, frames_read] at own_sort
  exact ⟨hand gain.pending frame, is_function, mode, own, flags,
    congrArg Prod.snd (Option.some.inj own_sort), frames_read⟩

section Function

variable {before after : List Node} {node change : Node} {isBranch isAsync isGenerator : Bool}
  {span : Span} {mode : Bool}
  (inner : Differs mode [] added (readNode false node) (readNode false change))
  (mode_eq : mode = (isStrict || hasStrictBody (before ++ node :: after)))
  (permits : ∀ part ∈ after, part.Permits true false)

include inner mode_eq permits

/-- Where one part of a function is changed, what the change adds is added in the scope of the
function. -/
theorem adds_parts (inside : InFunction isStrict outer stack) :
    ∃ around : Frame, around.isFunction ∧ around.isStrict = isStrict ∧
      Adds mode (fun _ => True) added (around :: outer)
        (readNodes (before ++ node :: after) (atParts isStrict (before ++ node :: after) stack))
        (readNodes (before ++ change :: after)
          (atParts isStrict (before ++ node :: after) stack)) := by
  obtain ⟨around, around_function, around_mode, inside_parts⟩ :=
    exists_around inside (before ++ node :: after) before
  refine ⟨around, around_function, around_mode, ?_⟩
  rw [readNodes_append, readNodes_append, readNodes, readNodes]
  rw [← mode_eq] at inside_parts
  exact ((inner.adds inside_parts).readNodes permits).mono fun _ _ _ _ _ => rfl

/-- What is added in a part of a function expression is added where the function stands, but for the
uses of names that the function declares. -/
theorem differs_function
    (own_eq : ownNames (before ++ change :: after) = ownNames (before ++ node :: after))
    (body_eq :
      hasStrictBody (before ++ change :: after) = hasStrictBody (before ++ node :: after)) :
    Differs isStrict (ownScope isStrict (before ++ node :: after)) added
      (readNode isBranch (.mk (.function .expression isAsync isGenerator) span
        (before ++ node :: after)))
      (readNode isBranch (.mk (.function .expression isAsync isGenerator) span
        (before ++ change :: after))) := by
  have at_eq : ∀ stack, atParts isStrict (before ++ change :: after) stack =
      atParts isStrict (before ++ node :: after) stack := by
    intro stack
    rw [atParts, atParts, own_eq, body_eq]
  constructor
  · intro outer stack inside
    obtain ⟨around, around_function, around_mode, adds⟩ := adds_parts inner mode_eq permits inside
    rw [readNode_function_expression inside, readNode_function_expression inside, at_eq,
      ← top_readNodes_parts inside]
    exact adds.leave around_function around_mode
  · intro outer stack inside use inserted symbol captured
    obtain ⟨around, -, -, adds⟩ := adds_parts inner mode_eq permits inside
    rw [← top_readNodes_parts inside] at captured
    rw [readNode_function_expression inside, at_eq]
    exact adds.captures inserted captured

end Function

end Differs
end ScopeStack
end Shakedown
