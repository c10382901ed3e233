import Shakedown.Proofs.Scope.Local
import Shakedown.Proofs.Scope.Named

/-!
# One name in sight

Whoever asks for the meaning of a single use of a name may forget all other names. What is done to
other names changes nothing that is in sight, and what is done to the name gives the same, whether
the others are forgotten before or after.
-/

namespace Shakedown

/-- What is looked at: a name, one use of it, and one place where it is declared. -/
structure Focus where
  /-- The name. -/
  name : String
  /-- Offset of the use. -/
  offset : Nat
  /-- Offset of the declaring name. -/
  place : Nat
  /-- Whether the modes of the scopes are looked at as well. -/
  modes : Bool

/-- What is in sight of a scope. -/
def Frame.seen (focus : Focus) (frame : Frame) : Frame where
  isFunction := frame.isFunction
  isStrict := focus.modes && frame.isStrict
  declared := frame.declared.filter (·.1 == focus.name)
  passed := frame.passed.filter (·.1 == focus.name)
  pending := frame.pending.filter (·.offset == focus.offset)

@[simp] theorem Frame.seen_seen (focus : Focus) (frame : Frame) :
    (frame.seen focus).seen focus = frame.seen focus := by
  simp [seen]

namespace ScopeStack

/-- What is in sight of a stack of scopes. -/
def seen (focus : Focus) (stack : ScopeStack) : ScopeStack where
  frames := stack.frames.map (Frame.seen focus)
  settled := stack.settled.filter (·.1 == focus.offset)
  uses := []
  repeated := []
  declarations := stack.declarations.filter (·.1 == focus.place)

variable {focus : Focus} {stack partner : ScopeStack} {frame : Frame} {frames : List Frame}
  {offset : Nat} {name : String} {symbol : Symbol}

/-! ## The name in sight -/

theorem lookup_filter_self {α β : Type} [BEq α] [LawfulBEq α] (list : List (α × β)) (key : α) :
    (list.filter (·.1 == key)).lookup key = list.lookup key := by
  induction list with
  | nil => rfl
  | cons pair rest ih =>
      rw [List.filter_cons, List.lookup_cons]
      cases same : pair.1 == key
      · have apart : (key == pair.1) = false := by rw [BEq.comm, same]
        simpa [apart] using ih
      · have also_same : (key == pair.1) = true := by rw [BEq.comm, same]
        rw [if_pos rfl, List.lookup_cons, also_same]

theorem filter_filter_comm {β : Type} (list : List (String × β)) (name : String) :
    (list.filter (·.1 != name)).filter (·.1 == name) =
      (list.filter (·.1 == name)).filter (·.1 != name) := by
  rw [List.filter_filter, List.filter_filter]
  exact List.filter_congr fun pair _ => Bool.and_comm _ _

theorem lookup_declared_seen (frame : Frame) :
    (frame.seen focus).declared.lookup focus.name = frame.declared.lookup focus.name :=
  lookup_filter_self frame.declared focus.name

theorem known?_seen (frame : Frame) :
    (frame.seen focus).known? focus.name = frame.known? focus.name := by
  rw [Frame.known?, Frame.known?, lookup_declared_seen, Frame.seen, lookup_filter_self]

theorem seen_addName (frame : Frame) (symbol : Symbol) :
    (addName focus.name symbol frame).seen focus =
      addName focus.name symbol (frame.seen focus) := by
  simp [addName, Frame.seen]

theorem seen_addPassed (frame : Frame) (symbol : Symbol) :
    (addPassed focus.name symbol frame).seen focus =
      addPassed focus.name symbol (frame.seen focus) := by
  simp only [addPassed, Frame.seen]
  rw [List.filter_cons_of_pos (by simp), filter_filter_comm]

theorem splitAtFunction_seen (frames : List Frame) :
    splitAtFunction (frames.map (Frame.seen focus)) =
      ((splitAtFunction frames).1.map (Frame.seen focus),
        (splitAtFunction frames).2.map (Frame.seen focus)) := by
  induction frames with
  | nil => rfl
  | cons frame frames ih =>
      have flag : (frame.seen focus).isFunction = frame.isFunction := rfl
      rw [List.map_cons, splitAtFunction, splitAtFunction, ih, flag]
      split <;> rfl

theorem findSome?_known?_seen (frames : List Frame) :
    (frames.map (Frame.seen focus)).findSome? (·.known? focus.name) =
      frames.findSome? (·.known? focus.name) := by
  induction frames with
  | nil => rfl
  | cons frame frames ih =>
      rw [List.map_cons, List.findSome?_cons, List.findSome?_cons, ih, known?_seen]

theorem forgetFirst_seen (frames : List Frame) :
    forgetFirst focus.name (frames.map (Frame.seen focus)) =
      (forgetFirst focus.name frames).map (Frame.seen focus) := by
  induction frames with
  | nil => rfl
  | cons frame frames ih =>
      rw [List.map_cons, forgetFirst, forgetFirst, ih, lookup_declared_seen]
      split
      · rw [List.map_cons, Frame.seen, Frame.seen]
        dsimp only
        rw [filter_filter_comm]
      · rfl

theorem hoist_seen (symbol : Symbol) (blocks rest : List Frame) :
    hoist focus.name symbol (blocks.map (Frame.seen focus)) (rest.map (Frame.seen focus)) =
      (hoist focus.name symbol blocks rest).map (Frame.seen focus) := by
  cases rest with
  | nil => rfl
  | cons function outer =>
      rw [List.map_cons, hoist, hoist, lookup_declared_seen]
      split
      · simp
      · rw [forgetFirst_seen, List.map_append, List.map_cons, seen_addName]

/-! ## Other names -/

section Other

variable (other : name ≠ focus.name)

include other

theorem filter_filter_other {β : Type} (list : List (String × β)) :
    (list.filter (·.1 != name)).filter (·.1 == focus.name) = list.filter (·.1 == focus.name) := by
  rw [List.filter_filter]
  refine List.filter_congr fun pair _ => ?_
  by_cases same : pair.1 = focus.name
  · simp [same, Ne.symm other]
  · simp [same]

theorem seen_addName_other (frame : Frame) (symbol : Symbol) :
    (addName name symbol frame).seen focus = frame.seen focus := by
  simp [addName, Frame.seen, other]

theorem seen_addPassed_other (frame : Frame) (symbol : Symbol) :
    (addPassed name symbol frame).seen focus = frame.seen focus := by
  simp only [addPassed, Frame.seen]
  rw [List.filter_cons_of_neg (by simp [other]), filter_filter_other other]

theorem seen_forgetFirst_other (frames : List Frame) :
    (forgetFirst name frames).map (Frame.seen focus) = frames.map (Frame.seen focus) := by
  induction frames with
  | nil => rfl
  | cons frame frames ih =>
      rw [forgetFirst]
      split
      · rw [List.map_cons, List.map_cons, Frame.seen]
        dsimp only
        rw [filter_filter_other other]
        rfl
      · rw [List.map_cons, List.map_cons, ih]

theorem map_seen_addPassed_other (frames : List Frame) (symbol : Symbol) :
    (frames.map (addPassed name symbol)).map (Frame.seen focus) =
      frames.map (Frame.seen focus) := by
  rw [List.map_map]
  exact List.map_congr_left fun frame _ => seen_addPassed_other other frame symbol

theorem seen_hoist_other (symbol : Symbol) (blocks rest : List Frame) :
    (hoist name symbol (blocks.map (addPassed name symbol)) rest).map (Frame.seen focus) =
      (blocks ++ rest).map (Frame.seen focus) := by
  have passed := map_seen_addPassed_other other blocks symbol
  unfold hoist
  split
  · simpa using passed
  split
  · rw [List.map_append, passed, List.map_append]
  · rw [List.map_append, List.map_cons, seen_forgetFirst_other other, passed,
      seen_addName_other other, ← List.map_cons, ← List.map_append]

/-- Declaring another name in another place is not seen. -/
theorem seen_declare_other (stack : ScopeStack) (apart : offset ≠ focus.place) :
    (stack.declare offset name).seen focus = stack.seen focus := by
  unfold declare
  split
  · simp [noteRepeated, note, seen, apart]
  · obtain ⟨_ | ⟨frame, frames⟩, settled, uses, repeated, declarations⟩ := stack
    · simp [note, seen, apart, changeTop]
    · simp [note, seen, apart, changeTop, seen_addName_other other]

theorem seen_declareVariable_other (stack : ScopeStack) (apart : offset ≠ focus.place) :
    (stack.declareVariable offset name).seen focus = stack.seen focus := by
  have whole := splitAtFunction_append stack.frames
  unfold declareVariable
  split
  rename_i blocks rest split_eq
  rw [split_eq] at whole
  split
  · rename_i symbol _
    simp only [seen, noteRepeated, note]
    rw [seen_hoist_other other, whole, List.filter_cons_of_neg (by simpa using apart)]
  · have inner := seen_declare_other other { stack with frames := rest } apart
    simp only [seen, ScopeStack.mk.injEq] at inner ⊢
    obtain ⟨frames_eq, settled_eq, -, -, declarations_eq⟩ := inner
    refine ⟨?_, settled_eq, trivial, trivial, declarations_eq⟩
    rw [List.map_append, map_seen_addPassed_other other, frames_eq, ← List.map_append, whole]

end Other

/-! ## Each change -/

theorem seen_seen (stack : ScopeStack) : (stack.seen focus).seen focus = stack.seen focus := by
  simp [seen, Function.comp_def]

theorem isStrict_top_seen (stack : ScopeStack) :
    (stack.seen focus).top.isStrict = (focus.modes && stack.top.isStrict) := by
  obtain ⟨_ | ⟨frame, frames⟩, settled, uses, repeated, declarations⟩ := stack
  · cases focus.modes <;> rfl
  · rfl

theorem seen_use (stack : ScopeStack) (offset : Nat) (name : String) :
    (stack.use offset name).seen focus = ((stack.seen focus).use offset name).seen focus := by
  obtain ⟨_ | ⟨frame, frames⟩, settled, uses, repeated, declarations⟩ := stack
  · simp [use, changeTop, seen]
  · simp [use, changeTop, seen, Frame.seen, List.filter_cons, Function.comp_def]

theorem seen_declare (stack : ScopeStack) (offset : Nat) :
    (stack.declare offset focus.name).seen focus =
      ((stack.seen focus).declare offset focus.name).seen focus := by
  obtain ⟨_ | ⟨frame, frames⟩, settled, uses, repeated, declarations⟩ := stack
  · simp [declare, top, Frame.fresh, Frame.known?, note, changeTop, seen, List.filter_cons]
  · have known_eq := @known?_seen focus frame
    simp only [declare, top, seen, List.map_cons, List.headD_cons, known_eq]
    cases frame.known? focus.name with
    | some symbol => simp [noteRepeated, note, List.filter_cons, Function.comp_def]
    | none =>
        simp [note, changeTop, List.filter_cons, Function.comp_def, seen_addName]

theorem top_seen_known? (stack : ScopeStack) :
    (stack.seen focus).top.known? focus.name = stack.top.known? focus.name := by
  obtain ⟨_ | ⟨frame, frames⟩, settled, uses, repeated, declarations⟩ := stack
  · rfl
  · exact known?_seen frame

/-- The symbol of a declared name is the one that is known, or a new one. -/
theorem lookup_declarations_declare (stack : ScopeStack) (offset : Nat) (name : String) :
    (stack.declare offset name).declarations.lookup offset =
      some ((stack.top.known? name).getD offset) := by
  unfold declare
  cases stack.top.known? name with
  | some symbol => simp [noteRepeated, note]
  | none =>
      obtain ⟨_ | ⟨frame, frames⟩, settled, uses, repeated, declarations⟩ := stack <;>
        simp [note, changeTop]

theorem seen_declareVariable (stack : ScopeStack) (offset : Nat) :
    (stack.declareVariable offset focus.name).seen focus =
      ((stack.seen focus).declareVariable offset focus.name).seen focus := by
  obtain ⟨blocks, rest, split_eq⟩ : ∃ blocks rest, splitAtFunction stack.frames = (blocks, rest) :=
    ⟨_, _, rfl⟩
  have split_seen : splitAtFunction (stack.seen focus).frames =
      (blocks.map (Frame.seen focus), rest.map (Frame.seen focus)) := by
    rw [seen, splitAtFunction_seen, split_eq]
  have known_seen := @findSome?_known?_seen focus blocks
  have passed_seen : ∀ symbol, (blocks.map (Frame.seen focus)).map (addPassed focus.name symbol) =
      (blocks.map (addPassed focus.name symbol)).map (Frame.seen focus) := by
    intro symbol
    simp [seen_addPassed]
  cases known : blocks.findSome? (·.known? focus.name) with
  | some symbol =>
      rw [known] at known_seen
      simp only [declareVariable, split_eq, split_seen, known, known_seen, passed_seen, hoist_seen]
      simp [noteRepeated, note, seen, List.filter_cons, Function.comp_def]
  | none =>
      rw [known] at known_seen
      have inner := @seen_declare focus { stack with frames := rest } offset
      have noted := lookup_declarations_declare { stack with frames := rest } offset focus.name
      have noted_seen := lookup_declarations_declare
        (({ stack with frames := rest } : ScopeStack).seen focus) offset focus.name
      rw [top_seen_known?] at noted_seen
      rw [declareVariable_eq_of_new split_eq known rfl noted,
        declareVariable_eq_of_new split_seen known_seen rfl noted_seen, passed_seen]
      simp only [seen, ScopeStack.mk.injEq] at inner ⊢
      obtain ⟨frames_eq, settled_eq, -, -, declarations_eq⟩ := inner
      refine ⟨?_, settled_eq, trivial, trivial, declarations_eq⟩
      rw [List.map_append, List.map_append, frames_eq]
      simp

/-! ## Settling -/

/-- A use in sight is a use of the name. -/
def IsClear (focus : Focus) (stack : ScopeStack) : Prop :=
  ∀ use ∈ stack.waiting, use.offset = focus.offset → use.name = focus.name

section Settling

variable (clear : ∀ use ∈ frame.pending, use.offset = focus.offset → use.name = focus.name)

include clear

theorem settledIn_seen :
    settledIn (frame.seen focus) = (settledIn frame).filter (·.1 == focus.offset) := by
  simp only [settledIn, Frame.seen]
  generalize frame.pending = pending at clear
  induction pending with
  | nil => rfl
  | cons use rest ih =>
      obtain ⟨use_clear, rest_clear⟩ := List.forall_mem_cons.1 clear
      rw [List.filterMap_cons]
      by_cases here : use.offset = focus.offset
      · rw [List.filter_cons_of_pos (by simpa using here), List.filterMap_cons, ih rest_clear,
          use_clear here, lookup_filter_self]
        cases frame.declared.lookup focus.name <;> simp [here]
      · rw [List.filter_cons_of_neg (by simpa using here), ih rest_clear]
        cases frame.declared.lookup use.name <;> simp [here]

theorem handedOn_seen :
    handedOn (frame.seen focus) = (handedOn frame).filter (·.offset == focus.offset) := by
  rw [handedOn, handedOn, Frame.seen, List.filter_filter, List.filter_filter]
  refine List.filter_congr fun use listed => ?_
  by_cases here : use.offset = focus.offset
  · simp [here, clear use listed here, lookup_filter_self]
  · rw [beq_false_of_ne here, Bool.and_false, Bool.false_and]

end Settling

theorem seen_emptied (frame : Frame) :
    (emptied frame).seen focus = emptied (frame.seen focus) :=
  rfl

theorem seen_hand (uses : List NameUse) (frame : Frame) :
    (hand uses frame).seen focus =
      hand (uses.filter (·.offset == focus.offset)) (frame.seen focus) := by
  simp [hand, Frame.seen]

theorem seen_settle (clear : stack.IsClear focus) :
    stack.settle.seen focus = (stack.seen focus).settle.seen focus := by
  obtain ⟨_ | ⟨frame, _ | ⟨outer, frames⟩⟩, settled, uses, repeated, declarations⟩ := stack
  · simp [settle, seen]
  all_goals
    have frame_clear : ∀ use ∈ frame.pending, use.offset = focus.offset → use.name = focus.name :=
      fun use listed => clear use (by simp [waiting, listed])
    have settled_eq := settledIn_seen frame_clear
    have handed_eq := handedOn_seen frame_clear
  · rw [settle_eq_of_outermost rfl, seen, settle_eq_of_outermost rfl]
    simp [seen, settled_eq, seen_emptied]
  · rw [settle_eq_of_around rfl, seen, settle_eq_of_around rfl]
    simp [seen, settled_eq, handed_eq, seen_emptied, seen_hand, Function.comp_def]

/-! ## Stacks that look the same -/

theorem Declares.isClear {after : ScopeStack} (declares : stack.Declares offset after)
    (clear : stack.IsClear focus) : after.IsClear focus := by
  intro use waits
  exact clear use (declares.waiting_eq ▸ waits)

theorem IsClear.use (clear : stack.IsClear focus) (named : offset = focus.offset → name = focus.name) :
    (stack.use offset name).IsClear focus := by
  intro use waits
  obtain ⟨_ | ⟨frame, frames⟩, settled, uses, repeated, declarations⟩ := stack
  · exact clear use waits
  · obtain rfl | before := List.mem_cons.1 waits
    · exact named
    · exact clear use before

theorem IsClear.settle (clear : stack.IsClear focus) : stack.settle.IsClear focus :=
  fun use waits => clear use (mem_waiting_of_settle waits)

theorem IsClear.leave (clear : stack.IsClear focus) : stack.leave.IsClear focus := by
  intro use waits
  obtain ⟨frame, below, listed⟩ := List.mem_flatMap.1 waits
  exact clear.settle use (List.mem_flatMap.2 ⟨frame, List.mem_of_mem_drop below, listed⟩)

/-- Two stacks of which the same is in sight. -/
structure SeenAlike (focus : Focus) (stack partner : ScopeStack) : Prop where
  /-- The same is in sight. -/
  seen : stack.seen focus = partner.seen focus
  /-- A use in sight is one of the name. -/
  clear : stack.IsClear focus
  /-- So it is on the other stack. -/
  partner_clear : partner.IsClear focus

theorem seen_leave (stack : ScopeStack) :
    stack.leave.seen focus =
      { stack.settle.seen focus with frames := (stack.settle.seen focus).frames.drop 1 } := by
  simp [leave, seen]

theorem seen_enter (stack : ScopeStack) (isFunction isStrict : Bool) :
    (stack.enter (.fresh isFunction isStrict)).seen focus =
      (stack.seen focus).enter (.fresh isFunction (focus.modes && isStrict)) := by
  simp [enter, seen, Frame.seen, Frame.fresh]

/-- What only concerns other uses, names and places looks the same wherever it is read. -/
theorem parallel_seenAlike (focus : Focus) : Parallel
    (fun offset name => offset = focus.offset → name = focus.name)
    (fun offset name => offset = focus.place → name = focus.name)
    (fun name => focus.modes ∨ name ≠ focus.name) (SeenAlike focus) where
  use := by
    intro stack partner offset name named alike
    refine ⟨?_, alike.clear.use named, alike.partner_clear.use named⟩
    rw [seen_use, alike.seen, ← seen_use]
  declare := by
    intro stack partner offset name named alike
    refine ⟨?_, (declares_declare stack offset name).isClear alike.clear,
      (declares_declare partner offset name).isClear alike.partner_clear⟩
    by_cases same : name = focus.name
    · rw [same, seen_declare, alike.seen, ← seen_declare]
    · have apart : offset ≠ focus.place := fun eq => same (named eq)
      rw [seen_declare_other same stack apart, seen_declare_other same partner apart, alike.seen]
  declareVariable := by
    intro stack partner offset name named alike
    refine ⟨?_, (declares_declareVariable stack offset name).isClear alike.clear,
      (declares_declareVariable partner offset name).isClear alike.partner_clear⟩
    by_cases same : name = focus.name
    · rw [same, seen_declareVariable, alike.seen, ← seen_declareVariable]
    · have apart : offset ≠ focus.place := fun eq => same (named eq)
      rw [seen_declareVariable_other same stack apart,
        seen_declareVariable_other same partner apart, alike.seen]
  settle := by
    intro stack partner alike
    refine ⟨?_, alike.clear.settle, alike.partner_clear.settle⟩
    rw [seen_settle alike.clear, alike.seen, ← seen_settle alike.partner_clear]
  enter := by
    intro stack partner before earlier isFunction asksStrict modes alike
    refine ⟨?_, alike.clear, alike.partner_clear⟩
    have top_eq := congrArg (fun stack => stack.top.isStrict) modes.seen
    simp only [isStrict_top_seen] at top_eq
    rw [seen_enter, seen_enter, alike.seen, Bool.and_or_distrib_left, top_eq,
      ← Bool.and_or_distrib_left]
  leave := by
    intro stack partner alike
    refine ⟨?_, alike.clear.leave, alike.partner_clear.leave⟩
    rw [seen_leave, seen_leave, seen_settle alike.clear, alike.seen,
      ← seen_settle alike.partner_clear]
  one := by
    intro stack partner before earlier offset name modes differ named extra alike
    have other : name ≠ focus.name := by
      obtain looked | other := extra
      · have top_eq := congrArg (fun stack => stack.top.isStrict) modes.seen
        simp only [isStrict_top_seen, looked, Bool.true_and] at top_eq
        exact absurd top_eq differ
      · exact other
    have apart : offset ≠ focus.place := fun eq => other (named eq)
    refine ⟨⟨?_, (declares_declare stack offset name).isClear alike.clear, alike.partner_clear⟩,
      ⟨?_, alike.clear, (declares_declare partner offset name).isClear alike.partner_clear⟩⟩
    · rw [seen_declare_other other stack apart, alike.seen]
    · rw [seen_declare_other other partner apart, alike.seen]

/-! ## Trees out of sight -/

section Hidden

variable {gain : Gain} (pending : ∀ use ∈ gain.pending, use.offset ≠ focus.offset)

include pending

theorem seen_grow (settled : ∀ meaning ∈ gain.settled, meaning.1 ≠ focus.offset)
    (declarations : ∀ note ∈ gain.declarations, note.1 ≠ focus.place) (stack : ScopeStack) :
    (stack.grow [] gain).seen focus = stack.seen focus := by
  have pending_eq : gain.pending.filter (·.offset == focus.offset) = [] := by simpa using pending
  have settled_eq : gain.settled.filter (·.1 == focus.offset) = [] := by simpa using settled
  have declarations_eq : gain.declarations.filter (·.1 == focus.place) = [] := by
    simpa using declarations
  obtain ⟨_ | ⟨frame, frames⟩, settled, uses, repeated, declarations⟩ := stack
  · simp [seen, grow, settled_eq, declarations_eq]
  · simp only [seen, grow, List.nil_append, List.modifyHead_cons, List.map_cons, seen_hand,
      pending_eq, List.filter_append, settled_eq, declarations_eq]
    rfl

theorem IsClear.grow (clear : stack.IsClear focus) : (stack.grow [] gain).IsClear focus := by
  intro use waits here
  obtain ⟨_ | ⟨frame, frames⟩, settled, uses, repeated, declarations⟩ := stack
  · contradiction
  · simp only [waiting, ScopeStack.grow, List.nil_append, List.modifyHead_cons, List.flatMap_cons,
      hand, List.mem_append] at waits
    obtain (gained | own) | outside := waits
    · exact absurd here (pending use gained)
    · exact clear use (by simp [waiting, own]) here
    · exact clear use (by
        simp only [waiting, List.flatMap_cons, List.mem_append]
        exact .inr outside) here

end Hidden

theorem isNamed_blank (uses names : Nat → String → Prop) (isStrict : Bool) :
    (blank isStrict).IsNamed uses names :=
  ⟨List.forall_mem_singleton.2 nofun, nofun, nofun, nofun⟩

/-- A tree that declares nothing around it and holds neither the use nor the declaring name is out
of sight. -/
theorem SeenAlike.readNode_hidden (alike : SeenAlike focus stack partner) {node : Node}
    (permits : node.Permits false false)
    (hidden : node.Suits (fun offset _ => offset ≠ focus.offset)
      (fun place _ => place ≠ focus.place) fun _ => True) (opened : stack.frames ≠ []) :
    SeenAlike focus (readNode false node stack) partner := by
  have named := (((parallel_isNamed _ _).keeps hidden).plain
    ⟨rfl, isNamed_blank _ _ stack.top.isStrict⟩).2
  have pending : ∀ use ∈ (gainOf stack.top.isStrict node).pending, use.offset ≠ focus.offset :=
    fun use waits => named.waiting use (mem_waiting_of_top waits)
  have settled : ∀ meaning ∈ (gainOf stack.top.isStrict node).settled,
      meaning.1 ≠ focus.offset := by
    intro meaning listed
    obtain ⟨_, apart, -⟩ := named.settled meaning listed
    exact apart
  have declarations : ∀ note ∈ (gainOf stack.top.isStrict node).declarations,
      note.1 ≠ focus.place := by
    intro note listed
    obtain ⟨_, apart, -⟩ := named.declarations note listed
    exact apart
  rw [readNode_eq_grow permits opened]
  exact ⟨(seen_grow pending settled declarations stack).trans alike.seen,
    alike.clear.grow pending, alike.partner_clear⟩

/-- So is a list of them. -/
theorem SeenAlike.readNodes_hidden (alike : SeenAlike focus stack partner) {nodes : List Node}
    (permits : ∀ node ∈ nodes, node.Permits false false)
    (hidden : ∀ node ∈ nodes, node.Suits (fun offset _ => offset ≠ focus.offset)
      (fun place _ => place ≠ focus.place) fun _ => True) (opened : stack.frames ≠ []) :
    SeenAlike focus (readNodes nodes stack) partner := by
  induction nodes generalizing stack with
  | nil => simpa only [readNodes] using alike
  | cons node rest ih =>
      obtain ⟨node_permits, rest_permit⟩ := List.forall_mem_cons.1 permits
      obtain ⟨node_hidden, rest_hidden⟩ := List.forall_mem_cons.1 hidden
      have sorts_eq := sorts_readNodes [node] stack
      have still : (readNode false node stack).frames ≠ [] := by
        intro closed
        have length_eq := congrArg List.length sorts_eq
        simp [sorts, readNodes, closed] at length_eq
        exact opened (List.length_eq_zero_iff.1 length_eq.symm)
      rw [readNodes]
      exact ih (alike.readNode_hidden node_permits node_hidden opened) rest_permit rest_hidden still

end ScopeStack
end Shakedown
