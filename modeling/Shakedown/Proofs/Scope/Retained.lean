import Shakedown.Proofs.Scope.Inserted
import Shakedown.Proofs.Scope.Modes
import Shakedown.Proofs.Script.Spacing

/-!
# What a function scope retains

While the parts of a function are read its scope keeps the names that it declares, whatever scopes
are opened and closed above it. A name that was declared keeps its symbol when names behind it are
declared. So the name of a function that is declared first in a closure is known until the closure
ends, and a use of it at the end means that function.
-/

namespace Shakedown

open Node

namespace ScopeStack

variable {stack partner : ScopeStack} {scopes : List Bool} {holds : Frame → Prop}
  {name : String} {symbol : Symbol} {place : Nat} {text : List Char}

/-! ## Properties of a scope below others -/

/-- The property of a scope does not look at uses, and is kept when a name is declared that was not
declared before. -/
structure Retained (holds : Frame → Prop) : Prop where
  /-- Uses come and go. -/
  withPending : ∀ {frame : Frame} (pending : List NameUse), holds frame →
    holds (withPending pending frame)
  /-- A name is declared for the first time. -/
  addName : ∀ {frame : Frame} {name : String} (symbol : Symbol),
    frame.declared.lookup name = none → holds frame → holds (addName name symbol frame)

/-- Below the scopes that were opened since, the scope of a function has the property. -/
def HoldsBelow (holds : Frame → Prop) (scopes : List Bool) (stack : ScopeStack) : Prop :=
  ∃ inner function outer, stack.frames = inner ++ function :: outer ∧
    inner.map Frame.isFunction = scopes ∧ function.isFunction ∧ holds function

theorem retained_passed : Retained fun frame => frame.passed = [] where
  withPending := fun _ none_passed => none_passed
  addName := fun _ _ none_passed => none_passed

theorem retained_lookup (name : String) (symbol : Symbol) :
    Retained fun frame => frame.declared.lookup name = some symbol where
  withPending := fun _ known => known
  addName := by
    intro frame other own unknown known
    by_cases same : name = other
    · rw [same, unknown] at known
      contradiction
    · rw [addName, List.lookup_cons, beq_eq_false_iff_ne.2 same]
      exact known

theorem lookup_declared_of_known? {frame : Frame} (unknown : frame.known? name = none) :
    frame.declared.lookup name = none := by
  cases known : frame.declared.lookup name with
  | none => rfl
  | some symbol => simp [Frame.known?, known] at unknown

section Retained

variable (retained : Retained holds)

include retained

theorem HoldsBelow.use (below : HoldsBelow holds scopes stack) (offset : Nat) (name : String) :
    HoldsBelow holds scopes (stack.use offset name) := by
  obtain ⟨_ | ⟨frame, inner⟩, function, outer, frames_eq, rfl, is_function, kept⟩ := below
  · exact ⟨[], withPending (⟨offset, name⟩ :: function.pending) function, outer,
      by simp [ScopeStack.use, changeTop, frames_eq, withPending], rfl, is_function,
      retained.withPending _ kept⟩
  · exact ⟨withPending (⟨offset, name⟩ :: frame.pending) frame :: inner, function, outer,
      by simp [ScopeStack.use, changeTop, frames_eq, withPending], rfl, is_function, kept⟩

theorem HoldsBelow.declare (below : HoldsBelow holds scopes stack) (offset : Nat) (name : String) :
    HoldsBelow holds scopes (stack.declare offset name) := by
  unfold ScopeStack.declare
  split
  · exact below
  · rename_i unknown
    obtain ⟨_ | ⟨frame, inner⟩, function, outer, frames_eq, rfl, is_function, kept⟩ := below
    · rw [top, frames_eq] at unknown
      exact ⟨[], addName name offset function, outer,
        by simp [note, changeTop, frames_eq], rfl, is_function,
        retained.addName offset (lookup_declared_of_known? unknown) kept⟩
    · exact ⟨addName name offset frame :: inner, function, outer,
        by simp [note, changeTop, frames_eq], rfl, is_function, kept⟩

/-- A variable is declared in the function of its scope, which lies above or is the one below. -/
theorem HoldsBelow.declareVariable (below : HoldsBelow holds scopes stack) (offset : Nat)
    (name : String) : HoldsBelow holds scopes (stack.declareVariable offset name) := by
  obtain ⟨inner, function, outer, frames_eq, rfl, is_function, kept⟩ := below
  by_cases owned : true ∈ inner.map Frame.isFunction
  · obtain ⟨blocks, owner, others, rfl, blocks_only, owner_flag⟩ := exists_function owned
    obtain ⟨changed, other, symbol, repeated, flags, other_flag, -, declares⟩ :=
      exists_declareVariable blocks_only owner_flag offset name
    refine ⟨changed ++ withPending owner.pending other :: others, function, outer, ?_, ?_,
      is_function, kept⟩
    · rw [declares owner.pending (others ++ function :: outer) stack (by simp [frames_eq])]
      simp
    · simp [flags, withPending, other_flag, owner_flag]
  · have split_eq := splitAtFunction_eq owned is_function outer
    unfold ScopeStack.declareVariable
    rw [frames_eq, split_eq]
    dsimp only
    split
    · rename_i symbol _
      unfold hoist
      dsimp only
      split
      · exact ⟨inner.map (addPassed name symbol), function, outer, rfl, by simp [addPassed],
          is_function, kept⟩
      · rename_i unknown
        refine ⟨forgetFirst name (inner.map (addPassed name symbol)), addName name symbol function,
          outer, rfl, by simp [map_isFunction_forgetFirst, addPassed], is_function, ?_⟩
        exact retained.addName symbol (Option.not_isSome_iff_eq_none.1 unknown) kept
    · have own : HoldsBelow holds [] { stack with frames := function :: outer } :=
        ⟨[], function, outer, rfl, rfl, is_function, kept⟩
      obtain ⟨_ | _, changed, rest, changed_eq, flags, changed_flag, changed_kept⟩ :=
        own.declare retained offset name
      · refine ⟨_, changed, rest, congrArg _ changed_eq, ?_, changed_flag, changed_kept⟩
        simp [addPassed]
      · contradiction

theorem HoldsBelow.settle (below : HoldsBelow holds scopes stack) :
    HoldsBelow holds scopes stack.settle := by
  obtain ⟨inner, function, outer, frames_eq, rfl, is_function, kept⟩ := below
  match inner, outer, frames_eq with
  | [], [], frames_eq =>
      rw [settle_eq_of_outermost frames_eq]
      exact ⟨[], emptied function, [], rfl, rfl, is_function, retained.withPending [] kept⟩
  | [], around :: outer, frames_eq =>
      rw [settle_eq_of_around frames_eq]
      exact ⟨[], emptied function, _, rfl, rfl, is_function, retained.withPending [] kept⟩
  | [frame], outer, frames_eq =>
      rw [settle_eq_of_around frames_eq]
      exact ⟨[emptied frame], hand (handedOn frame) function, outer, rfl, rfl, is_function,
        retained.withPending _ kept⟩
  | frame :: second :: inner, outer, frames_eq =>
      rw [settle_eq_of_around frames_eq]
      exact ⟨emptied frame :: hand (handedOn frame) second :: inner, function, outer, rfl, rfl,
        is_function, kept⟩

/-- What no change touches is kept by whatever is read. -/
theorem simulation_holdsBelow : Simulation id true true fun scopes stack partner =>
    partner = stack ∧ HoldsBelow holds scopes stack where
  isStrict := by rintro _ _ _ ⟨rfl, -⟩; rfl
  use := by rintro _ _ _ offset name ⟨rfl, below⟩; exact ⟨rfl, below.use retained offset name⟩
  declare := by
    rintro _ _ _ offset name - ⟨rfl, below⟩
    exact ⟨rfl, below.declare retained offset name⟩
  declareVariable := by
    rintro _ _ _ offset name - ⟨rfl, below⟩
    exact ⟨rfl, below.declareVariable retained offset name⟩
  settle := by rintro _ _ _ - ⟨rfl, below⟩; exact ⟨rfl, below.settle retained⟩
  enter := by
    rintro _ _ _ isFunction isStrict ⟨rfl, inner, function, outer, frames_eq, rfl, flag, kept⟩
    exact ⟨rfl, .fresh isFunction isStrict :: inner, function, outer,
      by simp [ScopeStack.enter, frames_eq], rfl, flag, kept⟩
  leave := by
    rintro isFunction scopes _ stack ⟨rfl, below⟩
    obtain ⟨_ | ⟨frame, inner⟩, function, outer, frames_eq, flags, flag, kept⟩ :=
      below.settle retained
    · contradiction
    · exact ⟨rfl, inner, function, outer, by simp [ScopeStack.leave, frames_eq],
        (List.cons.inj flags).2, flag, kept⟩

theorem HoldsBelow.readNodes (below : HoldsBelow holds scopes stack) (nodes : List Node) :
    HoldsBelow holds scopes (ScopeStack.readNodes nodes stack) := by
  have permitted : true ∈ scopes ∨ ∀ node ∈ nodes, node.Permits true true :=
    .inr fun node _ => node.permits_all
  exact ((simulation_holdsBelow retained).readNodes permitted
    (mirrorsAll_refl fun node _ => node.mirrors_refl) ⟨rfl, below⟩).2

theorem HoldsBelow.declareAll (below : HoldsBelow holds scopes stack) (bindings : List Node) :
    HoldsBelow holds scopes (stack.declareAll bindings) := by
  have named : bindings.map declaredName = (bindings.map declaredName).map (moveName id) := by
    simp [moveName, Function.comp_def]
  exact ((simulation_holdsBelow retained).declareAll (.inr rfl) named ⟨rfl, below⟩).2

theorem HoldsBelow.inScope (below : HoldsBelow holds scopes stack) (isFunction isStrict : Bool)
    (nodes : List Node) :
    HoldsBelow holds scopes
      (stack.inScope (.fresh isFunction isStrict) (ScopeStack.readNodes nodes)) :=
  ((simulation_holdsBelow retained).inScope
    (fun _ _ start => ⟨by rw [start.1], start.2.readNodes retained nodes⟩) ⟨rfl, below⟩).2

end Retained

/-! ## Symbols of declaring names -/

/-- The trees lie behind a place of the text. -/
def AllBehind (text : List Char) (place : Nat) (nodes : List Node) : Prop :=
  ∀ node ∈ nodes, node.IsSpaced text ∧ place < node.span.start

theorem suits_of_behind {node : Node} (spaced : node.IsSpaced text)
    (behind : place < node.span.start) :
    node.Suits (fun _ _ => True) (fun offset _ => place < offset) fun _ => True where
  uses := fun _ _ _ _ => trivial
  names := fun inner below _ _ => by
    have covered := Span.covers_iff.1 (spaced.covers below)
    omega
  branches := fun _ _ _ _ _ _ _ => trivial

theorem Declares.lookup_declarations {after : ScopeStack} {offset : Nat}
    (declares : stack.Declares offset after) (behind : place < offset)
    (known : stack.declarations.lookup place = some symbol) :
    after.declarations.lookup place = some symbol := by
  obtain ⟨own, declarations_eq, -⟩ := declares.noted
  rw [declarations_eq, List.lookup_cons, beq_eq_false_iff_ne.2 (Nat.ne_of_lt behind)]
  exact known

/-- Names behind a place leave the symbol of the name there alone. -/
theorem parallel_lookup_declarations (place : Nat) (symbol : Symbol) :
    Parallel (fun _ _ => True) (fun offset _ => place < offset) (fun _ => True)
      fun stack partner => partner = stack ∧ stack.declarations.lookup place = some symbol where
  use := by
    rintro _ stack offset name - ⟨rfl, known⟩
    exact ⟨rfl, by rwa [declarations_use]⟩
  declare := by
    rintro _ stack offset name behind ⟨rfl, known⟩
    exact ⟨rfl, (declares_declare _ offset name).lookup_declarations behind known⟩
  declareVariable := by
    rintro _ stack offset name behind ⟨rfl, known⟩
    exact ⟨rfl, (declares_declareVariable _ offset name).lookup_declarations behind known⟩
  settle := by
    rintro _ stack ⟨rfl, known⟩
    exact ⟨rfl, by rwa [declarations_settle]⟩
  enter := by
    rintro _ stack _ _ isFunction asksStrict ⟨rfl, -⟩ ⟨rfl, known⟩
    exact ⟨rfl, known⟩
  leave := by
    rintro _ stack ⟨rfl, known⟩
    exact ⟨rfl, by rwa [leave, declarations_settle]⟩
  one := by
    rintro _ _ _ before _ _ ⟨rfl, -⟩ differ
    exact absurd rfl differ

theorem lookup_declarations_readNodes {nodes : List Node} (behind : AllBehind text place nodes)
    (known : stack.declarations.lookup place = some symbol) :
    (readNodes nodes stack).declarations.lookup place = some symbol :=
  ((parallel_lookup_declarations place symbol).readNodes
    (fun node listed => suits_of_behind (behind node listed).1 (behind node listed).2)
    ⟨rfl, known⟩).2

/-! ## A function that is declared first -/

/-- The scope of a function in which nothing passed through declares the name or knows it. -/
theorem knows_declare (below : HoldsBelow (fun frame => frame.passed = []) [] stack)
    (place : Nat) (name : String) : ∃ symbol,
      HoldsBelow (fun frame => frame.declared.lookup name = some symbol) []
          (stack.declare place name) ∧
        (stack.declare place name).declarations.lookup place = some symbol := by
  obtain ⟨_ | _, function, outer, frames_eq, flags, is_function, none_passed⟩ := below
  case cons => contradiction
  have top_eq : stack.top = function := by rw [top, frames_eq]; rfl
  unfold declare
  rw [top_eq]
  split
  · rename_i symbol known
    have declared : function.declared.lookup name = some symbol := by
      simpa [Frame.known?, none_passed] using known
    exact ⟨symbol, ⟨[], function, outer, frames_eq, rfl, is_function, declared⟩,
      List.lookup_cons_self⟩
  · exact ⟨place, ⟨[], addName name place function, outer, by simp [note, changeTop, frames_eq],
      rfl, is_function, List.lookup_cons_self⟩, by simp [note, changeTop, frames_eq]⟩

/-- A function that is declared is known behind its declaration. -/
theorem knows_readNode (below : HoldsBelow (fun frame => frame.passed = []) [] stack)
    {isAsync isGenerator : Bool} {span nameSpan : Span} {others : List Node}
    (spaced : (Node.mk (.function .declaration isAsync isGenerator) span
      (.mk (.binding name) nameSpan [] :: others)).IsSpaced text) : ∃ symbol,
      HoldsBelow (fun frame => frame.declared.lookup name = some symbol) []
          (readNode false (.mk (.function .declaration isAsync isGenerator) span
            (.mk (.binding name) nameSpan [] :: others)) stack) ∧
        (readNode false (.mk (.function .declaration isAsync isGenerator) span
          (.mk (.binding name) nameSpan [] :: others)) stack).declarations.lookup nameSpan.start =
          some symbol := by
  obtain ⟨symbol, knows, noted⟩ := knows_declare below nameSpan.start name
  have behind : AllBehind text nameSpan.start others := by
    intro node listed
    have row := spaced.inRow (by simp [NodeKind.arrangement])
    have proper := (spaced.child List.mem_cons_self).proper
    have before := (List.pairwise_cons.1 row.ordered).1 node listed
    exact ⟨spaced.child (List.mem_cons_of_mem _ listed), Nat.lt_of_lt_of_le proper before⟩
  have read_eq : readNode false (.mk (.function .declaration isAsync isGenerator) span
      (.mk (.binding name) nameSpan [] :: others)) stack =
        ((stack.declare nameSpan.start name).declareAll (ownNames others)).inScope
          (stack.functionFrame (.mk (.binding name) nameSpan [] :: others)) (readNodes others) := by
    simp [readNode, ownNames, declareAll, readNodes, Node.span, Node.name?]
  rw [read_eq]
  refine ⟨symbol, ?_, ?_⟩
  · exact (knows.declareAll (retained_lookup name symbol) _).inScope (retained_lookup name symbol) ..
  · rw [inScope_eq, leave, declarations_settle]
    refine lookup_declarations_readNodes behind ?_
    have own_behind : ∀ binding ∈ ownNames others, nameSpan.start < binding.declaredName.1 :=
      fun binding listed => (behind binding (List.mem_filter.1 listed).1).2
    exact ((parallel_lookup_declarations nameSpan.start symbol).declareAll own_behind
      ⟨rfl, noted⟩).2

/-! ## A closure with a function that is declared first -/

section Closure

variable {isStrict isAsync isGenerator : Bool} {outer : List Frame} {early others rest : List Node}
  {directives : List String} {bodySpan span nameSpan : Span}

/-- A function that the body of a closure declares first is declared in the scope of the closure to
the end, by the symbol of its name. -/
theorem knows_first (inside : InFunction isStrict outer stack)
    (spaced : (Node.mk (.function .declaration isAsync isGenerator) span
      (.mk (.binding name) nameSpan [] :: others)).IsSpaced text)
    (behind : AllBehind text nameSpan.start rest) {parts : List Node}
    (parts_eq : parts = early ++ [.mk (.body directives) bodySpan
      (.mk (.function .declaration isAsync isGenerator) span
        (.mk (.binding name) nameSpan [] :: others) :: rest)]) :
    ∃ symbol, (ownScope isStrict parts).lookup name = some symbol ∧
      (readNodes parts (atParts isStrict parts stack)).declarations.lookup nameSpan.start =
        some symbol := by
  have start : HoldsBelow (fun frame => frame.passed = []) [] (atParts isStrict parts stack) := by
    refine HoldsBelow.declareAll retained_passed ?_ _
    exact ⟨[], _, stack.frames, rfl, rfl, rfl, rfl⟩
  obtain ⟨symbol, knows, noted⟩ := knows_readNode (start.readNodes retained_passed early) spaced
  have read_eq : readNodes parts (atParts isStrict parts stack) =
      readNodes rest (readNode false (.mk (.function .declaration isAsync isGenerator) span
        (.mk (.binding name) nameSpan [] :: others))
          (readNodes early (atParts isStrict parts stack))) := by
    generalize atParts isStrict parts stack = base
    rw [parts_eq, readNodes_append]
    simp only [readNodes]
    rw [readNode]
    rfl
  rw [← top_readNodes_parts inside, read_eq]
  obtain ⟨_ | _, function, around, frames_eq, flags, -, known⟩ :=
    knows.readNodes (retained_lookup name symbol) rest
  case cons => contradiction
  refine ⟨symbol, ?_, lookup_declarations_readNodes behind noted⟩
  rw [top, frames_eq]
  exact known

end Closure

/-- A use that waits in the innermost scope is settled when the scope closes and declares its
name. -/
theorem mem_settled_leave {use : NameUse} (waits : use ∈ stack.top.pending)
    (known : stack.top.declared.lookup use.name = some symbol) :
    (use.offset, symbol) ∈ stack.leave.settled := by
  obtain ⟨_ | ⟨frame, _ | ⟨around, frames⟩⟩, settled, uses, repeated, declarations⟩ := stack
  · contradiction
  · rw [leave, settle_eq_of_outermost rfl]
    exact List.mem_append_left _ (mem_settledIn.2 ⟨use, waits, rfl, known⟩)
  · rw [leave, settle_eq_of_around rfl]
    exact List.mem_append_left _ (mem_settledIn.2 ⟨use, waits, rfl, known⟩)

end ScopeStack
end Shakedown
