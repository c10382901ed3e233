import Shakedown.Proofs.Scope.Apart
import Shakedown.Proofs.Scope.Declared
import Shakedown.Proofs.Scope.Modes

/-!
# Names of symbols

A use means a symbol of its own name: what a scope declares is known by the name that stands where
the symbol is. In a tree that is spaced out and of the right shape one name stands in one place, so
the name of a symbol is a matter of where the symbol is.
-/

namespace Shakedown
namespace Node

variable {text : List Char} {node first second : Node} {nodes : List Node}

/-- Two names of trees in a row that begin in one place are the same. -/
theorem eq_of_start_of_ordered (spaced : ∀ node ∈ nodes, node.IsSpaced text)
    (ordered : nodes.Pairwise fun first second => first.span.stop ≤ second.span.start)
    (each : ∀ node ∈ nodes, first ∈ node.nodes → second ∈ node.nodes → first = second)
    (below : first ∈ nodesOfList nodes) (also_below : second ∈ nodesOfList nodes)
    (same : first.span.start = second.span.start) : first = second := by
  obtain ⟨holder, listed, below⟩ := mem_nodesOfList.1 below
  obtain ⟨other, also_listed, also_below⟩ := mem_nodesOfList.1 also_below
  have covered := Span.covers_iff.1 ((spaced holder listed).covers below)
  have also_covered := Span.covers_iff.1 ((spaced other also_listed).covers also_below)
  have proper := ((spaced holder listed).below below).proper
  have also_proper := ((spaced other also_listed).below also_below).proper
  have row : InRow text 0 (Text.width text) nodes := ⟨spaced, fun node among =>
    ⟨Nat.zero_le _, (spaced node among).fits.framed.ends.isBoundary.le_width⟩, ordered⟩
  obtain rfl | apart := row.eq_or_apart listed also_listed
  · exact each holder listed below also_below
  · omega

/-- Two names of a tree that begin in one place are the same. -/
theorem IsShaped.eq_of_start (shaped : node.IsShaped) (spaced : node.IsSpaced text)
    (below : first ∈ node.nodes) (also_below : second ∈ node.nodes) (named : first.kind.isName)
    (also_named : second.kind.isName) (same : first.span.start = second.span.start) :
    first = second := by
  induction node using Node.induction with
  | step kind span children ih =>
      have each : ∀ child ∈ children, first ∈ child.nodes → second ∈ child.nodes →
          first = second := fun child listed below also_below =>
        ih child listed (shaped.child listed) (spaced.child listed) below also_below
      have children_spaced : ∀ child ∈ children, child.IsSpaced text := fun _ => spaced.child
      rw [nodes, List.mem_cons] at below also_below
      by_cases is_name : kind.isName
      · obtain rfl : children = [] := shaped.formed.name is_name
        rw [below.resolve_right List.not_mem_nil, also_below.resolve_right List.not_mem_nil]
      have strict : ∀ {inner : Node}, inner.kind.isName →
          inner = mk kind span children ∨ inner ∈ nodesOfList children →
          inner ∈ nodesOfList children := by
        rintro inner inner_named (rfl | below)
        · exact absurd inner_named is_name
        · exact below
      have below := strict named below
      have also_below := strict also_named also_below
      by_cases arranged : kind.arrangement = .named
      · have children_named := spaced.fits.named arranged
        have key_plain := shaped.formed.key arranged
        cases children with
        | nil => contradiction
        | cons key others =>
            obtain ⟨leaf, -, ordered⟩ := children_named
            have behind : ∀ {inner : Node}, inner.kind.isName →
                inner ∈ nodesOfList (key :: others) → inner ∈ nodesOfList others := by
              intro inner inner_named inside
              rw [nodesOfList, List.mem_append] at inside
              refine inside.resolve_left fun inside => ?_
              obtain rfl | ⟨child, listed, -⟩ := mem_nodes.1 inside
              · simp [key_plain _ rfl] at inner_named
              · rw [leaf] at listed
                contradiction
            exact eq_of_start_of_ordered (List.forall_mem_cons.1 children_spaced).2 ordered
              (List.forall_mem_cons.1 each).2 (behind named below) (behind also_named also_below)
              same
      · exact eq_of_start_of_ordered children_spaced (spaced.fits.apart arranged) each below
          also_below same

/-- Two names of statements in a row that begin in one place are the same. -/
theorem InRow.eq_of_start {origin last : Nat} (row : InRow text origin last nodes)
    (shaped : ∀ node ∈ nodes, node.IsShaped) (below : first ∈ nodesOfList nodes)
    (also_below : second ∈ nodesOfList nodes) (named : first.kind.isName)
    (also_named : second.kind.isName) (same : first.span.start = second.span.start) :
    first = second :=
  eq_of_start_of_ordered row.spaced row.ordered (fun node listed inside also_inside =>
    (shaped node listed).eq_of_start (row.spaced node listed) inside also_inside named also_named
      same) below also_below same

end Node

namespace ScopeStack

variable {uses names : Nat → String → Prop} {stack : ScopeStack} {frame : Frame}
  {frames : List Frame} {offset : Nat} {name : String} {symbol : Symbol}

/-- What a scope declares, and what passed through it, is known by its names. -/
def FrameNames (names : Nat → String → Prop) (frame : Frame) : Prop :=
  ∀ entry ∈ frame.declared ++ frame.passed, names entry.2 entry.1

/-- Every symbol has the name that it is known by, and so do the uses that mean it. -/
structure IsNamed (uses names : Nat → String → Prop) (stack : ScopeStack) : Prop where
  /-- The scopes know symbols by their names. -/
  frames : ∀ frame ∈ stack.frames, FrameNames names frame
  /-- What waits is a use. -/
  waiting : ∀ use ∈ stack.waiting, uses use.offset use.name
  /-- What is settled is a use that means a symbol of its name. -/
  settled : ∀ meaning ∈ stack.settled, ∃ name, uses meaning.1 name ∧ names meaning.2 name
  /-- A declaring name belongs to a symbol of its name. -/
  declarations : ∀ note ∈ stack.declarations, ∃ name, names note.1 name ∧ names note.2 name

theorem FrameNames.known (frame_names : FrameNames names frame)
    (known : frame.known? name = some symbol) : names symbol name := by
  refine frame_names (name, symbol) (List.mem_append.2 ?_)
  unfold Frame.known? at known
  cases declared : frame.declared.lookup name with
  | some own =>
      rw [declared] at known
      obtain rfl := Option.some.inj known
      exact .inl (mem_of_lookup declared)
  | none =>
      rw [declared] at known
      exact .inr (mem_of_lookup known)

theorem FrameNames.addName (frame_names : FrameNames names frame) (named : names symbol name) :
    FrameNames names (addName name symbol frame) := by
  intro entry listed
  obtain rfl | before := List.mem_cons.1 listed
  · exact named
  · exact frame_names entry before

theorem FrameNames.addPassed (frame_names : FrameNames names frame) (named : names symbol name) :
    FrameNames names (addPassed name symbol frame) := by
  intro entry listed
  obtain declared | passed := List.mem_append.1 listed
  · exact frame_names entry (List.mem_append_left _ declared)
  · obtain rfl | passed := List.mem_cons.1 passed
    · exact named
    · exact frame_names entry (List.mem_append_right _ (List.mem_filter.1 passed).1)

theorem frameNames_forgetFirst (frame_names : ∀ frame ∈ frames, FrameNames names frame) :
    ∀ frame ∈ forgetFirst name frames, FrameNames names frame := by
  induction frames with
  | nil => exact frame_names
  | cons frame frames ih =>
      obtain ⟨first, others⟩ := List.forall_mem_cons.1 frame_names
      unfold forgetFirst
      split
      · refine List.forall_mem_cons.2 ⟨fun entry listed => first entry ?_, others⟩
        exact List.mem_append.2 ((List.mem_append.1 listed).imp_left fun declared =>
          (List.mem_filter.1 declared).1)
      · exact List.forall_mem_cons.2 ⟨first, ih others⟩

theorem frameNames_hoist {blocks rest : List Frame}
    (block_names : ∀ frame ∈ blocks, FrameNames names frame)
    (rest_names : ∀ frame ∈ rest, FrameNames names frame) (named : names symbol name) :
    ∀ frame ∈ hoist name symbol blocks rest, FrameNames names frame := by
  unfold hoist
  split
  · exact block_names
  obtain ⟨first, others⟩ := List.forall_mem_cons.1 rest_names
  split
  · exact List.forall_mem_append.2 ⟨block_names, rest_names⟩
  · exact List.forall_mem_append.2 ⟨frameNames_forgetFirst block_names,
      List.forall_mem_cons.2 ⟨first.addName named, others⟩⟩

/-- A name that a scope knows or that is new has the symbol of its name. -/
theorem frameNames_declare (frame_names : ∀ frame ∈ stack.frames, FrameNames names frame)
    (named : names offset name) :
    (∀ frame ∈ (stack.declare offset name).frames, FrameNames names frame) ∧
      ∃ symbol, names symbol name ∧
        (stack.declare offset name).declarations = (offset, symbol) :: stack.declarations := by
  unfold declare
  split
  · rename_i symbol known
    refine ⟨frame_names, symbol, ?_, rfl⟩
    obtain ⟨_ | ⟨frame, frames⟩, settled, uses, repeated, declarations⟩ := stack
    · contradiction
    · exact (frame_names frame List.mem_cons_self).known known
  · refine ⟨?_, offset, named, ?_⟩
    all_goals
      obtain ⟨_ | ⟨frame, frames⟩, settled, uses, repeated, declarations⟩ := stack
    · exact frame_names
    · obtain ⟨first, others⟩ := List.forall_mem_cons.1 frame_names
      exact List.forall_mem_cons.2 ⟨first.addName named, others⟩
    · rfl
    · rfl

theorem frameNames_declareVariable (frame_names : ∀ frame ∈ stack.frames, FrameNames names frame)
    (named : names offset name) :
    (∀ frame ∈ (stack.declareVariable offset name).frames, FrameNames names frame) ∧
      ∃ symbol, names symbol name ∧
        (stack.declareVariable offset name).declarations =
          (offset, symbol) :: stack.declarations := by
  have whole := splitAtFunction_append stack.frames
  unfold declareVariable
  split
  rename_i blocks rest split_eq
  rw [split_eq] at whole
  rw [← whole] at frame_names
  obtain ⟨block_names, rest_names⟩ := List.forall_mem_append.1 frame_names
  have passed_names : ∀ {symbol}, names symbol name →
      ∀ frame ∈ blocks.map (addPassed name symbol), FrameNames names frame := by
    intro symbol symbol_named frame listed
    obtain ⟨block, among, rfl⟩ := List.mem_map.1 listed
    exact (block_names block among).addPassed symbol_named
  split
  · rename_i symbol known
    obtain ⟨block, among, block_knows⟩ := List.exists_of_findSome?_eq_some known
    have symbol_named := (block_names block among).known block_knows
    exact ⟨frameNames_hoist (passed_names symbol_named) rest_names symbol_named, symbol,
      symbol_named, rfl⟩
  · have outside : ∀ frame ∈ ({ stack with frames := rest } : ScopeStack).frames,
        FrameNames names frame := rest_names
    obtain ⟨inner_names, symbol, symbol_named, declarations_eq⟩ :=
      frameNames_declare outside named
    refine ⟨List.forall_mem_append.2 ⟨passed_names ?_, inner_names⟩, symbol, symbol_named,
      declarations_eq⟩
    rw [declarations_eq, List.lookup_cons_self]
    exact symbol_named

theorem IsNamed.declared {after : ScopeStack} (is_named : stack.IsNamed uses names)
    (declares : stack.Declares offset after) (named : names offset name)
    (changed : (∀ frame ∈ after.frames, FrameNames names frame) ∧ ∃ symbol, names symbol name ∧
      after.declarations = (offset, symbol) :: stack.declarations) : after.IsNamed uses names where
  frames := changed.1
  waiting := declares.waiting_eq ▸ is_named.waiting
  settled := declares.settled ▸ is_named.settled
  declarations := by
    obtain ⟨symbol, symbol_named, declarations_eq⟩ := changed.2
    rw [declarations_eq]
    exact List.forall_mem_cons.2 ⟨⟨name, named, symbol_named⟩, is_named.declarations⟩

theorem IsNamed.settledIn (is_named : stack.IsNamed uses names) (listed : frame ∈ stack.frames) :
    ∀ meaning ∈ settledIn frame, ∃ name, uses meaning.1 name ∧ names meaning.2 name := by
  rintro ⟨place, symbol⟩ settled
  obtain ⟨use, waits, rfl, found⟩ := mem_settledIn.1 settled
  refine ⟨use.name, is_named.waiting use (List.mem_flatMap.2 ⟨frame, listed, waits⟩), ?_⟩
  exact is_named.frames frame listed (use.name, symbol)
    (List.mem_append_left _ (mem_of_lookup found))

theorem IsNamed.settle (is_named : stack.IsNamed uses names) : stack.settle.IsNamed uses names where
  frames := by
    have before := is_named.frames
    obtain ⟨_ | ⟨frame, _ | ⟨outer, frames⟩⟩, settled, uses, repeated, declarations⟩ := stack
    · exact before
    · rw [settle_eq_of_outermost rfl]
      exact List.forall_mem_singleton.2 (List.forall_mem_singleton.1 before :)
    · rw [settle_eq_of_around rfl]
      obtain ⟨first, second, others⟩ := List.forall_mem_cons.1 before |>.imp_right
        List.forall_mem_cons.1
      exact List.forall_mem_cons.2 ⟨first, List.forall_mem_cons.2 ⟨second, others⟩⟩
  waiting := fun use waits => is_named.waiting use (mem_waiting_of_settle waits)
  settled := by
    have own := @IsNamed.settledIn uses names stack
    have before := is_named.settled
    obtain ⟨_ | ⟨frame, _ | ⟨outer, frames⟩⟩, settled, uses, repeated, declarations⟩ := stack
    · exact before
    · rw [settle_eq_of_outermost rfl]
      exact List.forall_mem_append.2 ⟨own is_named List.mem_cons_self, before⟩
    · rw [settle_eq_of_around rfl]
      exact List.forall_mem_append.2 ⟨own is_named List.mem_cons_self, before⟩
  declarations := by
    rw [declarations_settle]
    exact is_named.declarations

/-- What every change made while reading keeps of one stack is a relation between the stack and
itself. -/
theorem parallel_isNamed (uses names : Nat → String → Prop) :
    Parallel uses names (fun _ => True) fun stack partner =>
      partner = stack ∧ stack.IsNamed uses names where
  use := by
    rintro _ stack offset name used ⟨rfl, is_named⟩
    refine ⟨rfl, ⟨?_, fun use waits => ?_, ?_, ?_⟩⟩
    · have before := is_named.frames
      obtain ⟨_ | ⟨frame, frames⟩, settled, uses, repeated, declarations⟩ := stack
      · exact before
      · exact List.forall_mem_cons.2 ⟨(List.forall_mem_cons.1 before).1,
          (List.forall_mem_cons.1 before).2⟩
    · have before := is_named.waiting
      obtain ⟨_ | ⟨frame, frames⟩, settled, uses, repeated, declarations⟩ := stack
      · exact before use waits
      · obtain rfl | waits := List.mem_cons.1 waits
        · exact used
        · exact before use waits
    · rw [settled_use]
      exact is_named.settled
    · rw [declarations_use]
      exact is_named.declarations
  declare := by
    rintro _ stack offset name named ⟨rfl, is_named⟩
    exact ⟨rfl, is_named.declared (declares_declare stack offset name) named
      (frameNames_declare is_named.frames named)⟩
  declareVariable := by
    rintro _ stack offset name named ⟨rfl, is_named⟩
    exact ⟨rfl, is_named.declared (declares_declareVariable stack offset name) named
      (frameNames_declareVariable is_named.frames named)⟩
  settle := by
    rintro _ stack ⟨rfl, is_named⟩
    exact ⟨rfl, is_named.settle⟩
  enter := by
    rintro _ stack _ before isFunction asksStrict ⟨rfl, -⟩ ⟨rfl, is_named⟩
    exact ⟨rfl, List.forall_mem_cons.2 ⟨nofun, is_named.frames⟩, is_named.waiting,
      is_named.settled, is_named.declarations⟩
  leave := by
    rintro _ stack ⟨rfl, is_named⟩
    refine ⟨rfl, fun frame listed => is_named.settle.frames frame (List.mem_of_mem_drop listed),
      fun use waits => ?_, is_named.settle.settled, is_named.settle.declarations⟩
    obtain ⟨frame, below, listed⟩ := List.mem_flatMap.1 waits
    exact is_named.settle.waiting use
      (List.mem_flatMap.2 ⟨frame, List.mem_of_mem_drop below, listed⟩)
  one := by
    rintro _ stack _ before offset name ⟨rfl, -⟩ differ
    exact absurd rfl differ

/-- A tree of uses and names of the sorts is read with every symbol known by its name. -/
theorem IsNamed.readNodes {nodes : List Node}
    (suits : ∀ node ∈ nodes, node.Suits uses names fun _ => True)
    (is_named : stack.IsNamed uses names) :
    (ScopeStack.readNodes nodes stack).IsNamed uses names :=
  ((parallel_isNamed uses names).readNodes suits ⟨rfl, is_named⟩).2

end ScopeStack

/-! ## Programs -/

namespace Node

/-- Where a name is used in trees. -/
def HasUse (nodes : List Node) (offset : Nat) (name : String) : Prop :=
  ∃ inner ∈ nodesOfList nodes, inner.kind = .reference name ∧ inner.span.start = offset

/-- Where a name is declared in trees. -/
def HasName (nodes : List Node) (place : Nat) (name : String) : Prop :=
  ∃ inner ∈ nodesOfList nodes, inner.kind = .binding name ∧ inner.span.start = place

variable {text : List Char} {nodes : List Node} {origin last offset place : Nat}
  {first second : String}

theorem hasUse_of_mem_references {node : Node} {use : NameUse} (used : use ∈ node.references) :
    ∃ inner ∈ node.nodes, inner.kind = .reference use.name ∧ inner.span.start = use.offset := by
  induction node using Node.induction with
  | step kind span children ih =>
      obtain ⟨name, rfl, references_eq⟩ | references_eq | references_eq :=
        references_cases kind span children <;> rw [references_eq] at used
      · obtain rfl := List.mem_singleton.1 used
        exact ⟨_, mem_nodes.2 (.inl rfl), rfl, rfl⟩
      · contradiction
      · obtain ⟨child, listed, used⟩ := mem_referencesOfList.1 used
        obtain ⟨inner, below, named, here⟩ := ih child listed used
        exact ⟨inner, mem_nodes.2 (.inr ⟨child, listed, below⟩), named, here⟩

theorem HasUse.of_mem {use : NameUse} (used : use ∈ referencesOfList nodes) :
    HasUse nodes use.offset use.name := by
  obtain ⟨node, listed, used⟩ := mem_referencesOfList.1 used
  obtain ⟨inner, below, named, here⟩ := hasUse_of_mem_references used
  exact ⟨inner, mem_nodesOfList.2 ⟨node, listed, below⟩, named, here⟩

section Row

variable (row : InRow text origin last nodes) (shaped : ∀ node ∈ nodes, node.IsShaped)

include row shaped

theorem HasUse.unique (used : HasUse nodes offset first) (also_used : HasUse nodes offset second) :
    first = second := by
  obtain ⟨inner, below, named, here⟩ := used
  obtain ⟨other, also_below, also_named, also_here⟩ := also_used
  obtain rfl := row.eq_of_start shaped below also_below (by rw [named]; rfl)
    (by rw [also_named]; rfl) (here.trans also_here.symm)
  exact NodeKind.reference.inj (named.symm.trans also_named)

theorem HasName.unique (named : HasName nodes place first) (also_named : HasName nodes place second) :
    first = second := by
  obtain ⟨inner, below, named, here⟩ := named
  obtain ⟨other, also_below, also_named, also_here⟩ := also_named
  obtain rfl := row.eq_of_start shaped below also_below (by rw [named]; rfl)
    (by rw [also_named]; rfl) (here.trans also_here.symm)
  exact NodeKind.binding.inj (named.symm.trans also_named)

end Row

end Node

namespace Scoping

/-- Whether the name at a place is one of those that declare what a use means. -/
def Binds (scoping : Scoping) (place offset : Nat) : Prop :=
  ∃ symbol, (scoping.resolve offset).symbol? = some symbol ∧
    scoping.symbolAt? place = some symbol

theorem symbol?_resolve (scoping : Scoping) (offset : Nat) :
    (scoping.resolve offset).symbol? = scoping.meanings.lookup offset := by
  rw [resolve_eq]
  cases scoping.meanings.lookup offset with
  | none => rfl
  | some symbol =>
      dsimp only
      split <;> rfl

open Node ScopeStack in
/-- A use means what is declared by its own name. -/
theorem Binds.name_eq {program : Program} {text : List Char} {origin last place : Nat} {use : NameUse}
    {name : String} (binds : (ofProgram program).Binds place use.offset)
    (row : InRow text origin last program.body) (shaped : ∀ node ∈ program.body, node.IsShaped)
    (used : use ∈ referencesOfList program.body) (declared : HasName program.body place name) :
    use.name = name := by
  have suits : ∀ node ∈ program.body,
      node.Suits (HasUse program.body) (HasName program.body) fun _ => True := fun node listed =>
    ⟨fun inner below _ named => ⟨inner, mem_nodesOfList.2 ⟨node, listed, below⟩, named, rfl⟩,
      fun inner below _ named => ⟨inner, mem_nodesOfList.2 ⟨node, listed, below⟩, named, rfl⟩,
      fun _ _ _ _ _ _ _ => trivial⟩
  have start : IsNamed (HasUse program.body) (HasName program.body)
      ⟨[.fresh true program.isStrict], [], [], [], []⟩ :=
    ⟨List.forall_mem_singleton.2 nofun, nofun, nofun, nofun⟩
  have is_named : (ScopeStack.ofProgram program).IsNamed _ _ := (start.readNodes suits).settle
  obtain ⟨symbol, meant, noted⟩ := binds
  rw [symbol?_resolve] at meant
  obtain ⟨own, also_used, own_named⟩ := is_named.settled _ (mem_of_lookup meant)
  obtain ⟨other, also_declared, other_named⟩ := is_named.declarations _ (mem_of_lookup noted)
  calc use.name = own := (HasUse.of_mem used).unique row shaped also_used
    _ = other := own_named.unique row shaped other_named
    _ = name := also_declared.unique row shaped declared

end Scoping
end Shakedown
