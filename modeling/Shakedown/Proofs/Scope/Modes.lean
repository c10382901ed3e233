import Shakedown.Proofs.Scope.Reading

/-!
# Reading a tree in two modes

One tree is read on two stacks of scopes, which may be in different modes. The mode makes a
difference for functions that are branches of `if` statements only: they declare their names in
strict mode. What every change keeps between the stacks, and a name that only one of them declares
in this way, is kept when the tree is read.
-/

namespace Shakedown

open Node

namespace Node

/-- A declared name of a pattern is a binding. -/
theorem exists_binding_of_mem_bindings {node inner : Node} (listed : inner ∈ node.bindings) :
    ∃ name, inner.kind = .binding name := by
  induction node using Node.induction with
  | step kind span children ih =>
      unfold bindings at listed
      split at listed
      case h_1 name _ _ _ => exact ⟨name, List.mem_singleton.1 listed ▸ rfl⟩
      case h_8 => contradiction
      all_goals
        obtain ⟨rfl, rfl, rfl⟩ := Node.mk.inj ‹_ = _›
        first
          | obtain ⟨child, among, listed⟩ := mem_bindingsOfList.1 listed
            exact ih child among listed
          | exact ih _ (by simp) listed

/-- The names that a function declares around it. -/
def functionNames : Node → List Node
  | .mk (.function .declaration _ _) _ parts => ScopeStack.ownNames parts
  | _ => []

/-- The uses and names of a tree are of the given sorts, and so are the names of functions that are
branches. -/
structure Suits (uses names : Nat → String → Prop) (extra : String → Prop) (node : Node) :
    Prop where
  /-- The references are uses of the sort. -/
  uses : ∀ inner ∈ node.nodes, ∀ name, inner.kind = .reference name → uses inner.span.start name
  /-- The bindings are names of the sort. -/
  names : ∀ inner ∈ node.nodes, ∀ name, inner.kind = .binding name → names inner.span.start name
  /-- The functions that are branches declare names of the sort. -/
  branches : ∀ inner ∈ node.nodes, inner.kind = .ifStatement → ∀ branch ∈ inner.children,
    ∀ binding ∈ branch.functionNames, extra binding.declaredName.2

namespace Suits

variable {uses names : Nat → String → Prop} {extra : String → Prop} {node inner : Node}

theorem child (suits : node.Suits uses names extra) (listed : inner ∈ node.children) :
    inner.Suits uses names extra where
  uses := fun other below => suits.uses other (mem_nodes.2 (.inr ⟨inner, listed, below⟩))
  names := fun other below => suits.names other (mem_nodes.2 (.inr ⟨inner, listed, below⟩))
  branches := fun other below => suits.branches other (mem_nodes.2 (.inr ⟨inner, listed, below⟩))

theorem declaredName (suits : node.Suits uses names extra) (below : inner ∈ node.nodes)
    {name : String} (named : inner.kind = .binding name) :
    names inner.declaredName.1 inner.declaredName.2 := by
  obtain ⟨kind, span, children⟩ := inner
  obtain rfl : kind = .binding name := named
  exact suits.names _ below name rfl

/-- The names that a pattern declares are of the sort. -/
theorem bindings (suits : node.Suits uses names extra) (listed : inner ∈ node.bindings) :
    names inner.declaredName.1 inner.declaredName.2 := by
  obtain ⟨name, named⟩ := exists_binding_of_mem_bindings listed
  exact suits.declaredName (mem_nodes_of_mem_bindings listed) named

/-- So are the names of a function or class. -/
theorem ownNames (suits : node.Suits uses names extra)
    (listed : inner ∈ ScopeStack.ownNames node.children) :
    names inner.declaredName.1 inner.declaredName.2 := by
  obtain ⟨among, named⟩ := List.mem_filter.1 listed
  have below : inner ∈ node.nodes := mem_nodes.2 (.inr ⟨inner, among, mem_nodes.2 (.inl rfl)⟩)
  obtain ⟨kind, span, children⟩ := inner
  cases kind
  case binding name => exact suits.names _ below name rfl
  all_goals contradiction

end Suits

end Node

namespace ScopeStack

/-- A relation between two stacks of scopes that each change made while reading keeps, when the
stacks may be in different modes. -/
structure Parallel (uses names : Nat → String → Prop) (extra : String → Prop)
    (related : ScopeStack → ScopeStack → Prop) : Prop where
  /-- A use is noted. -/
  use : ∀ {stack partner offset name}, uses offset name → related stack partner →
    related (stack.use offset name) (partner.use offset name)
  /-- A name is declared in the innermost scope. -/
  declare : ∀ {stack partner offset name}, names offset name → related stack partner →
    related (stack.declare offset name) (partner.declare offset name)
  /-- A variable of the function is declared. -/
  declareVariable : ∀ {stack partner offset name}, names offset name → related stack partner →
    related (stack.declareVariable offset name) (partner.declareVariable offset name)
  /-- The uses so far are settled. -/
  settle : ∀ {stack partner}, related stack partner → related stack.settle partner.settle
  /-- A scope is opened, each in the mode that the stack was in before. -/
  enter : ∀ {stack partner before earlier} (isFunction asksStrict), related before earlier →
    related stack partner →
    related (stack.enter (.fresh isFunction (before.top.isStrict || asksStrict)))
      (partner.enter (.fresh isFunction (earlier.top.isStrict || asksStrict)))
  /-- A scope is closed. -/
  leave : ∀ {stack partner}, related stack partner → related stack.leave partner.leave
  /-- A name is declared in one of the modes only. -/
  one : ∀ {stack partner before earlier offset name}, related before earlier →
    before.top.isStrict ≠ earlier.top.isStrict → names offset name → extra name →
    related stack partner →
    related (stack.declare offset name) partner ∧ related stack (partner.declare offset name)

namespace Parallel

variable {uses names : Nat → String → Prop} {extra : String → Prop}
  {related : ScopeStack → ScopeStack → Prop} {stack partner : ScopeStack}

/-- Reading a node keeps the relation. -/
def Keeps (extra : String → Prop) (related : ScopeStack → ScopeStack → Prop) (node : Node) : Prop :=
  ∀ (isBranch : Bool) {stack partner},
    (isBranch → ∀ binding ∈ node.functionNames, extra binding.declaredName.2) →
    related stack partner → related (readNode isBranch node stack) (readNode isBranch node partner)

/-- A tree that is no branch is read without a word on the functions that it declares. -/
theorem Keeps.plain {node : Node} (keeps : Keeps extra related node)
    (start : related stack partner) :
    related (readNode false node stack) (readNode false node partner) :=
  keeps false (fun branch => absurd branch Bool.false_ne_true) start

section Lists

variable {nodes : List Node} (each : ∀ node ∈ nodes, Keeps extra related node)

include each

theorem readNodes_of_each (start : related stack partner) :
    related (readNodes nodes stack) (readNodes nodes partner) := by
  induction nodes generalizing stack partner with
  | nil => simpa only [readNodes] using start
  | cons node rest ih =>
      obtain ⟨node_keeps, rest_keep⟩ := List.forall_mem_cons.1 each
      rw [readNodes, readNodes]
      exact ih rest_keep (node_keeps.plain start)

theorem readBranches_of_each
    (branches : ∀ node ∈ nodes, ∀ binding ∈ node.functionNames, extra binding.declaredName.2)
    (start : related stack partner) :
    related (readBranches nodes stack) (readBranches nodes partner) := by
  induction nodes generalizing stack partner with
  | nil => simpa only [readBranches] using start
  | cons node rest ih =>
      obtain ⟨node_keeps, rest_keep⟩ := List.forall_mem_cons.1 each
      obtain ⟨node_extra, rest_extra⟩ := List.forall_mem_cons.1 branches
      rw [readBranches, readBranches]
      exact ih rest_keep rest_extra (node_keeps true (fun _ => node_extra) start)

end Lists

section Declarations

variable (parallel : Parallel uses names extra related)

include parallel

theorem declareAll {bindings : List Node}
    (allowed : ∀ binding ∈ bindings, names binding.declaredName.1 binding.declaredName.2)
    (start : related stack partner) :
    related (stack.declareAll bindings) (partner.declareAll bindings) := by
  rw [declareAll_eq, declareAll_eq]
  induction bindings generalizing stack partner with
  | nil => exact start
  | cons binding rest ih =>
      obtain ⟨first, others⟩ := List.forall_mem_cons.1 allowed
      exact ih others (parallel.declare first start)

/-- Names that only one of the stacks declares. -/
theorem declareAll_one {bindings : List Node} {before earlier : ScopeStack}
    (modes : related before earlier) (differ : before.top.isStrict ≠ earlier.top.isStrict)
    (allowed : ∀ binding ∈ bindings, names binding.declaredName.1 binding.declaredName.2)
    (extras : ∀ binding ∈ bindings, extra binding.declaredName.2)
    (start : related stack partner) :
    related (stack.declareAll bindings) partner ∧ related stack (partner.declareAll bindings) := by
  rw [declareAll_eq, declareAll_eq]
  constructor
  · induction bindings generalizing stack with
    | nil => exact start
    | cons binding rest ih =>
        obtain ⟨first, others⟩ := List.forall_mem_cons.1 allowed
        obtain ⟨first_extra, others_extra⟩ := List.forall_mem_cons.1 extras
        exact ih others others_extra (parallel.one modes differ first first_extra start).1
  · induction bindings generalizing partner with
    | nil => exact start
    | cons binding rest ih =>
        obtain ⟨first, others⟩ := List.forall_mem_cons.1 allowed
        obtain ⟨first_extra, others_extra⟩ := List.forall_mem_cons.1 extras
        exact ih others others_extra (parallel.one modes differ first first_extra start).2

theorem declareForm {form : VariableForm} {bindings : List Node}
    (allowed : ∀ binding ∈ bindings, names binding.declaredName.1 binding.declaredName.2)
    (start : related stack partner) :
    related (stack.declareForm form bindings) (partner.declareForm form bindings) := by
  rw [declareForm_eq, declareForm_eq]
  induction bindings generalizing stack partner with
  | nil => exact start
  | cons binding rest ih =>
      obtain ⟨first, others⟩ := List.forall_mem_cons.1 allowed
      rw [List.map_cons, List.foldl_cons, List.foldl_cons]
      refine ih others ?_
      split
      · exact parallel.declare first start
      · exact parallel.declareVariable first start

theorem readDeclarators_of_each {form : VariableForm} {nodes : List Node}
    (each : ∀ node ∈ nodes, Keeps extra related node)
    (suits : ∀ node ∈ nodes, node.Suits uses names extra) (start : related stack partner) :
    related (readDeclarators form nodes stack) (readDeclarators form nodes partner) := by
  induction nodes generalizing stack partner with
  | nil => simpa only [readDeclarators] using start
  | cons node rest ih =>
      obtain ⟨node_keeps, rest_keep⟩ := List.forall_mem_cons.1 each
      obtain ⟨node_suits, rest_suit⟩ := List.forall_mem_cons.1 suits
      rw [readDeclarators, readDeclarators]
      refine ih rest_keep rest_suit (node_keeps.plain (parallel.declareForm ?_ start))
      intro binding listed
      obtain ⟨pattern, among, listed⟩ := mem_bindingsOfList.1 listed
      obtain ⟨declarator, same, pattern_eq⟩ := List.mem_filterMap.1 among
      obtain rfl := List.mem_singleton.1 same
      split at pattern_eq
      · obtain rfl := Option.some.inj pattern_eq
        exact (node_suits.child List.mem_cons_self).bindings listed
      · contradiction

/-- Scopes of the same sort are opened, read and closed. -/
theorem inScope {before earlier : ScopeStack} {isFunction asksStrict : Bool}
    {inside within : ScopeStack → ScopeStack} (modes : related before earlier)
    (reads : ∀ stack partner, related stack partner → related (inside stack) (within partner))
    (start : related stack partner) :
    related (stack.inScope (.fresh isFunction (before.top.isStrict || asksStrict)) inside)
      (partner.inScope (.fresh isFunction (earlier.top.isStrict || asksStrict)) within) := by
  rw [inScope_eq, inScope_eq]
  exact parallel.leave (reads _ _ (parallel.enter isFunction asksStrict modes start))

theorem inBlock {before earlier : ScopeStack} {inside within : ScopeStack → ScopeStack}
    (modes : related before earlier)
    (reads : ∀ stack partner, related stack partner → related (inside stack) (within partner))
    (start : related stack partner) :
    related (stack.inScope before.blockFrame inside)
      (partner.inScope earlier.blockFrame within) := by
  have kept : related
      (stack.inScope (.fresh false (before.top.isStrict || false)) inside)
      (partner.inScope (.fresh false (earlier.top.isStrict || false)) within) :=
    parallel.inScope modes reads start
  rwa [Bool.or_false, Bool.or_false] at kept

/-- A scope that is always in strict mode. -/
theorem inStrict {isFunction : Bool} {inside within : ScopeStack → ScopeStack}
    (reads : ∀ stack partner, related stack partner → related (inside stack) (within partner))
    (start : related stack partner) :
    related (stack.inScope (.fresh isFunction true) inside)
      (partner.inScope (.fresh isFunction true) within) := by
  have kept : related
      (stack.inScope (.fresh isFunction (stack.top.isStrict || true)) inside)
      (partner.inScope (.fresh isFunction (partner.top.isStrict || true)) within) :=
    parallel.inScope start reads start
  rwa [Bool.or_true, Bool.or_true] at kept

/-- A function declares its name around it in both modes, in neither or in one of them. -/
theorem keeps_function {form : FunctionForm} {isAsync isGenerator isBranch : Bool} {span : Span}
    {children : List Node} (each : ∀ child ∈ children, Keeps extra related child)
    (suits : (Node.mk (.function form isAsync isGenerator) span children).Suits uses names extra)
    (branch : isBranch → ∀ binding ∈ (Node.mk (.function form isAsync isGenerator) span
      children).functionNames, extra binding.declaredName.2)
    (start : related stack partner) :
    related (readNode isBranch (.mk (.function form isAsync isGenerator) span children) stack)
      (readNode isBranch (.mk (.function form isAsync isGenerator) span children) partner) := by
  have own : ∀ binding ∈ ownNames children, names binding.declaredName.1 binding.declaredName.2 :=
    fun _ listed => suits.ownNames listed
  simp only [readNode]
  have outer : related
      (if (form == .declaration && !(isBranch && !stack.top.isStrict)) = true then
        stack.declareAll (ownNames children) else stack)
      (if (form == .declaration && !(isBranch && !partner.top.isStrict)) = true then
        partner.declareAll (ownNames children) else partner) := by
    by_cases same : stack.top.isStrict = partner.top.isStrict
    · rw [same]
      split
      · exact parallel.declareAll own start
      · exact start
    cases form
    case declaration =>
      cases isBranch with
      | false => simpa using parallel.declareAll own start
      | true =>
          have one := parallel.declareAll_one start same own (branch rfl) start
          cases strict : stack.top.isStrict <;> cases also_strict : partner.top.isStrict
          · exact absurd (strict.trans also_strict.symm) same
          · simpa using one.2
          · simpa using one.1
          · exact absurd (strict.trans also_strict.symm) same
    all_goals exact start
  refine parallel.inScope start (fun inside within kept => ?_) outer
  refine readNodes_of_each each ?_
  split
  · exact parallel.declareAll own kept
  · exact kept

/-- What a clause catches is declared in the scope that its body is read in. -/
theorem keeps_catchClause {isBranch hasParameter : Bool} {span : Span} {children : List Node}
    (each : ∀ child ∈ children, Keeps extra related child)
    (suits : (Node.mk (.catchClause hasParameter) span children).Suits uses names extra)
    (start : related stack partner) :
    related (readNode isBranch (.mk (.catchClause hasParameter) span children) stack)
      (readNode isBranch (.mk (.catchClause hasParameter) span children) partner) := by
  by_cases pair : children.length = 2
  · obtain ⟨pattern, body, rfl⟩ := List.length_eq_two.1 pair
    simp only [readNode]
    refine parallel.inBlock start (fun handler catcher kept => ?_) start
    have entered := parallel.declareAll
      (fun _ listed => (suits.child List.mem_cons_self).bindings listed) kept
    have read := (each pattern List.mem_cons_self).plain entered
    exact (each body (by simp)).plain (parallel.settle read)
  · rw [readNode_catchClause pair, readNode_catchClause pair]
    exact readNodes_of_each each start

/-- A tree of uses and names of the sorts is read alike in both modes. -/
theorem keeps {node : Node} (suits : node.Suits uses names extra) : Keeps extra related node := by
  induction node using Node.induction with
  | step kind span children ih =>
      have each : ∀ child ∈ children, Keeps extra related child :=
        fun child listed => ih child listed (suits.child listed)
      have own : ∀ binding ∈ ownNames children,
          names binding.declaredName.1 binding.declaredName.2 :=
        fun _ listed => suits.ownNames listed
      intro isBranch stack partner branch start
      have parts : ∀ {stack partner}, related stack partner →
          related (readNodes children stack) (readNodes children partner) :=
        fun start => readNodes_of_each each start
      cases kind
      case reference name =>
        simp only [readNode]
        exact parallel.use (suits.uses _ (mem_nodes.2 (.inl rfl)) name rfl) start
      case function form isAsync isGenerator =>
        exact parallel.keeps_function each suits branch start
      case arrow isAsync isExpression =>
        simp only [readNode]
        exact parallel.inScope start (fun _ _ => parts) start
      case parameters =>
        simp only [readNode]
        refine parallel.settle (parts (parallel.declareAll (fun binding listed => ?_) start))
        obtain ⟨item, among, listed⟩ := mem_bindingsOfList.1 listed
        exact (suits.child among).bindings listed
      case classDefinition isDeclaration hasParent =>
        simp only [readNode]
        refine parallel.inStrict (fun inside within kept => parts ?_) ?_
        · split
          · exact kept
          · exact parallel.declareAll own kept
        · split
          · exact parallel.declareAll own start
          · exact start
      case staticBlock =>
        simp only [readNode]
        exact parallel.inStrict (fun _ _ => parts) start
      case «variables» form =>
        simp only [readNode]
        exact parallel.readDeclarators_of_each each (fun _ listed => suits.child listed) start
      case importDefault | importNamespace | importSpecifier =>
        simp only [readNode]
        exact parallel.declareAll own start
      case block | forStatement | forInStatement | forOfStatement =>
        simp only [readNode]
        exact parallel.inBlock start (fun _ _ => parts) start
      case switchStatement =>
        cases children with
        | nil => simpa only [readNode] using parts start
        | cons object cases =>
            obtain ⟨object_keeps, cases_keep⟩ := List.forall_mem_cons.1 each
            simp only [readNode]
            exact parallel.inBlock start (fun _ _ => readNodes_of_each cases_keep)
              (object_keeps.plain start)
      case catchClause => exact parallel.keeps_catchClause each suits start
      case ifStatement =>
        simp only [readNode]
        exact readBranches_of_each each (suits.branches _ (mem_nodes.2 (.inl rfl)) rfl) start
      all_goals
        simp only [readNode]
        exact parts start

/-- So are lists of them. -/
theorem readNodes {nodes : List Node} (suits : ∀ node ∈ nodes, node.Suits uses names extra)
    (start : related stack partner) :
    related (ScopeStack.readNodes nodes stack) (ScopeStack.readNodes nodes partner) :=
  readNodes_of_each (fun node listed => parallel.keeps (suits node listed)) start

end Declarations

end Parallel
end ScopeStack
end Shakedown
