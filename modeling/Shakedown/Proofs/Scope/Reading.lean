import Mathlib.Data.List.Basic
import Shakedown.Proofs.Scope.Mirror
import Shakedown.Proofs.Scope.Stack

/-!
# Reading trees side by side

Reading a tree changes the open scopes in six ways only: it notes a use, declares a name in the
innermost scope or in the scope of the function, opens a scope, closes it, or settles uses in
between. What all six keep between two stacks of scopes is kept when trees that mirror each other
are read, one on each stack.

What is read outside functions may be restricted: to trees that declare nothing around them, or to
trees that settle no uses around them.
-/

namespace Shakedown

namespace NodeKind

/-- Whether what a node is made of lies in the scope of a function of its own. -/
def opensFunction : NodeKind → Bool
  | .function _ _ _ => true
  | .arrow _ _ => true
  | .staticBlock => true
  | _ => false

/-- Whether reading a node declares names in the scope around it. -/
def declares : NodeKind → Bool
  | .function .declaration _ _ => true
  | .parameters => true
  | .classDefinition isDeclaration _ => isDeclaration
  | .variables _ => true
  | .importDefault => true
  | .importNamespace => true
  | .importSpecifier _ => true
  | _ => false

end NodeKind

namespace Node

mutual

/-- The nodes of a tree that are not inside one of the nodes of the given kinds, each before those
that it is made of. -/
def nodesOutside (closed : NodeKind → Bool) : Node → List Node
  | mk kind span children =>
      mk kind span children :: (if closed kind then [] else nodesOutsideOfList closed children)

/-- The nodes of a list of trees that are not inside one of the nodes of the given kinds. -/
def nodesOutsideOfList (closed : NodeKind → Bool) : List Node → List Node
  | [] => []
  | node :: rest => nodesOutside closed node ++ nodesOutsideOfList closed rest

end

section Outside

variable {closed : NodeKind → Bool} {inner : Node}

theorem mem_nodesOutsideOfList {nodes : List Node} :
    inner ∈ nodesOutsideOfList closed nodes ↔ ∃ node ∈ nodes, inner ∈ nodesOutside closed node := by
  induction nodes with
  | nil => simp [nodesOutsideOfList]
  | cons node rest ih => simp [nodesOutsideOfList, ih]

theorem mem_nodesOutside {node : Node} :
    inner ∈ nodesOutside closed node ↔ inner = node ∨
      closed node.kind = false ∧ ∃ child ∈ node.children, inner ∈ nodesOutside closed child := by
  obtain ⟨kind, span, children⟩ := node
  cases is_closed : closed kind <;>
    simp [nodesOutside, is_closed, mem_nodesOutsideOfList, Node.kind, Node.children]

end Outside

/-- Outside functions a tree declares names around it only if `declares` says so, and has parameters
there only if `settles` says so. -/
def Permits (declares settles : Bool) (node : Node) : Prop :=
  ∀ inner ∈ nodesOutside NodeKind.opensFunction node,
    (inner.kind.declares → declares) ∧ (inner.kind = .parameters → settles)

section Permits

variable {declares settles : Bool} {kind : NodeKind} {span : Span} {children : List Node}

theorem Permits.here (permits : (mk kind span children).Permits declares settles) :
    (kind.declares → declares) ∧ (kind = .parameters → settles) :=
  permits (mk kind span children) (mem_nodesOutside.2 (.inl rfl))

theorem Permits.child (permits : (mk kind span children).Permits declares settles)
    (opens : kind.opensFunction = false) {child : Node} (listed : child ∈ children) :
    child.Permits declares settles := by
  exact fun inner among => permits inner (mem_nodesOutside.2 (.inr ⟨opens, child, listed, among⟩))

/-- Every tree has what is not forbidden. -/
theorem permits_all (node : Node) : node.Permits true true :=
  fun _ _ => ⟨fun _ => rfl, fun _ => rfl⟩

end Permits

end Node

namespace ScopeStack

open Node

/-- Opens a scope. -/
def enter (frame : Frame) (stack : ScopeStack) : ScopeStack :=
  { stack with frames := frame :: stack.frames }

/-- Closes the innermost scope. -/
def leave (stack : ScopeStack) : ScopeStack :=
  { stack.settle with frames := stack.settle.frames.drop 1 }

theorem inScope_eq (frame : Frame) (inside : ScopeStack → ScopeStack) (stack : ScopeStack) :
    stack.inScope frame inside = (inside (stack.enter frame)).leave :=
  rfl

theorem declareAll_eq (stack : ScopeStack) (bindings : List Node) :
    stack.declareAll bindings = (bindings.map declaredName).foldl
      (fun stack name => stack.declare name.1 name.2) stack := by
  rw [List.foldl_map]
  rfl

theorem declareForm_eq (stack : ScopeStack) (form : VariableForm) (bindings : List Node) :
    stack.declareForm form bindings = (bindings.map declaredName).foldl
      (fun stack name =>
        if form.isLexical then stack.declare name.1 name.2
        else stack.declareVariable name.1 name.2) stack := by
  rw [List.foldl_map]
  unfold declareForm
  split <;> simp_all [declareAll, declaredName]

/-- Only a clause of a pattern and a body has a scope. -/
theorem readNode_catchClause {isBranch hasParameter : Bool} {span : Span} {children : List Node}
    {stack : ScopeStack} (unpaired : children.length ≠ 2) :
    readNode isBranch (.mk (.catchClause hasParameter) span children) stack =
      readNodes children stack := by
  rw [readNode.eq_def]
  dsimp only
  split <;> simp_all

/-- A relation between two stacks of scopes that each change made while reading keeps. The list
tells which of the scopes opened since the start belong to functions, the innermost first. -/
structure Simulation (position : Nat → Nat) (declares settles : Bool)
    (related : List Bool → ScopeStack → ScopeStack → Prop) : Prop where
  /-- The innermost scopes are in the same mode. -/
  isStrict : ∀ {scopes stack partner}, related scopes stack partner →
    partner.top.isStrict = stack.top.isStrict
  /-- A use is noted. -/
  use : ∀ {scopes stack partner} (offset name), related scopes stack partner →
    related scopes (stack.use offset name) (partner.use (position offset) name)
  /-- A name is declared in the innermost scope. -/
  declare : ∀ {scopes stack partner} (offset name), scopes ≠ [] ∨ declares →
    related scopes stack partner →
    related scopes (stack.declare offset name) (partner.declare (position offset) name)
  /-- A variable of the function is declared. -/
  declareVariable : ∀ {scopes stack partner} (offset name), true ∈ scopes ∨ declares →
    related scopes stack partner →
    related scopes (stack.declareVariable offset name)
      (partner.declareVariable (position offset) name)
  /-- The uses so far are settled. -/
  settle : ∀ {scopes stack partner}, scopes ≠ [] ∨ settles → related scopes stack partner →
    related scopes stack.settle partner.settle
  /-- A scope is opened. -/
  enter : ∀ {scopes stack partner} (isFunction isStrict), related scopes stack partner →
    related (isFunction :: scopes) (stack.enter (.fresh isFunction isStrict))
      (partner.enter (.fresh isFunction isStrict))
  /-- A scope is closed. -/
  leave : ∀ {isFunction scopes stack partner}, related (isFunction :: scopes) stack partner →
    related scopes stack.leave partner.leave

namespace Simulation

variable {position : Nat → Nat} {declares settles : Bool}
  {related : List Bool → ScopeStack → ScopeStack → Prop}
  {scopes : List Bool} {stack partner : ScopeStack}

/-- Reading a node keeps the relation, from wherever the node may be read. -/
def Keeps (position : Nat → Nat) (declares settles : Bool)
    (related : List Bool → ScopeStack → ScopeStack → Prop) (node : Node) : Prop :=
  ∀ (isBranch) {scopes stack partner image}, true ∈ scopes ∨ node.Permits declares settles →
    mirrors position node image → related scopes stack partner →
    related scopes (readNode isBranch node stack) (readNode isBranch image partner)

theorem readNodes_of_each {nodes images : List Node}
    (each : ∀ node ∈ nodes, Keeps position declares settles related node)
    (permitted : true ∈ scopes ∨ ∀ node ∈ nodes, node.Permits declares settles)
    (mirrored : mirrorsAll position nodes images) (start : related scopes stack partner) :
    related scopes (readNodes nodes stack) (readNodes images partner) := by
  induction nodes generalizing images stack partner with
  | nil => rwa [mirrorsAll_nil.1 mirrored, readNodes, readNodes]
  | cons node rest ih =>
      obtain ⟨image, others, rfl, first, behind⟩ := mirrorsAll_cons.1 mirrored
      obtain ⟨node_keeps, rest_keep⟩ := List.forall_mem_cons.1 each
      rw [readNodes, readNodes]
      refine ih rest_keep (permitted.imp_right fun all => (List.forall_mem_cons.1 all).2) behind ?_
      exact node_keeps _ (permitted.imp_right fun all => all node List.mem_cons_self) first start

theorem readBranches_of_each {nodes images : List Node}
    (each : ∀ node ∈ nodes, Keeps position declares settles related node)
    (permitted : true ∈ scopes ∨ ∀ node ∈ nodes, node.Permits declares settles)
    (mirrored : mirrorsAll position nodes images) (start : related scopes stack partner) :
    related scopes (readBranches nodes stack) (readBranches images partner) := by
  induction nodes generalizing images stack partner with
  | nil => rwa [mirrorsAll_nil.1 mirrored, readBranches, readBranches]
  | cons node rest ih =>
      obtain ⟨image, others, rfl, first, behind⟩ := mirrorsAll_cons.1 mirrored
      obtain ⟨node_keeps, rest_keep⟩ := List.forall_mem_cons.1 each
      rw [readBranches, readBranches]
      refine ih rest_keep (permitted.imp_right fun all => (List.forall_mem_cons.1 all).2) behind ?_
      exact node_keeps _ (permitted.imp_right fun all => all node List.mem_cons_self) first start

section Declarations

variable (simulation : Simulation position declares settles related)

include simulation

theorem declareAll {bindings images : List Node} (allowed : scopes ≠ [] ∨ declares)
    (mirrored : images.map declaredName = (bindings.map declaredName).map (moveName position))
    (start : related scopes stack partner) :
    related scopes (stack.declareAll bindings) (partner.declareAll images) := by
  rw [declareAll_eq, declareAll_eq, mirrored]
  generalize bindings.map declaredName = names
  induction names generalizing stack partner with
  | nil => exact start
  | cons name rest ih => exact ih (simulation.declare _ _ allowed start)

theorem declareForm {form : VariableForm} {bindings images : List Node}
    (allowed : true ∈ scopes ∨ declares)
    (mirrored : images.map declaredName = (bindings.map declaredName).map (moveName position))
    (start : related scopes stack partner) :
    related scopes (stack.declareForm form bindings) (partner.declareForm form images) := by
  rw [declareForm_eq, declareForm_eq, mirrored]
  generalize bindings.map declaredName = names
  have opened : scopes ≠ [] ∨ declares := allowed.imp_left List.ne_nil_of_mem
  induction names generalizing stack partner with
  | nil => exact start
  | cons name rest ih =>
      rw [List.map_cons, List.foldl_cons, List.foldl_cons]
      refine ih ?_
      split
      · exact simulation.declare _ _ opened start
      · exact simulation.declareVariable _ _ allowed start

theorem readDeclarators_of_each {form : VariableForm} {nodes images : List Node}
    (each : ∀ node ∈ nodes, Keeps position declares settles related node)
    (allowed : true ∈ scopes ∨ declares)
    (permitted : true ∈ scopes ∨ ∀ node ∈ nodes, node.Permits declares settles)
    (mirrored : mirrorsAll position nodes images) (start : related scopes stack partner) :
    related scopes (readDeclarators form nodes stack) (readDeclarators form images partner) := by
  induction nodes generalizing images stack partner with
  | nil => rwa [mirrorsAll_nil.1 mirrored, readDeclarators, readDeclarators]
  | cons node rest ih =>
      obtain ⟨image, others, rfl, first, behind⟩ := mirrorsAll_cons.1 mirrored
      obtain ⟨node_keeps, rest_keep⟩ := List.forall_mem_cons.1 each
      rw [readDeclarators, readDeclarators]
      refine ih rest_keep (permitted.imp_right fun all => (List.forall_mem_cons.1 all).2) behind ?_
      refine node_keeps _ (permitted.imp_right fun all => all node List.mem_cons_self) first ?_
      exact simulation.declareForm allowed (map_declaredPatterns_of_mirrors first) start

/-- Scopes of the same sort are opened, read and closed alike. -/
theorem inScope {isFunction isStrict : Bool} {inside within : ScopeStack → ScopeStack}
    (reads : ∀ stack partner, related (isFunction :: scopes) stack partner →
      related (isFunction :: scopes) (inside stack) (within partner))
    (start : related scopes stack partner) :
    related scopes (stack.inScope (.fresh isFunction isStrict) inside)
      (partner.inScope (.fresh isFunction isStrict) within) := by
  rw [inScope_eq, inScope_eq]
  exact simulation.leave (reads _ _ (simulation.enter isFunction isStrict start))

theorem inFunction {parts images : List Node} {inside within : ScopeStack → ScopeStack}
    {before partnerBefore : ScopeStack} (same : related scopes before partnerBefore)
    (mirrored : mirrorsAll position parts images)
    (reads : ∀ stack partner, related (true :: scopes) stack partner →
      related (true :: scopes) (inside stack) (within partner))
    (start : related scopes stack partner) :
    related scopes (stack.inScope (before.functionFrame parts) inside)
      (partner.inScope (partnerBefore.functionFrame images) within) := by
  unfold functionFrame
  rw [simulation.isStrict same, hasStrictBody_of_mirrors mirrored]
  exact simulation.inScope reads start

theorem inBlock {inside within : ScopeStack → ScopeStack}
    {before partnerBefore : ScopeStack} (same : related scopes before partnerBefore)
    (reads : ∀ stack partner, related (false :: scopes) stack partner →
      related (false :: scopes) (inside stack) (within partner))
    (start : related scopes stack partner) :
    related scopes (stack.inScope before.blockFrame inside)
      (partner.inScope partnerBefore.blockFrame within) := by
  unfold blockFrame
  rw [simulation.isStrict same]
  exact simulation.inScope reads start

/-! ### Nodes that open scopes -/

variable {span place : Span} {children images : List Node}
  (each : ∀ child ∈ children, Keeps position declares settles related child)
  (below : mirrorsAll position children images) (start : related scopes stack partner)

include each below start

/-- A function is read in a scope of its own, and declares its name around it or in there. -/
theorem keeps_function {form : FunctionForm} {isAsync isGenerator isBranch : Bool}
    (opened : form = .declaration → scopes ≠ [] ∨ declares) :
    related scopes
      (readNode isBranch (.mk (.function form isAsync isGenerator) span children) stack)
      (readNode isBranch (.mk (.function form isAsync isGenerator) place images) partner) := by
  have own := map_ownNames_of_mirrors below
  simp only [readNode]
  have outer : related scopes
      (if (form == .declaration && !(isBranch && !stack.top.isStrict)) = true then
        stack.declareAll (ownNames children) else stack)
      (if (form == .declaration && !(isBranch && !partner.top.isStrict)) = true then
        partner.declareAll (ownNames images) else partner) := by
    rw [simulation.isStrict start]
    split
    · rename_i declared
      obtain ⟨rfl, -⟩ : form = .declaration ∧ _ := by simpa using declared
      exact simulation.declareAll (opened rfl) own start
    · exact start
  refine simulation.inFunction start below (fun inside within kept => ?_) outer
  refine readNodes_of_each each (.inl List.mem_cons_self) below ?_
  split
  · exact simulation.declareAll (.inl (List.cons_ne_nil _ _)) own kept
  · exact kept

/-- A class is read in a scope of its own, and declares its name around it or in there. -/
theorem keeps_class {isDeclaration hasParent isBranch : Bool}
    (opened : isDeclaration → scopes ≠ [] ∨ declares)
    (permitted : true ∈ scopes ∨ ∀ child ∈ children, child.Permits declares settles) :
    related scopes
      (readNode isBranch (.mk (.classDefinition isDeclaration hasParent) span children) stack)
      (readNode isBranch (.mk (.classDefinition isDeclaration hasParent) place images)
        partner) := by
  have own := map_ownNames_of_mirrors below
  simp only [readNode]
  have outer : related scopes
      (if isDeclaration = true then stack.declareAll (ownNames children) else stack)
      (if isDeclaration = true then partner.declareAll (ownNames images) else partner) := by
    split
    · rename_i declared
      exact simulation.declareAll (opened declared) own start
    · exact start
  refine simulation.inScope (fun inside within kept => ?_) outer
  refine readNodes_of_each each (permitted.imp_left (List.mem_cons_of_mem _)) below ?_
  split
  · exact kept
  · exact simulation.declareAll (.inl (List.cons_ne_nil _ _)) own kept

/-- The cases of a `switch` statement are read in a scope, what chooses among them before it. -/
theorem keeps_switch {isBranch : Bool}
    (permitted : true ∈ scopes ∨ ∀ child ∈ children, child.Permits declares settles) :
    related scopes (readNode isBranch (.mk .switchStatement span children) stack)
      (readNode isBranch (.mk .switchStatement place images) partner) := by
  cases children with
  | nil =>
      obtain rfl := mirrorsAll_nil.1 below
      simpa only [readNode] using readNodes_of_each each permitted below start
  | cons object cases =>
      obtain ⟨object', cases', rfl, object_mirrored, cases_mirrored⟩ := mirrorsAll_cons.1 below
      obtain ⟨object_keeps, cases_keep⟩ := List.forall_mem_cons.1 each
      have object_permitted := permitted.imp_right fun all => (List.forall_mem_cons.1 all).1
      have cases_permitted : true ∈ false :: scopes ∨ _ :=
        permitted.imp (List.mem_cons_of_mem _) fun all => (List.forall_mem_cons.1 all).2
      simp only [readNode]
      exact simulation.inBlock start
        (fun _ _ => readNodes_of_each cases_keep cases_permitted cases_mirrored)
        (object_keeps false object_permitted object_mirrored start)

/-- What a clause catches is declared in the scope that its body is read in. -/
theorem keeps_catchClause {isBranch hasParameter : Bool}
    (permitted : true ∈ scopes ∨ ∀ child ∈ children, child.Permits declares settles) :
    related scopes (readNode isBranch (.mk (.catchClause hasParameter) span children) stack)
      (readNode isBranch (.mk (.catchClause hasParameter) place images) partner) := by
  by_cases pair : children.length = 2
  · obtain ⟨pattern, body, rfl⟩ := List.length_eq_two.1 pair
    simp only [mirrorsAll_cons, mirrorsAll_nil] at below
    obtain ⟨pattern', _, rfl, pattern_mirrored, body', _, rfl, body_mirrored, rfl⟩ := below
    have inner : true ∈ false :: scopes ∨ _ := permitted.imp_left (List.mem_cons_of_mem _)
    simp only [readNode]
    refine simulation.inBlock start (fun handler catcher kept => ?_) start
    have entered := simulation.declareAll (.inl (List.cons_ne_nil _ _))
      (map_bindings_of_mirrors _ _ pattern_mirrored) kept
    have read := each pattern (by simp) false
      (inner.imp_right fun all => all pattern (by simp)) pattern_mirrored entered
    exact each body (by simp) false (inner.imp_right fun all => all body (by simp))
      body_mirrored (simulation.settle (.inl (List.cons_ne_nil _ _)) read)
  · rw [readNode_catchClause pair, readNode_catchClause (length_of_mirrorsAll below ▸ pair)]
    exact readNodes_of_each each permitted below start

omit each below start

/-- Trees that mirror each other are read alike. -/
theorem keeps (node : Node) : Keeps position declares settles related node := by
  induction node using Node.induction with
  | step kind span children ih =>
      intro isBranch scopes stack partner image permitted mirrored start
      obtain ⟨place, images, rfl, placed, below⟩ := mirrors_mk.1 mirrored
      -- Inside functions all is permitted, so only what is read outside has to say what it does.
      have declaring : kind.declares → true ∈ scopes ∨ declares := fun does =>
        permitted.imp_right fun permits => permits.here.1 does
      have opened : kind.declares → scopes ≠ [] ∨ declares := fun does =>
        (declaring does).imp_left List.ne_nil_of_mem
      have settling : kind = .parameters → scopes ≠ [] ∨ settles := fun does =>
        permitted.imp List.ne_nil_of_mem fun permits => permits.here.2 does
      have outside : kind.opensFunction = false →
          true ∈ scopes ∨ ∀ child ∈ children, child.Permits declares settles :=
        fun opens => permitted.imp_right fun permits child listed => permits.child opens listed
      have parts : ∀ {scopes stack partner},
          true ∈ scopes ∨ (∀ child ∈ children, child.Permits declares settles) →
          related scopes stack partner →
          related scopes (readNodes children stack) (readNodes images partner) :=
        fun permitted start => readNodes_of_each ih permitted below start
      cases kind
      case reference name =>
        simp only [readNode]
        rw [placed rfl]
        exact simulation.use _ _ start
      case function form isAsync isGenerator =>
        exact simulation.keeps_function ih below start fun declared => opened (declared ▸ rfl)
      case arrow isAsync isExpression =>
        simp only [readNode]
        exact simulation.inFunction start below
          (fun _ _ kept => parts (.inl List.mem_cons_self) kept) start
      case parameters =>
        simp only [readNode]
        have declared := simulation.declareAll (opened rfl)
          (map_bindingsOfList_of_mirrors (fun _ _ => map_bindings_of_mirrors _) below) start
        exact simulation.settle (settling rfl) (parts (outside rfl) declared)
      case classDefinition isDeclaration hasParent =>
        exact simulation.keeps_class ih below start opened (outside rfl)
      case staticBlock =>
        simp only [readNode]
        exact simulation.inScope (fun _ _ kept => parts (.inl List.mem_cons_self) kept) start
      case «variables» form =>
        simp only [readNode]
        exact simulation.readDeclarators_of_each ih (declaring rfl) (outside rfl) below start
      case importDefault | importNamespace | importSpecifier =>
        simp only [readNode]
        exact simulation.declareAll (opened rfl) (map_ownNames_of_mirrors below) start
      case block | forStatement | forInStatement | forOfStatement =>
        simp only [readNode]
        exact simulation.inBlock start
          (fun _ _ => parts ((outside rfl).imp_left (List.mem_cons_of_mem _))) start
      case switchStatement => exact simulation.keeps_switch ih below start (outside rfl)
      case catchClause => exact simulation.keeps_catchClause ih below start (outside rfl)
      case ifStatement =>
        simp only [readNode]
        exact readBranches_of_each ih (outside rfl) below start
      all_goals
        simp only [readNode]
        exact parts (outside rfl) start

/-- So are lists of them. -/
theorem readNodes {nodes images : List Node}
    (permitted : true ∈ scopes ∨ ∀ node ∈ nodes, node.Permits declares settles)
    (mirrored : mirrorsAll position nodes images) (start : related scopes stack partner) :
    related scopes (ScopeStack.readNodes nodes stack) (ScopeStack.readNodes images partner) :=
  readNodes_of_each (fun node _ => simulation.keeps node) permitted mirrored start

end Declarations

end Simulation

/-- What each change made while reading keeps. -/
structure Invariant (holds : ScopeStack → Prop) : Prop where
  /-- A use is noted. -/
  use : ∀ {stack} (offset name), holds stack → holds (stack.use offset name)
  /-- A name is declared in the innermost scope. -/
  declare : ∀ {stack} (offset name), holds stack → holds (stack.declare offset name)
  /-- A variable of the function is declared. -/
  declareVariable : ∀ {stack} (offset name), holds stack →
    holds (stack.declareVariable offset name)
  /-- The uses so far are settled. -/
  settle : ∀ {stack}, holds stack → holds stack.settle
  /-- A scope is opened. -/
  enter : ∀ {stack} (isFunction isStrict), holds stack →
    holds (stack.enter (.fresh isFunction isStrict))
  /-- A scope is closed. -/
  leave : ∀ {stack}, holds stack → holds stack.leave

namespace Invariant

variable {holds : ScopeStack → Prop} (invariant : Invariant holds) {stack : ScopeStack}

include invariant

/-- What holds of a stack is a relation between the stack and itself. -/
theorem simulation : Simulation id true true fun _ stack partner =>
    partner = stack ∧ holds stack where
  isStrict := by rintro _ _ _ ⟨rfl, -⟩; rfl
  use := by rintro _ _ _ offset name ⟨rfl, kept⟩; exact ⟨rfl, invariant.use offset name kept⟩
  declare := by
    rintro _ _ _ offset name - ⟨rfl, kept⟩
    exact ⟨rfl, invariant.declare offset name kept⟩
  declareVariable := by
    rintro _ _ _ offset name - ⟨rfl, kept⟩
    exact ⟨rfl, invariant.declareVariable offset name kept⟩
  settle := by rintro _ _ _ - ⟨rfl, kept⟩; exact ⟨rfl, invariant.settle kept⟩
  enter := by
    rintro _ _ _ isFunction isStrict ⟨rfl, kept⟩
    exact ⟨rfl, invariant.enter isFunction isStrict kept⟩
  leave := by rintro _ _ _ _ ⟨rfl, kept⟩; exact ⟨rfl, invariant.leave kept⟩

theorem readNode {isBranch : Bool} (node : Node) (start : holds stack) :
    holds (ScopeStack.readNode isBranch node stack) :=
  have permitted : true ∈ ([] : List Bool) ∨ node.Permits true true := .inr node.permits_all
  (invariant.simulation.keeps node isBranch permitted node.mirrors_refl ⟨rfl, start⟩).2

theorem readNodes (nodes : List Node) (start : holds stack) :
    holds (ScopeStack.readNodes nodes stack) :=
  have permitted : true ∈ ([] : List Bool) ∨ ∀ node ∈ nodes, node.Permits true true :=
    .inr fun node _ => node.permits_all
  (invariant.simulation.readNodes permitted (mirrorsAll_refl fun node _ => node.mirrors_refl)
    ⟨rfl, start⟩).2

theorem ofProgram (program : Program)
    (start : holds ⟨[.fresh true program.isStrict], [], [], [], []⟩) :
    holds (ScopeStack.ofProgram program) :=
  invariant.settle (invariant.readNodes program.body start)

end Invariant
/-! ## The sorts of the open scopes -/

/-- Whether the open scopes belong to functions, and their modes. -/
def sorts (stack : ScopeStack) : List (Bool × Bool) :=
  stack.frames.map fun frame => (frame.isFunction, frame.isStrict)

theorem sorts_eq (stack : ScopeStack) :
    stack.sorts = (stack.frames.map Frame.outline).map fun outline => (outline.1, outline.2.1) := by
  rw [sorts, List.map_map]
  rfl

theorem sorts_settle (stack : ScopeStack) : stack.settle.sorts = stack.sorts := by
  obtain ⟨_ | ⟨frame, _ | ⟨outer, frames⟩⟩, settled, uses, repeated, declarations⟩ := stack
  · rfl
  · rw [settle_eq_of_outermost rfl]
    rfl
  · rw [settle_eq_of_around rfl]
    rfl

theorem sorts_declareAll (stack : ScopeStack) (bindings : List Node) :
    (stack.declareAll bindings).sorts = stack.sorts := by
  rw [declareAll_eq]
  induction bindings.map declaredName generalizing stack with
  | nil => rfl
  | cons name names ih =>
      rw [List.foldl_cons, ih, sorts_eq, (declares_declare stack _ _).outlines, ← sorts_eq]

/-- The scopes that were open before stay of the same sorts. -/
theorem simulation_sorts (before : List (Bool × Bool)) : Simulation id true true
    fun scopes stack partner => partner = stack ∧ stack.sorts.drop scopes.length = before where
  isStrict := by rintro _ _ _ ⟨rfl, -⟩; rfl
  use := by
    rintro scopes _ stack offset name ⟨rfl, same⟩
    refine ⟨rfl, ?_⟩
    obtain ⟨_ | ⟨frame, frames⟩, settled, uses, repeated, declarations⟩ := stack <;> exact same
  declare := by
    rintro scopes _ stack offset name - ⟨rfl, same⟩
    refine ⟨rfl, ?_⟩
    rwa [sorts_eq, (declares_declare stack offset name).outlines, ← sorts_eq]
  declareVariable := by
    rintro scopes _ stack offset name - ⟨rfl, same⟩
    refine ⟨rfl, ?_⟩
    rwa [sorts_eq, (declares_declareVariable stack offset name).outlines, ← sorts_eq]
  settle := by
    rintro scopes _ stack - ⟨rfl, same⟩
    exact ⟨rfl, by rwa [sorts_settle]⟩
  enter := by
    rintro scopes _ stack isFunction isStrict ⟨rfl, same⟩
    exact ⟨rfl, by simpa [sorts, ScopeStack.enter] using same⟩
  leave := by
    rintro isFunction scopes _ stack ⟨rfl, same⟩
    refine ⟨rfl, ?_⟩
    have sorts_leave : stack.leave.sorts = stack.settle.sorts.drop 1 := by
      simp [sorts, ScopeStack.leave]
    rwa [sorts_leave, sorts_settle, List.drop_drop, Nat.add_comm]

/-- Reading opens no scope that it does not close. -/
theorem sorts_readNodes (nodes : List Node) (stack : ScopeStack) :
    (readNodes nodes stack).sorts = stack.sorts := by
  have permitted : true ∈ ([] : List Bool) ∨ ∀ node ∈ nodes, node.Permits true true :=
    .inr fun node _ => node.permits_all
  exact ((simulation_sorts stack.sorts).readNodes permitted
    (mirrorsAll_refl fun node _ => node.mirrors_refl) ⟨rfl, rfl⟩).2

end ScopeStack
end Shakedown
