import Shakedown.Proofs.Scope.Reading

/-!
# Every reference is used once

Reading a tree notes each of its references as a use, in the order of the tree, and a use is settled
at most once. So in a program whose references stand apart every use has at most one meaning.
-/

namespace Shakedown
namespace Node

mutual

/-- The references of a tree in the order of the text. What is imported is no reference. -/
def references : Node → List NameUse
  | mk (.reference name) span _ => [⟨span.start, name⟩]
  | mk .importDefault _ _ => []
  | mk .importNamespace _ _ => []
  | mk (.importSpecifier _) _ _ => []
  | mk _ _ children => referencesOfList children

/-- The references of a list of trees. -/
def referencesOfList : List Node → List NameUse
  | [] => []
  | node :: rest => references node ++ referencesOfList rest

end

theorem referencesOfList_eq (nodes : List Node) :
    referencesOfList nodes = nodes.flatMap references := by
  induction nodes with
  | nil => rfl
  | cons node rest ih => simp [referencesOfList, ih]

end Node

namespace ScopeStack

open Node

variable {stack : ScopeStack}

@[simp] theorem uses_use (stack : ScopeStack) (offset : Nat) (name : String) :
    (stack.use offset name).uses = ⟨offset, name⟩ :: stack.uses := by
  unfold use changeTop
  dsimp only
  split <;> rfl

@[simp] theorem uses_declareAll (stack : ScopeStack) (bindings : List Node) :
    (stack.declareAll bindings).uses = stack.uses := by
  rw [declareAll_eq]
  induction bindings.map declaredName generalizing stack with
  | nil => rfl
  | cons name names ih => rw [List.foldl_cons, ih, (declares_declare stack _ _).uses]

@[simp] theorem uses_declareForm (stack : ScopeStack) (form : VariableForm) (bindings : List Node) :
    (stack.declareForm form bindings).uses = stack.uses := by
  rw [declareForm_eq]
  induction bindings.map declaredName generalizing stack with
  | nil => rfl
  | cons name names ih =>
      rw [List.foldl_cons, ih]
      split
      · exact (declares_declare stack _ _).uses
      · exact (declares_declareVariable stack _ _).uses

@[simp] theorem uses_inScope (frame : Frame) (inside : ScopeStack → ScopeStack) :
    (stack.inScope frame inside).uses = (inside (stack.enter frame)).uses := by
  rw [inScope_eq, leave, uses_settle]

@[simp] theorem uses_enter (frame : Frame) : (stack.enter frame).uses = stack.uses :=
  rfl

/-- Reading a node notes its references. -/
def Notes (node : Node) : Prop :=
  ∀ isBranch stack, (readNode isBranch node stack).uses = node.references.reverse ++ stack.uses

theorem uses_readNodes_of_each {nodes : List Node} (each : ∀ node ∈ nodes, Notes node)
    (stack : ScopeStack) :
    (readNodes nodes stack).uses = (referencesOfList nodes).reverse ++ stack.uses := by
  induction nodes generalizing stack with
  | nil => simp [readNodes, referencesOfList]
  | cons node rest ih =>
      obtain ⟨first, others⟩ := List.forall_mem_cons.1 each
      simp [readNodes, referencesOfList, ih others, first _ _]

theorem uses_readBranches_of_each {nodes : List Node} (each : ∀ node ∈ nodes, Notes node)
    (stack : ScopeStack) :
    (readBranches nodes stack).uses = (referencesOfList nodes).reverse ++ stack.uses := by
  induction nodes generalizing stack with
  | nil => simp [readBranches, referencesOfList]
  | cons node rest ih =>
      obtain ⟨first, others⟩ := List.forall_mem_cons.1 each
      simp [readBranches, referencesOfList, ih others, first _ _]

theorem uses_readDeclarators_of_each {form : VariableForm} {nodes : List Node}
    (each : ∀ node ∈ nodes, Notes node) (stack : ScopeStack) :
    (readDeclarators form nodes stack).uses = (referencesOfList nodes).reverse ++ stack.uses := by
  induction nodes generalizing stack with
  | nil => simp [readDeclarators, referencesOfList]
  | cons node rest ih =>
      obtain ⟨first, others⟩ := List.forall_mem_cons.1 each
      simp [readDeclarators, referencesOfList, ih others, first _ _]

/-- Whatever scopes are opened on the way, reading a tree notes its references and nothing else. -/
theorem notes (node : Node) : Notes node := by
  induction node using Node.induction with
  | step kind span children ih =>
      intro isBranch stack
      have parts := uses_readNodes_of_each ih
      cases kind
      case reference name => simp [readNode, references]
      case function form isAsync isGenerator =>
        simp only [readNode, uses_inScope, parts, references]
        split <;> split <;> simp
      case classDefinition isDeclaration hasParent =>
        simp only [readNode, uses_inScope, parts, references]
        split <;> simp
      case «variables» form =>
        simp only [readNode, references]
        exact uses_readDeclarators_of_each ih stack
      case ifStatement =>
        simp only [readNode, references]
        exact uses_readBranches_of_each ih stack
      case switchStatement =>
        cases children with
        | nil => simp [readNode, references, parts]
        | cons object cases =>
            have cases_notes := uses_readNodes_of_each fun node listed =>
              ih node (List.mem_cons_of_mem _ listed)
            simp [readNode, references, referencesOfList, cases_notes,
              ih object List.mem_cons_self _ _]
      case catchClause hasParameter =>
        by_cases pair : children.length = 2
        · obtain ⟨pattern, body, rfl⟩ := List.length_eq_two.1 pair
          simp [readNode, references, referencesOfList, ih pattern (by simp) _ _,
            ih body (by simp) _ _]
        · simp [readNode_catchClause pair, references, parts]
      all_goals simp [readNode, references, parts]

/-! ## Uses are settled once -/

/-- The uses that wait in the open scopes. -/
def waiting (stack : ScopeStack) : List NameUse :=
  stack.frames.flatMap Frame.pending

/-- How many uses at an offset are settled or wait. -/
def known (stack : ScopeStack) (offset : Nat) : Nat :=
  (stack.settled.countP fun meaning => meaning.1 == offset) +
    stack.waiting.countP fun use => use.offset == offset

/-- No use is settled twice, or waits when it is settled. -/
def SettlesOnce (stack : ScopeStack) : Prop :=
  ∀ offset, stack.known offset ≤ stack.uses.countP fun use => use.offset == offset

theorem countP_pending (frame : Frame) (offset : Nat) :
    frame.pending.countP (fun use => use.offset == offset) =
      (settledIn frame).countP (fun meaning => meaning.1 == offset) +
        (handedOn frame).countP fun use => use.offset == offset := by
  unfold settledIn handedOn
  induction frame.pending with
  | nil => rfl
  | cons use rest ih =>
      cases found : frame.declared.lookup use.name <;> simp [List.countP_cons, found, ih] <;> omega

theorem known_settle (stack : ScopeStack) (offset : Nat) :
    stack.settle.known offset ≤ stack.known offset := by
  obtain ⟨_ | ⟨frame, _ | ⟨outer, frames⟩⟩, settled, uses, repeated, declarations⟩ := stack
  · exact Nat.le_refl _
  · rw [settle_eq_of_outermost rfl]
    simp [known, waiting, emptied, countP_pending frame offset]
    omega
  · rw [settle_eq_of_around rfl]
    simp [known, waiting, emptied, hand, countP_pending frame offset]
    omega

theorem known_drop (stack : ScopeStack) (count offset : Nat) :
    ({ stack with frames := stack.frames.drop count } : ScopeStack).known offset ≤
      stack.known offset := by
  have sub : (stack.frames.drop count).flatMap Frame.pending <:+
      stack.frames.flatMap Frame.pending :=
    ⟨(stack.frames.take count).flatMap Frame.pending, by
      rw [← List.flatMap_append, List.take_append_drop]⟩
  exact Nat.add_le_add_left (sub.sublist.countP_le) _

theorem Declares.waiting_eq {after : ScopeStack} {place : Nat}
    (declares : stack.Declares place after) :
    after.waiting = stack.waiting := by
  have outlines : ∀ stack : ScopeStack,
      stack.waiting = (stack.frames.map Frame.outline).flatMap fun outline => outline.2.2 := by
    intro stack
    rw [List.flatMap_map]
    rfl
  rw [outlines, outlines, declares.outlines]

theorem Declares.known_eq {after : ScopeStack} {place : Nat} (declares : stack.Declares place after)
    (offset : Nat) : after.known offset = stack.known offset := by
  rw [known, known, declares.settled, declares.waiting_eq]

theorem invariant_settlesOnce : Invariant SettlesOnce where
  use := by
    intro stack offset name once place
    have before := once place
    obtain ⟨_ | ⟨frame, frames⟩, settled, uses, repeated, declarations⟩ := stack
    · simp [ScopeStack.use, changeTop, known, waiting, List.countP_cons] at before ⊢
      omega
    · simp [ScopeStack.use, changeTop, known, waiting, List.countP_cons] at before ⊢
      omega
  declare := by
    intro stack offset name once place
    have declares := declares_declare stack offset name
    rw [declares.known_eq, declares.uses]
    exact once place
  declareVariable := by
    intro stack offset name once place
    have declares := declares_declareVariable stack offset name
    rw [declares.known_eq, declares.uses]
    exact once place
  settle := fun once place => by
    rw [uses_settle]
    exact Nat.le_trans (known_settle _ place) (once place)
  enter := fun _ _ once => once
  leave := by
    intro stack once place
    have dropped := known_drop stack.settle 1 place
    have uses_eq : stack.leave.uses = stack.uses := uses_settle stack
    rw [uses_eq]
    exact Nat.le_trans dropped (Nat.le_trans (known_settle stack place) (once place))

/-- In a program whose references stand apart no use has two meanings. -/
theorem nodup_settled {program : Program}
    (apart : ((referencesOfList program.body).map NameUse.offset).Nodup) :
    ((ofProgram program).settled.map Prod.fst).Nodup := by
  have once := invariant_settlesOnce.ofProgram program
    (by simp [SettlesOnce, known, waiting, Frame.fresh])
  have uses_eq : (ofProgram program).uses = (referencesOfList program.body).reverse := by
    rw [ofProgram, uses_settle, uses_readNodes_of_each fun node _ => notes node, List.append_nil]
  refine List.nodup_iff_count.2 fun offset => ?_
  have settled_le := once offset
  have reference_le := List.nodup_iff_count.1 apart offset
  rw [List.count_eq_countP, List.countP_map] at reference_le ⊢
  rw [uses_eq, List.countP_reverse] at settled_le
  exact Nat.le_trans (Nat.le_trans (Nat.le_add_right _ _) settled_le) reference_le

/-! ## Only uses wait -/

theorem mem_waiting_of_settle {use : NameUse} (waits : use ∈ stack.settle.waiting) :
    use ∈ stack.waiting := by
  obtain ⟨_ | ⟨frame, _ | ⟨outer, frames⟩⟩, settled, uses, repeated, declarations⟩ := stack
  · exact waits
  · rw [settle_eq_of_outermost rfl] at waits
    contradiction
  · rw [settle_eq_of_around rfl] at waits
    simp only [waiting, emptied, hand, List.flatMap_cons, List.nil_append, List.mem_append]
      at waits ⊢
    exact waits.elim
      (Or.elim · (fun handed => .inl (mem_handedOn.1 handed).1) fun own => .inr (.inl own))
      fun outside => .inr (.inr outside)

theorem mem_waiting_of_top {use : NameUse} (waits : use ∈ stack.top.pending) :
    use ∈ stack.waiting := by
  obtain ⟨_ | ⟨frame, frames⟩, settled, uses, repeated, declarations⟩ := stack
  · contradiction
  · exact List.mem_flatMap.2 ⟨frame, List.mem_cons_self, waits⟩

theorem invariant_waiting : Invariant fun stack => ∀ use ∈ stack.waiting, use ∈ stack.uses where
  use := by
    intro stack offset name among use waits
    obtain ⟨_ | ⟨frame, frames⟩, settled, uses, repeated, declarations⟩ := stack
    · exact List.mem_cons_of_mem _ (among use waits)
    · obtain rfl | before := List.mem_cons.1 waits
      · exact List.mem_cons_self
      · exact List.mem_cons_of_mem _ (among use before)
  declare := by
    intro stack offset name among use waits
    have declares := declares_declare stack offset name
    rw [declares.uses]
    exact among use (declares.waiting_eq ▸ waits)
  declareVariable := by
    intro stack offset name among use waits
    have declares := declares_declareVariable stack offset name
    rw [declares.uses]
    exact among use (declares.waiting_eq ▸ waits)
  settle := by
    intro stack among use waits
    rw [uses_settle]
    exact among use (mem_waiting_of_settle waits)
  enter := fun _ _ among => among
  leave := by
    intro stack among use waits
    obtain ⟨frame, below, listed⟩ := List.mem_flatMap.1 waits
    have still : use ∈ stack.settle.waiting :=
      List.mem_flatMap.2 ⟨frame, List.mem_of_mem_drop below, listed⟩
    have uses_eq : stack.leave.uses = stack.uses := uses_settle stack
    rw [uses_eq]
    exact among use (mem_waiting_of_settle still)

end ScopeStack

/-- In a list of pairs with different keys every pair is found by its key. -/
theorem lookup_eq_some_iff_mem {α β : Type} [BEq α] [LawfulBEq α] {list : List (α × β)}
    (apart : (list.map Prod.fst).Nodup) {key : α} {value : β} :
    list.lookup key = some value ↔ (key, value) ∈ list := by
  induction list with
  | nil => simp
  | cons pair rest ih =>
      obtain ⟨first, own⟩ := pair
      obtain ⟨fresh, rest_apart⟩ := List.nodup_cons.1 apart
      rw [List.lookup_cons, List.mem_cons, ← ih rest_apart]
      cases same : key == first with
      | true =>
          obtain rfl := beq_iff_eq.1 same
          have absent : rest.lookup key ≠ some value := by
            intro found
            obtain ⟨before, after, rfl, -⟩ := List.lookup_eq_some_iff.1 found
            exact fresh (by simp)
          simp [absent, eq_comm]
      | false => simp [beq_eq_false_iff_ne.1 same]

end Shakedown
