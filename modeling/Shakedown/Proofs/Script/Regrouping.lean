import Shakedown.Proofs.Script.Spacing
import Shakedown.Script.Operators
import Shakedown.Script.Target

/-!
# Trees grouped anew

Two kinds of trees are not read as they stand: operands are grouped by the precedence of their
operators, and an expression before an assignment becomes a pattern. Neither moves a tree, so what
was spaced out before is so afterwards.
-/

namespace Shakedown

open Node Text

variable {text : List Char}

/-! ## Operands -/

namespace Node.InRow

variable {first last : Nat} {front back : List Node} {left right : Node} {kind : NodeKind}

/-- Two neighbours of a row become one node. -/
theorem combine (row : InRow text first last (front ++ left :: right :: back))
    (plain : kind.arrangement = .row) :
    InRow text first last
      (front ++ .mk kind ⟨left.span.start, right.span.stop⟩ [left, right] :: back) := by
  obtain ⟨front_ordered, ordered, across⟩ := List.pairwise_append.1 row.ordered
  obtain ⟨left_first, ordered⟩ := List.pairwise_cons.1 ordered
  obtain ⟨right_first, back_ordered⟩ := List.pairwise_cons.1 ordered
  have left_spaced := row.spaced left (by simp)
  have right_spaced := row.spaced right (by simp)
  have left_within := row.within left (by simp)
  have right_within := row.within right (by simp)
  have left_proper := left_spaced.proper
  have right_proper := right_spaced.proper
  have neighbours := left_first right List.mem_cons_self
  have pair : InRow text left.span.start right.span.stop [left, right] :=
    .cons left_spaced (Nat.le_refl _) (.single right_spaced neighbours (Nat.le_refl _))
      (Nat.le_refl _) (by omega)
  have node_spaced : (Node.mk kind ⟨left.span.start, right.span.stop⟩ [left, right]).IsSpaced text :=
    pair.isSpaced ⟨left_spaced.fits.framed.begins, right_spaced.fits.framed.ends, by
      show left.span.start < right.span.stop
      omega⟩ plain
  refine ⟨?_, ?_, List.pairwise_append.2 ⟨front_ordered, List.pairwise_cons.2 ⟨?_, back_ordered⟩,
    ?_⟩⟩
  · refine List.forall_mem_append.2 ⟨fun node member => row.spaced node (by simp [member]),
      List.forall_mem_cons.2 ⟨node_spaced, fun node member => row.spaced node (by simp [member])⟩⟩
  · refine List.forall_mem_append.2 ⟨fun node member => row.within node (by simp [member]),
      List.forall_mem_cons.2 ⟨⟨left_within.1, right_within.2⟩,
        fun node member => row.within node (by simp [member])⟩⟩
  · exact fun node member => right_first node member
  · intro node member
    have before := across node member
    exact List.forall_mem_cons.2 ⟨before left List.mem_cons_self, fun other among =>
      before other (by simp [among])⟩

end Node.InRow

namespace BinaryOperator

theorem reduce_inRow {first last : Nat} {binds : BinaryOperator → Bool}
    {waiting left : List (Node × BinaryOperator)} {operand tree : Node} {back : List Node}
    (reduced : reduce binds waiting operand = some (left, tree))
    (row : InRow text first last ((waiting.map (·.1)).reverse ++ operand :: back)) :
    InRow text first last ((left.map (·.1)).reverse ++ tree :: back) := by
  induction waiting generalizing operand with
  | nil =>
      simp only [reduce, Option.some.injEq, Prod.mk.injEq] at reduced
      obtain ⟨rfl, rfl⟩ := reduced
      exact row
  | cons pending rest ih =>
      obtain ⟨node, operator⟩ := pending
      unfold reduce at reduced
      split at reduced
      · obtain ⟨combined, combine_eq, reduced⟩ := Option.bind_eq_some_iff.1 reduced
        unfold combine? at combine_eq
        split at combine_eq
        · obtain rfl := Option.some.inj combine_eq
          refine ih reduced ?_
          rw [List.map_cons, List.reverse_cons, List.append_assoc, List.singleton_append] at row
          exact row.combine rfl
        · simp at combine_eq
      · simp only [Option.some.injEq, Prod.mk.injEq] at reduced
        obtain ⟨rfl, rfl⟩ := reduced
        exact row

/-- A row of operands becomes one tree in their place. -/
theorem assemble_inRow {first last : Nat} {waiting : List (Node × BinaryOperator)}
    {operand tree : Node} {rest : List (BinaryOperator × Node)}
    (assembled : assemble waiting operand rest = some tree)
    (row : InRow text first last
      ((waiting.map (·.1)).reverse ++ operand :: rest.map (·.2))) :
    InRow text first last [tree] := by
  induction rest generalizing waiting operand with
  | nil =>
      obtain ⟨⟨left, whole⟩, reduced, rfl⟩ := Option.map_eq_some_iff.1 assembled
      exact (reduce_inRow reduced row).sublist (List.sublist_append_right _ _)
  | cons step rest ih =>
      obtain ⟨operator, next⟩ := step
      obtain ⟨⟨left, whole⟩, reduced, assembled⟩ := Option.bind_eq_some_iff.1 assembled
      refine ih assembled ?_
      simpa using reduce_inRow reduced row

section Holds

variable {holds : Node → Prop}
  (combines : ∀ name left right, holds left → holds right →
    holds (.mk (.binary name) ⟨left.span.start, right.span.stop⟩ [left, right]))
include combines

theorem holds_reduce {binds : BinaryOperator → Bool} {waiting left : List (Node × BinaryOperator)}
    {operand tree : Node} (reduced : reduce binds waiting operand = some (left, tree))
    (waiting_hold : ∀ pending ∈ waiting, holds pending.1) (operand_holds : holds operand) :
    (∀ pending ∈ left, holds pending.1) ∧ holds tree := by
  induction waiting generalizing operand with
  | nil =>
      simp only [reduce, Option.some.injEq, Prod.mk.injEq] at reduced
      obtain ⟨rfl, rfl⟩ := reduced
      exact ⟨waiting_hold, operand_holds⟩
  | cons pending rest ih =>
      obtain ⟨node, operator⟩ := pending
      obtain ⟨node_holds, rest_hold⟩ := List.forall_mem_cons.1 waiting_hold
      unfold reduce at reduced
      split at reduced
      · obtain ⟨combined, combine_eq, reduced⟩ := Option.bind_eq_some_iff.1 reduced
        unfold combine? at combine_eq
        split at combine_eq
        · obtain rfl := Option.some.inj combine_eq
          exact ih reduced rest_hold (combines _ _ _ node_holds operand_holds)
        · contradiction
      · simp only [Option.some.injEq, Prod.mk.injEq] at reduced
        obtain ⟨rfl, rfl⟩ := reduced
        exact ⟨waiting_hold, operand_holds⟩

/-- What holds of the operands of a row, and of two trees made into one if it holds of each, holds of
the tree that the row becomes. -/
theorem holds_assemble {waiting : List (Node × BinaryOperator)} {operand tree : Node}
    {rest : List (BinaryOperator × Node)} (assembled : assemble waiting operand rest = some tree)
    (waiting_hold : ∀ pending ∈ waiting, holds pending.1) (operand_holds : holds operand)
    (rest_hold : ∀ step ∈ rest, holds step.2) : holds tree := by
  induction rest generalizing waiting operand with
  | nil =>
      obtain ⟨⟨left, whole⟩, reduced, rfl⟩ := Option.map_eq_some_iff.1 assembled
      exact (holds_reduce combines reduced waiting_hold operand_holds).2
  | cons step rest ih =>
      obtain ⟨operator, next⟩ := step
      obtain ⟨next_holds, rest_hold⟩ := List.forall_mem_cons.1 rest_hold
      obtain ⟨⟨left, whole⟩, reduced, assembled⟩ := Option.bind_eq_some_iff.1 assembled
      obtain ⟨left_hold, whole_holds⟩ := holds_reduce combines reduced waiting_hold operand_holds
      exact ih assembled (List.forall_mem_cons.2 ⟨whole_holds, left_hold⟩) next_holds rest_hold

end Holds

end BinaryOperator

/-! ## Targets -/

namespace Node

/-- A tree that may stand where another one stands. -/
structure Replaces (text : List Char) (target node : Node) : Prop where
  /-- The tree is spaced out. -/
  spaced : target.IsSpaced text
  /-- It lies where the other one lies. -/
  covers : node.span.covers target.span

variable {kind other : NodeKind} {span : Span} {node target : Node} {children : List Node}

theorem IsSpaced.replaces (spaced : node.IsSpaced text) : node.Replaces text node :=
  ⟨spaced, Span.covers_iff.2 ⟨Nat.le_refl _, Nat.le_refl _⟩⟩

/-- What turns each tree into one that may stand in its place does so with a row of trees. -/
theorem InRow.mapM {turn : Node → Option Node} {first last : Nat} {nodes targets : List Node}
    (row : InRow text first last nodes)
    (replaces : ∀ node ∈ nodes, ∀ target, turn node = some target → target.Replaces text node)
    (turned : nodes.mapM turn = some targets) : InRow text first last targets := by
  induction nodes generalizing first targets with
  | nil =>
      obtain rfl : [] = targets := by simpa using turned
      exact .nil
  | cons node rest ih =>
      obtain ⟨target, target_eq, others, others_eq, rfl⟩ : ∃ target, turn node = some target ∧
          ∃ others, rest.mapM turn = some others ∧ target :: others = targets := by
        simpa [List.mapM_cons, Option.bind_eq_some_iff] using turned
      have replaced := replaces node List.mem_cons_self target target_eq
      have within := row.within node List.mem_cons_self
      have covered := Span.covers_iff.1 replaced.covers
      have behind : InRow text node.span.stop last rest :=
        { spaced := fun other member => row.spaced other (List.mem_cons_of_mem _ member)
          within := fun other member => ⟨(List.pairwise_cons.1 row.ordered).1 other member,
            (row.within other (List.mem_cons_of_mem _ member)).2⟩
          ordered := (List.pairwise_cons.1 row.ordered).2 }
      exact .cons replaced.spaced (Nat.le_trans within.1 covered.1)
        (ih behind (fun other member => replaces other (List.mem_cons_of_mem _ member)) others_eq)
        covered.2 (Nat.le_trans covered.2 within.2)

/-- The last tree of a row gives way to one that may stand in its place. -/
theorem InRow.exchange {first last : Nat} (front : List Node)
    (row : InRow text first last (front ++ [node])) (replaced : target.Replaces text node) :
    InRow text first last (front ++ [target]) := by
  have covered := Span.covers_iff.1 replaced.covers
  have within := row.within node (by simp)
  obtain ⟨front_ordered, -, across⟩ := List.pairwise_append.1 row.ordered
  refine ⟨?_, ?_, List.pairwise_append.2 ⟨front_ordered, List.pairwise_singleton _ _, ?_⟩⟩
  · refine List.forall_mem_append.2 ⟨fun other member => row.spaced other (by simp [member]), ?_⟩
    exact List.forall_mem_singleton.2 replaced.spaced
  · refine List.forall_mem_append.2 ⟨fun other member => row.within other (by simp [member]), ?_⟩
    exact List.forall_mem_singleton.2
      ⟨Nat.le_trans within.1 covered.1, Nat.le_trans covered.2 within.2⟩
  · intro other member
    have before := across other member node List.mem_cons_self
    exact List.forall_mem_singleton.2 (Nat.le_trans before covered.1)

/-- A row of trees that may stand where the children of a node stand makes up a node. -/
theorem IsSpaced.regroup {targets : List Node} (spaced : (mk kind span children).IsSpaced text)
    (row : InRow text span.start span.stop targets) (plain : other.arrangement = .row) :
    (mk other span targets).Replaces text (mk kind span children) :=
  ⟨row.isSpaced spaced.fits.framed plain, Span.covers_iff.2 ⟨Nat.le_refl _, Nat.le_refl _⟩⟩

theorem simpleTarget?_replaces (spaced : node.IsSpaced text)
    (found : node.simpleTarget? = some target) : target.Replaces text node := by
  induction node using Node.induction with
  | step kind span children ih =>
      unfold simpleTarget? at found
      split at found
      · rename_i inner node_eq
        obtain ⟨rfl, rfl, rfl⟩ := Node.mk.inj node_eq
        have inner_replaces := ih inner List.mem_cons_self (spaced.child List.mem_cons_self) found
        exact ⟨inner_replaces.spaced,
          Span.covers_trans (spaced.fits.within inner List.mem_cons_self) inner_replaces.covers⟩
      · rename_i node_eq
        obtain ⟨rfl, rfl, rfl⟩ := Node.mk.inj node_eq
        have kept : Node.mk kind span children = target := by
          split at found <;> simp_all
        exact kept ▸ spaced.replaces

theorem patternOf?_replaces {turn : Node → Option Node}
    (spaced : (mk kind span children).IsSpaced text) (apart : kind.arrangement ≠ .named)
    (plain : other.arrangement = .row)
    (replaces : ∀ child ∈ children, ∀ part, turn child = some part → part.Replaces text child)
    (found : patternOf? other span (children.mapM turn) = some target) :
    target.Replaces text (mk kind span children) := by
  obtain ⟨parts, parts_eq, found⟩ := Option.bind_eq_some_iff.1 found
  split at found
  · simp at found
  · obtain rfl := Option.some.inj found
    exact spaced.regroup ((spaced.inRow apart).mapM replaces parts_eq) plain

/-- What each node turns into is among what several turn into. -/
theorem holds_mapM {holds : Node → Prop} {turn : Node → Option Node} {nodes targets : List Node}
    (each : ∀ node ∈ nodes, ∀ target, turn node = some target → holds target)
    (turned : nodes.mapM turn = some targets) : ∀ target ∈ targets, holds target := by
  induction nodes generalizing targets with
  | nil =>
      obtain rfl : [] = targets := by simpa using turned
      exact List.forall_mem_nil _
  | cons node rest ih =>
      obtain ⟨target, target_eq, others, others_eq, rfl⟩ : ∃ target, turn node = some target ∧
          ∃ others, rest.mapM turn = some others ∧ target :: others = targets := by
        simpa [List.mapM_cons, Option.bind_eq_some_iff] using turned
      exact List.forall_mem_cons.2 ⟨each node List.mem_cons_self target target_eq,
        ih (fun other listed => each other (List.mem_cons_of_mem _ listed)) others_eq⟩

theorem elementTargets?_eq (nodes : List Node) :
    elementTargets? nodes = nodes.mapM elementTarget? := by
  induction nodes with
  | nil => simp [elementTargets?]
  | cons node rest ih =>
      rw [elementTargets?, ih, List.mapM_cons]
      cases elementTarget? node <;> cases rest.mapM elementTarget? <;> rfl

theorem memberTargets?_eq (nodes : List Node) :
    memberTargets? nodes = nodes.mapM memberTarget? := by
  induction nodes with
  | nil => simp [memberTargets?]
  | cons node rest ih =>
      rw [memberTargets?, ih, List.mapM_cons]
      cases memberTarget? node <;> cases rest.mapM memberTarget? <;> rfl

/-- What stands for the elements of a literal may stand where they stand. -/
theorem literal_replaces (spaced : node.IsSpaced text)
    (elements : ∀ child ∈ node.children, ∀ part, child.elementTarget? = some part →
      part.Replaces text child)
    (members : ∀ child ∈ node.children, ∀ part, child.memberTarget? = some part →
      part.Replaces text child)
    (found : node.target? = some target) : target.Replaces text node := by
  unfold target? at found
  split at found
  · rw [elementTargets?_eq] at found
    exact patternOf?_replaces spaced nofun rfl elements found
  · rw [memberTargets?_eq] at found
    exact patternOf?_replaces spaced nofun rfl members found
  · exact Option.some.inj found ▸ spaced.replaces
  · exact Option.some.inj found ▸ spaced.replaces
  · exact simpleTarget?_replaces spaced found

/-- An element is a hole, has a standard value, takes up the rest, or is a target by itself. -/
theorem elementTarget?_cases (found : node.elementTarget? = some target) :
    target = node ∨
    (∃ span children, node = mk (.assignment "=") span children ∧
      target = mk .withDefault span children) ∨
    (∃ span inner part, node = mk .spread span [inner] ∧ inner.target? = some part ∧
      target = mk .rest span [part]) ∨
    node.target? = some target := by
  unfold elementTarget? at found
  split at found
  · exact .inl (Option.some.inj found).symm
  · exact .inr (.inl ⟨_, _, rfl, (Option.some.inj found).symm⟩)
  · obtain ⟨part, part_eq, rfl⟩ := Option.map_eq_some_iff.1 found
    exact .inr (.inr (.inl ⟨_, _, part, rfl, part_eq, rfl⟩))
  · exact .inr (.inr (.inr (by rw [target?]; exact found)))
  · exact .inr (.inr (.inr (by rw [target?]; exact found)))
  · exact .inl (Option.some.inj found).symm
  · exact .inl (Option.some.inj found).symm
  · refine .inr (.inr (.inr ?_))
    unfold target?
    split <;> simp_all

/-- A shorthand with a standard value is a member whose pattern has that standard value. -/
theorem IsSpaced.shorthandDefault {key name standard : Node} {isComputed : Bool}
    (spaced : (mk .shorthandDefault span [key, name, standard]).IsSpaced text) :
    (mk (.patternProperty .shorthand isComputed) span
      [key, mk .withDefault span [name, standard]]).Replaces text
        (mk .shorthandDefault span [key, name, standard]) := by
  obtain ⟨word, taken, below⟩ := key
  obtain ⟨below_eq, -, apart⟩ := spaced.fits.named rfl
  obtain rfl : below = [] := below_eq
  have key_within := spaced.fits.within _ List.mem_cons_self
  have row : InRow text span.start span.stop [name, standard] :=
    { spaced := fun child member => spaced.child (List.mem_cons_of_mem _ member)
      within := fun child member =>
        Span.covers_iff.1 (spaced.fits.within child (List.mem_cons_of_mem _ member))
      ordered := apart }
  have pattern : (mk .withDefault span [name, standard]).IsSpaced text :=
    row.isSpaced spaced.fits.framed rfl
  refine ⟨?_, Span.covers_iff.2 ⟨Nat.le_refl _, Nat.le_refl _⟩⟩
  exact (InRow.single pattern (Nat.le_refl _) (Nat.le_refl _)).isSpaced_named spaced.fits.framed rfl
    (spaced.child List.mem_cons_self) key_within
    (List.forall_mem_singleton.2 (.inr ⟨rfl, key_within⟩))

/-- A node keeps its children under another kind whose children lie as they did. -/
theorem IsSpaced.rename (spaced : (mk kind span children).IsSpaced text)
    (arranged : other.arrangement = kind.arrangement) :
    (mk other span children).Replaces text (mk kind span children) := by
  refine ⟨isSpaced_iff.2 ⟨⟨spaced.fits.framed, spaced.fits.within, fun unnamed => ?_, fun named => ?_,
    fun isList => ?_⟩, fun child => spaced.child⟩, Span.covers_iff.2 ⟨Nat.le_refl _, Nat.le_refl _⟩⟩
  · exact spaced.fits.apart (arranged ▸ unnamed)
  · exact spaced.fits.named (arranged ▸ named)
  · obtain ⟨opening, closing, wide, inside⟩ := spaced.fits.bracketed (arranged ▸ isList)
    exact ⟨opening, closing, wide, inside⟩

/-- Whatever is read as the target of an assignment may stand where the tree stands. -/
theorem targets_replace (node : Node) : node.IsSpaced text →
    (∀ target, node.target? = some target → target.Replaces text node) ∧
    (∀ target, node.elementTarget? = some target → target.Replaces text node) ∧
    (∀ target, node.memberTarget? = some target → target.Replaces text node) := by
  induction node using Node.induction with
  | step kind span children ih =>
      intro spaced
      have of_child : ∀ child ∈ children, _ := fun child member =>
        ih child member (spaced.child member)
      have targets : ∀ target, (mk kind span children).target? = some target →
          target.Replaces text (mk kind span children) := fun target found =>
        literal_replaces spaced (fun child member => (of_child child member).2.1)
          (fun child member => (of_child child member).2.2) found
      refine ⟨targets, fun target found => ?_, fun target found => ?_⟩
      · obtain rfl | ⟨span, children, node_eq, rfl⟩ | ⟨span, inner, part, node_eq, part_eq, rfl⟩ |
          found := elementTarget?_cases found
        · exact spaced.replaces
        · obtain ⟨rfl, rfl, rfl⟩ := Node.mk.inj node_eq
          exact spaced.rename rfl
        · obtain ⟨rfl, rfl, rfl⟩ := Node.mk.inj node_eq
          have replaced := (of_child inner List.mem_cons_self).1 part part_eq
          exact spaced.regroup ((spaced.inRow nofun).exchange [] replaced) rfl
        · exact targets target found
      · unfold memberTarget? at found
        split at found
        · rename_i isComputed memberSpan key value node_eq
          obtain ⟨rfl, rfl, rfl⟩ := Node.mk.inj node_eq
          obtain ⟨part, part_eq, rfl⟩ := Option.map_eq_some_iff.1 found
          have replaced := (of_child value (by simp)).2.1 part part_eq
          exact spaced.regroup ((spaced.inRow nofun).exchange [key] replaced) rfl
        · rename_i isComputed memberSpan members node_eq
          obtain ⟨rfl, rfl, rfl⟩ := Node.mk.inj node_eq
          exact Option.some.inj found ▸ spaced.rename rfl
        · rename_i memberSpan key name standard node_eq
          obtain ⟨rfl, rfl, rfl⟩ := Node.mk.inj node_eq
          exact Option.some.inj found ▸ spaced.shorthandDefault
        · rename_i memberSpan inner node_eq
          obtain ⟨rfl, rfl, rfl⟩ := Node.mk.inj node_eq
          obtain ⟨part, part_eq, rfl⟩ := Option.map_eq_some_iff.1 found
          have replaced := simpleTarget?_replaces (spaced.child List.mem_cons_self) part_eq
          exact spaced.regroup ((spaced.inRow nofun).exchange [] replaced) rfl
        · contradiction

theorem target?_replaces (spaced : node.IsSpaced text) (found : node.target? = some target) :
    target.Replaces text node :=
  (targets_replace node spaced).1 target found

end Node

end Shakedown
