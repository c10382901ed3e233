import Shakedown.Proofs.Text.Ink
import Shakedown.Script.Node

/-!
# Trees spaced out in their text

The nodes of a tree lie in the text as they lie in the tree: what a node is made of lies inside it,
in order and apart, and every node is framed by ink. Only the name of a shorthand member may be the
very word that is its value. The elements of a list lie between its brackets.
-/

namespace Shakedown

/-- How what a node is made of lies in the text. -/
inductive Arrangement
  /-- One tree behind the other. -/
  | row
  /-- Elements in brackets. -/
  | list
  /-- A name, which may be the very word that the value behind it begins with. -/
  | named
  deriving DecidableEq

/-- How the children of a node lie. -/
def NodeKind.arrangement : NodeKind → Arrangement
  | .array => .list
  | .object => .list
  | .property .shorthand _ => .named
  | .patternProperty .shorthand _ => .named
  | .shorthandDefault => .named
  | _ => .row

namespace Node

open Text

theorem mem_nodesOfList {inner : Node} {nodes : List Node} :
    inner ∈ nodesOfList nodes ↔ ∃ node ∈ nodes, inner ∈ node.nodes := by
  induction nodes with
  | nil => simp [nodesOfList]
  | cons node rest ih => simp [nodesOfList, ih]

theorem mem_nodes {inner node : Node} :
    inner ∈ node.nodes ↔ inner = node ∨ ∃ child ∈ node.children, inner ∈ child.nodes := by
  obtain ⟨kind, span, children⟩ := node
  rw [nodes, List.mem_cons, mem_nodesOfList, Node.children]

/-- What holds of a node when it holds of its children holds of every node. -/
theorem induction {motive : Node → Prop}
    (step : ∀ kind span children, (∀ child ∈ children, motive child) →
      motive (Node.mk kind span children)) : ∀ node, motive node
  | .mk kind span children => step kind span children fun child _ => induction step child

theorem mem_nodes_trans {inner node outer : Node} (below : inner ∈ node.nodes)
    (also_below : node ∈ outer.nodes) : inner ∈ outer.nodes := by
  induction outer using Node.induction with
  | step kind span children ih =>
      obtain rfl | ⟨child, member, listed⟩ := mem_nodes.1 also_below
      · exact below
      · exact mem_nodes.2 (.inr ⟨child, member, ih child member listed⟩)

/-- A node lies before the one behind it, or is a word that this one takes up as well. -/
def precedes (first second : Node) : Prop :=
  first.span.stop ≤ second.span.start ∨ first.children = [] ∧ second.span.covers first.span

/-- The elements of a list lie between its brackets, which take a byte each. -/
structure IsBracketed (text : List Char) (node : Node) : Prop where
  /-- The opening bracket ends on a boundary. -/
  opening : IsBoundary text (node.span.start + 1)
  /-- The closing bracket begins on a boundary. -/
  closing : IsBoundary text (node.span.stop - 1)
  /-- There are two brackets. -/
  wide : node.span.start + 2 ≤ node.span.stop
  /-- The elements lie between them. -/
  inside : ∀ child ∈ node.children,
    node.span.start + 1 ≤ child.span.start ∧ child.span.stop ≤ node.span.stop - 1

/-- The first of the nodes is a word, which the next one may take up again. -/
def AreNamed : List Node → Prop
  | [] => False
  | key :: others => key.children = [] ∧ (∀ other ∈ others, key.precedes other) ∧
      others.Pairwise fun first second => first.span.stop ≤ second.span.start

/-- A node and its children are spaced out. -/
structure Fits (text : List Char) (node : Node) : Prop where
  /-- The node is framed by ink. -/
  framed : Framed text node.span
  /-- The children lie inside the node. -/
  within : ∀ child ∈ node.children, node.span.covers child.span
  /-- The children are apart and in order where no word may be taken up again. -/
  apart : node.kind.arrangement ≠ .named →
    node.children.Pairwise fun first second => first.span.stop ≤ second.span.start
  /-- What is behind the word that may be taken up again is apart and in order. -/
  named : node.kind.arrangement = .named → AreNamed node.children
  /-- The elements of a list are in brackets. -/
  bracketed : node.kind.arrangement = .list → node.IsBracketed text

/-- All nodes of a tree are spaced out. -/
def IsSpaced (text : List Char) (node : Node) : Prop :=
  ∀ inner ∈ node.nodes, inner.Fits text

/-- Trees one behind the other between two offsets. -/
structure InRow (text : List Char) (first last : Nat) (nodes : List Node) : Prop where
  /-- Each tree is spaced out. -/
  spaced : ∀ node ∈ nodes, node.IsSpaced text
  /-- The trees lie between the offsets. -/
  within : ∀ node ∈ nodes, first ≤ node.span.start ∧ node.span.stop ≤ last
  /-- The trees are apart and in order. -/
  ordered : nodes.Pairwise fun first second => first.span.stop ≤ second.span.start

variable {text : List Char} {kind : NodeKind} {span : Span} {node : Node}

theorem isSpaced_iff :
    node.IsSpaced text ↔ node.Fits text ∧ ∀ child ∈ node.children, child.IsSpaced text := by
  constructor
  · exact fun all => ⟨all node (mem_nodes.2 (.inl rfl)), fun child member inner below =>
      all inner (mem_nodes.2 (.inr ⟨child, member, below⟩))⟩
  · rintro ⟨fits, all⟩ inner below
    obtain rfl | ⟨child, member, below⟩ := mem_nodes.1 below
    · exact fits
    · exact all child member inner below

/-- The children are in order. -/
theorem Fits.ordered (fits : node.Fits text) : node.children.Pairwise precedes := by
  by_cases named : node.kind.arrangement = .named
  · have children_named := fits.named named
    unfold AreNamed at children_named
    split at children_named
    · contradiction
    · rename_i key others children_eq
      rw [children_eq]
      exact List.pairwise_cons.2 ⟨children_named.2.1, children_named.2.2.imp Or.inl⟩
  · exact (fits.apart named).imp Or.inl

namespace IsSpaced

theorem fits (spaced : node.IsSpaced text) : node.Fits text :=
  (isSpaced_iff.1 spaced).1

theorem child (spaced : node.IsSpaced text) {inner : Node} (member : inner ∈ node.children) :
    inner.IsSpaced text :=
  (isSpaced_iff.1 spaced).2 inner member

theorem covers (spaced : node.IsSpaced text) {inner : Node} (below : inner ∈ node.nodes) :
    node.span.covers inner.span := by
  induction node using Node.induction with
  | step kind span children ih =>
      obtain rfl | ⟨child, member, below⟩ := mem_nodes.1 below
      · exact Span.covers_iff.2 ⟨Nat.le_refl _, Nat.le_refl _⟩
      · exact Span.covers_trans (spaced.fits.within child member)
          (ih child member (spaced.child member) below)

theorem below (spaced : node.IsSpaced text) {inner : Node} (below : inner ∈ node.nodes) :
    inner.IsSpaced text := by
  induction node using Node.induction with
  | step kind span children ih =>
      obtain rfl | ⟨child, member, below⟩ := mem_nodes.1 below
      · exact spaced
      · exact ih child member (spaced.child member) below

theorem proper (spaced : node.IsSpaced text) : node.span.start < node.span.stop :=
  spaced.fits.framed.proper

/-- The two parts of a node. -/
theorem pair {first second : Node} (spaced : (Node.mk kind span [first, second]).IsSpaced text) :
    first.IsSpaced text ∧ second.IsSpaced text ∧ first.precedes second ∧
      span.covers first.span ∧ span.covers second.span := by
  have first_listed : first ∈ (Node.mk kind span [first, second]).children := List.mem_cons_self
  have second_listed : second ∈ (Node.mk kind span [first, second]).children :=
    List.mem_cons_of_mem _ List.mem_cons_self
  have ordered := List.pairwise_cons.1 spaced.fits.ordered
  exact ⟨spaced.child first_listed, spaced.child second_listed,
    ordered.1 second List.mem_cons_self, spaced.fits.within first first_listed,
    spaced.fits.within second second_listed⟩

/-- A node without children. -/
theorem leaf (framed : Framed text span) (plain : kind.arrangement = .row) :
    IsSpaced text (Node.mk kind span []) :=
  isSpaced_iff.2 ⟨⟨framed, by simp [children], by simp [children], by simp [Node.kind, plain],
    by simp [Node.kind, plain]⟩, by simp [children]⟩

end IsSpaced

namespace InRow

variable {first last : Nat} {nodes : List Node}

theorem nil : InRow text first last [] :=
  ⟨by simp, by simp, .nil⟩

theorem single (spaced : node.IsSpaced text) (first_le : first ≤ node.span.start)
    (le_last : node.span.stop ≤ last) : InRow text first last [node] :=
  ⟨by simpa using spaced, by simpa using ⟨first_le, le_last⟩, List.pairwise_singleton _ _⟩

theorem mono {earlier later : Nat} (row : InRow text first last nodes) (le_first : earlier ≤ first)
    (last_le : last ≤ later) : InRow text earlier later nodes where
  spaced := row.spaced
  within := fun node member => by
    have := row.within node member
    omega
  ordered := row.ordered

/-- No tree of a row ends behind the text. -/
theorem whole (row : InRow text first last nodes) : InRow text 0 (width text) nodes where
  spaced := row.spaced
  within := fun node member => by
    have inside := (row.spaced node member).fits.framed.ends.isBoundary.le_width
    exact ⟨Nat.zero_le _, inside⟩
  ordered := row.ordered

theorem sublist {others : List Node} (row : InRow text first last nodes)
    (sub : others.Sublist nodes) : InRow text first last others where
  spaced := fun node member => row.spaced node (sub.mem member)
  within := fun node member => row.within node (sub.mem member)
  ordered := row.ordered.sublist sub

/-- Two rows one behind the other. -/
theorem append {middle next : Nat} {others : List Node} (row : InRow text first middle nodes)
    (behind : InRow text next last others) (middle_le : middle ≤ next) (le_last : middle ≤ last)
    (first_le : first ≤ next) : InRow text first last (nodes ++ others) where
  spaced := List.forall_mem_append.2 ⟨row.spaced, behind.spaced⟩
  within := List.forall_mem_append.2
    ⟨(row.mono (Nat.le_refl _) le_last).within, (behind.mono first_le (Nat.le_refl _)).within⟩
  ordered := List.pairwise_append.2 ⟨row.ordered, behind.ordered, fun node member other listed => by
    have := row.within node member
    have := behind.within other listed
    omega⟩

theorem cons {next : Nat} {others : List Node} (spaced : node.IsSpaced text)
    (first_le : first ≤ node.span.start) (behind : InRow text next last others)
    (stop_le : node.span.stop ≤ next) (le_last : node.span.stop ≤ last) :
    InRow text first last (node :: others) := by
  have start_lt := spaced.proper
  exact (single spaced first_le (Nat.le_refl _)).append behind stop_le le_last (by omega)

/-- A node made of a row. -/
theorem isSpaced (row : InRow text span.start span.stop nodes) (framed : Framed text span)
    (plain : kind.arrangement = .row) : IsSpaced text (Node.mk kind span nodes) := by
  refine isSpaced_iff.2 ⟨⟨framed, fun child member => ?_, fun _ => row.ordered,
    by simp [Node.kind, plain], by simp [Node.kind, plain]⟩, row.spaced⟩
  exact Span.covers_iff.2 (row.within child member)

/-- A node made of a row behind a word that the row may take up once more. -/
theorem isSpaced_named {name : NodeKind} {named : Span} (row : InRow text span.start span.stop nodes)
    (framed : Framed text span) (arranged : kind.arrangement = .named)
    (key_spaced : IsSpaced text (.mk name named [])) (key_within : span.covers named)
    (key_first : ∀ node ∈ nodes, (Node.mk name named []).precedes node) :
    IsSpaced text (Node.mk kind span (.mk name named [] :: nodes)) := by
  refine isSpaced_iff.2 ⟨⟨framed, ?_, fun unnamed => absurd arranged unnamed,
    fun _ => ⟨rfl, key_first, row.ordered⟩, by simp [Node.kind, arranged]⟩, ?_⟩
  · exact List.forall_mem_cons.2 ⟨key_within, fun child member =>
      Span.covers_iff.2 (row.within child member)⟩
  · exact List.forall_mem_cons.2 ⟨key_spaced, row.spaced⟩

/-- A list made of the row between its brackets. -/
theorem isSpaced_list (row : InRow text (span.start + 1) (span.stop - 1) nodes)
    (framed : Framed text span) (arranged : kind.arrangement = .list)
    (opening : IsBoundary text (span.start + 1)) (closing : IsBoundary text (span.stop - 1))
    (wide : span.start + 2 ≤ span.stop) : IsSpaced text (Node.mk kind span nodes) := by
  refine isSpaced_iff.2 ⟨⟨framed, fun child member => ?_, fun _ => row.ordered,
    by simp [Node.kind, arranged], fun _ => ?_⟩, row.spaced⟩
  · have between := row.within child member
    have start_le : span.start ≤ child.span.start := by omega
    have le_stop : child.span.stop ≤ span.stop := by omega
    exact Span.covers_iff.2 ⟨start_le, le_stop⟩
  · exact ⟨opening, closing, wide, row.within⟩

/-- Two trees of a row are the same or one behind the other. -/
theorem eq_or_apart {tree other : Node} (row : InRow text first last nodes) (listed : tree ∈ nodes)
    (also_listed : other ∈ nodes) :
    tree = other ∨ tree.span.stop ≤ other.span.start ∨ other.span.stop ≤ tree.span.start := by
  have ordered := row.ordered
  clear row
  induction ordered with
  | nil => contradiction
  | cons before _ ih =>
      obtain rfl | behind := List.mem_cons.1 listed <;>
        obtain rfl | also_behind := List.mem_cons.1 also_listed
      · exact .inl rfl
      · exact .inr (.inl (before other also_behind))
      · exact .inr (.inr (before tree behind))
      · exact ih behind also_behind

end InRow

/-- The children of a node in which no word is taken up again. -/
theorem IsSpaced.inRow {children : List Node} (spaced : (Node.mk kind span children).IsSpaced text)
    (apart : kind.arrangement ≠ .named) : InRow text span.start span.stop children where
  spaced := fun _ member => spaced.child member
  within := fun child member => Span.covers_iff.1 (spaced.fits.within child member)
  ordered := spaced.fits.apart apart

/-! ## Nodes below nodes -/

/-- One node is below another one along nodes that are rows. -/
inductive IsBelow (inner : Node) : Node → Prop
  /-- A node is below itself. -/
  | here : IsBelow inner inner
  /-- A node below a child of a row is below the row. -/
  | child {kind : NodeKind} {span : Span} {children : List Node} {child : Node} :
      kind.arrangement = .row → child ∈ children → IsBelow inner child →
      IsBelow inner (.mk kind span children)

namespace IsBelow

variable {inner outer : Node}

theorem trans {middle : Node} (below : inner.IsBelow middle) (also_below : middle.IsBelow outer) :
    inner.IsBelow outer := by
  induction also_below with
  | here => exact below
  | child row member _ ih => exact .child row member ih

theorem mem_nodes (below : inner.IsBelow outer) : inner ∈ outer.nodes := by
  induction below with
  | here => exact Node.mem_nodes.2 (.inl rfl)
  | child _ member _ ih => exact Node.mem_nodes.2 (.inr ⟨_, member, ih⟩)

/-- A list in the tree around a node lies inside the node or apart from it. -/
theorem list_apart {list : Node} (below : inner.IsBelow outer) (spaced : outer.IsSpaced text)
    (listed : list ∈ outer.nodes) (isList : list.kind.arrangement = .list) :
    list ∈ inner.nodes ∨ list.span.stop ≤ inner.span.start ∨ inner.span.stop ≤ list.span.start := by
  induction below with
  | here => exact .inl listed
  | @child kind span children child row member below ih =>
      obtain rfl | ⟨other, among, listed⟩ := Node.mem_nodes.1 listed
      · rw [Node.kind, row] at isList
        contradiction
      · have child_covers := Span.covers_iff.1 ((spaced.child member).covers below.mem_nodes)
        have other_covers := Span.covers_iff.1 ((spaced.child among).covers listed)
        have row := spaced.inRow (by simp [row])
        obtain rfl | apart := row.eq_or_apart member among
        · exact ih (spaced.child member) listed
        · omega

end IsBelow

end Node
end Shakedown
