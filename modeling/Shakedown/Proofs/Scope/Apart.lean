import Shakedown.Proofs.Scope.Moved
import Shakedown.Proofs.Scope.References
import Shakedown.Proofs.Script.Shape

/-!
# References stand apart

In a tree that is spaced out and of the right shape every reference stands in a place of its own:
the only words that two nodes share are those of shorthands, and there only one of the two is a
reference.
-/

namespace Shakedown
namespace Node

variable {text : List Char} {kind : NodeKind} {span : Span} {children : List Node} {node : Node}

/-- The references of a node are itself or those of its children, if they are any. -/
theorem references_cases (kind : NodeKind) (span : Span) (children : List Node) :
    (∃ name, kind = .reference name ∧ (mk kind span children).references = [⟨span.start, name⟩]) ∨
      (mk kind span children).references = [] ∨
      (mk kind span children).references = referencesOfList children := by
  cases kind
  case reference name => exact .inl ⟨name, rfl, rfl⟩
  case importDefault => exact .inr (.inl rfl)
  case importNamespace => exact .inr (.inl rfl)
  case importSpecifier => exact .inr (.inl rfl)
  all_goals exact .inr (.inr rfl)

theorem mem_referencesOfList {use : NameUse} {nodes : List Node} :
    use ∈ referencesOfList nodes ↔ ∃ node ∈ nodes, use ∈ node.references := by
  rw [referencesOfList_eq, List.mem_flatMap]

/-- The references of a tree stand inside it. -/
theorem IsSpaced.covers_references (spaced : node.IsSpaced text) {use : NameUse}
    (used : use ∈ node.references) :
    node.span.start ≤ use.offset ∧ use.offset < node.span.stop := by
  induction node using Node.induction with
  | step kind span children ih =>
      obtain ⟨name, -, references_eq⟩ | references_eq | references_eq :=
        references_cases kind span children <;> rw [references_eq] at used
      · obtain rfl := List.mem_singleton.1 used
        exact ⟨Nat.le_refl _, spaced.proper⟩
      · contradiction
      · obtain ⟨child, listed, used⟩ := mem_referencesOfList.1 used
        have covered := Span.covers_iff.1 (spaced.fits.within child listed)
        have inside := ih child listed (spaced.child listed) used
        omega

/-- The references of trees in a row stand in the order of the trees. -/
theorem ascending_referencesOfList {nodes : List Node} (spaced : ∀ node ∈ nodes, node.IsSpaced text)
    (ordered : nodes.Pairwise fun first second => first.span.stop ≤ second.span.start)
    (each : ∀ node ∈ nodes, (node.references.map NameUse.offset).Pairwise (· < ·)) :
    ((referencesOfList nodes).map NameUse.offset).Pairwise (· < ·) := by
  induction nodes with
  | nil => exact .nil
  | cons node rest ih =>
      obtain ⟨node_spaced, rest_spaced⟩ := List.forall_mem_cons.1 spaced
      obtain ⟨node_ascending, rest_ascending⟩ := List.forall_mem_cons.1 each
      obtain ⟨before, rest_ordered⟩ := List.pairwise_cons.1 ordered
      rw [referencesOfList, List.map_append]
      refine List.pairwise_append.2
        ⟨node_ascending, ih rest_spaced rest_ordered rest_ascending,
          fun offset among other also => ?_⟩
      obtain ⟨use, used, rfl⟩ := List.mem_map.1 among
      obtain ⟨later, later_used, rfl⟩ := List.mem_map.1 also
      obtain ⟨holder, listed, later_used⟩ := mem_referencesOfList.1 later_used
      have inside := node_spaced.covers_references used
      have later_inside := (rest_spaced holder listed).covers_references later_used
      have apart := before holder listed
      omega

/-- A word that a shorthand may take up again holds no reference. -/
theorem references_of_leaf (leaf : node.children = []) (no_name : node.kind.isName = false) :
    node.references = [] := by
  obtain ⟨kind, span, children⟩ := node
  obtain rfl : children = [] := leaf
  obtain ⟨name, rfl, -⟩ | references_eq | references_eq := references_cases kind span []
  · contradiction
  · exact references_eq
  · exact references_eq

theorem IsShaped.ascending_references (shaped : node.IsShaped) (spaced : node.IsSpaced text) :
    (node.references.map NameUse.offset).Pairwise (· < ·) := by
  induction node using Node.induction with
  | step kind span children ih =>
      have each : ∀ child ∈ children, (child.references.map NameUse.offset).Pairwise (· < ·) :=
        fun child listed => ih child listed (shaped.child listed) (spaced.child listed)
      have children_spaced : ∀ child ∈ children, child.IsSpaced text :=
        fun child listed => spaced.child listed
      obtain ⟨name, -, references_eq⟩ | references_eq | references_eq :=
        references_cases kind span children <;> rw [references_eq]
      · exact List.pairwise_singleton _ _
      · exact .nil
      by_cases named : kind.arrangement = .named
      · have children_named := spaced.fits.named named
        have key_plain := shaped.formed.key named
        cases children with
        | nil => exact .nil
        | cons key others =>
            obtain ⟨leaf, -, ordered⟩ := children_named
            rw [referencesOfList, references_of_leaf leaf (key_plain key rfl), List.nil_append]
            exact ascending_referencesOfList (List.forall_mem_cons.1 children_spaced).2 ordered
              (List.forall_mem_cons.1 each).2
      · exact ascending_referencesOfList children_spaced (spaced.fits.apart named) each

/-- No two references of statements in a row stand in one place. -/
theorem InRow.nodup_references {first last : Nat} {nodes : List Node}
    (row : InRow text first last nodes) (shaped : ∀ node ∈ nodes, node.IsShaped) :
    ((referencesOfList nodes).map NameUse.offset).Nodup :=
  (ascending_referencesOfList row.spaced row.ordered fun node listed =>
    (shaped node listed).ascending_references (row.spaced node listed)).imp Nat.ne_of_lt

/-! ## References of trees that mirror each other -/

theorem referencesOfList_of_each {position : Nat → Nat} {nodes images : List Node}
    (each : ∀ node ∈ nodes, ∀ image, mirrors position node image →
      image.references = node.references.map (NameUse.moved position))
    (mirrored : mirrorsAll position nodes images) :
    referencesOfList images = (referencesOfList nodes).map (NameUse.moved position) := by
  induction nodes generalizing images with
  | nil =>
      rw [mirrorsAll_nil.1 mirrored]
      rfl
  | cons node rest ih =>
      obtain ⟨image, others, rfl, first, behind⟩ := mirrorsAll_cons.1 mirrored
      obtain ⟨node_each, rest_each⟩ := List.forall_mem_cons.1 each
      rw [referencesOfList, referencesOfList, node_each image first, ih rest_each behind,
        List.map_append]

theorem references_of_mirrors {position : Nat → Nat} (node image : Node)
    (mirrored : mirrors position node image) :
    image.references = node.references.map (NameUse.moved position) := by
  induction node using Node.induction generalizing image with
  | step kind span children ih =>
      obtain ⟨place, images, rfl, placed, below⟩ := mirrors_mk.1 mirrored
      have lists := referencesOfList_of_each ih below
      cases kind
      case reference name => simp [references, NameUse.moved, placed rfl]
      case importDefault => rfl
      case importNamespace => rfl
      case importSpecifier => rfl
      all_goals exact lists

end Node

end Shakedown
