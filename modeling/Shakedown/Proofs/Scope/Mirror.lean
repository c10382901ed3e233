import Shakedown.Proofs.Script.Spacing
import Shakedown.Scope.Resolve

/-!
# Trees that differ in places only

The meanings of names depend on the shape of a tree and on where its names stand. Two trees mirror
each other when they have the same shape and a map takes the place of each name of the one to the
place of the same name in the other.
-/

namespace Shakedown

/-- Whether a node is a reference or a binding. -/
def NodeKind.isName : NodeKind → Bool
  | .reference _ => true
  | .binding _ => true
  | _ => false

namespace Node

mutual

/-- Whether a tree has the shape of another one, with its names where `position` says. -/
def mirrors (position : Nat → Nat) : Node → Node → Bool
  | mk kind span children, mk other place others =>
      kind == other && (!kind.isName || place.start == position span.start) &&
        mirrorsAll position children others

/-- Whether the trees of a list mirror those of another one. -/
def mirrorsAll (position : Nat → Nat) : List Node → List Node → Bool
  | [], [] => true
  | node :: rest, image :: images => mirrors position node image && mirrorsAll position rest images
  | _, _ => false

end

variable {position : Nat → Nat}

theorem mirrorsAll_nil {images : List Node} : mirrorsAll position [] images ↔ images = [] := by
  cases images <;> simp [mirrorsAll]

theorem mirrorsAll_cons {node : Node} {rest images : List Node} :
    mirrorsAll position (node :: rest) images ↔
      ∃ image others, images = image :: others ∧ mirrors position node image ∧
        mirrorsAll position rest others := by
  cases images with
  | nil => simp [mirrorsAll]
  | cons image others =>
      rw [mirrorsAll, Bool.and_eq_true]
      constructor
      · exact fun both => ⟨image, others, rfl, both.1, both.2⟩
      · rintro ⟨_, _, same, first, behind⟩
        cases same
        exact ⟨first, behind⟩

theorem length_of_mirrorsAll {nodes images : List Node}
    (mirrored : mirrorsAll position nodes images) :
    nodes.length = images.length := by
  induction nodes generalizing images with
  | nil => rw [mirrorsAll_nil.1 mirrored]
  | cons node rest ih =>
      obtain ⟨image, others, rfl, -, behind⟩ := mirrorsAll_cons.1 mirrored
      simp [ih behind]

theorem mirrors_mk {kind : NodeKind} {span : Span} {children : List Node} {image : Node} :
    mirrors position (mk kind span children) image ↔
      ∃ place images, image = mk kind place images ∧
        (kind.isName → place.start = position span.start) ∧
        mirrorsAll position children images := by
  obtain ⟨other, place, others⟩ := image
  constructor
  · intro mirrored
    simp only [mirrors, Bool.and_eq_true, beq_iff_eq, Bool.or_eq_true, Bool.not_eq_true']
      at mirrored
    obtain ⟨⟨rfl, placed⟩, below⟩ := mirrored
    exact ⟨place, others, rfl, fun named => placed.resolve_left (by simp [named]), below⟩
  · rintro ⟨_, _, same, placed, below⟩
    cases same
    cases named : kind.isName <;> simp_all [mirrors]

theorem mirrorsAll_refl {nodes : List Node} (each : ∀ node ∈ nodes, mirrors id node node) :
    mirrorsAll id nodes nodes := by
  induction nodes with
  | nil => rfl
  | cons node rest ih =>
      exact mirrorsAll_cons.2 ⟨node, rest, rfl, each node List.mem_cons_self,
        ih fun other listed => each other (List.mem_cons_of_mem _ listed)⟩

/-- Every tree mirrors itself in its own places. -/
theorem mirrors_refl (node : Node) : mirrors id node node := by
  induction node using Node.induction with
  | step kind span children ih =>
      exact mirrors_mk.2 ⟨span, children, rfl, fun _ => rfl, mirrorsAll_refl ih⟩

theorem mem_bindingsOfList {inner : Node} {nodes : List Node} :
    inner ∈ bindingsOfList nodes ↔ ∃ node ∈ nodes, inner ∈ node.bindings := by
  induction nodes with
  | nil => simp [bindingsOfList]
  | cons node rest ih => simp [bindingsOfList, ih]

/-- A pattern is a declared name or declares what its children declare. -/
theorem mem_bindings {kind : NodeKind} {span : Span} {children : List Node} {inner : Node}
    (listed : inner ∈ (mk kind span children).bindings) :
    inner = mk kind span children ∨ inner ∈ bindingsOfList children := by
  unfold bindings at listed
  split at listed
  case h_1 same => exact .inl (same ▸ List.mem_singleton.1 listed)
  case h_8 => contradiction
  all_goals
    obtain ⟨rfl, rfl, rfl⟩ := Node.mk.inj ‹_ = _›
    exact .inr (by simp [bindingsOfList, listed])

/-- The declared names of a pattern are nodes of it. -/
theorem mem_nodes_of_mem_bindings {node inner : Node} (listed : inner ∈ node.bindings) :
    inner ∈ node.nodes := by
  induction node using Node.induction with
  | step kind span children ih =>
      obtain here | below := mem_bindings listed
      · exact mem_nodes.2 (.inl here)
      · obtain ⟨child, among, listed⟩ := mem_bindingsOfList.1 below
        exact mem_nodes.2 (.inr ⟨child, among, ih child among listed⟩)

/-- What a declaring name declares, and where it stands. -/
def declaredName (binding : Node) : Nat × String :=
  (binding.span.start, binding.name?.getD "")

/-- A declared name in its new place. -/
def moveName (position : Nat → Nat) (name : Nat × String) : Nat × String :=
  (position name.1, name.2)

theorem declaredName_of_mirrors {node image : Node} (named : node.kind.isName)
    (mirrored : mirrors position node image) :
    image.declaredName = moveName position node.declaredName := by
  obtain ⟨kind, span, children⟩ := node
  obtain ⟨place, images, rfl, placed, -⟩ := mirrors_mk.1 mirrored
  have name_eq : (mk kind place images).name? = (mk kind span children).name? := by
    cases kind <;> rfl
  simp [declaredName, moveName, Node.span, name_eq, placed named]

theorem map_declaredName_of_mirrors {nodes images : List Node}
    (named : ∀ node ∈ nodes, node.kind.isName) (mirrored : mirrorsAll position nodes images) :
    images.map declaredName = (nodes.map declaredName).map (moveName position) := by
  induction nodes generalizing images with
  | nil => simp [mirrorsAll_nil.1 mirrored]
  | cons node rest ih =>
      obtain ⟨image, others, rfl, first, behind⟩ := mirrorsAll_cons.1 mirrored
      have node_named := named node List.mem_cons_self
      have rest_named := fun other listed => named other (List.mem_cons_of_mem _ listed)
      simp [declaredName_of_mirrors node_named first, ih rest_named behind]

theorem map_bindingsOfList_of_mirrors {nodes images : List Node}
    (each : ∀ node ∈ nodes, ∀ image, mirrors position node image →
      image.bindings.map declaredName = (node.bindings.map declaredName).map (moveName position))
    (mirrored : mirrorsAll position nodes images) :
    (bindingsOfList images).map declaredName =
      ((bindingsOfList nodes).map declaredName).map (moveName position) := by
  induction nodes generalizing images with
  | nil => simp [mirrorsAll_nil.1 mirrored, bindingsOfList]
  | cons node rest ih =>
      obtain ⟨image, others, rfl, first, behind⟩ := mirrorsAll_cons.1 mirrored
      simp [bindingsOfList, each node List.mem_cons_self image first,
        ih (fun other listed => each other (List.mem_cons_of_mem _ listed)) behind]

/-- Patterns that mirror each other declare the same names. -/
theorem map_bindings_of_mirrors (node image : Node) (mirrored : mirrors position node image) :
    image.bindings.map declaredName =
      (node.bindings.map declaredName).map (moveName position) := by
  induction node using Node.induction generalizing image with
  | step kind span children ih =>
      obtain ⟨place, images, rfl, placed, below⟩ := mirrors_mk.1 mirrored
      have lists := map_bindingsOfList_of_mirrors ih below
      cases kind
      case binding name => simpa [bindings] using declaredName_of_mirrors rfl mirrored
      case arrayPattern => simpa [bindings] using lists
      case objectPattern => simpa [bindings] using lists
      case decorated => simpa [bindings] using lists
      -- The other patterns look at the number of their children.
      case patternProperty form isComputed =>
        rcases children with _ | ⟨key, _ | ⟨value, _ | ⟨third, others⟩⟩⟩ <;>
          simp only [mirrorsAll_nil, mirrorsAll_cons] at below
        · obtain rfl := below
          rfl
        · obtain ⟨_, _, rfl, -, rfl⟩ := below
          rfl
        · obtain ⟨_, _, rfl, -, _, _, rfl, value_mirrored, rfl⟩ := below
          simpa [bindings] using ih value (by simp) _ value_mirrored
        · obtain ⟨_, _, rfl, -, _, _, rfl, -, _, _, rfl, -, -⟩ := below
          rfl
      case withDefault =>
        rcases children with _ | ⟨target, _ | ⟨standard, _ | ⟨third, others⟩⟩⟩ <;>
          simp only [mirrorsAll_nil, mirrorsAll_cons] at below
        · obtain rfl := below
          rfl
        · obtain ⟨_, _, rfl, -, rfl⟩ := below
          rfl
        · obtain ⟨_, _, rfl, target_mirrored, _, _, rfl, -, rfl⟩ := below
          simpa [bindings] using ih target (by simp) _ target_mirrored
        · obtain ⟨_, _, rfl, -, _, _, rfl, -, _, _, rfl, -, -⟩ := below
          rfl
      case rest =>
        rcases children with _ | ⟨target, _ | ⟨second, others⟩⟩ <;>
          simp only [mirrorsAll_nil, mirrorsAll_cons] at below
        · obtain rfl := below
          rfl
        · obtain ⟨_, _, rfl, target_mirrored, rfl⟩ := below
          simpa [bindings] using ih target (by simp) _ target_mirrored
        · obtain ⟨_, _, rfl, -, _, _, rfl, -, -⟩ := below
          rfl
      all_goals simp [bindings]

end Node

namespace ScopeStack

open Node

variable {position : Nat → Nat}

theorem filter_mirrorsAll {test : Node → Bool} {nodes images : List Node}
    (alike : ∀ node image, mirrors position node image → test image = test node)
    (mirrored : mirrorsAll position nodes images) :
    mirrorsAll position (nodes.filter test) (images.filter test) := by
  induction nodes generalizing images with
  | nil => simp [mirrorsAll_nil.1 mirrored, mirrorsAll]
  | cons node rest ih =>
      obtain ⟨image, others, rfl, first, behind⟩ := mirrorsAll_cons.1 mirrored
      rw [List.filter_cons, List.filter_cons, alike node image first]
      split
      · exact mirrorsAll_cons.2 ⟨_, _, rfl, first, ih behind⟩
      · exact ih behind

/-- Functions and classes that mirror each other have the same names of their own. -/
theorem map_ownNames_of_mirrors {parts images : List Node}
    (mirrored : mirrorsAll position parts images) :
    (ownNames images).map declaredName =
      ((ownNames parts).map declaredName).map (moveName position) := by
  refine map_declaredName_of_mirrors ?_ (filter_mirrorsAll ?_ mirrored)
  · rintro ⟨kind, span, children⟩ listed
    have among := (List.mem_filter.1 listed).2
    cases kind
    case binding name => rfl
    all_goals contradiction
  · rintro ⟨kind, span, children⟩ image alike
    obtain ⟨place, images, rfl, -, -⟩ := mirrors_mk.1 alike
    cases kind <;> rfl

theorem hasStrictBody_of_mirrors {parts images : List Node}
    (mirrored : mirrorsAll position parts images) :
    hasStrictBody images = hasStrictBody parts := by
  induction parts generalizing images with
  | nil => rw [mirrorsAll_nil.1 mirrored]
  | cons part rest ih =>
      obtain ⟨image, others, rfl, first, behind⟩ := mirrorsAll_cons.1 mirrored
      have rest_eq := ih behind
      obtain ⟨kind, span, children⟩ := part
      obtain ⟨place, below, rfl, -, -⟩ := mirrors_mk.1 first
      unfold hasStrictBody at rest_eq ⊢
      rw [List.any_cons, List.any_cons, rest_eq]
      cases kind <;> rfl

/-- Declarators that mirror each other declare the same names. -/
theorem map_declaredPatterns_of_mirrors {declarator image : Node}
    (mirrored : mirrors position declarator image) :
    (bindingsOfList (declaredPatterns [image])).map declaredName =
      ((bindingsOfList (declaredPatterns [declarator])).map declaredName).map
        (moveName position) := by
  obtain ⟨kind, span, children⟩ := declarator
  obtain ⟨place, images, rfl, -, below⟩ := mirrors_mk.1 mirrored
  cases kind
  case declarator =>
    cases children with
    | nil => rw [mirrorsAll_nil.1 below]; rfl
    | cons pattern rest =>
        obtain ⟨first, others, rfl, pattern_mirrored, -⟩ := mirrorsAll_cons.1 below
        simpa [declaredPatterns, bindingsOfList] using map_bindings_of_mirrors _ _ pattern_mirrored
  all_goals rfl

end ScopeStack
end Shakedown
