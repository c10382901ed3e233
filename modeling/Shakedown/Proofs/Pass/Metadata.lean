import Shakedown.Pass.Metadata
import Shakedown.Proofs.Edit.CommaList
import Shakedown.Proofs.Edit.Recording
import Shakedown.Proofs.Script.Spacing

/-!
# Metadata is cut without straddling

Inside one statement cuts come from two sides: from the lists that the statement assigns, and from
the lists that statements inside functions apply at any depth. Those of the second kind lie inside an
element of a list or outside all of its elements, and cuts of a list take elements as a whole.
-/

namespace Shakedown
namespace Metadata

open Node Text Span

variable {text : List Char} {script : Script} {symbols : List Symbol} {helper : Symbol}

/-! ## Lists -/

section Lists

variable {list : Node} {marked : List (Span × Bool)}

theorem inside_eq (bracketed : list.IsBracketed text) :
    CommaList.inside list.span = ⟨list.span.start + 1, list.span.stop - 1⟩ := by
  have wide := bracketed.wide
  rw [CommaList.inside, Span.mk.injEq]
  omega

/-- The elements of a list follow each other between its brackets. -/
theorem chained_list (spaced : list.IsSpaced text) (isList : list.kind.arrangement = .list) :
    CommaList.Chained (list.span.start + 1) (list.span.stop - 1)
      (list.children.map Node.span) := by
  have bracketed := spaced.fits.bracketed isList
  have wide := bracketed.wide
  apply CommaList.chained_of_pairwise (by omega)
  · intro span member
    obtain ⟨child, listed, rfl⟩ := List.mem_map.1 member
    have between := bracketed.inside child listed
    exact ⟨between.1, Nat.le_of_lt (spaced.child listed).proper, between.2⟩
  · exact List.pairwise_map.2 (spaced.fits.apart (by simp [isList]))

/-- The cuts of a list take its elements as a whole. -/
theorem fits_list (spaced : list.IsSpaced text) (isList : list.kind.arrangement = .list)
    (marks : marked.map (·.1) = list.children.map Node.span) :
    CommaList.Fits (list.span.start + 1) (list.span.stop - 1) (list.children.map Node.span)
      (CommaList.cuts marked (CommaList.inside list.span)) := by
  have chained := chained_list spaced isList
  rw [← marks] at chained ⊢
  rw [inside_eq (spaced.fits.bracketed isList)]
  exact @CommaList.fits_cuts marked ⟨list.span.start + 1, list.span.stop - 1⟩ chained

/-- The cuts of a list take its marked elements and keep apart from all others. -/
theorem separates_list (spaced : list.IsSpaced text) (isList : list.kind.arrangement = .list)
    (marks : marked.map (·.1) = list.children.map Node.span) :
    CommaList.Separates marked (CommaList.cuts marked (CommaList.inside list.span)) := by
  have chained := chained_list spaced isList
  rw [← marks] at chained
  rw [inside_eq (spaced.fits.bracketed isList)]
  exact @CommaList.separates_cuts marked ⟨list.span.start + 1, list.span.stop - 1⟩ chained

/-- What is cut in a list gets along with what is cut inside its elements. -/
theorem tame_list (spaced : list.IsSpaced text) (isList : list.kind.arrangement = .list)
    (marks : marked.map (·.1) = list.children.map Node.span) {cutsOf : Node → List Span}
    (tame : ∀ child ∈ list.children, Tame text child.span (cutsOf child)) :
    Tame text list.span
      (CommaList.cuts marked (CommaList.inside list.span) ++ list.children.flatMap cutsOf) := by
  have fits := fits_list spaced isList marks
  have bracketed := spaced.fits.bracketed isList
  have wide := bracketed.wide
  have child_ends : ∀ span ∈ list.children.map Node.span,
      IsBoundary text span.start ∧ IsBoundary text span.stop := by
    intro span member
    obtain ⟨child, listed, rfl⟩ := List.mem_map.1 member
    have framed := (spaced.child listed).fits.framed
    exact ⟨framed.begins.isBoundary, framed.ends.isBoundary⟩
  have list_tame : Tame text list.span
      (CommaList.cuts marked (CommaList.inside list.span)) := by
    refine ⟨fun cut member => ⟨?_, ?_⟩, fun cut member => (fits.within cut member).2.1, ?_, ?_⟩
    · obtain same | ⟨element, among, same | same⟩ := fits.starts cut member
      · exact same ▸ bracketed.opening
      · exact same ▸ (child_ends element among).1
      · exact same ▸ (child_ends element among).2
    · obtain same | ⟨element, among, same | same⟩ := fits.stops cut member
      · exact same ▸ bracketed.closing
      · exact same ▸ (child_ends element among).1
      · exact same ▸ (child_ends element among).2
    · intro cut member
      have within := fits.within cut member
      exact covers_iff.2 (by omega)
    · exact fun cut member other among => fits.nested member among
  refine list_tame.append (Tame.flatMap Node.span tame (spaced.fits.within) ?_) ?_
  · exact (spaced.fits.apart (by simp [isList])).imp Or.inl
  · intro cut member other among
    obtain ⟨child, listed, among⟩ := List.mem_flatMap.1 among
    have whole := fits.whole cut member child.span (List.mem_map_of_mem listed)
    exact nests_of_takesWhole (takesWhole_of_covers whole ((tame child listed).within other among))

end Lists

/-- The range lies between the brackets of a list in the tree. -/
def InList (node : Node) (cut : Span) : Prop :=
  ∃ list ∈ node.nodes, list.kind.arrangement = .list ∧
    list.span.start < cut.start ∧ cut.stop < list.span.stop

theorem InList.mono {node outer : Node} {cut : Span} (held : InList node cut)
    (below : ∀ inner ∈ node.nodes, inner ∈ outer.nodes) : InList outer cut := by
  obtain ⟨list, listed, isList, inside⟩ := held
  exact ⟨list, below list listed, isList, inside⟩

theorem InList.of_child {child outer : Node} {cut : Span} (held : InList child cut)
    (member : child ∈ outer.children) : InList outer cut :=
  held.mono fun _ below => mem_nodes.2 (.inr ⟨child, member, below⟩)

theorem inList_of_mem_cuts {list : Node} {marked : List (Span × Bool)} {cut : Span}
    (spaced : list.IsSpaced text) (isList : list.kind.arrangement = .list)
    (marks : marked.map (·.1) = list.children.map Node.span)
    (member : cut ∈ CommaList.cuts marked (CommaList.inside list.span)) : InList list cut := by
  have within := (fits_list spaced isList marks).within cut member
  have wide := (spaced.fits.bracketed isList).wide
  exact ⟨list, mem_nodes.2 (.inl rfl), isList, by omega, by omega⟩

/-! ## Statements that apply decorators -/

theorem helperCutsOfList_eq (nodes : List Node) :
    helperCutsOfList script symbols helper nodes =
      nodes.flatMap (helperCuts script symbols helper) := by
  induction nodes with
  | nil => rfl
  | cons node rest ih => rw [helperCutsOfList, ih, List.flatMap_cons]

theorem helperCuts_eq {node : Node} (plain : appliedDecorators? script helper node = none) :
    helperCuts script symbols helper node =
      node.children.flatMap (helperCuts script symbols helper) := by
  obtain ⟨kind, span, children⟩ := node
  rw [helperCuts, plain, helperCutsOfList_eq, Node.children]

/-- Only a statement with a call on the right applies decorators. -/
theorem appliedDecorators?_eq_some {node : Node} {span : Span} {elements : List Node}
    (applied : appliedDecorators? script helper node = some (span, elements)) :
    ∃ nodeSpan assignmentSpan target callKind callSpan callee input,
      node = .mk .expressionStatement nodeSpan [.mk (.assignment "=") assignmentSpan
        [target, .mk (.call callKind) callSpan [callee, .mk .array span elements, input]]] := by
  unfold appliedDecorators? at applied
  split at applied
  · split at applied
    · simp only [Option.some.injEq, Prod.mk.injEq] at applied
      obtain ⟨rfl, rfl⟩ := applied
      exact ⟨_, _, _, _, _, _, _, rfl⟩
    · simp at applied
  · simp at applied

theorem mem_nodes_of_applied {node : Node} {span : Span} {elements : List Node}
    (applied : appliedDecorators? script helper node = some (span, elements)) :
    Node.mk .array span elements ∈ node.nodes := by
  obtain ⟨_, _, _, _, _, _, _, rfl⟩ := appliedDecorators?_eq_some applied
  simp [Node.nodes, nodesOfList]

theorem helperCuts_leaf {node : Node} (leaf : node.children = []) :
    helperCuts script symbols helper node = [] := by
  obtain ⟨kind, span, children⟩ := node
  obtain rfl : children = [] := leaf
  cases applied : appliedDecorators? script helper (.mk kind span []) with
  | none => rw [helperCuts_eq applied, Node.children, List.flatMap_nil]
  | some found =>
      obtain ⟨_, _, _, _, _, _, _, shape⟩ := appliedDecorators?_eq_some applied
      simp at shape

/-- Children in order have cuts in order, for the word that a shorthand repeats has none. -/
theorem helperCuts_ordered {nodes : List Node} (ordered : nodes.Pairwise precedes) :
    nodes.Pairwise fun node other =>
      node.span.stop ≤ other.span.start ∨ helperCuts script symbols helper node = [] :=
  ordered.imp fun precede => precede.imp_right fun taken => helperCuts_leaf taken.1

theorem marks_of_callsDecorator (script : Script) (symbols : List Symbol) (elements : List Node) :
    (elements.map fun element => (element.span, callsDecorator script symbols element)).map (·.1) =
      elements.map Node.span := by
  rw [List.map_map]
  rfl

theorem tame_appliedCuts {span : Span} {elements : List Node}
    (spaced : (Node.mk .array span elements).IsSpaced text) :
    Tame text span (appliedCuts script symbols span elements) := by
  simp only [appliedCuts]
  split
  · have nothing : ∀ element ∈ elements, Tame text element.span [] := fun _ _ => .nil
    refine (tame_list spaced rfl (marks_of_callsDecorator script symbols elements) nothing).of_subset ?_
    exact fun cut member => List.mem_append_left _ member
  · exact .nil

theorem inList_of_mem_appliedCuts {span cut : Span} {elements : List Node}
    (spaced : (Node.mk .array span elements).IsSpaced text)
    (member : cut ∈ appliedCuts script symbols span elements) :
    InList (.mk .array span elements) cut := by
  simp only [appliedCuts] at member
  split at member
  · exact inList_of_mem_cuts spaced rfl (marks_of_callsDecorator script symbols elements) member
  · simp at member

/-- Elements are cut out of lists. -/
theorem inList_of_mem_helperCuts {node : Node} {cut : Span} (spaced : node.IsSpaced text)
    (member : cut ∈ helperCuts script symbols helper node) : InList node cut := by
  induction node using Node.induction with
  | step kind span children ih =>
      cases applied : appliedDecorators? script helper (.mk kind span children) with
      | none =>
          rw [helperCuts_eq applied] at member
          obtain ⟨child, listed, held⟩ := List.mem_flatMap.1 member
          exact (ih child listed (spaced.child listed) held).of_child listed
      | some found =>
          obtain ⟨arraySpan, elements⟩ := found
          rw [helperCuts, applied] at member
          have below := mem_nodes_of_applied applied
          exact (inList_of_mem_appliedCuts (spaced.below below) member).mono fun _ listed =>
            mem_nodes_trans listed below

theorem tame_helperCuts {node : Node} (spaced : node.IsSpaced text) :
    Tame text node.span (helperCuts script symbols helper node) := by
  induction node using Node.induction with
  | step kind span children ih =>
      cases applied : appliedDecorators? script helper (.mk kind span children) with
      | none =>
          rw [helperCuts_eq applied]
          exact Tame.flatMap Node.span (fun child member => ih child member (spaced.child member))
            spaced.fits.within (helperCuts_ordered spaced.fits.ordered)
      | some found =>
          obtain ⟨arraySpan, elements⟩ := found
          rw [helperCuts, applied]
          have below := mem_nodes_of_applied applied
          exact (tame_appliedCuts (spaced.below below)).mono (spaced.covers below)

/-! ## One statement -/

/-- A spaced array with what is cut in it and inside its elements. -/
theorem tame_array {span : Span} {elements : List Node} {marked : List (Span × Bool)}
    (spaced : (Node.mk .array span elements).IsSpaced text)
    (marks : marked.map (·.1) = elements.map Node.span) :
    Tame text span (CommaList.cuts marked (CommaList.inside span) ++
      helperCuts script symbols helper (.mk .array span elements)) := by
  have plain : appliedDecorators? script helper (.mk .array span elements) = none := rfl
  rw [helperCuts_eq plain]
  exact tame_list spaced rfl marks fun element member => tame_helperCuts (spaced.child member)

theorem marks_of_markedElements? {elements : List Node} {marked : List (Span × Bool)}
    (found : markedElements? script symbols elements = some marked) :
    marked.map (·.1) = elements.map Node.span := by
  unfold markedElements? at found
  split at found
  · obtain rfl := Option.some.inj found
    rw [List.map_map]
    rfl
  · simp at found

theorem tame_memberArray (member : ListMember)
    (spaced : (Node.mk .array member.arraySpan member.elements).IsSpaced text) :
    Tame text member.arraySpan (memberCuts script symbols member ++
      helperCuts script symbols helper (.mk .array member.arraySpan member.elements)) := by
  unfold memberCuts
  split
  · exact tame_helperCuts spaced
  · rename_i marked found
    split
    · exact tame_helperCuts spaced
    · exact tame_array spaced (marks_of_markedElements? found)

/-- What is cut in a node and in the node behind it. -/
theorem tame_behind {outer : Span} {first second : Node} {cuts : List Span}
    (spaced : first.IsSpaced text) (precede : first.precedes second)
    (tame : Tame text second.span cuts) (first_within : outer.covers first.span)
    (second_within : outer.covers second.span) :
    Tame text outer (helperCuts script symbols helper first ++ cuts) := by
  have first_tame : Tame text first.span (helperCuts script symbols helper first) :=
    tame_helperCuts spaced
  refine (first_tame.mono first_within).append (tame.mono second_within) ?_
  intro cut member other among
  obtain before | ⟨leaf, -⟩ := precede
  · have cut_within := covers_iff.1 (first_tame.within cut member)
    have other_within := covers_iff.1 (tame.within other among)
    exact nests_of_isApart (isApart_of_le (by omega))
  · simp [helperCuts_leaf leaf] at member

/-- What is cut in a member whose value is an array, from either side. -/
theorem tame_memberCuts {node : Node} {member : ListMember} (listed : listMember? node = some member)
    (spaced : node.IsSpaced text) :
    Tame text node.span
      (memberCuts script symbols member ++ helperCuts script symbols helper node) := by
  unfold listMember? at listed
  split at listed
  · rename_i form isComputed span key arraySpan elements
    obtain rfl := Option.some.inj listed
    have plain : appliedDecorators? script helper (.mk (.property form isComputed) span
        [key, .mk .array arraySpan elements]) = none := rfl
    obtain ⟨key_spaced, array_spaced, precede, key_within, array_within⟩ := spaced.pair
    have array_tame : Tame text arraySpan
        (memberCuts script symbols ⟨span, arraySpan, elements⟩ ++
          helperCuts script symbols helper (.mk .array arraySpan elements)) :=
      tame_memberArray ⟨span, arraySpan, elements⟩ array_spaced
    have tame : Tame text span (helperCuts script symbols helper key ++
        (memberCuts script symbols ⟨span, arraySpan, elements⟩ ++
          helperCuts script symbols helper (.mk .array arraySpan elements))) :=
      tame_behind key_spaced precede array_tame key_within array_within
    refine tame.of_subset fun cut among => ?_
    rw [helperCuts_eq plain] at among
    simpa [Node.children, or_left_comm] using among
  · simp at listed

theorem listMember?_span {node : Node} {member : ListMember}
    (listed : listMember? node = some member) : member.span = node.span := by
  unfold listMember? at listed
  split at listed
  · obtain rfl := Option.some.inj listed
    rfl
  · simp at listed

theorem members_of_mapM {members : List Node} {lists : List ListMember}
    (listed : members.mapM listMember? = some lists) :
    members.map listMember? = lists.map some ∧ lists.map (·.span) = members.map Node.span := by
  induction members generalizing lists with
  | nil =>
      obtain rfl : [] = lists := by simpa using listed
      exact ⟨rfl, rfl⟩
  | cons node rest ih =>
      rw [List.mapM_cons] at listed
      cases first : listMember? node with
      | none => simp [first] at listed
      | some member =>
          cases others : rest.mapM listMember? with
          | none => simp [first, others] at listed
          | some behind =>
              obtain rfl : member :: behind = lists := by simpa [first, others] using listed
              have span_eq := listMember?_span first
              simp [first, span_eq, ih others]

theorem marks_of_isDropped (script : Script) (symbols : List Symbol) {members : List Node}
    {lists : List ListMember}
    (spans_eq : lists.map (·.span) = members.map Node.span) :
    (lists.map fun member => (member.span, isDropped script symbols member)).map (·.1) =
      members.map Node.span := by
  rw [List.map_map, ← spans_eq]
  rfl

/-- What is cut in an object whose members have arrays as values. -/
theorem tame_object {span : Span} {members : List Node} {lists : List ListMember}
    (spaced : (Node.mk .object span members).IsSpaced text)
    (listed : members.mapM listMember? = some lists) :
    Tame text span
      ((CommaList.cuts (lists.map fun member => (member.span, isDropped script symbols member))
          (CommaList.inside span) ++ lists.flatMap (memberCuts script symbols)) ++
        helperCuts script symbols helper (.mk .object span members)) := by
  obtain ⟨each, spans_eq⟩ := members_of_mapM listed
  have plain : appliedDecorators? script helper (.mk .object span members) = none := rfl
  let own (node : Node) : List Span := ((listMember? node).map (memberCuts script symbols)).getD []
  have own_eq : lists.flatMap (memberCuts script symbols) = members.flatMap own := by
    have own_flat : members.flatMap own = (members.map listMember?).flatMap fun member =>
        (member.map (memberCuts script symbols)).getD [] := by
      rw [List.flatMap_map]
    rw [own_flat, each, List.flatMap_map]
    rfl
  have inner_tame : ∀ node ∈ members, Tame text node.span
      (own node ++ helperCuts script symbols helper node) := by
    intro node member
    have node_spaced : node.IsSpaced text := spaced.child member
    cases shape : listMember? node with
    | none => simpa [own, shape] using tame_helperCuts node_spaced
    | some list => simpa [own, shape] using tame_memberCuts shape node_spaced
  refine (tame_list spaced rfl (marks_of_isDropped script symbols spans_eq) inner_tame).of_subset
    fun cut among => ?_
  rw [own_eq, helperCuts_eq plain] at among
  simp only [List.mem_append, List.mem_flatMap, Node.children] at among ⊢
  obtain (outside | ⟨node, member, inside⟩) | ⟨node, member, inside⟩ := among
  · exact .inl outside
  · exact .inr ⟨node, member, .inl inside⟩
  · exact .inr ⟨node, member, .inr inside⟩

theorem assignment?_eq_some {statement : Node} {assignment : PropertyAssignment}
    (found : assignment? statement = some assignment) :
    ∃ span assignmentSpan memberSpan isOptional,
      statement = .mk .expressionStatement span [.mk (.assignment "=") assignmentSpan
        [.mk (.member assignment.property isOptional) memberSpan [assignment.object],
          assignment.value]] ∧
      assignment.expression = .mk (.assignment "=") assignmentSpan
        [.mk (.member assignment.property isOptional) memberSpan [assignment.object],
          assignment.value] := by
  unfold assignment? at found
  split at found
  · obtain rfl := Option.some.inj found
    exact ⟨_, _, _, _, rfl, rfl⟩
  · simp at found

section Assigned

variable {statement : Node} {assignment : PropertyAssignment}

theorem value_spaced (spaced : statement.IsSpaced text)
    (found : assignment? statement = some assignment) : assignment.value.IsSpaced text := by
  obtain ⟨_, _, _, _, rfl, -⟩ := assignment?_eq_some found
  exact (spaced.child List.mem_cons_self).child (List.mem_cons_of_mem _ List.mem_cons_self)

theorem expression_mem_nodes (found : assignment? statement = some assignment) :
    assignment.expression ∈ statement.nodes := by
  obtain ⟨_, _, _, _, rfl, expression_eq⟩ := assignment?_eq_some found
  rw [expression_eq]
  exact mem_nodes.2 (.inr ⟨_, List.mem_cons_self, mem_nodes.2 (.inl rfl)⟩)

theorem value_mem_nodes (found : assignment? statement = some assignment) :
    assignment.value ∈ statement.nodes := by
  obtain ⟨_, _, _, _, rfl, -⟩ := assignment?_eq_some found
  have below : assignment.value ∈ assignment.value.nodes := mem_nodes.2 (.inl rfl)
  simp [Node.nodes, nodesOfList, below]

/-- A statement that assigns a list applies no decorators itself. -/
theorem plain_of_isList (found : assignment? statement = some assignment)
    (isList : assignment.value.kind.arrangement = .list) :
    appliedDecorators? script helper statement = none := by
  obtain ⟨_, _, _, _, rfl, -⟩ := assignment?_eq_some found
  cases applied : appliedDecorators? script helper _ with
  | none => rfl
  | some array =>
      obtain ⟨_, _, _, _, _, _, _, shape⟩ := appliedDecorators?_eq_some applied
      simp only [Node.mk.injEq, List.cons.injEq, and_true, true_and] at shape
      rw [shape.2.2.2] at isList
      simp [Node.kind, NodeKind.arrangement] at isList

/-- What is cut in an assigned list gets along with what is cut elsewhere in the statement. -/
theorem tame_assigned {cuts : List Span} (spaced : statement.IsSpaced text)
    (found : assignment? statement = some assignment) (isList : assignment.value.kind.arrangement = .list)
    (tame : Tame text assignment.value.span
      (cuts ++ helperCuts script symbols helper assignment.value)) :
    Tame text statement.span (cuts ++ helperCuts script symbols helper statement) := by
  have plain : appliedDecorators? script helper statement = none := plain_of_isList found isList
  obtain ⟨span, assignmentSpan, memberSpan, isOptional, rfl, -⟩ := assignment?_eq_some found
  obtain ⟨target_spaced, -, precede, target_within, value_within⟩ :=
    (spaced.child List.mem_cons_self).pair
  have expression_tame : Tame text assignmentSpan
      (helperCuts script symbols helper
          (.mk (.member assignment.property isOptional) memberSpan [assignment.object]) ++
        (cuts ++ helperCuts script symbols helper assignment.value)) :=
    tame_behind target_spaced precede tame target_within value_within
  refine (expression_tame.mono (spaced.fits.within _ List.mem_cons_self)).of_subset ?_
  have expression_plain : appliedDecorators? script helper (.mk (.assignment "=") assignmentSpan
      [.mk (.member assignment.property isOptional) memberSpan [assignment.object],
        assignment.value]) = none := rfl
  intro cut among
  rw [helperCuts_eq plain, Node.children, List.flatMap_singleton, helperCuts_eq expression_plain]
    at among
  simpa [Node.children, or_left_comm] using among

theorem inList_of_mem_decoratorCuts {cut : Span} (spaced : assignment.value.IsSpaced text)
    (member : cut ∈ (decoratorCuts script symbols statement assignment.value).elements) :
    InList assignment.value cut := by
  unfold decoratorCuts at member
  split at member
  · rename_i span elements value_eq
    rw [value_eq] at spaced ⊢
    split at member
    · contradiction
    · rename_i marked marks
      split at member
      · contradiction
      · exact inList_of_mem_cuts spaced rfl (marks_of_markedElements? marks) member
  · contradiction

theorem inList_of_mem_memberCuts {node : Node} {list : ListMember} {cut : Span}
    (listed : listMember? node = some list) (spaced : node.IsSpaced text)
    (member : cut ∈ memberCuts script symbols list) : InList node cut := by
  unfold listMember? at listed
  split at listed
  · rename_i form isComputed span key arraySpan elements
    obtain rfl := Option.some.inj listed
    have array_spaced := spaced.pair.2.1
    unfold memberCuts at member
    split at member
    · contradiction
    · rename_i marked marks
      split at member
      · contradiction
      · have held := inList_of_mem_cuts array_spaced rfl (marks_of_markedElements? marks) member
        exact held.of_child (List.mem_cons_of_mem _ List.mem_cons_self)
  · contradiction

theorem inList_of_mem_propertyDecoratorCuts {cut : Span} (spaced : assignment.value.IsSpaced text)
    (member : cut ∈ (propertyDecoratorCuts script symbols statement assignment.value).elements) :
    InList assignment.value cut := by
  unfold propertyDecoratorCuts at member
  split at member
  · rename_i span members value_eq
    rw [value_eq] at spaced ⊢
    split at member
    · contradiction
    · rename_i lists listed
      obtain ⟨each, spans_eq⟩ := members_of_mapM listed
      dsimp only at member
      split at member
      · contradiction
      · obtain outside | inside := List.mem_append.1 member
        · exact inList_of_mem_cuts spaced rfl (marks_of_isDropped script symbols spans_eq) outside
        · obtain ⟨list, among, held⟩ := List.mem_flatMap.1 inside
          have read : some list ∈ members.map listMember? := each ▸ List.mem_map_of_mem among
          obtain ⟨node, in_object, shape⟩ := List.mem_map.1 read
          exact (inList_of_mem_memberCuts shape (spaced.child in_object) held).of_child in_object
  · contradiction

theorem tame_decoratorCuts (spaced : statement.IsSpaced text)
    (found : assignment? statement = some assignment) :
    Tame text statement.span
      ((decoratorCuts script symbols statement assignment.value).elements ++
        helperCuts script symbols helper statement) := by
  have list_spaced := value_spaced spaced found
  unfold decoratorCuts
  split
  · rename_i span elements value_eq
    split
    · exact tame_helperCuts spaced
    · rename_i marked marks
      split
      · exact tame_helperCuts spaced
      · refine tame_assigned spaced found (by rw [value_eq]; rfl) ?_
        rw [value_eq] at list_spaced ⊢
        exact tame_array list_spaced (marks_of_markedElements? marks)
  · exact tame_helperCuts spaced

theorem tame_propertyDecoratorCuts (spaced : statement.IsSpaced text)
    (found : assignment? statement = some assignment) :
    Tame text statement.span
      ((propertyDecoratorCuts script symbols statement assignment.value).elements ++
        helperCuts script symbols helper statement) := by
  have list_spaced := value_spaced spaced found
  unfold propertyDecoratorCuts
  split
  · rename_i span members value_eq
    split
    · exact tame_helperCuts spaced
    · rename_i lists listed
      dsimp only
      split
      · exact tame_helperCuts spaced
      · refine tame_assigned spaced found (by rw [value_eq]; rfl) ?_
        rw [value_eq] at list_spaced ⊢
        exact tame_object list_spaced listed
  · exact tame_helperCuts spaced

theorem elements_constructorCuts (statement value : Node) (name : String) :
    (constructorCuts script statement name value).elements = [] := by
  unfold constructorCuts
  split
  · split <;> rfl
  · rfl

end Assigned

/-- What a statement is cut in, and what is cut inside its functions. -/
theorem tame_statementCuts {statement : Node} (spaced : statement.IsSpaced text) :
    Tame text statement.span ((statementCuts script symbols statement).elements ++
      helperCuts script symbols helper statement) := by
  unfold statementCuts
  split
  · exact tame_helperCuts spaced
  · rename_i assignment found
    split
    · exact tame_decoratorCuts spaced found
    · exact tame_propertyDecoratorCuts spaced found
    · rw [elements_constructorCuts]
      exact tame_helperCuts spaced
    · exact tame_helperCuts spaced

/-! ## All statements -/

/-- The elements that are cut in a statement and inside its functions. -/
def elementsOf (script : Script) (symbols : List Symbol) (statement : Node) : List Span :=
  (statementCuts script symbols statement).elements ++
    ((helper? script).map fun helper => helperCuts script symbols helper statement).getD []

theorem tame_elementsOf {statement : Node} (spaced : statement.IsSpaced text) :
    Tame text statement.span (elementsOf script symbols statement) := by
  unfold elementsOf
  cases helper? script with
  | some helper => exact tame_statementCuts spaced
  | none =>
      -- any symbol does as the helper, for its cuts are left out again
      have with_helper : Tame text statement.span
          ((statementCuts script symbols statement).elements ++
            helperCuts script symbols 0 statement) := tame_statementCuts spaced
      refine with_helper.of_subset fun cut member => ?_
      rw [Option.map_none, Option.getD_none, List.append_nil] at member
      exact List.mem_append_left _ member

/-- The elements that are cut lie in lists of the statement. -/
theorem inList_of_mem_elementsOf {statement : Node} {cut : Span} (spaced : statement.IsSpaced text)
    (member : cut ∈ elementsOf script symbols statement) : InList statement cut := by
  obtain own | applied := List.mem_append.1 member
  · unfold statementCuts at own
    split at own
    · contradiction
    · rename_i assignment found
      have list_spaced := value_spaced spaced found
      have below {cut : Span} (held : InList assignment.value cut) : InList statement cut :=
        held.mono fun _ listed => mem_nodes_trans listed (value_mem_nodes found)
      split at own
      · exact below (inList_of_mem_decoratorCuts list_spaced own)
      · exact below (inList_of_mem_propertyDecoratorCuts list_spaced own)
      · rw [elements_constructorCuts] at own
        contradiction
      · contradiction
  · cases known : helper? script with
    | none => simp [known] at applied
    | some helper =>
        rw [known] at applied
        exact inList_of_mem_helperCuts spaced applied

/-- Of an assignment either nothing is cut as a whole, or the statement. -/
theorem statements_decoratorCuts (statement value : Node) :
    (decoratorCuts script symbols statement value).statements = [] ∨
      (decoratorCuts script symbols statement value).statements =
        [statementGap script.text statement.span] := by
  unfold decoratorCuts
  split
  · split
    · exact .inl rfl
    · split
      · exact .inr rfl
      · exact .inl rfl
  · exact .inl rfl

theorem statements_propertyDecoratorCuts (statement value : Node) :
    (propertyDecoratorCuts script symbols statement value).statements = [] ∨
      (propertyDecoratorCuts script symbols statement value).statements =
        [statementGap script.text statement.span] := by
  unfold propertyDecoratorCuts
  split
  · split
    · exact .inl rfl
    · dsimp only
      split
      · exact .inr rfl
      · exact .inl rfl
  · exact .inl rfl

theorem statements_constructorCuts (statement value : Node) (name : String) :
    (constructorCuts script statement name value).statements = [] ∨
      (constructorCuts script statement name value).statements =
        [statementGap script.text statement.span] := by
  unfold constructorCuts
  split
  · split
    · exact .inl rfl
    · exact .inr rfl
  · exact .inl rfl

/-- Only assignments are cut as a whole. -/
theorem statements_statementCuts {statement : Node} {gap : Span}
    (member : gap ∈ (statementCuts script symbols statement).statements) :
    (assignment? statement).isSome ∧ gap = statementGap script.text statement.span := by
  have whole {gaps : List Span} (member : gap ∈ gaps)
      (either : gaps = [] ∨ gaps = [statementGap script.text statement.span]) :
      gap = statementGap script.text statement.span := by
    obtain rfl | rfl := either
    · contradiction
    · exact List.mem_singleton.1 member
  unfold statementCuts at member
  split at member
  · contradiction
  · rename_i assignment found
    refine ⟨by rw [found]; rfl, ?_⟩
    split at member
    · exact whole member (statements_decoratorCuts _ _)
    · exact whole member (statements_propertyDecoratorCuts _ _)
    · exact whole member (statements_constructorCuts _ _ _)
    · contradiction

theorem foldl_append (parts : List Cuts) (first : Cuts) :
    parts.foldl Cuts.append first =
      ⟨first.statements ++ parts.flatMap Cuts.statements,
        first.elements ++ parts.flatMap Cuts.elements⟩ := by
  induction parts generalizing first with
  | nil => simp
  | cons part rest ih => simp [ih, Cuts.append]

theorem statements_cuts (script : Script) (symbols : List Symbol) :
    (cuts script symbols).statements =
      script.program.body.flatMap fun statement =>
        (statementCuts script symbols statement).statements := by
  simp only [cuts, foldl_append, Cuts.none, List.nil_append, List.flatMap_map]
  cases helper? script with
  | none => simp
  | some helper => simp [Cuts.append, Cuts.inside]

theorem mem_statements_cuts {gap : Span} (member : gap ∈ (cuts script symbols).statements) :
    ∃ statement ∈ script.program.body, (assignment? statement).isSome ∧
      gap = statementGap script.text statement.span := by
  rw [statements_cuts] at member
  obtain ⟨statement, in_body, held⟩ := List.mem_flatMap.1 member
  exact ⟨statement, in_body, statements_statementCuts held⟩

theorem elements_cuts (script : Script) (symbols : List Symbol) :
    (cuts script symbols).elements =
      script.program.body.flatMap (fun statement => (statementCuts script symbols statement).elements) ++
        ((helper? script).map fun helper =>
          script.program.body.flatMap (helperCuts script symbols helper)).getD [] := by
  simp only [cuts, foldl_append, Cuts.none, List.nil_append, List.flatMap_map]
  cases helper? script with
  | none => simp
  | some helper => simp [Cuts.append, Cuts.inside, helperCutsOfList_eq]

theorem mem_elements_cuts {cut : Span} : cut ∈ (cuts script symbols).elements ↔
    ∃ statement ∈ script.program.body, cut ∈ elementsOf script symbols statement := by
  simp only [elements_cuts, elementsOf, List.mem_append]
  cases helper? script with
  | none => simp
  | some helper =>
      simp only [Option.map_some, Option.getD_some, List.mem_flatMap]
      constructor
      · rintro (⟨statement, listed, held⟩ | ⟨statement, listed, held⟩)
        · exact ⟨statement, listed, .inl held⟩
        · exact ⟨statement, listed, .inr held⟩
      · rintro ⟨statement, listed, own | applied⟩
        · exact .inl ⟨statement, listed, own⟩
        · exact .inr ⟨statement, listed, applied⟩

/-- Dropping metadata adds removals of what is cut only. -/
theorem mem_edits_record {cuts : Cuts} {revision : Revision} {edit : Edit}
    (member : edit ∈ (record cuts revision).edits) :
    edit ∈ revision.edits ∨ (∃ gap ∈ cuts.statements, edit = .remove gap) ∨
      ∃ cut ∈ cuts.elements, edit = .remove cut := by
  obtain before | element := Revision.mem_edits_foldl (fun cut edit => edit = .remove cut)
    (fun _ _ _ => Revision.mem_edits_cutOut) member
  · obtain before | whole := Revision.mem_edits_foldl (fun gap edit => edit = .remove gap)
      (fun _ _ _ => Revision.mem_edits_remove) before
    · exact .inl before
    · exact .inr (.inl whole)
  · exact .inr (.inr element)

/-- Elements take with them what is inserted on their bytes; whole statements leave it. -/
theorem textsAt_record {cuts : Cuts} {revision : Revision} {place : Nat} :
    (record cuts revision).textsAt place =
      if cuts.elements.any (·.holds place) then [] else revision.textsAt place := by
  have whole (statements : List Span) (revision : Revision) :
      (statements.foldl Revision.remove revision).textsAt place = revision.textsAt place := by
    induction statements generalizing revision with
    | nil => rfl
    | cons gap rest ih => rw [List.foldl_cons, ih, Revision.textsAt_remove]
  have parts (elements : List Span) (revision : Revision) :
      (elements.foldl Revision.cutOut revision).textsAt place =
        if elements.any (·.holds place) then [] else revision.textsAt place := by
    induction elements generalizing revision with
    | nil => rfl
    | cons cut rest ih =>
        rw [List.foldl_cons, ih, Revision.textsAt_cutOut, List.any_cons]
        cases cut.holds place <;> simp
  rw [record, parts, whole]

section Kept

variable {cuts : Cuts} {revision : Revision} {span : Span}

theorem remove_mem_foldl_cutOut (elements : List Span) (removed : .remove span ∈ revision.edits) :
    .remove span ∈ (elements.foldl Revision.cutOut revision).edits :=
  List.foldlRecOn (motive := fun kept : Revision => .remove span ∈ kept.edits) elements _ removed
    fun _ kept _ _ => Revision.mem_edits_cutOut_of_mem kept

/-- Every statement that is to be cut is removed. -/
theorem remove_mem_record_of_statement (member : span ∈ cuts.statements) (proper : span.isProper) :
    .remove span ∈ (record cuts revision).edits := by
  refine remove_mem_foldl_cutOut cuts.elements ?_
  obtain ⟨before, behind, statements_eq⟩ := List.append_of_mem member
  rw [statements_eq, List.foldl_append, List.foldl_cons]
  exact List.foldlRecOn (motive := fun kept : Revision => .remove span ∈ kept.edits) behind _
    (Revision.mem_edits_remove_self proper) fun _ kept _ _ =>
      Revision.mem_edits_remove_of_mem kept

/-- Every element that is to be cut is removed. -/
theorem remove_mem_record_of_element (member : span ∈ cuts.elements) (proper : span.isProper) :
    .remove span ∈ (record cuts revision).edits := by
  obtain ⟨before, behind, elements_eq⟩ := List.append_of_mem member
  rw [record, elements_eq, List.foldl_append, List.foldl_cons]
  exact remove_mem_foldl_cutOut behind (Revision.mem_edits_cutOut_self proper)

end Kept

end Metadata
end Shakedown
