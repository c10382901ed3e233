import Shakedown.Proofs.Edit.StatementGap
import Shakedown.Proofs.Pass.Metadata
import Shakedown.Proofs.Script.Program

/-!
# Recognized entries are dropped, and only those

An entry of a list is recognized when a name in it means exactly one declaration and that is one of the
given symbols. Every recognized entry lies in a cut that is recorded for its own list or statement, and
such cuts keep apart from all other entries.
-/

namespace Shakedown
namespace Metadata

open Node Text Span

variable {text : List Char} {script : Script} {symbols : List Symbol} {helper : Symbol}

/-! ## What is recognized -/

/-- The expression is a name that means exactly one declaration, and one of the symbols. -/
def NamesOne (script : Script) (symbols : List Symbol) (expression : Node) : Prop :=
  ∃ name span parts symbol, expression = .mk (.reference name) span parts ∧
    script.scoping.resolve span.start = .sole symbol ∧ symbol ∈ symbols

/-- The member of an object is `type` with a value, its name not computed. -/
def IsTypeMember (member value : Node) : Prop :=
  ∃ form span keySpan parts,
    member = .mk (.property form false) span [.mk (.propertyName "type") keySpan parts, value]

/-- The object has exactly one member `type`, and its value names one of the symbols. -/
def IsDescriptor (script : Script) (symbols : List Symbol) (entry : Node) : Prop :=
  ∃ span before member behind value, entry = .mk .object span (before ++ member :: behind) ∧
    IsTypeMember member value ∧
    (∀ other ∈ before ++ behind, ∀ value, ¬IsTypeMember other value) ∧
    NamesOne script symbols value

/-- The entry calls one of the symbols. -/
def CallsOne (script : Script) (symbols : List Symbol) (entry : Node) : Prop :=
  ∃ isOptional span callee inputs, entry = .mk (.call isOptional) span (callee :: inputs) ∧
    NamesOne script symbols callee

theorem sole?_eq_some_iff {scoping : Scoping} {offset : Nat} {symbol : Symbol} :
    scoping.sole? offset = some symbol ↔ scoping.resolve offset = .sole symbol := by
  unfold Scoping.sole?
  cases scoping.resolve offset <;> simp

theorem namesSymbol_iff {expression : Node} :
    Framework.namesSymbol script.scoping symbols expression ↔
      NamesOne script symbols expression := by
  constructor
  · intro names
    unfold Framework.namesSymbol at names
    split at names
    · rename_i name span parts
      obtain ⟨symbol, sole, listed⟩ := (Option.any_eq_true _ _).1 names
      exact ⟨name, span, parts, symbol, rfl, sole?_eq_some_iff.1 sole, by simpa using listed⟩
    · contradiction
  · rintro ⟨name, span, parts, symbol, rfl, resolved, listed⟩
    simp [Framework.namesSymbol, sole?_eq_some_iff.2 resolved, listed]

theorem typeValues_cons_of_isTypeMember {member value : Node} (isType : IsTypeMember member value)
    (rest : List Node) : typeValues (member :: rest) = value :: typeValues rest := by
  obtain ⟨form, span, keySpan, parts, rfl⟩ := isType
  rfl

theorem typeValues_cons_of_not {member : Node} (other : ∀ value, ¬IsTypeMember member value)
    (rest : List Node) : typeValues (member :: rest) = typeValues rest := by
  unfold typeValues
  apply List.filterMap_cons_none
  split
  · exact absurd ⟨_, _, _, _, rfl⟩ (other _)
  · rfl

theorem typeValues_eq_nil_iff {members : List Node} :
    typeValues members = [] ↔ ∀ member ∈ members, ∀ value, ¬IsTypeMember member value := by
  induction members with
  | nil => simp [typeValues]
  | cons member rest ih =>
      by_cases isType : ∃ value, IsTypeMember member value
      · obtain ⟨value, isType⟩ := isType
        rw [typeValues_cons_of_isTypeMember isType]
        constructor
        · exact fun none_left => absurd none_left (List.cons_ne_nil _ _)
        · exact fun none_listed => absurd isType (none_listed member List.mem_cons_self value)
      · have other : ∀ value, ¬IsTypeMember member value := not_exists.1 isType
        rw [typeValues_cons_of_not other, ih, List.forall_mem_cons]
        exact (and_iff_right other).symm

/-- One value is left when one member has a value of that name and no other has. -/
theorem typeValues_eq_singleton_iff {members : List Node} {value : Node} :
    typeValues members = [value] ↔ ∃ before member behind, members = before ++ member :: behind ∧
      IsTypeMember member value ∧
      ∀ other ∈ before ++ behind, ∀ value, ¬IsTypeMember other value := by
  constructor
  case mp =>
    intro values_eq
    induction members with
    | nil => contradiction
    | cons member rest ih =>
        by_cases isType : ∃ found, IsTypeMember member found
        · obtain ⟨found, isType⟩ := isType
          rw [typeValues_cons_of_isTypeMember isType] at values_eq
          obtain ⟨rfl, none_left⟩ := List.cons.inj values_eq
          exact ⟨[], member, rest, rfl, isType, typeValues_eq_nil_iff.1 none_left⟩
        · have other : ∀ value, ¬IsTypeMember member value := not_exists.1 isType
          rw [typeValues_cons_of_not other] at values_eq
          obtain ⟨before, found, behind, rfl, isType, others⟩ := ih values_eq
          exact ⟨member :: before, found, behind, rfl, isType, List.forall_mem_cons.2 ⟨other, others⟩⟩
  case mpr =>
    rintro ⟨before, member, behind, rfl, isType, others⟩
    induction before with
    | nil =>
        rw [List.nil_append] at others ⊢
        rw [typeValues_cons_of_isTypeMember isType, typeValues_eq_nil_iff.2 others]
    | cons other before ih =>
        obtain ⟨first, others⟩ := List.forall_mem_cons.1 others
        rw [List.cons_append, typeValues_cons_of_not first, ih others]

theorem describesDecorator_iff {entry : Node} :
    describesDecorator script symbols entry ↔ IsDescriptor script symbols entry := by
  constructor
  · intro describes
    unfold describesDecorator at describes
    split at describes
    · rename_i span members
      split at describes
      · rename_i value values_eq
        obtain ⟨before, member, behind, rfl, isType, others⟩ :=
          typeValues_eq_singleton_iff.1 values_eq
        exact ⟨span, before, member, behind, value, rfl, isType, others,
          namesSymbol_iff.1 describes⟩
      · contradiction
    · contradiction
  · rintro ⟨span, before, member, behind, value, rfl, isType, others, names⟩
    have values_eq := typeValues_eq_singleton_iff.2 ⟨before, member, behind, rfl, isType, others⟩
    simpa [describesDecorator, values_eq] using namesSymbol_iff.2 names

theorem callsDecorator_iff {entry : Node} :
    callsDecorator script symbols entry ↔ CallsOne script symbols entry := by
  constructor
  · intro calls
    unfold callsDecorator at calls
    split at calls
    · exact ⟨_, _, _, _, rfl, namesSymbol_iff.1 calls⟩
    · contradiction
  · rintro ⟨isOptional, span, callee, inputs, rfl, names⟩
    exact namesSymbol_iff.2 names

/-! ## Entries and what is recorded for them -/

/-- The ranges of all cuts. -/
def Cuts.ranges (cuts : Cuts) : List Span :=
  cuts.statements ++ cuts.elements

/-- The node belongs to the tree and to no statement above it that applies decorators. -/
inductive IsReached (script : Script) (helper : Symbol) (inner : Node) : Node → Prop
  /-- A tree is reached itself. -/
  | here : IsReached script helper inner inner
  /-- What is reached in a child is reached in a tree that applies no decorators. -/
  | child {outer child : Node} : appliedDecorators? script helper outer = none →
      child ∈ outer.children → IsReached script helper inner child →
      IsReached script helper inner outer

/-- An entry of a list that is handled, with what recognizes it and the cuts for its own list and
statement. -/
inductive IsEntry (script : Script) (symbols : List Symbol) :
    (entry : Node) → (recognized : Prop) → (own : List Span) → Prop
  /-- An entry of a list `X.decorators = […]` of objects. -/
  | decorators {statement entry : Node} {assignment : PropertyAssignment} {span : Span}
      {elements : List Node} :
      statement ∈ script.program.body → assignment? statement = some assignment →
      assignment.property = "decorators" → assignment.value = .mk .array span elements →
      elements.all isObject → entry ∈ elements →
      IsEntry script symbols entry (IsDescriptor script symbols entry)
        (statementCuts script symbols statement).ranges
  /-- An entry of a member of `X.propDecorators = {…}`, where all members are arrays and this one
  holds objects only. -/
  | member {statement entry : Node} {assignment : PropertyAssignment} {span : Span}
      {members : List Node} {lists : List ListMember} {list : ListMember} :
      statement ∈ script.program.body → assignment? statement = some assignment →
      assignment.property = "propDecorators" → assignment.value = .mk .object span members →
      members.mapM listMember? = some lists → list ∈ lists → list.elements.all isObject →
      entry ∈ list.elements →
      IsEntry script symbols entry (IsDescriptor script symbols entry)
        (statementCuts script symbols statement).ranges
  /-- An entry of the list of a statement that applies decorators. -/
  | applied {statement node entry : Node} {helper : Symbol} {span : Span} {elements : List Node} :
      statement ∈ script.program.body → helper? script = some helper →
      IsReached script helper node statement →
      appliedDecorators? script helper node = some (span, elements) → entry ∈ elements →
      IsEntry script symbols entry (CallsOne script symbols entry)
        (appliedCuts script symbols span elements)

/-- The cuts that belong to an entry take it exactly when it is recognized. -/
structure TakesIff (recognized : Prop) (entry : Span) (own : List Span) : Prop where
  /-- The entry is no empty range. -/
  proper : entry.isProper
  /-- The entry lies in one of the cuts when it is recognized, and only then. -/
  taken_iff : (∃ cut ∈ own, cut.covers entry) ↔ recognized
  /-- An entry that is not recognized is apart from all of them. -/
  apart : ¬recognized → ∀ cut ∈ own, cut.isApart entry

namespace TakesIff

variable {recognized : Prop} {entry : Span} {own : List Span}

/-- A range that is not empty is taken by the cuts that cover it and not by those apart from it. -/
theorem intro (proper : entry.isProper) (taken : recognized → ∃ cut ∈ own, cut.covers entry)
    (apart : ¬recognized → ∀ cut ∈ own, cut.isApart entry) : TakesIff recognized entry own where
  proper := proper
  taken_iff := by
    constructor
    · rintro ⟨cut, among, inside⟩
      apply Classical.byContradiction
      intro unrecognized
      have held := holds_start proper
      exact not_isApart_of_holds (holds_of_covers inside held) held (apart unrecognized cut among)
    · exact taken
  apart := apart

end TakesIff

theorem mem_nodes_of_child {kind : NodeKind} {span : Span} {children : List Node} {child : Node}
    (listed : child ∈ children) : child ∈ (Node.mk kind span children).nodes := by
  have below : child ∈ child.nodes := mem_nodes.2 (.inl rfl)
  exact mem_nodes.2 (.inr ⟨child, listed, below⟩)

section Lists

variable {list entry : Node} {recognized : Node → Bool}

/-- In one list the cuts take what is marked. -/
theorem takesIff_list (spaced : list.IsSpaced text) (isList : list.kind.arrangement = .list)
    (listed : entry ∈ list.children) :
    TakesIff (recognized entry = true) entry.span
      (CommaList.cuts (list.children.map fun element => (element.span, recognized element))
        (CommaList.inside list.span)) := by
  have marks : (list.children.map fun element => (element.span, recognized element)).map (·.1) =
      list.children.map Node.span := by
    rw [List.map_map]
    rfl
  have separates := separates_list spaced isList marks
  have member : (entry.span, recognized entry) ∈
      list.children.map fun element => (element.span, recognized element) :=
    List.mem_map_of_mem listed
  apply TakesIff.intro (isProper_iff.2 (spaced.child listed).proper)
  · exact separates.removed _ member
  · intro unrecognized
    exact separates.kept _ member (Bool.eq_false_iff.2 unrecognized)

end Lists

/-! ## Assigned lists -/

section Assigned

variable {statement entry : Node} {assignment : PropertyAssignment} {span : Span}

theorem statementCuts_decorators (found : assignment? statement = some assignment)
    (named : assignment.property = "decorators") :
    statementCuts script symbols statement =
      decoratorCuts script symbols statement assignment.value := by
  simp [statementCuts, found, named]

theorem statementCuts_propDecorators (found : assignment? statement = some assignment)
    (named : assignment.property = "propDecorators") :
    statementCuts script symbols statement =
      propertyDecoratorCuts script symbols statement assignment.value := by
  simp [statementCuts, found, named]

/-- A statement that is cut as a whole takes along every entry in it. -/
theorem takesIff_statement {recognized : Prop} (spaced : statement.IsSpaced script.text.toList)
    (below : entry ∈ statement.nodes) (is_recognized : recognized) :
    TakesIff recognized entry.span (Cuts.statement script statement).ranges := by
  have surrounds := surrounds_statementGap spaced.fits.framed
  have inside := covers_trans surrounds.covers (spaced.covers below)
  apply TakesIff.intro (isProper_iff.2 (spaced.below below).proper)
  · exact fun _ => ⟨_, List.mem_singleton_self _, inside⟩
  · exact fun unrecognized => absurd is_recognized unrecognized

theorem takesIff_decorators {elements : List Node} (spaced : statement.IsSpaced script.text.toList)
    (found : assignment? statement = some assignment)
    (value_eq : assignment.value = .mk .array span elements) (objects : elements.all isObject)
    (listed : entry ∈ elements) :
    TakesIff (IsDescriptor script symbols entry) entry.span
      (decoratorCuts script symbols statement assignment.value).ranges := by
  have list_spaced := value_spaced spaced found
  have below := value_mem_nodes found
  rw [value_eq] at list_spaced below ⊢
  rw [← describesDecorator_iff, decoratorCuts, markedElements?, if_pos objects]
  dsimp only
  split
  · rename_i all_marked
    have entry_below : entry ∈ statement.nodes := mem_nodes_trans (mem_nodes_of_child listed) below
    have marked : describesDecorator script symbols entry = true := by
      simpa using List.all_eq_true.1 all_marked _ (List.mem_map_of_mem listed)
    exact takesIff_statement spaced entry_below marked
  · exact takesIff_list list_spaced rfl listed

/-! ### Lists in the members of an object -/

theorem listMember?_eq_some {node : Node} {list : ListMember} (listed : listMember? node = some list) :
    ∃ form isComputed key, node = .mk (.property form isComputed) list.span
      [key, .mk .array list.arraySpan list.elements] := by
  unfold listMember? at listed
  split at listed
  · obtain rfl := Option.some.inj listed
    exact ⟨_, _, _, rfl⟩
  · contradiction

variable {list : ListMember}

theorem isDropped_iff (objects : list.elements.all isObject) :
    isDropped script symbols list ↔
      ∀ element ∈ list.elements, describesDecorator script symbols element = true := by
  simp [isDropped, markedElements?, objects]

/-- A member of an object that is an array, with the array and its elements in the tree. -/
theorem exists_node_of_mem {members : List Node} {lists : List ListMember}
    (listed : members.mapM listMember? = some lists) (among : list ∈ lists) :
    ∃ node ∈ members, listMember? node = some list := by
  have read : some list ∈ members.map listMember? :=
    (members_of_mapM listed).1 ▸ List.mem_map_of_mem among
  exact List.mem_map.1 read

/-- What is cut in a member lies in it. -/
theorem covers_of_mem_memberCuts {node : Node} {cut : Span} (spaced : node.IsSpaced text)
    (listed : listMember? node = some list) (member : cut ∈ memberCuts script symbols list) :
    list.span.covers cut := by
  obtain ⟨array, below, -, inside⟩ := inList_of_mem_memberCuts listed spaced member
  rw [listMember?_span listed]
  exact covers_trans (spaced.covers below) (covers_iff.2 (by omega))

/-- The members of an object are the same or one behind the other. -/
theorem eq_or_apart_of_mapM {members : List Node} {lists : List ListMember} {other : ListMember}
    (spaced : (Node.mk .object span members).IsSpaced text)
    (listed : members.mapM listMember? = some lists) (among : list ∈ lists)
    (also_among : other ∈ lists) : other = list ∨ other.span.isApart list.span := by
  obtain ⟨node, in_object, shape⟩ := exists_node_of_mem listed among
  obtain ⟨other_node, also_in_object, other_shape⟩ := exists_node_of_mem listed also_among
  have row := spaced.inRow (by simp [NodeKind.arrangement])
  obtain rfl | apart := row.eq_or_apart also_in_object in_object
  · exact .inl (Option.some.inj (other_shape.symm.trans shape))
  · rw [listMember?_span shape, listMember?_span other_shape]
    exact .inr (isApart_iff.2 apart)

/-- In a member that is not dropped as a whole, its own cuts take what is marked. -/
theorem takesIff_memberCuts {node : Node} (spaced : node.IsSpaced text)
    (shape : listMember? node = some list) (objects : list.elements.all isObject)
    (kept : isDropped script symbols list = false) (listed : entry ∈ list.elements) :
    TakesIff (describesDecorator script symbols entry = true) entry.span
      (memberCuts script symbols list) := by
  obtain ⟨form, isComputed, key, rfl⟩ := listMember?_eq_some shape
  have array_spaced := spaced.pair.2.1
  unfold isDropped at kept
  unfold memberCuts
  rw [markedElements?, if_pos objects] at kept ⊢
  rw [Option.any_some] at kept
  dsimp only
  rw [kept, if_neg Bool.false_ne_true]
  exact takesIff_list array_spaced rfl listed

theorem takesIff_propDecorators {members : List Node} {lists : List ListMember}
    (spaced : statement.IsSpaced script.text.toList)
    (found : assignment? statement = some assignment)
    (value_eq : assignment.value = .mk .object span members)
    (lists_eq : members.mapM listMember? = some lists) (among : list ∈ lists)
    (objects : list.elements.all isObject) (listed : entry ∈ list.elements) :
    TakesIff (IsDescriptor script symbols entry) entry.span
      (propertyDecoratorCuts script symbols statement assignment.value).ranges := by
  have object_spaced := value_spaced spaced found
  have object_below := value_mem_nodes found
  rw [value_eq] at object_spaced object_below ⊢
  obtain ⟨node, in_object, shape⟩ := exists_node_of_mem lists_eq among
  have node_spaced : node.IsSpaced script.text.toList := object_spaced.child in_object
  have entry_below : entry ∈ node.nodes := by
    obtain ⟨form, isComputed, key, rfl⟩ := listMember?_eq_some shape
    exact mem_nodes_trans (mem_nodes_of_child listed)
      (mem_nodes_of_child (List.mem_cons_of_mem _ List.mem_cons_self))
  have inside : list.span.covers entry.span := listMember?_span shape ▸ node_spaced.covers entry_below
  have proper : entry.span.isProper := isProper_iff.2 (node_spaced.below entry_below).proper
  rw [← describesDecorator_iff, propertyDecoratorCuts, lists_eq]
  dsimp only
  split
  case isTrue all_dropped =>
    have dropped : isDropped script symbols list = true := by
      simpa using List.all_eq_true.1 all_dropped _ (List.mem_map_of_mem among)
    have below := mem_nodes_trans entry_below (mem_nodes_trans (mem_nodes_of_child in_object) object_below)
    exact takesIff_statement spaced below ((isDropped_iff objects).1 dropped entry listed)
  case isFalse =>
    have separates := separates_list object_spaced rfl
      (marks_of_isDropped script symbols (members_of_mapM lists_eq).2)
    have member : (list.span, isDropped script symbols list) ∈
        lists.map fun member => (member.span, isDropped script symbols member) :=
      List.mem_map_of_mem among
    rw [Cuts.ranges, Cuts.inside, List.nil_append]
    cases dropped : isDropped script symbols list with
    | true =>
        apply TakesIff.intro proper
        · intro _
          obtain ⟨cut, held, outside⟩ := separates.removed _ member dropped
          exact ⟨cut, List.mem_append_left _ held, covers_trans outside inside⟩
        · exact fun unmarked => absurd ((isDropped_iff objects).1 dropped entry listed) unmarked
    | false =>
        have own := takesIff_memberCuts node_spaced shape objects dropped listed
        apply TakesIff.intro proper
        · intro marked
          obtain ⟨cut, held, outside⟩ := own.taken_iff.2 marked
          exact ⟨cut, List.mem_append_right _ (List.mem_flatMap.2 ⟨list, among, held⟩), outside⟩
        · intro unmarked cut held
          obtain held | held := List.mem_append.1 held
          · exact isApart_of_covers (separates.kept _ member dropped cut held) inside
          obtain ⟨other, also_among, held⟩ := List.mem_flatMap.1 held
          obtain rfl | apart := eq_or_apart_of_mapM object_spaced lists_eq among also_among
          · exact own.apart unmarked cut held
          -- the cuts of another member stay in that member
          obtain ⟨other_node, also_in_object, other_shape⟩ := exists_node_of_mem lists_eq also_among
          have other_spaced := object_spaced.child also_in_object
          have other_inside := covers_of_mem_memberCuts other_spaced other_shape held
          rw [isApart_comm] at apart
          have cut_apart := isApart_of_covers apart other_inside
          rw [isApart_comm] at cut_apart
          exact isApart_of_covers cut_apart inside

end Assigned

/-! ## Applied lists -/

section Applied

variable {node entry outer : Node} {span : Span} {elements : List Node}

theorem IsReached.mem_nodes (reached : IsReached script helper node outer) : node ∈ outer.nodes := by
  induction reached with
  | here => exact Node.mem_nodes.2 (.inl rfl)
  | child _ listed _ ih => exact Node.mem_nodes.2 (.inr ⟨_, listed, ih⟩)

/-- A statement that is reached has its cuts among those of the tree. -/
theorem IsReached.appliedCuts_subset (reached : IsReached script helper node outer)
    (applied : appliedDecorators? script helper node = some (span, elements)) {cut : Span}
    (member : cut ∈ appliedCuts script symbols span elements) :
    cut ∈ helperCuts script symbols helper outer := by
  induction reached with
  | here =>
      obtain ⟨kind, nodeSpan, children⟩ := node
      rw [helperCuts, applied]
      exact member
  | child plain listed _ ih =>
      rw [helperCuts_eq plain]
      exact List.mem_flatMap.2 ⟨_, listed, ih⟩

theorem takesIff_applied (spaced : (Node.mk .array span elements).IsSpaced text)
    (listed : entry ∈ elements) :
    TakesIff (CallsOne script symbols entry) entry.span
      (appliedCuts script symbols span elements) := by
  rw [← callsDecorator_iff]
  simp only [appliedCuts]
  split
  case isTrue => exact takesIff_list spaced rfl listed
  case isFalse none_marked =>
    have unmarked : ¬callsDecorator script symbols entry = true := by
      intro marked
      exact none_marked (List.any_eq_true.2 ⟨_, List.mem_map_of_mem listed, marked⟩)
    have proper := (spaced.below (mem_nodes_of_child listed)).proper
    apply TakesIff.intro (isProper_iff.2 proper)
    · exact fun marked => absurd marked unmarked
    · intro _ cut member
      contradiction

end Applied

/-! ## Every handled list -/

section Entries

variable {entry : Node} {recognized : Prop} {own : List Span}

/-- The cuts of a statement are among all cuts. -/
theorem ranges_statementCuts_subset {statement : Node} (in_body : statement ∈ script.program.body)
    {cut : Span} (member : cut ∈ (statementCuts script symbols statement).ranges) :
    cut ∈ (cuts script symbols).ranges := by
  obtain whole | element := List.mem_append.1 member
  · apply List.mem_append_left
    rw [statements_cuts]
    exact List.mem_flatMap.2 ⟨statement, in_body, whole⟩
  · apply List.mem_append_right
    exact mem_elements_cuts.2 ⟨statement, in_body, List.mem_append_left _ element⟩

/-- What belongs to an entry is among all cuts. -/
theorem IsEntry.own_subset (isEntry : IsEntry script symbols entry recognized own) {cut : Span}
    (member : cut ∈ own) : cut ∈ (cuts script symbols).ranges := by
  cases isEntry with
  | decorators in_body => exact ranges_statementCuts_subset in_body member
  | member in_body => exact ranges_statementCuts_subset in_body member
  | @applied statement node entry helper span elements in_body known reached applied =>
      apply List.mem_append_right
      refine mem_elements_cuts.2 ⟨statement, in_body, List.mem_append_right _ ?_⟩
      rw [known]
      exact reached.appliedCuts_subset applied member

theorem takesIff_of_isEntry (isEntry : IsEntry script symbols entry recognized own)
    (spaced : ∀ statement ∈ script.program.body, statement.IsSpaced script.text.toList) :
    TakesIff recognized entry.span own := by
  cases isEntry with
  | decorators in_body found named value_eq objects listed =>
      rw [statementCuts_decorators found named]
      exact takesIff_decorators (spaced _ in_body) found value_eq objects listed
  | member in_body found named value_eq lists_eq among objects listed =>
      rw [statementCuts_propDecorators found named]
      exact takesIff_propDecorators (spaced _ in_body) found value_eq lists_eq among objects listed
  | applied in_body known reached applied listed =>
      have below := mem_nodes_trans (mem_nodes_of_applied applied) reached.mem_nodes
      exact takesIff_applied ((spaced _ in_body).below below) listed

/-- Every cut that is no empty range is recorded. -/
theorem remove_mem_record {cut : Span} (revision : Revision)
    (member : cut ∈ (cuts script symbols).ranges) (proper : cut.isProper) :
    .remove cut ∈ (record (cuts script symbols) revision).edits := by
  obtain whole | element := List.mem_append.1 member
  · exact remove_mem_record_of_statement whole proper
  · exact remove_mem_record_of_element element proper

end Entries

/-- Whatever text is read and whichever symbols are given, an entry of a handled list lies in a cut
that is recorded for its list or statement exactly when it is recognized, and one that is not
recognized is apart from all these cuts. -/
theorem removed_iff_recognized {text file : String} {script : Script}
    (read : Script.read text file = .ok script) {symbols : List Symbol} (revision : Revision)
    {entry : Node} {recognized : Prop} {own : List Span}
    (isEntry : IsEntry script symbols entry recognized own) :
    ((∃ cut ∈ own, .remove cut ∈ (record (cuts script symbols) revision).edits ∧
        cut.covers entry.span) ↔ recognized) ∧
      (¬recognized → ∀ cut ∈ own, cut.isApart entry.span) := by
  have row := (Script.isSpaced_of_read read).row
  have takes := takesIff_of_isEntry isEntry row.spaced
  constructor
  case right => exact takes.apart
  case left =>
    rw [← takes.taken_iff]
    constructor
    · rintro ⟨cut, among, -, inside⟩
      exact ⟨cut, among, inside⟩
    · rintro ⟨cut, among, inside⟩
      have proper : cut.isProper :=
        isProper_of_holds (holds_of_covers inside (holds_start takes.proper))
      exact ⟨cut, among, remove_mem_record revision (isEntry.own_subset among) proper, inside⟩

theorem isObject_iff {node : Node} :
    isObject node ↔ ∃ span members, node = .mk .object span members := by
  obtain ⟨kind, span, members⟩ := node
  cases kind <;> simp [isObject, Node.kind]

/-- Two members, of which one keeps an entry. -/
def partlyDropped : String :=
  "import{Input}from'@angular/core';C.propDecorators={a:[{type:Input},{type:O}],b:[{type:Input}]};"

/-- The first entry is cut together with the comma behind it, and the second one stays. -/
theorem removed_iff_recognized_partlyDropped : ∃ script statement first second,
    Script.read partlyDropped "c.js" = .ok script ∧
    first.span = ⟨54, 66⟩ ∧ second.span = ⟨67, 75⟩ ∧
    (statementCuts script (Framework.symbols script) statement).ranges = [⟨76, 93⟩, ⟨54, 67⟩] ∧
    IsDescriptor script (Framework.symbols script) first ∧
    ¬IsDescriptor script (Framework.symbols script) second ∧
    (∃ cut ∈ (statementCuts script (Framework.symbols script) statement).ranges,
      .remove cut ∈ (record (cuts script (Framework.symbols script)) Revision.empty).edits ∧
        cut.covers first.span) ∧
    ∀ cut ∈ (statementCuts script (Framework.symbols script) statement).ranges,
      cut.isApart second.span := by
  have found : ((Script.read partlyDropped "c.js").toOption.map fun script =>
      script.program.body.any fun statement => (assignment? statement).any fun assignment =>
        (statementCuts script (Framework.symbols script) statement).ranges ==
            [⟨76, 93⟩, ⟨54, 67⟩] &&
          assignment.property == "propDecorators" && isObject assignment.value &&
          (assignment.value.children.mapM listMember?).any fun lists => lists.any fun list =>
            list.elements.all isObject &&
              (list.elements.any fun first => first.span == ⟨54, 66⟩ &&
                describesDecorator script (Framework.symbols script) first) &&
              list.elements.any fun second => second.span == ⟨67, 75⟩ &&
                !describesDecorator script (Framework.symbols script) second) = some true := by
    decide +kernel
  obtain ⟨script, read, found⟩ := Option.map_eq_some_iff.1 found
  simp only [Option.any_eq_true, List.any_eq_true, Bool.and_eq_true, beq_iff_eq, Bool.not_eq_true']
    at found
  obtain ⟨statement, in_body, assignment, assigned, ⟨⟨ranges_eq, named⟩, object⟩, lists, lists_eq,
    list, among, ⟨objects, first, is_first, first_span, marked⟩, second, is_second, second_span,
    unmarked⟩ := found
  obtain ⟨span, members, value_eq⟩ := isObject_iff.1 object
  rw [value_eq] at lists_eq
  have entries : ∀ entry ∈ list.elements, IsEntry script (Framework.symbols script) entry
      (IsDescriptor script (Framework.symbols script) entry)
      (statementCuts script (Framework.symbols script) statement).ranges :=
    fun entry => .member in_body assigned named value_eq lists_eq among objects
  have read := Except.eq_ok_of_toOption read
  have recognized := describesDecorator_iff.1 marked
  have unrecognized : ¬IsDescriptor script (Framework.symbols script) second :=
    fun descriptor => by simp [describesDecorator_iff.2 descriptor] at unmarked
  refine ⟨script, statement, first, second, read, first_span, second_span, ranges_eq, recognized,
    unrecognized, ?_, ?_⟩
  · exact (removed_iff_recognized read Revision.empty (entries first is_first)).1.2 recognized
  · exact (removed_iff_recognized read Revision.empty (entries second is_second)).2 unrecognized

end Metadata
end Shakedown
