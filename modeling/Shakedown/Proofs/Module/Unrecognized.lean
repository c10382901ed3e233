import Shakedown.Proofs.Module.Tidiness
import Shakedown.Proofs.Pass.Recognition

/-!
# Metadata that nothing recognizes

In a script without decorators of the framework no entry of a list is recognized. The functions
that are assigned to `ctorParameters` go all the same, and so does a list that holds nothing, for all
that it holds is recognized. All other statements stay as they are.
-/

namespace Shakedown

namespace CommaList

theorem runCuts_of_unmarked {items : List (Span × Bool)} (unmarked : ∀ item ∈ items, item.2 = false)
    (keptStop : Nat) : runCuts keptStop none items = [] := by
  induction items generalizing keptStop with
  | nil => rfl
  | cons item rest ih =>
      obtain ⟨span, marked⟩ := item
      obtain ⟨rfl, rest_unmarked⟩ := List.forall_mem_cons.1 unmarked
      rw [runCuts, ih rest_unmarked]

/-- Where nothing is marked, nothing is cut. -/
theorem cuts_of_unmarked {items : List (Span × Bool)} (unmarked : ∀ item ∈ items, item.2 = false)
    (inner : Span) : cuts items inner = [] := by
  cases items with
  | nil => rfl
  | cons item rest =>
      have first := unmarked item List.mem_cons_self
      rw [cuts, List.all_cons, first, Bool.false_and, Bool.and_false, if_neg Bool.false_ne_true]
      exact runCuts_of_unmarked unmarked _

end CommaList

namespace Metadata

open Node Text Span Optimize

/-- The statement assigns these lists of descriptions. -/
inductive Assigns (statement : Node) : List (List Node) → Prop
  /-- One list in `X.decorators = […]`. -/
  | decorators {assignment : PropertyAssignment} {span : Span} {elements : List Node}
      (found : assignment? statement = some assignment) (named : assignment.property = "decorators")
      (value_eq : assignment.value = .mk .array span elements) : Assigns statement [elements]
  /-- A list for each member in `X.propDecorators = {…}`, where all members are arrays. -/
  | propDecorators {assignment : PropertyAssignment} {span : Span} {members : List Node}
      {lists : List ListMember} (found : assignment? statement = some assignment)
      (named : assignment.property = "propDecorators")
      (value_eq : assignment.value = .mk .object span members)
      (lists_eq : members.mapM listMember? = some lists) :
      Assigns statement (lists.map (·.elements))

/-- The statement assigns the function that tells what a constructor takes, to a class that does not
keep it. -/
def AssignsConstructor (statement : Node) : Prop :=
  ∃ assignment isAsync isGenerator, assignment? statement = some assignment ∧
    assignment.property = "ctorParameters" ∧
    assignment.value.kind = .function .expression isAsync isGenerator ∧
    assignment.name ∉ keptClasses

/-- The range is cut for the statement though nothing in it is recognized. -/
inductive CutsAnyway (script : Script) (statement : Node) (cut : Span) : Prop
  /-- The statement goes with what it says of a constructor. -/
  | constructor (assigns : AssignsConstructor statement)
      (whole : cut = statementGap script.text statement.span)
  /-- The statement goes, for its lists hold nothing at all. -/
  | nothing {lists : List (List Node)} (assigns : Assigns statement lists)
      (empty : ∀ list ∈ lists, list = []) (whole : cut = statementGap script.text statement.span)
  /-- A member goes, for its list holds nothing. -/
  | member {lists : List (List Node)} (assigns : Assigns statement lists) (empty : [] ∈ lists)
      (inside : statement.span.covers cut)

variable {script : Script} {statement : Node} {cut : Span}

/-! ## Nothing is recognized -/

theorem namesSymbol_nil (scoping : Scoping) (expression : Node) :
    Framework.namesSymbol scoping [] expression = false := by
  unfold Framework.namesSymbol
  split
  · cases scoping.sole? _ <;> rfl
  · rfl

theorem describesDecorator_nil (entry : Node) : describesDecorator script [] entry = false := by
  unfold describesDecorator
  split
  · split
    · exact namesSymbol_nil _ _
    · rfl
  · rfl

theorem callsDecorator_nil (entry : Node) : callsDecorator script [] entry = false := by
  unfold callsDecorator
  split
  · exact namesSymbol_nil _ _
  · rfl

theorem unmarked_of_markedElements? {elements : List Node} {marked : List (Span × Bool)}
    (found : markedElements? script [] elements = some marked) : ∀ item ∈ marked, item.2 = false := by
  unfold markedElements? at found
  split at found
  · obtain rfl := Option.some.inj found
    exact List.forall_mem_map.2 fun element _ => describesDecorator_nil element
  · contradiction

/-- All of a list is recognized when it holds nothing. -/
theorem all_marked_iff {elements : List Node} {marked : List (Span × Bool)}
    (found : markedElements? script [] elements = some marked) :
    marked.all (·.2) ↔ elements = [] := by
  have unmarked := unmarked_of_markedElements? found
  have spans_eq := congrArg List.length (marks_of_markedElements? found)
  rw [List.length_map, List.length_map] at spans_eq
  rw [← List.length_eq_zero_iff, ← spans_eq, List.length_eq_zero_iff]
  cases marked with
  | nil => simp
  | cons item rest => simp [unmarked item List.mem_cons_self]

theorem isDropped_nil_iff {list : ListMember} :
    isDropped script [] list ↔ list.elements = [] := by
  rw [isDropped, Option.any_eq_true]
  constructor
  · rintro ⟨marked, found, all_marked⟩
    exact (all_marked_iff found).1 all_marked
  · intro empty
    exact ⟨[], by rw [empty]; rfl, rfl⟩

theorem memberCuts_nil (list : ListMember) : memberCuts script [] list = [] := by
  unfold memberCuts
  split
  · rfl
  · rename_i marked found
    split
    · rfl
    · exact CommaList.cuts_of_unmarked (unmarked_of_markedElements? found) _

theorem appliedCuts_nil (span : Span) (elements : List Node) :
    appliedCuts script [] span elements = [] := by
  simp [appliedCuts, callsDecorator_nil]

/-- No call of the helper loses an element. -/
theorem helperCuts_nil (helper : Symbol) (node : Node) : helperCuts script [] helper node = [] := by
  induction node using Node.induction with
  | step kind span children ih =>
      cases applied : appliedDecorators? script helper (.mk kind span children) with
      | none => rw [helperCuts_eq applied]; exact List.flatMap_eq_nil_iff.2 ih
      | some found => rw [helperCuts, applied]; exact appliedCuts_nil _ _

/-! ## What is cut all the same -/

theorem InList.covers {text : List Char} {node : Node} (held : InList node cut)
    (spaced : node.IsSpaced text) : node.span.covers cut := by
  obtain ⟨list, listed, -, inside⟩ := held
  exact covers_trans (spaced.covers listed) (covers_iff.2 (by omega))

section Statement

variable {assignment : PropertyAssignment} (found : assignment? statement = some assignment)

include found

theorem cutsAnyway_decoratorCuts (named : assignment.property = "decorators")
    (member : cut ∈ (decoratorCuts script [] statement assignment.value).ranges) :
    CutsAnyway script statement cut := by
  unfold decoratorCuts at member
  split at member
  · rename_i value_eq
    split at member
    · contradiction
    · rename_i elements marked marks
      split at member
      · rename_i all_marked
        obtain rfl := (all_marked_iff marks).1 all_marked
        exact .nothing (.decorators found named value_eq) (by simp) (List.mem_singleton.1 member)
      · rw [CommaList.cuts_of_unmarked (unmarked_of_markedElements? marks)] at member
        contradiction
  · contradiction

theorem cutsAnyway_propertyDecoratorCuts (spaced : statement.IsSpaced script.text.toList)
    (named : assignment.property = "propDecorators")
    (member : cut ∈ (propertyDecoratorCuts script [] statement assignment.value).ranges) :
    CutsAnyway script statement cut := by
  have inside (element : cut ∈
      (propertyDecoratorCuts script [] statement assignment.value).elements) :
      statement.span.covers cut := by
    have below := (inList_of_mem_propertyDecoratorCuts (value_spaced spaced found) element).mono
      fun _ listed => mem_nodes_trans listed (value_mem_nodes found)
    exact below.covers spaced
  unfold propertyDecoratorCuts at member
  split at member
  · rename_i value_eq
    split at member
    · contradiction
    · rename_i span members lists lists_eq
      have assigns : Assigns statement (lists.map (·.elements)) :=
        .propDecorators found named value_eq lists_eq
      dsimp only at member
      split at member
      · rename_i all_dropped
        refine .nothing assigns (List.forall_mem_map.2 fun list among => ?_)
          (List.mem_singleton.1 member)
        have dropped := List.all_eq_true.1 all_dropped _ (List.mem_map_of_mem among)
        exact isDropped_nil_iff.1 dropped
      · have none_inside : lists.flatMap (memberCuts script []) = [] :=
          List.flatMap_eq_nil_iff.2 fun list _ => memberCuts_nil list
        rename_i some_kept
        have element : cut ∈
            (propertyDecoratorCuts script [] statement assignment.value).elements := by
          simp only [propertyDecoratorCuts, value_eq, lists_eq, if_neg some_kept]
          exact member
        refine .member assigns (Classical.byContradiction fun all_filled => ?_) (inside element)
        have unmarked : ∀ item ∈ lists.map fun list => (list.span, isDropped script [] list),
            item.2 = false := by
          refine List.forall_mem_map.2 fun list among => Bool.eq_false_iff.2 fun dropped => ?_
          exact all_filled (List.mem_map.2 ⟨list, among, isDropped_nil_iff.1 dropped⟩)
        rw [none_inside, CommaList.cuts_of_unmarked unmarked] at member
        contradiction
  · contradiction

theorem cutsAnyway_constructorCuts (named : assignment.property = "ctorParameters")
    (member : cut ∈ (constructorCuts script statement assignment.name assignment.value).ranges) :
    CutsAnyway script statement cut := by
  unfold constructorCuts at member
  split at member
  · rename_i kind_eq
    split at member
    · contradiction
    · rename_i unkept
      have assigns : AssignsConstructor statement :=
        ⟨assignment, _, _, found, named, kind_eq, by simpa using unkept⟩
      exact .constructor assigns (List.mem_singleton.1 member)
  · contradiction

end Statement

theorem cutsAnyway_of_mem_statementCuts (spaced : statement.IsSpaced script.text.toList)
    (member : cut ∈ (statementCuts script [] statement).ranges) :
    CutsAnyway script statement cut := by
  unfold statementCuts at member
  split at member
  · contradiction
  · rename_i assignment found
    split at member
    · rename_i named
      exact cutsAnyway_decoratorCuts found named member
    · rename_i named
      exact cutsAnyway_propertyDecoratorCuts found spaced named member
    · rename_i named
      exact cutsAnyway_constructorCuts found named member
    · contradiction

/-- Every cut is one of a statement at the top level. -/
theorem mem_ranges_cuts_nil (member : cut ∈ (cuts script []).ranges) :
    ∃ statement ∈ script.program.body, cut ∈ (statementCuts script [] statement).ranges := by
  obtain whole | element := List.mem_append.1 member
  · rw [statements_cuts] at whole
    obtain ⟨statement, listed, held⟩ := List.mem_flatMap.1 whole
    exact ⟨statement, listed, List.mem_append_left _ held⟩
  · obtain ⟨statement, listed, held⟩ := mem_elements_cuts.1 element
    obtain own | applied := List.mem_append.1 held
    · exact ⟨statement, listed, List.mem_append_right _ own⟩
    · cases known : helper? script with
      | none => simp [known] at applied
      | some helper => simp [known, helperCuts_nil] at applied

/-- What is cut for a statement lies in the gap that the statement leaves. -/
theorem CutsAnyway.inside (anyway : CutsAnyway script statement cut)
    (spaced : statement.IsSpaced script.text.toList) :
    (statementGap script.text statement.span).covers cut := by
  cases anyway with
  | constructor _ whole => exact whole ▸ covers_refl _
  | nothing _ _ whole => exact whole ▸ covers_refl _
  | member _ _ inside => exact covers_trans (surrounds_statementGap spaced.fits.framed).covers inside

/-- In a script that is read and has no decorator of the framework, every cut is made for a function
in `ctorParameters` or a list that holds nothing. It is apart from all other statements, among them
those that assign lists which all hold something, and those that apply decorators. -/
theorem cutsAnyway_of_unrecognized {text file : String} {script : Script}
    (read : Script.read text file = .ok script) (unknown : Framework.symbols script = [])
    {cut : Span} (member : cut ∈ (cuts script (Framework.symbols script)).ranges) :
    (∃ statement ∈ script.program.body, CutsAnyway script statement cut) ∧
      ∀ statement ∈ script.program.body, ¬AssignsConstructor statement →
        (∀ lists, Assigns statement lists → lists ≠ [] ∧ [] ∉ lists) →
          cut.isApart statement.span := by
  have row := (Script.isSpaced_of_read read).row
  rw [unknown] at member
  obtain ⟨statement, listed, held⟩ := mem_ranges_cuts_nil member
  have anyway := cutsAnyway_of_mem_statementCuts (row.spaced statement listed) held
  refine ⟨⟨statement, listed, anyway⟩, fun other also_listed no_constructor filled => ?_⟩
  obtain rfl | apart := eq_or_gaps_apart row also_listed listed
  · exfalso
    cases anyway with
    | constructor assigns => exact no_constructor assigns
    | nothing assigns empty =>
        obtain ⟨some_list, all_filled⟩ := filled _ assigns
        obtain ⟨list, among⟩ := List.exists_mem_of_ne_nil _ some_list
        exact all_filled (empty list among ▸ among)
    | member assigns empty => exact (filled _ assigns).2 empty
  · have outside := (surrounds_statementGap (row.spaced other also_listed).fits.framed).covers
    have gap_apart := isApart_of_covers apart (anyway.inside (row.spaced statement listed))
    rw [isApart_comm] at gap_apart
    exact isApart_of_covers gap_apart outside

/-- A class keeps its decorators when the list of them holds something. -/
theorem keeps_of_decorators {assignment : PropertyAssignment}
    (found : assignment? statement = some assignment) (named : assignment.property = "decorators")
    (some_listed : assignment.value.children ≠ []) :
    ¬AssignsConstructor statement ∧ ∀ lists, Assigns statement lists → lists ≠ [] ∧ [] ∉ lists := by
  constructor
  · rintro ⟨other, -, -, also_found, also_named, -⟩
    obtain rfl := Option.some.inj (found.symm.trans also_found)
    exact absurd (named.symm.trans also_named) (by decide)
  · intro lists assigns
    cases assigns with
    | decorators also_found _ value_eq =>
        obtain rfl := Option.some.inj (found.symm.trans also_found)
        rw [value_eq] at some_listed
        exact ⟨List.cons_ne_nil _ _, fun among => some_listed (List.mem_singleton.1 among).symm⟩
    | propDecorators also_found also_named =>
        obtain rfl := Option.some.inj (found.symm.trans also_found)
        exact absurd (named.symm.trans also_named) (by decide)

/-- Metadata of a decorator that is none of the framework's. -/
def foreignDecorator : String :=
  "import{Input}from'lib';C.decorators=[{type:Input}];C.ctorParameters=function(){};" ++
    "C.propDecorators={a:[],b:[{type:Input}]};"

/-- The function goes and so does the member with an empty list, but the list of decorators stays. -/
theorem cutsAnyway_of_unrecognized_foreignDecorator : ∃ (script : Script) (statement : Node),
    Script.read foreignDecorator "c.js" = .ok script ∧ Framework.symbols script = [] ∧
    (cuts script (Framework.symbols script)).ranges = [⟨51, 81⟩, ⟨99, 104⟩] ∧
    statement.span = ⟨23, 51⟩ ∧
    ∀ cut ∈ (cuts script (Framework.symbols script)).ranges, cut.isApart statement.span := by
  have found : ((Script.read foreignDecorator "c.js").toOption.map fun script =>
      (Framework.symbols script).isEmpty &&
        (cuts script (Framework.symbols script)).ranges == [⟨51, 81⟩, ⟨99, 104⟩] &&
        script.program.body.any fun statement => statement.span == ⟨23, 51⟩ &&
          (assignment? statement).any fun assignment =>
            assignment.property == "decorators" && !assignment.value.children.isEmpty) =
      some true := by
    decide +kernel
  obtain ⟨script, read, found⟩ := Option.map_eq_some_iff.1 found
  simp only [Option.any_eq_true, List.any_eq_true, Bool.and_eq_true, beq_iff_eq, Bool.not_eq_true',
    List.isEmpty_eq_false_iff, List.isEmpty_iff] at found
  obtain ⟨⟨unknown, ranges_eq⟩, statement, listed, span_eq, assignment, assigned, named, some_listed⟩ :=
    found
  obtain ⟨no_constructor, filled⟩ := keeps_of_decorators assigned named some_listed
  have read := Except.eq_ok_of_toOption read
  refine ⟨script, statement, read, unknown, ranges_eq, span_eq, fun cut member => ?_⟩
  exact (cutsAnyway_of_unrecognized read unknown member).2 statement listed no_constructor filled

/-- A list of decorators that holds none. -/
def emptyDecorators : String := "C.decorators = [];\n"

/-- Nothing is recognized, and the assignment of the empty list goes as a whole. -/
theorem not_isApart_emptyDecorators : ∃ script statement assignment cut,
    Script.read emptyDecorators "c.js" = .ok script ∧ Framework.symbols script = [] ∧
    statement ∈ script.program.body ∧ assignment? statement = some assignment ∧
    assignment.property = "decorators" ∧
    cut ∈ (cuts script (Framework.symbols script)).ranges ∧ ¬cut.isApart statement.span := by
  have found : ((Script.read emptyDecorators "c.js").toOption.map fun script =>
      (Framework.symbols script).isEmpty && script.program.body.any fun statement =>
        ((assignment? statement).any fun assignment => assignment.property == "decorators") &&
          (cuts script (Framework.symbols script)).ranges.any fun cut =>
            !cut.isApart statement.span) = some true := by
    decide +kernel
  obtain ⟨script, read, found⟩ := Option.map_eq_some_iff.1 found
  simp only [Option.any_eq_true, List.any_eq_true, Bool.and_eq_true, beq_iff_eq, Bool.not_eq_true',
    List.isEmpty_iff] at found
  obtain ⟨unknown, statement, listed, ⟨assignment, assigned, named⟩, cut, member, touches⟩ := found
  exact ⟨script, statement, assignment, cut, Except.eq_ok_of_toOption read, unknown, listed,
    assigned, named, member, by simp [touches]⟩

end Metadata
end Shakedown
