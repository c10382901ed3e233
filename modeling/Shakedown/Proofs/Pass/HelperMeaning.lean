import Shakedown.Edit.Render
import Shakedown.Pass.HelperImport
import Shakedown.Proofs.Scope.Focus
import Shakedown.Proofs.Script.Shape.Statement

/-!
# What the names of helpers mean

A helper that was declared is imported under the name that the library gives it. Uses of the helper
are left as they are, so they mean the import when the declaration had that name already.
-/

namespace Shakedown

open Node ScopeStack

/-- The names that functions declare as branches of `if` statements. -/
def Node.branchNames (nodes : List Node) : List String :=
  (nodesOfList nodes).flatMap fun
    | .mk .ifStatement _ branches =>
        branches.flatMap fun branch => branch.functionNames.map (·.declaredName.2)
    | _ => []

namespace HelperImport

/-- The name that a statement declares, as it is declared, when it declares nothing else. -/
def declared? : Node → Option (Span × String)
  | .mk (.variables _) _ [.mk .declarator _ (.mk (.binding name) place _ :: _)] =>
      some (place, name)
  | _ => none

/-- The import of a helper, with the name in a place. -/
def importNode (name : String) (span place : Span) : Node :=
  .mk (.importDeclaration libraryName "" true) span
    [.mk (.importSpecifier name) place [.mk (.binding name) place []]]

/-- A statement, or the import of the helper that it declares. -/
def imported (statement : Node) : Node :=
  match declared? statement, helper? statement with
  | some (place, _), some name => importNode name statement.span place
  | _, _ => statement

/-- The statements of a script with all helpers imported. -/
def importedBody (script : Script) : List Node :=
  script.program.body.map imported

/-- The helper that a statement imports, with the offset of its name. -/
def importedHelper? : Node → Option (Nat × String)
  | .mk (.importDeclaration source "" true) _
      [.mk (.importSpecifier imported) _ [.mk (.binding name) place _]] =>
      if source = libraryName ∧ imported = name then some (place.start, name) else none
  | _ => none

/-- The names that are introduced where statements that declare helpers stood. -/
def introducedNames (script again : Script) : List String :=
  (script.program.body.zip again.program.body).filterMap fun (statement, image) =>
    (helper? statement).bind fun _ => (importedHelper? image).map Prod.snd

/-- A script whose statements are those of another one with all helpers imported, with its names in
other places. -/
structure IsImported (script again : Script) (position : Nat → Nat) : Prop where
  /-- Names in different places stay in different places. -/
  injective : Function.Injective position
  /-- The statements have the shape that importing makes of the others. -/
  mirrored : mirrorsAll position (importedBody script) again.program.body

variable {script again : Script} {position : Nat → Nat} {statement : Node} {name : String}
  {focus : Focus} {stack partner : ScopeStack}

/-! ## Statements that declare helpers -/

/-- What a statement that declares a helper is made of. -/
theorem exists_of_helper? (helper : helper? statement = some name) :
    ∃ form span inner written place children values,
      statement = .mk (.variables form) span
        [.mk .declarator inner (.mk (.binding written) place children :: values)] ∧
      name = normalName written ∧ name ∈ helperNames := by
  unfold helper? at helper
  split at helper
  · rename_i form span inner written place children values
    dsimp only at helper
    split at helper
    · rename_i known
      obtain rfl := Option.some.inj helper
      exact ⟨form, span, inner, written, place, children, values, rfl, rfl, by simpa using known⟩
    · contradiction
  · contradiction

theorem imported_of_helper? {form : VariableForm} {span inner place : Span} {written : String}
    {children values : List Node}
    (statement_eq : statement = .mk (.variables form) span
      [.mk .declarator inner (.mk (.binding written) place children :: values)])
    (helper : helper? statement = some name) :
    imported statement = importNode name span place := by
  have declared : declared? statement = some (place, written) := by rw [statement_eq]; rfl
  rw [imported, declared, helper, statement_eq]
  rfl

theorem imported_of_none (plain : helper? statement = none) : imported statement = statement := by
  rw [imported, plain]
  split <;> simp_all

/-- In the scope of a function a variable is declared like any other name. -/
theorem declareForm_single {frame : Frame} {outer : List Frame}
    (frames_eq : stack.frames = frame :: outer) (is_function : frame.isFunction)
    (form : VariableForm) (binding : Node) :
    stack.declareForm form [binding] =
      stack.declare binding.declaredName.1 binding.declaredName.2 := by
  rw [declareForm_eq]
  obtain ⟨frames, settled, uses, repeated, declarations⟩ := stack
  obtain rfl : frames = frame :: outer := frames_eq
  simp only [List.map_cons, List.map_nil, List.foldl_cons, List.foldl_nil]
  split
  · rfl
  · simp [declareVariable, splitAtFunction, is_function]

theorem readNode_importNode (span place : Span) (stack : ScopeStack) :
    readNode false (importNode name span place) stack = stack.declare place.start name := by
  simp [importNode, readNode, readNodes, ownNames, declareAll, Node.span, Node.name?]

/-- What the focus is on is no part of a helper, but perhaps the name of one that keeps it. -/
structure Watches (focus : Focus) (statement : Node) : Prop where
  /-- A statement that stays has no other name where the focus is. -/
  stays : helper? statement = none → statement.Suits
    (fun offset name => offset = focus.offset → name = focus.name)
    (fun place name => place = focus.place → name = focus.name)
    fun name => focus.modes ∨ name ≠ focus.name
  /-- The name of a helper in sight stays the same. -/
  keeps : ∀ helper place written, helper? statement = some helper →
    declared? statement = some (place, written) →
    (written = focus.name ∨ helper = focus.name → written = helper) ∧
      (place.start = focus.place → written = focus.name)
  /-- The value of a helper is out of sight. -/
  value : ∀ form span inner binding values, (helper? statement).isSome →
    statement = .mk (.variables form) span [.mk .declarator inner (binding :: values)] →
    ∀ value ∈ values, value.Suits (fun offset _ => offset ≠ focus.offset)
      (fun place _ => place ≠ focus.place) fun _ => True

/-- Reading a statement and reading its import make no difference in sight. -/
theorem seenAlike_imported (watches : Watches focus statement) (shaped : statement.IsShaped)
    {mode : Bool} (outermost : stack.sorts = [(true, mode)])
    (alike : SeenAlike focus stack partner) :
    SeenAlike focus (readNode false statement stack)
      (readNode false (imported statement) partner) := by
  cases helper : helper? statement with
  | none =>
      rw [imported_of_none helper]
      exact ((parallel_seenAlike focus).keeps (watches.stays helper)).plain alike
  | some name =>
      obtain ⟨form, span, inner, written, place, children, values, statement_eq, -, -⟩ :=
        exists_of_helper? helper
      obtain ⟨kept, here⟩ := watches.keeps name place written helper (by rw [statement_eq]; rfl)
      have value_hidden := watches.value form span inner _ values (by rw [helper]; rfl) statement_eq
      rw [imported_of_helper? statement_eq helper, readNode_importNode]
      subst statement_eq
      have declarator_shaped := shaped.child List.mem_cons_self
      obtain rfl : children = [] := (declarator_shaped.child List.mem_cons_self).formed.name rfl
      have permits : ∀ value ∈ values, value.Permits false false := fun value listed =>
        (declarator_shaped.child (List.mem_cons_of_mem _ listed)).permits_of_isValue
          (declarator_shaped.formed.values rfl rfl value (List.mem_cons_of_mem _ listed))
      obtain ⟨frame, frames_eq, flag⟩ : ∃ frame, stack.frames = [frame] ∧ frame.isFunction := by
        obtain ⟨_ | ⟨frame, _ | ⟨second, frames⟩⟩, settled, uses, repeated, declarations⟩ := stack
        · contradiction
        · exact ⟨frame, rfl, (Prod.mk.inj (List.cons.inj outermost).1).1⟩
        · cases (List.cons.inj outermost).2
      have read_eq : readNode false (.mk (.variables form) span
          [.mk .declarator inner (.mk (.binding written) place [] :: values)]) stack =
          readNodes values (stack.declare place.start written) := by
        have declared := declareForm_single frames_eq flag form (.mk (.binding written) place [])
        simp only [readNode, readDeclarators, declaredPatterns, List.filterMap_cons,
          List.filterMap_nil, bindingsOfList, Node.bindings, List.append_nil, readNodes, declared]
        rfl
      rw [read_eq]
      have opened : (stack.declare place.start written).frames ≠ [] := by
        intro closed
        have outlines := (declares_declare stack place.start written).outlines
        rw [closed, frames_eq] at outlines
        contradiction
      refine SeenAlike.readNodes_hidden ?_ permits value_hidden opened
      have parallel := parallel_seenAlike focus
      by_cases same : written = name
      · subst same
        exact parallel.declare here alike
      · have other : written ≠ focus.name := fun eq => same (kept (.inl eq))
        have also_other : name ≠ focus.name := fun eq => same (kept (.inr eq))
        have apart : place.start ≠ focus.place := fun eq => other (here eq)
        refine ⟨?_, (declares_declare stack place.start written).isClear alike.clear,
          (declares_declare partner place.start name).isClear alike.partner_clear⟩
        rw [seen_declare_other other stack apart, seen_declare_other also_other partner apart,
          alike.seen]

/-- Nor do all statements one behind the other. -/
theorem seenAlike_readNodes {statements : List Node}
    (watches : ∀ statement ∈ statements, Watches focus statement)
    (shaped : ∀ statement ∈ statements, statement.IsShaped) {mode : Bool}
    (outermost : stack.sorts = [(true, mode)]) (alike : SeenAlike focus stack partner) :
    SeenAlike focus (readNodes statements stack) (readNodes (statements.map imported) partner) := by
  induction statements generalizing stack partner with
  | nil => simpa only [List.map_nil, readNodes] using alike
  | cons statement rest ih =>
      obtain ⟨first_watches, rest_watch⟩ := List.forall_mem_cons.1 watches
      obtain ⟨first_shaped, rest_shaped⟩ := List.forall_mem_cons.1 shaped
      have still : (readNode false statement stack).sorts = [(true, mode)] := by
        rw [← outermost, ← sorts_readNodes [statement] stack, readNodes, readNodes]
      rw [List.map_cons, readNodes, readNodes]
      exact ih rest_watch rest_shaped still
        (seenAlike_imported first_watches first_shaped outermost alike)

/-! ## What the focus is on -/

/-- What is said of a helper and a use of it: the use is left in the text and means what the helper
declares, and no name is imported in the place of another one or declared in one mode only. -/
structure IsUsed (script again : Script) (statement : Node) (name : String) (place : Span)
    (use : NameUse) : Prop where
  /-- The statement is one of the script. -/
  listed : statement ∈ script.program.body
  /-- It declares the helper. -/
  helper : helper? statement = some name
  /-- It does so by the name that the library has. -/
  declared : declared? statement = some (place, name)
  /-- The use is not part of a helper. -/
  used : use ∈ referencesOfList (importedBody script)
  /-- The use means what the statement declares. -/
  binds : script.scoping.Binds place.start use.offset
  /-- So does every statement that declares the same helper. -/
  same : ∀ other ∈ script.program.body, helper? other = some name →
    (declared? other).map Prod.snd = some name
  /-- No function that is a branch declares the name in strict mode only. -/
  modes : again.program.isStrict = script.program.isStrict ∨
    name ∉ branchNames (importedBody script)

/-- What is looked at for a use of a helper. -/
def focusOn (script again : Script) (place : Span) (use : NameUse) : Focus where
  name := use.name
  offset := use.offset
  place := place.start
  modes := again.program.isStrict == script.program.isStrict

/-- Imports have no references, so the references that are left are those of other statements. -/
theorem exists_of_mem_references {use : NameUse}
    (used : use ∈ referencesOfList (importedBody script)) :
    ∃ holder ∈ script.program.body, helper? holder = none ∧ use ∈ holder.references := by
  obtain ⟨image, listed, used⟩ := mem_referencesOfList.1 used
  obtain ⟨holder, holder_listed, rfl⟩ := List.mem_map.1 listed
  refine ⟨holder, holder_listed, ?_⟩
  cases helper : helper? holder with
  | none => exact ⟨rfl, imported_of_none helper ▸ used⟩
  | some name =>
      obtain ⟨form, span, inner, written, place, children, values, holder_eq, -, -⟩ :=
        exists_of_helper? helper
      rw [imported_of_helper? holder_eq helper] at used
      contradiction

theorem exists_of_declared? {place : Span} {written : String}
    (declared : declared? statement = some (place, written)) :
    ∃ form span inner children values, statement = .mk (.variables form) span
      [.mk .declarator inner (.mk (.binding written) place children :: values)] := by
  unfold declared? at declared
  split at declared
  · rename_i form span inner _ _ children values
    obtain ⟨rfl, rfl⟩ := Prod.mk.inj (Option.some.inj declared)
    exact ⟨form, span, inner, children, values, rfl⟩
  · contradiction

theorem hasName_of_declared? {place : Span} {written : String}
    (listed : statement ∈ script.program.body)
    (declared : declared? statement = some (place, written)) :
    HasName script.program.body place.start written := by
  obtain ⟨form, span, inner, children, values, rfl⟩ := exists_of_declared? declared
  refine ⟨.mk (.binding written) place children, mem_nodesOfList.2 ⟨_, listed, ?_⟩, rfl, rfl⟩
  simp [Node.nodes, nodesOfList]

section Reading

variable {text file : String} {place : Span} {use : NameUse}
  (read : Script.read text file = .ok script) (is_used : IsUsed script again statement name place use)

include read is_used

theorem IsUsed.name_eq : use.name = name := by
  have row := (Script.isSpaced_of_read read).row
  have shaped : ∀ node ∈ script.program.body, node.IsShaped := fun node listed =>
    (Script.isPlain_of_read read node listed).1
  obtain ⟨holder, listed, -, used⟩ := exists_of_mem_references is_used.used
  have binds := is_used.binds
  rw [Script.scoping_of_read read] at binds
  exact binds.name_eq row shaped (mem_referencesOfList.2 ⟨holder, listed, used⟩)
    (hasName_of_declared? is_used.listed is_used.declared)

/-- The value of a helper holds neither the use nor the name in sight. -/
theorem IsUsed.value_hidden {other value : Node} {form : VariableForm} {span inner : Span}
    {binding : Node} {values : List Node} (listed : other ∈ script.program.body)
    (helper : (helper? other).isSome)
    (other_eq : other = .mk (.variables form) span [.mk .declarator inner (binding :: values)])
    (among : value ∈ values) : value.Suits (fun offset _ => offset ≠ use.offset)
      (fun start _ => start ≠ place.start) fun _ => True := by
  have row := (Script.isSpaced_of_read read).row
  have shaped : ∀ node ∈ script.program.body, node.IsShaped := fun node listed =>
    (Script.isPlain_of_read read node listed).1
  have below : ∀ node ∈ value.nodes, node ∈ other.nodes := by
    intro node inside
    rw [other_eq]
    refine mem_nodes_trans inside ?_
    simp only [Node.nodes, nodesOfList, List.mem_cons, List.mem_append]
    exact .inr (.inl (.inr (.inr (mem_nodesOfList.2 ⟨value, among, mem_nodes.2 (.inl rfl)⟩))))
  have inside_other : ∀ node ∈ value.nodes,
      other.span.start ≤ node.span.start ∧ node.span.start < other.span.stop := by
    intro node inside
    have covered := Span.covers_iff.1 ((row.spaced other listed).covers (below node inside))
    have proper := ((row.spaced other listed).below (below node inside)).proper
    omega
  refine ⟨fun node inside _ _ same => ?_, fun node inside written named same => ?_,
    fun _ _ _ _ _ _ _ => trivial⟩
  · obtain ⟨holder, holder_listed, plain, used⟩ := exists_of_mem_references is_used.used
    have covered := (row.spaced holder holder_listed).covers_references used
    have between := inside_other node inside
    obtain rfl | apart := row.eq_or_apart holder_listed listed
    · rw [plain] at helper
      contradiction
    · omega
  · obtain ⟨_, _, own, children, others, statement_eq⟩ := exists_of_declared? is_used.declared
    have declares : Node.mk (.binding name) place children ∈ statement.nodes := by
      rw [statement_eq]
      simp [Node.nodes, nodesOfList]
    have declarator_listed : Node.mk .declarator own (.mk (.binding name) place children :: others) ∈
        statement.children := by
      rw [statement_eq]
      exact List.mem_cons_self
    have node_eq := row.eq_of_start shaped (mem_nodesOfList.2 ⟨other, listed, below node inside⟩)
      (mem_nodesOfList.2 ⟨statement, is_used.listed, declares⟩) (by rw [named]; rfl) rfl same
    have covered := Span.covers_iff.1 ((row.spaced statement is_used.listed).covers declares)
    have proper := ((row.spaced statement is_used.listed).below declares).proper
    have between := inside_other node inside
    have own_span : (Node.mk (.binding name) place children).span = place := rfl
    rw [own_span] at covered proper
    obtain rfl | apart := row.eq_or_apart is_used.listed listed
    · -- The name stands in front of the values of its own statement.
      rw [statement_eq] at other_eq
      obtain ⟨-, -, declarators_eq⟩ := Node.mk.inj other_eq
      obtain ⟨-, -, parts_eq⟩ := Node.mk.inj (List.cons.inj declarators_eq).1
      obtain ⟨rfl, rfl⟩ := List.cons.inj parts_eq
      have declarator_spaced := (row.spaced statement is_used.listed).child declarator_listed
      have ordered := (declarator_spaced.inRow (by decide)).ordered
      have behind := (List.pairwise_cons.1 ordered).1 value among
      have value_spaced : value.IsSpaced script.text.toList :=
        declarator_spaced.child (List.mem_cons_of_mem _ among)
      have value_covers := Span.covers_iff.1 (value_spaced.covers inside)
      rw [node_eq, own_span] at value_covers
      rw [own_span] at behind
      omega
    · omega

/-- Every statement is watched for the name, the use and the place of the helper. -/
theorem IsUsed.watches {other : Node} (listed : other ∈ script.program.body) :
    Watches (focusOn script again place use) other := by
  have row := (Script.isSpaced_of_read read).row
  have shaped : ∀ node ∈ script.program.body, node.IsShaped := fun node listed =>
    (Script.isPlain_of_read read node listed).1
  have name_eq := is_used.name_eq read
  have declared := hasName_of_declared? is_used.listed is_used.declared
  have used : HasUse script.program.body use.offset use.name := by
    obtain ⟨holder, listed, -, used⟩ := exists_of_mem_references is_used.used
    exact .of_mem (mem_referencesOfList.2 ⟨holder, listed, used⟩)
  refine ⟨fun plain => ⟨?_, ?_, ?_⟩, fun helper start written found also_declared => ⟨?_, ?_⟩,
    fun form span inner binding values found other_eq value among =>
      is_used.value_hidden read listed found other_eq among⟩
  · intro node inside own named here
    exact HasUse.unique row shaped
      ⟨node, mem_nodesOfList.2 ⟨other, listed, inside⟩, named, here⟩ used
  · intro node inside own named here
    have own_eq := HasName.unique row shaped
      ⟨node, mem_nodesOfList.2 ⟨other, listed, inside⟩, named, here⟩ declared
    exact own_eq.trans name_eq.symm
  · intro node inside is_branching branch among binding extra
    refine is_used.modes.imp (fun same => by simp [focusOn, same]) fun absent same => absent ?_
    rw [← name_eq]
    have left : other ∈ importedBody script := by
      rw [← imported_of_none plain]
      exact List.mem_map_of_mem listed
    refine List.mem_flatMap.2 ⟨node, mem_nodesOfList.2 ⟨other, left, inside⟩, ?_⟩
    obtain ⟨kind, span, branches⟩ := node
    obtain rfl : kind = .ifStatement := is_branching
    exact List.mem_flatMap.2 ⟨branch, among, List.mem_map.2 ⟨binding, extra, same⟩⟩
  · intro either
    obtain ⟨_, _, _, first, _, _, _, statement_eq, normal, -⟩ := exists_of_helper? is_used.helper
    obtain ⟨_, _, _, second, _, _, _, other_eq, also_normal, -⟩ := exists_of_helper? found
    obtain rfl : first = name := by
      have same := is_used.declared
      rw [statement_eq] at same
      exact (Prod.mk.inj (Option.some.inj same)).2
    obtain rfl : second = written := by
      rw [other_eq] at also_declared
      exact (Prod.mk.inj (Option.some.inj also_declared)).2
    obtain own | imports := either
    · rw [also_normal, own.trans name_eq]
      exact normal
    · have own := is_used.same other listed
        (found.trans (congrArg some (imports.trans name_eq)))
      rw [also_declared] at own
      exact (Option.some.inj own).trans (imports.trans name_eq).symm
  · intro here
    have own_eq := HasName.unique row shaped
      (here ▸ hasName_of_declared? listed also_declared) declared
    exact own_eq.trans name_eq.symm

end Reading

/-! ## Meanings -/

/-- A program whose statements are those of a script with all helpers imported, in the mode of the
module that it is read as. -/
def importedProgram (script again : Script) : Program :=
  { again.program with body := importedBody script }

/-- What declares the use in the script declares it where the helpers are imported. -/
theorem IsUsed.binds_importedProgram {text file : String} {place : Span} {use : NameUse}
    (is_used : IsUsed script again statement name place use)
    (read : Script.read text file = .ok script) :
    (Scoping.ofProgram (importedProgram script again)).Binds place.start use.offset := by
  have start : SeenAlike (focusOn script again place use)
      ⟨[.fresh true script.program.isStrict], [], [], [], []⟩
      ⟨[.fresh true (importedProgram script again).isStrict], [], [], [], []⟩ := by
    refine ⟨?_, nofun, nofun⟩
    have mode : (importedProgram script again).isStrict = again.program.isStrict := rfl
    cases same : again.program.isStrict == script.program.isStrict with
    | true => simp [seen, mode, beq_iff_eq.1 same]
    | false => simp [seen, focusOn, Frame.seen, Frame.fresh, same]
  have alike := (parallel_seenAlike _).settle (seenAlike_readNodes
    (fun other listed => is_used.watches read listed)
    (fun other listed => (Script.isPlain_of_read read other listed).1) rfl start)
  obtain ⟨symbol, meant, noted⟩ := is_used.binds
  rw [Script.scoping_of_read read, Scoping.symbol?_resolve] at meant
  rw [Script.scoping_of_read read] at noted
  have settled_eq := congrArg (fun stack => stack.settled.lookup use.offset) alike.seen
  have declarations_eq := congrArg (fun stack => stack.declarations.lookup place.start) alike.seen
  simp only [seen, focusOn, lookup_filter_self] at settled_eq declarations_eq
  refine ⟨symbol, ?_, declarations_eq.symm.trans noted⟩
  rw [Scoping.symbol?_resolve]
  exact settled_eq.symm.trans meant

/-- Names of programs that mirror each other are bound alike. -/
theorem Scoping.binds_of_mirrors {program image : Program} {place offset : Nat}
    (injective : Function.Injective position) (strict_eq : image.isStrict = program.isStrict)
    (mirrored : mirrorsAll position program.body image.body)
    (binds : (Scoping.ofProgram program).Binds place offset) :
    (Scoping.ofProgram image).Binds (position place) (position offset) := by
  have stack_eq := ScopeStack.ofProgram_of_mirrors strict_eq mirrored
  have meanings_eq : (Scoping.ofProgram image).meanings =
      (Scoping.ofProgram program).meanings.map (Prod.map position position) :=
    congrArg ScopeStack.settled stack_eq
  have declarations_eq : (Scoping.ofProgram image).declarations =
      (Scoping.ofProgram program).declarations.map (Prod.map position position) :=
    congrArg ScopeStack.declarations stack_eq
  obtain ⟨symbol, meant, noted⟩ := binds
  rw [Scoping.symbol?_resolve] at meant
  refine ⟨position symbol, ?_, ?_⟩
  · rw [Scoping.symbol?_resolve, meanings_eq, Scoping.lookup_map_of_injective injective, meant]
    rfl
  · rw [Scoping.symbolAt?] at noted ⊢
    rw [declarations_eq, Scoping.lookup_map_of_injective injective, noted]
    rfl

theorem importedHelper?_of_mirrors {image : Node} {span place : Span}
    (mirrored : mirrors position (importNode name span place) image) :
    importedHelper? image = some (position place.start, name) := by
  obtain ⟨_, images, rfl, -, below⟩ := mirrors_mk.1 mirrored
  simp only [mirrorsAll_cons, mirrorsAll_nil] at below
  obtain ⟨_, _, rfl, specifier, rfl⟩ := below
  obtain ⟨_, images, rfl, -, below⟩ := mirrors_mk.1 specifier
  simp only [mirrorsAll_cons, mirrorsAll_nil] at below
  obtain ⟨_, _, rfl, binding, rfl⟩ := below
  obtain ⟨_, images, rfl, placed, -⟩ := mirrors_mk.1 binding
  simp [importedHelper?, placed rfl]

theorem exists_image {nodes images : List Node} (mirrored : mirrorsAll position nodes images)
    {node : Node} (listed : node ∈ nodes) : ∃ image ∈ images, mirrors position node image := by
  induction nodes generalizing images with
  | nil => contradiction
  | cons first rest ih =>
      obtain ⟨image, others, rfl, first_mirrored, rest_mirrored⟩ := mirrorsAll_cons.1 mirrored
      obtain rfl | listed := List.mem_cons.1 listed
      · exact ⟨image, List.mem_cons_self, first_mirrored⟩
      · obtain ⟨other, among, other_mirrored⟩ := ih rest_mirrored listed
        exact ⟨other, List.mem_cons_of_mem _ among, other_mirrored⟩

/-- Where helpers were declared, their names are introduced, one for each. -/
theorem IsImported.introducedNames_eq (is_imported : IsImported script again position) :
    introducedNames script again = script.program.body.filterMap helper? := by
  have mirrored := is_imported.mirrored
  unfold importedBody at mirrored
  unfold introducedNames
  generalize script.program.body = body at mirrored
  generalize again.program.body = images at mirrored
  induction body generalizing images with
  | nil => rfl
  | cons statement rest ih =>
      obtain ⟨image, others, rfl, first, behind⟩ := mirrorsAll_cons.1 mirrored
      rw [List.zip_cons_cons, List.filterMap_cons, List.filterMap_cons, ih others behind]
      dsimp only
      cases helper : helper? statement with
      | none => rfl
      | some name =>
          obtain ⟨_, _, _, _, _, _, _, statement_eq, -, -⟩ := exists_of_helper? helper
          rw [imported_of_helper? statement_eq helper] at first
          rw [Option.bind_some, importedHelper?_of_mirrors first]
          rfl

/-- Where the offsets of a text go when the statement at its start is replaced by a longer one: that
of a name in the statement to a new place, all others behind the statement. -/
def behindImport (place target shift offset : Nat) : Nat :=
  if offset = place then target else offset + shift

theorem injective_behindImport {target shift : Nat} (place : Nat) (inside : target < shift) :
    Function.Injective (behindImport place target shift) := by
  intro first second same
  grind [behindImport]

/-- A helper, and a use of it. -/
def usesHelper : String :=
  "var __decorate=f;A=__decorate(B);"

/-- A helper that is declared with three underscores, and a use of it. -/
def usesLongName : String :=
  "var ___decorate=f;A=___decorate(B);"

/-- A helper outside strict mode, and a use of it beside a function of its name that is a branch. -/
def usesBranch : String :=
  "var __decorate=f;function g(){if(x)function __decorate(){}__decorate()}"

/-- The import makes the text strict, and so the function binds the use. -/
theorem binds_imported_usesBranch : ∃ script again,
    Script.read usesBranch "a.js" = .ok script ∧
    Script.read ((record script Revision.empty).render usesBranch).text "a.js" = .ok again ∧
    IsImported script again (behindImport 4 9 18) ∧
    (⟨58, "__decorate"⟩ : NameUse) ∈ referencesOfList (importedBody script) ∧
    script.scoping.resolve 58 = .sole 4 ∧
    again.scoping.resolve (behindImport 4 9 18 58) = .sole (behindImport 4 9 18 44) := by
  have suits : (Script.read usesBranch "a.js").toOption.any fun script =>
      (Script.read ((record script Revision.empty).render usesBranch).text "a.js").toOption.any
        fun again =>
          mirrorsAll (behindImport 4 9 18) (importedBody script) again.program.body ∧
          (⟨58, "__decorate"⟩ : NameUse) ∈ referencesOfList (importedBody script) ∧
          script.scoping.resolve 58 = .sole 4 ∧
          again.scoping.resolve (behindImport 4 9 18 58) = .sole (behindImport 4 9 18 44) := by
    decide +kernel
  obtain ⟨script, found, suits⟩ := (Option.any_eq_true _ _).1 suits
  obtain ⟨again, again_found, suits⟩ := (Option.any_eq_true _ _).1 suits
  obtain ⟨mirrored, used, meant, captured⟩ := of_decide_eq_true suits
  exact ⟨script, again, Except.eq_ok_of_toOption found, Except.eq_ok_of_toOption again_found,
    ⟨injective_behindImport 4 (by decide), mirrored⟩, used, meant, captured⟩

end HelperImport
end Shakedown
