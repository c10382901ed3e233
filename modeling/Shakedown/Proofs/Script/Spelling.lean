import Shakedown.Proofs.Script.Shape.Statement

/-!
# Names as the text has them

A name that a statement declares alone or assigns a property of is what the text has in its place,
unless it is written with an escape. The only readers that matter are those of names and those that
hand a tree on; what any other reader leaves has no name of its own.
-/

namespace Shakedown

open Node Text

/-- The text has the name in a place, or an escape. -/
def IsWrittenAt (text : List Char) (name : String) (place : Span) : Prop :=
  ∃ written, slice? text place = some written ∧ (written = name.toList ∨ '\\' ∈ written)

theorem Token.LiesIn.isWrittenAt {text : List Char} {token : Token} {name : String}
    {isEscaped : Bool} (lies : token.LiesIn text) (is_word : token.kind = .word name isEscaped) :
    IsWrittenAt text name token.span := by
  obtain ⟨written, written_eq, spells⟩ := lies.word name isEscaped is_word
  refine ⟨written, written_eq, ?_⟩
  cases isEscaped with
  | false => exact .inl spells
  | true => exact .inr spells

/-- Whether nodes of the kind have no name of their own and hand none on to a statement. -/
def NodeKind.isSilent : NodeKind → Bool
  | .binding _ => false
  | .member _ _ => false
  | .parenthesized => false
  | .assignment _ => false
  | .declarator => false
  | .variables _ => false
  | .expressionStatement => false
  | _ => true

namespace Node

variable {text : List Char} {kind : NodeKind} {span : Span} {children : List Node}

/-- The name that a tree declares alone, or the property that it assigns, is the one written in
the text: that of a member is the last word in it. -/
def IsSpelled (text : List Char) : Node → Prop
  | mk (.binding name) place _ => IsWrittenAt text name place
  | mk (.member name _) span [object] =>
      ∃ word, object.span.stop ≤ word.start ∧ word.stop = span.stop ∧ IsWrittenAt text name word
  | mk .parenthesized _ [inner] => inner.IsSpelled text
  | mk (.assignment _) _ [target, _] => target.IsSpelled text
  | mk .declarator _ (pattern :: _) => pattern.IsSpelled text
  | mk (.variables _) _ [declarator] => declarator.IsSpelled text
  | mk .expressionStatement _ [value] => value.IsSpelled text
  | _ => True

theorem IsSpelled.of_isSilent (silent : kind.isSilent) : (mk kind span children).IsSpelled text := by
  cases kind <;> first | contradiction | trivial

/-- Only a single declared name is one of the statement. -/
theorem IsSpelled.variables {form : VariableForm}
    (single : ∀ declarator, children = [declarator] → declarator.IsSpelled text) :
    (mk (.variables form) span children).IsSpelled text := by
  match children, single with
  | [], _ => trivial
  | [declarator], single => exact single declarator rfl
  | _ :: _ :: _, _ => trivial

theorem IsSpelled.simpleTarget? {node target : Node} (spelled : node.IsSpelled text)
    (found : node.simpleTarget? = some target) : target.IsSpelled text := by
  induction node using Node.induction with
  | step kind span children ih =>
      unfold Node.simpleTarget? at found
      split at found
      · rename_i inner node_eq
        obtain ⟨rfl, rfl, rfl⟩ := Node.mk.inj node_eq
        exact ih inner List.mem_cons_self spelled found
      · rename_i node_eq
        obtain ⟨rfl, rfl, rfl⟩ := Node.mk.inj node_eq
        have kept : Node.mk kind span children = target := by
          split at found <;> simp_all
        exact kept ▸ spelled

theorem isSpelled_patternOf? {parts : Option (List Node)} {target : Node}
    (silent : kind.isSilent) (found : patternOf? kind span parts = some target) :
    target.IsSpelled text := by
  obtain ⟨targets, -, found⟩ := Option.bind_eq_some_iff.1 found
  split at found
  · contradiction
  · exact Option.some.inj found ▸ .of_isSilent silent

theorem IsSpelled.target? {node target : Node} (spelled : node.IsSpelled text)
    (found : node.target? = some target) : target.IsSpelled text := by
  unfold Node.target? at found
  split at found
  · exact isSpelled_patternOf? rfl found
  · exact isSpelled_patternOf? rfl found
  · exact Option.some.inj found ▸ .of_isSilent rfl
  · exact Option.some.inj found ▸ .of_isSilent rfl
  · exact spelled.simpleTarget? found

end Node

/-! ## Rows of operators -/

namespace BinaryOperator

/-- An operator takes its operands into a node of its own. -/
theorem isSilent_reduce {binds : BinaryOperator → Bool} {waiting left : List (Node × BinaryOperator)}
    {operand tree : Node} (reduced : reduce binds waiting operand = some (left, tree))
    (silent : operand.kind.isSilent) : tree.kind.isSilent := by
  induction waiting generalizing operand with
  | nil =>
      obtain ⟨-, rfl⟩ := Prod.mk.inj (Option.some.inj reduced)
      exact silent
  | cons pending rest ih =>
      unfold reduce at reduced
      split at reduced
      · obtain ⟨combined, combine_eq, reduced⟩ := Option.bind_eq_some_iff.1 reduced
        unfold combine? at combine_eq
        split at combine_eq
        · exact ih reduced (Option.some.inj combine_eq ▸ rfl)
        · contradiction
      · obtain ⟨-, rfl⟩ := Prod.mk.inj (Option.some.inj reduced)
        exact silent

theorem isSilent_assemble {pending : Node × BinaryOperator} {waiting : List (Node × BinaryOperator)}
    {operand tree : Node} {rest : List (BinaryOperator × Node)}
    (assembled : assemble (pending :: waiting) operand rest = some tree) : tree.kind.isSilent := by
  induction rest generalizing pending waiting operand with
  | nil =>
      obtain ⟨⟨left, whole⟩, reduced, rfl⟩ := Option.map_eq_some_iff.1 assembled
      obtain ⟨combined, combine_eq, reduced⟩ := Option.bind_eq_some_iff.1 reduced
      unfold combine? at combine_eq
      split at combine_eq
      · exact isSilent_reduce reduced (Option.some.inj combine_eq ▸ rfl)
      · contradiction
  | cons step rest ih =>
      obtain ⟨operator, next⟩ := step
      obtain ⟨⟨left, whole⟩, -, assembled⟩ := Option.bind_eq_some_iff.1 assembled
      exact ih assembled

/-- A row of one operand is that operand. -/
theorem isSpelled_assemble {text : List Char} {first tree : Node}
    {others : List (BinaryOperator × Node)} (assembled : assemble [] first others = some tree)
    (spelled : first.IsSpelled text) : tree.IsSpelled text := by
  cases others with
  | nil => exact Option.some.inj assembled ▸ spelled
  | cons step rest =>
      obtain ⟨kind, span, children⟩ := tree
      have behind : assemble [(first, step.1)] step.2 rest = some (.mk kind span children) :=
        assembled
      exact .of_isSilent (isSilent_assemble behind)

end BinaryOperator

namespace Reader

/-! ## Readers that leave no name -/

section Silent

variable {text : List Char} {grammar : Grammar}

theorem leaves_silent {offset : Nat} {kind : NodeKind} {children : List Node}
    (silent : kind.isSilent) : Leaves (node offset kind children) (IsSpelled text) :=
  leaves_node fun _ => .of_isSilent silent

theorem silent_arrayLiteral : Leaves (arrayLiteral grammar) (IsSpelled text) :=
  .skip fun _ => .skip fun _ => .skip fun _ => leaves_silent rfl

theorem silent_objectLiteral : Leaves (objectLiteral grammar) (IsSpelled text) :=
  .skip fun _ => .skip fun _ => .skip fun _ => leaves_silent rfl

theorem silent_template {isTagged : Bool} :
    Leaves (template grammar isTagged) (IsSpelled text) :=
  .skip fun _ => .skip fun _ => leaves_silent rfl

theorem silent_regex : Leaves regex (IsSpelled text) := by
  refine .skip fun slash => ?_
  split
  · exact leaves_throw
  · refine .skip fun _ => ?_
    split
    · exact .skip fun _ => leaves_silent rfl
    · exact leaves_unexpected

theorem silent_importExpression : Leaves (importExpression grammar) (IsSpelled text) := by
  refine .skip fun _ => .skip fun _ => .skip fun hasPhase => ?_
  split
  · refine .skip fun property => ?_
    split
    · exact .skip fun _ => leaves_silent rfl
    split
    · exact .skip fun _ => leaves_silent rfl
    · exact leaves_unexpected
  · exact .skip fun _ => leaves_silent rfl

theorem silent_construction : Leaves (construction grammar) (IsSpelled text) := by
  refine .skip fun _ => .skip fun _ => .skip fun isTarget => ?_
  split
  · exact .skip fun _ => leaves_silent rfl
  refine .skip fun callee => .skip fun hasArguments => ?_
  split
  · exact .skip fun _ => leaves_silent rfl
  · exact leaves_silent rfl

theorem silent_indexRest {start : Nat} {object : Node} {isOptional : Bool} :
    Leaves (indexRest grammar start object isOptional) (IsSpelled text) :=
  .skip fun _ => .skip fun _ => .skip fun _ => leaves_silent rfl

theorem silent_callRest {start : Nat} {callee : Node} {isOptional : Bool} :
    Leaves (callRest grammar start callee isOptional) (IsSpelled text) :=
  .skip fun _ => .skip fun _ => leaves_silent rfl

theorem silent_reference : Leaves reference (IsSpelled text) :=
  .skip fun _ => .skip fun _ => leaves_silent rfl

theorem silent_arrowBody {start : Nat} {inputs : Node} {isAsync : Bool} :
    Leaves (arrowBody grammar start inputs isAsync) (IsSpelled text) := by
  refine .skip fun context => .skip fun isBlock => ?_
  split
  · exact .skip fun _ => leaves_silent rfl
  · exact .skip fun _ => .skip fun _ => .skip fun _ => .skip fun _ => leaves_silent rfl

theorem silent_yieldExpression : Leaves (yieldExpression grammar) (IsSpelled text) := by
  refine .skip fun _ => .skip fun _ => .skip fun token => ?_
  split
  · exact .skip fun _ => .skip fun _ => leaves_silent rfl
  split
  · exact leaves_silent rfl
  · exact .skip fun _ => leaves_silent rfl

/-! ### Statements -/

theorem silent_block : Leaves (block grammar) (IsSpelled text) :=
  .skip fun _ => .skip fun _ => .skip fun _ => .skip fun _ => leaves_silent rfl

theorem silent_ifStatement : Leaves (ifStatement grammar) (IsSpelled text) := by
  refine .skip fun _ => .skip fun _ => .skip fun test => .skip fun first => .skip fun isElse => ?_
  split
  · exact .skip fun _ => leaves_silent rfl
  · exact leaves_silent rfl

theorem silent_loopOver {start : Nat} {head : Node} {isAwait : Bool} :
    Leaves (loopOver grammar start head isAwait) (IsSpelled text) := by
  refine .skip fun isOf => ?_
  split
  · exact .skip fun _ => .skip fun _ => .skip fun _ => leaves_silent rfl
  · exact .forbid (.skip fun _ => .skip fun _ => .skip fun _ => .skip fun _ => leaves_silent rfl)

theorem silent_loopWhile {start : Nat} {first : List Node} :
    Leaves (loopWhile grammar start first) (IsSpelled text) :=
  .skip fun _ => .skip fun _ => .skip fun _ => .skip fun _ => leaves_silent rfl

theorem silent_declaringLoop {start : Nat} {isAwait : Bool} {form : VariableForm} {words : Nat} :
    Leaves (declaringLoop grammar start isAwait form words) (IsSpelled text) := by
  refine .skip fun _ => .skip fun _ => .skip fun items => .skip fun head => ?_
  refine .skip fun isOf => .skip fun isIn => ?_
  split
  · split
    · exact silent_loopOver
    · refine .skip fun isIn => ?_
      split
      · exact silent_loopOver
      · exact leaves_unexpected
    · exact leaves_unexpected
  · exact .forbid (.require silent_loopWhile)

theorem silent_forLoop : Leaves (forLoop grammar) (IsSpelled text) := by
  refine .skip fun _ => .skip fun _ => .skip fun isAwait => .skip fun context => ?_
  extract_lets counts rest
  have continues : Leaves (rest ()) (IsSpelled text) := by
    refine .skip fun _ => .skip fun isEmpty => ?_
    split
    · exact .forbid silent_loopWhile
    refine .skip fun declared => ?_
    split
    · exact silent_declaringLoop
    · refine .skip fun isAsync => .skip fun second => .skip fun first => .skip fun isOf => ?_
      refine .forbid (.skip fun isOf => .skip fun isIn => ?_)
      split
      · exact .skip fun _ => silent_loopOver
      · exact .forbid silent_loopWhile
  split
  · exact .skip fun _ => continues
  · exact continues

theorem silent_whileLoop : Leaves (whileLoop grammar) (IsSpelled text) :=
  .skip fun _ => .skip fun _ => .skip fun _ => .skip fun _ => leaves_silent rfl

theorem silent_doLoop : Leaves (doLoop grammar) (IsSpelled text) :=
  .skip fun _ => .skip fun _ => .skip fun _ => .skip fun _ => .skip fun _ => .skip fun _ =>
    leaves_silent rfl

theorem silent_withStatement : Leaves (withStatement grammar) (IsSpelled text) :=
  .skip fun _ => .skip fun _ => .skip fun _ => .skip fun _ => leaves_silent rfl

theorem silent_switchStatement : Leaves (switchStatement grammar) (IsSpelled text) :=
  .skip fun _ => .skip fun _ => .skip fun _ => .skip fun _ => .skip fun _ => leaves_silent rfl

theorem silent_tryStatement : Leaves (tryStatement grammar) (IsSpelled text) := by
  refine .skip fun _ => .skip fun _ => .skip fun body => .skip fun hasHandler => ?_
  have finished {start : Nat} {handler : List Node} :
      Leaves (do
        let finalizer ← if ← takeWord "finally" then pure [← Reader.block grammar] else pure []
        if handler.isEmpty && finalizer.isEmpty then
          unexpected
        node start (.tryStatement (!handler.isEmpty) (!finalizer.isEmpty))
          (body :: handler ++ finalizer)) (IsSpelled text) := by
    refine .skip fun hasFinalizer => ?_
    split
    · exact .skip fun _ => .given (.forbid (leaves_silent rfl))
    · exact .given (.forbid (leaves_silent rfl))
  split
  · exact .skip fun _ => .given finished
  · exact .given finished

theorem silent_jump {kind : Option String → NodeKind} (silent : ∀ label, (kind label).isSilent) :
    Leaves (jump kind) (IsSpelled text) :=
  .skip fun _ => .skip fun _ => .skip fun label => .skip fun _ => leaves_silent (silent label)

theorem silent_returnStatement : Leaves (returnStatement grammar) (IsSpelled text) := by
  refine .skip fun _ => .skip fun context => .require (.skip fun _ => .skip fun token => ?_)
  dsimp only
  split
  · exact .skip fun _ => .skip fun _ => leaves_silent rfl
  · exact .skip fun _ => .skip fun _ => .skip fun _ => leaves_silent rfl

theorem silent_throwStatement : Leaves (throwStatement grammar) (IsSpelled text) :=
  .skip fun _ => .skip fun _ => .skip fun _ => .forbid (.skip fun _ => .skip fun _ =>
    leaves_silent rfl)

theorem silent_importDeclaration : Leaves importDeclaration (IsSpelled text) := by
  refine .skip fun _ => .skip fun _ => .skip fun _ => .skip fun token => ?_
  split
  · exact .skip fun _ => .skip fun _ => .skip fun _ => leaves_silent rfl
  · exact .skip fun _ => .skip fun _ => .skip fun _ => .skip fun _ => .skip fun _ => .skip fun _ =>
      leaves_silent rfl

theorem silent_exportList {start : Nat} : Leaves (exportList start) (IsSpelled text) := by
  refine .skip fun entries => .skip fun hasSource => .either fun source => .either fun marks => ?_
  exact .skip fun _ => .skip fun _ => leaves_silent rfl

theorem silent_exportAll {start : Nat} : Leaves (exportAll start) (IsSpelled text) := by
  refine .skip fun _ => .skip fun isRenamed => .either fun exported => ?_
  exact .skip fun _ => .skip fun _ => .skip fun _ => .skip fun _ => leaves_silent rfl

theorem silent_exportDefault {start : Nat} :
    Leaves (exportDefault grammar start) (IsSpelled text) := by
  have exported {start : Nat} {reader : Reader Node} :
      Leaves (do let item ← reader; node start .exportDefault [item]) (IsSpelled text) :=
    .skip fun _ => leaves_silent rfl
  refine .skip fun token => .skip fun second => ?_
  dsimp only
  split
  · exact exported
  split
  · exact .skip fun _ => exported
  split
  · exact exported
  split
  · exact .skip fun _ => exported
  · exact .skip fun _ => .skip fun _ => exported

theorem silent_exportItem : Leaves (exportItem grammar) (IsSpelled text) := by
  refine .skip fun _ => .skip fun _ => .skip fun _ => .skip fun isList => ?_
  split
  · exact silent_exportList
  refine .skip fun isAll => ?_
  split
  · exact silent_exportAll
  refine .skip fun isDefault => ?_
  split
  · exact silent_exportDefault
  · refine .skip fun _ => .skip fun item => ?_
    dsimp only
    split
    · exact leaves_silent rfl
    · exact .skip fun _ => leaves_silent rfl

end Silent

/-! ## Readers of names -/

section Names

variable {text : List Char} {origin : Nat} {grammar : Grammar} {start state : ReadState}
  {moved : Bool} {nodes : List Node} {context : ReadContext}

/-- A reader whose trees have their names from the text. -/
def Spells (text : List Char) (origin : Nat) (reader : Reader Node) : Prop :=
  ∀ context state, Sound text origin state → Meets reader context state fun node _ =>
    node.IsSpelled text

theorem Leaves.spells {reader : Reader Node} (leaves : Leaves reader (IsSpelled text)) :
    Spells text origin reader :=
  fun context state _ => leaves context state

theorem meets_skip {α β : Type} {reader : Reader α} {next : α → Reader β}
    {last : β → ReadState → Prop} (rest : ∀ result after, Meets (next result) context after last) :
    Meets (reader >>= next) context state last :=
  meets_bind fun result after _ => rest result after

theorem meets_and {α : Type} {reader : Reader α} {first second : α → ReadState → Prop}
    (first_meets : Meets reader context state first)
    (second_meets : Meets reader context state second) :
    Meets reader context state fun result after => first result after ∧ second result after :=
  fun result after run => ⟨first_meets result after run, second_meets result after run⟩

/-- A name is the token that came next. -/
theorem meets_name_written (sound : Sound text origin state) :
    Meets name context state fun name after =>
      IsWrittenAt text name ⟨state.token.span.start, after.lastStop⟩ := by
  refine meets_peek ?_
  split
  · rename_i word isEscaped kind_eq
    refine meets_forbid fun _ => meets_bind (meets_checkName fun noted token_eq stop_eq => ?_)
    have noted_sound := ((Trail.refl sound).congr token_eq stop_eq).sound
    have live : noted.token.kind ≠ .finish := by simp [token_eq, kind_eq]
    refine meets_bind (meets_advance noted_sound live fun after _ end_eq _ => meets_pure ?_)
    rw [end_eq, token_eq]
    exact sound.lies.isWrittenAt kind_eq
  · exact meets_unexpected

theorem meets_word_written (sound : Sound text origin state) :
    Meets word context state fun name after =>
      IsWrittenAt text name ⟨state.token.span.start, after.lastStop⟩ := by
  refine meets_peek ?_
  split
  · rename_i word isEscaped kind_eq
    have live : state.token.kind ≠ .finish := by simp [kind_eq]
    refine meets_bind (meets_advance sound live fun after _ end_eq _ => meets_pure ?_)
    rw [end_eq]
    exact sound.lies.isWrittenAt kind_eq
  · exact meets_unexpected

theorem spells_binding : Spells text origin binding := by
  intro context start sound
  refine meets_startOffset (meets_bind ((meets_name_written sound).mono fun name after written => ?_))
  exact meets_node written

theorem spells_patternProduction : Spells text origin (patternProduction grammar) := by
  intro context start sound
  refine meets_startOffset ((Trail.refl sound).takeSign (fun state _ => ?_) ?_)
  · exact meets_skip fun _ after => leaves_silent rfl context after
  refine (Trail.refl sound).takeSign (fun state _ => ?_) (spells_binding context start sound)
  exact meets_skip fun _ after => leaves_silent rfl context after

theorem spells_memberName {object : Node} {isOptional : Bool}
    (trail : Trail text origin start moved [object] state) :
    Meets (memberName start.token.span.start object isOptional) context state fun node _ =>
      node.IsSpelled text := by
  refine meets_peek ?_
  split
  · exact meets_skip fun _ after => leaves_silent rfl context after
  · refine meets_bind ((meets_word_written trail.sound).mono fun name after written => ?_)
    have within := trail.row.within object List.mem_cons_self
    have ahead := trail.sound.lastStop_le
    exact meets_node ⟨⟨state.token.span.start, after.lastStop⟩, by
      show object.span.stop ≤ state.token.span.start
      omega, rfl, written⟩

theorem spells_optionalLink {object : Node} (trail : Trail text origin start true [object] state) :
    Meets (optionalLink grammar start.token.span.start object) context state fun node _ =>
      node.IsSpelled text := by
  refine meets_atSign ?_
  split
  · exact silent_callRest context state
  refine meets_atSign ?_
  split
  · exact silent_indexRest context state
  · exact spells_memberName trail

/-- Of a list only a single element is the whole. -/
theorem leaves_single {first : Node} {item : Reader Node} (spelled : first.IsSpelled text) :
    Leaves (loop (fun items => do
      if ← takeSign "," then
        return .inl (items ++ [← item])
      else
        return .inr items) [first])
      fun items => ∀ single, items = [single] → single.IsSpelled text := by
  refine leaves_loop (fun items => items ≠ [] ∧ ∀ single, items = [single] → single.IsSpelled text)
    ⟨nofun, fun single single_eq => ?_⟩ fun items all => .skip fun goesOn => ?_
  · obtain rfl : first = single := by simpa using single_eq
    exact spelled
  split
  · refine .skip fun item => leaves_pure ⟨by simp, fun single single_eq => ?_⟩
    have none_before : items = [] := by simpa using congrArg List.dropLast single_eq
    exact absurd none_before all.1
  · exact leaves_pure all.2

end Names

/-- The productions of a grammar have the names of their trees from the text. -/
structure Spellings (text : List Char) (origin : Nat) (grammar : Grammar) : Prop where
  nests : Nests text origin grammar
  shapes : Shapes grammar
  assignment : Spells text origin grammar.assignment
  unary : Spells text origin grammar.unary
  leftHand : Spells text origin grammar.leftHand
  pattern : Spells text origin grammar.pattern
  statement : ∀ isSingle, Spells text origin (grammar.statement isSingle)

namespace Spellings

variable {text : List Char} {origin : Nat} {grammar : Grammar} {start state : ReadState}
  {context : ReadContext} (spellings : Spellings text origin grammar)

include spellings

/-! ### Expressions -/

theorem expression : Spells text origin (expression grammar) := by
  intro context start sound
  refine meets_startOffset (meets_bind ((spellings.assignment context start sound).mono ?_))
  intro first state spelled
  refine meets_bind ((leaves_single spelled context state).mono fun items after single => ?_)
  split
  · exact meets_pure (single _ rfl)
  · exact leaves_silent rfl context after

theorem silent_functionFrom {start : Nat} {form : FunctionForm} {isAsync nameless : Bool} :
    Leaves (functionFrom grammar start form isAsync nameless) (IsSpelled text) :=
  spellings.shapes.functionFrom.mono fun function holds => by
    obtain ⟨-, isGenerator, kind_eq⟩ := holds
    obtain ⟨kind, span, children⟩ := function
    exact .of_isSilent (by rw [show kind = _ from kind_eq]; rfl)

theorem silent_classFrom {start : Nat} {marks : List Node} {isDeclaration : Bool}
    (all : ∀ mark ∈ marks, mark.IsValue) :
    Leaves (classFrom grammar start marks isDeclaration) (IsSpelled text) :=
  (spellings.shapes.classFrom all).mono fun class_ holds => by
    obtain ⟨-, hasParent, kind_eq⟩ := holds
    obtain ⟨kind, span, children⟩ := class_
    exact .of_isSilent (by rw [show kind = _ from kind_eq]; rfl)

theorem silent_wordOperand {word : String} : Leaves (wordOperand grammar word) (IsSpelled text) := by
  have keyword {start : Nat} :
      Leaves (do advance; node start (.keyword word) []) (IsSpelled text) :=
    .skip fun _ => leaves_silent rfl
  refine .skip fun _ => ?_
  split
  · exact spellings.silent_functionFrom
  · exact spellings.silent_classFrom (List.forall_mem_nil _)
  · refine .skip fun _ => .skip fun second => ?_
    split
    · exact .skip fun _ => spellings.silent_functionFrom
    · exact silent_reference
  · exact keyword
  · exact keyword
  · exact keyword
  · exact keyword
  · exact .skip fun _ => .skip fun _ => .skip fun _ => .skip fun _ => .require (leaves_silent rfl)
  · exact silent_reference

theorem operand : Spells text origin (operand grammar) := by
  intro context start sound
  refine meets_peek ?_
  dsimp only
  split
  · split
    · exact silent_reference context start
    · exact spellings.silent_wordOperand context start
  · exact meets_skip fun _ after => leaves_silent rfl context after
  · exact meets_skip fun _ after => leaves_silent rfl context after
  · exact silent_template context start
  · rename_i kind_eq
    refine (Trail.refl sound).advance (by simp [kind_eq]) fun state trail => ?_
    refine meets_bind (meets_within (spellings.expression _ state trail.sound) |>.mono ?_)
    exact fun inner _ spelled => meets_skip fun _ _ => meets_node spelled
  · exact silent_arrayLiteral context start
  · exact silent_objectLiteral context start
  · exact silent_regex context start
  · exact silent_regex context start
  · exact (spellings.shapes.decorators.bind fun marks all => spellings.silent_classFrom all)
      context start
  · exact meets_unexpected

/-- The last link is the whole. -/
theorem links {allowsCalls : Bool} {base : Node} (spelled : base.IsSpelled text)
    (trail : Trail text origin start true [base] state) :
    Meets (links grammar allowsCalls start.token.span.start base) context state fun node _ =>
      node.IsSpelled text := by
  refine meets_loop (fun round state =>
    Trail text origin start true [round.1] state ∧ round.1.IsSpelled text) ⟨trail, spelled⟩ ?_
  intro round state holds
  obtain ⟨object, hasOptional⟩ := round
  obtain ⟨trail, spelled⟩ := holds
  have linked {reader : Reader Node} {state : ReadState}
      (gives : Meets reader context state fun node after =>
        Trail text origin start false [node] after)
      (spells : Meets reader context state fun node _ => node.IsSpelled text) :
      Meets reader context state fun node after =>
        Trail text origin start true [node] after ∧ node.IsSpelled text :=
    Meets.mono (meets_and gives spells) fun _ _ holds =>
      ⟨holds.1.moves List.mem_cons_self, holds.2⟩
  refine meets_peek (meets_read ?_)
  dsimp only
  split
  · rename_i is_dot
    refine trail.advance (by simp [isSign_iff.1 is_dot]) fun state trail => ?_
    exact meets_bind ((linked (Nests.memberName trail) (spells_memberName trail)).mono
      fun link state holds => meets_pure holds)
  split
  · rename_i is_link
    refine meets_require fun _ => ?_
    refine trail.advance (by simp [isSign_iff.1 is_link]) fun state trail => ?_
    exact meets_bind ((linked (spellings.nests.optionalLink trail) (spells_optionalLink trail)).mono
      fun link state holds => meets_pure holds)
  split
  · exact meets_bind ((linked (spellings.nests.indexRest trail) (silent_indexRest context state)).mono
      fun link state holds => meets_pure holds)
  split
  · exact meets_bind ((linked (spellings.nests.callRest trail) (silent_callRest context state)).mono
      fun link state holds => meets_pure holds)
  split
  · refine meets_forbid fun _ => spellings.nests.template.bind trail fun quasi state trail => ?_
    exact meets_bind ((linked (trail.node rfl) (leaves_silent rfl context state)).mono
      fun link state holds => meets_pure holds)
  split
  · exact meets_bind (Meets.mono (leaves_silent rfl context state) fun _ _ chain =>
      meets_pure chain)
  · exact meets_pure spelled

theorem leftHandProduction : Spells text origin (leftHandProduction grammar) := by
  intro context start sound
  have based {base : Reader Node} (gives : Gives text origin base) (spells : Spells text origin base) :
      Meets (do let base ← base; Reader.links grammar true start.token.span.start base) context start
        fun node _ => node.IsSpelled text :=
    meets_bind (Meets.mono (meets_and (gives context start sound) (spells context start sound))
      fun _ _ holds => spellings.links holds.2 (holds.1.moves List.mem_cons_self))
  refine meets_startOffset (meets_atWord ?_)
  split
  · exact based spellings.nests.construction silent_construction.spells
  refine meets_atWord ?_
  split
  · exact based spellings.nests.importExpression silent_importExpression.spells
  · exact based spellings.nests.operand spellings.operand

theorem postfixOperand : Spells text origin (postfixOperand grammar) := by
  intro context start sound
  refine meets_startOffset (meets_bind ((spellings.leftHand context start sound).mono ?_))
  intro inner state spelled
  refine meets_peek ?_
  split
  · exact meets_skip fun _ _ => meets_skip fun _ after => leaves_silent rfl context after
  · exact meets_pure spelled

theorem awaitOperand : Spells text origin (awaitOperand grammar) := by
  intro context start sound
  refine meets_startOffset (meets_read (meets_peekSecond ?_))
  dsimp only
  split
  · refine meets_skip fun _ state => ?_
    split
    · exact meets_skip fun _ after => leaves_silent rfl context after
    · exact meets_skip fun _ _ => meets_skip fun _ after => leaves_silent rfl context after
  · exact spellings.postfixOperand context start sound

theorem unaryProduction : Spells text origin (unaryProduction grammar) := by
  intro context start sound
  have prefixed {operator : String} :
      Meets (do
        advance
        let inner ← grammar.unary
        node start.token.span.start (.unary operator) [inner]) context start
        fun node _ => node.IsSpelled text :=
    meets_skip fun _ _ => meets_skip fun _ after => leaves_silent rfl context after
  have stepped {operator : String} :
      Meets (do
        advance
        let goal ← simpleTarget (← grammar.unary)
        node start.token.span.start (.update operator true) [goal]) context start
        fun node _ => node.IsSpelled text :=
    meets_skip fun _ _ => meets_skip fun _ _ => meets_skip fun _ after =>
      leaves_silent rfl context after
  refine meets_peek ?_
  dsimp only
  split
  · exact prefixed
  · exact prefixed
  · exact prefixed
  · exact prefixed
  · exact stepped
  · exact stepped
  · exact prefixed
  · exact prefixed
  · exact prefixed
  · exact spellings.awaitOperand context start sound
  · exact spellings.postfixOperand context start sound

theorem rowOperand : Spells text origin (rowOperand grammar) := by
  intro context start sound
  refine meets_peek ?_
  split
  · refine meets_skip fun _ _ => meets_skip fun _ _ => meets_skip fun _ after => ?_
    exact meets_require fun _ => leaves_silent rfl context after
  · exact spellings.unary context start sound

theorem row : Spells text origin (row grammar) := by
  intro context start sound
  refine meets_bind ((spellings.rowOperand context start sound).mono fun first _ spelled => ?_)
  refine meets_skip fun others _ => ?_
  split
  · rename_i tree assembled
    exact meets_pure (BinaryOperator.isSpelled_assemble assembled spelled)
  · exact meets_failAt

theorem conditional : Spells text origin (conditional grammar) := by
  intro context start sound
  refine meets_startOffset (meets_bind ((spellings.row context start sound).mono ?_))
  intro test state spelled
  refine meets_skip fun isChoice _ => ?_
  split
  · exact meets_skip fun _ _ => meets_skip fun _ _ => meets_skip fun _ after =>
      leaves_silent rfl context after
  · exact meets_pure spelled

theorem assignmentProduction : Spells text origin (assignmentProduction grammar) := by
  intro context start sound
  refine meets_startOffset ?_
  refine spellings.nests.arrowHead?.bind (.refl sound) fun head state trail => ?_
  cases head with
  | some head => exact silent_arrowBody context state
  | none =>
      refine meets_atWord (meets_read ?_)
      split
      · exact silent_yieldExpression context state
      refine meets_bind ((spellings.conditional context state trail.sound).mono ?_)
      intro left after spelled
      refine meets_peek ?_
      split
      · exact meets_pure spelled
      · rename_i operator found
        have assigned {goal : Node} {state : ReadState} (spelled : goal.IsSpelled text) :
            Meets (do
              advance
              let value ← grammar.assignment
              node start.token.span.start (.assignment operator) [goal, value]) context state
              fun node _ => node.IsSpelled text :=
          meets_skip fun _ _ => meets_skip fun _ _ => meets_node spelled
        dsimp only
        split
        · unfold Reader.target
          split
          · exact meets_bind (meets_pure (assigned (spelled.target? ‹_›)))
          · exact meets_bind meets_failAt
        · unfold Reader.simpleTarget
          split
          · exact meets_bind (meets_pure (assigned (spelled.simpleTarget? ‹_›)))
          · exact meets_bind meets_failAt

/-! ### Statements -/

theorem declarator : Spells text origin (declarator grammar) := by
  intro context start sound
  refine meets_startOffset (meets_bind ((spellings.pattern context start sound).mono ?_))
  intro pattern state spelled
  refine meets_skip fun isGiven _ => ?_
  split
  · exact meets_skip fun _ _ => meets_node spelled
  · exact meets_node spelled

theorem variableStatement {form : VariableForm} {words : Nat} (sound : Sound text origin state)
    (goes : GoesOn words state) :
    Meets (variableStatement grammar form words) context state fun node _ =>
      node.IsSpelled text := by
  refine meets_startOffset (meets_bind (((Trail.refl sound).skipWords goes).mono ?_))
  intro _ after trail
  refine meets_bind (meets_bind ((spellings.declarator context after trail.sound).mono ?_))
  intro first between spelled
  refine (leaves_single spelled context between).mono fun items after single => ?_
  exact meets_require fun _ => meets_skip fun _ _ => meets_node (.variables single)

theorem expressionStatement : Spells text origin (expressionStatement grammar) := by
  intro context start sound
  refine meets_peek (meets_peekSecond ?_)
  split
  · exact meets_skip fun _ _ => meets_skip fun _ _ => meets_skip fun _ after =>
      leaves_silent rfl context after
  · refine meets_bind ((spellings.expression context start sound).mono fun value _ spelled => ?_)
    exact meets_skip fun _ _ => meets_node spelled

theorem wordStatement {isSingle : Bool} {word : String} :
    Spells text origin (wordStatement grammar isSingle word) := by
  intro context start sound
  refine meets_startOffset ?_
  split
  · exact silent_ifStatement context start
  · exact silent_forLoop context start
  · exact silent_whileLoop context start
  · exact silent_doLoop context start
  · exact silent_withStatement context start
  · exact silent_switchStatement context start
  · exact silent_tryStatement context start
  · exact silent_jump (fun _ => rfl) context start
  · exact silent_jump (fun _ => rfl) context start
  · exact silent_returnStatement context start
  · exact silent_throwStatement context start
  · exact meets_skip fun _ _ => meets_skip fun _ after => leaves_silent rfl context after
  · refine meets_bind ((spellings.silent_functionFrom context start).mono fun item _ spelled => ?_)
    split
    · exact meets_bind meets_failAt
    · exact meets_pure spelled
  · refine meets_peekSecond ?_
    split
    · exact spellings.expressionStatement context start sound
    · exact silent_importDeclaration context start
  · exact silent_exportItem context start
  · exact meets_forbid fun _ =>
      spellings.silent_classFrom (List.forall_mem_nil _) context start
  · refine meets_peekSecond ?_
    split
    · exact meets_forbid fun _ => meets_skip fun _ after =>
        spellings.silent_functionFrom context after
    · exact spellings.expressionStatement context start sound
  · exact spellings.expressionStatement context start sound

theorem statementProduction {isSingle : Bool} :
    Spells text origin (statementProduction grammar isSingle) := by
  intro context start sound
  refine meets_peek ?_
  dsimp only
  split
  · exact silent_block context start
  · exact meets_skip fun _ after => leaves_silent rfl context after
  · exact meets_forbid fun _ => (spellings.shapes.decorators.bind fun marks all =>
      spellings.silent_classFrom all) context start
  · refine meets_bind (meets_variableForm? (fun form words goes => ?_) ?_)
    · exact meets_forbid fun _ => spellings.variableStatement sound goes
    · exact spellings.wordStatement context start sound
  · exact spellings.expressionStatement context start sound

theorem statementList {closes : Token → Bool} (sound : Sound text origin state) :
    Meets (statementList grammar closes) context state fun items _ =>
      ∀ item ∈ items, item.IsSpelled text := by
  refine meets_loop (fun items state =>
    Sound text origin state ∧ ∀ item ∈ items, item.IsSpelled text)
    ⟨sound, fun _ => nofun⟩ fun items state holds => ?_
  obtain ⟨sound, all⟩ := holds
  refine meets_peek ?_
  split
  · exact meets_pure all
  · have gives := spellings.nests.statement false context state sound
    have spells := spellings.statement false context state sound
    refine meets_bind ((meets_and gives spells).mono fun item after both => meets_pure ?_)
    obtain ⟨trail, spelled⟩ := both
    exact ⟨trail.sound, forall_mem_snoc all spelled⟩

end Spellings

end Reader

/-! ## Programs -/

theorem spellings_grammar (text : List Char) (origin depth : Nat) :
    Reader.Spellings text origin (grammar depth) := by
  induction depth with
  | zero =>
      exact
        { nests := nests_grammar text origin 0
          shapes := shapes_grammar 0
          assignment := fun _ _ _ => Reader.meets_unexpected
          unary := fun _ _ _ => Reader.meets_unexpected
          leftHand := fun _ _ _ => Reader.meets_unexpected
          pattern := fun _ _ _ => Reader.meets_unexpected
          statement := fun _ _ _ _ => Reader.meets_unexpected }
  | succ depth spellings =>
      exact
        { nests := nests_grammar text origin (depth + 1)
          shapes := shapes_grammar (depth + 1)
          assignment := spellings.assignmentProduction
          unary := spellings.unaryProduction
          leftHand := spellings.leftHandProduction
          pattern := Reader.spells_patternProduction
          statement := fun _ => spellings.statementProduction }

theorem isSpelled_readGoal {allowsAwait : Bool} {text : List Char} {program : Program}
    {state : ReadState} (read : readGoal allowsAwait text = .ok (program, state)) :
    ∀ statement ∈ program.body, statement.IsSpelled text := by
  obtain ⟨offset, start, statements, ended, sound, run, body_eq, -⟩ :=
    statements_of_readGoal read
  have all := (spellings_grammar text offset (depthLimit text.length)).statementList sound
    statements ended run
  rw [body_eq]
  exact fun statement listed => all statement ((Reader.suffix_splitDirectives statements).mem listed)

/-- The statements of a script that was read have their names from its text. -/
theorem Script.isSpelled_of_read {text file : String} {script : Script}
    (read : Script.read text file = .ok script) :
    ∀ statement ∈ script.program.body, statement.IsSpelled text.toList := by
  unfold Script.read at read
  split at read
  · rename_i program program_read
    obtain rfl := Except.ok.inj read
    obtain ⟨allowsAwait, state, goal_read⟩ := Program.exists_readGoal program_read
    exact isSpelled_readGoal goal_read
  · contradiction

end Shakedown
