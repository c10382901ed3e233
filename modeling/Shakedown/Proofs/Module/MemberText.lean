import Shakedown.Proofs.Edit.Occurrence
import Shakedown.Proofs.Module.Tidiness
import Shakedown.Proofs.Pass.Folding
import Shakedown.Proofs.Pass.MemberOrder

/-!
# The text with its members folded

Folding alone leaves out every member of a class with the blanks around it, and puts the assignments
of a class in front of its `return`, in their order and each with the suffix of the class behind it.
No two statements share a character. So the members are left out one by one, no class loses
anything, and everything else stays as it is.
-/

namespace Shakedown
namespace StaticMember

open Node Optimize Span Text

variable {script : Script} {statement other declaration : Node} {variable_ : ClassVariable}
  {offset : Nat}

/-! ## What arrives and what is left out -/

/-- Whether a statement assigns a property of the variable of a class, behind the class. -/
def IsMember (script : Script) (variable_ : ClassVariable) (statement : Node) : Prop :=
  variable_.declarationStop ≤ statement.span.start ∧
    ∃ assignment, Metadata.assignment? statement = some assignment ∧
      script.scoping.sole? assignment.object.span.start = some variable_.symbol

/-- What arrives in front of a `return` for a member: the text of its assignment and the suffix. -/
def arrival (script : Script) (variable_ : ClassVariable) (statement : Node) : List Char :=
  match Metadata.assignment? statement with
  | none => []
  | some assignment =>
      (slice? script.text.toList assignment.expression.span).getD [] ++
        (suffix script.text variable_.returnSpan.start).toList

/-- What arrives in front of the `return` of a class: all of its members in their order. -/
def arriving (script : Script) (variable_ : ClassVariable) : List Char :=
  (membersOf script variable_).flatMap (arrival script variable_)

/-- What arrives at an offset: the members of the class whose `return` begins there. -/
def arrivingAt (script : Script) (offset : Nat) : List Char :=
  match (classes script).find? (·.returnSpan.start == offset) with
  | none => []
  | some variable_ => arriving script variable_

/-- What is left out: the members of all classes, with the blanks around them. -/
def memberGaps (script : Script) : List Span :=
  (classes script).flatMap fun variable_ =>
    (membersOf script variable_).map fun statement => statementGap script.text statement.span

/-- A text without the members, and with the members that arrive in it. -/
def readFolded (script : Script) (offset : Nat) (text : List Char) : List Char :=
  Meaning.read (memberGaps script) (arrivingAt script) offset text

/-- The result has in the place of a range what the range becomes. -/
def Replaces (script : Script) (span : Span) (become : List Char → List Char)
    (result : List Char) : Prop :=
  ∃ front part back, script.text.toList = front ++ part ++ back ∧ width front = span.start ∧
    width (front ++ part) = span.stop ∧
    result = readFolded script 0 front ++ become part ++ readFolded script span.stop back

/-- The text of a script with its members folded. -/
structure IsFoldedText (script : Script) (result : List Char) : Prop where
  /-- The members of a class are the plain assignments behind the class to properties of the one
  variable that holds it, in their order. -/
  members : ∀ variable_ ∈ classes script,
    (membersOf script variable_).Sublist script.program.body ∧
      ∀ statement ∈ script.program.body,
        statement ∈ membersOf script variable_ ↔ IsMember script variable_ statement
  /-- A member arrives as the text of its assignment, with the suffix of the class behind it. -/
  arrivals : ∀ variable_ ∈ classes script, ∀ statement ∈ membersOf script variable_,
    ∃ assignment chars, Metadata.assignment? statement = some assignment ∧
      slice? script.text.toList assignment.expression.span = some chars ∧
      arrival script variable_ statement =
        chars ++ (suffix script.text variable_.returnSpan.start).toList
  /-- All members are left out, and arrive in front of the `return` of their class. -/
  result_eq : result = readFolded script 0 script.text.toList
  /-- Of a member and the blanks around it nothing is left in their place. -/
  leaves : ∀ variable_ ∈ classes script, ∀ statement ∈ membersOf script variable_,
    Replaces script (statementGap script.text statement.span) (fun _ => []) result
  /-- The `return` of a class stands behind the members of the class. -/
  returns : ∀ variable_ ∈ classes script,
    Replaces script variable_.returnSpan (arriving script variable_ ++ ·) result
  /-- A statement that is no member, and no class that has members, stands as it was. -/
  others : ∀ statement ∈ script.program.body,
    (∀ variable_ ∈ classes script, ¬IsMember script variable_ statement) →
    (∀ variable_, classVariable? script.scoping statement = some variable_ →
      ∀ other ∈ script.program.body, ¬IsMember script variable_ other) →
    Replaces script statement.span id result

/-! ## Different statements -/

section Row

variable {first last : Nat} (row : InRow script.text.toList first last script.program.body)

include row

/-- Statements whose gaps share an offset are the same. -/
theorem eq_of_held (listed : statement ∈ script.program.body)
    (also_listed : other ∈ script.program.body)
    (held : (statementGap script.text statement.span).holds offset)
    (also_held : (statementGap script.text other.span).holds offset) : statement = other :=
  (eq_or_gaps_apart row listed also_listed).resolve_right (not_isApart_of_holds held also_held)

/-- The `return` of a class lies in the gap of the statement that declares the class. -/
theorem exists_declaring (known : variable_ ∈ classes script) :
    ∃ declaration ∈ script.program.body,
      classVariable? script.scoping declaration = some variable_ ∧
      Framed script.text.toList variable_.returnSpan ∧
      (statementGap script.text declaration.span).covers variable_.returnSpan := by
  obtain ⟨declaration, in_body, declared⟩ := List.mem_filterMap.1 known
  obtain ⟨returns, span_eq, below⟩ := exists_return declared
  have spaced := row.spaced declaration in_body
  rw [← span_eq]
  exact ⟨declaration, in_body, declared, (spaced.below below.mem_nodes).fits.framed,
    covers_trans (gap_covers_span row in_body) (spaced.covers below.mem_nodes)⟩

/-- Two classes do not share their `return`. -/
theorem eq_of_returnSpan {class_ : ClassVariable} (known : variable_ ∈ classes script)
    (also_known : class_ ∈ classes script)
    (same : variable_.returnSpan.start = class_.returnSpan.start) : variable_ = class_ := by
  obtain ⟨declaration, listed, declared, framed, inside⟩ := exists_declaring row known
  obtain ⟨other, also_listed, also_declared, also_framed, also_inside⟩ :=
    exists_declaring row also_known
  have held := holds_of_covers inside (holds_start (isProper_iff.2 framed.proper))
  have also_held := holds_of_covers also_inside (holds_start (isProper_iff.2 also_framed.proper))
  rw [← same] at also_held
  obtain rfl := eq_of_held row listed also_listed held also_held
  exact Option.some.inj (declared.symm.trans also_declared)

/-- In front of the `return` of a class the members of this class arrive. -/
theorem arrivingAt_returnSpan (known : variable_ ∈ classes script) :
    arrivingAt script variable_.returnSpan.start = arriving script variable_ := by
  unfold arrivingAt
  cases found : (classes script).find? (·.returnSpan.start == variable_.returnSpan.start) with
  | none => exact absurd (List.find?_eq_none.1 found variable_ known) (by simp)
  | some class_ =>
      have same : class_.returnSpan.start = variable_.returnSpan.start := by
        simpa using List.find?_some found
      rw [eq_of_returnSpan row (List.mem_of_find?_eq_some found) known same]

end Row

/-! ## Members -/

section Read

variable {text file : String} (read : Script.read text file = .ok script)

include read

/-- A name that has one declaration does not name two classes. -/
theorem eq_of_symbol {class_ : ClassVariable} (known : variable_ ∈ classes script)
    (also_known : class_ ∈ classes script) (same : variable_.symbol = class_.symbol)
    {place : Nat} (sole : script.scoping.sole? place = some variable_.symbol) :
    variable_ = class_ := by
  have once : variable_.symbol ∉ script.scoping.repeated := by
    unfold Scoping.sole? at sole
    split at sole
    · rename_i meant
      obtain rfl := Option.some.inj sole
      exact Scoping.not_mem_repeated_of_resolve meant
    · contradiction
  obtain ⟨declaration, listed, declared, -, binding, below, binding_eq⟩ :=
    exists_declaration known
  obtain ⟨other, also_listed, also_declared, -, also_binding, also_below, also_binding_eq⟩ :=
    exists_declaration also_known
  rw [← same] at also_binding_eq
  rw [Script.scoping_of_read read] at once binding_eq also_binding_eq
  have start_eq := Scoping.eq_of_symbolAt? binding_eq once
  have also_start_eq := Scoping.eq_of_symbolAt? also_binding_eq once
  have row := (Script.isSpaced_of_read read).row
  have held := gap_holds_start row listed below
  rw [start_eq, ← also_start_eq] at held
  obtain rfl := eq_of_held row listed also_listed held (gap_holds_start row also_listed also_below)
  exact Option.some.inj (declared.symm.trans also_declared)

/-- The members of a class are the assignments behind it to properties of its variable. -/
theorem mem_membersOf_iff (known : variable_ ∈ classes script)
    (listed : statement ∈ script.program.body) :
    statement ∈ membersOf script variable_ ↔ IsMember script variable_ statement := by
  rw [mem_membersOf]
  constructor
  · rintro ⟨-, ⟨assignment, class_⟩, foldable, rfl⟩
    obtain ⟨assigned, -, sole, behind⟩ := foldable?_eq_some foldable
    exact ⟨behind, assignment, assigned, sole⟩
  · rintro ⟨behind, assignment, assigned, sole⟩
    have found : (classes script).find? (·.symbol == variable_.symbol) = some variable_ := by
      cases found : (classes script).find? (·.symbol == variable_.symbol) with
      | none => exact absurd (List.find?_eq_none.1 found variable_ known) (by simp)
      | some class_ =>
          have same : class_.symbol = variable_.symbol := by simpa using List.find?_some found
          rw [eq_of_symbol read known (List.mem_of_find?_eq_some found) same.symm sole]
    refine ⟨listed, (assignment, variable_), ?_, rfl⟩
    simp [foldable?, assigned, sole, found, Nat.not_lt.2 behind]

end Read

/-! ## The edits -/

/-- The edit for a member: its assignment moves out of its gap and in front of the `return`. -/
def memberEdit? (script : Script) (statement : Node) : Option Edit :=
  (foldable? script.scoping (classes script) statement).map fun folded =>
    .move folded.1.expression.span (statementGap script.text statement.span)
      folded.2.returnSpan.start (suffix script.text folded.2.returnSpan.start)

/-- The edits for all members. -/
def memberEdits (script : Script) : List Edit :=
  script.program.body.filterMap (memberEdit? script)

theorem memberEdit?_of_foldable {folded : Metadata.PropertyAssignment × ClassVariable}
    (foldable : foldable? script.scoping (classes script) statement = some folded) :
    memberEdit? script statement = some (.move folded.1.expression.span
      (statementGap script.text statement.span) folded.2.returnSpan.start
      (suffix script.text folded.2.returnSpan.start)) := by
  rw [memberEdit?, foldable]
  rfl

theorem memberEdit?_of_none
    (unfoldable : foldable? script.scoping (classes script) statement = none) :
    memberEdit? script statement = none := by
  rw [memberEdit?, unfoldable]
  rfl

/-- Statements that are not gone and of which no gap covers another are all recorded. -/
theorem edits_foldl_move_of_still {statements : List Node} {revision : Revision}
    (apart : statements.Pairwise fun statement other =>
      ¬(statementGap script.text statement.span).covers other.span)
    (still : ∀ statement ∈ statements, revision.isGone statement.span = false) :
    (statements.foldl (move script (classes script)) revision).edits =
      revision.edits ++ statements.filterMap (memberEdit? script) := by
  induction statements generalizing revision with
  | nil => simp
  | cons statement rest ih =>
      obtain ⟨gap_apart, rest_apart⟩ := List.pairwise_cons.1 apart
      obtain ⟨first_still, rest_still⟩ := List.forall_mem_cons.1 still
      rw [List.foldl_cons, move]
      cases foldable : foldable? script.scoping (classes script) statement with
      | none =>
          rw [List.filterMap_cons_none (memberEdit?_of_none foldable)]
          exact ih rest_apart rest_still
      | some folded =>
          rw [List.filterMap_cons_some (memberEdit?_of_foldable foldable)]
          dsimp only
          rw [first_still, if_neg Bool.false_ne_true, Revision.move, ih rest_apart, Revision.record,
            List.append_assoc, List.singleton_append]
          intro other listed
          rw [Revision.isGone_record_eq, rest_still other listed]
          simpa [Edit.gap?] using gap_apart other listed

theorem moves_of_memberEdit? {edit : Edit} (edit_eq : memberEdit? script statement = some edit) :
    Moves script (classes script) statement edit := by
  obtain ⟨⟨assignment, variable_⟩, foldable, rfl⟩ := Option.map_eq_some_iff.1 edit_eq
  exact ⟨assignment, variable_, foldable, rfl⟩

theorem exists_moves {edit : Edit} (member : edit ∈ memberEdits script) :
    ∃ statement ∈ script.program.body, Moves script (classes script) statement edit := by
  obtain ⟨statement, listed, edit_eq⟩ := List.mem_filterMap.1 member
  exact ⟨statement, listed, moves_of_memberEdit? edit_eq⟩

theorem mem_memberGaps {gap : Span} : gap ∈ memberGaps script ↔
    ∃ statement ∈ script.program.body, ∃ folded,
      foldable? script.scoping (classes script) statement = some folded ∧
      gap = statementGap script.text statement.span := by
  simp only [memberGaps, List.mem_flatMap, List.mem_map, mem_membersOf]
  constructor
  · rintro ⟨variable_, -, statement, ⟨listed, folded, foldable, -⟩, rfl⟩
    exact ⟨statement, listed, folded, foldable, rfl⟩
  · rintro ⟨statement, listed, ⟨assignment, variable_⟩, foldable, rfl⟩
    obtain ⟨-, known, -⟩ := foldable?_eq_some foldable
    exact ⟨variable_, known, statement, ⟨listed, _, foldable, rfl⟩, rfl⟩

/-- Folding alone removes nothing and inserts nothing. -/
theorem bodyText_memberEdits (source : List Char) (body : Span) :
    Meaning.bodyText source (memberEdits script) body = (slice? source body).getD [] := by
  refine Meaning.read_eq_self fun offset _ _ => ⟨?_, ?_⟩
  · have no_removal : (memberEdits script).filterMap Edit.removal? = [] := by
      refine List.filterMap_eq_nil_iff.2 fun edit member => ?_
      obtain ⟨_, -, _, _, -, rfl⟩ := exists_moves member
      rfl
    rw [Meaning.removals, no_removal]
    rfl
  · have no_insertion : Meaning.inserted (memberEdits script) offset = [] := by
      refine List.flatMap_eq_nil_iff.2 fun edit member => ?_
      obtain ⟨_, -, _, _, -, rfl⟩ := exists_moves member
      rfl
    rw [Meaning.putInside, no_insertion, ite_self]

section Row

variable {first last : Nat} (row : InRow script.text.toList first last script.program.body)

include row

/-- On its own folding records the edits for all members. -/
theorem edits_record_empty : (record script Revision.empty).edits = memberEdits script := by
  have apart : script.program.body.Pairwise fun statement other =>
      ¬(statementGap script.text statement.span).covers other.span := by
    refine (gaps_apart row).imp_of_mem fun {statement other} _ also_listed ordered covered => ?_
    have outside := covers_iff.1 covered
    have inside := covers_iff.1 (gap_covers_span row also_listed)
    have proper := (row.spaced other also_listed).proper
    omega
  exact edits_foldl_move_of_still apart fun _ _ => rfl

/-- No member takes anything of a statement that is none. -/
theorem any_memberGaps (listed : statement ∈ script.program.body)
    (unfoldable : foldable? script.scoping (classes script) statement = none)
    (held : (statementGap script.text statement.span).holds offset) :
    (memberGaps script).any (·.holds offset) = false := by
  refine List.any_eq_false.2 fun gap member => ?_
  obtain ⟨other, also_listed, folded, foldable, rfl⟩ := mem_memberGaps.1 member
  intro also_held
  obtain rfl := eq_of_held row listed also_listed held also_held
  rw [unfoldable] at foldable
  contradiction

theorem mem_gaps_memberEdits {gap : Span} :
    gap ∈ Meaning.gaps (memberEdits script) ↔ gap ∈ memberGaps script := by
  rw [Meaning.mem_gaps_iff, mem_memberGaps]
  constructor
  · rintro ⟨⟨edit, member, gap_eq⟩, -⟩
    obtain ⟨statement, listed, moves⟩ := exists_moves member
    obtain rfl := Option.some.inj (moves.gap?.symm.trans gap_eq)
    obtain ⟨assignment, variable_, foldable, -⟩ := moves
    exact ⟨statement, listed, _, foldable, rfl⟩
  · rintro ⟨statement, listed, folded, foldable, rfl⟩
    have member := List.mem_filterMap.2 ⟨statement, listed, memberEdit?_of_foldable foldable⟩
    have held := gap_holds_start row listed (mem_nodes.2 (.inl rfl))
    exact ⟨⟨_, member, rfl⟩, isProper_of_holds held⟩

theorem tidy_memberEdits : Meaning.Tidy script.text.toList (memberEdits script) where
  boundaries := by
    intro edit member
    obtain ⟨statement, listed, assignment, variable_, foldable, rfl⟩ := exists_moves member
    obtain ⟨assigned, known, -⟩ := foldable?_eq_some foldable
    obtain ⟨declaration, -, -, target, -⟩ := exists_declaring row known
    have framed := (row.spaced statement listed).fits.framed
    have expression := ((row.spaced statement listed).below
      (Metadata.expression_mem_nodes assigned)).fits.framed
    have surrounds := surrounds_statementGap framed
    simpa [Edit.offsets] using ⟨expression.begins.isBoundary,
      expression.ends.isBoundary, surrounds.start_boundary,
      surrounds.stop_boundary framed.ends.isBoundary, target.begins.isBoundary⟩
  nested := by
    intro gap member other_gap also_member
    obtain ⟨statement, listed, -, -, rfl⟩ := mem_memberGaps.1 ((mem_gaps_memberEdits row).1 member)
    obtain ⟨other, also_listed, -, -, rfl⟩ :=
      mem_memberGaps.1 ((mem_gaps_memberEdits row).1 also_member)
    obtain rfl | apart := eq_or_gaps_apart row listed also_listed
    · exact .inr (.inl (covers_refl _))
    · exact .inl apart
  movesApart := by
    refine List.pairwise_filterMap.2 (List.pairwise_filterMap.2 ((gaps_apart row).imp ?_))
    intro statement other ordered edit edit_eq later later_eq removed removed_eq also also_eq
    obtain rfl := Option.some.inj ((moves_of_memberEdit? edit_eq).removed?.symm.trans removed_eq)
    obtain rfl := Option.some.inj ((moves_of_memberEdit? later_eq).removed?.symm.trans also_eq)
    exact isApart_of_le ordered
  bodies := by
    intro body removed target suffix member
    obtain ⟨statement, listed, moves⟩ := exists_moves member
    have spaced := row.spaced statement listed
    have inside := moves.covers_body spaced
    obtain ⟨assignment, variable_, foldable, edit_eq⟩ := moves
    obtain ⟨rfl, rfl, -, -⟩ := Edit.move.inj edit_eq
    have expression := spaced.below
      (Metadata.expression_mem_nodes (foldable?_eq_some foldable).1)
    exact ⟨isProper_iff.2 expression.proper, covers_trans (gap_covers_span row listed) inside⟩
  removalsApart := by
    intro span member
    obtain ⟨edit, listed, removal⟩ := List.mem_filterMap.1 member
    obtain ⟨_, -, _, _, -, rfl⟩ := exists_moves listed
    contradiction
  targets := by
    intro body removed target suffix member gap gap_mem
    obtain ⟨_, -, assignment, variable_, foldable, edit_eq⟩ := exists_moves member
    obtain ⟨-, -, rfl, -⟩ := Edit.move.inj edit_eq
    obtain ⟨-, known, -⟩ := foldable?_eq_some foldable
    obtain ⟨declaration, in_body, declared, framed, inside⟩ := exists_declaring row known
    have free := any_memberGaps row in_body (foldable?_of_classVariable declared)
      (holds_of_covers inside (holds_start (isProper_iff.2 framed.proper)))
    exact Bool.eq_false_iff.2 (List.any_eq_false.1 free gap ((mem_gaps_memberEdits row).1 gap_mem))

/-- What the edits put at a `return` for some of the statements. -/
theorem flatMap_contribution (known : variable_ ∈ classes script) (statements : List Node) :
    (statements.filterMap (memberEdit? script)).flatMap (Meaning.contribution script.text.toList
        (memberEdits script) variable_.returnSpan.start) =
      (statements.filter fun statement =>
        (foldable? script.scoping (classes script) statement).any fun folded =>
          folded.2 == variable_).flatMap (arrival script variable_) := by
  induction statements with
  | nil => rfl
  | cons statement rest ih =>
      cases foldable : foldable? script.scoping (classes script) statement with
      | none =>
          rw [List.filterMap_cons_none (memberEdit?_of_none foldable), List.filter_cons, foldable]
          exact ih
      | some folded =>
          obtain ⟨assignment, class_⟩ := folded
          obtain ⟨assigned, also_known, -⟩ := foldable?_eq_some foldable
          rw [List.filterMap_cons_some (memberEdit?_of_foldable foldable), List.flatMap_cons, ih,
            List.filter_cons, foldable]
          by_cases same : class_ = variable_
          · subst same
            simp [Meaning.contribution, bodyText_memberEdits, arrival, assigned]
          · have elsewhere : class_.returnSpan.start ≠ variable_.returnSpan.start := fun start_eq =>
              same (eq_of_returnSpan row also_known known start_eq)
            simp [Meaning.contribution, elsewhere, same]

/-- The edits put in front of each `return` the members of its class, and nothing elsewhere. -/
theorem put_memberEdits (offset : Nat) :
    Meaning.put script.text.toList (memberEdits script) offset = arrivingAt script offset := by
  unfold arrivingAt
  cases found : (classes script).find? (·.returnSpan.start == offset) with
  | none =>
      refine List.flatMap_eq_nil_iff.2 fun edit member => ?_
      obtain ⟨_, -, assignment, variable_, foldable, rfl⟩ := exists_moves member
      have elsewhere := List.find?_eq_none.1 found variable_ (foldable?_eq_some foldable).2.1
      rw [Meaning.contribution, if_neg (by simpa using elsewhere)]
  | some variable_ =>
      obtain rfl : variable_.returnSpan.start = offset := by simpa using List.find?_some found
      exact flatMap_contribution row (List.mem_of_find?_eq_some found) script.program.body

/-! ## The folded text -/

/-- Near a statement nothing arrives but in front of its own `return`. -/
theorem arrivingAt_eq_nil (listed : statement ∈ script.program.body)
    (held : (statementGap script.text statement.span).holds offset)
    (quiet : ∀ variable_, classVariable? script.scoping statement = some variable_ →
      variable_.returnSpan.start = offset → arriving script variable_ = []) :
    arrivingAt script offset = [] := by
  unfold arrivingAt
  cases found : (classes script).find? (·.returnSpan.start == offset) with
  | none => rfl
  | some variable_ =>
      obtain rfl : variable_.returnSpan.start = offset := by simpa using List.find?_some found
      obtain ⟨declaration, in_body, declared, framed, inside⟩ :=
        exists_declaring row (List.mem_of_find?_eq_some found)
      obtain rfl := eq_of_held row listed in_body held
        (holds_of_covers inside (holds_start (isProper_iff.2 framed.proper)))
      exact quiet variable_ declared rfl

/-- Folding alone gives the text without its members, and with them in front of each `return`. -/
theorem render_record_empty :
    ((record script Revision.empty).render script.text).text.toList =
      readFolded script 0 script.text.toList := by
  have record_eq : record script Revision.empty = ⟨memberEdits script⟩ :=
    congrArg Revision.mk (edits_record_empty row)
  have text_eq : ((Revision.mk (memberEdits script)).render script.text).text.toList =
      Meaning.text script.text.toList (memberEdits script) :=
    (tidy_memberEdits row).chunksOf_standFor.merge.text_eq
  have none_behind : arrivingAt script (width script.text.toList) = [] := by
    have none_ends : (classes script).find?
        (·.returnSpan.start == width script.text.toList) = none := by
      refine List.find?_eq_none.2 fun variable_ known at_end => ?_
      obtain ⟨declaration, -, -, framed, -⟩ := exists_declaring row known
      have proper := framed.proper
      have stop_le := framed.ends.isBoundary.le_width
      rw [beq_iff_eq] at at_end
      omega
    rw [arrivingAt, none_ends]
  rw [record_eq, text_eq, Meaning.text, put_memberEdits row, none_behind, List.append_nil]
  refine Meaning.read_congr fun offset _ _ => ⟨?_, put_memberEdits row offset⟩
  rw [Bool.eq_iff_iff, List.any_eq_true, List.any_eq_true]
  simp only [mem_gaps_memberEdits row]

omit row in
/-- A range becomes what is read of it. -/
theorem replaces_of_read {span : Span} {become : List Char → List Char}
    (begins : IsBoundary script.text.toList span.start)
    (ends : IsBoundary script.text.toList span.stop) (ordered : span.start ≤ span.stop)
    (read_eq : ∀ part, span.start + width part = span.stop →
      readFolded script span.start part = become part) :
    Replaces script span become (readFolded script 0 script.text.toList) := by
  obtain ⟨part, part_eq⟩ := exists_slice? begins ends ordered
  obtain ⟨front, back, source_eq, front_width, part_width⟩ := slice?_eq_some_iff.1 part_eq
  refine ⟨front, part, back, by rw [source_eq, List.append_assoc], front_width,
    by rw [width_append, front_width, part_width], ?_⟩
  rw [← read_eq part part_width, source_eq]
  simp only [readFolded, Meaning.read_append, Nat.zero_add, front_width, part_width,
    List.append_assoc]

/-- Of a member and the blanks around it nothing is left in their place. -/
theorem replaces_gap {folded : Metadata.PropertyAssignment × ClassVariable}
    (listed : statement ∈ script.program.body)
    (foldable : foldable? script.scoping (classes script) statement = some folded) :
    Replaces script (statementGap script.text statement.span) (fun _ => [])
      (readFolded script 0 script.text.toList) := by
  have framed := (row.spaced statement listed).fits.framed
  have surrounds := surrounds_statementGap framed
  have ordered := covers_iff.1 surrounds.covers
  have proper := framed.proper
  refine replaces_of_read surrounds.start_boundary
    (surrounds.stop_boundary framed.ends.isBoundary) (by omega) fun part part_width => ?_
  refine Meaning.read_eq_nil fun offset after before => ?_
  have held : (statementGap script.text statement.span).holds offset := holds_iff.2 (by omega)
  have member := mem_memberGaps.2 ⟨statement, listed, folded, foldable, rfl⟩
  refine ⟨List.any_eq_true.2 ⟨_, member, held⟩, arrivingAt_eq_nil row listed held ?_⟩
  intro variable_ declared
  rw [classVariable?_of_foldable foldable] at declared
  contradiction

/-- The `return` of a class stands behind the members of the class. -/
theorem replaces_returnSpan (known : variable_ ∈ classes script) :
    Replaces script variable_.returnSpan (arriving script variable_ ++ ·)
      (readFolded script 0 script.text.toList) := by
  obtain ⟨declaration, in_body, declared, framed, inside⟩ := exists_declaring row known
  have proper := framed.proper
  have held {offset : Nat} (within : variable_.returnSpan.holds offset) :=
    holds_of_covers inside within
  refine replaces_of_read framed.begins.isBoundary framed.ends.isBoundary (Nat.le_of_lt proper)
    fun part part_width => ?_
  have filled : part ≠ [] := by
    rintro rfl
    rw [width_nil] at part_width
    omega
  rw [← arrivingAt_returnSpan row known]
  refine Meaning.read_stretch filled (fun offset after before => ?_) fun offset after before => ?_
  · exact any_memberGaps row in_body (foldable?_of_classVariable declared)
      (held (holds_iff.2 (by omega)))
  · refine arrivingAt_eq_nil row in_body (held (holds_iff.2 (by omega))) fun class_ found same => ?_
    obtain rfl := Option.some.inj (declared.symm.trans found)
    omega

/-- A statement into which nothing moves, and which does not move itself, stands as it was. -/
theorem replaces_statement (listed : statement ∈ script.program.body)
    (unfoldable : foldable? script.scoping (classes script) statement = none)
    (quiet : ∀ variable_, classVariable? script.scoping statement = some variable_ →
      arriving script variable_ = []) :
    Replaces script statement.span id (readFolded script 0 script.text.toList) := by
  have framed := (row.spaced statement listed).fits.framed
  refine replaces_of_read framed.begins.isBoundary framed.ends.isBoundary
    (Nat.le_of_lt framed.proper) fun part part_width => ?_
  refine Meaning.read_eq_self fun offset after before => ?_
  have held := holds_of_covers (gap_covers_span row listed) (holds_iff.2 ⟨after, by omega⟩)
  exact ⟨any_memberGaps row listed unfoldable held,
    arrivingAt_eq_nil row listed held fun variable_ declared _ => quiet variable_ declared⟩

/-- A member arrives as the text of its assignment, with the suffix of the class behind it. -/
theorem exists_arrival (member : statement ∈ membersOf script variable_) :
    ∃ assignment chars, Metadata.assignment? statement = some assignment ∧
      slice? script.text.toList assignment.expression.span = some chars ∧
      arrival script variable_ statement =
        chars ++ (suffix script.text variable_.returnSpan.start).toList := by
  obtain ⟨listed, ⟨assignment, _⟩, foldable, -⟩ := mem_membersOf.1 member
  obtain ⟨assigned, -⟩ := foldable?_eq_some foldable
  have framed := ((row.spaced statement listed).below
    (Metadata.expression_mem_nodes assigned)).fits.framed
  obtain ⟨chars, chars_eq⟩ := exists_slice? framed.begins.isBoundary framed.ends.isBoundary
    (Nat.le_of_lt framed.proper)
  refine ⟨assignment, chars, assigned, chars_eq, ?_⟩
  rw [arrival, assigned]
  dsimp only
  rw [chars_eq, Option.getD_some]

end Row

/-- Whatever text is read, folding alone moves the members of each class in front of its `return`,
in their order, and changes nothing else. -/
theorem isFoldedText_of_read {text file : String} (read : Script.read text file = .ok script) :
    IsFoldedText script ((record script Revision.empty).render text).text.toList := by
  have row := (Script.isSpaced_of_read read).row
  rw [← Script.text_of_read read, render_record_empty row]
  constructor
  case members =>
    exact fun variable_ known => ⟨List.filter_sublist, fun _ listed =>
      mem_membersOf_iff read known listed⟩
  case arrivals => exact fun variable_ _ statement member => exists_arrival row member
  case result_eq => rfl
  case leaves =>
    intro variable_ known statement member
    obtain ⟨listed, folded, foldable, -⟩ := mem_membersOf.1 member
    exact replaces_gap row listed foldable
  case returns => exact fun variable_ known => replaces_returnSpan row known
  case others =>
    intro statement listed no_member no_class
    refine replaces_statement row listed ?_ fun variable_ declared => ?_
    · cases foldable : foldable? script.scoping (classes script) statement with
      | none => rfl
      | some folded =>
          obtain ⟨assigned, known, sole, behind⟩ := foldable?_eq_some foldable
          exact absurd ⟨behind, _, assigned, sole⟩ (no_member _ known)
    · have known : variable_ ∈ classes script := List.mem_filterMap.2 ⟨statement, listed, declared⟩
      have none_listed : membersOf script variable_ = [] := by
        refine List.eq_nil_iff_forall_not_mem.2 fun other member => ?_
        have also_listed := (mem_membersOf.1 member).1
        exact no_class variable_ declared other also_listed
          ((mem_membersOf_iff read known also_listed).1 member)
      rw [arriving, none_listed]
      rfl

/-- Two classes, and between assignments of their members one that comes too early and one that is
not plain. -/
def scattered : String :=
  "D.q=0;var C=(function()\x7b\n function C()\x7b\x7d\n return C\x7d());" ++
    "var D=(function()\x7bfunction D()\x7b\x7dreturn D\x7d)();\nC.a=1;\nD.b=2; C.c=D;C.d+=4;"

/-- The same with the members in their classes. -/
def gathered : String :=
  "D.q=0;var C=(function()\x7b\n function C()\x7b\x7d\n C.a=1;\n C.c=D;\n return C\x7d());" ++
    "var D=(function()\x7bfunction D()\x7b\x7dD.b=2;return D\x7d)();\nC.d+=4;"

theorem isFoldedText_of_read_scattered : ∃ script,
    Script.read scattered "c.js" = .ok script ∧
    ((record script Revision.empty).render scattered).text = gathered ∧
    IsFoldedText script ((record script Revision.empty).render scattered).text.toList := by
  have text_eq : ((Script.read scattered "c.js").toOption.map fun script =>
      ((record script Revision.empty).render scattered).text) = some gathered := by
    decide +kernel
  cases read : Script.read scattered "c.js" with
  | error failure => simp [read, Except.toOption] at text_eq
  | ok script =>
      rw [read] at text_eq
      exact ⟨script, rfl, Option.some.inj text_eq, isFoldedText_of_read read⟩

end StaticMember
end Shakedown
