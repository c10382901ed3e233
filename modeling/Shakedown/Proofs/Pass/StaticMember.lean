import Shakedown.Pass.StaticMember
import Shakedown.Proofs.Edit.Recording
import Shakedown.Proofs.Pass.Metadata

/-!
# Members move one by one

Folding records at most one move for a statement, in the order of the statements, and changes nothing
that was recorded before.
-/

namespace Shakedown
namespace StaticMember

variable {script : Script} {classes : List ClassVariable} {revision : Revision} {statement : Node}

/-! ## Where members go -/

theorem withoutParentheses_isBelow (node : Node) : node.withoutParentheses.IsBelow node := by
  induction node using Node.induction with
  | step kind span children ih =>
      unfold Node.withoutParentheses
      split
      · rename_i inner node_eq
        obtain ⟨rfl, rfl, rfl⟩ := Node.mk.inj node_eq
        exact .child rfl List.mem_cons_self (ih inner List.mem_cons_self)
      · exact .here

theorem isBelow_of_functionBody? {function inner : Node} {statements : List Node}
    (found : functionBody? function = some statements) (listed : inner ∈ statements) :
    inner.IsBelow function := by
  unfold functionBody? at found
  split at found
  · obtain ⟨body, among, body_eq⟩ := List.exists_of_findSome?_eq_some found
    split at body_eq
    · obtain rfl := Option.some.inj body_eq
      exact .child rfl among (.child rfl listed .here)
    · contradiction
  · contradiction

theorem isBelow_of_calledBody? {closure inner : Node} {statements : List Node}
    (found : calledBody? closure = some statements) (listed : inner ∈ statements) :
    inner.IsBelow closure := by
  unfold calledBody? at found
  split at found
  · rename_i span parts
    split at found
    · rename_i callee _ call_eq
      have below := withoutParentheses_isBelow (.mk .parenthesized span parts)
      rw [call_eq] at below
      exact (Node.IsBelow.child rfl List.mem_cons_self
        (isBelow_of_functionBody? found listed)).trans below
    · contradiction
  · exact .child rfl List.mem_cons_self
      (.child rfl List.mem_cons_self (isBelow_of_functionBody? found listed))
  · contradiction

theorem mem_of_classReturn? {name : String} {statements : List Node} {span : Span}
    (found : classReturn? name statements = some span) :
    ∃ parts, Node.mk .returnStatement span parts ∈ statements := by
  unfold classReturn? at found
  split at found
  · split at found
    · split at found
      · rename_i returnSpan parts last_eq
        obtain rfl := Option.some.inj found
        exact ⟨parts, List.mem_cons_of_mem _ (List.mem_of_getLast? last_eq)⟩
      · contradiction
    · contradiction
  · contradiction

/-- The `return` of a class is a statement in the declaration of its variable. -/
theorem exists_return {scoping : Scoping} {declaration : Node} {variable_ : ClassVariable}
    (found : classVariable? scoping declaration = some variable_) :
    ∃ returns : Node, returns.span = variable_.returnSpan ∧ returns.IsBelow declaration := by
  unfold classVariable? at found
  split at found
  · simp only [Option.bind_eq_bind, Option.bind_eq_some_iff] at found
    obtain ⟨symbol, -, statements, called, returnSpan, returned, built⟩ := found
    obtain rfl := Option.some.inj built
    obtain ⟨parts, listed⟩ := mem_of_classReturn? returned
    exact ⟨_, rfl, .child rfl List.mem_cons_self (.child rfl (List.mem_cons_of_mem _ List.mem_cons_self)
      (isBelow_of_calledBody? called listed))⟩
  · contradiction

/-! ## Moves -/

/-- The edit moves the assignment that a statement is, out of the gap of the statement and in front of
the `return` of its class. -/
def Moves (script : Script) (classes : List ClassVariable) (statement : Node) (edit : Edit) : Prop :=
  ∃ assignment variable_,
    foldable? script.scoping classes statement = some (assignment, variable_) ∧
      edit = .move assignment.expression.span (statementGap script.text statement.span)
        variable_.returnSpan.start (suffix script.text variable_.returnSpan.start)

/-- A statement is left alone, when it belongs into no class or is gone already, or it is moved. -/
theorem move_cases (script : Script) (classes : List ClassVariable) (revision : Revision)
    (statement : Node) :
    (move script classes revision statement = revision ∧
        ((foldable? script.scoping classes statement).isNone ∨ revision.isGone statement.span)) ∨
      ∃ edit, Moves script classes statement edit ∧ ¬revision.isGone statement.span ∧
        move script classes revision statement = revision.record edit := by
  unfold move
  split
  · rename_i unfoldable
    exact .inl ⟨rfl, .inl (by simp [unfoldable])⟩
  · rename_i assignment variable_ foldable
    split
    · rename_i gone
      exact .inl ⟨rfl, .inr gone⟩
    · rename_i still
      exact .inr ⟨_, ⟨assignment, variable_, foldable, rfl⟩, still, rfl⟩

/-- The moves of some of the statements, one for each, stand behind everything recorded before; none
of them was left out before. -/
theorem edits_foldl_move (statements : List Node) :
    ∃ chosen : List (Node × Edit), (chosen.map (·.1)).Sublist statements ∧
      (∀ choice ∈ chosen, Moves script classes choice.1 choice.2 ∧
        ¬revision.isGone choice.1.span) ∧
      (statements.foldl (move script classes) revision).edits =
        revision.edits ++ chosen.map (·.2) := by
  induction statements generalizing revision with
  | nil => exact ⟨[], .slnil, by simp, by simp⟩
  | cons statement rest ih =>
      rw [List.foldl_cons]
      obtain ⟨unmoved, -⟩ | ⟨edit, moves, still, moved⟩ :=
        move_cases script classes revision statement
      · rw [unmoved]
        obtain ⟨chosen, sub, all_move, edits_eq⟩ := @ih revision
        exact ⟨chosen, sub.cons statement, all_move, edits_eq⟩
      · rw [moved]
        obtain ⟨chosen, sub, all_move, edits_eq⟩ := @ih (revision.record edit)
        refine ⟨(statement, edit) :: chosen, ?_, ?_, ?_⟩
        · exact sub.cons_cons statement
        · refine List.forall_mem_cons.2 ⟨⟨moves, still⟩, fun choice among => ?_⟩
          obtain ⟨choice_moves, choice_still⟩ := all_move choice among
          exact ⟨choice_moves, fun gone => choice_still (Revision.isGone_record gone)⟩
        · rw [edits_eq, Revision.record, List.map_cons, List.append_assoc, List.singleton_append]

theorem edits_record (script : Script) (revision : Revision) : ∃ chosen : List (Node × Edit),
    (chosen.map (·.1)).Sublist script.program.body ∧
      (∀ choice ∈ chosen, Moves script (StaticMember.classes script) choice.1 choice.2 ∧
        ¬revision.isGone choice.1.span) ∧
      (record script revision).edits = revision.edits ++ chosen.map (·.2) :=
  edits_foldl_move script.program.body

/-- A statement that belongs into a class assigns a property of the variable of that class, behind
the declaration. -/
theorem foldable?_eq_some {scoping : Scoping} {assignment : Metadata.PropertyAssignment}
    {variable_ : ClassVariable}
    (foldable : foldable? scoping classes statement = some (assignment, variable_)) :
    Metadata.assignment? statement = some assignment ∧ variable_ ∈ classes ∧
      scoping.sole? assignment.object.span.start = some variable_.symbol ∧
      variable_.declarationStop ≤ statement.span.start := by
  simp only [foldable?, Option.bind_eq_bind, Option.bind_eq_some_iff] at foldable
  obtain ⟨found, assignment_eq, symbol, sole, class_, known, placed⟩ := foldable
  split at placed
  · simp at placed
  · rename_i behind
    simp only [Option.some.injEq, Prod.mk.injEq] at placed
    obtain ⟨rfl, rfl⟩ := placed
    have same := List.find?_some known
    rw [beq_iff_eq] at same
    exact ⟨assignment_eq, List.mem_of_find?_eq_some known, same ▸ sole, Nat.le_of_not_lt behind⟩

namespace Moves

variable {edit : Edit} {text : List Char}

theorem removed? (moves : Moves script classes statement edit) :
    edit.removed? = some (statementGap script.text statement.span) := by
  obtain ⟨assignment, variable_, -, rfl⟩ := moves
  rfl

theorem gap? (moves : Moves script classes statement edit) :
    edit.gap? = some (statementGap script.text statement.span) := by
  obtain ⟨assignment, variable_, -, rfl⟩ := moves
  rfl

/-- The body of a move is part of the statement. -/
theorem covers_body {body removed : Span} {target : Nat} {suffix : String}
    (moves : Moves script classes statement (.move body removed target suffix))
    (spaced : statement.IsSpaced text) : statement.span.covers body := by
  obtain ⟨assignment, variable_, foldable, edit_eq⟩ := moves
  obtain ⟨rfl, rfl, rfl, rfl⟩ := Edit.move.inj edit_eq
  exact spaced.covers (Metadata.expression_mem_nodes (foldable?_eq_some foldable).1)

end Moves

theorem textAt?_of_moves {edit : Edit} {place : Nat} (moves : Moves script classes statement edit) :
    edit.textAt? place = none := by
  obtain ⟨assignment, variable_, -, rfl⟩ := moves
  rfl

theorem at_notMem_suffix (text : String) (returnStart : Nat) :
    '@' ∉ (suffix text returnStart).toList := by
  unfold suffix
  extract_lets before indent hasLineBreak
  split
  · rename_i alone
    have blank := (Bool.and_eq_true _ _ ▸ alone).2
    rw [List.all_eq_true] at blank
    intro member
    have in_indent : '@' ∈ indent := by simpa using member
    exact absurd (blank '@' in_indent) (by decide)
  · decide

/-- What moves leave out: the gaps of the statements that they move. -/
theorem removed?_of_moves {chosen : List (Node × Edit)}
    (moves : ∀ choice ∈ chosen, Moves script classes choice.1 choice.2) :
    (chosen.map (·.2)).filterMap Edit.removed? =
      (chosen.map (·.1)).map fun statement => statementGap script.text statement.span := by
  induction chosen with
  | nil => rfl
  | cons choice rest ih =>
      obtain ⟨first, others⟩ := List.forall_mem_cons.1 moves
      simp only [List.map_cons, List.filterMap_cons, first.removed?, ih others]

end StaticMember
end Shakedown
