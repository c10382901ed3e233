import Mathlib.Data.List.Sort
import Shakedown.Proofs.Pass.MemberOrder
import Shakedown.Proofs.Pass.PureCall

/-!
# Which calls are marked

A call gets a marker just when loading the module runs it: when it can be reached from the program
without entering a function. The marker goes in front of the parentheses around the call if they
hold nothing but the call of a function expression, and in front of the call otherwise. So no marker
lies inside a function, and each place gets one marker, behind all else that is inserted there.
-/

namespace Shakedown
namespace PureCall

open Node

/-- The node is reached from a root without entering a function; the holder is the node that is made
of it, which for the root itself is the one above. -/
inductive ReachedIn (above : Option Node) (root : Node) : Option Node → Node → Prop
  /-- The root is reached. -/
  | root : ReachedIn above root above root
  /-- What a node other than a function is made of is reached with it. -/
  | child {outer : Option Node} {holder child : Node} (reached : ReachedIn above root outer holder)
      (entered : StaticMember.isDeferred holder.kind = false) (listed : child ∈ holder.children) :
      ReachedIn above root (some holder) child

/-- The node is reached from a statement of the program without entering a function. -/
def Reached (program : Program) (holder : Option Node) (node : Node) : Prop :=
  ∃ statement ∈ program.body, ReachedIn none statement holder node

/-- Whether a node calls or constructs. -/
def isCall : NodeKind → Bool
  | .call _ => true
  | .construct => true
  | _ => false

/-- Whether a node is parentheses around the call of a function expression, which may stand in
parentheses of its own. -/
def wraps : Node → Bool
  | .mk .parenthesized _ [.mk (.call _) _ (callee :: _)] =>
      isFunctionExpression callee.withoutParentheses
  | _ => false

/-- Where the marker of a call goes. -/
def markerPlace (holder : Option Node) (call : Node) : Nat :=
  match holder.filter wraps with
  | some parentheses => parentheses.span.start
  | none => call.span.start

variable {program : Program} {above holder : Option Node} {root node : Node} {position : Nat}

/-- A node that is reached is the root or reached from a child of the root. -/
theorem reachedIn_iff :
    ReachedIn above root holder node ↔ holder = above ∧ node = root ∨
      StaticMember.isDeferred root.kind = false ∧
        ∃ child ∈ root.children, ReachedIn (some root) child holder node := by
  constructor
  · intro reached
    induction reached with
    | root => exact .inl ⟨rfl, rfl⟩
    | child _ entered listed ih =>
        obtain ⟨rfl, rfl⟩ | ⟨open_root, first, in_root, reached⟩ := ih
        · exact .inr ⟨entered, _, listed, .root⟩
        · exact .inr ⟨open_root, first, in_root, reached.child entered listed⟩
  · rintro (⟨rfl, rfl⟩ | ⟨open_root, first, in_root, reached⟩)
    · exact .root
    · induction reached with
      | root => exact ReachedIn.root.child open_root in_root
      | child _ entered listed ih => exact ih.child entered listed

/-- The position is that of the marker of a call reached from the root. -/
def IsMarkedIn (above : Option Node) (root : Node) (position : Nat) : Prop :=
  ∃ holder call, ReachedIn above root holder call ∧ isCall call.kind ∧
    position = markerPlace holder call

/-- The markers inside a root are its own and those of its children. -/
theorem isMarkedIn_iff :
    IsMarkedIn above root position ↔
      isCall root.kind ∧ position = markerPlace above root ∨
        StaticMember.isDeferred root.kind = false ∧
          ∃ child ∈ root.children, IsMarkedIn (some root) child position := by
  constructor
  · rintro ⟨holder, call, reached, calls, at_place⟩
    obtain ⟨rfl, rfl⟩ | ⟨entered, child, listed, reached⟩ := reachedIn_iff.1 reached
    · exact .inl ⟨calls, at_place⟩
    · exact .inr ⟨entered, child, listed, holder, call, reached, calls, at_place⟩
  · rintro (⟨calls, at_place⟩ | ⟨entered, child, listed, holder, call, reached, calls, at_place⟩)
    · exact ⟨above, root, .root, calls, at_place⟩
    · exact ⟨holder, call, reachedIn_iff.2 (.inr ⟨entered, child, listed, reached⟩), calls, at_place⟩

theorem markerPlace_of_wraps {parentheses : Node} (around : wraps parentheses) (call : Node) :
    markerPlace (some parentheses) call = parentheses.span.start := by
  rw [markerPlace, Option.filter_some_pos around]

theorem markerPlace_of_not_wraps (plain : ∀ parentheses ∈ above, wraps parentheses = false)
    (call : Node) : markerPlace above call = call.span.start := by
  have none_wraps : above.filter wraps = none := by
    cases above with
    | none => rfl
    | some parentheses => simpa using plain parentheses rfl
  rw [markerPlace, none_wraps]

theorem isCall_of_isDeferred {kind : NodeKind} (deferred : StaticMember.isDeferred kind) :
    isCall kind = false := by
  cases kind <;> first | rfl | contradiction

theorem starts_of_isDeferred (deferred : StaticMember.isDeferred node.kind) : starts node = [] := by
  obtain ⟨kind, span, children⟩ := node
  cases kind <;> first | contradiction | rw [starts]

/-- Parentheses around the call of a function expression are marked in its place. -/
theorem starts_of_wraps (around : wraps node) :
    ∃ call, node.kind = .parenthesized ∧ node.children = [call] ∧ isCall call.kind ∧
      StaticMember.isDeferred call.kind = false ∧ wraps call = false ∧
      starts node = node.span.start :: startsOfList call.children := by
  unfold wraps at around
  split at around
  · exact ⟨_, rfl, rfl, rfl, rfl, rfl, by rw [starts, if_pos around]; rfl⟩
  · contradiction

/-- Any other node that is entered is marked if it is a call, and its children are as well. -/
theorem starts_of_not_wraps (entered : StaticMember.isDeferred node.kind = false)
    (plain : wraps node = false) :
    starts node = (if isCall node.kind then [node.span.start] else []) ++
      startsOfList node.children := by
  unfold starts
  split
  · contradiction
  · contradiction
  · rw [wraps] at plain
    simp [plain, Node.children, Node.kind, isCall, startsOfList, starts]
  · rfl
  · rfl
  · rename_i kind _ _ _ _ _ no_call no_construct
    have other : isCall kind = false := by
      unfold isCall
      split
      · exact absurd rfl (no_call _)
      · exact absurd rfl no_construct
      · rfl
    rw [Node.kind, if_neg (Bool.eq_false_iff.1 other)]
    rfl

/-- The tree lists the markers of the calls reached in it, whatever holds it without wrapping it. -/
def ListsMarkers (root : Node) : Prop :=
  ∀ above, (∀ parentheses ∈ above, wraps parentheses = false) → ∀ position,
    position ∈ starts root ↔ IsMarkedIn above root position

theorem mem_startsOfList_children (plain : wraps root = false)
    (lists : ∀ child ∈ root.children, ListsMarkers child) :
    position ∈ startsOfList root.children ↔
      ∃ child ∈ root.children, IsMarkedIn (some root) child position := by
  rw [mem_startsOfList]
  exact exists_congr fun child => and_congr_right fun listed =>
    lists child listed _ (by rintro _ ⟨⟩; exact plain) position

/-- The call in wrapping parentheses is passed over, so the trees two levels below are asked too. -/
theorem ListsMarkers.of_children (lists : ∀ child ∈ root.children, ListsMarkers child)
    (below : ∀ child ∈ root.children, ∀ inner ∈ child.children, ListsMarkers inner) :
    ListsMarkers root := by
  intro above unwrapped position
  rw [isMarkedIn_iff]
  cases deferred : StaticMember.isDeferred root.kind with
  | true => simp [starts_of_isDeferred deferred, isCall_of_isDeferred deferred]
  | false =>
      cases around : wraps root with
      | false =>
          rw [starts_of_not_wraps deferred around, List.mem_append,
            mem_startsOfList_children around lists, markerPlace_of_not_wraps unwrapped]
          cases isCall root.kind <;> simp
      | true =>
          obtain ⟨call, kind_eq, children_eq, calls, entered, plain, starts_eq⟩ :=
            starts_of_wraps around
          have listed : call ∈ root.children := children_eq ▸ List.mem_cons_self
          rw [starts_eq, List.mem_cons, mem_startsOfList_children plain (below call listed),
            children_eq, kind_eq]
          simp only [isCall, Bool.false_eq_true, false_and, false_or, List.mem_singleton,
            exists_eq_left, true_and]
          rw [isMarkedIn_iff, calls, entered, markerPlace_of_wraps around]
          simp only [true_and]

theorem listsMarkers (root : Node) : ListsMarkers root := by
  have both : ListsMarkers root ∧ ∀ child ∈ root.children, ListsMarkers child := by
    induction root using Node.induction with
    | step kind span children ih =>
        have lists : ∀ child ∈ children, ListsMarkers child := fun child listed =>
          (ih child listed).1
        exact ⟨.of_children lists fun child listed => (ih child listed).2, lists⟩
  exact both.1

theorem dropEqualNeighbours_strict {values : List Nat} (ascends : values.Pairwise (· ≤ ·)) :
    (dropEqualNeighbours values).Pairwise (· < ·) := by
  induction values using dropEqualNeighbours.induct with
  | case1 => exact .nil
  | case2 value => exact List.pairwise_singleton _ value
  | case3 first rest ih =>
      rw [dropEqualNeighbours, if_pos rfl]
      exact ih ascends.tail
  | case4 first second rest different ih =>
      rw [dropEqualNeighbours, if_neg different]
      refine List.pairwise_cons.2 ⟨fun value member => ?_, ih ascends.tail⟩
      obtain ⟨first_le, ascends⟩ := List.pairwise_cons.1 ascends
      have first_lt : first < second := by
        have := first_le second List.mem_cons_self
        omega
      obtain rfl | member := List.mem_cons.1 (mem_dropEqualNeighbours.1 member)
      · exact first_lt
      · exact Nat.lt_of_lt_of_le first_lt ((List.pairwise_cons.1 ascends).1 value member)

theorem positions_strict (program : Program) : (positions program).Pairwise (· < ·) :=
  dropEqualNeighbours_strict <|
    (List.pairwise_mergeSort (fun _ _ _ => by simpa using Nat.le_trans)
      (fun left right => by simpa using Nat.le_total left right) _).imp of_decide_eq_true

/-- The markers of a program go where a simple way to sort puts them. -/
theorem positions_eq_insertionSort (program : Program) :
    positions program =
      dropEqualNeighbours ((startsOfList program.body).insertionSort (· ≤ ·)) := by
  rw [positions, ← List.mergeSort_eq_insertionSort]

/-- Markers belong to the calls that loading the module runs and to no other places, and each place
is listed once, in the order of the text. -/
theorem positions_are_those_of_reached_calls (program : Program) :
    (∀ position, position ∈ positions program ↔
      ∃ holder call, Reached program holder call ∧ isCall call.kind ∧
        position = markerPlace holder call) ∧
      (positions program).Pairwise (· < ·) := by
  refine ⟨fun position => ?_, positions_strict program⟩
  rw [mem_positions]
  constructor
  · rintro ⟨statement, listed, member⟩
    obtain ⟨holder, call, reached, calls, at_place⟩ :=
      (listsMarkers statement none nofun position).1 member
    exact ⟨holder, call, ⟨statement, listed, reached⟩, calls, at_place⟩
  · rintro ⟨holder, call, ⟨statement, listed, reached⟩, calls, at_place⟩
    exact ⟨statement, listed, (listsMarkers statement none nofun position).2
      ⟨holder, call, reached, calls, at_place⟩⟩

/-! ## Where markers lie -/

/-- A marker inside a tree is its own or one of a child. -/
theorem eq_or_mem_starts (member : position ∈ starts node) :
    position = node.span.start ∨ ∃ child ∈ node.children, position ∈ starts child := by
  cases deferred : StaticMember.isDeferred node.kind with
  | true =>
      rw [starts_of_isDeferred deferred] at member
      contradiction
  | false =>
      cases around : wraps node with
      | true =>
          obtain ⟨call, -, children_eq, -, entered, plain, starts_eq⟩ := starts_of_wraps around
          rw [starts_eq, List.mem_cons] at member
          refine member.imp_right fun inner => ⟨call, children_eq ▸ List.mem_cons_self, ?_⟩
          rw [starts_of_not_wraps entered plain]
          exact List.mem_append_right _ inner
      | false =>
          rw [starts_of_not_wraps deferred around] at member
          obtain own | inner := List.mem_append.1 member
          · split at own
            · exact .inl (List.mem_singleton.1 own)
            · contradiction
          · exact .inr (mem_startsOfList.1 inner)

section Spaced

variable {text : List Char}

theorem holds_of_mem_starts (spaced : node.IsSpaced text) (member : position ∈ starts node) :
    node.span.holds position := by
  obtain ⟨inner, below, rfl⟩ := (mem_starts node).1 position member
  exact Span.holds_of_covers (spaced.covers below)
    (Span.holds_start (Span.isProper_iff.2 (spaced.below below).proper))

/-- When nothing is marked in the first of the nodes in a row, the markers lie behind it. -/
theorem lt_of_mem_startsOfList {kind : NodeKind} {span : Span} {first : Node} {rest : List Node}
    (spaced : (Node.mk kind span (first :: rest)).IsSpaced text) (row : kind.arrangement = .row)
    (unmarked : starts first = []) (member : position ∈ startsOfList (first :: rest)) :
    span.start < position := by
  rw [startsOfList, unmarked, List.nil_append] at member
  obtain ⟨other, listed, member⟩ := mem_startsOfList.1 member
  have row := spaced.inRow (by simp [row])
  have behind := (List.pairwise_cons.1 row.ordered).1 other listed
  have proper := (row.spaced first List.mem_cons_self).proper
  have start_le := (row.within first List.mem_cons_self).1
  have held := Span.holds_iff.1
    (holds_of_mem_starts (row.spaced other (List.mem_cons_of_mem _ listed)) member)
  omega

/-- Markers lie outside of functions, or where they begin. -/
theorem surrounds_of_isDeferred {outer : Node} (below : node.IsBelow outer)
    (deferred : StaticMember.isDeferred node.kind) (spaced : outer.IsSpaced text)
    (member : position ∈ starts outer) : node.span.surrounds position = false := by
  induction below with
  | here =>
      rw [starts_of_isDeferred deferred] at member
      contradiction
  | @child kind span children child row listed below ih =>
      have covers := Span.covers_iff.1 ((spaced.child listed).covers below.mem_nodes)
      have outer_covers := Span.covers_iff.1 (spaced.fits.within child listed)
      rw [Bool.eq_false_iff, ne_eq, Span.surrounds_iff]
      obtain same | ⟨other, among, member⟩ := eq_or_mem_starts member
      · have same : position = span.start := same
        have outer_covers : span.start ≤ child.span.start ∧ child.span.stop ≤ span.stop :=
          outer_covers
        omega
      · have in_row := spaced.inRow (by simp [row])
        obtain rfl | apart := in_row.eq_or_apart listed among
        · rw [← Span.surrounds_iff]
          exact Bool.eq_false_iff.1 (ih (spaced.child listed) member)
        · have held := Span.holds_iff.1 (holds_of_mem_starts (spaced.child among) member)
          omega

end Spaced

/-! ## What is inserted -/

section TextsAt

variable {script : Script} {revision : Revision} {place : Nat}

theorem unmarked_nodup (script : Script) : (unmarked script).Nodup :=
  ((positions_strict script.program).imp Nat.ne_of_lt).filter _

theorem textsAt_foldl_insert {text : String} {places : List Nat} (nodup : places.Nodup) :
    (places.foldl (fun revision position => revision.insert position text) revision).textsAt place =
      revision.textsAt place ++ if place ∈ places then [text] else [] := by
  induction places generalizing revision with
  | nil => simp
  | cons first rest ih =>
      obtain ⟨fresh, nodup⟩ := List.nodup_cons.1 nodup
      rw [List.foldl_cons, ih nodup, Revision.textsAt_insert]
      by_cases here : first = place
      · subst here
        simp [fresh]
      · have elsewhere : ¬place = first := fun same => here same.symm
        simp [here, elsewhere]

/-- Where a marker is missing it is inserted behind what was inserted before; the manifest goes in front
of it, unless the line that names an interpreter ends there. -/
theorem textsAt_record (helperPositions : List Nat) : ∃ front back,
    (record script helperPositions revision).textsAt place = front ++ (revision.textsAt place ++
        if place ∈ unmarked script then [Marker.pure ++ " "] else []) ++ back ∧
      (∀ text ∈ front ++ back, '@' ∉ text.toList) ∧
      ((∀ line, script.program.hashbang = some line → line.stop ≠ place) → back = []) := by
  have manifest_plain := at_notMem_manifest script.program helperPositions
  rw [record, recordManifest]
  split
  · exact ⟨[], [], by simp [textsAt_foldl_insert (unmarked_nodup script)], by simp, fun _ => rfl⟩
  · dsimp only
    split
    · rename_i line line_eq
      rw [Revision.textsAt_insert, textsAt_foldl_insert (unmarked_nodup script)]
      refine ⟨[], _, rfl, ?_, fun elsewhere => if_neg (elsewhere line line_eq)⟩
      split <;> simp [manifest_plain]
    · rw [Revision.textsAt_insertFirst, textsAt_foldl_insert (unmarked_nodup script)]
      refine ⟨_, [], (List.append_nil _).symm, ?_, fun _ => rfl⟩
      split <;> simp [manifest_plain]

end TextsAt

end PureCall
end Shakedown
