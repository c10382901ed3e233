import Mathlib.Data.List.Perm.Subperm
import Mathlib.Logic.Relation
import Shakedown.Proofs.Edit.Ranking

/-!
# Rendering step by step

The chunks of a range are defined with as many rounds and as much depth as could be needed. Here the
same work is done one step at a time, without any such limit: a stack holds the ranges that are
being walked, each inside the one below it. Whatever the edits are, the steps come to an end with
the same chunks, and never are two ranges on the stack the body of one move.

A walk moves ahead in each of its rounds, and a range inside another is the body of a move that no
range on the stack belongs to. So the depth is the number of moves that are not on the stack yet.
-/

namespace Shakedown
namespace Layout

/-- How far a round of a walk has got. -/
inductive Phase
  /-- The round begins. -/
  | arriving
  /-- The gap at the place is known, and `left` is still to appear there. -/
  | emitting (gap : Option Gap) (left : List Arrival)

/-- A range that is being walked. -/
structure Visit where
  /-- The move whose body the range is, if it is one. -/
  move : Option Move
  /-- The end of the range. -/
  stop : Nat
  /-- Whether what is inserted at the end belongs to the range. -/
  includeStop : Bool
  /-- The place that the walk has come to. -/
  position : Nat
  /-- How far the round at this place has got. -/
  phase : Phase

namespace Visit

/-- The first state of a walk along a range. -/
def ofRange (span : Span) (includeStop : Bool) : Visit :=
  { move := none, stop := span.stop, includeStop, position := span.start, phase := .arriving }

/-- The first state of a walk along the body of a move. -/
def ofBody (move : Move) : Visit :=
  { move := some move, stop := move.body.stop, includeStop := false
    position := move.body.start, phase := .arriving }

/-- The walk at the beginning of the round at a place. -/
def atPlace (visit : Visit) (position : Nat) : Visit :=
  { visit with position, phase := .arriving }

/-- The new text behind the range. -/
def ending (visit : Visit) : List Chunk :=
  match visit.move with
  | none => []
  | some move => [.synthetic move.suffix]

end Visit

/-- A rendering under way. -/
structure Course where
  /-- The ranges that are being walked, the innermost first. -/
  visits : List Visit
  /-- The chunks so far. -/
  chunks : List Chunk

/-- The moves whose bodies are being walked. -/
def underWay (visits : List Visit) : List Nat :=
  visits.filterMap fun visit => visit.move.map (·.index)

/-- What comes behind a step; a rendering that walks no range has ended. -/
def step (layout : Layout) : Course → Option Course
  | ⟨[], _⟩ => none
  | ⟨visit :: below, chunks⟩ =>
      let active := underWay (visit :: below)
      let ended : Course := ⟨below, chunks ++ visit.ending⟩
      match visit.phase with
      | .arriving =>
          let gap := layout.gapAt? active visit.position
          let here :=
            if (visit.position < visit.stop || visit.includeStop) &&
                !travels gap visit.position then
              layout.arrivalsAt visit.position
            else
              []
          some ⟨{ visit with phase := .emitting gap here } :: below, chunks⟩
      | .emitting gap (.text text :: left) =>
          some ⟨{ visit with phase := .emitting gap left } :: below, chunks ++ [.synthetic text]⟩
      | .emitting gap (.moved move :: left) =>
          let waiting := { visit with phase := .emitting gap left } :: below
          if active.contains move.index || move.body.holds visit.position then
            some ⟨waiting, chunks⟩
          else
            some ⟨.ofBody move :: waiting, chunks⟩
      | .emitting gap [] =>
          if visit.stop ≤ visit.position then
            some ended
          else
            match gap with
            | some gap =>
                let next := min gap.span.stop visit.stop
                if visit.stop ≤ next && !visit.includeStop then some ended
                else some ⟨visit.atPlace next :: below, chunks⟩
            | none =>
                let next := layout.nextPlace visit.position visit.stop
                some ⟨visit.atPlace next :: below, chunks ++ [.copied ⟨visit.position, next⟩]⟩

/-- One rendering comes to be another in any number of steps. -/
def LeadsTo (layout : Layout) : Course → Course → Prop :=
  Relation.ReflTransGen fun course next => layout.step course = some next

/-- No rendering can go on for ever from here. -/
def Ends (layout : Layout) : Course → Prop :=
  Acc fun next course => layout.step course = some next

/-! ## Steps that are one behind the other -/

section

variable {layout : Layout} {first second third course : Course}

theorem LeadsTo.refl : layout.LeadsTo course course :=
  Relation.ReflTransGen.refl

theorem LeadsTo.trans (front : layout.LeadsTo first second) (back : layout.LeadsTo second third) :
    layout.LeadsTo first third :=
  Relation.ReflTransGen.trans front back

theorem LeadsTo.step (taken : layout.step first = some second)
    (others : layout.LeadsTo second third) : layout.LeadsTo first third :=
  Relation.ReflTransGen.head taken others

/-- A rendering that can come to its end does: no other steps are possible. -/
theorem LeadsTo.ends (run : layout.LeadsTo first second) (last : layout.step second = none) :
    layout.Ends first := by
  induction run using Relation.ReflTransGen.head_induction_on with
  | refl =>
      refine ⟨_, fun next taken => ?_⟩
      rw [last] at taken
      contradiction
  | head taken _ ih =>
      refine ⟨_, fun next other => ?_⟩
      obtain rfl := Option.some.inj (taken.symm.trans other)
      exact ih

/-! ## The moves under way -/

/-- A step takes up a move that is not under way, or it takes up none and may leave one off. -/
theorem underWay_step {next : Course} (taken : layout.step course = some next) :
    underWay next.visits <:+ underWay course.visits ∨
      ∃ index ∉ underWay course.visits,
        underWay next.visits = index :: underWay course.visits := by
  obtain ⟨visits, chunks⟩ := course
  cases visits with
  | nil => contradiction
  | cons visit below =>
      have left : underWay below <:+ underWay (visit :: below) :=
        (List.suffix_cons visit below).filterMap _
      obtain ⟨move, stop, includeStop, position, phase⟩ := visit
      cases phase with
      | arriving =>
          obtain rfl := Option.some.inj taken
          exact .inl (List.suffix_refl _)
      | emitting gap waiting =>
          cases waiting with
          | nil =>
              simp only [Layout.step] at taken
              split at taken
              · obtain rfl := Option.some.inj taken
                exact .inl left
              · split at taken
                · split at taken
                  · obtain rfl := Option.some.inj taken
                    exact .inl left
                  · obtain rfl := Option.some.inj taken
                    exact .inl (List.suffix_refl _)
                · obtain rfl := Option.some.inj taken
                  exact .inl (List.suffix_refl _)
          | cons arrival waiting =>
              cases arrival with
              | text text =>
                  obtain rfl := Option.some.inj taken
                  exact .inl (List.suffix_refl _)
              | moved other =>
                  simp only [Layout.step] at taken
                  split at taken
                  · obtain rfl := Option.some.inj taken
                    exact .inl (List.suffix_refl _)
                  · rename_i enters
                    obtain rfl := Option.some.inj taken
                    refine .inr ⟨other.index, fun active => enters ?_, rfl⟩
                    exact Bool.or_eq_true_iff.2 (.inl (List.contains_iff_mem.2 active))

/-- No move is ever under way inside itself. -/
theorem nodup_underWay (run : layout.LeadsTo first second)
    (apart : (underWay first.visits).Nodup) : (underWay second.visits).Nodup := by
  induction run with
  | refl => exact apart
  | tail _ taken ih =>
      rcases underWay_step taken with left | ⟨index, fresh, taken_up⟩
      · exact ih.sublist left.sublist
      · rw [taken_up]
        exact List.nodup_cons.2 ⟨fresh, ih⟩

end

/-! ## One round -/

section

variable {layout : Layout} {below : List Visit} {renderBody : Move → List Chunk}

/-- What one arrival at a place adds, given how the body of a move is rendered. -/
def emitted (renderBody : Move → List Chunk) (active : List Nat) (position : Nat) :
    Arrival → List Chunk
  | .text text => [.synthetic text]
  | .moved move =>
      if active.contains move.index || move.body.holds position then
        []
      else
        renderBody move ++ [.synthetic move.suffix]

theorem emit_eq_flatMap (active : List Nat) (position : Nat) :
    layout.emit renderBody active position =
      (layout.arrivalsAt position).flatMap (emitted renderBody active position) := rfl

/-- Walking the bodies of moves that are not under way adds the given chunks, whatever is walked
around them. -/
def WalksBodies (layout : Layout) (renderBody : Move → List Chunk) (active : List Nat) : Prop :=
  ∀ move : Move, move.index < layout.moves → move.index ∉ active →
    ∀ around chunks, underWay around = active →
      layout.LeadsTo ⟨.ofBody move :: around, chunks⟩
        ⟨around, chunks ++ (renderBody move ++ [.synthetic move.suffix])⟩

/-- Whatever appears at a place is put out. -/
theorem leadsTo_emitted (visit : Visit)
    (walks : layout.WalksBodies renderBody (underWay (visit :: below)))
    {gap : Option Gap} {left : List Arrival}
    (listed : ∀ move, .moved move ∈ left → move.index < layout.moves) (chunks : List Chunk) :
    layout.LeadsTo ⟨{ visit with phase := .emitting gap left } :: below, chunks⟩
      ⟨{ visit with phase := .emitting gap [] } :: below,
        chunks ++
          left.flatMap (emitted renderBody (underWay (visit :: below)) visit.position)⟩ := by
  induction left generalizing chunks with
  | nil =>
      rw [List.flatMap_nil, List.append_nil]
      exact .refl
  | cons arrival left ih =>
      have others := ih fun move member => listed move (List.mem_cons_of_mem _ member)
      rw [List.flatMap_cons, ← List.append_assoc]
      cases arrival with
      | text text => exact .step rfl (others _)
      | moved move =>
          by_cases stays :
              ((underWay (visit :: below)).contains move.index ||
                move.body.holds visit.position) = true
          · rw [emitted, if_pos stays, List.append_nil]
            exact .step (if_pos stays) (others chunks)
          · rw [emitted, if_neg stays]
            have fresh : move.index ∉ underWay (visit :: below) := fun active =>
              stays (Bool.or_eq_true_iff.2 (.inl (List.contains_iff_mem.2 active)))
            refine .step (if_neg stays) (.trans ?_ (others _))
            exact walks move (listed move List.mem_cons_self) fresh _ _ rfl

/-- A round begins with what appears at the place. -/
theorem leadsTo_here (visit : Visit)
    (walks : layout.WalksBodies renderBody (underWay (visit :: below)))
    (listed : ∀ place move, (place, .moved move) ∈ layout.arrivals → move.index < layout.moves)
    (position : Nat) (chunks : List Chunk) :
    let gap := layout.gapAt? (underWay (visit :: below)) position
    layout.LeadsTo ⟨visit.atPlace position :: below, chunks⟩
      ⟨{ visit with position, phase := .emitting gap [] } :: below,
        chunks ++
          if (position < visit.stop || visit.includeStop) && !travels gap position then
            layout.emit renderBody (underWay (visit :: below)) position
          else []⟩ := by
  intro gap
  let left : List Arrival :=
    if (position < visit.stop || visit.includeStop) && !travels gap position then
      layout.arrivalsAt position
    else []
  have begins : layout.step ⟨visit.atPlace position :: below, chunks⟩ =
      some ⟨{ visit with position, phase := .emitting gap left } :: below, chunks⟩ := rfl
  refine .step begins ?_
  by_cases appears : ((position < visit.stop || visit.includeStop) && !travels gap position) = true
  · rw [show left = layout.arrivalsAt position from if_pos appears, if_pos appears,
      emit_eq_flatMap]
    exact leadsTo_emitted (visit.atPlace position) walks
      (fun move member => listed position move (mem_arrivalsAt.1 member)) chunks
  · rw [show left = [] from if_neg appears, if_neg appears, List.append_nil]
    exact .refl

/-- A range is walked to its end. Each round moves ahead, so a walk is not given too few of them. -/
theorem leadsTo_walk (visit : Visit)
    (walks : layout.WalksBodies renderBody (underWay (visit :: below)))
    (listed : ∀ place move, (place, .moved move) ∈ layout.arrivals → move.index < layout.moves)
    (rounds position : Nat) (enough : visit.stop - position < rounds) (chunks : List Chunk) :
    layout.LeadsTo ⟨visit.atPlace position :: below, chunks⟩
      ⟨below,
        chunks ++
          layout.walk (layout.emit renderBody (underWay (visit :: below)))
            (underWay (visit :: below)) visit.includeStop visit.stop rounds position ++
          visit.ending⟩ := by
  induction rounds generalizing position chunks with
  | zero => omega
  | succ rounds ih =>
      have here := leadsTo_here visit walks listed position chunks
      have longest := @longest_of_gapAt? layout (underWay (visit :: below)) position
      rw [walk]
      generalize layout.gapAt? (underWay (visit :: below)) position = gap at here longest ⊢
      dsimp only at here ⊢
      generalize (if (position < visit.stop || visit.includeStop) && !travels gap position then
        layout.emit renderBody (underWay (visit :: below)) position else []) = out at here ⊢
      by_cases at_end : visit.stop ≤ position
      · rw [if_pos at_end]
        exact here.trans (.step (if_pos at_end) .refl)
      · rw [if_neg at_end]
        cases gap with
        | none =>
            obtain ⟨ahead, -⟩ := nextPlace_spec layout (Nat.lt_of_not_le at_end)
            rw [List.append_cons, ← List.append_assoc, ← List.append_assoc]
            exact here.trans
              (.step (if_neg at_end) (ih (layout.nextPlace position visit.stop) (by omega) _))
        | some gap =>
            obtain ⟨-, start_eq, in_force, -⟩ := longest rfl
            have proper := Span.isProper_iff.1 (Bool.and_eq_true _ _ ▸ in_force).1
            dsimp only
            by_cases leaves :
                (visit.stop ≤ min gap.span.stop visit.stop && !visit.includeStop) = true
            · rw [if_pos leaves]
              exact here.trans (.step ((if_neg at_end).trans (if_pos leaves)) .refl)
            · rw [if_neg leaves, ← List.append_assoc]
              exact here.trans
                (.step ((if_neg at_end).trans (if_neg leaves))
                  (ih (min gap.span.stop visit.stop) (by omega) _))

/-! ## All ranges -/

/-- As long as no more moves are left than the depth allows for, a range is walked to its end, with
the chunks that are defined for it. -/
theorem leadsTo_chunksOf (visit : Visit) (below : List Visit)
    (listed : ∀ place move, (place, .moved move) ∈ layout.arrivals → move.index < layout.moves)
    (apart : (underWay (visit :: below)).Nodup)
    (known : ∀ index ∈ underWay (visit :: below), index < layout.moves)
    (depth : Nat) (enough : layout.moves < depth + (underWay (visit :: below)).length)
    (start : Nat) (chunks : List Chunk) :
    layout.LeadsTo ⟨visit.atPlace start :: below, chunks⟩
      ⟨below,
        chunks ++
          layout.chunksOf depth (underWay (visit :: below)) ⟨start, visit.stop⟩ visit.includeStop ++
          visit.ending⟩ := by
  induction depth generalizing visit below start chunks with
  | zero =>
      -- more moves would be under way than there are
      have subset : underWay (visit :: below) ⊆ List.range layout.moves := fun index member =>
        List.mem_range.2 (known index member)
      have all := (List.subperm_of_subset apart subset).length_le
      rw [List.length_range] at all
      omega
  | succ depth ih =>
      refine leadsTo_walk visit (fun move moved fresh around chunks around_eq => ?_) listed _ start
        (Nat.lt_succ_self _) chunks
      have active_eq : underWay (.ofBody move :: around) =
          move.index :: underWay (visit :: below) := congrArg (move.index :: ·) around_eq
      have body := ih (.ofBody move) around
      rw [active_eq] at body
      rw [← List.append_assoc]
      exact body (List.nodup_cons.2 ⟨fresh, apart⟩) (List.forall_mem_cons.2 ⟨moved, known⟩)
        (by
          rw [List.length_cons]
          omega)
        move.body.start chunks

end

/-- The first state of the rendering of a whole text. -/
def begin (source : String) : Course :=
  ⟨[.ofRange ⟨0, Text.width source.toList⟩ true], []⟩

end Layout

namespace Revision

open Layout

/-- Every list of edits is rendered to the end, wherever its ranges and targets lie: the steps cannot
go on for ever, they lead to an end with the chunks of the edited text, once these are merged, and
on the way no move is ever under way inside itself. -/
theorem rendering_ends (source : String) (edits : List Edit) :
    let layout := ofEdits edits
    layout.Ends (begin source) ∧
      (∃ chunks, layout.LeadsTo (begin source) ⟨[], chunks⟩ ∧
        (Revision.mk edits).chunks source = Chunk.merge chunks) ∧
      ∀ course, layout.LeadsTo (begin source) course → (underWay course.visits).Nodup := by
  intro layout
  have listed : ∀ place move, (place, .moved move) ∈ layout.arrivals → move.index < layout.moves :=
    fun place move member => index_lt_moves (moved_mem_arrivals.1 member).2
  have run := leadsTo_chunksOf (.ofRange ⟨0, Text.width source.toList⟩ true) [] listed
    List.nodup_nil (fun index member => absurd member List.not_mem_nil) (layout.moves + 1)
    (Nat.lt_succ_self _) 0 []
  rw [List.nil_append, show Visit.ending (.ofRange _ true) = [] from rfl, List.append_nil] at run
  exact ⟨run.ends rfl, ⟨_, run, rfl⟩, fun course reached => nodup_underWay reached List.nodup_nil⟩

/-- Two bodies, each with the target of the other inside. -/
example :
    ((Revision.mk [.move ⟨0, 2⟩ ⟨0, 0⟩ 3 ";", .move ⟨2, 4⟩ ⟨9, 5⟩ 1 "."]).render "abcd").text =
      "acab;d.bcacd.b;d" := by decide

end Revision
end Shakedown
