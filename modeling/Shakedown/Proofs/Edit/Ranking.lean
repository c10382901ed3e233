import Mathlib.Data.List.Pairwise
import Shakedown.Proofs.Edit.Recording
import Shakedown.Proofs.Edit.Walk

/-!
# Ranked edits

The layout of a list of edits lists what each edit makes appear and what it leaves out, in the
order of the list. The rank of a move is the number of moves in front of it.
-/

namespace Shakedown

namespace Edit

/-- What an edit makes appear, given the rank that it has if it is a move. -/
def arrival? (rank : Nat) : Edit → Option (Nat × Arrival)
  | insert position text => some (position, .text text)
  | remove _ => none
  | move body removed target suffix =>
      some (target, .moved { index := rank, body, removed, target, suffix })

/-- What an edit leaves out, given the rank that it has if it is a move. -/
def outage? (rank : Nat) : Edit → Option Gap
  | insert _ _ => none
  | remove span => some ⟨span, none⟩
  | move body removed target suffix =>
      some ⟨removed, some { index := rank, body, removed, target, suffix }⟩

end Edit

/-- The edit that a move comes from. -/
def Move.toEdit (move : Move) : Edit :=
  .move move.body move.removed move.target move.suffix

namespace Layout

/-- The edits with the number of moves in front of each, of which `rank` are in front of all. -/
def ranked : (rank : Nat) → List Edit → List (Nat × Edit)
  | _, [] => []
  | rank, edit :: rest =>
      (rank, edit) :: ranked (if edit.removed?.isSome then rank + 1 else rank) rest

@[simp]
theorem map_snd_ranked (rank : Nat) (edits : List Edit) :
    (ranked rank edits).map (·.2) = edits := by
  induction edits generalizing rank with
  | nil => rfl
  | cons edit rest ih => simp [ranked, ih]

theorem mem_of_mem_ranked {rank index : Nat} {edits : List Edit} {edit : Edit}
    (member : (index, edit) ∈ ranked rank edits) : edit ∈ edits := by
  rw [← map_snd_ranked rank edits]
  exact List.mem_map_of_mem member

theorem exists_mem_ranked (rank : Nat) {edits : List Edit} {edit : Edit} (member : edit ∈ edits) :
    ∃ index, (index, edit) ∈ ranked rank edits := by
  rw [← map_snd_ranked rank edits] at member
  obtain ⟨⟨index, _⟩, ranked_mem, rfl⟩ := List.mem_map.1 member
  exact ⟨index, ranked_mem⟩

end Layout

/-- The move is one of the edits and has its rank among them. -/
def Move.IsFrom (edits : List Edit) (move : Move) : Prop :=
  (move.index, move.toEdit) ∈ Layout.ranked 0 edits

theorem Move.IsFrom.mem {edits : List Edit} {move : Move} (listed : move.IsFrom edits) :
    .move move.body move.removed move.target move.suffix ∈ edits :=
  Layout.mem_of_mem_ranked listed

theorem Move.exists_isFrom {edits : List Edit} {body removed : Span} {target : Nat}
    {suffix : String} (member : .move body removed target suffix ∈ edits) :
    ∃ move : Move, move.body = body ∧ move.removed = removed ∧ move.target = target ∧
      move.suffix = suffix ∧ move.IsFrom edits := by
  obtain ⟨index, listed⟩ := Layout.exists_mem_ranked 0 member
  exact ⟨{ index, body, removed, target, suffix }, rfl, rfl, rfl, rfl, listed⟩

/-- When the ranges that moves leave out are apart, those that leave out the same byte are the same. -/
theorem Move.IsFrom.eq_of_holds {edits : List Edit} {move other : Move} {offset : Nat}
    (listed : move.IsFrom edits)
    (movesApart : (edits.filterMap Edit.removed?).Pairwise fun first second => first.isApart second)
    (other_listed : other.IsFrom edits) (held : move.removed.holds offset)
    (other_held : other.removed.holds offset) : move = other := by
  have symmetric : Std.Symm fun first second : Nat × Edit =>
      ∀ span, first.2.removed? = some span → ∀ span', second.2.removed? = some span' →
        span.isApart span' = true :=
    ⟨fun first second apart span span_eq span' span'_eq => by
      rw [Span.isApart_comm]
      exact apart span' span'_eq span span_eq⟩
  rw [List.pairwise_filterMap, ← Layout.map_snd_ranked 0 edits, List.pairwise_map] at movesApart
  by_contra different
  have pairs_differ : (move.index, move.toEdit) ≠ (other.index, other.toEdit) := by
    intro same
    cases move
    cases other
    simp_all [Move.toEdit]
  exact Span.not_isApart_of_holds held other_held
    (movesApart.forall listed other_listed pairs_differ _ rfl _ rfl)

namespace Layout

/-- Adding edits to a layout adds what they make appear and what they leave out, in order. -/
theorem foldl_add (layout : Layout) (edits : List Edit) :
    edits.foldl add layout =
      { arrivals := layout.arrivals ++
          (ranked layout.moves edits).filterMap fun (rank, edit) => edit.arrival? rank
        gaps := layout.gaps ++
          (ranked layout.moves edits).filterMap fun (rank, edit) => edit.outage? rank
        moves := layout.moves + (edits.filterMap Edit.removed?).length } := by
  induction edits generalizing layout with
  | nil => simp [ranked]
  | cons edit rest ih =>
      rw [List.foldl_cons, ih]
      cases edit with
      | insert position text =>
          simp [add, ranked, Edit.arrival?, Edit.outage?, Edit.removed?, List.filterMap_cons]
      | remove span =>
          simp [add, ranked, Edit.arrival?, Edit.outage?, Edit.removed?, List.filterMap_cons]
      | move body removed target suffix =>
          simp [add, ranked, Edit.arrival?, Edit.outage?, Edit.removed?, Nat.add_comm,
            Nat.add_left_comm]

theorem ofEdits_eq (edits : List Edit) :
    ofEdits edits =
      { arrivals := (ranked 0 edits).filterMap fun (rank, edit) => edit.arrival? rank
        gaps := (ranked 0 edits).filterMap fun (rank, edit) => edit.outage? rank
        moves := (edits.filterMap Edit.removed?).length } := by
  simp [ofEdits, foldl_add, empty]

/-- The removals are the gaps without a move. -/
theorem removal_mem_gaps {edits : List Edit} {span : Span} :
    ⟨span, none⟩ ∈ (ofEdits edits).gaps ↔ .remove span ∈ edits := by
  simp only [ofEdits_eq, List.mem_filterMap, Prod.exists]
  constructor
  · rintro ⟨rank, edit, member, outage_eq⟩
    cases edit <;> simp [Edit.outage?] at outage_eq
    exact outage_eq ▸ mem_of_mem_ranked member
  · intro member
    obtain ⟨rank, member⟩ := exists_mem_ranked 0 member
    exact ⟨rank, _, member, rfl⟩

/-- The ranges that moves leave out are the gaps with a move. -/
theorem move_mem_gaps {edits : List Edit} {span : Span} {move : Move} :
    ⟨span, some move⟩ ∈ (ofEdits edits).gaps ↔
      move.removed = span ∧ move.IsFrom edits := by
  simp only [ofEdits_eq, List.mem_filterMap, Prod.exists]
  constructor
  · rintro ⟨rank, edit, member, outage_eq⟩
    cases edit <;> simp [Edit.outage?] at outage_eq
    obtain ⟨rfl, rfl⟩ := outage_eq
    exact ⟨rfl, member⟩
  · rintro ⟨rfl, member⟩
    exact ⟨_, _, member, rfl⟩

theorem bounded_ofEdits {source : List Char} {edits : List Edit}
    (boundaries : ∀ edit ∈ edits, ∀ offset ∈ edit.offsets, Text.IsBoundary source offset) :
    (ofEdits edits).Bounded source := by
  rw [ofEdits_eq]
  constructor
  · intro arrival member
    obtain ⟨⟨rank, edit⟩, ranked_mem, arrival_eq⟩ := List.mem_filterMap.1 member
    have bounded := boundaries edit (mem_of_mem_ranked ranked_mem)
    cases edit with
    | insert position text =>
        obtain rfl := Option.some.inj arrival_eq
        exact bounded position (by simp [Edit.offsets])
    | remove span => exact absurd arrival_eq (by simp [Edit.arrival?])
    | move body removed target suffix =>
        obtain rfl := Option.some.inj arrival_eq
        exact bounded target (by simp [Edit.offsets])
  · intro gap member
    obtain ⟨⟨rank, edit⟩, ranked_mem, outage_eq⟩ := List.mem_filterMap.1 member
    have bounded := boundaries edit (mem_of_mem_ranked ranked_mem)
    cases edit with
    | insert position text => exact absurd outage_eq (by simp [Edit.outage?])
    | remove span =>
        obtain rfl := Option.some.inj outage_eq
        exact ⟨bounded span.start (by simp [Edit.offsets]),
          bounded span.stop (by simp [Edit.offsets])⟩
    | move body removed target suffix =>
        obtain rfl := Option.some.inj outage_eq
        exact ⟨bounded removed.start (by simp [Edit.offsets]),
          bounded removed.stop (by simp [Edit.offsets])⟩

theorem moves_pos_of_mem {edits : List Edit} {edit : Edit} {removed : Span}
    (member : edit ∈ edits) (removed_eq : edit.removed? = some removed) :
    0 < (ofEdits edits).moves := by
  rw [ofEdits_eq]
  exact List.length_pos_of_mem (List.mem_filterMap.2 ⟨edit, member, removed_eq⟩)

/-- The rank of a move is smaller than the number of moves. -/
theorem index_lt_moves {edits : List Edit} {move : Move} (listed : move.IsFrom edits) :
    move.index < (ofEdits edits).moves := by
  have bounded : ∀ rank, (move.index, move.toEdit) ∈ ranked rank edits →
      move.index < rank + (edits.filterMap Edit.removed?).length := by
    clear listed
    induction edits with
    | nil => exact fun rank member => absurd member List.not_mem_nil
    | cons edit rest ih =>
        intro rank member
        rcases List.mem_cons.1 member with same | later
        · obtain ⟨rfl, rfl⟩ := Prod.mk.inj same
          simp [Move.toEdit, Edit.removed?]
        · have behind := ih _ later
          cases removed : edit.removed? <;> simp [removed] at behind ⊢ <;> omega
  simpa [ofEdits_eq] using bounded 0 listed

theorem mem_arrivalsAt {layout : Layout} {place : Nat} {arrival : Arrival} :
    arrival ∈ layout.arrivalsAt place ↔ (place, arrival) ∈ layout.arrivals := by
  simp only [arrivalsAt, List.mem_map, List.mem_filter, beq_iff_eq, Prod.exists, exists_eq_right]

theorem emit_eq_nil {layout : Layout} {renderBody : Move → List Chunk} {active : List Nat}
    {place : Nat} (still : layout.arrivalsAt place = []) :
    layout.emit renderBody active place = [] := by
  rw [emit, still]
  rfl

/-- The texts that appear are those that are inserted. -/
theorem text_mem_arrivals {edits : List Edit} {place : Nat} {text : String} :
    (place, .text text) ∈ (ofEdits edits).arrivals ↔ .insert place text ∈ edits := by
  simp only [ofEdits_eq, List.mem_filterMap, Prod.exists]
  constructor
  · rintro ⟨rank, edit, member, arrival_eq⟩
    cases edit <;> simp [Edit.arrival?] at arrival_eq
    obtain ⟨rfl, rfl⟩ := arrival_eq
    exact mem_of_mem_ranked member
  · intro member
    obtain ⟨rank, member⟩ := exists_mem_ranked 0 member
    exact ⟨rank, _, member, rfl⟩

/-- The bodies that appear are those of the moves, each at its target. -/
theorem moved_mem_arrivals {edits : List Edit} {place : Nat} {move : Move} :
    (place, .moved move) ∈ (ofEdits edits).arrivals ↔ move.target = place ∧ move.IsFrom edits := by
  simp only [ofEdits_eq, List.mem_filterMap, Prod.exists]
  constructor
  · rintro ⟨rank, edit, member, arrival_eq⟩
    cases edit <;> simp [Edit.arrival?] at arrival_eq
    obtain ⟨rfl, rfl⟩ := arrival_eq
    exact ⟨rfl, member⟩
  · rintro ⟨rfl, member⟩
    exact ⟨_, _, member, rfl⟩

/-- Where no body arrives, the inserted texts appear. -/
theorem arrivalsAt_ofEdits {edits : List Edit} {place : Nat}
    (still : ∀ body removed suffix, .move body removed place suffix ∉ edits) :
    (ofEdits edits).arrivalsAt place = (edits.filterMap (Edit.textAt? place)).map .text := by
  rw [arrivalsAt, ofEdits_eq]
  conv => rhs; rw [← map_snd_ranked 0 edits]
  rw [← map_snd_ranked 0 edits] at still
  generalize ranked 0 edits = items at still ⊢
  induction items with
  | nil => rfl
  | cons first rest ih =>
      obtain ⟨rank, edit⟩ := first
      simp only [List.map_cons, List.mem_cons, not_or] at still
      have ih := ih fun body removed suffix => (still body removed suffix).2
      cases edit with
      | insert position text =>
          by_cases here : position = place <;> simpa [Edit.arrival?, Edit.textAt?, here] using ih
      | remove span => exact ih
      | move body removed target suffix =>
          have elsewhere : target ≠ place := by
            rintro rfl
            exact (still body removed suffix).1 rfl
          simpa [Edit.arrival?, Edit.textAt?, elsewhere, List.filterMap_cons] using ih

/-- What an edit emits at a place, given its rank. -/
def emitEdit (renderBody : Move → List Chunk) (active : List Nat) (place rank : Nat) :
    Edit → List Chunk
  | .insert position text => if position = place then [.synthetic text] else []
  | .remove _ => []
  | .move body removed target suffix =>
      if target = place then
        if active.contains rank || body.holds place then
          []
        else
          renderBody { index := rank, body, removed, target, suffix } ++ [.synthetic suffix]
      else
        []

/-- What is emitted at a place is what the edits emit there one after the other. -/
theorem emit_ofEdits (edits : List Edit) (renderBody : Move → List Chunk) (active : List Nat)
    (place : Nat) :
    (ofEdits edits).emit renderBody active place =
      (ranked 0 edits).flatMap fun (rank, edit) => emitEdit renderBody active place rank edit := by
  rw [emit, arrivalsAt, ofEdits_eq]
  induction ranked 0 edits with
  | nil => rfl
  | cons first rest ih =>
      obtain ⟨rank, edit⟩ := first
      rw [List.flatMap_cons, ← ih]
      cases edit with
      | insert position text =>
          by_cases here : position = place <;> simp [emitEdit, Edit.arrival?, here]
      | remove span => simp [emitEdit, Edit.arrival?]
      | move body removed target suffix =>
          by_cases here : target = place <;> simp [emitEdit, Edit.arrival?, here]

/-- What is emitted at a place stands for what the edits put there. -/
theorem emit_standFor {source : String} {edits : List Edit} {renderBody : Move → List Chunk}
    {active : List Nat} {place : Nat} {textOf : Edit → List Char}
    (stands : ∀ rank edit, (rank, edit) ∈ ranked 0 edits →
      Chunk.StandFor source (emitEdit renderBody active place rank edit) (textOf edit)) :
    Chunk.StandFor source ((ofEdits edits).emit renderBody active place)
      (edits.flatMap textOf) := by
  have texts_eq : edits.flatMap textOf = (ranked 0 edits).flatMap fun (_, edit) => textOf edit := by
    conv => lhs; rw [← map_snd_ranked 0 edits, List.flatMap_map]
  rw [emit_ofEdits, texts_eq]
  exact Chunk.StandFor.flatMap fun ⟨rank, edit⟩ member => stands rank edit member

end Layout
end Shakedown
