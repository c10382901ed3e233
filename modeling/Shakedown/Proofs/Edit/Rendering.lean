import Shakedown.Proofs.Edit.Ranking

/-!
# Rendering gives the meaning

A tidy edit list is rendered by one walk along the whole text and one along the body of each move
where it arrives. Both walk a range whose gaps and insertions are those of the meaning: within a
body only the removals inside it are in force, and at the start of a body that begins its gap the
longest gap is the one of the move.
-/

namespace Shakedown

namespace Edit

theorem removal?_eq_some_iff {edit : Edit} {span : Span} :
    edit.removal? = some span ↔ edit = .remove span ∧ span.isProper := by
  cases edit with
  | remove other =>
      simp only [removal?, Option.ite_none_right_eq_some, Option.some.injEq, remove.injEq]
      constructor
      · rintro ⟨proper, rfl⟩
        exact ⟨rfl, proper⟩
      · rintro ⟨rfl, proper⟩
        exact ⟨proper, rfl⟩
  | insert position text => simp [removal?]
  | move body removed target suffix => simp [removal?]

end Edit

namespace Meaning

open Layout

theorem mem_gaps_iff {edits : List Edit} {span : Span} :
    span ∈ gaps edits ↔ (∃ edit ∈ edits, edit.gap? = some span) ∧ span.isProper := by
  simp [gaps]

theorem mem_removals_iff {edits : List Edit} {body span : Span} :
    span ∈ removals edits body ↔
      .remove span ∈ edits ∧ span.isProper ∧ body.covers span := by
  simp only [removals, List.mem_filter, List.mem_filterMap, Edit.removal?_eq_some_iff]
  constructor
  · rintro ⟨⟨_, member, rfl, proper⟩, inside⟩
    exact ⟨member, proper, inside⟩
  · rintro ⟨member, proper, inside⟩
    exact ⟨⟨_, member, rfl, proper⟩, inside⟩

theorem mem_gaps_of_mem_removals {edits : List Edit} {body span : Span}
    (member : span ∈ removals edits body) : span ∈ gaps edits := by
  obtain ⟨remove_mem, proper, -⟩ := mem_removals_iff.1 member
  exact mem_gaps_iff.2 ⟨⟨_, remove_mem, rfl⟩, proper⟩

theorem removals_within {edits : List Edit} {body span : Span}
    (member : span ∈ removals edits body) :
    body.start ≤ span.start ∧ span.start < span.stop ∧ span.stop ≤ body.stop := by
  obtain ⟨-, proper, inside⟩ := mem_removals_iff.1 member
  rw [Span.isProper_iff] at proper
  rw [Span.covers_iff] at inside
  exact ⟨inside.1, proper, inside.2⟩

/-- The gaps of the meaning are those in force while no move is rendered. -/
theorem mem_gaps_iff_inForce {edits : List Edit} {span : Span} :
    span ∈ gaps edits ↔
      ∃ gap ∈ (ofEdits edits).gaps, gap.span = span ∧ inForce [] gap = true := by
  rw [mem_gaps_iff]
  constructor
  · rintro ⟨⟨edit, member, gap_eq⟩, proper⟩
    cases edit with
    | insert position text => simp [Edit.gap?] at gap_eq
    | remove other =>
        obtain rfl := Option.some.inj gap_eq
        exact ⟨⟨other, none⟩, removal_mem_gaps.2 member, rfl, by simpa [inForce] using proper⟩
    | move body removed target suffix =>
        obtain rfl := Option.some.inj gap_eq
        obtain ⟨move, rfl, rfl, rfl, rfl, listed⟩ := Move.exists_isFrom member
        exact ⟨⟨move.removed, some move⟩, move_mem_gaps.2 ⟨rfl, listed⟩, rfl,
          by simpa [inForce] using proper⟩
  · rintro ⟨⟨_, move⟩, gap_mem, rfl, in_force⟩
    have proper : Span.isProper _ = true := (Bool.and_eq_true _ _ ▸ in_force).1
    refine ⟨?_, proper⟩
    cases move with
    | none => exact ⟨_, removal_mem_gaps.1 gap_mem, rfl⟩
    | some move =>
        obtain ⟨rfl, listed⟩ := move_mem_gaps.1 gap_mem
        exact ⟨_, listed.mem, rfl⟩

namespace Tidy

variable {source : List Char} {edits : List Edit} {move other : Move} {offset : Nat}

theorem removed_mem_gaps (tidy : Tidy source edits)
    (listed : move.IsFrom edits) : move.removed ∈ gaps edits := by
  obtain ⟨body_proper, inside⟩ := tidy.bodies _ _ _ _ listed.mem
  have held : move.removed.holds move.body.start :=
    Span.holds_of_covers inside (Span.holds_start body_proper)
  exact mem_gaps_iff.2 ⟨⟨_, listed.mem, rfl⟩, Span.isProper_of_holds held⟩

/-- A body arrives outside of all gaps. -/
theorem target_ne_of_holds (tidy : Tidy source edits) {body removed : Span} {target : Nat}
    {suffix : String} (member : .move body removed target suffix ∈ edits) {gap : Span}
    (gap_mem : gap ∈ gaps edits) (held : gap.holds offset) : target ≠ offset := by
  rintro rfl
  exact Bool.false_ne_true ((tidy.targets _ _ _ _ member gap gap_mem).symm.trans held)

/-- Moves that leave out the same byte are the same. -/
theorem move_eq_of_holds (tidy : Tidy source edits)
    (listed : move.IsFrom edits)
    (other_listed : other.IsFrom edits)
    (held : move.removed.holds offset) (other_held : other.removed.holds offset) :
    move = other :=
  listed.eq_of_holds tidy.movesApart other_listed held other_held

/-- A removal that shares a byte with what a move leaves out lies inside the body of that move and
is not all that the move leaves out. -/
theorem covers_of_holds (tidy : Tidy source edits) {span : Span}
    (remove_mem : .remove span ∈ edits) (held : span.holds offset)
    (listed : move.IsFrom edits) (also_held : move.removed.holds offset) :
    move.body.covers span ∧ span ≠ move.removed := by
  have removal_mem : span ∈ edits.filterMap Edit.removal? := List.mem_filterMap.2
    ⟨_, remove_mem, Edit.removal?_eq_some_iff.2 ⟨rfl, Span.isProper_of_holds held⟩⟩
  rcases tidy.removalsApart span removal_mem with
    apart | ⟨body, removed, target, suffix, move_mem, inside, different⟩
  · have removed_mem : move.removed ∈ edits.filterMap Edit.removed? :=
      List.mem_filterMap.2 ⟨_, listed.mem, rfl⟩
    exact absurd (apart _ removed_mem) (Span.not_isApart_of_holds held also_held)
  · obtain ⟨other, rfl, rfl, rfl, rfl, other_listed⟩ := Move.exists_isFrom move_mem
    obtain ⟨-, body_inside⟩ := tidy.bodies _ _ _ _ other_listed.mem
    have removed_held : other.removed.holds offset :=
      Span.holds_of_covers body_inside (Span.holds_of_covers inside held)
    obtain rfl := tidy.move_eq_of_holds listed other_listed also_held removed_held
    exact ⟨inside, different⟩

/-- While a move is rendered, the gaps in force in its body are the removals inside it. -/
theorem mem_removals_of_inForce (tidy : Tidy source edits)
    (listed : move.IsFrom edits) {gap : Gap}
    (gap_mem : gap ∈ (ofEdits edits).gaps) (in_force : inForce [move.index] gap = true)
    (held : move.body.holds gap.span.start) :
    gap.span ∈ removals edits move.body ∧ gap.move = none := by
  obtain ⟨span, taken⟩ := gap
  obtain ⟨-, body_inside⟩ := tidy.bodies _ _ _ _ listed.mem
  simp only [inForce, Bool.and_eq_true] at in_force
  obtain ⟨proper, elsewhere⟩ := in_force
  have span_held : span.holds span.start := Span.holds_start proper
  have removed_held : move.removed.holds span.start := Span.holds_of_covers body_inside held
  cases taken with
  | none =>
      have remove_mem := removal_mem_gaps.1 gap_mem
      obtain ⟨inside, -⟩ := tidy.covers_of_holds remove_mem span_held listed removed_held
      exact ⟨mem_removals_iff.2 ⟨remove_mem, proper, inside⟩, rfl⟩
  | some other =>
      obtain ⟨rfl, other_listed⟩ := move_mem_gaps.1 gap_mem
      obtain rfl := tidy.move_eq_of_holds listed other_listed removed_held span_held
      simp at elsewhere

end Tidy

/-! ## The body of a move -/

namespace Tidy

variable {source : String} {edits : List Edit} {move : Move} {renderBody : Move → List Chunk}
  {place : Nat}

theorem not_travels_inside (tidy : Tidy source.toList edits)
    (listed : move.IsFrom edits) (held : move.body.holds place) :
    travels ((ofEdits edits).gapAt? [move.index] place) place = false := by
  cases found : (ofEdits edits).gapAt? [move.index] place with
  | none => rfl
  | some gap =>
      obtain ⟨gap_mem, rfl, in_force, -⟩ := longest_of_gapAt? found
      obtain ⟨-, no_move⟩ := tidy.mem_removals_of_inForce listed gap_mem in_force held
      simp [travels, no_move]

/-- What is emitted in the body of a move stands for what the meaning puts into it. -/
theorem emit_standFor_putInside (tidy : Tidy source.toList edits)
    (listed : move.IsFrom edits) (held : move.body.holds place)
    (clear : (removals edits move.body).any (·.surrounds place) = false) :
    Chunk.StandFor source ((ofEdits edits).emit renderBody [move.index] place)
      (putInside edits move.body place) := by
  rw [putInside, if_neg (by simp [clear])]
  apply emit_standFor
  intro rank edit edit_listed
  cases edit with
  | insert position text =>
      by_cases here : position = place
      · simpa [emitEdit, here] using Chunk.StandFor.synthetic text
      · simpa [emitEdit, here] using Chunk.StandFor.nil
  | remove span => exact Chunk.StandFor.nil
  | move body removed target suffix =>
      obtain ⟨-, body_inside⟩ := tidy.bodies _ _ _ _ listed.mem
      have elsewhere : target ≠ place := tidy.target_ne_of_holds (mem_of_mem_ranked edit_listed)
        (tidy.removed_mem_gaps listed) (Span.holds_of_covers body_inside held)
      simpa [emitEdit, elsewhere] using Chunk.StandFor.nil

/-- The body of a move is walked as the meaning reads it. -/
theorem body_stage (tidy : Tidy source.toList edits)
    (listed : move.IsFrom edits) :
    Stage (ofEdits edits) source [move.index] ((ofEdits edits).emit renderBody [move.index])
      (removals edits move.body) (putInside edits move.body) move.body.start move.body.stop where
  bounded := bounded_ofEdits tidy.boundaries
  boundary := tidy.boundaries _ listed.mem move.body.stop
    (by simp [Edit.offsets])
  within := fun _ member => removals_within member
  nested := fun first first_mem second second_mem =>
    tidy.nested first (mem_gaps_of_mem_removals first_mem) second
      (mem_gaps_of_mem_removals second_mem)
  exact := by
    intro span start_le before
    constructor
    · intro member
      obtain ⟨remove_mem, proper, -⟩ := mem_removals_iff.1 member
      exact ⟨⟨span, none⟩, removal_mem_gaps.2 remove_mem, rfl, by simpa [inForce] using proper⟩
    · rintro ⟨gap, gap_mem, rfl, in_force⟩
      exact (tidy.mem_removals_of_inForce listed gap_mem in_force
        (Span.holds_iff.2 ⟨start_le, before⟩)).1
  quiet := fun _ still => emit_eq_nil still
  hidden := fun _ surrounded => by rw [putInside, if_pos surrounded]
  leaving := by
    intro place start_le before _ leaving
    rw [tidy.not_travels_inside listed (Span.holds_iff.2 ⟨start_le, before⟩)] at leaving
    exact absurd leaving Bool.false_ne_true
  emitted := fun _ start_le before clear _ =>
    tidy.emit_standFor_putInside listed (Span.holds_iff.2 ⟨start_le, before⟩) clear

/-- The chunks of a body stand for its text. -/
theorem body_standFor (tidy : Tidy source.toList edits)
    (listed : move.IsFrom edits) (depth : Nat) :
    Chunk.StandFor source ((ofEdits edits).chunksOf (depth + 1) [move.index] move.body false)
      (bodyText source.toList edits move.body) := by
  have boundaries := tidy.boundaries _ listed.mem
  obtain ⟨proper, -⟩ := tidy.bodies _ _ _ _ listed.mem
  obtain ⟨part, part_eq⟩ := Text.exists_slice?
    (boundaries move.body.start (by simp [Edit.offsets]))
    (boundaries move.body.stop (by simp [Edit.offsets])) (Nat.le_of_lt (Span.isProper_iff.1 proper))
  have clear : (removals edits move.body).any (·.surrounds move.body.start) = false := by
    rw [any_surrounds_eq_false_iff]
    intro span member before
    have := removals_within member
    omega
  rw [chunksOf, bodyText, part_eq, Option.getD_some]
  simpa using (tidy.body_stage listed).walk_standFor false (by simp) (Nat.lt_succ_self _)
    (Nat.le_refl _) (Nat.le_of_lt (Span.isProper_iff.1 proper)) clear part_eq

end Tidy

/-! ## The whole text -/

namespace Tidy

variable {source : String} {edits : List Edit} {move : Move} {renderBody : Move → List Chunk}
  {place : Nat}

/-- Where the insertions travel with a body, the meaning puts nothing. -/
theorem put_eq_nil_of_travels (tidy : Tidy source.toList edits)
    (leaving : travels ((ofEdits edits).gapAt? [] place) place = true) :
    put source.toList edits place = [] := by
  cases found : (ofEdits edits).gapAt? [] place with
  | none => simp [found, travels] at leaving
  | some gap =>
      obtain ⟨gap_mem, start_eq, in_force, -⟩ := longest_of_gapAt? found
      obtain ⟨span, taken⟩ := gap
      cases taken with
      | none => simp [found, travels] at leaving
      | some move =>
          obtain ⟨rfl, listed⟩ := move_mem_gaps.1 gap_mem
          have body_start : move.body.start = place := by simpa [found, travels] using leaving
          have taken_along : edits.any (Edit.takesAlong place) = true :=
            List.any_eq_true.2 ⟨_, listed.mem, by
              simp_all [Edit.takesAlong]⟩
          obtain ⟨body_proper, inside⟩ := tidy.bodies _ _ _ _ listed.mem
          have held : move.removed.holds place :=
            body_start ▸ Span.holds_of_covers inside (Span.holds_start body_proper)
          apply put_eq_nil
          · simp [stays, taken_along]
          · exact fun body removed target suffix member =>
              tidy.target_ne_of_holds member (tidy.removed_mem_gaps listed) held

/-- The gap found where a gap of a move begins is the gap of that move. -/
theorem gapAt?_removed (tidy : Tidy source.toList edits)
    (listed : move.IsFrom edits) :
    (ofEdits edits).gapAt? [] move.removed.start = some ⟨move.removed, some move⟩ := by
  have gap_mem := move_mem_gaps.2 ⟨rfl, listed⟩
  have proper := (mem_gaps_iff.1 (tidy.removed_mem_gaps listed)).2
  have in_force : inForce [] ⟨move.removed, some move⟩ = true := by simp [inForce, proper]
  have held : move.removed.holds move.removed.start := Span.holds_start proper
  cases found : (ofEdits edits).gapAt? [] move.removed.start with
  | none =>
      have := gapAt?_eq_none_iff.1 found _ gap_mem rfl
      exact absurd (this.symm.trans in_force) Bool.false_ne_true
  | some gap =>
      obtain ⟨span, taken⟩ := gap
      obtain ⟨other_mem, start_eq, other_force, longest⟩ := longest_of_gapAt? found
      have longer : move.removed.stop ≤ span.stop := longest _ gap_mem rfl in_force
      have start_eq : span.start = move.removed.start := start_eq
      have covering : span.covers move.removed :=
        Span.covers_iff.2 ⟨Nat.le_of_eq start_eq, longer⟩
      have also_held : span.holds move.removed.start := Span.holds_of_covers covering held
      cases taken with
      | none =>
          obtain ⟨inside, different⟩ :=
            tidy.covers_of_holds (removal_mem_gaps.1 other_mem) also_held listed held
          obtain ⟨-, body_inside⟩ := tidy.bodies _ _ _ _ listed.mem
          exact absurd (Span.eq_of_covers covering (Span.covers_trans body_inside inside)) different
      | some other =>
          obtain ⟨rfl, other_listed⟩ := move_mem_gaps.1 other_mem
          obtain rfl := tidy.move_eq_of_holds listed other_listed held also_held
          rfl

/-- Where nothing travels and no gap surrounds it, what is inserted stays. -/
theorem stays_of_not_travels (tidy : Tidy source.toList edits)
    (clear : (gaps edits).any (·.surrounds place) = false)
    (remaining : travels ((ofEdits edits).gapAt? [] place) place = false) :
    stays edits place = true := by
  rw [stays, clear, Bool.not_false, Bool.true_and, Bool.not_eq_true', ← Bool.not_eq_true]
  intro taken_along
  obtain ⟨edit, member, takes⟩ := List.any_eq_true.1 taken_along
  cases edit with
  | insert position text => simp [Edit.takesAlong] at takes
  | remove span => simp [Edit.takesAlong] at takes
  | move body removed target suffix =>
      obtain ⟨move, rfl, rfl, rfl, rfl, listed⟩ := Move.exists_isFrom member
      simp only [Edit.takesAlong, Bool.and_eq_true, beq_iff_eq] at takes
      obtain ⟨rfl, body_start⟩ := takes
      rw [tidy.gapAt?_removed listed] at remaining
      simp [travels, body_start] at remaining

/-- What is emitted where nothing travels and no gap surrounds it stands for what the meaning puts
there. -/
theorem emit_standFor_put (tidy : Tidy source.toList edits)
    (bodies : ∀ move : Move, move.IsFrom edits →
      Chunk.StandFor source (renderBody move) (bodyText source.toList edits move.body))
    (clear : (gaps edits).any (·.surrounds place) = false)
    (remaining : travels ((ofEdits edits).gapAt? [] place) place = false) :
    Chunk.StandFor source ((ofEdits edits).emit renderBody [] place)
      (put source.toList edits place) := by
  have staying := tidy.stays_of_not_travels clear remaining
  rw [put]
  apply emit_standFor
  intro rank edit listed
  cases edit with
  | insert position text =>
      by_cases here : position = place
      · simpa [emitEdit, contribution, staying, here] using Chunk.StandFor.synthetic text
      · simpa [emitEdit, contribution, here] using Chunk.StandFor.nil
  | remove span => exact Chunk.StandFor.nil
  | move body removed target suffix =>
      by_cases here : target = place
      · subst here
        let move : Move := { index := rank, body, removed, target, suffix }
        have move_listed : move.IsFrom edits := listed
        have outside : body.holds target = false := by
          rw [← Bool.not_eq_true]
          intro held
          exact tidy.target_ne_of_holds move_listed.mem (tidy.removed_mem_gaps move_listed)
            (Span.holds_of_covers (tidy.bodies _ _ _ _ move_listed.mem).2 held) rfl
        simpa [emitEdit, contribution, outside] using
          (bodies move move_listed).append (.synthetic suffix)
      · simpa [emitEdit, contribution, here] using Chunk.StandFor.nil

/-- The text is walked as the meaning reads it. -/
theorem whole_stage (tidy : Tidy source.toList edits)
    (bodies : ∀ move : Move, move.IsFrom edits →
      Chunk.StandFor source (renderBody move) (bodyText source.toList edits move.body)) :
    Stage (ofEdits edits) source [] ((ofEdits edits).emit renderBody []) (gaps edits)
      (put source.toList edits) 0 (Text.width source.toList) where
  bounded := bounded_ofEdits tidy.boundaries
  boundary := Text.isBoundary_width source.toList
  within := by
    intro span member
    obtain ⟨gap, gap_mem, rfl, -⟩ := mem_gaps_iff_inForce.1 member
    obtain ⟨-, proper⟩ := mem_gaps_iff.1 member
    exact ⟨Nat.zero_le _, Span.isProper_iff.1 proper,
      ((bounded_ofEdits tidy.boundaries).gaps gap gap_mem).2.le_width⟩
  nested := tidy.nested
  exact := fun span _ _ => mem_gaps_iff_inForce
  quiet := fun _ still => emit_eq_nil still
  hidden := by
    intro place surrounded
    obtain ⟨gap, gap_mem, surrounds⟩ := List.any_eq_true.1 surrounded
    apply put_eq_nil
    · simp [stays, surrounded]
    · exact fun body removed target suffix member =>
        tidy.target_ne_of_holds member gap_mem (Span.holds_of_surrounds surrounds)
  leaving := fun _ _ _ _ leaving => tidy.put_eq_nil_of_travels leaving
  emitted := fun _ _ _ clear remaining => tidy.emit_standFor_put bodies clear remaining

/-- The chunks of the whole text stand for its meaning. -/
theorem chunksOf_standFor (tidy : Tidy source.toList edits) :
    Chunk.StandFor source
      ((ofEdits edits).chunksOf ((ofEdits edits).moves + 1) []
        ⟨0, Text.width source.toList⟩ true)
      (text source.toList edits) := by
  have bodies : ∀ move : Move, move.IsFrom edits →
      Chunk.StandFor source
        ((ofEdits edits).chunksOf (ofEdits edits).moves [move.index] move.body false)
        (bodyText source.toList edits move.body) := by
    intro move listed
    have some_move : 0 < (ofEdits edits).moves := moves_pos_of_mem listed.mem rfl
    obtain ⟨depth, depth_eq⟩ := Nat.exists_eq_add_one_of_ne_zero (Nat.ne_of_gt some_move)
    rw [depth_eq]
    exact tidy.body_standFor listed depth
  have stage := tidy.whole_stage bodies
  have whole : Text.slice? source.toList ⟨0, Text.width source.toList⟩ = some source.toList :=
    Text.slice?_eq_some_iff.2 ⟨[], [], by simp, rfl, Nat.zero_add _⟩
  have clear_start : (gaps edits).any (·.surrounds 0) = false := by
    rw [any_surrounds_eq_false_iff]
    omega
  have clear_end : (gaps edits).any (·.surrounds (Text.width source.toList)) = false := by
    rw [any_surrounds_eq_false_iff]
    exact fun span member _ => (stage.within span member).2.2
  have none_at_end : (ofEdits edits).gapAt? [] (Text.width source.toList) = none := by
    rw [gapAt?_eq_none_iff]
    intro gap gap_mem at_end
    rw [← Bool.not_eq_true]
    intro in_force
    have := stage.within gap.span (mem_gaps_iff_inForce.2 ⟨gap, gap_mem, rfl, in_force⟩)
    omega
  have finish := tidy.emit_standFor_put bodies clear_end (by simp [none_at_end, travels])
  rw [chunksOf, text]
  simpa using stage.walk_standFor true (fun _ => ⟨none_at_end, finish⟩) (Nat.lt_succ_self _)
    (Nat.le_refl _) (Nat.zero_le _) clear_start whole

end Tidy

end Meaning

namespace Revision

/-- Rendering a tidy list of edits gives what the edits mean. -/
theorem text_render {source : String} {edits : List Edit}
    (tidy : Meaning.Tidy source.toList edits) :
    ((Revision.mk edits).render source).text.toList = Meaning.text source.toList edits :=
  tidy.chunksOf_standFor.merge.text_eq

/-- A body that takes the text inserted at its start along, out of which a removal cuts a part, and
which arrives between two insertions behind adjoining gaps; of two insertions at the front one is
inside a gap. -/
theorem text_render_taken_along :
    Meaning.Tidy "abcdéghij".toList
      [.insert 2 "X", .insert 9 "Y", .move ⟨2, 6⟩ ⟨2, 7⟩ 9 ";", .insert 9 "Z", .remove ⟨3, 4⟩,
        .insert 4 "U", .remove ⟨7, 9⟩, .remove ⟨0, 2⟩, .remove ⟨0, 1⟩, .insert 0 "W",
        .insert 1 "V"] ∧
    ((Revision.mk [.insert 2 "X", .insert 9 "Y", .move ⟨2, 6⟩ ⟨2, 7⟩ 9 ";", .insert 9 "Z",
      .remove ⟨3, 4⟩, .insert 4 "U", .remove ⟨7, 9⟩, .remove ⟨0, 2⟩, .remove ⟨0, 1⟩,
      .insert 0 "W", .insert 1 "V"]).render "abcdéghij").text.toList = "WYXcUé;Zj".toList := by
  have tidy : Meaning.Tidy "abcdéghij".toList
      [.insert 2 "X", .insert 9 "Y", .move ⟨2, 6⟩ ⟨2, 7⟩ 9 ";", .insert 9 "Z", .remove ⟨3, 4⟩,
        .insert 4 "U", .remove ⟨7, 9⟩, .remove ⟨0, 2⟩, .remove ⟨0, 1⟩, .insert 0 "W",
        .insert 1 "V"] := by
    constructor
    case bodies =>
      intro body removed target suffix member
      obtain ⟨rfl, rfl, rfl, rfl⟩ :
          body = ⟨2, 6⟩ ∧ removed = ⟨2, 7⟩ ∧ target = 9 ∧ suffix = ";" := by
        simpa using member
      decide
    case targets =>
      intro body removed target suffix member
      obtain ⟨rfl, rfl, rfl, rfl⟩ :
          body = ⟨2, 6⟩ ∧ removed = ⟨2, 7⟩ ∧ target = 9 ∧ suffix = ";" := by
        simpa using member
      decide
    case removalsApart =>
      intro span member
      have one_of : span = ⟨3, 4⟩ ∨ span ∈ [⟨7, 9⟩, ⟨0, 2⟩, ⟨0, 1⟩] := List.mem_cons.1 member
      rcases one_of with rfl | elsewhere
      · exact .inr ⟨⟨2, 6⟩, ⟨2, 7⟩, 9, ";", by decide, by decide, by decide⟩
      · refine .inl ?_
        clear member
        revert span
        decide
    all_goals decide
  exact ⟨tidy, (text_render tidy).trans (by decide)⟩

end Revision
end Shakedown
