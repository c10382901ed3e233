import Shakedown.Proofs.Pattern.Takes

/-!
# Repeating any pattern

A greedy repetition takes one text of its body after the other, each with at least one character.
The bound on the rounds never shows, for no text has more rounds than characters.
-/

namespace Shakedown
namespace Pattern

variable {body : Pattern} {before text rest : List Char} {groups noted : Groups}

theorem waysOfMany_of_nil (ways : Cursor → Groups → List Way) (limit : Nat) {cursor : Cursor}
    (none_left : cursor.after.length = 0) :
    waysOfMany ways limit cursor groups = [(cursor, groups)] := by
  cases limit <;> simp [waysOfMany, none_left]

/-- Bounds that the text does not reach make no difference. -/
theorem waysOfMany_eq_of_le (ways : Cursor → Groups → List Way)
    {limit other : Nat} {cursor : Cursor}
    (enough : cursor.after.length ≤ limit) (also_enough : cursor.after.length ≤ other) :
    waysOfMany ways limit cursor groups = waysOfMany ways other cursor groups := by
  induction limit generalizing other cursor groups with
  | zero =>
      have none_left := Nat.le_zero.1 enough
      rw [waysOfMany_of_nil ways _ none_left, waysOfMany_of_nil ways _ none_left]
  | succ limit ih =>
      cases other with
      | zero =>
          have none_left := Nat.le_zero.1 also_enough
          rw [waysOfMany_of_nil ways _ none_left, waysOfMany_of_nil ways _ none_left]
      | succ other =>
          rw [waysOfMany, waysOfMany]
          congr 2
          funext way
          split
          · exact ih (by omega) (by omega)
          · rfl

/-- A repetition makes a round and goes on, or stops. -/
theorem ways_many (body : Pattern) (cursor : Cursor) (groups : Groups) :
    (many body).ways cursor groups =
      ((body.ways cursor groups).flatMap fun way =>
        if way.1.after.length < cursor.after.length then (many body).ways way.1 way.2 else []) ++
          [(cursor, groups)] := by
  have enough : cursor.after.length ≤ cursor.after.length + 1 := Nat.le_succ _
  rw [ways, waysOfMany_eq_of_le body.ways (Nat.le_refl _) enough, waysOfMany]
  congr 2
  funext way
  split
  · exact waysOfMany_eq_of_le body.ways (by omega) (Nat.le_refl _)
  · rfl

theorem takes_many :
    (many body).Takes before text rest groups noted ↔
      (text = [] ∧ noted = groups) ∨ ∃ front back between, front ≠ [] ∧ text = front ++ back ∧
        body.Takes before front (back ++ rest) groups between ∧
        (many body).Takes (front.reverse ++ before) back rest between noted := by
  rw [Takes, ways_many, List.mem_append, List.mem_flatMap, List.mem_singleton, or_comm]
  constructor
  · rintro (same | ⟨first, among, member⟩)
    · obtain ⟨cursor_eq, noted_eq⟩ := Prod.mk.inj same
      exact .inl ⟨by simpa using congrArg Cursor.before cursor_eq, noted_eq⟩
    · obtain ⟨front, others, text_eq, first_eq, front_takes⟩ := exists_takes_of_mem_ways among
      rw [first_eq] at member
      split at member
      · rename_i shorter
        obtain ⟨back, rest', rfl, way_eq, back_takes⟩ := exists_takes_of_mem_ways member
        obtain ⟨cursor_eq, -⟩ := Prod.mk.inj way_eq
        obtain ⟨-, rfl⟩ := Cursor.mk.inj cursor_eq
        have filled : front ≠ [] := by
          rintro rfl
          simp [text_eq] at shorter
        have text_eq : text = front ++ back := by
          rw [← List.append_assoc] at text_eq
          exact List.append_cancel_right text_eq
        exact .inr ⟨front, back, first.2, filled, text_eq, front_takes, back_takes⟩
      · contradiction
  · rintro (⟨rfl, rfl⟩ | ⟨front, back, between, filled, rfl, front_takes, back_takes⟩)
    · exact .inl rfl
    · refine .inr ⟨_, by rw [List.append_assoc]; exact front_takes, ?_⟩
      have shorter := List.length_pos_iff.2 filled
      rw [if_pos (by simp only [List.length_append]; omega), List.reverse_append, List.append_assoc]
      exact back_takes

/-- What a repetition takes falls into parts that its body takes, when the body asks for nothing
else. -/
theorem takes_many_of_plain {accepts : List Char → Prop}
    (plain : ∀ {before text rest groups noted},
      body.Takes before text rest groups noted ↔ accepts text ∧ noted = groups) :
    (many body).Takes before text rest groups noted ↔
      (∃ parts : List (List Char),
        text = parts.flatten ∧ ∀ part ∈ parts, part ≠ [] ∧ accepts part) ∧
        noted = groups := by
  constructor
  · intro takes
    induction length_eq : text.length using Nat.strongRecOn generalizing before text groups with
    | _ length ih =>
        obtain ⟨rfl, rfl⟩ | ⟨front, back, between, filled, rfl, front_takes, back_takes⟩ :=
          takes_many.1 takes
        · exact ⟨⟨[], rfl, by simp⟩, rfl⟩
        · obtain ⟨accepted, rfl⟩ := plain.1 front_takes
          have positive := List.length_pos_iff.2 filled
          rw [List.length_append] at length_eq
          obtain ⟨⟨parts, rfl, all⟩, rfl⟩ := ih _ (by omega) back_takes rfl
          exact ⟨⟨front :: parts, rfl, List.forall_mem_cons.2 ⟨⟨filled, accepted⟩, all⟩⟩, rfl⟩
  · rintro ⟨⟨parts, rfl, all⟩, rfl⟩
    induction parts generalizing before with
    | nil => exact takes_many.2 (.inl ⟨rfl, rfl⟩)
    | cons part parts ih =>
        obtain ⟨⟨filled, accepted⟩, all⟩ := List.forall_mem_cons.1 all
        exact takes_many.2 (.inr ⟨part, parts.flatten, noted, filled, rfl, plain.2 ⟨accepted, rfl⟩,
          ih all⟩)

/-- What a repetition takes falls into parts that its body takes. -/
theorem exists_parts_of_takes_many {accepts : List Char → Prop} {Keeps : Groups → Groups → Prop}
    (keeps_refl : ∀ groups, Keeps groups groups)
    (keeps_trans : ∀ {groups between noted}, Keeps groups between → Keeps between noted → Keeps groups noted)
    (reads : ∀ {before text rest groups noted},
      body.Takes before text rest groups noted → accepts text ∧ Keeps groups noted)
    (takes : (many body).Takes before text rest groups noted) :
    (∃ parts : List (List Char), text = parts.flatten ∧ ∀ part ∈ parts, accepts part) ∧
      Keeps groups noted := by
  induction length_eq : text.length using Nat.strongRecOn generalizing before text groups with
  | _ length ih =>
      obtain ⟨rfl, rfl⟩ | ⟨front, back, between, filled, rfl, front_takes, back_takes⟩ :=
        takes_many.1 takes
      · exact ⟨⟨[], rfl, by simp⟩, keeps_refl noted⟩
      · obtain ⟨accepted, kept⟩ := reads front_takes
        have positive := List.length_pos_iff.2 filled
        rw [List.length_append] at length_eq
        obtain ⟨⟨parts, rfl, all⟩, also_kept⟩ := ih _ (by omega) back_takes rfl
        exact ⟨⟨front :: parts, rfl, List.forall_mem_cons.2 ⟨accepted, all⟩⟩, keeps_trans kept also_kept⟩

/-- Parts that its body takes are taken by a repetition. -/
theorem exists_takes_many {accepts : List Char → Prop}
    (takes : ∀ {before text} rest groups, accepts text → ∃ noted, body.Takes before text rest groups noted)
    (filled : ∀ {text}, accepts text → text ≠ []) {parts : List (List Char)}
    (all : ∀ part ∈ parts, accepts part) :
    ∃ noted, (many body).Takes before parts.flatten rest groups noted := by
  induction parts generalizing before groups with
  | nil => exact ⟨groups, takes_many.2 (.inl ⟨rfl, rfl⟩)⟩
  | cons part parts ih =>
      obtain ⟨accepted, all⟩ := List.forall_mem_cons.1 all
      obtain ⟨between, part_takes⟩ := takes (parts.flatten ++ rest) groups accepted
      obtain ⟨noted, others_take⟩ := ih all
      exact ⟨noted, takes_many.2 (.inr ⟨part, parts.flatten, between, filled accepted, rfl, part_takes,
        others_take⟩)⟩

/-! ## Lazy repetitions -/

/-- Stopping early or late, a repetition has the same ways. -/
theorem mem_waysOfFew_iff (ways : Cursor → Groups → List Way) (limit : Nat) {cursor : Cursor} {way : Way} :
    way ∈ waysOfFew ways limit cursor groups ↔ way ∈ waysOfMany ways limit cursor groups := by
  induction limit generalizing cursor groups with
  | zero => rw [waysOfFew, waysOfMany]
  | succ limit ih =>
      rw [waysOfFew, waysOfMany, List.mem_cons, List.mem_append, List.mem_singleton, or_comm]
      simp only [List.mem_flatMap]
      apply or_congr_left
      apply exists_congr
      intro first
      split
      · rw [ih]
      · rfl

theorem takes_few :
    (few body).Takes before text rest groups noted ↔ (many body).Takes before text rest groups noted :=
  mem_waysOfFew_iff body.ways _

end Pattern
end Shakedown
