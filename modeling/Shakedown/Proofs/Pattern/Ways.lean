import Shakedown.Pattern.Search

/-!
# All ways to match

A pattern is matched with what follows it, trying one way after the other until the rest agrees. Said
without the rest: a pattern has a list of ways to match at a place, in the order in which they are
tried, and the first of them that the rest agrees with is taken.
-/

namespace Shakedown

namespace Cursor

variable (cursor : Cursor) (count more : Nat)

@[simp]
theorem skip_zero : cursor.skip 0 = cursor := rfl

@[simp]
theorem after_skip : (cursor.skip count).after = cursor.after.drop count := by
  fun_induction skip count cursor with
  | case1 => rfl
  | case2 count before char after ih => simpa using ih
  | case3 => simp

@[simp]
theorem before_skip :
    (cursor.skip count).before = (cursor.after.take count).reverse ++ cursor.before := by
  fun_induction skip count cursor with
  | case1 => simp
  | case2 count before char after ih => simpa using ih
  | case3 => simp

theorem eq_of_parts {first second : Cursor} (before_eq : first.before = second.before)
    (after_eq : first.after = second.after) : first = second := by
  cases first
  cases second
  cases before_eq
  cases after_eq
  rfl

@[simp]
theorem skip_skip : (cursor.skip count).skip more = cursor.skip (count + more) := by
  apply eq_of_parts
  · simp only [before_skip, after_skip, ← List.append_assoc, ← List.reverse_append, List.take_add]
  · simp only [after_skip, List.drop_drop]

@[simp]
theorem between_skip : cursor.between (cursor.skip count) = cursor.after.take count := by
  rw [between, after_skip, List.length_drop]
  obtain short | long := Nat.le_total count cursor.after.length
  · rw [Nat.sub_sub_self short]
  · rw [List.take_of_length_le long, List.take_of_length_le (by omega)]

/-- A step over the front of what stands behind the place. -/
theorem skip_append (before front back : List Char) :
    (⟨before, front ++ back⟩ : Cursor).skip front.length = ⟨front.reverse ++ before, back⟩ := by
  apply eq_of_parts
  · simp
  · simp

/-- The place behind the front of a text. -/
theorem skip_ofText (front back : List Char) :
    (ofText (front ++ back)).skip front.length = ⟨front.reverse, back⟩ := by
  rw [ofText, skip_append, List.append_nil]

end Cursor

namespace Pattern

/-! ## The ways in order -/

/-- Where a match may end and what its groups hold. -/
abbrev Way := Cursor × Groups

/-- The ways to repeat what has the given ways, going on before stopping. -/
def waysOfMany (body : Cursor → Groups → List Way) : (limit : Nat) → Cursor → Groups → List Way
  | 0, cursor, groups => [(cursor, groups)]
  | limit + 1, cursor, groups =>
      ((body cursor groups).flatMap fun way =>
        if way.1.after.length < cursor.after.length then waysOfMany body limit way.1 way.2
        else []) ++ [(cursor, groups)]

/-- The ways to repeat what has the given ways, stopping before going on. -/
def waysOfFew (body : Cursor → Groups → List Way) : (limit : Nat) → Cursor → Groups → List Way
  | 0, cursor, groups => [(cursor, groups)]
  | limit + 1, cursor, groups =>
      (cursor, groups) :: (body cursor groups).flatMap fun way =>
        if way.1.after.length < cursor.after.length then waysOfFew body limit way.1 way.2 else []

/-- All ways to match a pattern at a place, in the order in which they are tried. -/
def ways : Pattern → Cursor → Groups → List Way
  | empty, cursor, groups => [(cursor, groups)]
  | one accepts, cursor, groups =>
      match cursor.after with
      | [] => []
      | char :: after => if accepts char then [(⟨char :: cursor.before, after⟩, groups)] else []
  | seq first second, cursor, groups =>
      (first.ways cursor groups).flatMap fun way => second.ways way.1 way.2
  | choice first second, cursor, groups => first.ways cursor groups ++ second.ways cursor groups
  | many body, cursor, groups => waysOfMany body.ways cursor.after.length cursor groups
  | few body, cursor, groups => waysOfFew body.ways cursor.after.length cursor groups
  | lineStart, cursor, groups => if cursor.opensLine then [(cursor, groups)] else []
  | group number body, cursor, groups =>
      (body.ways cursor groups).map fun way =>
        (way.1, (number, cursor.between way.1) :: way.2)

variable {α : Type} {cursor : Cursor} {groups : Groups}

theorem findSome?_flatMap {β γ : Type} (items : List β) (ways : β → List γ) (answer : γ → Option α) :
    (items.flatMap ways).findSome? answer = items.findSome? fun item => (ways item).findSome? answer := by
  induction items with
  | nil => rfl
  | cons item rest ih =>
      rw [List.flatMap_cons, List.findSome?_append, List.findSome?_cons, ih]
      cases (ways item).findSome? answer <;> rfl

section Repeated

variable {run : Continuation α → Continuation α} {body : Cursor → Groups → List Way}
  {next : Continuation α}

theorem repeatMany_eq (run_eq : ∀ next cursor groups,
      run next cursor groups = (body cursor groups).findSome? fun way => next way.1 way.2)
    (limit : Nat) : repeatMany run next limit cursor groups =
      (waysOfMany body limit cursor groups).findSome? fun way => next way.1 way.2 := by
  induction limit generalizing cursor groups with
  | zero => simp [repeatMany, waysOfMany]
  | succ limit ih =>
      have more_eq : ∀ way : Way,
          ((if way.1.after.length < cursor.after.length then waysOfMany body limit way.1 way.2
            else []).findSome? fun way => next way.1 way.2) =
          if way.1.after.length < cursor.after.length then
            repeatMany run next limit way.1 way.2 else none := by
        intro way
        split
        · exact ih.symm
        · rfl
      rw [repeatMany, waysOfMany, run_eq, List.findSome?_append, findSome?_flatMap,
        List.findSome?_singleton]
      simp only [more_eq]
      cases (body cursor groups).findSome? _ <;> rfl

theorem repeatFew_eq (run_eq : ∀ next cursor groups,
      run next cursor groups = (body cursor groups).findSome? fun way => next way.1 way.2)
    (limit : Nat) : repeatFew run next limit cursor groups =
      (waysOfFew body limit cursor groups).findSome? fun way => next way.1 way.2 := by
  induction limit generalizing cursor groups with
  | zero => simp [repeatFew, waysOfFew]
  | succ limit ih =>
      have more_eq : ∀ way : Way,
          ((if way.1.after.length < cursor.after.length then waysOfFew body limit way.1 way.2
            else []).findSome? fun way => next way.1 way.2) =
          if way.1.after.length < cursor.after.length then
            repeatFew run next limit way.1 way.2 else none := by
        intro way
        split
        · exact ih.symm
        · rfl
      rw [repeatFew, waysOfFew, run_eq, List.findSome?_cons, findSome?_flatMap]
      simp only [more_eq]
      cases next cursor groups <;> rfl

end Repeated

/-- Matching with what follows finds the first way that what follows agrees with. -/
theorem run_eq (pattern : Pattern) (next : Continuation α) (cursor : Cursor) (groups : Groups) :
    pattern.run next cursor groups =
      (pattern.ways cursor groups).findSome? fun way => next way.1 way.2 := by
  induction pattern generalizing next cursor groups with
  | empty => simp [run, ways]
  | one accepts =>
      obtain ⟨before, after⟩ := cursor
      cases after with
      | nil => rfl
      | cons char after => cases accepted : accepts char <;> simp [run, ways, accepted]
  | seq first second first_ih second_ih =>
      rw [run, ways, first_ih, findSome?_flatMap]
      simp only [← second_ih]
  | choice first second first_ih second_ih =>
      rw [run, ways, first_ih, second_ih, List.findSome?_append]
      cases (first.ways cursor groups).findSome? _ <;> rfl
  | many body ih => exact repeatMany_eq ih _
  | few body ih => exact repeatFew_eq ih _
  | lineStart => cases opens : cursor.opensLine <;> simp [run, ways, opens]
  | group number body ih =>
      rw [run, ways, ih, List.findSome?_map]
      rfl

/-- A search at a place finds the first way of the pattern. -/
theorem matchAt?_eq (pattern : Pattern) (cursor : Cursor) :
    pattern.matchAt? cursor =
      (pattern.ways cursor []).head?.map fun way => ⟨cursor, way.1, way.2⟩ := by
  rw [matchAt?, run_eq]
  cases pattern.ways cursor [] <;> rfl

/-! ## Where ways lead -/

section Ahead

variable {body : Cursor → Groups → List Way} {way : Way}
  (ahead : ∀ cursor groups, ∀ way ∈ body cursor groups, ∃ count, way.1 = cursor.skip count)

include ahead

theorem exists_skip_of_mem_waysOfMany {limit : Nat}
    (member : way ∈ waysOfMany body limit cursor groups) : ∃ count, way.1 = cursor.skip count := by
  induction limit generalizing cursor groups with
  | zero => exact ⟨0, by simpa [waysOfMany] using congrArg Prod.fst (List.mem_singleton.1 member)⟩
  | succ limit ih =>
      rw [waysOfMany, List.mem_append, List.mem_flatMap, List.mem_singleton] at member
      obtain ⟨first, among, member⟩ | rfl := member
      · split at member
        · obtain ⟨count, first_eq⟩ := ahead cursor groups first among
          obtain ⟨more, way_eq⟩ := ih member
          exact ⟨count + more, by rw [way_eq, first_eq, Cursor.skip_skip]⟩
        · contradiction
      · exact ⟨0, rfl⟩

theorem exists_skip_of_mem_waysOfFew {limit : Nat}
    (member : way ∈ waysOfFew body limit cursor groups) : ∃ count, way.1 = cursor.skip count := by
  induction limit generalizing cursor groups with
  | zero => exact ⟨0, by simpa [waysOfFew] using congrArg Prod.fst (List.mem_singleton.1 member)⟩
  | succ limit ih =>
      rw [waysOfFew, List.mem_cons, List.mem_flatMap] at member
      obtain rfl | ⟨first, among, member⟩ := member
      · exact ⟨0, rfl⟩
      · split at member
        · obtain ⟨count, first_eq⟩ := ahead cursor groups first among
          obtain ⟨more, way_eq⟩ := ih member
          exact ⟨count + more, by rw [way_eq, first_eq, Cursor.skip_skip]⟩
        · contradiction

end Ahead

/-- Every way leads ahead in the text. -/
theorem exists_skip_of_mem_ways {pattern : Pattern} {way : Way}
    (member : way ∈ pattern.ways cursor groups) : ∃ count, way.1 = cursor.skip count := by
  induction pattern generalizing cursor groups way with
  | empty => exact ⟨0, congrArg Prod.fst (List.mem_singleton.1 member)⟩
  | one accepts =>
      obtain ⟨before, after⟩ := cursor
      rw [ways] at member
      split at member
      · contradiction
      · rename_i char after after_eq
        obtain rfl : _ = char :: after := after_eq
        split at member
        · exact ⟨1, congrArg Prod.fst (List.mem_singleton.1 member)⟩
        · contradiction
  | seq first second first_ih second_ih =>
      obtain ⟨middle, among, member⟩ := List.mem_flatMap.1 member
      obtain ⟨count, middle_eq⟩ := first_ih among
      obtain ⟨more, way_eq⟩ := second_ih member
      exact ⟨count + more, by rw [way_eq, middle_eq, Cursor.skip_skip]⟩
  | choice first second first_ih second_ih =>
      obtain member | member := List.mem_append.1 member
      · exact first_ih member
      · exact second_ih member
  | many body ih => exact exists_skip_of_mem_waysOfMany (fun _ _ _ => ih) member
  | few body ih => exact exists_skip_of_mem_waysOfFew (fun _ _ _ => ih) member
  | lineStart =>
      rw [ways] at member
      split at member
      · exact ⟨0, congrArg Prod.fst (List.mem_singleton.1 member)⟩
      · contradiction
  | group number body ih =>
      obtain ⟨inner, among, rfl⟩ := List.mem_map.1 member
      obtain ⟨count, inner_eq⟩ := ih among
      exact ⟨count, inner_eq⟩

/-! ## Patterns without repetition -/

theorem ways_all_cons (pattern : Pattern) (rest : List Pattern) :
    (all (pattern :: rest)).ways cursor groups =
      (pattern.ways cursor groups).flatMap fun way => (all rest).ways way.1 way.2 := rfl

/-- The first way of patterns one behind the other. -/
theorem head?_ways_all_cons (pattern : Pattern) (rest : List Pattern) :
    ((all (pattern :: rest)).ways cursor groups).head? =
      (pattern.ways cursor groups).findSome? fun way => ((all rest).ways way.1 way.2).head? := by
  rw [ways_all_cons, List.head?_flatMap]

theorem head?_ways_all_singleton (pattern : Pattern) :
    ((all [pattern]).ways cursor groups).head? = (pattern.ways cursor groups).head? := by
  rw [head?_ways_all_cons]
  cases pattern.ways cursor groups <;> rfl

theorem ways_lineStart :
    lineStart.ways cursor groups = if cursor.opensLine then [(cursor, groups)] else [] := rfl

/-- A given text has one way where it stands and none elsewhere. -/
theorem ways_literal (text : List Char) :
    (literal text).ways cursor groups =
      if text.isPrefixOf cursor.after then [(cursor.skip text.length, groups)] else [] := by
  induction text generalizing cursor with
  | nil => simp [literal, ways]
  | cons char rest ih =>
      obtain ⟨before, after⟩ := cursor
      have rest_eq : rest.foldr (fun char rest => seq (one (· == char)) rest) empty = literal rest := rfl
      rw [literal, List.foldr_cons, rest_eq, ways]
      cases after with
      | nil => simp [ways]
      | cons first after =>
          cases same : first == char
          · simp [ways, same, List.isPrefixOf, BEq.comm (a := char)]
          · simp [ways, same, ih, List.isPrefixOf, BEq.comm (a := char), Cursor.skip]

/-! ## Repetitions of characters -/

/-- A repetition of one character may stop behind each of the characters that are accepted, and goes
as far as it can first. -/
theorem ways_many_one (accepts : Char → Bool) :
    (many (one accepts)).ways cursor groups =
      (List.range ((cursor.after.takeWhile accepts).length + 1)).reverse.map fun count =>
        (cursor.skip count, groups) := by
  obtain ⟨before, after⟩ := cursor
  rw [ways]
  induction after generalizing before with
  | nil => rfl
  | cons char rest ih =>
      rw [List.length_cons, waysOfMany]
      cases accepted : accepts char with
      | false => simp [ways, accepted]
      | true =>
          have one_way : (one accepts).ways ⟨before, char :: rest⟩ groups =
              [(⟨char :: before, rest⟩, groups)] := by
            simp [ways, accepted]
          have shorter : rest.length < (char :: rest).length := Nat.lt_succ_self _
          rw [one_way, List.flatMap_singleton, if_pos shorter, ih,
            List.takeWhile_cons_of_pos accepted, List.length_cons]
          generalize (rest.takeWhile accepts).length + 1 = count
          rw [List.range_succ_eq_map, List.reverse_cons, List.map_append, ← List.map_reverse,
            List.map_map]
          rfl

/-- A repetition of one character goes as far as it can first. -/
theorem exists_ways_many_one (accepts : Char → Bool) (cursor : Cursor) (groups : Groups) :
    ∃ others, (many (one accepts)).ways cursor groups =
      (cursor.skip (cursor.after.takeWhile accepts).length, groups) :: others := by
  rw [ways_many_one, List.range_succ, List.reverse_concat, List.map_cons]
  exact ⟨_, rfl⟩

end Pattern
end Shakedown
