/-!
# The last greatest element

Choosing from a list the element with the greatest key, the last one where several share it.
-/

namespace Shakedown

/-- The later of two elements unless its key is smaller. -/
def laterUnlessSmaller {α : Type} (key : α → Nat) (best : Option α) (next : α) : Option α :=
  match best with
  | none => some next
  | some other => if key other ≤ key next then some next else some other

/-- The last of the elements whose key is greatest. -/
def lastGreatest? {α : Type} (key : α → Nat) (items : List α) : Option α :=
  items.foldl (laterUnlessSmaller key) none

@[simp]
theorem lastGreatest?_nil {α : Type} (key : α → Nat) : lastGreatest? key [] = none := rfl

theorem lastGreatest?_concat {α : Type} (key : α → Nat) (items : List α) (item : α) :
    lastGreatest? key (items ++ [item]) =
      laterUnlessSmaller key (lastGreatest? key items) item := by
  simp [lastGreatest?]

theorem foldl_laterUnlessSmaller {α : Type} (key : α → Nat) (start : α) (items : List α) :
    ∃ best, items.foldl (laterUnlessSmaller key) (some start) = some best ∧
      best ∈ start :: items ∧ ∀ item ∈ start :: items, key item ≤ key best := by
  induction items generalizing start with
  | nil => exact ⟨start, rfl, by simp, by simp⟩
  | cons item items ih =>
      rw [List.foldl_cons, laterUnlessSmaller]
      split
      · obtain ⟨best, best_eq, member, greatest⟩ := ih item
        exact ⟨best, best_eq, List.mem_cons_of_mem _ member, by grind⟩
      · obtain ⟨best, best_eq, member, greatest⟩ := ih start
        exact ⟨best, best_eq, by grind, by grind⟩

/-- A choice is one of the elements, and none of them has a greater key. -/
theorem greatest_of_lastGreatest? {α : Type} {key : α → Nat} {items : List α} {best : α}
    (chosen : lastGreatest? key items = some best) :
    best ∈ items ∧ ∀ item ∈ items, key item ≤ key best := by
  cases items with
  | nil => simp at chosen
  | cons start items =>
      obtain ⟨other, other_eq, member, greatest⟩ := foldl_laterUnlessSmaller key start items
      obtain rfl : other = best := Option.some.inj (other_eq.symm.trans chosen)
      exact ⟨member, greatest⟩

@[simp]
theorem lastGreatest?_eq_none_iff {α : Type} {key : α → Nat} {items : List α} :
    lastGreatest? key items = none ↔ items = [] := by
  cases items with
  | nil => simp
  | cons start items =>
      obtain ⟨best, best_eq, -⟩ := foldl_laterUnlessSmaller key start items
      have chosen : lastGreatest? key (start :: items) = some best := best_eq
      simp [chosen]

end Shakedown
