import Mathlib.Data.List.Basic
import Shakedown.Edit.Chunk
import Shakedown.Marker

/-!
# Chunks with markers

A marker belongs to a place of the given text. It stands where it belongs when the text is copied from
that place on right behind it. Chunk by chunk this is a matter of neighbours, so lists of which it
holds can be put one behind the other, and merged.
-/

namespace Shakedown
namespace Chunk

/-- The markers in a list of chunks are those of the places from which something is copied. -/
structure FitsMarkers (places : List Nat) (chunks : List Chunk) : Prop where
  /-- A marker in new text has only a blank behind it, and then text is copied from one of the places
  on. -/
  followed : ∀ front new back, chunks = front ++ .synthetic new :: back →
    ∀ before behind, new.toList = before ++ (Marker.pure.toList ++ behind) →
      behind = [' '] ∧ ∃ start stop rest,
        back = .copied ⟨start, stop⟩ :: rest ∧ start < stop ∧ start ∈ places
  /-- What is copied and holds one of the places begins there, behind new text that ends with a marker
  and holds no other one. -/
  carried : ∀ front span back, chunks = front ++ .copied span :: back →
    ∀ place ∈ places, span.holds place →
      span.start = place ∧ ∃ earlier before,
        front = earlier ++ [.synthetic (before ++ (Marker.pure ++ " "))] ∧
          ¬Marker.pure.toList <:+: before.toList

/-- The list is made of new text without at signs, of ranges that hold none of the places, and of
markers, each in front of a range that begins at one of the places and holds no other. -/
inductive IsMarked (places : List Nat) : List Chunk → Prop
  /-- Nothing. -/
  | nil : IsMarked places []
  /-- New text that holds no marker. -/
  | plain {text : String} {rest : List Chunk} : '@' ∉ text.toList → IsMarked places rest →
      IsMarked places (.synthetic text :: rest)
  /-- A range in which no marker belongs. -/
  | copied {span : Span} {rest : List Chunk} : span.isProper →
      (∀ place ∈ places, span.holds place = false) → IsMarked places rest →
      IsMarked places (.copied span :: rest)
  /-- A marker with what it belongs to. -/
  | marker {before : String} {place stop : Nat} {rest : List Chunk} : '@' ∉ before.toList →
      place ∈ places → place < stop →
      (∀ other ∈ places, (⟨place, stop⟩ : Span).holds other → other = place) →
      IsMarked places rest →
      IsMarked places (.synthetic (before ++ (Marker.pure ++ " ")) :: .copied ⟨place, stop⟩ :: rest)

namespace IsMarked

variable {places : List Nat} {front back chunks merged : List Chunk} {span : Span} {text : String}

theorem append (marked : IsMarked places front) (also_marked : IsMarked places back) :
    IsMarked places (front ++ back) := by
  induction marked with
  | nil => exact also_marked
  | plain free _ ih => exact .plain free ih
  | copied proper free _ ih => exact .copied proper free ih
  | marker free listed ahead only _ ih => exact .marker free listed ahead only ih

theorem flatMap {Item : Type} {items : List Item} {chunksOf : Item → List Chunk}
    (marked : ∀ item ∈ items, IsMarked places (chunksOf item)) :
    IsMarked places (items.flatMap chunksOf) := by
  induction items with
  | nil => exact .nil
  | cons item items ih =>
      obtain ⟨first, others⟩ := List.forall_mem_cons.1 marked
      exact first.append (ih others)

/-! ## Merging -/

/-- Plain text joins what is new behind it. -/
theorem attach_plain (free : '@' ∉ text.toList) (marked : IsMarked places merged) :
    IsMarked places (attach (.synthetic text) merged) := by
  unfold attach
  split
  · exact marked
  · cases marked with
    | nil => exact .plain free .nil
    | @plain new rest also_free others =>
        refine .plain ?_ others
        simpa [not_or] using ⟨free, also_free⟩
    | copied proper outside others => exact .plain free (.copied proper outside others)
    | @marker before place stop rest also_free listed ahead only others =>
        simp only [join?]
        rw [← String.append_assoc]
        refine .marker ?_ listed ahead only others
        simpa [not_or] using ⟨free, also_free⟩

/-- A copied range may grow at its end, but takes none of the places in. -/
theorem exists_attach_copied (proper : span.isProper) (marked : IsMarked places merged) :
    ∃ stop rest, attach (.copied span) merged = .copied ⟨span.start, stop⟩ :: rest ∧
      span.stop ≤ stop ∧
      (∀ place ∈ places, (⟨span.start, stop⟩ : Span).holds place → span.holds place) ∧
      IsMarked places rest := by
  rw [Span.isProper_iff] at proper
  have filled : (Chunk.copied span).isVoid = false := by
    simp only [isVoid, beq_eq_false_iff_ne]
    omega
  unfold attach
  rw [filled, if_neg Bool.false_ne_true]
  have alone {rest : List Chunk} (others : IsMarked places rest) : ∃ stop behind,
      Chunk.copied span :: rest = .copied ⟨span.start, stop⟩ :: behind ∧ span.stop ≤ stop ∧
        (∀ place ∈ places, (⟨span.start, stop⟩ : Span).holds place → span.holds place) ∧
        IsMarked places behind :=
    ⟨span.stop, rest, rfl, Nat.le_refl _, fun _ _ held => held, others⟩
  cases marked with
  | nil => exact alone .nil
  | plain free others => exact alone (.plain free others)
  | marker free listed ahead only others => exact alone (.marker free listed ahead only others)
  | @copied next rest next_proper outside others =>
      simp only [join?]
      split
      · rename_i joined joining
        split at joining
        · rename_i adjoining
          obtain rfl := Option.some.inj joining
          rw [Span.isProper_iff] at next_proper
          refine ⟨next.stop, rest, rfl, by omega, fun place listed held => ?_, others⟩
          have none_held := outside place listed
          simp only [Span.holds, Bool.and_eq_true, Bool.and_eq_false_iff, decide_eq_true_eq,
            decide_eq_false_iff_not] at held none_held ⊢
          omega
        · contradiction
      · exact alone (.copied next_proper outside others)

theorem merge (marked : IsMarked places chunks) : IsMarked places (merge chunks) := by
  induction marked with
  | nil => exact .nil
  | plain free _ ih => exact ih.attach_plain free
  | @copied span rest proper outside _ ih =>
      obtain ⟨stop, behind, attach_eq, stop_le, kept, others⟩ := ih.exists_attach_copied proper
      rw [Chunk.merge, List.foldr_cons, ← Chunk.merge, attach_eq]
      rw [Span.isProper_iff] at proper
      refine .copied (Span.isProper_iff.2 (Nat.lt_of_lt_of_le proper stop_le)) ?_ others
      intro place listed
      exact Bool.eq_false_iff.2 fun held =>
        Bool.false_ne_true ((outside place listed).symm.trans (kept place listed held))
  | @marker before place stop rest free listed ahead only _ ih =>
      have proper : (⟨place, stop⟩ : Span).isProper := Span.isProper_iff.2 ahead
      obtain ⟨later, behind, attach_eq, stop_le, kept, others⟩ := ih.exists_attach_copied proper
      have filled : (Chunk.synthetic (before ++ (Marker.pure ++ " "))).isVoid = false := by
        simp [isVoid, Marker.pure]
      rw [Chunk.merge, List.foldr_cons, List.foldr_cons, ← Chunk.merge, attach_eq, attach, filled,
        if_neg Bool.false_ne_true]
      exact .marker free listed (Nat.lt_of_lt_of_le ahead stop_le)
        (fun other among held => only other among (kept other among held)) others

/-! ## Where markers stand -/

/-- New text is plain, or ends with a marker of what is copied next. -/
theorem of_synthetic (marked : IsMarked places (front ++ .synthetic text :: back)) :
    '@' ∉ text.toList ∨ ∃ before place stop rest, text = before ++ (Marker.pure ++ " ") ∧
      '@' ∉ before.toList ∧ back = .copied ⟨place, stop⟩ :: rest ∧ place < stop ∧
        place ∈ places := by
  generalize chunks_eq : front ++ .synthetic text :: back = chunks at marked
  induction marked generalizing front with
  | nil => simp at chunks_eq
  | plain free _ ih =>
      cases front with
      | nil =>
          obtain ⟨same, -⟩ := List.cons.inj chunks_eq
          exact .inl (Chunk.synthetic.inj same ▸ free)
      | cons first front => exact ih (List.cons.inj chunks_eq).2
  | copied _ _ _ ih =>
      cases front with
      | nil => simp at chunks_eq
      | cons first front => exact ih (List.cons.inj chunks_eq).2
  | @marker before place stop rest free listed ahead only _ ih =>
      cases front with
      | nil =>
          obtain ⟨same, back_eq⟩ := List.cons.inj chunks_eq
          exact .inr ⟨before, place, stop, rest, Chunk.synthetic.inj same, free, back_eq, ahead,
            listed⟩
      | cons first front =>
          obtain ⟨-, rest_eq⟩ := List.cons.inj chunks_eq
          cases front with
          | nil => simp at rest_eq
          | cons second front => exact ih (List.cons.inj rest_eq).2

/-- A copied range holds none of the places, or begins at the one that it holds, behind a marker. -/
theorem of_copied (marked : IsMarked places (front ++ .copied span :: back)) :
    (∀ place ∈ places, span.holds place = false) ∨
      (∀ place ∈ places, span.holds place → span.start = place) ∧ ∃ earlier before,
        front = earlier ++ [.synthetic (before ++ (Marker.pure ++ " "))] ∧ '@' ∉ before.toList := by
  generalize chunks_eq : front ++ .copied span :: back = chunks at marked
  induction marked generalizing front with
  | nil => simp at chunks_eq
  | plain _ _ ih =>
      cases front with
      | nil => simp at chunks_eq
      | cons first front =>
          refine (ih (List.cons.inj chunks_eq).2).imp_right ?_
          rintro ⟨only, earlier, before, rfl, free⟩
          exact ⟨only, first :: earlier, before, rfl, free⟩
  | copied _ outside _ ih =>
      cases front with
      | nil =>
          obtain ⟨same, -⟩ := List.cons.inj chunks_eq
          exact .inl (Chunk.copied.inj same ▸ outside)
      | cons first front =>
          refine (ih (List.cons.inj chunks_eq).2).imp_right ?_
          rintro ⟨only, earlier, before, rfl, free⟩
          exact ⟨only, first :: earlier, before, rfl, free⟩
  | @marker before place stop rest free listed ahead only _ ih =>
      cases front with
      | nil => simp at chunks_eq
      | cons first front =>
          obtain ⟨rfl, rest_eq⟩ := List.cons.inj chunks_eq
          cases front with
          | nil =>
              obtain ⟨same, -⟩ := List.cons.inj rest_eq
              obtain rfl := Chunk.copied.inj same
              exact .inr ⟨fun other among held => (only other among held).symm, [], before, rfl,
                free⟩
          | cons second front =>
              refine (ih (List.cons.inj rest_eq).2).imp_right ?_
              rintro ⟨only, earlier, before', rfl, also_free⟩
              exact ⟨only, _ :: second :: earlier, before', rfl, also_free⟩

/-- The one marker of a text is found at its end only. -/
theorem eq_blank_of_marker {start before behind : List Char} (free : '@' ∉ start)
    (same : start ++ (Marker.pure.toList ++ [' ']) = before ++ (Marker.pure.toList ++ behind)) :
    behind = [' '] := by
  have marker_eq : Marker.pure.toList = "/*".toList ++ '@' :: "__PURE__*/".toList := by decide
  rw [marker_eq] at same
  have around : (start ++ "/*".toList) ++ '@' :: ("__PURE__*/".toList ++ [' ']) =
      (before ++ "/*".toList) ++ '@' :: ("__PURE__*/".toList ++ behind) := by
    simpa using same
  have start_free : '@' ∉ start ++ "/*".toList := by
    simp only [List.mem_append, not_or]
    exact ⟨free, by decide⟩
  obtain ⟨-, -, same⟩ := (List.append_cons_inj_of_notMem start_free (by decide)).1 around
  exact (List.append_cancel_left same).symm

theorem not_infix_of_free {text : List Char} (free : '@' ∉ text) : ¬Marker.pure.toList <:+: text :=
  fun within => free (within.subset (by decide))

theorem fitsMarkers (marked : IsMarked places chunks) : FitsMarkers places chunks where
  followed := by
    rintro front new back rfl before behind same
    obtain free | ⟨start, place, stop, rest, rfl, free, rfl, ahead, listed⟩ := marked.of_synthetic
    · have within : Marker.pure.toList <:+: new.toList := ⟨before, behind, by simp [same]⟩
      exact absurd within (not_infix_of_free free)
    · have ends : start.toList ++ (Marker.pure.toList ++ [' ']) =
          before ++ (Marker.pure.toList ++ behind) := by simpa using same
      exact ⟨eq_blank_of_marker free ends, place, stop, rest, rfl, ahead, listed⟩
  carried := by
    rintro front span back rfl place listed held
    obtain outside | ⟨only, earlier, before, rfl, free⟩ := marked.of_copied
    · rw [outside place listed] at held
      contradiction
    · exact ⟨only place listed held, earlier, before, rfl, not_infix_of_free free⟩

end IsMarked

end Chunk
end Shakedown
