import Shakedown.Proofs.Bundle.Insertion
import Shakedown.Proofs.Pattern.Takes

/-!
# Rules that put in markers

What a marking rule looks for is a form: a head, which stays in front of the marker, and a body. A text
settles a form when a marker stands at every place where it fits. The rule leaves such a text alone, the
text that the rule makes settles the form, and markers put in by other rules do not undo that.
-/

namespace Shakedown
namespace Marker

open Pattern hiding some

/-- What a rule looks for, and what makes markers in the text harmless for it. -/
structure Form where
  /-- What may stand last in front of it. -/
  Opens : Option Char → Prop
  /-- The head, in front of the marker, and the body behind it. -/
  Fits : (head body : List Char) → Prop
  /-- It may begin at the start of a text. -/
  opens_none : Opens none
  /-- It may begin behind what fits. -/
  opens_behind : ∀ {head body}, Fits head body → Opens (head ++ body).getLast?
  /-- Whether there is a head. -/
  headed : Bool
  /-- A head ends in a blank, so that no marker stands in front of the body. -/
  head_ends : ∀ {head body}, headed = true → Fits head body → head.getLast? = some ' '
  /-- Without a head the body is all there is. -/
  head_eq_nil : ∀ {head body}, headed = false → Fits head body → head = []
  /-- What fits does not begin with a slash. -/
  starts : ∀ {head body}, Fits head body → ∃ char more, head ++ body = char :: more ∧ char ≠ '/'
  /-- What fits does not begin inside a marker. -/
  outside : ∀ {head body} rest, Fits head body → Outside (head ++ (body ++ rest))
  /-- A marker may stand in front of the body. -/
  markable : ∀ {head body} rest, Fits head body → Markable (body ++ rest)
  /-- Behind a marker nothing begins with a head, unless it may begin anywhere. -/
  opens_of_slash : headed = true → Opens (some '/') → ∀ last, Opens last
  /-- What fits in a text with markers fits without them. -/
  fits_of_inserted : ∀ {head body rest text}, Inserted [] text (head ++ (body ++ rest)) →
    Fits head body → ∃ head' body' rest', text = head' ++ (body' ++ rest') ∧ Fits head' body'
  /-- Nothing that fits begins inside of the body, and where it may begin anywhere not with it. -/
  not_inside : ∀ {head first last rest head' body' rest'}, Fits head (first ++ last) → Fits head' body' →
    last ≠ [] → head ++ first ≠ [] → Opens (head ++ first).getLast? →
    last ++ rest ≠ head' ++ (body' ++ rest')
  /-- What fits does not fit any more with a marker in front of the body. -/
  blocked : ∀ {front back body head' body' rest' more}, Fits (front ++ back) body → back ≠ [] →
    (front ≠ [] → Opens front.getLast?) → Fits head' body' →
    back ++ (chars ++ more) ≠ head' ++ (body' ++ rest')

/-- A pattern finds a form, and a rule puts the marker in where there is none. -/
structure Form.IsMarkedBy (form : Form) (pattern : Pattern) (rule : Pattern.Rule) : Prop where
  /-- What is found fits, and the rule marks it. -/
  found : ∀ {before after found}, pattern.matchAt? ⟨before, after⟩ = some found →
    ∃ head body, found.text = head ++ body ∧ form.Fits head body ∧
      (chars <:+ before.reverse ++ head ∧ rule found = none ∨
        ¬ chars <:+ before.reverse ++ head ∧ rule found = some (head ++ (chars ++ body), found.stop))
  /-- What fits is found. -/
  complete : ∀ {before head body} rest, form.Opens before.head? → form.Fits head body →
    pattern.matchAt? ⟨before, head ++ (body ++ rest)⟩ ≠ none
  /-- What is found may begin where it is found, or something is found one character before. -/
  opens : ∀ {before char after}, pattern.matchAt? ⟨char :: before, after⟩ ≠ none →
    form.Opens (some char) ∨ pattern.matchAt? ⟨before, char :: after⟩ ≠ none

namespace Form

variable {form : Form} {pattern : Pattern} {rule : Pattern.Rule} {text result : List Char}

/-- Everywhere in the text where the form fits, a marker stands. -/
def IsSettledIn (form : Form) (text : List Char) : Prop :=
  ∀ start head body rest, text = start ++ (head ++ (body ++ rest)) → form.Opens start.getLast? →
    form.Fits head body → chars <:+ start ++ head

theorem getLast?_append_chars (front : List Char) : (front ++ chars).getLast? = some '/' :=
  List.getLast?_append_of_ne_nil front (by decide : chars ≠ [])

theorem chars_append_ne {head body rest more : List Char} (fits : form.Fits head body) :
    chars ++ more ≠ head ++ (body ++ rest) := by
  obtain ⟨char, others, head_eq, other⟩ := form.starts fits
  rw [← List.append_assoc, head_eq]
  intro same
  exact other (List.cons_eq_cons.1 same).1.symm

theorem body_ne_nil {head body : List Char} (fits : form.Fits head body) : body ≠ [] := by
  rintro rfl
  obtain ⟨char, more, eq, -⟩ := (form.markable [] fits).starts
  contradiction

theorem headed_eq_false {head body front : List Char} (fits : form.Fits head body)
    (marked : chars <:+ front ++ head) : form.headed = false := by
  cases headed : form.headed with
  | false => rfl
  | true =>
      have ends := form.head_ends headed fits
      obtain ⟨start, front_eq⟩ := marked
      have last := congrArg List.getLast? front_eq
      rw [getLast?_append_chars, List.getLast?_append, ends] at last
      exact absurd last (by simp)

/-- What may begin in the text with markers may begin in the text without them, or a marker stands there. -/
theorem suffix_or_opens {behind out head body : List Char} (inserted : Inserted behind text out)
    (opens : form.Opens out.getLast?) (fits : form.Fits head body) :
    chars <:+ out ++ head ∨ form.Opens text.getLast? := by
  obtain marked | same := inserted.suffix_or_getLast?_eq
  · cases headed : form.headed with
    | false =>
        rw [form.head_eq_nil headed fits, List.append_nil]
        exact .inl marked
    | true =>
        obtain ⟨start, rfl⟩ := marked
        rw [getLast?_append_chars] at opens
        exact .inr (form.opens_of_slash headed opens _)
  · rw [same]
    exact .inr opens

/-! ## Markers of other rules -/

/-- Markers that other rules put in do not unsettle a form. -/
theorem IsSettledIn.of_inserted (settled : form.IsSettledIn text) (inserted : Inserted [] text result) :
    form.IsSettledIn result := by
  rintro start head body rest rfl opens fits
  obtain ⟨first, last, rfl, first_inserted, last_inserted⟩ := inserted.split (form.outside rest fits)
  obtain marked | opens := suffix_or_opens first_inserted opens fits
  · exact marked
  · obtain ⟨head', body', rest', rfl, fits'⟩ := form.fits_of_inserted last_inserted fits
    have marked := settled first head' body' rest' rfl opens fits'
    have headless := headed_eq_false fits' marked
    rw [form.head_eq_nil headless fits', List.append_nil] at marked
    rw [form.head_eq_nil headless fits, List.append_nil]
    exact first_inserted.suffix_of_suffix marked

namespace IsMarkedBy

variable (marks : form.IsMarkedBy pattern rule)
include marks

theorem advances : pattern.Advances := by
  intro cursor found matched
  obtain ⟨head, body, text_eq, fits, -⟩ := marks.found matched
  obtain ⟨char, more, head_eq, -⟩ := form.starts fits
  rw [(after_eq_of_matchAt? matched).1, text_eq, head_eq, List.length_append]
  exact Nat.lt_add_of_pos_left (Nat.succ_pos _)

theorem goesAhead : rule.GoesAhead pattern := by
  intro cursor found new rest matched answered
  obtain ⟨head, body, -, -, ⟨-, silent⟩ | ⟨-, answer⟩⟩ := marks.found matched
  · exact absurd (silent.symm.trans answered) (by simp)
  · obtain ⟨-, rfl⟩ := Prod.mk.inj (Option.some.inj (answer.symm.trans answered))
    exact marks.advances cursor found matched

theorem substitutes (text : List Char) :
    Substitutes pattern rule (Cursor.ofText text) (pattern.substitute rule text) :=
  substitutes_substitute marks.advances marks.goesAhead text

/-- The rule puts in markers and changes nothing else. -/
theorem inserted_of_substitutes {cursor : Cursor} (substitutes : Substitutes pattern rule cursor result) :
    Inserted [] cursor.after result := by
  induction substitutes with
  | done => exact .nil
  | miss _ _ ih => exact .keep _ ih
  | kept matched _ _ ih =>
      rw [(after_eq_of_matchAt? matched).1]
      exact (Inserted.refl _ _).append ih
  | replaced matched answered _ ih =>
      obtain ⟨head, body, text_eq, fits, ⟨-, silent⟩ | ⟨-, answer⟩⟩ := marks.found matched
      · exact absurd (silent.symm.trans answered) (by simp)
      · obtain ⟨rfl, rfl⟩ := Prod.mk.inj (Option.some.inj (answer.symm.trans answered))
        rw [(after_eq_of_matchAt? matched).1, text_eq]
        apply Inserted.append _ ih
        apply (Inserted.refl _ head).append
        exact .mark (by simpa using form.markable _ fits) (.refl _ body)

/-! ## Markers of the rule itself -/

omit marks in
/-- Inside of what the rule found, behind the head, nothing fits in the new text. -/
theorem not_fits_inside {head body first last rest head' body' rest' : List Char}
    (fits : form.Fits head body) (body_eq : body = first ++ last) (filled : last ≠ [])
    (inside : head ++ first ≠ []) (opens : form.Opens (head ++ first).getLast?)
    (inserted : Inserted [] rest result) (result_eq : last ++ result = head' ++ (body' ++ rest')) :
    ¬ form.Fits head' body' := by
  intro fits'
  have joined : Inserted [] (last ++ rest) (last ++ result) := (Inserted.refl _ last).append inserted
  rw [result_eq] at joined
  obtain ⟨head'', body'', rest'', last_eq, fits''⟩ := form.fits_of_inserted joined fits'
  rw [body_eq] at fits
  exact form.not_inside fits fits'' filled inside opens last_eq

omit marks in
/-- Behind a marker that was put in, nothing fits before the end of the body, unless it is the body. -/
theorem nil_of_fits_inside (front : List Char) {head body first last rest head' body' rest' : List Char}
    (fits : form.Fits head body) (body_eq : body = first ++ last) (filled : last ≠ [])
    (inserted : Inserted [] rest result) (result_eq : last ++ result = head' ++ (body' ++ rest'))
    (opens : form.Opens (front ++ (chars ++ first)).getLast?) (fits' : form.Fits head' body') :
    first = [] ∧ head' = [] := by
  cases first with
  | nil =>
      refine ⟨rfl, ?_⟩
      cases headed : form.headed with
      | false => exact form.head_eq_nil headed fits'
      | true =>
          rw [List.append_nil, getLast?_append_chars] at opens
          have opens_anywhere := form.opens_of_slash headed opens
          have inside : head ≠ [] := by
            rintro rfl
            simpa using form.head_ends headed fits
          exact absurd fits' (not_fits_inside fits body_eq filled (by simpa using inside)
            (opens_anywhere _) inserted result_eq)
  | cons char first =>
      rw [← List.append_assoc, List.getLast?_append_of_ne_nil _ (List.cons_ne_nil char first)] at opens
      have opens_inside : form.Opens (head ++ char :: first).getLast? := by
        rwa [List.getLast?_append_of_ne_nil _ (List.cons_ne_nil char first)]
      exact absurd fits' (not_fits_inside fits body_eq filled (by simp) opens_inside inserted result_eq)

/-- Behind what stood before, the rule leaves the form settled. -/
theorem suffix_of_substitutes {cursor : Cursor} (substitutes : Substitutes pattern rule cursor result)
    {out start head body rest : List Char} (inserted : Inserted cursor.after cursor.before.reverse out)
    (result_eq : result = start ++ (head ++ (body ++ rest))) (opens : form.Opens (out ++ start).getLast?)
    (fits : form.Fits head body) : chars <:+ out ++ (start ++ head) := by
  induction substitutes generalizing out start with
  | done =>
      obtain ⟨char, more, head_eq, -⟩ := form.starts fits
      have := congrArg List.length result_eq
      have := congrArg List.length head_eq
      simp at *
      omega
  | @miss before after char result unmatched substitutes ih =>
      cases start with
      | nil =>
          have joined : Inserted [] (char :: after) (char :: result) :=
            .keep char (marks.inserted_of_substitutes substitutes)
          rw [result_eq, List.nil_append] at joined
          obtain ⟨head', body', rest', after_eq, fits'⟩ := form.fits_of_inserted joined fits
          rw [List.append_nil] at opens
          obtain marked | opens := suffix_or_opens inserted opens fits
          · exact marked
          · rw [List.getLast?_reverse] at opens
            have matched := marks.complete rest' opens fits'
            rw [← after_eq] at matched
            exact absurd unmatched matched
      | cons other start =>
          obtain ⟨rfl, others_eq⟩ := List.cons_eq_cons.1 result_eq
          have passed : Inserted after (char :: before).reverse (out ++ [char]) := by
            rw [List.reverse_cons]
            exact inserted.append (.refl _ _)
          have marked := ih passed others_eq (by simpa using opens)
          simpa using marked
  | @kept cursor found result matched silent substitutes ih =>
      obtain ⟨found_head, found_body, text_eq, found_fits, ⟨stood, -⟩ | ⟨-, answer⟩⟩ := marks.found matched
      · have headless := headed_eq_false found_fits stood
        obtain rfl := form.head_eq_nil headless found_fits
        obtain rfl := form.head_eq_nil headless fits
        rw [List.append_nil] at stood
        rw [List.nil_append] at text_eq
        obtain ⟨after_eq, before_eq⟩ := after_eq_of_matchAt? matched
        have passed : Inserted found.stop.after found.stop.before.reverse (out ++ found_body) := by
          rw [before_eq, text_eq, List.reverse_append, List.reverse_reverse]
          rw [after_eq, text_eq] at inserted
          exact inserted.append (.refl _ _)
        rw [text_eq] at result_eq
        obtain ⟨last, body_eq, rest_eq⟩ | ⟨start, rfl, rest_eq⟩ :=
          List.append_eq_append_iff.1 result_eq.symm
        · by_cases done : last = []
          · subst done
            obtain rfl : found_body = start := by simpa using body_eq
            have behind : result = [] ++ ([] ++ (body ++ rest)) := rest_eq.symm
            have marked := ih passed behind (by simpa using opens)
            simpa using marked
          · cases start with
            | nil => simpa using inserted.suffix_of_suffix stood
            | cons char start =>
                rw [List.getLast?_append_of_ne_nil _ (List.cons_ne_nil char start)] at opens
                have none_inside := not_fits_inside found_fits body_eq done (List.cons_ne_nil char start)
                  opens (marks.inserted_of_substitutes substitutes) rest_eq.symm
                exact absurd fits none_inside
        · have marked := ih passed rest_eq (by simpa using opens)
          simpa using marked
      · exact absurd (silent.symm.trans answer) (by simp)
  | @replaced cursor rest found new result matched answered substitutes ih =>
      obtain ⟨found_head, found_body, text_eq, found_fits, ⟨-, silent⟩ | ⟨bare, answer⟩⟩ :=
        marks.found matched
      · exact absurd (silent.symm.trans answered) (by simp)
      · obtain ⟨rfl, rfl⟩ := Prod.mk.inj (Option.some.inj (answer.symm.trans answered))
        obtain ⟨after_eq, before_eq⟩ := after_eq_of_matchAt? matched
        have passed : Inserted found.stop.after found.stop.before.reverse
            (out ++ (found_head ++ (chars ++ found_body))) := by
          rw [before_eq, text_eq, List.reverse_append, List.reverse_reverse]
          rw [after_eq, text_eq] at inserted
          apply inserted.append
          apply (Inserted.refl _ found_head).append
          exact .mark (form.markable _ found_fits) (.refl _ found_body)
        simp only [List.append_assoc] at result_eq
        -- the place may lie in the head, in the marker, in the body or behind them
        obtain ⟨last, head_eq, rest_eq⟩ | ⟨start', rfl, behind_head⟩ :=
          List.append_eq_append_iff.1 result_eq.symm
        · by_cases done : last = []
          · subst done
            exact absurd rest_eq.symm (chars_append_ne fits)
          · have opens_inside : start ≠ [] → form.Opens start.getLast? := by
              intro inside
              rwa [List.getLast?_append_of_ne_nil _ inside] at opens
            rw [head_eq] at found_fits
            exact absurd rest_eq.symm (form.blocked found_fits done opens_inside fits)
        · obtain ⟨last, chars_eq, rest_eq⟩ | ⟨start, rfl, behind_marker⟩ :=
            List.append_eq_append_iff.1 behind_head.symm
          · by_cases done : last = []
            · subst done
              obtain rfl : chars = start' := by simpa using chars_eq
              obtain ⟨-, rfl⟩ := nil_of_fits_inside (out ++ found_head) found_fits (List.nil_append _).symm
                (body_ne_nil found_fits) (marks.inserted_of_substitutes substitutes) rest_eq.symm
                (by simpa using opens) fits
              exact ⟨out ++ found_head, by simp⟩
            · by_cases begins : start' = []
              · obtain rfl : chars = last := by simpa [begins] using chars_eq
                exact absurd rest_eq.symm (chars_append_ne fits)
              · exact absurd rest_eq (form.outside rest fits start' last _ chars_eq begins done)
          · obtain ⟨last, body_eq, rest_eq⟩ | ⟨start, rfl, behind_body⟩ :=
              List.append_eq_append_iff.1 behind_marker.symm
            · by_cases done : last = []
              · subst done
                obtain rfl : found_body = start := by simpa using body_eq
                have behind : result = [] ++ (head ++ (body ++ rest)) := rest_eq.symm
                have marked := ih passed behind (by simpa using opens)
                simpa using marked
              · obtain ⟨rfl, rfl⟩ := nil_of_fits_inside (out ++ found_head) found_fits body_eq done
                  (marks.inserted_of_substitutes substitutes) rest_eq.symm
                  (by simpa using opens) fits
                exact ⟨out ++ found_head, by simp⟩
            · have marked := ih passed behind_body (by simpa using opens)
              simpa using marked

/-- What the rule makes of a text settles the form. -/
theorem isSettledIn_substitute (text : List Char) :
    form.IsSettledIn (pattern.substitute rule text) := by
  intro start head body rest text_eq opens fits
  exact marks.suffix_of_substitutes (marks.substitutes text) .nil text_eq opens fits

/-- The rule puts in markers and changes nothing else. -/
theorem inserted_substitute (text : List Char) : Inserted [] text (pattern.substitute rule text) :=
  marks.inserted_of_substitutes (marks.substitutes text)

/-! ## Settled texts -/

/-- The rule leaves alone what stands behind the front of a settled text. -/
theorem eq_of_substitutes {cursor : Cursor} (substitutes : Substitutes pattern rule cursor result)
    (settled : form.IsSettledIn (cursor.before.reverse ++ cursor.after))
    (opens : pattern.matchAt? cursor ≠ none → form.Opens cursor.before.head?) :
    result = cursor.after := by
  induction substitutes with
  | done => rfl
  | @miss before after char result unmatched _ ih =>
      have opens_next : pattern.matchAt? ⟨char :: before, after⟩ ≠ none → form.Opens (some char) := by
        intro matched
        obtain here | earlier := marks.opens matched
        · exact here
        · exact absurd unmatched earlier
      rw [ih (by simpa using settled) opens_next]
  | @kept cursor found result matched _ _ ih =>
      obtain ⟨head, body, text_eq, fits, -⟩ := marks.found matched
      obtain ⟨after_eq, before_eq⟩ := after_eq_of_matchAt? matched
      have opens_next : form.Opens found.stop.before.head? := by
        have filled := text_ne_nil_of_matchAt? marks.advances matched
        rw [before_eq, List.head?_append_of_ne_nil _ (by simpa using filled), List.head?_reverse, text_eq]
        exact form.opens_behind fits
      rw [ih (by simpa [before_eq, after_eq] using settled) fun _ => opens_next, after_eq]
  | @replaced cursor rest found new result matched answered _ _ =>
      obtain ⟨head, body, text_eq, fits, ⟨-, silent⟩ | ⟨bare, -⟩⟩ := marks.found matched
      · exact absurd (silent.symm.trans answered) (by simp)
      · have after_eq := (after_eq_of_matchAt? matched).1
        rw [text_eq, List.append_assoc] at after_eq
        have here := opens (by simp [matched])
        rw [← List.getLast?_reverse] at here
        rw [after_eq] at settled
        exact absurd (settled _ head body _ rfl here fits) bare

/-- The rule leaves a settled text alone. -/
theorem substitute_eq (settled : form.IsSettledIn text) : pattern.substitute rule text = text :=
  marks.eq_of_substitutes (marks.substitutes text) settled fun _ => form.opens_none

end IsMarkedBy
end Form
end Marker
end Shakedown
