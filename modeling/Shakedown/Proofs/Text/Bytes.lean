import Shakedown.Proofs.Text.Boundary

/-!
# The bytes of a text

A byte below 128 is a character of its own wherever it stands, so a search for such a byte may run
over the bytes of a text as well as over its characters.
-/

namespace Shakedown
namespace Text

/-- The bytes of the UTF-8 form, character by character. -/
def bytesOf (chars : List Char) : List UInt8 :=
  chars.flatMap String.utf8EncodeChar

theorem bytes_eq (text : String) : bytes text = bytesOf text.toList := by
  rw [bytes, String.toUTF8_eq_toByteArray, ← String.utf8Encode_toList, List.utf8Encode,
    List.toList_data_toByteArray, bytesOf]

@[simp]
theorem bytesOf_nil : bytesOf [] = [] := rfl

theorem bytesOf_cons (char : Char) (rest : List Char) :
    bytesOf (char :: rest) = String.utf8EncodeChar char ++ bytesOf rest := rfl

theorem bytesOf_append (front back : List Char) :
    bytesOf (front ++ back) = bytesOf front ++ bytesOf back :=
  List.flatMap_append

@[simp]
theorem length_bytesOf (chars : List Char) : (bytesOf chars).length = width chars := by
  induction chars with
  | nil => rfl
  | cons char rest ih =>
      rw [bytesOf_cons, List.length_append, ih, String.length_utf8EncodeChar, width_cons]

/-- A character is one byte, which has its number, or some bytes from 128 on. -/
theorem encoded_cases (char : Char) :
    (∃ byte, String.utf8EncodeChar char = [byte] ∧ byte.toNat = char.toNat ∧ byte.toNat < 128) ∨
      (∀ byte ∈ String.utf8EncodeChar char, 128 ≤ byte.toNat) := by
  by_cases low : char.toNat ≤ 127
  · have narrow : char.val.toNat ≤ 127 := low
    have number_eq : (UInt8.ofNat char.val.toNat).toNat = char.toNat := by
      rw [UInt8.toNat_ofNat']
      exact Nat.mod_eq_of_lt (by omega)
    exact .inl ⟨UInt8.ofNat char.val.toNat, by simp only [String.utf8EncodeChar, narrow, if_true], number_eq,
      by omega⟩
  · have wide : ¬char.val.toNat ≤ 127 := low
    right
    intro byte member
    simp only [String.utf8EncodeChar, wide, if_false] at member
    split at member
    · simp only [List.mem_cons, List.not_mem_nil, or_false] at member
      obtain rfl | rfl := member <;> (rw [UInt8.toNat_ofNat']; omega)
    · split at member
      · simp only [List.mem_cons, List.not_mem_nil, or_false] at member
        obtain rfl | rfl | rfl := member <;> (rw [UInt8.toNat_ofNat']; omega)
      · simp only [List.mem_cons, List.not_mem_nil, or_false] at member
        obtain rfl | rfl | rfl | rfl := member <;> (rw [UInt8.toNat_ofNat']; omega)

/-- A character is not written with the byte of another one. -/
theorem ne_byte_of_ne {char other : Char} {byte own : UInt8}
    (member : byte ∈ String.utf8EncodeChar char) (ne : char ≠ other)
    (own_eq : own.toNat = other.toNat) (low : own.toNat < 128) : byte ≠ own := by
  rintro rfl
  rcases encoded_cases char with ⟨single, encoded, number_eq, -⟩ | high
  · rw [encoded, List.mem_singleton] at member
    exact ne (Char.toNat_inj.1 (by rw [← number_eq, ← member, own_eq]))
  · exact absurd low (Nat.not_lt.2 (high _ member))

/-- A byte below 128 in front is the first character. -/
theorem eq_cons_of_bytesOf {chars : List Char} {byte : UInt8} {more : List UInt8}
    (front : bytesOf chars = byte :: more) (low : byte.toNat < 128) :
    ∃ char rest, chars = char :: rest ∧ char.toNat = byte.toNat ∧ bytesOf rest = more := by
  cases chars with
  | nil => simp at front
  | cons char rest =>
      rw [bytesOf_cons] at front
      rcases encoded_cases char with ⟨own, encoded, number_eq, -⟩ | high
      · rw [encoded, List.singleton_append, List.cons.injEq] at front
        obtain ⟨rfl, rfl⟩ := front
        exact ⟨char, rest, rfl, number_eq.symm, rfl⟩
      · exfalso
        cases encoded : String.utf8EncodeChar char with
        | nil =>
            have some_bytes := String.length_utf8EncodeChar char
            have wide := char.utf8Size_pos
            rw [encoded, List.length_nil] at some_bytes
            omega
        | cons own others =>
            rw [encoded, List.cons_append, List.cons.injEq] at front
            have := high own (by simp [encoded])
            rw [front.1] at this
            omega

/-! ## Runs of characters that are a byte each -/

/-- Characters that are a byte each. -/
theorem width_eq_length {chars : List Char} (narrow : ∀ char ∈ chars, char.utf8Size = 1) :
    width chars = chars.length := by
  induction chars with
  | nil => rfl
  | cons char rest ih =>
      rw [width_cons, List.length_cons, narrow char List.mem_cons_self,
        ih fun other member => narrow other (List.mem_cons_of_mem _ member), Nat.add_comm]

/-- A test on characters passes those whose only byte passes a test on bytes. -/
structure Agrees (test : UInt8 → Bool) (among : Char → Bool) : Prop where
  /-- A character that passes is a byte, which passes. -/
  passed : ∀ char, among char → ∃ byte, String.utf8EncodeChar char = [byte] ∧ test byte
  /-- No byte of another character passes. -/
  failed : ∀ char, among char = false → ∀ byte ∈ String.utf8EncodeChar char, test byte = false

namespace Agrees

variable {test : UInt8 → Bool} {among : Char → Bool} {encode : Char → List UInt8}

theorem narrow (agrees : Agrees test among) {char : Char} (passes : among char) :
    char.utf8Size = 1 := by
  obtain ⟨byte, encoded, -⟩ := agrees.passed char passes
  rw [← String.length_utf8EncodeChar, encoded, List.length_singleton]

/-- Both tests pass the same run, whether the bytes are read forwards or backwards. -/
theorem run_eq (agrees : Agrees test among)
    (same : ∀ char, encode char = String.utf8EncodeChar char ∨
      encode char = (String.utf8EncodeChar char).reverse) (chars : List Char) :
    ((chars.flatMap encode).takeWhile test).length = (chars.takeWhile among).length ∧
      (chars.flatMap encode).dropWhile test = (chars.dropWhile among).flatMap encode := by
  induction chars with
  | nil => exact ⟨rfl, rfl⟩
  | cons char rest ih =>
      rw [List.flatMap_cons]
      cases sort : among char with
      | true =>
          obtain ⟨byte, encoded, passes⟩ := agrees.passed char sort
          have single : encode char = [byte] := by
            obtain forwards | backwards := same char
            · rw [forwards, encoded]
            · rw [backwards, encoded, List.reverse_singleton]
          simp [single, passes, sort, ih]
      | false =>
          have all_fail : ∀ byte ∈ encode char, test byte = false := by
            intro byte member
            apply agrees.failed char sort
            obtain forwards | backwards := same char
            · exact forwards ▸ member
            · exact List.mem_reverse.1 (backwards ▸ member)
          cases encoded : encode char with
          | nil =>
              have size := String.length_utf8EncodeChar char
              have wide := char.utf8Size_pos
              have empty : (String.utf8EncodeChar char).length = 0 := by
                obtain forwards | backwards := same char
                · rw [← forwards, encoded, List.length_nil]
                · rw [← List.length_reverse, ← backwards, encoded, List.length_nil]
              omega
          | cons byte others =>
              have fails := all_fail byte (by simp [encoded])
              simp [fails, sort, encoded]

theorem length_takeWhile (agrees : Agrees test among) (chars : List Char) :
    ((bytesOf chars).takeWhile test).length = (chars.takeWhile among).length :=
  (agrees.run_eq (fun _ => .inl rfl) chars).1

theorem dropWhile_eq (agrees : Agrees test among) (chars : List Char) :
    (bytesOf chars).dropWhile test = bytesOf (chars.dropWhile among) :=
  (agrees.run_eq (fun _ => .inl rfl) chars).2

theorem length_takeWhile_reverse (agrees : Agrees test among) (chars : List Char) :
    ((bytesOf chars).reverse.takeWhile test).length = (chars.reverse.takeWhile among).length := by
  rw [bytesOf, List.reverse_flatMap]
  exact (agrees.run_eq (fun _ => .inr rfl) chars.reverse).1

end Agrees

end Text
end Shakedown
