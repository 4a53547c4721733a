import Mathlib.Data.List.Induction
import Mathlib.Data.List.Basic

/-!
# Texts encoded in UTF-8

Strict decoding of bytes, as lists.  An ASCII byte never is a part of a longer
character, so a text can be split where ASCII bytes stand.
-/

namespace Library
namespace Utf8

/-- The bytes of a text. -/
def encode (text : List Char) : List UInt8 :=
  text.flatMap String.utf8EncodeChar

/-- The text of the bytes, if they are valid. -/
def decode (bytes : List UInt8) : Option (List Char) :=
  bytes.toByteArray.utf8Decode?.map Array.toList

/-- The text of ASCII bytes. -/
def asciiChars (bytes : List UInt8) : List Char :=
  bytes.map fun b => Char.ofNat b.toNat

theorem decode_encode (text : List Char) : decode (encode text) = some text := by
  have decoded := List.utf8Decode?_utf8Encode (l := text)
  rw [decode]
  change text.utf8Encode.utf8Decode?.map Array.toList = some text
  rw [decoded]
  rfl

theorem encode_of_decode
    {bytes : List UInt8}
    {text : List Char}
    (decoded : decode bytes = some text) :
    encode text = bytes := by
  obtain ⟨chars, found, rfl⟩ := Option.map_eq_some_iff.mp decoded
  have isDecoded : bytes.toByteArray.utf8Decode?.isSome := by
    rw [found]
    rfl
  have encoded := ByteArray.utf8Encode_get_utf8Decode? (h := isDecoded)
  simp only [found, Option.get_some] at encoded
  exact List.toByteArray_inj.mp encoded

theorem decode_eq_some_iff
    {bytes : List UInt8}
    {text : List Char} :
    decode bytes = some text ↔ encode text = bytes := by
  refine ⟨encode_of_decode, ?_⟩
  rintro rfl
  exact decode_encode text

theorem encode_append (first second : List Char) :
    encode (first ++ second) = encode first ++ encode second :=
  List.flatMap_append

/-- An ASCII character is one byte. -/
theorem utf8EncodeChar_ascii
    {c : Char}
    (small : c.toNat < 128) :
    String.utf8EncodeChar c = [UInt8.ofNat c.toNat] := by
  have code : c.val.toNat ≤ 127 := Nat.le_of_lt_succ small
  rw [String.utf8EncodeChar]
  exact if_pos code

/-- The bytes of other characters are not ASCII. -/
theorem le_of_mem_utf8EncodeChar
    {c : Char}
    (large : 128 ≤ c.toNat)
    {b : UInt8}
    (membership : b ∈ String.utf8EncodeChar c) :
    128 ≤ b := by
  have code : ¬ c.val.toNat ≤ 127 := Nat.not_le_of_lt large
  have leading (lead : ℕ) (isLead : 128 ≤ lead % 256) :
      (128 : UInt8) ≤ UInt8.ofNat lead := by
    rw [UInt8.le_iff_toNat_le, UInt8.toNat_ofNat']
    exact isLead
  simp only [String.utf8EncodeChar, if_neg code] at membership
  split at membership
  · simp only [List.mem_cons, List.not_mem_nil, or_false] at membership
    rcases membership with rfl | rfl <;> apply leading <;> omega
  · split at membership
    · simp only [List.mem_cons, List.not_mem_nil, or_false] at membership
      rcases membership with rfl | rfl | rfl <;> apply leading <;> omega
    · simp only [List.mem_cons, List.not_mem_nil, or_false] at membership
      rcases membership with rfl | rfl | rfl | rfl <;> apply leading <;> omega

/-- The code of the character of a byte. -/
theorem toNat_ofNat_toNat (b : UInt8) : (Char.ofNat b.toNat).toNat = b.toNat := by
  have valid : b.toNat.isValidChar := by
    have small := b.toNat_lt
    left
    omega
  rw [Char.ofNat, dif_pos valid]
  rfl

/-- The character of an ASCII byte is encoded as the byte. -/
theorem utf8EncodeChar_ofNat
    {b : UInt8}
    (small : b < 128) :
    String.utf8EncodeChar (Char.ofNat b.toNat) = [b] := by
  have code : b.toNat < 128 := UInt8.lt_iff_toNat_lt.mp small
  have char := toNat_ofNat_toNat b
  rw [utf8EncodeChar_ascii (by omega), char, UInt8.ofNat_toNat]

/-- A character whose encoding has an ASCII byte is the one of that byte. -/
theorem eq_of_mem_utf8EncodeChar
    {c : Char}
    {b : UInt8}
    (small : b < 128)
    (membership : b ∈ String.utf8EncodeChar c) :
    c = Char.ofNat b.toNat := by
  rcases Nat.lt_or_ge c.toNat 128 with ascii | large
  · rw [utf8EncodeChar_ascii ascii, List.mem_singleton] at membership
    rw [membership, UInt8.toNat_ofNat', Nat.mod_eq_of_lt (by omega)]
    exact (Char.ofNat_toNat c).symm
  · exact absurd (le_of_mem_utf8EncodeChar large membership)
      (UInt8.not_le.mpr small)

theorem encode_asciiChars
    {bytes : List UInt8}
    (ascii : ∀ b ∈ bytes, b < 128) :
    encode (asciiChars bytes) = bytes := by
  induction bytes with
  | nil => rfl
  | cons b bytes inductionHypothesis =>
    obtain ⟨b_ascii, rest_ascii⟩ := List.forall_mem_cons.mp ascii
    have rest := inductionHypothesis rest_ascii
    unfold encode asciiChars at rest ⊢
    rw [List.map_cons, List.flatMap_cons, utf8EncodeChar_ofNat b_ascii, rest]
    rfl

/-! ## Splitting at ASCII bytes -/

theorem split_front
    {front rest : List UInt8}
    (ascii : ∀ b ∈ front, b < 128)
    {text : List Char}
    (encoded : encode text = front ++ rest) :
    ∃ left, text = asciiChars front ++ left ∧ encode left = rest := by
  induction front generalizing text with
  | nil => exact ⟨text, rfl, encoded⟩
  | cons b front inductionHypothesis =>
    obtain ⟨b_ascii, front_ascii⟩ := List.forall_mem_cons.mp ascii
    cases text with
    | nil => cases encoded
    | cons c text =>
      have first : b ∈ String.utf8EncodeChar c := by
        obtain ⟨d, ds, bytes⟩ :=
          List.exists_cons_of_ne_nil (String.utf8EncodeChar_ne_nil (c := c))
        rw [encode, List.flatMap_cons, bytes, List.cons_append,
          List.cons_append] at encoded
        rw [bytes, (List.cons.inj encoded).1]
        exact List.mem_cons_self
      have c_eq := eq_of_mem_utf8EncodeChar b_ascii first
      rw [encode, List.flatMap_cons, c_eq, utf8EncodeChar_ofNat b_ascii] at encoded
      obtain ⟨left, text_eq, left_encoded⟩ :=
        inductionHypothesis front_ascii (List.cons.inj encoded).2
      refine ⟨left, ?_, left_encoded⟩
      rw [c_eq, text_eq]
      rfl

theorem split_back
    {rest back : List UInt8}
    (ascii : ∀ b ∈ back, b < 128)
    {text : List Char}
    (encoded : encode text = rest ++ back) :
    ∃ left, text = left ++ asciiChars back ∧ encode left = rest := by
  induction back using List.reverseRecOn generalizing text with
  | nil => exact ⟨text, (List.append_nil _).symm, by simpa using encoded⟩
  | append_singleton back b inductionHypothesis =>
    have b_ascii := ascii b (List.mem_append_right _ List.mem_cons_self)
    have back_ascii : ∀ d ∈ back, d < 128 := fun d d_mem =>
      ascii d (List.mem_append_left _ d_mem)
    rcases List.eq_nil_or_concat' text with rfl | ⟨start, c, rfl⟩
    · exact absurd encoded.symm (by simp [encode])
    · have last : b ∈ String.utf8EncodeChar c := by
        obtain ⟨bytes, d, ends⟩ := (List.eq_nil_or_concat'
          (String.utf8EncodeChar c)).resolve_left String.utf8EncodeChar_ne_nil
        rw [encode_append, encode, encode, List.flatMap_singleton, ends,
          ← List.append_assoc, ← List.append_assoc] at encoded
        have same := List.append_inj_right' encoded rfl
        rw [ends, ← List.singleton_inj.mp same]
        exact List.mem_append_right _ List.mem_cons_self
      have c_eq := eq_of_mem_utf8EncodeChar b_ascii last
      rw [encode_append, c_eq] at encoded
      have single : encode [Char.ofNat b.toNat] = [b] := by
        rw [encode, List.flatMap_singleton, utf8EncodeChar_ofNat b_ascii]
      rw [single, ← List.append_assoc] at encoded
      have front := List.append_inj_left' encoded rfl
      obtain ⟨left, start_eq, left_encoded⟩ :=
        inductionHypothesis back_ascii front
      refine ⟨left, ?_, left_encoded⟩
      rw [start_eq, c_eq, List.append_assoc, asciiChars, asciiChars,
        List.map_append]
      rfl

/-- Bytes between ASCII ones decode exactly when they do alone. -/
theorem decode_between
    {front back : List UInt8}
    (front_ascii : ∀ b ∈ front, b < 128)
    (back_ascii : ∀ b ∈ back, b < 128)
    (middle : List UInt8) :
    decode (front ++ (middle ++ back)) =
      (decode middle).map fun text =>
        asciiChars front ++ (text ++ asciiChars back) := by
  cases valid : decode middle with
  | some text =>
    rw [Option.map_some, decode_eq_some_iff, encode_append, encode_append,
      encode_asciiChars front_ascii, encode_asciiChars back_ascii,
      encode_of_decode valid]
  | none =>
    rw [Option.map_none, Option.eq_none_iff_forall_not_mem]
    intro text decoded
    obtain ⟨behind, -, behind_encoded⟩ :=
      split_front front_ascii (encode_of_decode decoded)
    obtain ⟨between, -, encoded⟩ := split_back back_ascii behind_encoded
    rw [decode_eq_some_iff.mpr encoded] at valid
    cases valid

end Utf8
end Library
