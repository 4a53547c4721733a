import Mathlib.Algebra.Order.Floor.Ring
import Mathlib.Data.Rat.Floor
import Mathlib.Tactic.FieldSimp
import Schedmon.Library.PythonText
import Schedmon.Library.Rounding

/-!
# Numbers with a decimal point

`printf` with a fixed number of decimal places, which rounds to the nearest such
number and to the even one of two, and the value of such a text.
-/

namespace Library
namespace FixedPoint

open Decimal Utf8 PythonText Rounding

/-- A number in decimal, with zeros before it up to a width. -/
def padded (width n : ℕ) : List Char :=
  let digits := asciiChars (decimal n)
  List.replicate (width - digits.length) '0' ++ digits

/-- How many units of the last place a printed number has. -/
def units (places : ℕ) (x : ℚ) : ℕ :=
  (nearestEven (|x| * 10 ^ places)).toNat

/-- The text of `"%.<places>f"`, with one place at least. -/
def fixed (places : ℕ) (x : ℚ) : List Char :=
  let magnitude := asciiChars (decimal (units places x / 10 ^ places)) ++
    '.' :: padded places (units places x % 10 ^ places)
  if x < 0 then '-' :: magnitude else magnitude

/-- An integer in decimal. -/
def signed (n : Int) : List Char :=
  if n < 0 then '-' :: asciiChars (decimal n.natAbs)
  else asciiChars (decimal n.natAbs)

/-- The text of `"%d"`, which prints an `int`: 32 bits, with a sign. -/
def printedInt (n : Int) : List Char := signed (n.bmod (2 ^ 32))

/-- The value of digits around a point. -/
def magnitude (text : List Char) : Option ℚ :=
  let (whole, fraction) := partition '.' text
  if whole ≠ [] ∧ fraction ≠ [] ∧ whole.all Char.isDigit ∧ fraction.all Char.isDigit
  then some (digitsValue whole + digitsValue fraction / 10 ^ fraction.length)
  else none

/-- The value of a text with a decimal point, which may have a minus. -/
def value (text : List Char) : Option ℚ :=
  match text with
  | '-' :: text => (magnitude text).map Neg.neg
  | text => magnitude text

/-! ## Digits -/

theorem digitsValue_replicate_append (count : ℕ) (digits : List Char) :
    digitsValue (List.replicate count '0' ++ digits) = digitsValue digits := by
  induction count with
  | zero => rfl
  | succ count inductionHypothesis => exact inductionHypothesis

theorem isDigit_of_mem_decimal
    {n : ℕ}
    {c : Char}
    (member : c ∈ asciiChars (decimal n)) :
    c.isDigit = true := by
  have code := code_of_mem_decimal member
  simp only [Char.isDigit, Bool.and_eq_true, decide_eq_true_eq,
    UInt32.le_iff_toNat_le, ge_iff_le]
  exact code

theorem isDigit_of_mem_padded
    {width n : ℕ}
    {c : Char}
    (member : c ∈ padded width n) :
    c.isDigit = true := by
  rcases List.mem_append.mp member with zero | digit
  · rw [List.eq_of_mem_replicate zero]
    rfl
  · exact isDigit_of_mem_decimal digit

theorem digitsValue_decimal (n : ℕ) : digitsValue (asciiChars (decimal n)) = n := by
  rw [digitsValue_asciiChars, value_decimal]

@[simp] theorem digitsValue_padded (width n : ℕ) : digitsValue (padded width n) = n := by
  unfold padded
  rw [digitsValue_replicate_append, digitsValue_decimal]

theorem length_padded
    {width n : ℕ}
    (positive : 0 < width)
    (small : n < 10 ^ width) :
    (padded width n).length = width := by
  have fits := length_decimal_le positive small
  simp only [padded, asciiChars, List.length_append, List.length_replicate,
    List.length_map]
  omega

/-! ## Rounding and the sign -/

theorem nearestEven_neg (x : ℚ) : nearestEven (-x) = -nearestEven x := by
  by_cases whole : Int.fract x = 0
  · have integer : x = (⌊x⌋ : ℤ) := by
      have parts := Int.floor_add_fract x
      rw [whole, add_zero] at parts
      exact parts.symm
    rw [integer, ← Int.cast_neg, nearestEven_intCast, nearestEven_intCast]
  · have fract := Int.fract_neg whole
    have floor : ⌊-x⌋ = -⌊x⌋ - 1 := by
      have parts := Int.floor_add_fract (-x)
      have original := Int.floor_add_fract x
      rw [fract] at parts
      have equal : (⌊-x⌋ : ℚ) = ((-⌊x⌋ - 1 : ℤ) : ℚ) := by
        push_cast
        linarith
      exact_mod_cast equal
    unfold nearestEven
    rw [fract, floor]
    split_ifs <;> first | omega | (exfalso; linarith)

theorem units_cast (places : ℕ) (x : ℚ) :
    (units places x : ℚ) = (nearestEven (|x| * 10 ^ places) : ℚ) := by
  have positive : (0 : ℚ) ≤ |x| * 10 ^ places := by positivity
  have nonneg : 0 ≤ nearestEven (|x| * 10 ^ places) := by
    have order := nearestEven_mono positive
    rwa [show nearestEven (0 : ℚ) = 0 by simpa using nearestEven_intCast (K := ℚ) 0]
      at order
  unfold units
  exact_mod_cast congrArg (Int.cast (R := ℚ)) (Int.toNat_of_nonneg nonneg)

/-- Printing a number rounds it. -/
theorem toDigits_eq_units (places : ℕ) (x : ℚ) :
    toDigits places x =
      if x < 0 then -((units places x : ℚ) / 10 ^ places)
      else (units places x : ℚ) / 10 ^ places := by
  rw [units_cast]
  unfold toDigits
  split
  · next negative =>
      rw [abs_of_neg negative, neg_mul, nearestEven_neg]
      push_cast
      ring
  · next nonneg => rw [abs_of_nonneg (not_lt.mp nonneg)]

/-! ## Reading what was printed -/

theorem magnitude_printed
    {places : ℕ}
    (positive : 0 < places)
    (n : ℕ) :
    magnitude (asciiChars (decimal (n / 10 ^ places)) ++
        '.' :: padded places (n % 10 ^ places)) =
      some ((n : ℚ) / 10 ^ places) := by
  have power : 0 < 10 ^ places := Nat.pow_pos (by decide)
  have fraction := length_padded positive (Nat.mod_lt n power)
  have noPoint : '.' ∉ asciiChars (decimal (n / 10 ^ places)) := by
    intro member
    exact absurd (isDigit_of_mem_decimal member) (by decide)
  have wholeSome : asciiChars (decimal (n / 10 ^ places)) ≠ [] := by
    simpa [asciiChars] using decimal_ne_nil (n / 10 ^ places)
  have fractionSome : padded places (n % 10 ^ places) ≠ [] :=
    List.ne_nil_of_length_pos (by omega)
  unfold magnitude
  rw [partition_append_cons noPoint]
  dsimp only
  rw [if_pos ⟨wholeSome, fractionSome,
    List.all_eq_true.mpr fun _ => isDigit_of_mem_decimal,
    List.all_eq_true.mpr fun _ => isDigit_of_mem_padded⟩, fraction, digitsValue_decimal,
    digitsValue_padded]
  have parts : ((n / 10 ^ places : ℕ) : ℚ) * 10 ^ places + ((n % 10 ^ places : ℕ) : ℚ) =
      n := by
    exact_mod_cast Nat.div_add_mod' n (10 ^ places)
  have nonzero : (10 : ℚ) ^ places ≠ 0 := by positivity
  congr 1
  rw [eq_div_iff nonzero, add_mul, div_mul_cancel₀ _ nonzero, parts]

/-- A printed number reads back as the number rounded to its places. -/
theorem value_fixed
    {places : ℕ}
    (positive : 0 < places)
    (x : ℚ) :
    value (fixed places x) = some (toDigits places x) := by
  have printed := magnitude_printed positive (units places x)
  rw [toDigits_eq_units]
  unfold fixed
  dsimp only
  by_cases negative : x < 0
  · rw [if_pos negative, if_pos negative, value, printed]
    rfl
  · rw [if_neg negative, if_neg negative, ← printed]
    obtain ⟨c, rest, text⟩ : ∃ c rest,
        asciiChars (decimal (units places x / 10 ^ places)) = c :: rest := by
      apply List.exists_cons_of_ne_nil
      simpa [asciiChars] using decimal_ne_nil (units places x / 10 ^ places)
    have digit : c.isDigit = true :=
      isDigit_of_mem_decimal (text ▸ List.mem_cons_self)
    rw [text, List.cons_append, value]
    intro rest' minus
    rw [(List.cons.inj minus).1] at digit
    cases digit

/-! ## The characters of a printed number -/

/-- A digit, a point or a minus. -/
def Numeric (c : Char) : Prop := 45 ≤ c.toNat ∧ c.toNat ≤ 57

theorem numeric_of_isDigit
    {c : Char}
    (digit : c.isDigit = true) :
    Numeric c := by
  simp only [Char.isDigit, Bool.and_eq_true, decide_eq_true_eq,
    UInt32.le_iff_toNat_le, ge_iff_le] at digit
  exact ⟨(by decide : 45 ≤ 48).trans digit.1, digit.2⟩

theorem numeric_of_mem_signed
    {n : Int}
    {c : Char}
    (member : c ∈ signed n) :
    Numeric c := by
  unfold signed at member
  split at member
  · rcases List.mem_cons.mp member with rfl | digit
    · exact ⟨by decide, by decide⟩
    · exact numeric_of_isDigit (isDigit_of_mem_decimal digit)
  · exact numeric_of_isDigit (isDigit_of_mem_decimal member)

theorem numeric_of_mem_fixed
    {places : ℕ}
    {x : ℚ}
    {c : Char}
    (member : c ∈ fixed places x) :
    Numeric c := by
  have magnitude (inside : c ∈ asciiChars (decimal (units places x / 10 ^ places)) ++
      '.' :: padded places (units places x % 10 ^ places)) : Numeric c := by
    rcases List.mem_append.mp inside with digit | rest
    · exact numeric_of_isDigit (isDigit_of_mem_decimal digit)
    · rcases List.mem_cons.mp rest with rfl | digit
      · exact ⟨by decide, by decide⟩
      · exact numeric_of_isDigit (isDigit_of_mem_padded digit)
  unfold fixed at member
  dsimp only at member
  split at member
  · rcases List.mem_cons.mp member with rfl | inside
    · exact ⟨by decide, by decide⟩
    · exact magnitude inside
  · exact magnitude member

/-! ## The length of a printed number -/

theorem length_signed_le
    {n : Int}
    {k : ℕ}
    (small : n.natAbs < 10 ^ k)
    (positive : 0 < k) :
    (signed n).length ≤ k + 1 := by
  have digits := length_decimal_le positive small
  unfold signed
  split
  · simp only [List.length_cons, asciiChars, List.length_map]
    omega
  · simp only [asciiChars, List.length_map]
    omega

theorem length_printedInt_le (n : Int) : (printedInt n).length ≤ 11 := by
  apply length_signed_le (k := 10) _ (by decide)
  have below := Int.bmod_lt (x := n) (m := 2 ^ 32) (by decide)
  have above := Int.le_bmod (x := n) (m := 2 ^ 32) (by decide)
  omega

theorem units_le
    {k : ℕ}
    {x : ℚ}
    (bounded : |x| ≤ 10 ^ k)
    (places : ℕ) :
    units places x ≤ 10 ^ k * 10 ^ places := by
  have scaled : |x| * 10 ^ places ≤ ((10 ^ k * 10 ^ places : ℤ) : ℚ) := by
    push_cast
    exact mul_le_mul_of_nonneg_right bounded (by positivity)
  have rounded := nearestEven_mono scaled
  rw [nearestEven_intCast] at rounded
  have cast := units_cast places x
  have equal : (units places x : ℤ) = nearestEven (|x| * 10 ^ places) := by
    exact_mod_cast cast
  rw [← equal] at rounded
  exact_mod_cast rounded

theorem length_fixed_le
    {k places : ℕ}
    {x : ℚ}
    (positive : 0 < places)
    (bounded : |x| ≤ 10 ^ k) :
    (fixed places x).length ≤ k + places + 3 := by
  have power : 0 < 10 ^ places := Nat.pow_pos (by decide)
  have whole : units places x / 10 ^ places ≤ 10 ^ k :=
    Nat.div_le_of_le_mul (by
      rw [Nat.mul_comm]
      exact units_le bounded places)
  have wholeLength := length_decimal_le (k := k + 1) (Nat.succ_pos k)
    (whole.trans_lt (Nat.pow_lt_pow_right (by decide) (Nat.lt_succ_self k)))
  have fractionLength := length_padded positive (Nat.mod_lt (units places x) power)
  unfold fixed
  dsimp only
  split
  · simp only [List.length_cons, List.length_append, fractionLength, asciiChars,
      List.length_map]
    omega
  · simp only [List.length_cons, List.length_append, fractionLength, asciiChars,
      List.length_map]
    omega

end FixedPoint
end Library
