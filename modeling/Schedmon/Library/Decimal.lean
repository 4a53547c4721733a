import Mathlib.Data.Nat.Digits.Lemmas

/-!
# Decimal numbers as bytes

Numbers printed in decimal, and the value a run of digits is read as.
-/

namespace Library
namespace Decimal

/-- The ASCII bytes of a text. -/
def ascii (text : String) : List UInt8 :=
  text.toList.map fun c => UInt8.ofNat c.toNat

/-- `isdigit`. -/
def isdigit (c : UInt8) : Bool :=
  48 ≤ c && c ≤ 57

/-- The byte of one digit. -/
def digit (d : ℕ) : UInt8 :=
  UInt8.ofNat (48 + d)

/-- A number in decimal, without leading zeros. -/
def decimal (n : ℕ) : List UInt8 :=
  if n = 0 then [digit 0] else (Nat.digits 10 n).reverse.map digit

/-- The number that a run of digits stands for. -/
def value (digits : List UInt8) : ℕ :=
  digits.foldl (fun n c => n * 10 + (c.toNat - 48)) 0

theorem toNat_digit
    {d : ℕ}
    (small : d < 10) :
    (digit d).toNat = 48 + d := by
  rw [digit, UInt8.toNat_ofNat']
  omega

theorem isdigit_digit
    {d : ℕ}
    (small : d < 10) :
    isdigit (digit d) = true := by
  have code := toNat_digit small
  simp only [isdigit, Bool.and_eq_true, decide_eq_true_eq, UInt8.le_iff_toNat_le,
    UInt8.reduceToNat, code]
  omega

theorem isdigit_of_mem_decimal
    {n : ℕ}
    {c : UInt8}
    (membership : c ∈ decimal n) :
    isdigit c = true := by
  unfold decimal at membership
  split at membership
  · rw [List.mem_singleton.mp membership]
    exact isdigit_digit (by decide)
  · obtain ⟨d, d_mem, rfl⟩ := List.mem_map.mp membership
    exact isdigit_digit (Nat.digits_lt_base (by decide) (List.mem_reverse.mp d_mem))

theorem decimal_ne_nil (n : ℕ) : decimal n ≠ [] := by
  unfold decimal
  split
  · exact List.cons_ne_nil _ _
  · next nonzero =>
    intro empty
    have noDigits : Nat.digits 10 n = [] := by simpa using empty
    exact nonzero (Nat.digits_eq_nil_iff_eq_zero.mp noDigits)

theorem value_map_digit
    {ds : List ℕ}
    (small : ∀ d ∈ ds, d < 10) :
    value (ds.reverse.map digit) = Nat.ofDigits 10 ds := by
  induction ds with
  | nil => rfl
  | cons d ds inductionHypothesis =>
    have rest := inductionHypothesis fun e e_mem =>
      small e (List.mem_cons_of_mem d e_mem)
    have first := toNat_digit (small d List.mem_cons_self)
    unfold value at rest ⊢
    rw [List.reverse_cons, List.map_append, List.foldl_append, rest]
    simp only [List.map_cons, List.map_nil, List.foldl_cons, List.foldl_nil,
      first, Nat.ofDigits_cons]
    omega

/-- Reading a printed number gives the number. -/
theorem value_decimal (n : ℕ) : value (decimal n) = n := by
  unfold decimal
  split
  · next zero =>
    rw [zero]
    rfl
  · rw [value_map_digit fun d d_mem => Nat.digits_lt_base (by decide) d_mem,
      Nat.ofDigits_digits]

/-- A number below a power of ten has at most as many digits. -/
theorem length_decimal_le
    {n k : ℕ}
    (positive : 0 < k)
    (small : n < 10 ^ k) :
    (decimal n).length ≤ k := by
  unfold decimal
  split
  · exact positive
  · rw [List.length_map, List.length_reverse]
    exact (Nat.digits_length_le_iff (by decide) n).mpr small

end Decimal
end Library
