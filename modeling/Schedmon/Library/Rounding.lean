import Mathlib.Algebra.Order.Floor.Ring
import Mathlib.Algebra.Order.Field.Basic
import Mathlib.Tactic.Linarith
import Mathlib.Tactic.FieldSimp
import Mathlib.Tactic.NormNum
import Mathlib.Tactic.Ring

/-!
# Decimal rounding

Rounding to the nearest integer, ties going to the even one, and from it the
rounding to a number of decimal digits.  A rounded value is off by at most half
a unit of the last digit, so a comparison with room of half a unit on the exact
value is a comparison on the rounded one.
-/

namespace Library
namespace Rounding

/-- Half a unit of the last digit kept. -/
def halfUnit (K : Type*) [Field K] (digits : ℕ) : K :=
  1 / 2 / 10 ^ digits

variable [Field K] [LinearOrder K] [IsStrictOrderedRing K] [FloorRing K]

/-- The nearest integer, and the even one of two that are equally near. -/
def nearestEven (x : K) : ℤ :=
  if Int.fract x < 1 / 2 then ⌊x⌋
  else if 1 / 2 < Int.fract x then ⌊x⌋ + 1
  else if ⌊x⌋ % 2 = 0 then ⌊x⌋
  else ⌊x⌋ + 1

/-- The value rounded to the given number of decimal digits. -/
def toDigits (digits : ℕ) (x : K) : K :=
  (nearestEven (x * 10 ^ digits) : K) / 10 ^ digits

theorem nearestEven_le (x : K) : (nearestEven x : K) ≤ x + 1 / 2 := by
  have parts := Int.floor_add_fract x
  have below := Int.floor_le x
  unfold nearestEven
  split
  · linarith
  · next notLow =>
    split
    · push_cast
      linarith
    · split
      · linarith
      · push_cast
        linarith

theorem le_nearestEven (x : K) : x - 1 / 2 ≤ (nearestEven x : K) := by
  have parts := Int.floor_add_fract x
  have bound := Int.fract_lt_one x
  unfold nearestEven
  split
  · linarith
  · split
    · push_cast
      linarith
    · next notHigh =>
      split
      · linarith
      · push_cast
        linarith

@[simp] theorem nearestEven_intCast (n : ℤ) : nearestEven (n : K) = n := by
  simp [nearestEven]

/-- Rounding keeps the order: were two integers swapped, both values would be
at distance one half from them, and so be the same. -/
theorem nearestEven_mono
    {x y : K}
    (x_le_y : x ≤ y) :
    nearestEven x ≤ nearestEven y := by
  by_contra swapped
  have apart : nearestEven y + 1 ≤ nearestEven x := not_le.mp swapped
  have apartInField : (nearestEven y : K) + 1 ≤ nearestEven x := by
    exact_mod_cast apart
  have above := nearestEven_le x
  have below := le_nearestEven y
  have same : x = y := by linarith
  rw [same] at swapped
  exact swapped le_rfl

/-- A value half way below an even integer is rounded up to it. -/
theorem nearestEven_half_below
    {n : ℤ}
    (even : n % 2 = 0) :
    nearestEven ((n : K) - 1 / 2) = n := by
  have floor : ⌊(n : K) - 1 / 2⌋ = n - 1 := by
    rw [Int.floor_eq_iff]
    push_cast
    constructor <;> linarith
  have fract : Int.fract ((n : K) - 1 / 2) = 1 / 2 := by
    rw [Int.fract, floor]
    push_cast
    ring
  have odd : (n - 1) % 2 ≠ 0 := by omega
  unfold nearestEven
  rw [fract, floor, if_neg (lt_irrefl _), if_neg (lt_irrefl _), if_neg odd]
  exact sub_add_cancel n 1

theorem le_nearestEven_iff
    {n : ℤ}
    (even : n % 2 = 0)
    {x : K} :
    n ≤ nearestEven x ↔ (n : K) - 1 / 2 ≤ x := by
  constructor
  · intro reached
    have reachedInField : (n : K) ≤ nearestEven x := by exact_mod_cast reached
    have above := nearestEven_le x
    linarith
  · intro near
    calc n = nearestEven ((n : K) - 1 / 2) := (nearestEven_half_below even).symm
      _ ≤ nearestEven x := nearestEven_mono near

theorem toDigits_mono (digits : ℕ) : Monotone (toDigits digits : K → K) := by
  intro x y x_le_y
  have positive : (0 : K) < 10 ^ digits := by positivity
  have scaled := mul_le_mul_of_nonneg_right x_le_y positive.le
  have rounded : (nearestEven (x * 10 ^ digits) : K) ≤
      nearestEven (y * 10 ^ digits) := by
    exact_mod_cast nearestEven_mono scaled
  exact div_le_div_of_nonneg_right rounded positive.le

/-- Which values are rounded to at least an even number of units. -/
theorem le_toDigits_iff
    (digits : ℕ)
    {n : ℤ}
    (even : n % 2 = 0)
    {x : K} :
    (n : K) / 10 ^ digits ≤ toDigits digits x ↔
      (n : K) / 10 ^ digits - halfUnit K digits ≤ x := by
  have positive : (0 : K) < 10 ^ digits := by positivity
  have scaled : (n : K) / 10 ^ digits - halfUnit K digits =
      ((n : K) - 1 / 2) / 10 ^ digits := (sub_div _ _ _).symm
  rw [toDigits, div_le_div_iff_of_pos_right positive, Int.cast_le,
    le_nearestEven_iff even, scaled, div_le_iff₀ positive]

theorem toDigits_nonneg
    (digits : ℕ)
    {x : K}
    (nonnegative : 0 ≤ x) :
    0 ≤ toDigits digits x := by
  have zero : toDigits digits (0 : K) = 0 :=
    by simp [toDigits, nearestEven]
  calc (0 : K) = toDigits digits 0 := zero.symm
    _ ≤ toDigits digits x := toDigits_mono digits nonnegative

theorem toDigits_le
    (digits : ℕ)
    (x : K) :
    toDigits digits x ≤ x + halfUnit K digits := by
  have positive : (0 : K) < 10 ^ digits := by positivity
  calc toDigits digits x
      ≤ (x * 10 ^ digits + 1 / 2) / 10 ^ digits :=
        div_le_div_of_nonneg_right (nearestEven_le _) positive.le
    _ = x + halfUnit K digits := by
        rw [add_div, mul_div_cancel_right₀ x positive.ne']
        rfl

theorem le_toDigits
    (digits : ℕ)
    (x : K) :
    x - halfUnit K digits ≤ toDigits digits x := by
  have positive : (0 : K) < 10 ^ digits := by positivity
  calc x - halfUnit K digits
      = (x * 10 ^ digits - 1 / 2) / 10 ^ digits := by
        rw [sub_div, mul_div_cancel_right₀ x positive.ne']
        rfl
    _ ≤ toDigits digits x :=
        div_le_div_of_nonneg_right (le_nearestEven _) positive.le

/-- A value with no more digits than are kept is not changed. -/
theorem toDigits_of_eq_int
    {digits : ℕ}
    {x : K}
    {n : ℤ}
    (whole : x * 10 ^ digits = n) :
    toDigits digits x = x := by
  have positive : (0 : K) < 10 ^ digits := by positivity
  rw [toDigits, whole, nearestEven_intCast, ← whole,
    mul_div_cancel_right₀ x positive.ne']

theorem toDigits_lt
    {digits : ℕ}
    {x high : K}
    (room : x + halfUnit K digits < high) :
    toDigits digits x < high :=
  (toDigits_le digits x).trans_lt room

theorem lt_toDigits
    {digits : ℕ}
    {low x : K}
    (room : low + halfUnit K digits < x) :
    low < toDigits digits x :=
  lt_of_lt_of_le (by linarith) (le_toDigits digits x)

/-- Raising a value to a floor first keeps it below what both are below, when
the floor itself has no more digits than are kept. -/
theorem toDigits_max_lt
    {digits : ℕ}
    {x floor high : K}
    {n : ℤ}
    (room : x + halfUnit K digits < high)
    (whole : floor * 10 ^ digits = n)
    (floor_lt : floor < high) :
    toDigits digits (max x floor) < high := by
  rcases max_choice x floor with kept | raised
  · rw [kept]
    exact toDigits_lt room
  · rw [raised, toDigits_of_eq_int whole]
    exact floor_lt

theorem lt_toDigits_max
    {digits : ℕ}
    {low x : K}
    (room : low + halfUnit K digits < x)
    (floor : K) :
    low < toDigits digits (max x floor) :=
  lt_toDigits (room.trans_le (le_max_left x floor))

end Rounding
end Library
