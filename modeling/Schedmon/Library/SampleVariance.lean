import Mathlib.Algebra.Order.BigOperators.Group.List
import Mathlib.Algebra.BigOperators.Group.List.Basic
import Mathlib.Algebra.Order.Field.Basic
import Mathlib.Data.List.GetD
import Mathlib.Tactic.Linarith
import Mathlib.Tactic.Positivity
import Mathlib.Tactic.Ring

/-!
# The sample variance and how many values are far from the mean

The values that deviate from the mean of a list by more than a number of
standard deviations are few, whatever the list: their squared deviations alone
must not exceed the sum that the variance is made from.
-/

namespace Library
namespace SampleVariance

section Markov

variable {α K : Type*} [AddCommMonoid K] [LinearOrder K] [IsOrderedAddMonoid K]

/-- The members weighing at least `least` do so together at most as much as the
whole list does. -/
theorem length_filter_nsmul_le_sum
    (weight : α → K)
    (nonnegative : ∀ a, 0 ≤ weight a)
    (keep : α → Bool)
    {least : K}
    (heavy : ∀ a, keep a → least ≤ weight a)
    (values : List α) :
    (values.filter keep).length • least ≤ (values.map weight).sum := by
  have sublist : ((values.filter keep).map weight).Sublist
      (values.map weight) :=
    List.filter_sublist.map weight
  have each : ∀ w ∈ (values.filter keep).map weight, least ≤ w := by
    intro w membership
    obtain ⟨a, kept, rfl⟩ := List.mem_map.mp membership
    exact heavy a (List.mem_filter.mp kept).2
  have all : ∀ w ∈ values.map weight, 0 ≤ w := by
    intro w membership
    obtain ⟨a, -, rfl⟩ := List.mem_map.mp membership
    exact nonnegative a
  calc (values.filter keep).length • least
      = ((values.filter keep).map weight).length • least := by
        rw [List.length_map]
    _ ≤ ((values.filter keep).map weight).sum :=
        List.card_nsmul_le_sum _ _ each
    _ ≤ (values.map weight).sum := sublist.sum_le_sum all

end Markov

variable {K : Type*} [Field K] [LinearOrder K]

/-- The mean of the values. -/
def mean (values : List K) : K :=
  values.sum / values.length

/-- The sum of the squared deviations from the mean. -/
def squaredDeviations (values : List K) : K :=
  (values.map fun v => (v - mean values) ^ 2).sum

/-- The variance with one degree of freedom taken by the mean. -/
def variance (values : List K) : K :=
  squaredDeviations values / (values.length - 1)

/-- The values at most `k` standard deviations from the mean. -/
def near (k : K) (values : List K) : List K :=
  values.filter fun v => (v - mean values) ^ 2 ≤ k ^ 2 * variance values

/-- The values further from the mean. -/
def far (k : K) (values : List K) : List K :=
  values.filter fun v => !decide ((v - mean values) ^ 2 ≤
    k ^ 2 * variance values)

theorem length_near_add_length_far (k : K) (values : List K) :
    (near k values).length + (far k values).length = values.length :=
  (List.length_eq_length_filter_add _).symm

theorem squaredDeviations_nonneg
    [IsStrictOrderedRing K]
    (values : List K) :
    0 ≤ squaredDeviations values := by
  apply List.sum_nonneg
  intro w membership
  obtain ⟨v, -, rfl⟩ := List.mem_map.mp membership
  exact sq_nonneg _

theorem variance_nonneg
    [IsStrictOrderedRing K]
    {values : List K}
    (nonempty : 1 ≤ values.length) :
    0 ≤ variance values := by
  have length_ge : (1 : K) ≤ values.length := by exact_mod_cast nonempty
  exact div_nonneg (squaredDeviations_nonneg values) (by linarith)

/-- The far values, weighed by their squared deviations. -/
theorem length_far_mul_le
    [IsStrictOrderedRing K]
    (k : K)
    (values : List K) :
    (far k values).length * (k ^ 2 * variance values) ≤
      squaredDeviations values := by
  rw [← nsmul_eq_mul]
  apply length_filter_nsmul_le_sum _ (fun v => sq_nonneg _)
  intro v isFar
  simp only [Bool.not_eq_true', decide_eq_false_iff_not, not_le] at isFar
  exact isFar.le

/-- Fewer than one in `k ^ 2` of the values are far. -/
theorem length_far_lt
    [IsStrictOrderedRing K]
    (k : K)
    {values : List K}
    (two : 2 ≤ values.length)
    (spread : variance values ≠ 0) :
    (far k values).length * k ^ 2 < (values.length : K) := by
  have length_gt : (1 : K) < values.length := by exact_mod_cast two
  have positive : 0 < variance values :=
    lt_of_le_of_ne (variance_nonneg (by omega)) spread.symm
  have total : squaredDeviations values =
      ((values.length : K) - 1) * variance values := by
    rw [variance, mul_div_cancel₀ _ (by linarith)]
  have bounded := length_far_mul_le k values
  rw [total, ← mul_assoc, mul_le_mul_iff_left₀ positive] at bounded
  linarith

end SampleVariance
end Library
