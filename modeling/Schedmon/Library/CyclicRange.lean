import Mathlib.Data.List.Range
import Mathlib.Algebra.Order.Ring.Int
import Mathlib.Tactic.Ring
import Mathlib.Tactic.SplitIfs

/-!
# Cyclic index ranges

The cells of a ring of `capacity` cells that lie in the half-open cyclic range
from a first index up to a last one.  A ring whose first and last index agree
is empty, so a ring of `capacity` cells holds at most `capacity - 1` values.
-/

namespace Library
namespace CyclicRange

/-- The index after `index` in a ring of `capacity` cells. -/
def next (capacity index : Int) : Int :=
  (index + 1) % capacity

/-- Number of steps from `first` to `last` around the ring. -/
def distance (capacity first last : Int) : Nat :=
  ((last - first) % capacity).toNat

/-- The indices of the cyclic range, starting at `first`. -/
def indices (capacity first last : Int) : List Int :=
  (List.range (distance capacity first last)).map fun offset : Nat =>
    (first + (offset : Int)) % capacity

/-- The values stored in the cyclic range, starting at `first`. -/
def contents (capacity : Int) (cells : Int → α) (first last : Int) : List α :=
  (indices capacity first last).map cells

theorem next_eq
    {capacity index : Int}
    (nonnegative : 0 ≤ index)
    (below : index < capacity) :
    next capacity index = if index + 1 = capacity then 0 else index + 1 := by
  unfold next
  split
  · next wraps => simp [wraps]
  · next inside => exact Int.emod_eq_of_lt (by omega) (by omega)

theorem next_nonneg
    {capacity index : Int}
    (positive : 0 < capacity) :
    0 ≤ next capacity index :=
  Int.emod_nonneg _ (by omega)

theorem next_lt
    {capacity index : Int}
    (positive : 0 < capacity) :
    next capacity index < capacity :=
  Int.emod_lt_of_pos _ positive

theorem sub_emod_eq
    {capacity first last : Int}
    (firstNonneg : 0 ≤ first) (firstBelow : first < capacity)
    (lastNonneg : 0 ≤ last) (lastBelow : last < capacity) :
    (last - first) % capacity =
      if first ≤ last then last - first else last - first + capacity := by
  split
  · exact Int.emod_eq_of_lt (by omega) (by omega)
  · rw [← Int.add_emod_right]
    exact Int.emod_eq_of_lt (by omega) (by omega)

theorem add_emod_eq
    {capacity first offset : Int}
    (firstNonneg : 0 ≤ first) (firstBelow : first < capacity)
    (offsetNonneg : 0 ≤ offset) (offsetBelow : offset < capacity) :
    (first + offset) % capacity =
      if first + offset < capacity then first + offset
      else first + offset - capacity := by
  split
  · exact Int.emod_eq_of_lt (by omega) (by omega)
  · rw [← Int.sub_emod_right]
    exact Int.emod_eq_of_lt (by omega) (by omega)

@[simp] theorem distance_self (capacity index : Int) :
    distance capacity index index = 0 := by
  simp [distance]

@[simp] theorem contents_self (capacity index : Int) (cells : Int → α) :
    contents capacity cells index index = [] := by
  simp [contents, indices]

@[simp] theorem length_contents
    (capacity first last : Int)
    (cells : Int → α) :
    (contents capacity cells first last).length =
      distance capacity first last := by
  simp [contents, indices]

section Bounded

variable {capacity first last : Int}
variable (firstNonneg : 0 ≤ first) (firstBelow : first < capacity)
variable (lastNonneg : 0 ≤ last) (lastBelow : last < capacity)

include firstNonneg firstBelow lastNonneg lastBelow

theorem distance_lt : (distance capacity first last : Int) < capacity := by
  unfold distance
  rw [sub_emod_eq firstNonneg firstBelow lastNonneg lastBelow]
  split <;> omega

/-- The last index itself lies outside the range. -/
theorem last_notMem_indices : last ∉ indices capacity first last := by
  intro present
  obtain ⟨offset, inRange, equal⟩ := List.mem_map.mp present
  rw [List.mem_range] at inRange
  have short := distance_lt firstNonneg firstBelow lastNonneg lastBelow
  rw [add_emod_eq firstNonneg firstBelow (by omega) (by omega)] at equal
  unfold distance at inRange
  rw [sub_emod_eq firstNonneg firstBelow lastNonneg lastBelow] at inRange
  split at equal <;> split at inRange <;> omega

/-- The range is full exactly when one more step would close it. -/
theorem next_last_eq_first_iff :
    next capacity last = first ↔
      (distance capacity first last : Int) = capacity - 1 := by
  rw [next_eq lastNonneg lastBelow]
  unfold distance
  rw [sub_emod_eq firstNonneg firstBelow lastNonneg lastBelow]
  split <;> split <;> omega

/-- Advancing the last index of a range that is not full adds the old last
cell at the end. -/
theorem indices_next_last
    (notFull : next capacity last ≠ first) :
    indices capacity first (next capacity last) =
      indices capacity first last ++ [last] := by
  have nextNonneg : 0 ≤ next capacity last := next_nonneg (by omega)
  have nextBelow : next capacity last < capacity := next_lt (by omega)
  have longer : distance capacity first (next capacity last) =
      distance capacity first last + 1 := by
    unfold distance
    rw [sub_emod_eq firstNonneg firstBelow nextNonneg nextBelow,
      sub_emod_eq firstNonneg firstBelow lastNonneg lastBelow]
    rw [next_eq lastNonneg lastBelow] at notFull ⊢
    split at notFull <;> split <;> split <;> omega
  have atLast : (first + (distance capacity first last : Int)) % capacity = last := by
    rw [add_emod_eq firstNonneg firstBelow (by omega)
      (distance_lt firstNonneg firstBelow lastNonneg lastBelow)]
    unfold distance
    rw [sub_emod_eq firstNonneg firstBelow lastNonneg lastBelow]
    split <;> split <;> omega
  unfold indices
  rw [longer, List.range_succ, List.map_append]
  simp [atLast]

/-- Only the empty range has no length. -/
theorem distance_eq_zero_iff : distance capacity first last = 0 ↔ first = last := by
  unfold distance
  rw [sub_emod_eq firstNonneg firstBelow lastNonneg lastBelow]
  split <;> omega

/-- Advancing the first index of a range that is not empty shortens it by one. -/
theorem distance_eq_succ
    (notEmpty : first ≠ last) :
    distance capacity first last =
      distance capacity (next capacity first) last + 1 := by
  have nextNonneg : 0 ≤ next capacity first := next_nonneg (by omega)
  have nextBelow : next capacity first < capacity := next_lt (by omega)
  unfold distance
  rw [sub_emod_eq firstNonneg firstBelow lastNonneg lastBelow,
    sub_emod_eq nextNonneg nextBelow lastNonneg lastBelow,
    next_eq firstNonneg firstBelow]
  split_ifs <;> omega

/-- Advancing the first index of a range that is not empty drops its first
cell. -/
theorem indices_eq_cons
    (notEmpty : first ≠ last) :
    indices capacity first last =
      first :: indices capacity (next capacity first) last := by
  unfold indices
  rw [distance_eq_succ firstNonneg firstBelow lastNonneg lastBelow notEmpty,
    List.range_succ_eq_map, List.map_cons, List.map_map]
  congr 1
  · simpa using Int.emod_eq_of_lt firstNonneg firstBelow
  · apply List.map_congr_left
    intro offset _
    simp only [Function.comp_apply, next, Int.emod_add_emod]
    push_cast
    ring_nf

/-- Writing the cell at the last index leaves the contents alone. -/
theorem contents_congr
    {cells cells' : Int → α}
    (same : ∀ index, index ≠ last → cells' index = cells index) :
    contents capacity cells' first last = contents capacity cells first last := by
  apply List.map_congr_left
  intro index present
  apply same
  intro equal
  subst equal
  exact last_notMem_indices firstNonneg firstBelow lastNonneg lastBelow present

end Bounded

end CyclicRange
end Library
