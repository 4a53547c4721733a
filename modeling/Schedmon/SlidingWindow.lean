import Mathlib.Algebra.Order.Field.Rat
import Mathlib.Algebra.BigOperators.Group.List.Basic
import Mathlib.Algebra.Order.BigOperators.Group.List
import Mathlib.Tactic.Linarith
import Mathlib.Tactic.Positivity
import Mathlib.Tactic.Ring

/-!
# The sliding window

`sw_init`, `sw_push` and `sw_mean` over exact rationals, and the invariant that
relates the four counters of a window to the list of samples pushed into it.
-/

namespace Schedmon

/-- `SWAG_CAPACITY`. -/
def swagCapacity : Nat := 10

/-- `SlidingWindow`.  The head index is inside the buffer by its type. -/
structure SlidingWindow where
  buffer : Vector ℚ swagCapacity
  head : Fin swagCapacity
  count : Nat
  runSum : ℚ
  /-- Pushes since the last exact recompute. -/
  pushCount : Nat
  deriving DecidableEq

/-- `sw_init`. -/
def swInit : SlidingWindow where
  buffer := Vector.replicate swagCapacity 0
  head := ⟨0, by decide⟩
  count := 0
  runSum := 0
  pushCount := 0

/-- The index after the head, modulo the buffer length. -/
def SlidingWindow.nextHead (sw : SlidingWindow) : Fin swagCapacity :=
  ⟨(sw.head.val + 1) % swagCapacity, Nat.mod_lt _ (by decide)⟩

/-- `sw_push`. -/
def swPush (sw : SlidingWindow) (sample : ℚ) : SlidingWindow :=
  let full := sw.count = swagCapacity
  let evicted := if full then sw.runSum - sw.buffer[sw.head] else sw.runSum
  let count := if full then sw.count else sw.count + 1
  let buffer := sw.buffer.set sw.head sample
  -- the running sum is rebuilt from the buffer every hundredth push
  if sw.pushCount + 1 ≥ swagCapacity * swagCapacity then
    { buffer := buffer
      head := sw.nextHead
      count := count
      runSum := (buffer.toList.take count).foldl (· + ·) 0
      pushCount := 0 }
  else
    { buffer := buffer
      head := sw.nextHead
      count := count
      runSum := evicted + sample
      pushCount := sw.pushCount + 1 }

/-- `sw_mean`. -/
def swMean (sw : SlidingWindow) : ℚ :=
  if sw.count = 0 then 0 else sw.runSum / sw.count

/-- The running sum after the eviction of a push. -/
def SlidingWindow.evictedSum (sw : SlidingWindow) : ℚ :=
  if sw.count = swagCapacity then sw.runSum - sw.buffer[sw.head] else sw.runSum

/-- A naive window: it recomputes its sum at every push. -/
def naivePush (sw : SlidingWindow) (sample : ℚ) : SlidingWindow :=
  let count := if sw.count = swagCapacity then sw.count else sw.count + 1
  let buffer := sw.buffer.set sw.head sample
  { buffer := buffer
    head := sw.nextHead
    count := count
    runSum := (buffer.toList.take count).foldl (· + ·) 0
    pushCount := 0 }

/-- The samples a window still covers. -/
def recent (samples : List ℚ) : List ℚ :=
  samples.drop (samples.length - swagCapacity)

/-- Their mean. -/
def recentMean (samples : List ℚ) : ℚ :=
  (recent samples).sum / (recent samples).length

/-- Where the buffer keeps the sample with a given index. -/
def bufferIndex (index : Nat) : Fin swagCapacity :=
  ⟨index % swagCapacity, Nat.mod_lt _ (by decide)⟩

/-- A window after the given samples, oldest first, were pushed into it. -/
structure SlidingWindow.Represents
    (sw : SlidingWindow) (samples : List ℚ) : Prop where
  count_eq : sw.count = min samples.length swagCapacity
  head_eq : sw.head.val = samples.length % swagCapacity
  /-- Each covered sample sits at its index modulo the buffer length. -/
  buffer_eq : ∀ index (present : index < samples.length),
    samples.length ≤ index + swagCapacity →
      sw.buffer[bufferIndex index] = samples[index]
  runSum_eq : sw.runSum = (recent samples).sum
  pushCount_eq :
    sw.pushCount = samples.length % (swagCapacity * swagCapacity)

theorem swInit_represents : swInit.Represents [] where
  count_eq := by decide
  head_eq := by decide
  buffer_eq := by
    intro index present
    exact absurd present (Nat.not_lt_zero index)
  runSum_eq := rfl
  pushCount_eq := by decide

/-- Appending a sample to a window that is not full drops nothing. -/
theorem recent_append_of_lt
    {samples : List ℚ}
    (sample : ℚ)
    (short : samples.length < swagCapacity) :
    recent (samples ++ [sample]) = recent samples ++ [sample] := by
  unfold recent
  have before : samples.length - swagCapacity = 0 := by omega
  have after : (samples ++ [sample]).length - swagCapacity = 0 := by
    simp only [List.length_append, List.length_singleton]
    omega
  rw [before, after, List.drop_zero, List.drop_zero]

/-- Appending a sample to a full window drops the oldest covered sample. -/
theorem sum_recent_append_of_le
    {samples : List ℚ}
    (sample : ℚ)
    (full : swagCapacity ≤ samples.length)
    (inside : samples.length - swagCapacity < samples.length) :
    (recent (samples ++ [sample])).sum =
      (recent samples).sum - samples[samples.length - swagCapacity] + sample := by
  unfold recent
  rw [List.drop_eq_getElem_cons inside]
  have shifted : (samples ++ [sample]).length - swagCapacity =
      samples.length - swagCapacity + 1 := by
    simp only [List.length_append, List.length_singleton]
    omega
  rw [shifted, List.drop_append_of_le_length (by omega)]
  simp only [List.sum_append, List.sum_cons, List.sum_nil]
  ring

namespace SlidingWindow.Represents

variable {sw : SlidingWindow} {samples : List ℚ}

/-- The sample that `sw_push` evicts is the oldest covered one. -/
theorem evicted_eq
    (represents : sw.Represents samples)
    (full : swagCapacity ≤ samples.length)
    (inside : samples.length - swagCapacity < samples.length) :
    sw.buffer[sw.head] = samples[samples.length - swagCapacity] := by
  rw [← represents.buffer_eq (samples.length - swagCapacity) inside (by omega)]
  have sameIndex : sw.head = bufferIndex (samples.length - swagCapacity) := by
    apply Fin.ext
    rw [represents.head_eq]
    exact Nat.mod_eq_sub_mod full
  simp only [Fin.getElem_fin, sameIndex]

/-- Writing the head slot stores the new sample at its index and overwrites
only a sample that is no longer covered. -/
theorem buffer_push
    (represents : sw.Represents samples)
    (sample : ℚ)
    (index : Nat)
    (present : index < (samples ++ [sample]).length)
    (covered : (samples ++ [sample]).length ≤ index + swagCapacity) :
    (sw.buffer.set sw.head sample)[bufferIndex index] =
      (samples ++ [sample])[index] := by
  have length : (samples ++ [sample]).length = samples.length + 1 := by simp
  rw [length] at present covered
  simp only [Fin.getElem_fin, bufferIndex, Vector.getElem_set]
  by_cases last : index = samples.length
  · subst last
    simp [represents.head_eq]
  · have earlier : index < samples.length := by omega
    have different : sw.head.val ≠ index % swagCapacity := by
      rw [represents.head_eq]
      unfold swagCapacity at covered ⊢
      omega
    rw [if_neg different, List.getElem_append_left earlier]
    exact represents.buffer_eq index earlier (by omega)

/-- At a recompute the buffer holds the covered samples in their order. -/
theorem recompute_eq
    (represents : sw.Represents samples)
    (sample : ℚ)
    (wrapped : (samples.length + 1) % swagCapacity = 0) :
    (sw.buffer.set sw.head sample).toList = recent (samples ++ [sample]) := by
  have enough : swagCapacity ≤ samples.length + 1 := by
    unfold swagCapacity at wrapped ⊢
    omega
  apply List.ext_getElem
  · simp only [Vector.length_toList, recent, List.length_drop, List.length_append,
      List.length_singleton]
    omega
  · intro index left right
    have below : index < swagCapacity := by simpa using left
    have atIndex := represents.buffer_push sample
      (samples.length + 1 - swagCapacity + index)
      (by simp only [List.length_append, List.length_singleton]; omega)
      (by simp only [List.length_append, List.length_singleton]; omega)
    have residue :
        (samples.length + 1 - swagCapacity + index) % swagCapacity = index := by
      unfold swagCapacity at *
      omega
    simp only [Fin.getElem_fin, bufferIndex, residue] at atIndex
    simp only [Vector.getElem_toList, recent, List.getElem_drop, List.length_append,
      List.length_singleton]
    exact atIndex

/-- One push appends one sample. -/
theorem push
    (represents : sw.Represents samples)
    (sample : ℚ) :
    (swPush sw sample).Represents (samples ++ [sample]) := by
  have fullIff : sw.count = swagCapacity ↔ swagCapacity ≤ samples.length := by
    rw [represents.count_eq]
    omega
  have count_eq : (if sw.count = swagCapacity then sw.count else sw.count + 1) =
      min (samples.length + 1) swagCapacity := by
    have counted := represents.count_eq
    split <;> omega
  have head_eq : sw.nextHead.val = (samples.length + 1) % swagCapacity := by
    simp only [SlidingWindow.nextHead, represents.head_eq, Nat.mod_add_mod]
  have pushed := represents.pushCount_eq
  unfold swPush
  dsimp only
  split
  · next rebuild =>
      -- the hundredth push: the head has wrapped and the window is full
      have wrapped : (samples.length + 1) % (swagCapacity * swagCapacity) = 0 := by
        unfold swagCapacity at *
        omega
      have wrappedHead : (samples.length + 1) % swagCapacity = 0 := by
        unfold swagCapacity at *
        omega
      have full : sw.count = swagCapacity := by
        rw [fullIff]
        unfold swagCapacity at *
        omega
      refine ⟨by simpa using count_eq, by simpa using head_eq,
        represents.buffer_push sample, ?_, by simpa using wrapped.symm⟩
      simp only [full, if_true]
      rw [List.take_of_length_le (by simp),
        represents.recompute_eq sample wrappedHead, ← List.sum_eq_foldl]
  · next keep =>
      refine ⟨by simpa using count_eq, by simpa using head_eq,
        represents.buffer_push sample, ?_, ?_⟩
      · simp only [represents.runSum_eq]
        split
        · next full =>
            have long := fullIff.mp full
            have inside : samples.length - swagCapacity < samples.length := by
              unfold swagCapacity at long ⊢
              omega
            rw [sum_recent_append_of_le sample long inside,
              represents.evicted_eq long inside]
        · next notFull =>
            rw [recent_append_of_lt sample (by rw [fullIff] at notFull; omega)]
            simp
      · simp only [List.length_append, List.length_singleton]
        unfold swagCapacity at *
        omega

/-- The mean of a window is the mean of the samples it covers. -/
theorem mean_eq
    (represents : sw.Represents samples) :
    swMean sw = recentMean samples := by
  have length : (recent samples).length = sw.count := by
    rw [represents.count_eq]
    simp only [recent, List.length_drop]
    omega
  unfold swMean recentMean
  rw [length, represents.runSum_eq]
  split
  · next empty => simp [empty]
  · rfl

end SlidingWindow.Represents

/-- The mean of nonnegative samples is positive exactly when one of the covered
samples is. -/
theorem recentMean_pos_iff
    {samples : List ℚ}
    (nonneg : ∀ sample ∈ samples, 0 ≤ sample) :
    0 < recentMean samples ↔ ∃ sample ∈ recent samples, 0 < sample := by
  have recentNonneg : ∀ sample ∈ recent samples, 0 ≤ sample := fun sample member =>
    nonneg sample (List.mem_of_mem_drop member)
  unfold recentMean
  constructor
  · intro positive
    by_contra none
    have zeros : ∀ sample ∈ recent samples, sample = 0 := by
      intro sample member
      have notPositive : ¬ 0 < sample := fun larger => none ⟨sample, member, larger⟩
      exact le_antisymm (not_lt.mp notPositive) (recentNonneg sample member)
    rw [List.sum_eq_zero zeros, zero_div] at positive
    exact lt_irrefl 0 positive
  · rintro ⟨sample, covered, positive⟩
    have sumPositive : 0 < (recent samples).sum :=
      positive.trans_le (List.single_le_sum recentNonneg sample covered)
    have nonempty : 0 < (recent samples).length :=
      List.length_pos_of_mem covered
    exact div_pos sumPositive (by exact_mod_cast nonempty)

/-- The sample just pushed is covered. -/
theorem mem_recent_append (samples : List ℚ) (sample : ℚ) :
    sample ∈ recent (samples ++ [sample]) := by
  have positive : 0 < swagCapacity := by decide
  unfold recent
  rw [List.drop_append_of_le_length (by
    simp only [List.length_append, List.length_singleton]
    omega)]
  simp

end Schedmon
