import Schedmon.SlidingWindow

/-!
# The window that recomputes its sum

`sw_push` keeps a running sum and rebuilds it only at every hundredth push.
Here it is compared with the window that adds up its buffer at every push.
-/

namespace Schedmon

/-- The window after the given samples, oldest first. -/
def afterPushes (samples : List ℚ) : SlidingWindow :=
  samples.foldl swPush swInit

theorem afterPushes_snoc (samples : List ℚ) (sample : ℚ) :
    afterPushes (samples ++ [sample]) = swPush (afterPushes samples) sample := by
  unfold afterPushes
  rw [List.foldl_append]
  rfl

theorem afterPushes_represents (samples : List ℚ) :
    (afterPushes samples).Represents samples := by
  induction samples using List.reverseRecOn with
  | nil => exact swInit_represents
  | append_singleton samples sample inductionHypothesis =>
      rw [afterPushes_snoc]
      exact inductionHypothesis.push sample

namespace SlidingWindow

/-- The exact sum that the periodic recompute forms. -/
def recomputed (sw : SlidingWindow) : ℚ :=
  (sw.buffer.toList.take sw.count).foldl (· + ·) 0

/-- The running sum is the sum of the cells in use. -/
structure Summed (sw : SlidingWindow) : Prop where
  count_le : sw.count ≤ swagCapacity
  /-- Until the buffer is full its cells fill in order. -/
  head_eq : sw.count < swagCapacity → sw.head.val = sw.count
  runSum_eq : sw.runSum = sw.recomputed

theorem recomputed_eq_sum (sw : SlidingWindow) :
    sw.recomputed = (sw.buffer.toList.take sw.count).sum := by
  unfold recomputed
  rw [List.sum_eq_foldl]

end SlidingWindow

/-- Everything of two windows but when they last recomputed. -/
def SlidingWindow.Agrees (first second : SlidingWindow) : Prop :=
  first.buffer = second.buffer ∧ first.head = second.head ∧
    first.count = second.count ∧ first.runSum = second.runSum

theorem swInit_summed : swInit.Summed where
  count_le := by decide
  head_eq := fun _ => rfl
  runSum_eq := rfl

namespace SlidingWindow.Summed

variable {sw : SlidingWindow}

/-- What a push adds to the running sum is what it adds to the cells in use. -/
theorem evictedSum_add
    (summed : sw.Summed)
    (sample : ℚ) :
    sw.evictedSum + sample = (naivePush sw sample).runSum := by
  have kept := summed.runSum_eq
  rw [recomputed_eq_sum] at kept
  unfold evictedSum naivePush
  dsimp only
  rw [← List.sum_eq_foldl, Vector.toList_set]
  split
  · next full =>
      have whole (list : List ℚ) (length : list.length = swagCapacity) :
          list.take sw.count = list := by
        rw [full]
        exact List.take_of_length_le length.le
      rw [whole _ (by simp)] at kept
      rw [whole _ (by simp), List.sum_set', dif_pos (by simp), kept]
      simp only [Vector.getElem_toList, Fin.getElem_fin]
      ring
  · next notFull =>
      have warming : sw.head.val = sw.count :=
        summed.head_eq (lt_of_le_of_ne summed.count_le notFull)
      have inside : sw.count < (sw.buffer.toList.set sw.count sample).length := by
        simpa using lt_of_le_of_ne summed.count_le notFull
      rw [warming, kept, List.take_succ_eq_append_getElem inside, List.take_set,
        List.set_eq_of_length_le (by simp), List.sum_append,
        List.getElem_set_self, List.sum_singleton]

/-- At every push, also at one that recomputes, the running sum changes by the
new sample less the evicted one. -/
theorem runSum_swPush
    (summed : sw.Summed)
    (sample : ℚ) :
    (swPush sw sample).runSum = sw.evictedSum + sample := by
  have naive := summed.evictedSum_add sample
  unfold swPush
  dsimp only
  split
  · exact naive.symm
  · rfl

/-- One push agrees with the naive push. -/
theorem swPush_agrees
    (summed : sw.Summed)
    (sample : ℚ) :
    (swPush sw sample).Agrees (naivePush sw sample) := by
  have sums := (summed.runSum_swPush sample).trans (summed.evictedSum_add sample)
  refine ⟨?_, ?_, ?_, sums⟩
  all_goals
    unfold swPush
    dsimp only
    split <;> rfl

theorem naivePush
    (summed : sw.Summed)
    (sample : ℚ) :
    (Schedmon.naivePush sw sample).Summed := by
  have most := summed.count_le
  refine ⟨?_, ?_, rfl⟩
  · unfold Schedmon.naivePush
    dsimp only
    split <;> omega
  · intro short
    unfold Schedmon.naivePush at short ⊢
    dsimp only at short ⊢
    split at short
    · next full => omega
    · next notFull =>
        rw [if_neg notFull]
        unfold nextHead
        dsimp only
        rw [summed.head_eq (by omega), Nat.mod_eq_of_lt short]

/-- The invariant does not see when the sum was last rebuilt. -/
theorem of_agrees
    {other : SlidingWindow}
    (summed : sw.Summed)
    (agrees : other.Agrees sw) :
    other.Summed := by
  obtain ⟨buffer, head, count, runSum⟩ := agrees
  refine ⟨count ▸ summed.count_le, ?_, ?_⟩
  · rw [head, count]
    exact summed.head_eq
  · unfold recomputed
    rw [runSum, summed.runSum_eq, buffer, count]
    rfl

theorem swPush
    (summed : sw.Summed)
    (sample : ℚ) :
    (Schedmon.swPush sw sample).Summed :=
  (summed.naivePush sample).of_agrees (summed.swPush_agrees sample)

end SlidingWindow.Summed

theorem afterPushes_summed (samples : List ℚ) : (afterPushes samples).Summed := by
  induction samples using List.reverseRecOn with
  | nil => exact swInit_summed
  | append_singleton samples sample inductionHypothesis =>
      rw [afterPushes_snoc]
      exact inductionHypothesis.swPush sample

/-- The naive push sees only what agreeing windows share. -/
theorem naivePush_congr
    {first second : SlidingWindow}
    (agrees : first.Agrees second)
    (sample : ℚ) :
    naivePush first sample = naivePush second sample := by
  obtain ⟨buffer, head, count, -⟩ := agrees
  unfold naivePush SlidingWindow.nextHead
  simp only [buffer, head, count]

/-- Over every sequence of samples the two windows agree. -/
theorem afterPushes_agrees (samples : List ℚ) :
    (afterPushes samples).Agrees (samples.foldl naivePush swInit) := by
  induction samples using List.reverseRecOn with
  | nil => exact ⟨rfl, rfl, rfl, rfl⟩
  | append_singleton samples sample inductionHypothesis =>
      have pushed := (afterPushes_summed samples).swPush_agrees sample
      rw [naivePush_congr inductionHypothesis] at pushed
      rw [afterPushes_snoc, List.foldl_append]
      exact pushed

theorem SlidingWindow.Agrees.mean_eq
    {first second : SlidingWindow}
    (agrees : first.Agrees second) :
    swMean first = swMean second := by
  obtain ⟨-, -, count, runSum⟩ := agrees
  unfold swMean
  rw [count, runSum]

/-- After any samples a window counts and places the last ten of them, its
running sum and mean are exactly theirs, no push changes the sum by anything but
the evicted and the new sample, and the naive window is the same. -/
theorem slidingWindow_exact (samples : List ℚ) :
    (afterPushes samples).count = min samples.length 10 ∧
      (afterPushes samples).head.val = samples.length % 10 ∧
      (∀ index (present : index < samples.length), samples.length ≤ index + 10 →
        (afterPushes samples).buffer[bufferIndex index] = samples[index]) ∧
      (afterPushes samples).runSum = (samples.drop (samples.length - 10)).sum ∧
      swMean (afterPushes samples) =
        (if samples.length = 0 then 0
        else (samples.drop (samples.length - 10)).sum / min samples.length 10) ∧
      (∀ sample, (swPush (afterPushes samples) sample).runSum =
        (afterPushes samples).evictedSum + sample) ∧
      (afterPushes samples).Agrees (samples.foldl naivePush swInit) ∧
      swMean (afterPushes samples) = swMean (samples.foldl naivePush swInit) := by
  have represents := afterPushes_represents samples
  have agrees := afterPushes_agrees samples
  refine ⟨represents.count_eq, represents.head_eq, represents.buffer_eq,
    represents.runSum_eq, ?_, (afterPushes_summed samples).runSum_swPush, agrees,
    agrees.mean_eq⟩
  unfold swMean
  rw [represents.count_eq, represents.runSum_eq]
  by_cases none : samples.length = 0
  · rw [if_pos none, if_pos (by omega)]
  · rw [if_neg none, if_neg (by unfold swagCapacity; omega)]
    unfold recent swagCapacity
    push_cast
    rfl

end Schedmon
