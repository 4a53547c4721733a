import Schedmon.Daemon.Publishing

/-!
# Bounds on what is published

The counters are 64-bit words, so the deltas and the products the clamps compare
with may have wrapped.  The average waits are bounded all the same.
-/

namespace Schedmon

open Library EventLog

/-! ## Means -/

theorem recentMean_nonneg
    {samples : List ℚ}
    (nonneg : ∀ sample ∈ samples, 0 ≤ sample) :
    0 ≤ recentMean samples := by
  unfold recentMean
  apply div_nonneg _ (Nat.cast_nonneg _)
  exact List.sum_nonneg fun sample member => nonneg sample (List.mem_of_mem_drop member)

/-- A mean is at most what each of its samples is at most. -/
theorem recentMean_le
    {samples : List ℚ}
    {bound : ℚ}
    (nonneg : 0 ≤ bound)
    (bounded : ∀ sample ∈ samples, sample ≤ bound) :
    recentMean samples ≤ bound := by
  have total : (recent samples).sum ≤ (recent samples).length • bound :=
    List.sum_le_card_nsmul _ _ fun sample member =>
      bounded sample (List.mem_of_mem_drop member)
  unfold recentMean
  apply div_le_of_le_mul₀ (Nat.cast_nonneg _) nonneg
  rw [nsmul_eq_mul, mul_comm] at total
  exact total

theorem recentMean_map_le
    {samples : List RawSample}
    {metric : RawSample → ℚ}
    {bound : ℚ}
    (nonneg : 0 ≤ bound)
    (bounded : ∀ raw ∈ samples, metric raw ≤ bound) :
    recentMean (samples.map metric) ≤ bound :=
  recentMean_le nonneg (List.forall_mem_map.mpr bounded)

/-! ## Waits -/

/-- The product that a wait is clamped to may have wrapped, which makes it only
smaller. -/
theorem clampWait_le (wait events limit : UInt64) :
    (clampWait wait events limit).toNat ≤ events.toNat * limit.toNat := by
  have product : (events * limit).toNat ≤ events.toNat * limit.toNat := by
    rw [UInt64.toNat_mul]
    exact Nat.mod_le _ _
  unfold clampWait
  split
  · exact product
  · next within =>
      exact (UInt64.le_iff_toNat_le.mp (UInt64.not_lt.mp within)).trans product

/-- An average wait is at most its limit, whatever wait and count were read. -/
theorem averageMs_clampWait_le (wait events limit : UInt64) :
    averageMs (clampWait wait events limit) events ≤ toQ limit / 1000000 := by
  have bounded : toQ (clampWait wait events limit) ≤ toQ events * toQ limit := by
    unfold toQ
    exact_mod_cast clampWait_le wait events limit
  unfold averageMs
  split
  · next both =>
      have positive := toQ_pos_iff.mpr both.1
      apply div_le_div_of_nonneg_right _ (by norm_num)
      rw [div_le_iff₀ positive, mul_comm]
      exact bounded
  · exact div_nonneg (toQ_nonneg limit) (by norm_num)

/-- The bound of a sample, where it has one. -/
structure BoundedWaits (raw : RawSample) : Prop where
  ioWaitMs : raw.ioWaitMs ≤ 30000
  rqWaitMs : raw.rqWaitMs ≤ 10000

theorem rawSample_boundedWaits
    (st : PidState)
    (hw : RawCounters)
    (readings : SlowReadings)
    (dt : ℚ) :
    BoundedWaits (rawSample st hw readings dt) where
  ioWaitMs := by
    have bounded := averageMs_clampWait_le (readings.ioWaitNs - st.prevIoWaitNs)
      (readings.io - st.prevIoCount) ioWaitMaxNs
    have word : toQ ioWaitMaxNs = 30000000000 := rfl
    have limit : toQ ioWaitMaxNs / 1000000 = 30000 := by
      rw [word]
      norm_num
    exact limit ▸ bounded
  rqWaitMs := by
    have bounded := averageMs_clampWait_le (readings.rqWaitNs - st.prevRqWaitNs)
      (readings.ctx - st.prevCtx) rqWaitMaxNs
    have word : toQ rqWaitMaxNs = 10000000000 := rfl
    have limit : toQ rqWaitMaxNs / 1000000 = 10000 := by
      rw [word]
      norm_num
    exact limit ▸ bounded

/-! ## Records -/

/-- The bounds of a published record. -/
structure BoundedMetrics (m : SmoothedMetrics) : Prop where
  nonneg : ∀ metric ∈ m.metrics, 0 ≤ metric
  ioWaitMs : m.smoothedIoWaitMs ≤ 30000
  rqWaitMs : m.smoothedRqWaitMs ≤ 10000

section

variable {log before after : List Event} {pid : Int} {prior : PidState}
variable {hw : RawCounters} {readings : SlowReadings} {dt : ℚ}
variable {metrics : SmoothedMetrics}

/-- The samples behind a new sample's metrics keep the bounds. -/
theorem extended_boundedWaits :
    ∀ raw ∈ samplesOf before pid ++ [rawSample prior hw readings dt],
      BoundedWaits raw := by
  intro raw member
  rcases List.mem_append.mp member with old | new
  · obtain ⟨oldPrior, oldHw, oldReadings, oldDt, -, -, rfl⟩ := exists_of_mem_samplesOf old
    exact rawSample_boundedWaits oldPrior oldHw oldReadings oldDt
  · rw [List.mem_singleton.mp new]
    exact rawSample_boundedWaits prior hw readings dt

/-- So do the metrics. -/
theorem boundedMetrics_of_sampled
    (lawful : EachEvent windowsLaw.eventLaw log)
    (split : log = before ++ .sampled pid prior hw readings dt metrics :: after) :
    BoundedMetrics metrics := by
  obtain ⟨-, means⟩ := metrics_eq_recentMeans lawful split
  have bounded : ∀ raw ∈ samplesOf before pid ++ [rawSample prior hw readings dt],
      BoundedWaits raw :=
    extended_boundedWaits
  refine ⟨?_, ?_, ?_⟩
  · rw [means]
    intro metric member
    obtain ⟨field, listed, rfl⟩ := List.mem_map.mp member
    exact recentMean_nonneg (extended_nonneg lawful split listed)
  · have mean : metrics.smoothedIoWaitMs = recentMean
        ((samplesOf before pid ++ [rawSample prior hw readings dt]).map
          RawSample.ioWaitMs) :=
      Option.some.inj (congrArg (fun list : List ℚ => list[4]?) means)
    rw [mean]
    exact recentMean_map_le (by norm_num) fun raw member => (bounded raw member).ioWaitMs
  · have mean : metrics.smoothedRqWaitMs = recentMean
        ((samplesOf before pid ++ [rawSample prior hw readings dt]).map
          RawSample.rqWaitMs) :=
      Option.some.inj (congrArg (fun list : List ℚ => list[5]?) means)
    rw [mean]
    exact recentMean_map_le (by norm_num) fun raw member => (bounded raw member).rqWaitMs

end

/-- In every run, whatever the counters read and however they wrapped, each
published record has eight nonnegative metrics, an average wait for I/O of at
most 30 s and one on the run queue of at most 10 s. -/
theorem runSamplingLoop_boundedMetrics
    (qsort : Qsort)
    (cfg : DaemonConfig)
    (start : UInt64)
    (envs : List TickEnv)
    (ring : Ring)
    (m : SmoothedMetrics)
    (published :
      .pushed ring m ∈ (runSamplingLoop qsort cfg start envs).world.log) :
    (∀ metric ∈ m.metrics, 0 ≤ metric) ∧
      m.smoothedIoWaitMs ≤ 30000 ∧ m.smoothedRqWaitMs ≤ 10000 := by
  have pushes := (runSamplingLoop_lawful (publishingLaw cfg) qsort start envs).governed.laws
  have windows := windowsLaw.eventLaw_run qsort cfg start envs
  generalize (runSamplingLoop qsort cfg start envs).world.log = log at *
  obtain ⟨before, after, prior, hw, readings, dt, sample, place, equal, -⟩ :=
    exists_sampled_of_pushed pushes published
  obtain ⟨nonneg, ioWait, rqWait⟩ := boundedMetrics_of_sampled windows place
  rw [equal]
  exact ⟨nonneg, ioWait, rqWait⟩

/-- The record of a process that switched eight times in a second interval. -/
theorem runSamplingLoop_boundedMetrics_switched :
    ∃ m, .pushed .dashboard m ∈ (runSamplingLoop insertionQsort defaultConfig 0
        switchedTicks).world.log ∧
      m.smoothedCtxFreq = 20 ∧
      (∀ metric ∈ m.metrics, 0 ≤ metric) ∧
      m.smoothedIoWaitMs ≤ 30000 ∧ m.smoothedRqWaitMs ≤ 10000 := by
  have published : .pushed .dashboard
      { SmoothedMetrics.zero with
        pid := 1000, cpuId := -1, hwPmuAvailable := 1, timestampNs := 200000001,
        smoothedCtxFreq := 20 } ∈
      (runSamplingLoop insertionQsort defaultConfig 0 switchedTicks).world.log := by
    decide +kernel
  exact ⟨_, published, rfl, runSamplingLoop_boundedMetrics insertionQsort
    defaultConfig 0 switchedTicks .dashboard _ published⟩

end Schedmon
