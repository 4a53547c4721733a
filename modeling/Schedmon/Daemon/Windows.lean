import Schedmon.Daemon.PassLaw

/-!
# What the windows hold

The windows of a slot represent the samples of its pid since it was last added,
and a published metric is the mean of the samples its window covers.
-/

namespace Schedmon

open Library EventLog

/-- The eight samples of an interval, as functions of it. -/
def RawSample.fields : List (RawSample → ℚ) :=
  [RawSample.ipc, RawSample.llcRate, RawSample.ctxFreq, RawSample.ioFreq,
    RawSample.ioWaitMs, RawSample.rqWaitMs, RawSample.migrationFreq,
    RawSample.ioSyscallFreq]

/-- The eight metrics of a record, in the same order. -/
def SmoothedMetrics.metrics (m : SmoothedMetrics) : List ℚ :=
  [m.smoothedIpc, m.smoothedLlcMiss, m.smoothedCtxFreq, m.smoothedIoFreq,
    m.smoothedIoWaitMs, m.smoothedRqWaitMs, m.smoothedMigrationFreq,
    m.smoothedIoSyscallFreq]

theorem smIsActive_iff (m : SmoothedMetrics) :
    smIsActive m = true ↔ ∃ metric ∈ m.metrics, 0 < metric := by
  simp [smIsActive, SmoothedMetrics.metrics, or_assoc]

/-! ## The windows represent the samples -/

/-- Each window represents its part of the samples. -/
def SlotRecord.RepresentSamples (r : SlotRecord) (samples : List RawSample) : Prop :=
  List.Forall₂ (fun window field => window.Represents (samples.map field))
    r.windows RawSample.fields

theorem freshRecord_representSamples (pid : Int) (readings : AddReadings) :
    (freshRecord pid readings).RepresentSamples [] := by
  simp [SlotRecord.RepresentSamples, SlotRecord.windows, RawSample.fields,
    freshRecord, swInit_represents]

theorem SlotRecord.RepresentSamples.push
    {r : SlotRecord}
    {samples : List RawSample}
    (represent : r.RepresentSamples samples)
    (raw : RawSample) :
    (pushSample r raw).RepresentSamples (samples ++ [raw]) := by
  unfold SlotRecord.RepresentSamples at represent ⊢
  simp only [SlotRecord.windows, RawSample.fields, List.forall₂_cons,
    List.Forall₂.nil, and_true, pushSample, List.map_append, List.map_cons,
    List.map_nil] at represent ⊢
  obtain ⟨ipc, llc, ctx, io, ioWait, rqWait, migration, ioSyscall⟩ := represent
  exact ⟨ipc.push _, llc.push _, ctx.push _, io.push _, ioWait.push _,
    rqWait.push _, migration.push _, ioSyscall.push _⟩

theorem SlotRecord.RepresentSamples.smoothed_metrics
    {r : SlotRecord}
    {samples : List RawSample}
    (represent : r.RepresentSamples samples) :
    (smoothed r).metrics =
      RawSample.fields.map fun field => recentMean (samples.map field) := by
  unfold SlotRecord.RepresentSamples at represent
  simp only [SlotRecord.windows, RawSample.fields, List.forall₂_cons,
    List.Forall₂.nil, and_true] at represent
  obtain ⟨ipc, llc, ctx, io, ioWait, rqWait, migration, ioSyscall⟩ := represent
  simp only [SmoothedMetrics.metrics, smoothed, RawSample.fields, List.map_cons,
    List.map_nil, ipc.mean_eq, llc.mean_eq, ctx.mean_eq, io.mean_eq,
    ioWait.mean_eq, rqWait.mean_eq, migration.mean_eq, ioSyscall.mean_eq]

/-- The windows always represent the samples, so that a sample's metrics are
the means over the samples the windows cover. -/
def windowsLaw : PassLaw (List RawSample) where
  initial := []
  onAdded := fun _ => []
  onReset := fun _ samples => samples
  onSample := fun prior hw readings dt samples =>
    samples ++ [rawSample prior hw readings dt]
  holds := fun samples r => r.RepresentSamples samples
  law := fun samples prior hw readings dt metrics =>
    metrics.metrics = RawSample.fields.map fun field =>
      recentMean ((samples ++ [rawSample prior hw readings dt]).map field)
  alike := by
    intro samples r other same holds
    unfold SlotRecord.RepresentSamples
    rw [same.1]
    exact holds
  added := freshRecord_representSamples
  reset := fun _ _ _ _ _ holds => holds
  sample := by
    intro samples r hw readings dt _ _ _ holds
    have pushed : (resampled r hw readings dt).RepresentSamples
        (samples ++ [rawSample r.state hw readings dt]) := holds.push _
    exact ⟨pushed.smoothed_metrics, pushed⟩

/-- The samples of a pid since it was last added, oldest first. -/
def samplesOf (log : List Event) (pid : Int) : List RawSample :=
  windowsLaw.observed log pid

/-! ## Activity -/

/-- Whether an interval has anything to show: some counter advanced, some wait
was completed, or the CPU changed. -/
def activeInterval (st : PidState) (hw : RawCounters) (readings : SlowReadings) :
    Bool :=
  let io := procIoStep st readings
  let dIoForWait := readings.io - st.prevIoCount
  let dIoWaitNs := readings.ioWaitNs - st.prevIoWaitNs
  (hw.cycles - st.prevCycles > 0 && hw.instructions - st.prevInstructions > 0)
    || readings.ctx - st.prevCtx > 0
    || byteDelta io.curIoProc io.state.prevIoProc > 0
    || (dIoForWait > 0 && clampWait dIoWaitNs dIoForWait ioWaitMaxNs > 0)
    || countMigration st readings.lastCpu > 0
    || byteDelta io.curIoSyscall io.state.prevIoSyscall > 0

theorem toQ_nonneg (value : UInt64) : 0 ≤ toQ value := by
  unfold toQ
  positivity

theorem toQ_pos_iff {value : UInt64} : 0 < toQ value ↔ value > 0 := by
  unfold toQ
  rw [Nat.cast_pos, gt_iff_lt, UInt64.lt_iff_toNat_lt]
  rfl

theorem perSecond_pos_iff {amount dt : ℚ} (positive : 0 < dt) :
    0 < perSecond amount dt ↔ 0 < amount := by
  unfold perSecond
  rw [if_pos positive, div_pos_iff_of_pos_right positive]

theorem perSecond_nonneg {amount dt : ℚ} (nonneg : 0 ≤ amount) :
    0 ≤ perSecond amount dt := by
  unfold perSecond
  split
  · next positive => exact div_nonneg nonneg positive.le
  · exact le_refl 0

theorem averageMs_nonneg (wait events : UInt64) : 0 ≤ averageMs wait events := by
  unfold averageMs
  split
  · have := toQ_nonneg wait
    have := toQ_nonneg events
    positivity
  · exact le_refl 0

theorem averageMs_pos_iff {wait events : UInt64} :
    0 < averageMs wait events ↔ events > 0 ∧ wait > 0 := by
  unfold averageMs
  split
  · next both =>
      have := toQ_pos_iff.mpr both.1
      have := toQ_pos_iff.mpr both.2
      simp only [both, and_self, iff_true]
      positivity
  · next neither => simp [neither]

theorem ratio_pos {numerator denominator : UInt64} :
    0 < toQ numerator / toQ denominator ↔ numerator > 0 ∧ denominator > 0 := by
  rw [← toQ_pos_iff, ← toQ_pos_iff]
  constructor
  · intro positive
    have nonneg := toQ_nonneg denominator
    rcases nonneg.lt_or_eq with larger | zero
    · exact ⟨(div_pos_iff_of_pos_right larger).mp positive, larger⟩
    · rw [← zero, div_zero] at positive
      exact absurd positive (lt_irrefl 0)
  · rintro ⟨above, below⟩
    exact div_pos above below

/-- No sample is negative. -/
theorem rawSample_nonneg
    (st : PidState)
    (hw : RawCounters)
    (readings : SlowReadings)
    {dt : ℚ}
    (positive : 0 < dt) :
    ∀ field ∈ RawSample.fields, 0 ≤ field (rawSample st hw readings dt) := by
  have ratio (numerator denominator : UInt64) :
      0 ≤ toQ numerator / toQ denominator :=
    div_nonneg (toQ_nonneg _) (toQ_nonneg _)
  intro field member
  simp only [RawSample.fields, List.mem_cons, List.not_mem_nil, or_false] at member
  rcases member with rfl | rfl | rfl | rfl | rfl | rfl | rfl | rfl <;>
    simp only [rawSample]
  · split
    · exact ratio _ _
    · exact le_refl 0
  · split
    · exact ratio _ _
    · exact le_refl 0
  · exact div_nonneg (toQ_nonneg _) positive.le
  · exact perSecond_nonneg (toQ_nonneg _)
  · exact averageMs_nonneg _ _
  · exact averageMs_nonneg _ _
  · exact perSecond_nonneg (Nat.cast_nonneg _)
  · exact perSecond_nonneg (toQ_nonneg _)

/-- An interval has a positive sample exactly when it is active. -/
theorem rawSample_pos_iff
    (st : PidState)
    (hw : RawCounters)
    (readings : SlowReadings)
    {dt : ℚ}
    (positive : 0 < dt) :
    (∃ field ∈ RawSample.fields, 0 < field (rawSample st hw readings dt)) ↔
      activeInterval st hw readings = true := by
  have ctx : 0 < toQ (readings.ctx - st.prevCtx) / dt ↔
      readings.ctx - st.prevCtx > 0 := by
    rw [div_pos_iff_of_pos_right positive, toQ_pos_iff]
  have guarded {condition : Prop} [Decidable condition] {value : ℚ} :
      0 < (if condition then value else 0) ↔ condition ∧ 0 < value := by
    split <;> simp [*]
  simp only [RawSample.fields, List.mem_cons, List.not_mem_nil, or_false,
    exists_eq_or_imp, exists_eq_left, rawSample, guarded, ratio_pos, ctx,
    perSecond_pos_iff positive, averageMs_pos_iff, toQ_pos_iff, Nat.cast_pos]
  simp only [activeInterval, Bool.or_eq_true, Bool.and_eq_true, decide_eq_true_eq,
    or_assoc]
  constructor
  · rintro (⟨cycles, instr, _⟩ | ⟨⟨cycles, instr⟩, _⟩ | switched | bytes | waited |
      ⟨switched, _⟩ | migrated | syscalls)
    · exact .inl ⟨cycles, instr⟩
    · exact .inl ⟨cycles, instr⟩
    · exact .inr (.inl switched)
    · exact .inr (.inr (.inl bytes))
    · exact .inr (.inr (.inr (.inl waited)))
    · exact .inr (.inl switched)
    · exact .inr (.inr (.inr (.inr (.inl migrated))))
    · exact .inr (.inr (.inr (.inr (.inr syscalls))))
  · rintro (⟨cycles, instr⟩ | switched | bytes | waited | migrated | syscalls)
    · exact .inl ⟨cycles, instr, cycles⟩
    · exact .inr (.inr (.inl switched))
    · exact .inr (.inr (.inr (.inl bytes)))
    · exact .inr (.inr (.inr (.inr (.inl waited))))
    · exact .inr (.inr (.inr (.inr (.inr (.inr (.inl migrated))))))
    · exact .inr (.inr (.inr (.inr (.inr (.inr (.inr syscalls))))))

/-- Whether an event is a sample of an active interval. -/
def Event.isActiveInterval : Event → Bool
  | .sampled _ prior hw readings _ _ => activeInterval prior hw readings
  | _ => false

/-- Every sample of a pid comes from a sampling event in the log. -/
theorem exists_of_mem_samplesOf
    {log : List Event}
    {pid : Int}
    {raw : RawSample}
    (member : raw ∈ samplesOf log pid) :
    ∃ prior hw readings dt metrics,
      .sampled pid prior hw readings dt metrics ∈ log ∧
        raw = rawSample prior hw readings dt := by
  induction log using List.reverseRecOn with
  | nil => exact absurd member List.not_mem_nil
  | append_singleton log e inductionHypothesis =>
      have earlier (old : raw ∈ samplesOf log pid) :
          ∃ prior hw readings dt metrics,
            .sampled pid prior hw readings dt metrics ∈ log ++ [e] ∧
              raw = rawSample prior hw readings dt := by
        obtain ⟨prior, hw, readings, dt, metrics, inside, equal⟩ :=
          inductionHypothesis old
        exact ⟨prior, hw, readings, dt, metrics, List.mem_append_left _ inside, equal⟩
      unfold samplesOf at member earlier
      rw [PassLaw.observed_snoc] at member
      cases e with
      | added other readings =>
          simp only [PassLaw.observe] at member
          split at member
          · exact absurd member List.not_mem_nil
          · exact earlier member
      | rebased other readings =>
          simp only [PassLaw.observe] at member
          split at member <;> exact earlier member
      | sampled other prior hw readings dt metrics =>
          simp only [PassLaw.observe] at member
          split at member
          · next same =>
              subst same
              rcases List.mem_append.mp member with old | new
              · exact earlier old
              · exact ⟨prior, hw, readings, dt, metrics,
                  List.mem_append_right _ List.mem_cons_self,
                  List.mem_singleton.mp new⟩
          · exact earlier member
      | _ => exact earlier member

section

variable {log before after : List Event} {pid : Int} {prior : PidState}
variable {hw : RawCounters} {readings : SlowReadings} {dt : ℚ}
variable {metrics : SmoothedMetrics}

/-- A sample's metrics are the means over the samples its windows cover. -/
theorem metrics_eq_recentMeans
    (lawful : EachEvent windowsLaw.eventLaw log)
    (split : log = before ++ .sampled pid prior hw readings dt metrics :: after) :
    0 < dt ∧ metrics.metrics = RawSample.fields.map fun field =>
      recentMean ((samplesOf before pid ++ [rawSample prior hw readings dt]).map
        field) :=
  lawful before _ after split

theorem dt_pos_of_mem
    (lawful : EachEvent windowsLaw.eventLaw log)
    (member : .sampled pid prior hw readings dt metrics ∈ log) :
    0 < dt := by
  obtain ⟨before, after, split⟩ := List.append_of_mem member
  have law := lawful before _ after split
  exact law.1

/-- The samples that a new sample's windows may cover are in the log. -/
theorem exists_sampled_of_mem_extended
    (split : log = before ++ .sampled pid prior hw readings dt metrics :: after)
    {raw : RawSample}
    (inside : raw ∈ samplesOf before pid ++ [rawSample prior hw readings dt]) :
    ∃ prior hw readings dt metrics,
      .sampled pid prior hw readings dt metrics ∈ log ∧
        raw = rawSample prior hw readings dt := by
  rcases List.mem_append.mp inside with old | new
  · obtain ⟨prior, hw, readings, dt, metrics, logged, equal⟩ :=
      exists_of_mem_samplesOf old
    refine ⟨prior, hw, readings, dt, metrics, ?_, equal⟩
    rw [split]
    exact List.mem_append_left _ logged
  · refine ⟨prior, hw, readings, dt, metrics, ?_, List.mem_singleton.mp new⟩
    rw [split]
    exact List.mem_append_right _ List.mem_cons_self

/-- The samples that a new sample's windows may cover: all nonnegative. -/
theorem extended_nonneg
    (lawful : EachEvent windowsLaw.eventLaw log)
    (split : log = before ++ .sampled pid prior hw readings dt metrics :: after)
    {field : RawSample → ℚ}
    (listed : field ∈ RawSample.fields) :
    ∀ sample ∈ (samplesOf before pid ++ [rawSample prior hw readings dt]).map field,
      0 ≤ sample := by
  intro sample member
  obtain ⟨raw, inside, rfl⟩ := List.mem_map.mp member
  obtain ⟨prior, hw, readings, dt, metrics, logged, rfl⟩ :=
    exists_sampled_of_mem_extended split inside
  exact rawSample_nonneg prior hw readings (dt_pos_of_mem lawful logged) field
    listed

/-- An active interval makes its sample's metrics active. -/
theorem metrics_active_of_interval
    (lawful : EachEvent windowsLaw.eventLaw log)
    (split : log = before ++ .sampled pid prior hw readings dt metrics :: after)
    (active : activeInterval prior hw readings = true) :
    smIsActive metrics = true := by
  obtain ⟨positive, means⟩ := metrics_eq_recentMeans lawful split
  obtain ⟨field, listed, larger⟩ :=
    (rawSample_pos_iff prior hw readings positive).mpr active
  rw [smIsActive_iff, means]
  refine ⟨_, List.mem_map_of_mem listed, ?_⟩
  rw [recentMean_pos_iff (extended_nonneg lawful split listed)]
  refine ⟨field (rawSample prior hw readings dt), ?_, larger⟩
  rw [List.map_append]
  exact mem_recent_append _ _

/-- Active metrics come from an active interval that a window still covers. -/
theorem exists_active_of_metrics
    (lawful : EachEvent windowsLaw.eventLaw log)
    (split : log = before ++ .sampled pid prior hw readings dt metrics :: after)
    (active : smIsActive metrics = true) :
    ∃ e ∈ log, e.isActiveInterval = true := by
  obtain ⟨-, means⟩ := metrics_eq_recentMeans lawful split
  rw [smIsActive_iff, means] at active
  obtain ⟨metric, member, larger⟩ := active
  obtain ⟨field, listed, rfl⟩ := List.mem_map.mp member
  rw [recentMean_pos_iff (extended_nonneg lawful split listed)] at larger
  obtain ⟨sample, covered, larger⟩ := larger
  obtain ⟨raw, inside, rfl⟩ := List.mem_map.mp (List.mem_of_mem_drop covered)
  obtain ⟨prior, hw, readings, dt, metrics, logged, rfl⟩ :=
    exists_sampled_of_mem_extended split inside
  exact ⟨_, logged, (rawSample_pos_iff prior hw readings
    (dt_pos_of_mem lawful logged)).mp ⟨field, listed, larger⟩⟩

end

end Schedmon
