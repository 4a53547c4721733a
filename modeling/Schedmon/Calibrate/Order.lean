import Schedmon.Recovery

/-!
# The order of the ipc thresholds

The classifier reads its ipc thresholds as three bounds on one scale: below the
first a process idles, below the second it may be bound by memory, and above the
third it computes.  The idle threshold is capped against the memory threshold,
which may be lowered after that, and is not capped at all when the idle workload
was skipped.
-/

namespace Schedmon

open Library.Rounding

/-- The idle, memory and CPU regions of the ipc lie in that order. -/
def Thresholds.IpcOrdered (t : Thresholds) : Prop :=
  0 ≤ t.ipcIdleThreshold ∧ t.ipcIdleThreshold ≤ t.ipcMemThreshold ∧
    t.ipcMemThreshold ≤ t.ipcCpuThreshold

/-! ## The thresholds derived from statistics that are not negative -/

theorem thresholdBetween_nonneg
    {lo hi : Summary}
    (lo_nonneg : lo.Nonnegative)
    {overlapping : ℚ}
    (overlapping_nonneg : 0 ≤ overlapping) :
    0 ≤ thresholdBetween lo hi overlapping := by
  by_cases separated : lo.p90 < hi.p10
  · have least := (thresholdBetween_mem separated overlapping).1
    have p90_nonneg := lo_nonneg.2.2.2
    linarith
  · rw [thresholdBetween, if_neg separated]
    exact overlapping_nonneg

/-- Without calibration the CPU threshold is at least the ceiling of the cores
that issue little. -/
theorem le_hwIpcCpuFallback
    (cores : ℤ)
    (isNarrowIssueCpu : Bool) :
    1 / 2 ≤ hwIpcCpuFallback cores isNarrowIssueCpu := by
  have extraCores : (0 : ℚ) ≤ (max 0 (cores - 2) : ℤ) := by
    exact_mod_cast le_max_left 0 (cores - 2)
  unfold hwIpcCpuFallback
  split
  · exact le_rfl
  · refine le_min ?_ (by norm_num)
    linarith

section Nonnegative

variable
  {cpuStats memStats idleStats : Option WorkloadStats}
  (cpu_nonneg : ∀ stats ∈ cpuStats, stats.Nonnegative)
  (mem_nonneg : ∀ stats ∈ memStats, stats.Nonnegative)
  (idle_nonneg : ∀ stats ∈ idleStats, stats.Nonnegative)

include cpu_nonneg mem_nonneg in
theorem ipcCpuThresh_nonneg
    (cores : ℤ)
    (isNarrowIssueCpu : Bool) :
    0 ≤ ipcCpuThresh cpuStats memStats cores isNarrowIssueCpu := by
  have fallback := le_hwIpcCpuFallback cores isNarrowIssueCpu
  cases cpuStats with
  | none => exact le_trans (by norm_num) fallback
  | some cpu =>
    cases memStats with
    | none => exact le_trans (by norm_num) fallback
    | some mem =>
      have cpuIpc := (cpu_nonneg cpu rfl).1
      have memIpc := (mem_nonneg mem rfl).1
      refine thresholdBetween_nonneg memIpc ?_
      have cpuMean := cpuIpc.1
      have memMean := memIpc.1
      linarith

include mem_nonneg idle_nonneg in
theorem ipcMemThresh_nonneg : 0 ≤ ipcMemThresh memStats idleStats := by
  cases memStats with
  | none => norm_num [ipcMemThresh]
  | some mem =>
    have scaledMean : 0 ≤ mem.ipc.mean * (7 / 10) :=
      mul_nonneg (mem_nonneg mem rfl).1.1 (by norm_num)
    cases idleStats with
    | none => exact scaledMean
    | some idle => exact thresholdBetween_nonneg (idle_nonneg idle rfl).1 scaledMean

include idle_nonneg in
theorem ipcIdleThresh_nonneg
    {ipcMem : ℚ}
    (ipcMem_nonneg : 0 ≤ ipcMem) :
    0 ≤ ipcIdleThresh idleStats ipcMem := by
  cases idleStats with
  | none => norm_num [ipcIdleThresh]
  | some idle =>
    have idleIpc := (idle_nonneg idle rfl).1
    have stdev_nonneg := idleIpc.2.1
    have p90_nonneg := idleIpc.2.2.2
    refine le_min ?_ ?_ <;> linarith

end Nonnegative

/-! ## The memory threshold after it is lowered -/

/-- The memory threshold that is reported: seven tenths of the CPU threshold
where the two would meet. -/
def clampedIpcMem (ipcCpu ipcMem : ℚ) : ℚ :=
  if ipcMem ≥ ipcCpu then ipcCpu * (7 / 10) else ipcMem

theorem clampedIpcMem_of_lt
    {ipcCpu ipcMem : ℚ}
    (below : ipcMem < ipcCpu) :
    clampedIpcMem ipcCpu ipcMem = ipcMem :=
  if_neg (not_le.mpr below)

theorem clampedIpcMem_of_le
    {ipcCpu ipcMem : ℚ}
    (reached : ipcCpu ≤ ipcMem) :
    clampedIpcMem ipcCpu ipcMem = ipcCpu * (7 / 10) :=
  if_pos reached

theorem clampedIpcMem_le
    {ipcCpu : ℚ}
    (ipcCpu_nonneg : 0 ≤ ipcCpu)
    (ipcMem : ℚ) :
    clampedIpcMem ipcCpu ipcMem ≤ ipcCpu := by
  rcases lt_or_ge ipcMem ipcCpu with below | reached
  · rw [clampedIpcMem_of_lt below]
    exact below.le
  · rw [clampedIpcMem_of_le reached]
    linarith

/-! ## The guarded midpoint in statistics -/

/-- Six tenths of the gap above the lower distribution, and up to two tenths more
where the two deviate. -/
def Summary.guarded (lo hi : Summary) : ℚ :=
  lo.p90 + (hi.p10 - lo.p90) * (6 / 10) +
    min ((lo.stdev + hi.stdev) / 10) ((hi.p10 - lo.p90) / 5)

theorem adaptiveGuardFrac_shift
    {gap loStdev hiStdev : ℚ}
    (gap_pos : 0 < gap)
    (lo_nonneg : 0 ≤ loStdev)
    (hi_nonneg : 0 ≤ hiStdev) :
    gap * adaptiveGuardFrac gap loStdev hiStdev =
      gap * (1 / 10) + min ((loStdev + hiStdev) / 10) (gap / 5) := by
  unfold adaptiveGuardFrac
  dsimp only
  rw [if_neg (not_le.mpr gap_pos)]
  split
  · next steady =>
    have none : loStdev + hiStdev = 0 := by linarith
    rw [none, zero_div, min_eq_left (by positivity), add_zero]
  · next noisy =>
    have noise : 0 ≤ (loStdev + hiStdev) / 2 / gap := by positivity
    have ratio : 0 ≤ min ((loStdev + hiStdev) / 2 / gap) 1 := le_min noise zero_le_one
    have most := min_le_right ((loStdev + hiStdev) / 2 / gap) 1
    rw [min_eq_left (by linarith), max_eq_right (by linarith), mul_add,
      add_right_inj, ← mul_assoc, mul_min_of_nonneg _ _ gap_pos.le, mul_one,
      mul_div_cancel₀ _ gap_pos.ne', min_mul_of_nonneg _ _ (by norm_num)]
    congr 1 <;> ring

theorem thresholdBetween_eq_guarded
    {lo hi : Summary}
    (apart : lo.p90 < hi.p10)
    (lo_nonneg : lo.Nonnegative)
    (hi_nonneg : hi.Nonnegative)
    (overlapping : ℚ) :
    thresholdBetween lo hi overlapping = lo.guarded hi := by
  have shift := adaptiveGuardFrac_shift (sub_pos.mpr apart) lo_nonneg.2.1 hi_nonneg.2.1
  rw [thresholdBetween, if_pos apart]
  simp only [midpointWithGuard]
  rw [shift]
  unfold Summary.guarded
  ring

theorem thresholdBetween_of_overlap
    {lo hi : Summary}
    (overlap : hi.p10 ≤ lo.p90)
    (overlapping : ℚ) :
    thresholdBetween lo hi overlapping = overlapping :=
  if_neg (not_lt.mpr overlap)

/-- The guarded midpoint lies inside the gap. -/
theorem Summary.guarded_mem
    {lo hi : Summary}
    (apart : lo.p90 < hi.p10)
    (lo_nonneg : lo.Nonnegative)
    (hi_nonneg : hi.Nonnegative) :
    lo.p90 ≤ lo.guarded hi ∧ lo.guarded hi ≤ hi.p10 := by
  obtain ⟨least, most⟩ := thresholdBetween_mem apart 0
  rw [thresholdBetween_eq_guarded apart lo_nonneg hi_nonneg] at least most
  constructor <;> linarith

/-! ## When the three thresholds are in order -/

/-- One of the two bounds of the idle threshold is at most the level left for
memory, in four digits. -/
def Summary.IdleFits (idle : Summary) (halfMem level : ℚ) : Prop :=
  toDigits 4 (idle.p90 + 2 * idle.stdev) ≤ toDigits 4 level ∨
    toDigits 4 halfMem ≤ toDigits 4 level

/-- There is room for a measured idle workload.  Where all three workloads are
apart, or both pairs overlap, there always is. -/
def MeasuredIdleRoom
    (cpuStats : Option WorkloadStats)
    (mem idle : Summary)
    (cores : ℤ)
    (isNarrowIssueCpu : Bool) : Prop :=
  match cpuStats with
  | none =>
      idle.IdleFits
        (if idle.p90 < mem.p10 then idle.guarded mem / 2 else mem.mean * (35 / 100))
        (hwIpcCpuFallback cores isNarrowIssueCpu * (7 / 10))
  | some cpu =>
      if mem.p90 < cpu.ipc.p10 then
        idle.p90 < mem.p10 ∨
          idle.IdleFits (mem.mean * (35 / 100)) (mem.guarded cpu.ipc * (7 / 10))
      else
        mem.p10 ≤ idle.p90 ∨
          idle.IdleFits (idle.guarded mem / 2) ((cpu.ipc.mean + mem.mean) * (35 / 100))

/-- There is room for the five hundredths of a skipped idle workload: seven
tenths of the memory mean reach them, and so does what the CPU workload leaves. -/
def SkippedIdleRoom (cpuStats : Option WorkloadStats) (mem : Summary) : Prop :=
  999 / 14000 ≤ mem.mean ∧
    match cpuStats with
    | none => True
    | some cpu =>
        if mem.p90 < cpu.ipc.p10 then
          mem.mean * (7 / 10) < mem.guarded cpu.ipc ∨ 999 / 14000 ≤ mem.guarded cpu.ipc
        else
          mem.mean * (4 / 10) < cpu.ipc.mean ∨ 999 / 7000 ≤ cpu.ipc.mean + mem.mean

/-- There is room for the idle threshold below the memory threshold. -/
def IdleRoom
    (cpuStats memStats idleStats : Option WorkloadStats)
    (cores : ℤ)
    (isNarrowIssueCpu : Bool) : Prop :=
  match memStats, idleStats with
  | none, _ => True
  | some mem, some idle =>
      MeasuredIdleRoom cpuStats mem.ipc idle.ipc cores isNarrowIssueCpu
  | some mem, none => SkippedIdleRoom cpuStats mem.ipc

/-- The fallback of five hundredths is reached from half a unit below. -/
theorem fallback_le_toDigits_iff (x : ℚ) :
    toDigits 4 (5 / 100) ≤ toDigits 4 x ↔ 4995 / 100000 ≤ x := by
  have whole : toDigits 4 (5 / 100 : ℚ) = 5 / 100 :=
    toDigits_of_eq_int (n := 500) (by norm_num)
  have reached := le_toDigits_iff 4 (n := 500) (by norm_num) (x := x)
  norm_num [halfUnit] at reached
  rw [whole]
  norm_num
  exact reached

/-- A minimum is rounded to at most what one of its two bounds is. -/
theorem toDigits_min_le_iff
    (digits : ℕ)
    (x y z : ℚ) :
    toDigits digits (min x y) ≤ toDigits digits z ↔
      toDigits digits x ≤ toDigits digits z ∨
        toDigits digits y ≤ toDigits digits z := by
  rw [(toDigits_mono digits).map_min, min_le_iff]

/-- The idle threshold of a measured idle workload stays below the memory
threshold where one of its two bounds is at most seven tenths of the CPU
threshold.  Below the CPU threshold half of the memory threshold always is. -/
theorem measuredIdle_le_iff
    (idle : WorkloadStats)
    {ipcCpu ipcMem : ℚ}
    (ipcMem_nonneg : 0 ≤ ipcMem) :
    toDigits 4 (ipcIdleThresh (some idle) ipcMem) ≤
        toDigits 4 (clampedIpcMem ipcCpu ipcMem) ↔
      idle.ipc.IdleFits (ipcMem * (1 / 2)) (ipcCpu * (7 / 10)) := by
  rcases lt_or_ge ipcMem ipcCpu with below | reached
  · rw [clampedIpcMem_of_lt below]
    refine iff_of_true (toDigits_mono 4 ?_) (.inr (toDigits_mono 4 ?_))
    · calc ipcIdleThresh (some idle) ipcMem
          ≤ ipcMem * (1 / 2) := min_le_right _ _
        _ ≤ ipcMem := by linarith
    · linarith
  · rw [clampedIpcMem_of_le reached]
    exact toDigits_min_le_iff 4 _ _ _

/-- Half of the memory threshold in statistics. -/
theorem half_ipcMemThresh
    {mem idle : WorkloadStats}
    (mem_nonneg : mem.ipc.Nonnegative)
    (idle_nonneg : idle.ipc.Nonnegative) :
    ipcMemThresh (some mem) (some idle) * (1 / 2) =
      if idle.ipc.p90 < mem.ipc.p10 then idle.ipc.guarded mem.ipc / 2
      else mem.ipc.mean * (35 / 100) := by
  unfold ipcMemThresh
  dsimp only
  split
  · next apart =>
    rw [thresholdBetween_eq_guarded apart idle_nonneg mem_nonneg]
    ring
  · next overlap =>
    rw [thresholdBetween_of_overlap (not_lt.mp overlap)]
    ring

/-- The two levels in statistics, for each pair of workloads apart or not. -/
theorem measuredIdleRoom_iff
    {cpuStats : Option WorkloadStats}
    {mem idle : WorkloadStats}
    (cpu_nonneg : ∀ stats ∈ cpuStats, stats.ipc.Nonnegative)
    (mem_nonneg : mem.ipc.Nonnegative)
    (mem_ordered : mem.ipc.p10 ≤ mem.ipc.p90)
    (idle_nonneg : idle.ipc.Nonnegative)
    (cores : ℤ)
    (isNarrowIssueCpu : Bool) :
    idle.ipc.IdleFits (ipcMemThresh (some mem) (some idle) * (1 / 2))
        (ipcCpuThresh cpuStats (some mem) cores isNarrowIssueCpu * (7 / 10)) ↔
      MeasuredIdleRoom cpuStats mem.ipc idle.ipc cores isNarrowIssueCpu := by
  rw [half_ipcMemThresh mem_nonneg idle_nonneg]
  cases cpuStats with
  | none => exact Iff.rfl
  | some cpu =>
    have cpuIpc := cpu_nonneg cpu rfl
    unfold MeasuredIdleRoom ipcCpuThresh
    dsimp only
    by_cases cpuApart : mem.ipc.p90 < cpu.ipc.p10
    · have cpuLevel := Summary.guarded_mem cpuApart mem_nonneg cpuIpc
      rw [thresholdBetween_eq_guarded cpuApart mem_nonneg cpuIpc, if_pos cpuApart]
      by_cases memApart : idle.ipc.p90 < mem.ipc.p10
      · have memLevel := Summary.guarded_mem memApart idle_nonneg mem_nonneg
        have p90_nonneg := mem_nonneg.2.2.2
        rw [if_pos memApart]
        refine iff_of_true (.inr (toDigits_mono 4 ?_)) (.inl memApart)
        linarith
      · rw [if_neg memApart, or_iff_right memApart]
    · have cpuLevel : (cpu.ipc.mean + mem.ipc.mean) / 2 * (7 / 10) =
          (cpu.ipc.mean + mem.ipc.mean) * (35 / 100) := by ring
      rw [thresholdBetween_of_overlap (not_lt.mp cpuApart), if_neg cpuApart, cpuLevel]
      by_cases memApart : idle.ipc.p90 < mem.ipc.p10
      · rw [if_pos memApart, or_iff_right (not_le.mpr memApart)]
      · have mean_nonneg := cpuIpc.1
        rw [if_neg memApart]
        refine iff_of_true (.inr (toDigits_mono 4 ?_)) (.inl (not_lt.mp memApart))
        linarith

/-- The fallback of a skipped idle workload stays below the memory threshold
when the level it is derived from, or lowered to, is large enough. -/
theorem skippedIdle_le_iff
    {ipcCpu mean : ℚ} :
    toDigits 4 (ipcIdleThresh none (mean * (7 / 10))) ≤
        toDigits 4 (clampedIpcMem ipcCpu (mean * (7 / 10))) ↔
      999 / 14000 ≤ mean ∧ (mean * (7 / 10) < ipcCpu ∨ 999 / 14000 ≤ ipcCpu) := by
  rw [ipcIdleThresh, fallback_le_toDigits_iff]
  rcases lt_or_ge (mean * (7 / 10)) ipcCpu with below | reached
  · rw [clampedIpcMem_of_lt below, and_iff_left (.inl below)]
    constructor <;> intro large <;> linarith
  · rw [clampedIpcMem_of_le reached, or_iff_right (not_lt.mpr reached)]
    constructor
    · intro large
      constructor <;> linarith
    · intro large
      linarith [large.2]

theorem skippedIdleRoom_iff
    {cpuStats : Option WorkloadStats}
    {mem : WorkloadStats}
    (cpu_nonneg : ∀ stats ∈ cpuStats, stats.ipc.Nonnegative)
    (mem_nonneg : mem.ipc.Nonnegative)
    (cores : ℤ)
    (isNarrowIssueCpu : Bool) :
    (999 / 14000 ≤ mem.ipc.mean ∧
        (mem.ipc.mean * (7 / 10) <
            ipcCpuThresh cpuStats (some mem) cores isNarrowIssueCpu ∨
          999 / 14000 ≤ ipcCpuThresh cpuStats (some mem) cores isNarrowIssueCpu)) ↔
      SkippedIdleRoom cpuStats mem.ipc := by
  unfold SkippedIdleRoom
  refine and_congr_right fun _ => ?_
  cases cpuStats with
  | none =>
    have fallback := le_hwIpcCpuFallback cores isNarrowIssueCpu
    exact iff_of_true (.inr (le_trans (by norm_num) fallback)) trivial
  | some cpu =>
    unfold ipcCpuThresh
    dsimp only
    by_cases apart : mem.ipc.p90 < cpu.ipc.p10
    · rw [thresholdBetween_eq_guarded apart mem_nonneg (cpu_nonneg cpu rfl),
        if_pos apart]
    · rw [thresholdBetween_of_overlap (not_lt.mp apart), if_neg apart]
      refine or_congr ?_ ?_
      · constructor <;> intro below <;> linarith
      · constructor <;> intro large <;> linarith

/-- Without a memory workload its threshold is four tenths, below any CPU
threshold and above the idle one. -/
theorem skippedMem_le
    (cpuStats idleStats : Option WorkloadStats)
    (cores : ℤ)
    (isNarrowIssueCpu : Bool) :
    toDigits 4 (ipcIdleThresh idleStats (ipcMemThresh none idleStats)) ≤
      toDigits 4 (clampedIpcMem
        (ipcCpuThresh cpuStats none cores isNarrowIssueCpu)
        (ipcMemThresh none idleStats)) := by
  have fallback := le_hwIpcCpuFallback cores isNarrowIssueCpu
  have cpuThresh : ipcCpuThresh cpuStats none cores isNarrowIssueCpu =
      hwIpcCpuFallback cores isNarrowIssueCpu := by
    cases cpuStats <;> rfl
  have below : ipcMemThresh none idleStats <
      ipcCpuThresh cpuStats none cores isNarrowIssueCpu := by
    rw [cpuThresh, ipcMemThresh]
    linarith
  rw [clampedIpcMem_of_lt below]
  apply toDigits_mono 4
  rw [ipcMemThresh]
  cases idleStats with
  | none => norm_num [ipcIdleThresh]
  | some idle => exact (min_le_right _ _).trans (by norm_num)

/-- The ipc thresholds are in order exactly when there is room for the idle
threshold below the memory threshold. -/
theorem deriveThresholds_ipcOrdered_iff
    (cpuStats memStats ioStats idleStats contentionStats : Option WorkloadStats)
    (cpu_nonneg : ∀ stats ∈ cpuStats, stats.Nonnegative)
    (mem_nonneg : ∀ stats ∈ memStats, stats.Nonnegative)
    (idle_nonneg : ∀ stats ∈ idleStats, stats.Nonnegative)
    (mem_ordered : ∀ stats ∈ memStats, stats.ipc.p10 ≤ stats.ipc.p90)
    (cores : ℤ)
    (ramGb : ℕ)
    (isNarrowIssueCpu : Bool) :
    (deriveThresholds cpuStats memStats ioStats idleStats contentionStats cores
        ramGb isNarrowIssueCpu).IpcOrdered ↔
      IdleRoom cpuStats memStats idleStats cores isNarrowIssueCpu := by
  have ipcCpu_nonneg :=
    ipcCpuThresh_nonneg cpu_nonneg mem_nonneg cores isNarrowIssueCpu
  have ipcMem_nonneg := ipcMemThresh_nonneg mem_nonneg idle_nonneg
  have ipcIdle_nonneg := ipcIdleThresh_nonneg idle_nonneg ipcMem_nonneg
  have idleRaised := max_eq_left ipcIdle_nonneg
  have idleNonneg := toDigits_nonneg 4 ipcIdle_nonneg
  have memBelow := toDigits_mono 4
    (clampedIpcMem_le ipcCpu_nonneg (ipcMemThresh memStats idleStats))
  simp only [Thresholds.IpcOrdered, deriveThresholds, idleRaised]
  rw [← clampedIpcMem, and_iff_right idleNonneg, and_iff_left memBelow]
  cases memStats with
  | none =>
    exact iff_of_true (skippedMem_le _ _ _ _) trivial
  | some mem =>
    have cpuIpc : ∀ stats ∈ cpuStats, stats.ipc.Nonnegative :=
      fun stats present => (cpu_nonneg stats present).1
    have memIpc := (mem_nonneg mem rfl).1
    cases idleStats with
    | none =>
      exact skippedIdle_le_iff.trans
        (skippedIdleRoom_iff cpuIpc memIpc cores isNarrowIssueCpu)
    | some idle =>
      exact (measuredIdle_le_iff idle ipcMem_nonneg).trans
        (measuredIdleRoom_iff cpuIpc memIpc (mem_ordered mem rfl)
          (idle_nonneg idle rfl).1 cores isNarrowIssueCpu)

/-- A workload whose metrics are zero but for a steady ipc. -/
def WorkloadStats.steadyIpc (level : ℚ) : WorkloadStats where
  ipc := Summary.steady level
  llc := Summary.steady 0
  ctx := Summary.steady 0
  ioWait := Summary.steady 0
  rqWait := Summary.steady 0

theorem WorkloadStats.steadyIpc_nonneg
    {level : ℚ}
    (nonnegative : 0 ≤ level) :
    (WorkloadStats.steadyIpc level).Nonnegative := by
  simp [WorkloadStats.Nonnegative, Summary.Nonnegative, steadyIpc,
    Summary.steady, nonnegative]

/-- Three workloads that are apart, measured on a machine with four cores. -/
theorem deriveThresholds_ipcOrdered_steady :
    (deriveThresholds (some (.steadyIpc 2)) (some (.steadyIpc (1 / 2))) none
        (some (.steadyIpc (1 / 10))) none 4 8 false).IpcOrdered ↔
      IdleRoom (some (.steadyIpc 2)) (some (.steadyIpc (1 / 2)))
        (some (.steadyIpc (1 / 10))) 4 false :=
  deriveThresholds_ipcOrdered_iff _ _ _ _ _
    (by rintro stats ⟨⟩; exact WorkloadStats.steadyIpc_nonneg (by norm_num))
    (by rintro stats ⟨⟩; exact WorkloadStats.steadyIpc_nonneg (by norm_num))
    (by rintro stats ⟨⟩; exact WorkloadStats.steadyIpc_nonneg (by norm_num))
    (by rintro stats ⟨⟩; exact le_rfl)
    4 8 false

/-- A memory workload at six hundredths of an instruction for each cycle and a
skipped idle one: idling is said to reach up to 0.05, memory only to 0.042. -/
theorem skippedIdle_reaches_beyond_mem :
    (WorkloadStats.steadyIpc (1 / 2)).Nonnegative ∧
      (WorkloadStats.steadyIpc (6 / 100)).Nonnegative ∧
      ¬ (deriveThresholds (some (.steadyIpc (1 / 2)))
        (some (.steadyIpc (6 / 100))) none none none 4 8 false).IpcOrdered := by
  refine ⟨WorkloadStats.steadyIpc_nonneg (by norm_num),
    WorkloadStats.steadyIpc_nonneg (by norm_num), ?_⟩
  rintro ⟨-, idle_le_mem, -⟩
  revert idle_le_mem
  decide +kernel

end Schedmon
