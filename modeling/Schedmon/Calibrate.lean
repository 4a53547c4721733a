import Mathlib.Data.Rat.Floor
import Schedmon.Library.Rounding

/-!
# Deriving the classifier thresholds

How calibration turns the summaries of the measured workloads into the seven
thresholds of the classifier.  The Python floats are exact rationals.  A
workload that was skipped, or gave no samples, has no summary.
-/

namespace Schedmon

/-- The summary of one metric of one workload. -/
structure Summary where
  mean : ℚ
  stdev : ℚ
  p10 : ℚ
  p90 : ℚ

/-- What `summarise` returns for one workload. -/
structure WorkloadStats where
  ipc : Summary
  llc : Summary
  ctx : Summary
  ioWait : Summary
  rqWait : Summary

/-- The thresholds under the keys of the configuration file. -/
structure Thresholds where
  ipcCpuThreshold : ℚ
  ipcMemThreshold : ℚ
  llcMemThreshold : ℚ
  ctxIoThreshold : ℚ
  ipcIdleThreshold : ℚ
  ioWaitBoundThreshold : ℚ
  rqWaitStarvedThreshold : ℚ

/-- `NARROW_ISSUE_IPC_CEILING`. -/
def narrowIssueIpcCeiling : ℚ := 1 / 2

/-- `hw_ipc_cpu_fallback`, given the verdict of `is_narrow_issue_cpu`. -/
def hwIpcCpuFallback (cores : ℤ) (isNarrowIssueCpu : Bool) : ℚ :=
  if isNarrowIssueCpu then narrowIssueIpcCeiling
  else min (12 / 10 + (max 0 (cores - 2) : ℤ) * (1333 / 10000)) 3

/-- `adaptive_guard_frac` with its default bounds. -/
def adaptiveGuardFrac (gap loStdev hiStdev : ℚ) : ℚ :=
  let base := 1 / 10
  let minFrac := 1 / 10
  let maxFrac := 3 / 10
  if gap ≤ 0 then base
  else
    let avgStdev := (loStdev + hiStdev) / 2
    if avgStdev ≤ 0 then base
    else
      let noiseRatio := avgStdev / gap
      let frac := base + min noiseRatio 1 * (maxFrac - base)
      max minFrac (min frac maxFrac)

/-- `midpoint_with_guard`. -/
def midpointWithGuard (loVal hiVal guardFrac : ℚ) : ℚ :=
  let mid := (loVal + hiVal) / 2
  let shift := (hiVal - loVal) * guardFrac
  mid + shift

/-- The branch shared by the thresholds that lie between two workloads: the
guarded midpoint of separated distributions, otherwise the given fallback. -/
def thresholdBetween (lo hi : Summary) (overlapping : ℚ) : ℚ :=
  if hi.p10 > lo.p90 then
    midpointWithGuard lo.p90 hi.p10
      (adaptiveGuardFrac (hi.p10 - lo.p90) lo.stdev hi.stdev)
  else overlapping

/-! ## The seven thresholds before the final clamps -/

/-- `ipc_cpu_thresh`. -/
def ipcCpuThresh
    (cpuStats memStats : Option WorkloadStats)
    (cores : ℤ)
    (isNarrowIssueCpu : Bool) : ℚ :=
  match cpuStats, memStats with
  | some cpu, some mem =>
      thresholdBetween mem.ipc cpu.ipc ((cpu.ipc.mean + mem.ipc.mean) / 2)
  | _, _ => hwIpcCpuFallback cores isNarrowIssueCpu

/-- `ipc_mem_thresh`. -/
def ipcMemThresh (memStats idleStats : Option WorkloadStats) : ℚ :=
  match memStats, idleStats with
  | some mem, some idle =>
      thresholdBetween idle.ipc mem.ipc (mem.ipc.mean * (7 / 10))
  | some mem, none => mem.ipc.mean * (7 / 10)
  | none, _ => 4 / 10

/-- `llc_mem_thresh`. -/
def llcMemThresh (cpuStats memStats : Option WorkloadStats) (ramGb : ℕ) : ℚ :=
  match memStats, cpuStats with
  | some mem, some cpu =>
      thresholdBetween cpu.llc mem.llc ((mem.llc.mean + cpu.llc.mean) / 2)
  | _, _ => 2 / 100 * (8 / ramGb)

/-- `ctx_io_thresh`. -/
def ctxIoThresh (ioStats idleStats : Option WorkloadStats) : ℚ :=
  match ioStats, idleStats with
  | some io, some idle =>
      thresholdBetween idle.ctx io.ctx (io.ctx.mean * (1 / 2))
  | some io, none => io.ctx.mean * (1 / 2)
  | none, _ => 500

/-- `ipc_idle_thresh`, capped by half of the given `ipc_mem_thresh`. -/
def ipcIdleThresh (idleStats : Option WorkloadStats) (ipcMem : ℚ) : ℚ :=
  match idleStats with
  | some idle => min (idle.ipc.p90 + 2 * idle.ipc.stdev) (ipcMem * (1 / 2))
  | none => 5 / 100

/-- `io_wait_bound_thresh`. -/
def ioWaitBoundThresh (ioStats idleStats : Option WorkloadStats) : ℚ :=
  match ioStats, idleStats with
  | some io, some idle =>
      thresholdBetween idle.ioWait io.ioWait (io.ioWait.mean * (1 / 2))
  | some io, none => io.ioWait.mean * (1 / 2)
  | none, _ => 5

/-- `rq_wait_starved_thresh`. -/
def rqWaitStarvedThresh
    (contentionStats idleStats : Option WorkloadStats) : ℚ :=
  match contentionStats, idleStats with
  | some contention, some idle =>
      thresholdBetween idle.rqWait contention.rqWait
        (contention.rqWait.mean * (1 / 2))
  | some contention, none => contention.rqWait.mean * (1 / 2)
  | none, _ => 2

/-- `derive_thresholds`. -/
def deriveThresholds
    (cpuStats memStats ioStats idleStats contentionStats : Option WorkloadStats)
    (cores : ℤ)
    (ramGb : ℕ)
    (isNarrowIssueCpu : Bool) : Thresholds :=
  let ipcCpu := ipcCpuThresh cpuStats memStats cores isNarrowIssueCpu
  let ipcMem := ipcMemThresh memStats idleStats
  let llcMem := llcMemThresh cpuStats memStats ramGb
  let ctxIo := ctxIoThresh ioStats idleStats
  -- the cap reads `ipc_mem_thresh` before it is lowered below
  let ipcIdle := ipcIdleThresh idleStats ipcMem
  let ioWaitBound := ioWaitBoundThresh ioStats idleStats
  let rqWaitStarved := rqWaitStarvedThresh contentionStats idleStats
  let ipcMem := if ipcMem ≥ ipcCpu then ipcCpu * (7 / 10) else ipcMem
  let llcMem := max llcMem (5 / 1000)
  let ctxIo := max ctxIo 50
  let ipcIdle := max ipcIdle 0
  let ioWaitBound := max ioWaitBound (1 / 10)
  let rqWaitStarved := max rqWaitStarved (1 / 10)
  { ipcCpuThreshold := Library.Rounding.toDigits 4 ipcCpu
    ipcMemThreshold := Library.Rounding.toDigits 4 ipcMem
    llcMemThreshold := Library.Rounding.toDigits 6 llcMem
    ctxIoThreshold := Library.Rounding.toDigits 1 ctxIo
    ipcIdleThreshold := Library.Rounding.toDigits 4 ipcIdle
    ioWaitBoundThreshold := Library.Rounding.toDigits 2 ioWaitBound
    rqWaitStarvedThreshold := Library.Rounding.toDigits 2 rqWaitStarved }

/-! ## Where a threshold between two workloads lies -/

theorem adaptiveGuardFrac_mem (gap loStdev hiStdev : ℚ) :
    1 / 10 ≤ adaptiveGuardFrac gap loStdev hiStdev ∧
      adaptiveGuardFrac gap loStdev hiStdev ≤ 3 / 10 := by
  unfold adaptiveGuardFrac
  dsimp only
  split
  · norm_num
  · split
    · norm_num
    · exact ⟨le_max_left _ _, max_le (by norm_num) (min_le_right _ _)⟩

/-- The guard moves the midpoint to between six and eight tenths of the gap. -/
theorem thresholdBetween_mem
    {lo hi : Summary}
    (separated : lo.p90 < hi.p10)
    (overlapping : ℚ) :
    lo.p90 + 6 / 10 * (hi.p10 - lo.p90) ≤ thresholdBetween lo hi overlapping ∧
      thresholdBetween lo hi overlapping ≤
        lo.p90 + 8 / 10 * (hi.p10 - lo.p90) := by
  have gap : 0 < hi.p10 - lo.p90 := sub_pos.mpr separated
  obtain ⟨least, most⟩ :=
    adaptiveGuardFrac_mem (hi.p10 - lo.p90) lo.stdev hi.stdev
  have leastShift := mul_le_mul_of_nonneg_left least gap.le
  have mostShift := mul_le_mul_of_nonneg_left most gap.le
  rw [thresholdBetween, if_pos separated]
  simp only [midpointWithGuard]
  constructor <;> linarith

/-- Two distributions are resolved when the gap between them is more than two
and a half units of the last digit the threshold is rounded to. -/
def Summary.Resolved (digits : ℕ) (lo hi : Summary) : Prop :=
  lo.p90 + 5 * Library.Rounding.halfUnit ℚ digits < hi.p10

theorem halfUnit_pos (digits : ℕ) :
    0 < Library.Rounding.halfUnit ℚ digits := by
  unfold Library.Rounding.halfUnit
  positivity

namespace Summary
namespace Resolved

variable {digits : ℕ} {lo hi : Summary}

theorem separated (resolved : Resolved digits lo hi) : lo.p90 < hi.p10 := by
  have positive := halfUnit_pos digits
  unfold Resolved at resolved
  linarith

/-- Rounding keeps the threshold above the lower distribution. -/
theorem low_room (resolved : Resolved digits lo hi) (overlapping : ℚ) :
    lo.p90 + Library.Rounding.halfUnit ℚ digits <
      thresholdBetween lo hi overlapping := by
  have least := (thresholdBetween_mem resolved.separated overlapping).1
  have positive := halfUnit_pos digits
  unfold Resolved at resolved
  linarith

/-- Rounding keeps the threshold below the upper distribution. -/
theorem high_room (resolved : Resolved digits lo hi) (overlapping : ℚ) :
    thresholdBetween lo hi overlapping + Library.Rounding.halfUnit ℚ digits <
      hi.p10 := by
  have most := (thresholdBetween_mem resolved.separated overlapping).2
  unfold Resolved at resolved
  linarith

end Resolved
end Summary

end Schedmon
