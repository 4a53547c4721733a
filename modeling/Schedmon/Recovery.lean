import Mathlib.Data.Set.Basic
import Schedmon.Classifier

/-!
# Classifying the calibrated workloads

Calibration measures five workloads and the dashboard classifies by the
thresholds derived from them.  The calibrated regions are the samples each
workload stands for.  Two things keep a separated region from being recovered
by design: the floors the thresholds are raised to, and the decimal digits they
are rounded to.
-/

namespace Schedmon

open Library.Rounding

/-- The summaries of the five workloads, none of them skipped. -/
structure Calibration where
  cpu : WorkloadStats
  mem : WorkloadStats
  io : WorkloadStats
  idle : WorkloadStats
  contention : WorkloadStats

/-- No statistic of the metric is negative. -/
def Summary.Nonnegative (summary : Summary) : Prop :=
  0 ≤ summary.mean ∧ 0 ≤ summary.stdev ∧ 0 ≤ summary.p10 ∧ 0 ≤ summary.p90

/-- No statistic of the workload is negative. -/
def WorkloadStats.Nonnegative (stats : WorkloadStats) : Prop :=
  stats.ipc.Nonnegative ∧ stats.llc.Nonnegative ∧ stats.ctx.Nonnegative ∧
    stats.ioWait.Nonnegative ∧ stats.rqWait.Nonnegative

/-- A metric that reads the same in every sample. -/
def Summary.steady (level : ℚ) : Summary where
  mean := level
  stdev := 0
  p10 := level
  p90 := level

namespace Calibration

/-- The thresholds derived from the five workloads. -/
def thresholds
    (c : Calibration)
    (cores : ℤ)
    (ramGb : ℕ)
    (isNarrowIssueCpu : Bool) : Thresholds :=
  deriveThresholds (some c.cpu) (some c.mem) (some c.io) (some c.idle)
    (some c.contention) cores ramGb isNarrowIssueCpu

/-! ## The calibrated regions -/

/-- Samples that switch at least as often as the I/O workload. -/
def ioSwitching (c : Calibration) : Set Sample :=
  { sample | c.io.ctx.p10 ≤ sample.ctx }

/-- Samples that wait for I/O at least as long as the I/O workload. -/
def ioWaiting (c : Calibration) : Set Sample :=
  { sample | c.io.ioWait.p10 ≤ sample.ioWait }

/-- Samples with no more switches and I/O wait than the idle workload. -/
def quiet (c : Calibration) : Set Sample :=
  { sample | sample.ctx ≤ c.idle.ctx.p90 ∧
    sample.ioWait ≤ c.idle.ioWait.p90 }

/-- Quiet samples as fast as the CPU workload that do not queue for a CPU. -/
def computing (c : Calibration) : Set Sample :=
  { sample ∈ c.quiet | c.cpu.ipc.p10 ≤ sample.ipc ∧
    sample.rqWait ≤ c.idle.rqWait.p90 }

/-- Quiet samples as fast as the CPU workload that queue like contention. -/
def starving (c : Calibration) : Set Sample :=
  { sample ∈ c.quiet | c.cpu.ipc.p10 ≤ sample.ipc ∧
    c.contention.rqWait.p10 ≤ sample.rqWait }

/-- Quiet samples in the ipc range of the MEM workload that miss as it does. -/
def missing (c : Calibration) : Set Sample :=
  { sample ∈ c.quiet | c.mem.ipc.p10 ≤ sample.ipc ∧
    sample.ipc ≤ c.mem.ipc.p90 ∧ c.mem.llc.p10 ≤ sample.llc }

/-- Quiet samples as slow as the idle workload that do not miss. -/
def idling (c : Calibration) : Set Sample :=
  { sample ∈ c.quiet | sample.ipc ≤ c.idle.ipc.p90 ∧
    sample.llc ≤ c.cpu.llc.p90 }

/-- Every calibrated region gets the label of its workload. -/
structure Recovers (c : Calibration) (t : Thresholds) : Prop where
  ioSwitching : Labels t c.ioSwitching .ioBound
  ioWaiting : Labels t c.ioWaiting .ioBound
  computing : Labels t c.computing .cpuBound
  starving : Labels t c.starving .cpuStarved
  missing : Labels t c.missing .memBound
  idling : Labels t c.idling .idle

/-- The measured distributions of the five workloads do not overlap. -/
structure Separated (c : Calibration) : Prop where
  nonnegative : c.cpu.Nonnegative ∧ c.mem.Nonnegative ∧ c.io.Nonnegative ∧
    c.idle.Nonnegative ∧ c.contention.Nonnegative
  ipcCpu : c.mem.ipc.p90 < c.cpu.ipc.p10
  ipcMem : c.idle.ipc.p90 < c.mem.ipc.p10
  llcMem : c.cpu.llc.p90 < c.mem.llc.p10
  ctxIo : c.idle.ctx.p90 < c.io.ctx.p10
  ioWaitBound : c.idle.ioWait.p90 < c.io.ioWait.p10
  rqWaitStarved : c.idle.rqWait.p90 < c.contention.rqWait.p10

/-- The distributions are apart by more than the digits of the thresholds can
bridge, and the MEM workload's percentiles are in order. -/
structure Resolved (c : Calibration) : Prop where
  ipcCpu : Summary.Resolved 4 c.mem.ipc c.cpu.ipc
  ipcMem : Summary.Resolved 4 c.idle.ipc c.mem.ipc
  llcMem : Summary.Resolved 6 c.cpu.llc c.mem.llc
  ctxIo : Summary.Resolved 1 c.idle.ctx c.io.ctx
  ioWaitBound : Summary.Resolved 2 c.idle.ioWait c.io.ioWait
  rqWaitStarved : Summary.Resolved 2 c.idle.rqWait c.contention.rqWait
  percentiles : c.mem.ipc.p10 ≤ c.mem.ipc.p90

/-- Both bounds of the idle threshold, two deviations above `p90` and half of
the midpoint towards the MEM workload, leave room above `p90`. -/
def IdleHasRoom (c : Calibration) : Prop :=
  halfUnit ℚ 4 < 2 * c.idle.ipc.stdev ∧
    c.idle.ipc.p90 + halfUnit ℚ 4 <
      midpointWithGuard c.idle.ipc.p90 c.mem.ipc.p10
        (adaptiveGuardFrac (c.mem.ipc.p10 - c.idle.ipc.p90)
          c.idle.ipc.stdev c.mem.ipc.stdev) / 2

/-- The regions of workloads that reach beyond the floors of the thresholds get
the label of their workload. -/
structure RecoversBeyondFloors (c : Calibration) (t : Thresholds) : Prop where
  ioSwitching : 50 < c.io.ctx.p10 → Labels t c.ioSwitching .ioBound
  ioWaiting : 1 / 10 < c.io.ioWait.p10 → Labels t c.ioWaiting .ioBound
  computing : Labels t c.computing .cpuBound
  starving :
    1 / 10 < c.contention.rqWait.p10 → Labels t c.starving .cpuStarved
  idling : c.IdleHasRoom → Labels t c.idling .idle

/-! ## Where the thresholds lie -/

section Thresholds

variable {c : Calibration} (resolved : c.Resolved)
variable (cores : ℤ) (ramGb : ℕ) (isNarrowIssueCpu : Bool)

include resolved

/-- With five resolved workloads the late clamp of `ipc_mem` does not fire. -/
theorem Resolved.ipcMem_lt_ipcCpu :
    ipcMemThresh (some c.mem) (some c.idle) <
      ipcCpuThresh (some c.cpu) (some c.mem) cores isNarrowIssueCpu := by
  have above := resolved.ipcMem.high_room (c.mem.ipc.mean * (7 / 10))
  have below :=
    resolved.ipcCpu.low_room ((c.cpu.ipc.mean + c.mem.ipc.mean) / 2)
  have positive := halfUnit_pos 4
  have ordered := resolved.percentiles
  simp only [ipcMemThresh, ipcCpuThresh]
  linarith

theorem Resolved.low_lt_ipcCpu :
    c.mem.ipc.p90 <
      (c.thresholds cores ramGb isNarrowIssueCpu).ipcCpuThreshold :=
  lt_toDigits (resolved.ipcCpu.low_room _)

theorem Resolved.ipcCpu_lt_high :
    (c.thresholds cores ramGb isNarrowIssueCpu).ipcCpuThreshold <
      c.cpu.ipc.p10 :=
  toDigits_lt (resolved.ipcCpu.high_room _)

theorem Resolved.ipcMem_lt_high :
    (c.thresholds cores ramGb isNarrowIssueCpu).ipcMemThreshold <
      c.mem.ipc.p10 := by
  have unclamped := resolved.ipcMem_lt_ipcCpu cores isNarrowIssueCpu
  simp only [thresholds, deriveThresholds, if_neg unclamped.not_ge]
  exact toDigits_lt (resolved.ipcMem.high_room _)

theorem Resolved.low_lt_llcMem :
    c.cpu.llc.p90 <
      (c.thresholds cores ramGb isNarrowIssueCpu).llcMemThreshold :=
  lt_toDigits_max (resolved.llcMem.low_room _) _

theorem Resolved.low_lt_ctxIo :
    c.idle.ctx.p90 <
      (c.thresholds cores ramGb isNarrowIssueCpu).ctxIoThreshold :=
  lt_toDigits_max (resolved.ctxIo.low_room _) _

theorem Resolved.ctxIo_lt_high (beyond : 50 < c.io.ctx.p10) :
    (c.thresholds cores ramGb isNarrowIssueCpu).ctxIoThreshold <
      c.io.ctx.p10 :=
  toDigits_max_lt (n := 500) (resolved.ctxIo.high_room _) (by norm_num) beyond

theorem Resolved.low_lt_ioWaitBound :
    c.idle.ioWait.p90 <
      (c.thresholds cores ramGb isNarrowIssueCpu).ioWaitBoundThreshold :=
  lt_toDigits_max (resolved.ioWaitBound.low_room _) _

theorem Resolved.ioWaitBound_lt_high (beyond : 1 / 10 < c.io.ioWait.p10) :
    (c.thresholds cores ramGb isNarrowIssueCpu).ioWaitBoundThreshold <
      c.io.ioWait.p10 :=
  toDigits_max_lt (n := 10) (resolved.ioWaitBound.high_room _) (by norm_num)
    beyond

theorem Resolved.low_lt_rqWaitStarved :
    c.idle.rqWait.p90 <
      (c.thresholds cores ramGb isNarrowIssueCpu).rqWaitStarvedThreshold :=
  lt_toDigits_max (resolved.rqWaitStarved.low_room _) _

theorem Resolved.rqWaitStarved_lt_high
    (beyond : 1 / 10 < c.contention.rqWait.p10) :
    (c.thresholds cores ramGb isNarrowIssueCpu).rqWaitStarvedThreshold <
      c.contention.rqWait.p10 :=
  toDigits_max_lt (n := 10) (resolved.rqWaitStarved.high_room _) (by norm_num)
    beyond

/-- The idle threshold stays above the idle workload where there is room. -/
theorem Resolved.low_lt_ipcIdle (room : c.IdleHasRoom) :
    c.idle.ipc.p90 <
      (c.thresholds cores ramGb isNarrowIssueCpu).ipcIdleThreshold := by
  obtain ⟨spread, half⟩ := room
  refine lt_toDigits_max ?_ _
  simp only [ipcIdleThresh, ipcMemThresh, thresholdBetween,
    if_pos resolved.ipcMem.separated, lt_min_iff]
  constructor <;> linarith

/-- The idle threshold stays below the MEM workload. -/
theorem Resolved.ipcIdle_lt_high (nonnegative : 0 ≤ c.idle.ipc.p90) :
    (c.thresholds cores ramGb isNarrowIssueCpu).ipcIdleThreshold <
      c.mem.ipc.p10 := by
  have low := resolved.ipcMem.low_room (c.mem.ipc.mean * (7 / 10))
  have high := resolved.ipcMem.high_room (c.mem.ipc.mean * (7 / 10))
  have positive := halfUnit_pos 4
  refine toDigits_max_lt (n := 0) ?_ (by norm_num) (by linarith)
  have capped := min_le_right (c.idle.ipc.p90 + 2 * c.idle.ipc.stdev)
    (ipcMemThresh (some c.mem) (some c.idle) * (1 / 2))
  simp only [ipcMemThresh] at capped
  simp only [ipcIdleThresh, ipcMemThresh]
  linarith

/-- Quiet samples pass both I/O rules. -/
theorem Resolved.calmUnder
    {sample : Sample}
    (quiet : sample ∈ c.quiet) :
    CalmUnder (c.thresholds cores ramGb isNarrowIssueCpu) sample :=
  ⟨quiet.2.trans_lt (resolved.low_lt_ioWaitBound cores ramGb isNarrowIssueCpu),
    quiet.1.trans_lt (resolved.low_lt_ctxIo cores ramGb isNarrowIssueCpu)⟩

end Thresholds

/-! ## What the classifier recovers -/

/-- Under the thresholds derived from five resolved workloads, every region but
the MEM one is recovered as far as it reaches beyond the floors. -/
theorem classify_recovers
    (c : Calibration)
    (cores : ℤ)
    (ramGb : ℕ)
    (isNarrowIssueCpu : Bool)
    (resolved : c.Resolved) :
    c.RecoversBeyondFloors (c.thresholds cores ramGb isNarrowIssueCpu) where
  ioSwitching beyond sample switching :=
    label_eq_ioBound (.inr
      ((resolved.ctxIo_lt_high cores ramGb isNarrowIssueCpu beyond).trans_le
        switching))
  ioWaiting beyond sample waiting :=
    label_eq_ioBound (.inl
      ((resolved.ioWaitBound_lt_high cores ramGb isNarrowIssueCpu
        beyond).trans_le waiting))
  computing := by
    rintro sample ⟨quiet, fast, served⟩
    have calm := resolved.calmUnder cores ramGb isNarrowIssueCpu quiet
    have above := resolved.ipcCpu_lt_high cores ramGb isNarrowIssueCpu
    have below := resolved.low_lt_rqWaitStarved cores ramGb isNarrowIssueCpu
    rw [calm.label_eq, if_pos (above.trans_le fast),
      if_neg (served.trans below.le).not_gt]
  starving := by
    rintro beyond sample ⟨quiet, fast, queued⟩
    have calm := resolved.calmUnder cores ramGb isNarrowIssueCpu quiet
    have above := resolved.ipcCpu_lt_high cores ramGb isNarrowIssueCpu
    have starved :=
      resolved.rqWaitStarved_lt_high cores ramGb isNarrowIssueCpu beyond
    rw [calm.label_eq, if_pos (above.trans_le fast),
      if_pos (starved.trans_le queued)]
  idling := by
    rintro room sample ⟨quiet, slow, hits⟩
    have calm := resolved.calmUnder cores ramGb isNarrowIssueCpu quiet
    have notFast :
        sample.ipc ≤
          (c.thresholds cores ramGb isNarrowIssueCpu).ipcCpuThreshold := by
      have above := resolved.low_lt_ipcCpu cores ramGb isNarrowIssueCpu
      have apart := resolved.ipcMem.separated
      have ordered := resolved.percentiles
      linarith
    have noMisses :
        sample.llc ≤
          (c.thresholds cores ramGb isNarrowIssueCpu).llcMemThreshold :=
      hits.trans (resolved.low_lt_llcMem cores ramGb isNarrowIssueCpu).le
    have under := resolved.low_lt_ipcIdle cores ramGb isNarrowIssueCpu room
    rw [calm.label_eq, if_neg notFast.not_gt,
      if_neg fun fires => noMisses.not_gt fires.1,
      if_pos (slow.trans_lt under)]

/-- Workloads far apart in every metric. -/
def wideApart : Calibration where
  cpu :=
    { ipc := ⟨22 / 10, 1 / 10, 2, 24 / 10⟩
      llc := ⟨1 / 100, 0, 0, 2 / 100⟩
      ctx := .steady 5
      ioWait := .steady 0
      rqWait := .steady 0 }
  mem :=
    { ipc := ⟨5 / 10, 5 / 100, 4 / 10, 6 / 10⟩
      llc := ⟨6 / 10, 1 / 10, 5 / 10, 7 / 10⟩
      ctx := .steady 5
      ioWait := .steady 0
      rqWait := .steady 0 }
  io :=
    { ipc := .steady 1
      llc := .steady 0
      ctx := ⟨1200, 100, 1000, 1500⟩
      ioWait := ⟨8, 1, 5, 12⟩
      rqWait := .steady 0 }
  idle :=
    { ipc := ⟨3 / 100, 2 / 100, 0, 5 / 100⟩
      llc := .steady 0
      ctx := ⟨5, 2, 1, 10⟩
      ioWait := .steady 0
      rqWait := .steady 0 }
  contention :=
    { ipc := .steady 2
      llc := .steady 0
      ctx := .steady 100
      ioWait := .steady 0
      rqWait := ⟨10, 1, 8, 12⟩ }

theorem classify_recovers_wideApart :
    wideApart.Resolved ∧ wideApart.IdleHasRoom ∧
      50 < wideApart.io.ctx.p10 ∧ 1 / 10 < wideApart.io.ioWait.p10 ∧
      1 / 10 < wideApart.contention.rqWait.p10 ∧
      wideApart.RecoversBeyondFloors (wideApart.thresholds 4 8 false) := by
  have resolved : wideApart.Resolved := by
    constructor <;>
      norm_num [Summary.Resolved, halfUnit, wideApart, Summary.steady]
  refine ⟨resolved, ?_, ?_, ?_, ?_, classify_recovers _ 4 8 false resolved⟩
  · norm_num [IdleHasRoom, halfUnit, midpointWithGuard, adaptiveGuardFrac,
      wideApart]
  · norm_num [wideApart]
  · norm_num [wideApart]
  · norm_num [wideApart]

/-- The I/O workload switches more often than the idle one, but less often than
the floor of the threshold. -/
def belowFloor : Calibration :=
  { wideApart with io.ctx := ⟨40, 5, 30, 45⟩ }

/-- A sample of the I/O workload's switch rate that never waits is mixed. -/
theorem belowFloor_not_recovered :
    belowFloor.Separated ∧
      ¬belowFloor.Recovers (belowFloor.thresholds 4 8 false) := by
  constructor
  · constructor <;>
      norm_num [WorkloadStats.Nonnegative, Summary.Nonnegative, belowFloor,
        wideApart, Summary.steady]
  · intro recovers
    have switching : (⟨1, 0, 30, 0, 0⟩ : Sample) ∈ belowFloor.ioSwitching :=
      le_refl (30 : ℚ)
    have labelled := recovers.ioSwitching _ switching
    have mixed :
        label (belowFloor.thresholds 4 8 false) ⟨1, 0, 30, 0, 0⟩ = .mixed := by
      decide +kernel
    rw [mixed] at labelled
    exact absurd labelled (by decide)

/-- The `ipc_mem` threshold is derived below the MEM workload but the rule asks
for an ipc below it: the MEM region is labelled mixed. -/
theorem labels_missing_mixed
    (c : Calibration)
    (cores : ℤ)
    (ramGb : ℕ)
    (isNarrowIssueCpu : Bool)
    (resolved : c.Resolved)
    (nonnegative : 0 ≤ c.idle.ipc.p90) :
    Labels (c.thresholds cores ramGb isNarrowIssueCpu) c.missing .mixed := by
  rintro sample ⟨quiet, atLeast, atMost, misses⟩
  have calm := resolved.calmUnder cores ramGb isNarrowIssueCpu quiet
  have notFast := resolved.low_lt_ipcCpu cores ramGb isNarrowIssueCpu
  have notSlow := resolved.ipcMem_lt_high cores ramGb isNarrowIssueCpu
  have notIdle :=
    resolved.ipcIdle_lt_high cores ramGb isNarrowIssueCpu nonnegative
  rw [calm.label_eq, if_neg (atMost.trans notFast.le).not_gt,
    if_neg fun fires => (notSlow.le.trans atLeast).not_gt fires.2,
    if_neg (notIdle.le.trans atLeast).not_gt]

end Calibration
end Schedmon
