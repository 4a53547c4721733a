import Schedmon.Calibrate

/-!
# The rule based classifier

The dashboard labels a process by comparing its metrics with the thresholds,
rule by rule.  The abstract view of a label is a region: the set of samples the
classifier is meant to give that label.
-/

namespace Schedmon

/-- The workload estimates. -/
inductive Label where
  | ioBound
  | unknown
  | cpuStarved
  | cpuBound
  | memBound
  | idle
  | mixed
  deriving DecidableEq, Repr

/-- The colours the estimates are shown in. -/
inductive Style where
  | red
  | dim
  | brightRed
  | green
  | yellow
  | blue
  deriving DecidableEq, Repr

/-- `classify`, under thresholds already loaded. -/
def classify
    (t : Thresholds)
    (ipc llcMiss ctxFreq ioWaitMs rqWaitMs : ℚ)
    (hwPmuAvailable : Bool) : Label × Style :=
  if ioWaitMs > t.ioWaitBoundThreshold ∨ ctxFreq > t.ctxIoThreshold then
    (.ioBound, .red)
  else if !hwPmuAvailable then
    (.unknown, .dim)
  else if ipc > t.ipcCpuThreshold ∧ rqWaitMs > t.rqWaitStarvedThreshold then
    (.cpuStarved, .brightRed)
  else if ipc > t.ipcCpuThreshold ∧ ctxFreq < t.ctxIoThreshold then
    (.cpuBound, .green)
  else if llcMiss > t.llcMemThreshold ∧ ipc < t.ipcMemThreshold then
    (.memBound, .yellow)
  else if ipc < t.ipcIdleThreshold then
    (.idle, .dim)
  else
    (.mixed, .blue)

/-- The metrics one classification reads. -/
structure Sample where
  ipc : ℚ
  llc : ℚ
  ctx : ℚ
  ioWait : ℚ
  rqWait : ℚ

/-- The label of a sample taken with hardware counters. -/
def label (t : Thresholds) (sample : Sample) : Label :=
  (classify t sample.ipc sample.llc sample.ctx sample.ioWait sample.rqWait
    true).1

/-- Every sample of the region gets the expected label. -/
def Labels (t : Thresholds) (region : Set Sample) (expected : Label) : Prop :=
  ∀ sample ∈ region, label t sample = expected

/-- Samples that neither of the two I/O rules fires on, strictly. -/
def CalmUnder (t : Thresholds) (sample : Sample) : Prop :=
  sample.ioWait < t.ioWaitBoundThreshold ∧ sample.ctx < t.ctxIoThreshold

section Rules

variable {t : Thresholds} {sample : Sample}

theorem label_eq_ioBound
    (fires : t.ioWaitBoundThreshold < sample.ioWait ∨
      t.ctxIoThreshold < sample.ctx) :
    label t sample = .ioBound := by
  rw [label, classify, if_pos fires]

/-- Without I/O a sample with hardware counters is labelled by the ipc rules. -/
theorem CalmUnder.label_eq (calm : CalmUnder t sample) :
    label t sample =
      if t.ipcCpuThreshold < sample.ipc then
        if t.rqWaitStarvedThreshold < sample.rqWait then .cpuStarved
        else .cpuBound
      else if t.llcMemThreshold < sample.llc ∧ sample.ipc < t.ipcMemThreshold then
        .memBound
      else if sample.ipc < t.ipcIdleThreshold then .idle
      else .mixed := by
  obtain ⟨noWait, noSwitches⟩ := calm
  have silent : ¬(sample.ioWait > t.ioWaitBoundThreshold ∨
      sample.ctx > t.ctxIoThreshold) := by
    rintro (fires | fires)
    · exact absurd noWait fires.not_gt
    · exact absurd noSwitches fires.not_gt
  rw [label, classify, if_neg silent]
  by_cases fast : t.ipcCpuThreshold < sample.ipc
  · by_cases starved : t.rqWaitStarvedThreshold < sample.rqWait
    · simp [fast, starved]
    · simp [fast, starved, noSwitches]
  · simp only [fast, gt_iff_lt, false_and, if_false, Bool.not_true,
      Bool.false_eq_true, apply_ite Prod.fst]

end Rules

end Schedmon
