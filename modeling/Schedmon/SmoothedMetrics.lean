import Mathlib.Algebra.Order.Field.Rat
import Schedmon.Library.PiecewiseCopy

/-!
# One ring buffer slot

The record the daemon publishes.  The `double` fields are exact rationals.
-/

namespace Schedmon

/-- `MONITOR_ABI_VERSION`. -/
def monitorAbiVersion : Nat := 5

/-- `sizeof(SmoothedMetrics)`, as the static assertion of the header fixes it. -/
def smoothedMetricsSize : Nat := 88

/-- `SmoothedMetrics`. -/
structure SmoothedMetrics where
  pid : Int
  cpuId : Int
  hwPmuAvailable : Int
  timestampNs : UInt64
  smoothedIpc : ℚ
  smoothedLlcMiss : ℚ
  smoothedCtxFreq : ℚ
  smoothedIoFreq : ℚ
  smoothedIoWaitMs : ℚ
  smoothedRqWaitMs : ℚ
  smoothedMigrationFreq : ℚ
  smoothedIoSyscallFreq : ℚ
  deriving DecidableEq

namespace SmoothedMetrics

/-- The record that `memset` with zero leaves. -/
def zero : SmoothedMetrics where
  pid := 0
  cpuId := 0
  hwPmuAvailable := 0
  timestampNs := 0
  smoothedIpc := 0
  smoothedLlcMiss := 0
  smoothedCtxFreq := 0
  smoothedIoFreq := 0
  smoothedIoWaitMs := 0
  smoothedRqWaitMs := 0
  smoothedMigrationFreq := 0
  smoothedIoSyscallFreq := 0

/-- Write one field of the source to the destination. -/
def copyField (field : Nat) (source destination : SmoothedMetrics) :
    SmoothedMetrics :=
  match field with
  | 0 => { destination with pid := source.pid }
  | 1 => { destination with cpuId := source.cpuId }
  | 2 => { destination with hwPmuAvailable := source.hwPmuAvailable }
  | 3 => { destination with timestampNs := source.timestampNs }
  | 4 => { destination with smoothedIpc := source.smoothedIpc }
  | 5 => { destination with smoothedLlcMiss := source.smoothedLlcMiss }
  | 6 => { destination with smoothedCtxFreq := source.smoothedCtxFreq }
  | 7 => { destination with smoothedIoFreq := source.smoothedIoFreq }
  | 8 => { destination with smoothedIoWaitMs := source.smoothedIoWaitMs }
  | 9 => { destination with smoothedRqWaitMs := source.smoothedRqWaitMs }
  | 10 => { destination with
      smoothedMigrationFreq := source.smoothedMigrationFreq }
  | 11 => { destination with
      smoothedIoSyscallFreq := source.smoothedIoSyscallFreq }
  | _ => destination

/-- `*out = rb->slots[tail]` writes the twelve fields one after the other. -/
instance : Library.PiecewiseCopy SmoothedMetrics where
  pieces := 12
  copyPiece := copyField
  copy_all := by
    intro source destination
    have order : List.range 12 = [0, 1, 2, 3, 4, 5, 6, 7, 8, 9, 10, 11] := by
      decide
    simp only [order, List.foldl_cons, List.foldl_nil, copyField]

end SmoothedMetrics

/-- `sm_is_active`: true if any metric is nonzero. -/
def smIsActive (m : SmoothedMetrics) : Bool :=
  m.smoothedIpc > 0
    || m.smoothedLlcMiss > 0
    || m.smoothedCtxFreq > 0
    || m.smoothedIoFreq > 0
    || m.smoothedIoWaitMs > 0
    || m.smoothedRqWaitMs > 0
    || m.smoothedMigrationFreq > 0
    || m.smoothedIoSyscallFreq > 0

end Schedmon
