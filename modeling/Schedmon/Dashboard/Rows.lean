import Schedmon.Dashboard.Backlog
import Schedmon.Dashboard.Layout
import Schedmon.Dashboard.Update

/-!
# From the daemon's samples to the rows of the dashboard

The bytes of the pushed records, the drains, and the refreshes of the entries put
together.
-/

namespace Schedmon

open Library Transition StructLayout

/-! ## Records on the way -/

/-- The machine words of a record, its metrics rounded to `double`. -/
def SmoothedMetrics.bits (double : ℚ → UInt64) (m : SmoothedMetrics) : RecordBits where
  pid := Int32.ofInt m.pid
  cpuId := Int32.ofInt m.cpuId
  hwPmuAvailable := Int32.ofInt m.hwPmuAvailable
  timestampNs := m.timestampNs
  smoothedIpc := double m.smoothedIpc
  smoothedLlcMiss := double m.smoothedLlcMiss
  smoothedCtxFreq := double m.smoothedCtxFreq
  smoothedIoFreq := double m.smoothedIoFreq
  smoothedIoWaitMs := double m.smoothedIoWaitMs
  smoothedRqWaitMs := double m.smoothedRqWaitMs
  smoothedMigrationFreq := double m.smoothedMigrationFreq
  smoothedIoSyscallFreq := double m.smoothedIoSyscallFreq

/-- The fields of the copied structure as Python's numbers. -/
def RecordBits.metrics (number : UInt64 → ℚ) (r : RecordBits) : SmoothedMetrics where
  pid := r.pid.toInt
  cpuId := r.cpuId.toInt
  hwPmuAvailable := r.hwPmuAvailable.toInt
  timestampNs := r.timestampNs
  smoothedIpc := number r.smoothedIpc
  smoothedLlcMiss := number r.smoothedLlcMiss
  smoothedCtxFreq := number r.smoothedCtxFreq
  smoothedIoFreq := number r.smoothedIoFreq
  smoothedIoWaitMs := number r.smoothedIoWaitMs
  smoothedRqWaitMs := number r.smoothedRqWaitMs
  smoothedMigrationFreq := number r.smoothedMigrationFreq
  smoothedIoSyscallFreq := number r.smoothedIoSyscallFreq

namespace DashRefreshes

end DashRefreshes

end Schedmon
