import Schedmon.Daemon.State

/-!
# Sampling one slot

The bodies of the two loops of `run_sampling_loop`.  Both write only the arrays
at their own index, so each is a function of one slot's record.  Counters are
64-bit words and differences wrap; rates are exact rationals.
-/

namespace Schedmon

/-- `STALE_NS`. -/
def staleNs : UInt64 := 1000000000

/-- `RQ_WAIT_MAX_NS`. -/
def rqWaitMaxNs : UInt64 := 10000000000

/-- `IO_WAIT_MAX_NS`. -/
def ioWaitMaxNs : UInt64 := 30000000000

/-- A 64-bit word as the exact value of its conversion to `double`. -/
def toQ (value : UInt64) : ℚ := (value.toNat : ℚ)

/-- The first regression test: a BPF counter went backwards. -/
def bpfRegressed (st : PidState) (readings : SlowReadings) : Bool :=
  readings.ctx < st.prevCtx || readings.ioWaitNs < st.prevIoWaitNs ||
    readings.rqWaitNs < st.prevRqWaitNs

/-- The second regression test: the cycle counter went backwards. -/
def cyclesRegressed (st : PidState) (hw : RawCounters) : Bool :=
  hw.cycles < st.prevCycles

/-- The six baselines that both regression resets take. -/
def rebase (st : PidState) (hw : RawCounters) (readings : SlowReadings) :
    PidState :=
  { st with
    prevCtx := readings.ctx
    prevIoWaitNs := readings.ioWaitNs
    prevRqWaitNs := readings.rqWaitNs
    prevCycles := hw.cycles
    prevInstructions := hw.instructions
    prevLlc := hw.llcMisses }

/-- The outcome of reading `/proc/PID/io`, with the reopen branch. -/
structure ProcIoStep where
  state : PidState
  curIoProc : UInt64
  curIoSyscall : UInt64
  ops : List FdOp

/-- Read `/proc/PID/io`; a failed read reopens the file and takes what the
second read gives as the new baselines. -/
def procIoStep (st : PidState) (readings : SlowReadings) : ProcIoStep :=
  if st.ioFd ≥ 0 then
    let curIoProc := readings.procIo.result
    let curIoSyscall := readings.procIo.syscallBytes.getD 0
    if curIoProc = procIoReadFail then
      let again : UInt64 × UInt64 :=
        match readings.reopened with
        | .ok _ =>
            if readings.procIoAgain.result = procIoReadFail then (0, 0)
            else (readings.procIoAgain.result,
              readings.procIoAgain.syscallBytes.getD curIoSyscall)
        | .error _ => (0, 0)
      { state :=
          { st with
            ioFd := readings.reopened.toFd
            prevIoProc := again.1
            prevIoSyscall := again.2 }
        curIoProc := again.1
        curIoSyscall := again.2
        ops := [.closed st.ioFd] ++ readings.reopened.ops }
    else
      { state := st
        curIoProc := curIoProc
        curIoSyscall := curIoSyscall
        ops := [] }
  else
    { state := st
      curIoProc := 0
      curIoSyscall := 0
      ops := [] }

/-- A byte delta; 0 where the counter went backwards. -/
def byteDelta (cur prev : UInt64) : UInt64 :=
  if cur ≥ prev then cur - prev else 0

/-- A rate over the interval. -/
def perSecond (amount : ℚ) (slowDt : ℚ) : ℚ :=
  if slowDt > 0 then amount / slowDt else 0

/-- The sanity clamp on a wait delta: at most `limit` for each event. -/
def clampWait (wait events limit : UInt64) : UInt64 :=
  if wait > events * limit then events * limit else wait

/-- Average wait in milliseconds; 0 where there was no event. -/
def averageMs (wait events : UInt64) : ℚ :=
  if events > 0 ∧ wait > 0 then toQ wait / toQ events / 1000000 else 0

/-- `migration_count` after the comparison of the two CPU numbers. -/
def countMigration (st : PidState) (curCpuId : Int) : Nat :=
  if curCpuId ≥ 0 ∧ st.prevCpuId ≥ 0 ∧ curCpuId ≠ st.prevCpuId then
    st.migrationCount + 1
  else st.migrationCount

/-- The eight samples of one interval, against the baselines of the slot. -/
def rawSample (st : PidState) (hw : RawCounters) (readings : SlowReadings)
    (slowDt : ℚ) : RawSample :=
  let io := procIoStep st readings
  let dCycles := hw.cycles - st.prevCycles
  let dInstr := hw.instructions - st.prevInstructions
  let dLlc := hw.llcMisses - st.prevLlc
  let dCtx := readings.ctx - st.prevCtx
  let dRqWaitNs := readings.rqWaitNs - st.prevRqWaitNs
  let dIoProc := byteDelta io.curIoProc io.state.prevIoProc
  let dIoSyscall := byteDelta io.curIoSyscall io.state.prevIoSyscall
  let dIoWaitNs := readings.ioWaitNs - st.prevIoWaitNs
  let dIoForWait := readings.io - st.prevIoCount
  { ipc := if dCycles > 0 then toQ dInstr / toQ dCycles else 0
    llcRate := if dCycles > 0 ∧ dInstr > 0 then toQ dLlc / toQ dInstr else 0
    ctxFreq := toQ dCtx / slowDt
    ioFreq := perSecond (toQ dIoProc) slowDt
    ioWaitMs := averageMs (clampWait dIoWaitNs dIoForWait ioWaitMaxNs) dIoForWait
    rqWaitMs := averageMs (clampWait dRqWaitNs dCtx rqWaitMaxNs) dCtx
    migrationFreq :=
      perSecond (countMigration st readings.lastCpu : ℚ) slowDt
    ioSyscallFreq := perSecond (toQ dIoSyscall) slowDt }

/-- `g_states[i]` after a pass that samples. -/
def sampledState (st : PidState) (hw : RawCounters) (readings : SlowReadings) :
    PidState :=
  let io := procIoStep st readings
  { io.state with
    prevCycles := hw.cycles
    prevInstructions := hw.instructions
    prevLlc := hw.llcMisses
    prevCtx := readings.ctx
    prevIoProc := io.curIoProc
    prevIoSyscall := io.curIoSyscall
    prevIo := readings.io
    prevIoWaitNs := readings.ioWaitNs
    prevIoCount := readings.io
    prevRqWaitNs := readings.rqWaitNs
    prevCpuId := readings.lastCpu
    migrationCount := 0 }

/-- Push one interval's samples into the eight windows. -/
def pushSample (r : SlotRecord) (raw : RawSample) : SlotRecord :=
  { r with
    winIo := swPush r.winIo raw.ioFreq
    winIoWait := swPush r.winIoWait raw.ioWaitMs
    winIoSyscall := swPush r.winIoSyscall raw.ioSyscallFreq
    winIpc := swPush r.winIpc raw.ipc
    winLlc := swPush r.winLlc raw.llcRate
    winCtx := swPush r.winCtx raw.ctxFreq
    winRqWait := swPush r.winRqWait raw.rqWaitMs
    winMigration := swPush r.winMigration raw.migrationFreq }

/-- `g_last_sm[i]` recomputed from the windows.  Its timestamp stays. -/
def smoothed (r : SlotRecord) : SmoothedMetrics :=
  { pid := r.pid
    cpuId := -1
    hwPmuAvailable := r.perf.hwAvailable
    timestampNs := r.lastSm.timestampNs
    smoothedIpc := swMean r.winIpc
    smoothedLlcMiss := swMean r.winLlc
    smoothedCtxFreq := swMean r.winCtx
    smoothedIoFreq := swMean r.winIo
    smoothedIoWaitMs := swMean r.winIoWait
    smoothedRqWaitMs := swMean r.winRqWait
    smoothedMigrationFreq := swMean r.winMigration
    smoothedIoSyscallFreq := swMean r.winIoSyscall }

/-- What the slow path does with one slot. -/
inductive SlowOutcome
  /-- `perf_counter_read` failed: the slot is removed. -/
  | unreadable
  /-- A regression reset: new baselines, no sample. -/
  | skipped (r : SlotRecord) (events : List Event)
  /-- A sample was taken. -/
  | sampled (r : SlotRecord) (events : List Event)

/-- Publish the recomputed metrics if one of them is positive. -/
def publish (r : SlotRecord) (now : UInt64) : SlotRecord × List Event :=
  if smIsActive r.lastSm then
    let stamped := { r.lastSm with timestampNs := now }
    ({ r with
        lastSmUpdatedNs := now
        lastSmValid := true
        lastSm := stamped },
      [.pushed .classifier stamped, .pushed .dashboard stamped])
  else
    ({ r with lastSmValid := false }, [])

/-- Refresh the name from a pending `exec`, where the row is displayed. -/
def refreshComm (r : SlotRecord) (readings : SlowReadings) (displayed : Bool) :
    SlotRecord :=
  if displayed then { r with comm := readings.execComm.getD r.comm } else r

/-- A slot after a pass has pushed its samples and recomputed the metrics. -/
def resampled (r : SlotRecord) (hw : RawCounters) (readings : SlowReadings)
    (slowDt : ℚ) : SlotRecord :=
  let raw := rawSample r.state hw readings slowDt
  let filled := pushSample { r with state := sampledState r.state hw readings } raw
  { filled with lastSm := smoothed filled }

/-- A pass that is not skipped. -/
def takeSample (r : SlotRecord) (hw : RawCounters) (readings : SlowReadings)
    (now : UInt64) (slowDt : ℚ) (displayed : Bool) : SlotRecord × List Event :=
  let after := resampled r hw readings slowDt
  let result := publish after now
  (refreshComm result.1 readings displayed,
    (procIoStep r.state readings).ops.map (Event.fd r.pid) ++
      [.sampled r.pid r.state hw readings slowDt after.lastSm] ++ result.2)

/-- The body of the slow-path loop. -/
def slowVisit (r : SlotRecord) (readings : SlowReadings) (now : UInt64)
    (slowDt : ℚ) (displayed : Bool) : SlowOutcome :=
  match perfCounterRead r.perf readings.hw with
  | none => .unreadable
  | some hw =>
      if bpfRegressed r.state readings then
        .skipped { r with state := rebase r.state hw readings }
          [.rebased r.pid readings]
      else if cyclesRegressed r.state hw then
        .skipped { r with state := rebase r.state hw readings }
          [.rebased r.pid readings]
      else
        let result := takeSample r hw readings now slowDt displayed
        .sampled result.1 result.2

/-- Whether the fast path republishes a slot. -/
def fastPublishes (r : SlotRecord) (now : UInt64) : Bool :=
  r.lastSmValid && !(now - r.lastSmUpdatedNs > staleNs)

/-- The body of the fast-path loop. -/
def fastVisit (r : SlotRecord) (now : UInt64) : SlotRecord × List Event :=
  if fastPublishes r now then
    let stamped := { r.lastSm with timestampNs := now }
    ({ r with lastSm := stamped }, [.pushed .classifier stamped])
  else (r, [])

end Schedmon
