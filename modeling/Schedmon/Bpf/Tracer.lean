import Schedmon.Bpf.Handlers
import Schedmon.Daemon.State

/-!
# The tracer

What `ebpf_tracer.c` reads from the maps and writes to them for one pid, with
all maps present.  Handlers may run between any two of the daemon's reads.
-/

namespace Schedmon

open Library

section

variable {sizes : MapSizes} (s : BpfMaps sizes) (pid : UInt32)

/-- `ebpf_tracer_read_switches`. -/
def readSwitches : UInt64 := (s.volCtxSwitch.lookup pid).getD 0

/-- `ebpf_tracer_read_io`. -/
def readIo : UInt64 := (s.ioCounts.lookup pid).getD 0

/-- `ebpf_tracer_read_io_wait_ns`. -/
def readIoWaitNs : UInt64 := (s.ioWaitNs.lookup pid).getD 0

/-- `ebpf_tracer_read_rq_wait_ns`. -/
def readRqWaitNs : UInt64 := (s.rqWaitNs.lookup pid).getD 0

/-- `ebpf_tracer_read_last_cpu`. -/
def readLastCpu : Int :=
  match s.pidLastCpu.lookup pid with
  | some cpu => cpu.toInt32.toInt
  | none => -1

/-- `ebpf_tracer_register_pid`. -/
def registerPid : BpfMaps sizes :=
  { s with
    activePids := s.activePids.update pid 1 .any
    ioCounts := s.ioCounts.update pid 0 .noExist
    ioWaitNs := s.ioWaitNs.update pid 0 .noExist
    rqWaitNs := s.rqWaitNs.update pid 0 .noExist }

/-- `ebpf_tracer_unregister_pid`. -/
def unregisterPid : BpfMaps sizes :=
  { s with activePids := s.activePids.delete pid }

/-- The lookup of `ebpf_tracer_pop_exec_comm`, and what it copies to a buffer of
17 bytes. -/
def lookupExecComm : Option Comm :=
  (s.execComms.lookup pid).map fun comm => (comm.take 16).takeWhile (· ≠ 0)

/-- The delete of `ebpf_tracer_pop_exec_comm`. -/
def deleteExecComm : BpfMaps sizes :=
  { s with execComms := s.execComms.delete pid }

/-- `ebpf_tracer_pop_exec_comm`, run without interruption. -/
def popExecComm : Option Comm × BpfMaps sizes :=
  match lookupExecComm s pid with
  | none => (none, s)
  | some buf => (some buf, deleteExecComm s pid)

end

/-! ## Reads between handlers -/

/-- The events before each map read of `add_pid`, and before it registers the
pid. -/
structure AddGaps where
  switches : List KernelEvent
  io : List KernelEvent
  ioWait : List KernelEvent
  rqWait : List KernelEvent
  register : List KernelEvent

/-- The events before each map read of a slow-path pass. -/
structure PassGaps where
  switches : List KernelEvent
  ioWait : List KernelEvent
  rqWait : List KernelEvent
  io : List KernelEvent
  lastCpu : List KernelEvent

/-- No event comes between. -/
def AddGaps.none : AddGaps := ⟨[], [], [], [], []⟩

/-- No event comes between. -/
def PassGaps.none : PassGaps := ⟨[], [], [], [], []⟩

variable {sizes : MapSizes}

/-- What `add_pid` reads, and the maps after it. -/
def AddGaps.run (gaps : AddGaps) (base : AddReadings) (pid : UInt32)
    (s : BpfMaps sizes) : AddReadings × BpfMaps sizes :=
  let atSwitches := gaps.switches.foldl handleEvent s
  let atIo := gaps.io.foldl handleEvent atSwitches
  let atIoWait := gaps.ioWait.foldl handleEvent atIo
  let atRqWait := gaps.rqWait.foldl handleEvent atIoWait
  ({ base with
      switches := readSwitches atSwitches pid
      io := readIo atIo pid
      ioWaitNs := readIoWaitNs atIoWait pid
      rqWaitNs := readRqWaitNs atRqWait pid },
    registerPid (gaps.register.foldl handleEvent atRqWait) pid)

/-- What a slow-path pass reads, and the maps after it. -/
def PassGaps.run (gaps : PassGaps) (base : SlowReadings) (pid : UInt32)
    (s : BpfMaps sizes) : SlowReadings × BpfMaps sizes :=
  let atSwitches := gaps.switches.foldl handleEvent s
  let atIoWait := gaps.ioWait.foldl handleEvent atSwitches
  let atRqWait := gaps.rqWait.foldl handleEvent atIoWait
  let atIo := gaps.io.foldl handleEvent atRqWait
  let atLastCpu := gaps.lastCpu.foldl handleEvent atIo
  ({ base with
      ctx := readSwitches atSwitches pid
      ioWaitNs := readIoWaitNs atIoWait pid
      rqWaitNs := readRqWaitNs atRqWait pid
      io := readIo atIo pid
      lastCpu := readLastCpu atLastCpu pid },
    atLastCpu)

end Schedmon
