import Mathlib.Logic.Function.Basic
import Mathlib.Data.Fintype.Basic
import Schedmon.PerfCounter
import Schedmon.ProcScanner
import Schedmon.SlidingWindow
import Schedmon.SmoothedMetrics

/-!
# The daemon's per-slot arrays

The fourteen parallel arrays of the daemon and the three functions that insert,
find and delete a slot.  Every externally visible action is appended to a log.
-/

namespace Schedmon

/-- `MAX_PIDS`. -/
def maxPids : Nat := 256

/-- `PROC_IO_READ_FAIL`, which is `UINT64_MAX`. -/
def procIoReadFail : UInt64 := 18446744073709551615

/-- `PidState`. -/
structure PidState where
  pid : Int
  active : Bool
  ioFd : Int
  prevCpuId : Int
  migrationCount : Nat
  prevCycles : UInt64
  prevInstructions : UInt64
  prevLlc : UInt64
  prevCtx : UInt64
  prevIoProc : UInt64
  prevIoSyscall : UInt64
  prevIo : UInt64
  prevIoWaitNs : UInt64
  prevRqWaitNs : UInt64
  prevIoCount : UInt64
  deriving DecidableEq

/-- `PidState` after `memset`. -/
def PidState.zero : PidState where
  pid := 0
  active := false
  ioFd := 0
  prevCpuId := 0
  migrationCount := 0
  prevCycles := 0
  prevInstructions := 0
  prevLlc := 0
  prevCtx := 0
  prevIoProc := 0
  prevIoSyscall := 0
  prevIo := 0
  prevIoWaitNs := 0
  prevRqWaitNs := 0
  prevIoCount := 0

/-- One call of `read_proc_io_fd`: its result, and what it stored through
`out_syscall_bytes`, if it got that far. -/
structure ProcIoRead where
  result : UInt64
  syscallBytes : Option UInt64
  deriving DecidableEq

/-- Everything one `add_pid` call reads. -/
structure AddReadings where
  perf : PerfOpenAnswers
  seed : PerfReadAnswer
  switches : UInt64
  io : UInt64
  ioWaitNs : UInt64
  rqWaitNs : UInt64
  ioFd : OpenResult
  procIo : ProcIoRead
  /-- The pending `exec` name, if there is one. -/
  execComm : Option Comm
  procComm : Comm
  deriving DecidableEq

/-- Everything the slow path reads for one slot. -/
structure SlowReadings where
  hw : PerfReadAnswer
  ctx : UInt64
  ioWaitNs : UInt64
  rqWaitNs : UInt64
  procIo : ProcIoRead
  reopened : OpenResult
  procIoAgain : ProcIoRead
  io : UInt64
  lastCpu : Int
  execComm : Option Comm
  deriving DecidableEq

/-- The eight samples that one slow-path pass pushes into a slot's windows. -/
structure RawSample where
  ipc : ℚ
  llcRate : ℚ
  ctxFreq : ℚ
  ioFreq : ℚ
  ioWaitMs : ℚ
  rqWaitMs : ℚ
  migrationFreq : ℚ
  ioSyscallFreq : ℚ
  deriving DecidableEq

/-- The two rings: `g_rb` and `g_rb_dash`. -/
inductive Ring
  | classifier
  | dashboard
  deriving DecidableEq

/-- What the daemon does, as far as it can be seen from outside a slot. -/
inductive Event
  /-- A tick begins; `slow` marks every fourth one. -/
  | tick (now : UInt64) (slow : Bool)
  /-- A descriptor is opened or closed on behalf of a pid. -/
  | fd (pid : Int) (op : FdOp)
  /-- `add_pid` succeeded. -/
  | added (pid : Int) (readings : AddReadings)
  /-- `remove_slot` removed this pid's slot. -/
  | removed (pid : Int)
  /-- A regression reset took new baselines and skipped the interval. -/
  | rebased (pid : Int) (readings : SlowReadings)
  /-- The slow path pushed a sample into each of the slot's windows: the slot's
  state before, what was read, the divisor, and the recomputed metrics. -/
  | sampled (pid : Int) (prior : PidState) (hw : RawCounters)
      (readings : SlowReadings) (slowDt : ℚ) (metrics : SmoothedMetrics)
  /-- `rb_push` was called on a ring. -/
  | pushed (ring : Ring) (m : SmoothedMetrics)
  deriving DecidableEq

/-- The pid an event is about. -/
def Event.pid? : Event → Option Int
  | .tick _ _ => none
  | .fd pid _ => some pid
  | .added pid _ => some pid
  | .removed pid => some pid
  | .rebased pid _ => some pid
  | .sampled pid _ _ _ _ _ => some pid
  | .pushed _ m => some m.pid

/-- The contents of all fourteen arrays at one index. -/
structure SlotRecord where
  state : PidState
  winIpc : SlidingWindow
  winLlc : SlidingWindow
  winCtx : SlidingWindow
  winIo : SlidingWindow
  winIoWait : SlidingWindow
  winRqWait : SlidingWindow
  winMigration : SlidingWindow
  winIoSyscall : SlidingWindow
  perf : PerfCounter
  lastSm : SmoothedMetrics
  lastSmValid : Bool
  lastSmUpdatedNs : UInt64
  comm : Comm
  deriving DecidableEq

/-- The pid a slot is tracking. -/
def SlotRecord.pid (r : SlotRecord) : Int := r.state.pid

/-- The daemon's file-scope variables.  `g_n_active` never exceeds the length
of the arrays. -/
structure Daemon where
  gStates : Fin maxPids → PidState
  gWinIpc : Fin maxPids → SlidingWindow
  gWinLlc : Fin maxPids → SlidingWindow
  gWinCtx : Fin maxPids → SlidingWindow
  gWinIo : Fin maxPids → SlidingWindow
  gWinIoWait : Fin maxPids → SlidingWindow
  gWinRqWait : Fin maxPids → SlidingWindow
  gWinMigration : Fin maxPids → SlidingWindow
  gWinIoSyscall : Fin maxPids → SlidingWindow
  gPerf : Fin maxPids → PerfCounter
  gLastSm : Fin maxPids → SmoothedMetrics
  gLastSmValid : Fin maxPids → Bool
  gLastSmUpdatedNs : Fin maxPids → UInt64
  gComm : Fin maxPids → Comm
  gNActive : Nat
  gNActive_le : gNActive ≤ maxPids
  gScanner : ProcScanner
  /-- `last_sync` of `sync_pids`. -/
  lastSync : UInt64
  /-- `first_run` of `sync_pids`. -/
  firstRun : Bool

/-- The zeroed file-scope variables at program start. -/
def Daemon.start : Daemon where
  gStates := fun _ => PidState.zero
  gWinIpc := fun _ => swInit
  gWinLlc := fun _ => swInit
  gWinCtx := fun _ => swInit
  gWinIo := fun _ => swInit
  gWinIoWait := fun _ => swInit
  gWinRqWait := fun _ => swInit
  gWinMigration := fun _ => swInit
  gWinIoSyscall := fun _ => swInit
  gPerf := fun _ => { PerfCounter.closed with fdCycles := 0, fdInstr := 0, fdLlc := 0 }
  gLastSm := fun _ => SmoothedMetrics.zero
  gLastSmValid := fun _ => false
  gLastSmUpdatedNs := fun _ => 0
  gComm := fun _ => []
  gNActive := 0
  gNActive_le := Nat.zero_le _
  gScanner := procScannerInit
  lastSync := 0
  firstRun := true

/-- The daemon's variables and its log, oldest event first. -/
structure World where
  daemon : Daemon
  log : List Event

namespace Daemon

variable (s : Daemon)

/-- All fourteen arrays at one index. -/
def slot (i : Fin maxPids) : SlotRecord where
  state := s.gStates i
  winIpc := s.gWinIpc i
  winLlc := s.gWinLlc i
  winCtx := s.gWinCtx i
  winIo := s.gWinIo i
  winIoWait := s.gWinIoWait i
  winRqWait := s.gWinRqWait i
  winMigration := s.gWinMigration i
  winIoSyscall := s.gWinIoSyscall i
  perf := s.gPerf i
  lastSm := s.gLastSm i
  lastSmValid := s.gLastSmValid i
  lastSmUpdatedNs := s.gLastSmUpdatedNs i
  comm := s.gComm i

/-- The index of a live slot. -/
def live {i : Nat} (below : i < s.gNActive) : Fin maxPids :=
  ⟨i, below.trans_le s.gNActive_le⟩

/-- The index of the last live slot. -/
def lastIndex : Fin maxPids :=
  ⟨s.gNActive - 1, by
    have bounded := s.gNActive_le
    unfold maxPids at *
    omega⟩

/-- Writes to the fourteen arrays at one index. -/
def setSlot (i : Fin maxPids) (r : SlotRecord) : Daemon :=
  { s with
    gStates := Function.update s.gStates i r.state
    gWinIpc := Function.update s.gWinIpc i r.winIpc
    gWinLlc := Function.update s.gWinLlc i r.winLlc
    gWinCtx := Function.update s.gWinCtx i r.winCtx
    gWinIo := Function.update s.gWinIo i r.winIo
    gWinIoWait := Function.update s.gWinIoWait i r.winIoWait
    gWinRqWait := Function.update s.gWinRqWait i r.winRqWait
    gWinMigration := Function.update s.gWinMigration i r.winMigration
    gWinIoSyscall := Function.update s.gWinIoSyscall i r.winIoSyscall
    gPerf := Function.update s.gPerf i r.perf
    gLastSm := Function.update s.gLastSm i r.lastSm
    gLastSmValid := Function.update s.gLastSmValid i r.lastSmValid
    gLastSmUpdatedNs := Function.update s.gLastSmUpdatedNs i r.lastSmUpdatedNs
    gComm := Function.update s.gComm i r.comm }

/-- The search loop of `find_slot`, over the first `bound` slots. -/
def findBelow (pid : Int) : Nat → Option (Fin maxPids)
  | 0 => none
  | bound + 1 =>
      match findBelow pid bound with
      | some i => some i
      | none =>
          if inside : bound < maxPids then
            if (s.gStates ⟨bound, inside⟩).pid = pid then some ⟨bound, inside⟩
            else none
          else none

/-- `find_slot`; `none` where it returns -1. -/
def findSlot (pid : Int) : Option (Fin maxPids) :=
  s.findBelow pid s.gNActive

end Daemon

namespace World

variable (w : World)

/-- Append one event to the log. -/
def emit (e : Event) : World :=
  { w with log := w.log ++ [e] }

/-- Append the descriptor operations made on behalf of a pid. -/
def emitFds (pid : Int) (ops : List FdOp) : World :=
  { w with log := w.log ++ ops.map (Event.fd pid) }

end World

/-- `seed_io` and `seed_syscall` of `add_pid`. -/
def seedProcIo (readings : AddReadings) : UInt64 × UInt64 :=
  match readings.ioFd with
  | .ok _ =>
      if readings.procIo.result = procIoReadFail then (0, 0)
      else (readings.procIo.result, readings.procIo.syscallBytes.getD 0)
  | .error _ => (0, 0)

/-- `g_states[i]` as `add_pid` leaves it: the baselines are what the process's
own counters read now. -/
def addedState (pid : Int) (readings : AddReadings) (opened : PerfCounter) :
    PidState :=
  let seed := (perfCounterRead opened readings.seed).getD RawCounters.zero
  let seedIo := seedProcIo readings
  { PidState.zero with
    ioFd := readings.ioFd.toFd
    prevCpuId := -1
    pid := pid
    active := true
    prevCycles := seed.cycles
    prevInstructions := seed.instructions
    prevLlc := seed.llcMisses
    prevCtx := readings.switches
    prevIo := readings.io
    prevIoWaitNs := readings.ioWaitNs
    prevRqWaitNs := readings.rqWaitNs
    prevIoCount := readings.io
    prevIoProc := seedIo.1
    prevIoSyscall := seedIo.2 }

/-- The part of `add_pid` after the counters are open: fill the slot after the
last live one. -/
def Daemon.fillSlot (s : Daemon) (room : s.gNActive < maxPids) (pid : Int)
    (readings : AddReadings) (opened : PerfCounter) : Daemon :=
  let i : Fin maxPids := ⟨s.gNActive, room⟩
  { s with
    gPerf := Function.update s.gPerf i opened
    gStates := Function.update s.gStates i (addedState pid readings opened)
    gLastSm := Function.update s.gLastSm i SmoothedMetrics.zero
    gComm := Function.update s.gComm i
      (readings.execComm.getD readings.procComm)
    gLastSmValid := Function.update s.gLastSmValid i false
    gLastSmUpdatedNs := Function.update s.gLastSmUpdatedNs i 0
    gWinIpc := Function.update s.gWinIpc i swInit
    gWinLlc := Function.update s.gWinLlc i swInit
    gWinCtx := Function.update s.gWinCtx i swInit
    gWinIo := Function.update s.gWinIo i swInit
    gWinIoWait := Function.update s.gWinIoWait i swInit
    gWinRqWait := Function.update s.gWinRqWait i swInit
    gWinMigration := Function.update s.gWinMigration i swInit
    gWinIoSyscall := Function.update s.gWinIoSyscall i swInit
    gNActive := s.gNActive + 1
    gNActive_le := room }

/-- The write to `g_perf[i]` of an `add_pid` that fails. -/
def Daemon.storePerf (s : Daemon) (i : Fin maxPids) (pc : PerfCounter) : Daemon :=
  { s with gPerf := Function.update s.gPerf i pc }

/-- `add_pid`: the slot, or `none` where it returns -1. -/
def addPid (w : World) (pid : Int) (readings : AddReadings) :
    Option (Fin maxPids) × World :=
  if room : w.daemon.gNActive < maxPids then
    let i : Fin maxPids := ⟨w.daemon.gNActive, room⟩
    let openResult := perfCounterOpen readings.perf pid (-1)
    let opened := openResult.2.1
    let openOps := openResult.2.2
    if openResult.1 ≠ 0 then
      let closeResult := perfCounterClose opened
      (none,
        ({ w with daemon := w.daemon.storePerf i closeResult.1 } : World).emitFds
          pid (openOps ++ closeResult.2))
    else
      (some i,
        (({ w with daemon := w.daemon.fillSlot room pid readings opened } :
          World).emitFds pid (openOps ++ readings.ioFd.ops)).emit
            (.added pid readings))
  else
    (none, w)

/-- The part of `remove_slot` that moves the last slot into a freed one. -/
def Daemon.copySlot (s : Daemon) (i last : Fin maxPids) : Daemon :=
  { s with
    gStates := Function.update s.gStates i (s.gStates last)
    gWinIpc := Function.update s.gWinIpc i (s.gWinIpc last)
    gWinLlc := Function.update s.gWinLlc i (s.gWinLlc last)
    gWinCtx := Function.update s.gWinCtx i (s.gWinCtx last)
    gWinIo := Function.update s.gWinIo i (s.gWinIo last)
    gWinIoWait := Function.update s.gWinIoWait i (s.gWinIoWait last)
    gWinRqWait := Function.update s.gWinRqWait i (s.gWinRqWait last)
    gWinMigration := Function.update s.gWinMigration i (s.gWinMigration last)
    gWinIoSyscall := Function.update s.gWinIoSyscall i (s.gWinIoSyscall last)
    gPerf := Function.update s.gPerf i (s.gPerf last)
    gLastSm := Function.update s.gLastSm i (s.gLastSm last)
    gLastSmValid := Function.update s.gLastSmValid i (s.gLastSmValid last)
    gLastSmUpdatedNs :=
      Function.update s.gLastSmUpdatedNs i (s.gLastSmUpdatedNs last)
    gComm := Function.update s.gComm i (s.gComm last) }

/-- The part of `remove_slot` that closes the slot's descriptors. -/
def Daemon.closeSlot (s : Daemon) (i : Fin maxPids) : Daemon :=
  let s :=
    if (s.gStates i).ioFd ≥ 0 then
      { s with
        gStates := Function.update s.gStates i { s.gStates i with ioFd := -1 } }
    else s
  { s with gPerf := Function.update s.gPerf i (perfCounterClose (s.gPerf i)).1 }

/-- The part of `remove_slot` that clears the last slot and shrinks the table. -/
def Daemon.dropLast (s : Daemon) (last : Fin maxPids) : Daemon :=
  { s with
    gLastSmValid := Function.update s.gLastSmValid last false
    gLastSmUpdatedNs := Function.update s.gLastSmUpdatedNs last 0
    gNActive := s.gNActive - 1
    gNActive_le := (Nat.sub_le _ _).trans s.gNActive_le }

/-- `remove_slot(i)` on a live slot. -/
def removeSlot (w : World) (i : Nat) (below : i < w.daemon.gNActive) : World :=
  let s := w.daemon
  let here := s.live below
  let last := s.lastIndex
  let ops := closeFd (s.gStates here).ioFd ++ (perfCounterClose (s.gPerf here)).2
  let closed := s.closeSlot here
  let moved := if here ≠ last then closed.copySlot here last else closed
  (({ w with daemon := moved.dropLast last } : World).emitFds
    (s.gStates here).pid ops).emit (.removed (s.gStates here).pid)

end Schedmon
