import Mathlib.Data.List.Basic

/-!
# Hardware counters of one process

`perf_counter_open`, `perf_counter_read` and `perf_counter_close`.  What the
kernel answers to the system calls is an argument; the descriptors that a call
opens and closes are its result, in order.
-/

namespace Schedmon

/-- The `errno` values the code tells apart. -/
inductive Errno
  | emfile
  | enfile
  | other
  deriving DecidableEq

/-- Outcome of an `open` or `perf_event_open`: a descriptor or an error. -/
abbrev OpenResult := Except Errno Nat

instance OpenResult.decEq : DecidableEq OpenResult
  | .ok fd, .ok other =>
      decidable_of_iff (fd = other) ⟨fun same => same ▸ rfl, Except.ok.inj⟩
  | .error errno, .error second =>
      decidable_of_iff (errno = second) ⟨fun same => same ▸ rfl, Except.error.inj⟩
  | .ok _, .error _ => isFalse fun same => by cases same
  | .error _, .ok _ => isFalse fun same => by cases same

/-- The `int` that the C function stores. -/
def OpenResult.toFd : OpenResult → Int
  | .ok fd => (fd : Int)
  | .error _ => -1

/-- A descriptor leaving or entering the process's table. -/
inductive FdOp
  | opened (fd : Int)
  | closed (fd : Int)
  deriving DecidableEq

/-- The descriptors that an open call adds. -/
def OpenResult.ops : OpenResult → List FdOp
  | .ok fd => [.opened fd]
  | .error _ => []

/-- `raw_counters_t`. -/
structure RawCounters where
  cycles : UInt64
  instructions : UInt64
  llcMisses : UInt64
  deriving DecidableEq

/-- `raw_counters_t` after `memset`. -/
def RawCounters.zero : RawCounters := ⟨0, 0, 0⟩

/-- `perf_counter_t`. -/
structure PerfCounter where
  pid : Int
  cpuId : Int
  fdCycles : Int
  fdInstr : Int
  fdLlc : Int
  hwAvailable : Int
  idCycles : UInt64
  idInstr : UInt64
  idLlc : UInt64
  deriving DecidableEq

/-- `perf_counter_t` with no descriptor, after `memset`. -/
def PerfCounter.closed : PerfCounter where
  pid := 0
  cpuId := 0
  fdCycles := -1
  fdInstr := -1
  fdLlc := -1
  hwAvailable := 0
  idCycles := 0
  idInstr := 0
  idLlc := 0

/-- What the kernel answers to the calls of one `perf_counter_open`. -/
structure PerfOpenAnswers where
  hwCycles : OpenResult
  swClock : OpenResult
  hwInstr : OpenResult
  hwLlc : OpenResult
  idCycles : UInt64
  idInstr : UInt64
  idLlc : UInt64
  deriving DecidableEq

/-- The close of one descriptor field. -/
def closeFd (fd : Int) : List FdOp :=
  if fd ≥ 0 then [.closed fd] else []

/-- `perf_counter_close`. -/
def perfCounterClose (pc : PerfCounter) : PerfCounter × List FdOp :=
  (PerfCounter.closed,
    closeFd pc.fdCycles ++ closeFd pc.fdInstr ++ closeFd pc.fdLlc)

/-- `perf_counter_open`: the return value, the counter, and the descriptors. -/
def perfCounterOpen (answers : PerfOpenAnswers) (pid cpuId : Int) :
    Int × PerfCounter × List FdOp :=
  let pc : PerfCounter :=
    { PerfCounter.closed with
      pid := pid
      cpuId := cpuId
      hwAvailable := 1
      fdCycles := answers.hwCycles.toFd }
  match answers.hwCycles with
  | .error .emfile => (-1, { pc with hwAvailable := 0 }, [])
  | .error .enfile => (-1, { pc with hwAvailable := 0 }, [])
  | .error .other =>
      -- no hardware counters here: one software clock instead of the group
      let pc := { pc with hwAvailable := 0, fdCycles := answers.swClock.toFd }
      match answers.swClock with
      | .error _ => (-1, pc, [])
      | .ok fd => (0, pc, [.opened fd])
  | .ok cyclesFd =>
      let pc := { pc with fdInstr := answers.hwInstr.toFd }
      match answers.hwInstr with
      | .error _ =>
          let (pc, closes) := perfCounterClose pc
          (-1, pc, [.opened cyclesFd] ++ closes)
      | .ok instrFd =>
          let pc := { pc with fdLlc := answers.hwLlc.toFd }
          match answers.hwLlc with
          | .error _ =>
              let (pc, closes) := perfCounterClose pc
              (-1, pc, [.opened cyclesFd, .opened instrFd] ++ closes)
          | .ok llcFd =>
              (0,
                { pc with
                  idCycles := answers.idCycles
                  idInstr := answers.idInstr
                  idLlc := answers.idLlc },
                [.opened cyclesFd, .opened instrFd, .opened llcFd])

/-- What `read` on the leader descriptor answers: a plain value, or a group of
`(value, id)` pairs; `none` is a failed or short read. -/
structure PerfReadAnswer where
  plain : Option UInt64
  group : Option (List (UInt64 × UInt64))
  deriving DecidableEq

/-- One `(value, id)` pair of a group read. -/
def PerfCounter.assign (pc : PerfCounter) (out : RawCounters)
    (entry : UInt64 × UInt64) : RawCounters :=
  if entry.2 = pc.idCycles then { out with cycles := entry.1 }
  else if entry.2 = pc.idInstr then { out with instructions := entry.1 }
  else if entry.2 = pc.idLlc then { out with llcMisses := entry.1 }
  else out

/-- `perf_counter_read`: `none` where it returns -1. -/
def perfCounterRead (pc : PerfCounter) (answer : PerfReadAnswer) :
    Option RawCounters :=
  if pc.hwAvailable = 0 then
    answer.plain.map fun value => { RawCounters.zero with cycles := value }
  else
    answer.group.map fun values =>
      (values.take 3).foldl pc.assign RawCounters.zero

end Schedmon
