import Schedmon.Library.BoundedMap
import Schedmon.ProcScanner

/-!
# The BPF programs

The nine maps of `ctx_switch.bpf.c` and its seven handlers, each run to its end.
What a handler reads from its context, the clock and the CPU are arguments.
-/

namespace Schedmon

open Library

/-- `max_entries` of the maps; `none` for a map that never fills. -/
structure MapSizes where
  /-- Of the eight maps that are keyed by a pid. -/
  pids : Option Nat
  /-- Of `bio_inflight`. -/
  requests : Option Nat

/-- The sizes that the program declares. -/
def MapSizes.declared : MapSizes where
  pids := some 10240
  requests := some 4096

/-- The sizes with which every update succeeds. -/
@[reducible] def MapSizes.unlimited : MapSizes where
  pids := none
  requests := none

/-- `bio_info`. -/
structure BioInfo where
  issueTs : UInt64
  pid : UInt32
  deriving DecidableEq

/-- The nine maps. -/
structure BpfMaps (sizes : MapSizes) where
  volCtxSwitch : BoundedMap sizes.pids UInt32 UInt64
  activePids : BoundedMap sizes.pids UInt32 UInt32
  ioCounts : BoundedMap sizes.pids UInt32 UInt64
  ioWaitNs : BoundedMap sizes.pids UInt32 UInt64
  rqEnqueueTs : BoundedMap sizes.pids UInt32 UInt64
  rqWaitNs : BoundedMap sizes.pids UInt32 UInt64
  execComms : BoundedMap sizes.pids UInt32 Comm
  pidLastCpu : BoundedMap sizes.pids UInt32 UInt32
  bioInflight : BoundedMap sizes.requests UInt64 BioInfo

/-- The maps when the program is loaded. -/
def BpfMaps.start (sizes : MapSizes) : BpfMaps sizes where
  volCtxSwitch := .empty
  activePids := .empty
  ioCounts := .empty
  ioWaitNs := .empty
  rqEnqueueTs := .empty
  rqWaitNs := .empty
  execComms := .empty
  pidLastCpu := .empty
  bioInflight := .empty

/-- What `handle_sched_switch` reads of `sched_switch_args`. -/
structure SchedSwitchArgs where
  prevPid : UInt32
  prevState : Int64
  nextPid : UInt32
  deriving DecidableEq

/-- A wait on the run queue that is longer is not counted. -/
def rqWaitLimitNs : UInt64 := 10000000000

/-- A wait for a block request that is longer is not counted. -/
def ioWaitLimitNs : UInt64 := 30000000000

section Handlers

variable {sizes : MapSizes} (s : BpfMaps sizes)

/-- The first part of `handle_sched_switch`: where the tasks ran. -/
def storeLastCpu (ctx : SchedSwitchArgs) (cpu : UInt32) : BpfMaps sizes :=
  let s :=
    if ctx.prevPid > 1 then
      { s with pidLastCpu := s.pidLastCpu.update ctx.prevPid cpu .any }
    else s
  if ctx.nextPid > 1 then
    { s with pidLastCpu := s.pidLastCpu.update ctx.nextPid cpu .any }
  else s

/-- The second part: the previous task went to sleep. -/
def countVoluntary (ctx : SchedSwitchArgs) : BpfMaps sizes :=
  if ctx.prevPid ≠ 0 ∧ ctx.prevState ≠ 0 then
    { s with volCtxSwitch := s.volCtxSwitch.addTo ctx.prevPid 1 }
  else s

/-- The last part: the next task waited on the run queue. -/
def accountRqWait (ctx : SchedSwitchArgs) (now : UInt64) : BpfMaps sizes :=
  if ctx.nextPid = 0 then s
  else
    match s.rqEnqueueTs.lookup ctx.nextPid with
    | some enqueueTs =>
        if enqueueTs > 0 then
          let wait := now - enqueueTs
          let s :=
            if wait < rqWaitLimitNs then
              { s with rqWaitNs := s.rqWaitNs.addTo ctx.nextPid wait }
            else s
          { s with rqEnqueueTs := s.rqEnqueueTs.update ctx.nextPid 0 .any }
        else s
    | none => s

/-- `handle_sched_switch`. -/
def handleSchedSwitch (ctx : SchedSwitchArgs) (now : UInt64) (cpu : UInt32) :
    BpfMaps sizes :=
  accountRqWait (countVoluntary (storeLastCpu s ctx cpu) ctx) ctx now

/-- `handle_sched_wakeup`. -/
def handleSchedWakeup (pid : UInt32) (now : UInt64) : BpfMaps sizes :=
  if pid ≤ 1 then s
  else { s with rqEnqueueTs := s.rqEnqueueTs.update pid now .any }

/-- `handle_fork`. -/
def handleFork (childPid : UInt32) : BpfMaps sizes :=
  if childPid ≤ 1 then s
  else
    { s with
      activePids := s.activePids.update childPid 1 .any
      volCtxSwitch := s.volCtxSwitch.update childPid 0 .noExist
      ioCounts := s.ioCounts.update childPid 0 .noExist
      ioWaitNs := s.ioWaitNs.update childPid 0 .noExist
      rqWaitNs := s.rqWaitNs.update childPid 0 .noExist }

/-- `handle_exit`. -/
def handleExit (pid : UInt32) (groupDead : Bool) : BpfMaps sizes :=
  if pid ≤ 1 ∨ groupDead = false then s
  else
    { s with
      activePids := s.activePids.delete pid
      volCtxSwitch := s.volCtxSwitch.delete pid
      ioCounts := s.ioCounts.delete pid
      ioWaitNs := s.ioWaitNs.delete pid
      rqEnqueueTs := s.rqEnqueueTs.delete pid
      rqWaitNs := s.rqWaitNs.delete pid
      execComms := s.execComms.delete pid
      pidLastCpu := s.pidLastCpu.delete pid }

/-- `handle_exec`, in the context of a thread of process `pid`. -/
def handleExec (pid : UInt32) (comm : Comm) : BpfMaps sizes :=
  if pid ≤ 1 then s
  else
    { s with
      execComms := s.execComms.update pid comm .any
      activePids := s.activePids.update pid 1 .noExist }

/-- `handle_block_rq_issue`, in the context of a thread of process `pid`. -/
def handleBlockRqIssue (pid : UInt32) (rqPtr now : UInt64) : BpfMaps sizes :=
  if pid ≤ 1 then s
  else
    { s with
      bioInflight := s.bioInflight.update rqPtr { issueTs := now, pid := pid } .any }

/-- The part of `handle_block_rq_complete` that charges a completed request. -/
def chargeRequest (info : BioInfo) (now : UInt64) : BpfMaps sizes :=
  match s.activePids.lookup info.pid with
  | none => s
  | some _ =>
      let s := { s with ioCounts := s.ioCounts.addTo info.pid 1 }
      if info.issueTs > 0 then
        let wait := now - info.issueTs
        if wait < ioWaitLimitNs then
          { s with ioWaitNs := s.ioWaitNs.addTo info.pid wait }
        else s
      else s

/-- `handle_block_rq_complete`. -/
def handleBlockRqComplete (rqPtr now : UInt64) : BpfMaps sizes :=
  match s.bioInflight.lookup rqPtr with
  | none => s
  | some info =>
      chargeRequest { s with bioInflight := s.bioInflight.delete rqPtr } info now

end Handlers

/-! ## The maps that a part of a handler writes -/

section Frames

variable {sizes : MapSizes} (s : BpfMaps sizes)

theorem storeLastCpu_eq (ctx : SchedSwitchArgs) (cpu : UInt32) :
    ∃ cpus, storeLastCpu s ctx cpu = { s with pidLastCpu := cpus } := by
  unfold storeLastCpu
  dsimp only
  split <;> split <;> exact ⟨_, rfl⟩

theorem accountRqWait_eq (ctx : SchedSwitchArgs) (now : UInt64) :
    ∃ waits enqueued, accountRqWait s ctx now =
      { s with
        rqWaitNs := waits
        rqEnqueueTs := enqueued } := by
  unfold accountRqWait
  split
  · exact ⟨_, _, rfl⟩
  · split
    · split
      · dsimp only
        split <;> exact ⟨_, _, rfl⟩
      · exact ⟨_, _, rfl⟩
    · exact ⟨_, _, rfl⟩

theorem chargeRequest_eq (info : BioInfo) (now : UInt64) :
    ∃ counts waits, chargeRequest s info now =
      { s with
        ioCounts := counts
        ioWaitNs := waits } := by
  unfold chargeRequest
  split
  · exact ⟨_, _, rfl⟩
  · dsimp only
    split
    · split <;> exact ⟨_, _, rfl⟩
    · exact ⟨_, _, rfl⟩

/-- `handle_sched_switch` counts the switch, and writes no other map that
counts events. -/
theorem handleSchedSwitch_eq (ctx : SchedSwitchArgs) (now : UInt64) (cpu : UInt32) :
    ∃ cpus waits enqueued, handleSchedSwitch s ctx now cpu =
      { countVoluntary s ctx with
        pidLastCpu := cpus
        rqWaitNs := waits
        rqEnqueueTs := enqueued } := by
  obtain ⟨cpus, stored⟩ := storeLastCpu_eq s ctx cpu
  obtain ⟨waits, enqueued, accounted⟩ :=
    accountRqWait_eq (countVoluntary (storeLastCpu s ctx cpu) ctx) ctx now
  refine ⟨cpus, waits, enqueued, ?_⟩
  unfold handleSchedSwitch
  rw [accounted, stored]
  unfold countVoluntary
  split <;> rfl

end Frames

/-- A tracepoint event. -/
inductive KernelEvent
  | schedSwitch (ctx : SchedSwitchArgs) (now : UInt64) (cpu : UInt32)
  | schedWakeup (pid : UInt32) (now : UInt64)
  /-- A new task, and the process that it belongs to, which the handler does not
  see. -/
  | fork (childPid process : UInt32)
  | exit (pid : UInt32) (groupDead : Bool)
  | exec (pid : UInt32) (comm : Comm)
  | blockRqIssue (pid : UInt32) (rqPtr now : UInt64)
  | blockRqComplete (rqPtr now : UInt64)
  deriving DecidableEq

/-- The handler of an event. -/
def handleEvent (s : BpfMaps sizes) : KernelEvent → BpfMaps sizes
  | .schedSwitch ctx now cpu => handleSchedSwitch s ctx now cpu
  | .schedWakeup pid now => handleSchedWakeup s pid now
  | .fork childPid _ => handleFork s childPid
  | .exit pid groupDead => handleExit s pid groupDead
  | .exec pid comm => handleExec s pid comm
  | .blockRqIssue pid rqPtr now => handleBlockRqIssue s pid rqPtr now
  | .blockRqComplete rqPtr now => handleBlockRqComplete s rqPtr now

/-- The maps after a history of events, from empty maps. -/
def mapsAfter (sizes : MapSizes) (events : List KernelEvent) : BpfMaps sizes :=
  events.foldl handleEvent (BpfMaps.start sizes)

theorem mapsAfter_append (sizes : MapSizes) (events later : List KernelEvent) :
    mapsAfter sizes (events ++ later) =
      later.foldl handleEvent (mapsAfter sizes events) :=
  List.foldl_append

theorem mapsAfter_snoc (sizes : MapSizes) (events : List KernelEvent)
    (e : KernelEvent) :
    mapsAfter sizes (events ++ [e]) = handleEvent (mapsAfter sizes events) e := by
  rw [mapsAfter_append]
  rfl

end Schedmon
