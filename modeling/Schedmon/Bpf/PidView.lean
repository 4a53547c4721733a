import Schedmon.Bpf.Handlers

/-!
# The maps as one pid sees them

Where every update succeeds, what the maps hold for one pid evolves by itself:
no handler lets the entries of another pid into it.
-/

namespace Schedmon

open Library

/-- The entries of one pid that the counters depend on. -/
@[ext]
structure PidView where
  volCtxSwitch : Option UInt64
  activePids : Option UInt32
  ioCounts : Option UInt64
  ioWaitNs : Option UInt64
  rqEnqueueTs : Option UInt64
  rqWaitNs : Option UInt64
  /-- When the pid issued each request that is in flight. -/
  inflight : UInt64 → Option UInt64

/-- No entry, and no request in flight. -/
def PidView.blank : PidView where
  volCtxSwitch := none
  activePids := none
  ioCounts := none
  ioWaitNs := none
  rqEnqueueTs := none
  rqWaitNs := none
  inflight := fun _ => none

/-- When a pid issued a request that is in flight. -/
def issuedBy (pid : UInt32) (info : Option BioInfo) : Option UInt64 :=
  info.bind fun info => if info.pid = pid then some info.issueTs else none

/-- What the maps hold for a pid. -/
def BpfMaps.view {sizes : MapSizes} (s : BpfMaps sizes) (pid : UInt32) : PidView where
  volCtxSwitch := s.volCtxSwitch.lookup pid
  activePids := s.activePids.lookup pid
  ioCounts := s.ioCounts.lookup pid
  ioWaitNs := s.ioWaitNs.lookup pid
  rqEnqueueTs := s.rqEnqueueTs.lookup pid
  rqWaitNs := s.rqWaitNs.lookup pid
  inflight := fun rqPtr => issuedBy pid (s.bioInflight.lookup rqPtr)

/-- A counter after an addition. -/
def plus (counter : Option UInt64) (amount : UInt64) : Option UInt64 :=
  some (counter.elim amount (· + amount))

/-- The run-queue wait of a switch-in. -/
def PidView.switchIn (v : PidView) (now : UInt64) : PidView :=
  match v.rqEnqueueTs with
  | some enqueueTs =>
      if enqueueTs > 0 then
        { v with
          rqWaitNs :=
            if now - enqueueTs < rqWaitLimitNs then plus v.rqWaitNs (now - enqueueTs)
            else v.rqWaitNs
          rqEnqueueTs := some 0 }
      else v
  | none => v

/-- The charge for a completed request that was issued at a given time. -/
def PidView.charge (v : PidView) (issueTs now : UInt64) : PidView :=
  match v.activePids with
  | none => v
  | some _ =>
      { v with
        ioCounts := plus v.ioCounts 1
        ioWaitNs :=
          if issueTs > 0 ∧ now - issueTs < ioWaitLimitNs then
            plus v.ioWaitNs (now - issueTs)
          else v.ioWaitNs }

/-- A request is no longer in flight. -/
def PidView.drop (v : PidView) (rqPtr : UInt64) : PidView :=
  { v with inflight := Function.update v.inflight rqPtr none }

/-- What an event does to the entries of a pid. -/
def PidView.step (pid : UInt32) (v : PidView) : KernelEvent → PidView
  | .schedSwitch ctx now _ =>
      let v :=
        if ctx.prevPid = pid ∧ pid ≠ 0 ∧ ctx.prevState ≠ 0 then
          { v with volCtxSwitch := plus v.volCtxSwitch 1 }
        else v
      if ctx.nextPid = pid ∧ pid ≠ 0 then v.switchIn now else v
  | .schedWakeup other now =>
      if other = pid ∧ pid > 1 then { v with rqEnqueueTs := some now } else v
  | .fork childPid _ =>
      if childPid = pid ∧ pid > 1 then
        { v with
          activePids := some 1
          volCtxSwitch := some (v.volCtxSwitch.getD 0)
          ioCounts := some (v.ioCounts.getD 0)
          ioWaitNs := some (v.ioWaitNs.getD 0)
          rqWaitNs := some (v.rqWaitNs.getD 0) }
      else v
  | .exit other groupDead =>
      if other = pid ∧ pid > 1 ∧ groupDead = true then
        { PidView.blank with inflight := v.inflight }
      else v
  | .exec other _ =>
      if other = pid ∧ pid > 1 then
        { v with activePids := some (v.activePids.getD 1) }
      else v
  | .blockRqIssue other rqPtr now =>
      if other > 1 then
        { v with inflight :=
            Function.update v.inflight rqPtr (if other = pid then some now else none) }
      else v
  | .blockRqComplete rqPtr now =>
      match v.inflight rqPtr with
      | some issueTs => (v.drop rqPtr).charge issueTs now
      | none => v

section

variable (v : PidView)

@[simp] theorem PidView.switchIn_volCtxSwitch (now : UInt64) :
    (v.switchIn now).volCtxSwitch = v.volCtxSwitch := by
  unfold PidView.switchIn
  split
  · split <;> rfl
  · rfl

@[simp] theorem PidView.switchIn_inflight (now : UInt64) :
    (v.switchIn now).inflight = v.inflight := by
  unfold PidView.switchIn
  split
  · split <;> rfl
  · rfl

@[simp] theorem PidView.switchIn_activePids (now : UInt64) :
    (v.switchIn now).activePids = v.activePids := by
  unfold PidView.switchIn
  split
  · split <;> rfl
  · rfl

theorem PidView.switchIn_eq (now : UInt64) :
    ∃ enqueued waits, v.switchIn now =
      { v with
        rqEnqueueTs := enqueued
        rqWaitNs := waits } := by
  unfold PidView.switchIn
  split
  · split <;> exact ⟨_, _, rfl⟩
  · exact ⟨_, _, rfl⟩

/-- A switch counts a sleep and a wait on the run queue, and nothing else. -/
theorem PidView.step_schedSwitch_eq
    (pid : UInt32)
    (ctx : SchedSwitchArgs)
    (now : UInt64)
    (cpu : UInt32) :
    ∃ switches enqueued waits, v.step pid (.schedSwitch ctx now cpu) =
      { v with
        volCtxSwitch := switches
        rqEnqueueTs := enqueued
        rqWaitNs := waits } := by
  simp only [step]
  split
  · obtain ⟨enqueued, waits, same⟩ := PidView.switchIn_eq
      (if ctx.prevPid = pid ∧ pid ≠ 0 ∧ ctx.prevState ≠ 0 then
        { v with volCtxSwitch := plus v.volCtxSwitch 1 }
      else v) now
    rw [same]
    split <;> exact ⟨_, _, _, rfl⟩
  · split <;> exact ⟨_, _, _, rfl⟩

@[simp] theorem PidView.charge_activePids (issueTs now : UInt64) :
    (v.charge issueTs now).activePids = v.activePids := by
  unfold PidView.charge
  split <;> rfl

@[simp] theorem PidView.charge_volCtxSwitch (issueTs now : UInt64) :
    (v.charge issueTs now).volCtxSwitch = v.volCtxSwitch := by
  unfold PidView.charge
  split <;> rfl

@[simp] theorem PidView.charge_inflight (issueTs now : UInt64) :
    (v.charge issueTs now).inflight = v.inflight := by
  unfold PidView.charge
  split <;> rfl

@[simp] theorem PidView.drop_inflight (rqPtr : UInt64) :
    (v.drop rqPtr).inflight = Function.update v.inflight rqPtr none := rfl

end

/-! ## The maps refine the view -/

section

variable (s : BpfMaps .unlimited) (pid : UInt32)

theorem view_storeLastCpu (ctx : SchedSwitchArgs) (cpu : UInt32) :
    (storeLastCpu s ctx cpu).view pid = s.view pid := by
  unfold storeLastCpu
  dsimp only
  split <;> split <;> rfl

theorem view_countVoluntary (ctx : SchedSwitchArgs) :
    (countVoluntary s ctx).view pid =
      if ctx.prevPid = pid ∧ pid ≠ 0 ∧ ctx.prevState ≠ 0 then
        { s.view pid with volCtxSwitch := plus (s.view pid).volCtxSwitch 1 }
      else s.view pid := by
  unfold countVoluntary
  by_cases own : ctx.prevPid = pid
  · subst own
    simp only [true_and]
    split
    · simp [BpfMaps.view, plus]
    · rfl
  · rw [if_neg (c := ctx.prevPid = pid ∧ _) fun both => own both.1]
    split
    · simp [BpfMaps.view, Ne.symm own]
    · rfl

theorem view_accountRqWait (ctx : SchedSwitchArgs) (now : UInt64) :
    (accountRqWait s ctx now).view pid =
      if ctx.nextPid = pid ∧ pid ≠ 0 then (s.view pid).switchIn now
      else s.view pid := by
  unfold accountRqWait
  by_cases own : ctx.nextPid = pid
  · subst own
    by_cases idle : ctx.nextPid = 0
    · simp [idle]
    · rw [if_neg idle, if_pos ⟨rfl, idle⟩]
      cases found : s.rqEnqueueTs.lookup ctx.nextPid with
      | none => simp [PidView.switchIn, BpfMaps.view, found]
      | some enqueueTs =>
          by_cases queued : enqueueTs > 0
          · by_cases short : now - enqueueTs < rqWaitLimitNs
            · simp [PidView.switchIn, BpfMaps.view, found, queued, short, plus]
            · simp [PidView.switchIn, BpfMaps.view, found, queued, short]
          · simp [PidView.switchIn, BpfMaps.view, found, queued]
  · rw [if_neg (c := ctx.nextPid = pid ∧ _) fun both => own both.1]
    split
    · rfl
    · split
      · split
        · dsimp only
          split
          · simp [BpfMaps.view, Ne.symm own]
          · simp [BpfMaps.view, Ne.symm own]
        · rfl
      · rfl

theorem view_handleSchedSwitch
    (ctx : SchedSwitchArgs)
    (now : UInt64)
    (cpu : UInt32) :
    (handleSchedSwitch s ctx now cpu).view pid =
      (s.view pid).step pid (.schedSwitch ctx now cpu) := by
  unfold handleSchedSwitch
  rw [view_accountRqWait, view_countVoluntary, view_storeLastCpu]
  rfl

theorem view_handleSchedWakeup (other : UInt32) (now : UInt64) :
    (handleSchedWakeup s other now).view pid =
      (s.view pid).step pid (.schedWakeup other now) := by
  unfold handleSchedWakeup PidView.step
  by_cases own : other = pid
  · subst own
    by_cases kernel : other ≤ 1
    · simp [kernel, UInt32.not_lt.mpr kernel]
    · simp [kernel, UInt32.not_le.mp kernel, BpfMaps.view]
  · simp only [own, false_and, if_false]
    split
    · rfl
    · simp [BpfMaps.view, Ne.symm own]

theorem view_handleFork (childPid process : UInt32) :
    (handleFork s childPid).view pid =
      (s.view pid).step pid (.fork childPid process) := by
  unfold handleFork PidView.step
  by_cases own : childPid = pid
  · subst own
    by_cases kernel : childPid ≤ 1
    · simp [kernel, UInt32.not_lt.mpr kernel]
    · simp [kernel, UInt32.not_le.mp kernel, BpfMaps.view]
  · simp only [own, false_and, if_false]
    split
    · rfl
    · simp [BpfMaps.view, Ne.symm own]

theorem view_handleExit (other : UInt32) (groupDead : Bool) :
    (handleExit s other groupDead).view pid =
      (s.view pid).step pid (.exit other groupDead) := by
  unfold handleExit PidView.step
  by_cases own : other = pid
  · subst own
    by_cases kernel : other ≤ 1
    · simp [kernel, UInt32.not_lt.mpr kernel]
    · cases groupDead with
      | false => simp
      | true => simp [kernel, UInt32.not_le.mp kernel, BpfMaps.view, PidView.blank]
  · simp only [own, false_and, if_false]
    split
    · rfl
    · simp [BpfMaps.view, Ne.symm own]

theorem view_handleExec (other : UInt32) (comm : Comm) :
    (handleExec s other comm).view pid =
      (s.view pid).step pid (.exec other comm) := by
  unfold handleExec PidView.step
  by_cases own : other = pid
  · subst own
    by_cases kernel : other ≤ 1
    · simp [kernel, UInt32.not_lt.mpr kernel]
    · simp [kernel, UInt32.not_le.mp kernel, BpfMaps.view]
  · simp only [own, false_and, if_false]
    split
    · rfl
    · simp [BpfMaps.view, Ne.symm own]

theorem view_handleBlockRqIssue (other : UInt32) (rqPtr now : UInt64) :
    (handleBlockRqIssue s other rqPtr now).view pid =
      (s.view pid).step pid (.blockRqIssue other rqPtr now) := by
  unfold handleBlockRqIssue PidView.step
  by_cases kernel : other ≤ 1
  · simp [kernel, UInt32.not_lt.mpr kernel]
  · simp only [kernel, UInt32.not_le.mp kernel, if_false, if_true]
    ext1
    case inflight =>
      funext ptr
      by_cases same : ptr = rqPtr
      · simp [BpfMaps.view, same, issuedBy]
      · simp [BpfMaps.view, same]
    all_goals rfl

theorem view_chargeRequest (info : BioInfo) (now : UInt64) :
    (chargeRequest s info now).view pid =
      if info.pid = pid then (s.view pid).charge info.issueTs now
      else s.view pid := by
  unfold chargeRequest
  by_cases own : info.pid = pid
  · subst own
    rw [if_pos rfl]
    cases tracked : s.activePids.lookup info.pid with
    | none => simp [PidView.charge, BpfMaps.view, tracked]
    | some active =>
        by_cases stamped : info.issueTs > 0
        · by_cases short : now - info.issueTs < ioWaitLimitNs
          · simp [PidView.charge, BpfMaps.view, tracked, stamped, short, plus]
          · simp [PidView.charge, BpfMaps.view, tracked, stamped, short, plus]
        · simp [PidView.charge, BpfMaps.view, tracked, stamped, plus]
  · rw [if_neg own]
    split
    · rfl
    · dsimp only
      split
      · split
        · simp [BpfMaps.view, Ne.symm own]
        · simp [BpfMaps.view, Ne.symm own]
      · simp [BpfMaps.view, Ne.symm own]

theorem view_deleteRequest (rqPtr : UInt64) :
    ({ s with bioInflight := s.bioInflight.delete rqPtr } : BpfMaps .unlimited).view
      pid = (s.view pid).drop rqPtr := by
  unfold PidView.drop
  ext1
  case inflight =>
    funext ptr
    by_cases same : ptr = rqPtr
    · simp [BpfMaps.view, same, issuedBy]
    · simp [BpfMaps.view, same]
  all_goals rfl

/-- Dropping a request that is not in flight changes nothing. -/
theorem PidView.drop_of_none
    {v : PidView}
    {rqPtr : UInt64}
    (missing : v.inflight rqPtr = none) :
    v.drop rqPtr = v := by
  unfold PidView.drop
  rw [← missing, Function.update_eq_self]

theorem view_handleBlockRqComplete (rqPtr now : UInt64) :
    (handleBlockRqComplete s rqPtr now).view pid =
      (s.view pid).step pid (.blockRqComplete rqPtr now) := by
  have inflight : (s.view pid).inflight rqPtr =
      issuedBy pid (s.bioInflight.lookup rqPtr) := rfl
  unfold handleBlockRqComplete PidView.step
  cases found : s.bioInflight.lookup rqPtr with
  | none =>
      rw [found] at inflight
      simp only [inflight, issuedBy, Option.bind_none]
  | some info =>
      rw [found] at inflight
      simp only [view_chargeRequest, view_deleteRequest, inflight]
      by_cases own : info.pid = pid
      · simp only [issuedBy, own, Option.bind_some, if_true]
      · simp only [issuedBy, own, Option.bind_some, if_false]
        apply PidView.drop_of_none
        rw [inflight, issuedBy, Option.bind_some, if_neg own]

/-- Seen from one pid, the handlers run the pid's own step. -/
theorem view_handleEvent (e : KernelEvent) :
    (handleEvent s e).view pid = (s.view pid).step pid e := by
  cases e with
  | schedSwitch ctx now cpu => exact view_handleSchedSwitch s pid ctx now cpu
  | schedWakeup other now => exact view_handleSchedWakeup s pid other now
  | fork childPid process => exact view_handleFork s pid childPid process
  | exit other groupDead => exact view_handleExit s pid other groupDead
  | exec other comm => exact view_handleExec s pid other comm
  | blockRqIssue other rqPtr now => exact view_handleBlockRqIssue s pid other rqPtr now
  | blockRqComplete rqPtr now => exact view_handleBlockRqComplete s pid rqPtr now

theorem view_foldl (events : List KernelEvent) :
    (events.foldl handleEvent s).view pid =
      events.foldl (PidView.step pid) (s.view pid) := by
  induction events generalizing s with
  | nil => rfl
  | cons e rest inductionHypothesis =>
      rw [List.foldl_cons, inductionHypothesis, view_handleEvent]
      rfl

end

@[simp] theorem view_start (sizes : MapSizes) (pid : UInt32) :
    (BpfMaps.start sizes).view pid = PidView.blank := rfl

/-- The entries of a pid after a history are those of its own run. -/
theorem view_mapsAfter (events : List KernelEvent) (pid : UInt32) :
    (mapsAfter .unlimited events).view pid =
      events.foldl (PidView.step pid) PidView.blank := by
  unfold mapsAfter
  rw [view_foldl, view_start]

end Schedmon
