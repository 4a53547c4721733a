import Schedmon.Daemon.Replay
import Schedmon.Daemon.Rings
import Schedmon.Daemon.Windows

/-!
# What survives a regression reset

A reset takes six baselines again.  The others, the windows and the cached
metrics survive it.  Two slots that agree on what survives cannot be told apart
by what is published after a reset, however they differed before it.
-/

namespace Schedmon

open Library EventLog

/-! ## Slots that cannot be told apart -/

/-- Two CPU numbers that count the same migrations. -/
def SameCpu (cpu other : Int) : Prop :=
  cpu = other ∨ (cpu < 0 ∧ other < 0)

/-- Both files are closed, or both are open with the same baselines. -/
def SameProcIo (st other : PidState) : Prop :=
  (st.ioFd < 0 ∧ other.ioFd < 0) ∨
    (st.ioFd ≥ 0 ∧ other.ioFd ≥ 0 ∧ st.prevIoProc = other.prevIoProc ∧
      st.prevIoSyscall = other.prevIoSyscall)

/-- Two slots that agree on everything that a reset leaves alone: of the windows
also the running sum and the pushes since it was last rebuilt. -/
structure SlotRecord.SameSurvivors (r other : SlotRecord) : Prop where
  hwAvailable : r.perf.hwAvailable = other.perf.hwAvailable
  decode : perfCounterRead r.perf = perfCounterRead other.perf
  ioCount : r.state.prevIoCount = other.state.prevIoCount
  cpu : SameCpu r.state.prevCpuId other.state.prevCpuId
  procIo : SameProcIo r.state other.state
  windows : r.windows = other.windows
  valid : r.lastSmValid = other.lastSmValid
  cached : r.lastSmValid = true → r.lastSm.untimed = other.lastSm.untimed
  updated : r.lastSmValid = true → r.lastSmUpdatedNs = other.lastSmUpdatedNs

/-- Two slots of a pid from which the same is published from now on. -/
structure SlotRecord.Indistinct (r other : SlotRecord) : Prop
    extends r.SameSurvivors other where
  pid : r.pid = other.pid
  cycles : r.state.prevCycles = other.state.prevCycles
  instructions : r.state.prevInstructions = other.state.prevInstructions
  llc : r.state.prevLlc = other.state.prevLlc
  ctx : r.state.prevCtx = other.state.prevCtx
  ioWaitNs : r.state.prevIoWaitNs = other.state.prevIoWaitNs
  rqWaitNs : r.state.prevRqWaitNs = other.state.prevRqWaitNs
  migrations : r.state.migrationCount = other.state.migrationCount

/-- After a reset by the same readings the six baselines agree as well. -/
theorem SlotRecord.SameSurvivors.rebase
    {r other : SlotRecord}
    (same : r.SameSurvivors other)
    (pid : r.pid = other.pid)
    (migrations : r.state.migrationCount = other.state.migrationCount)
    (hw : RawCounters)
    (readings : SlowReadings) :
    SlotRecord.Indistinct { r with state := Schedmon.rebase r.state hw readings }
      { other with state := Schedmon.rebase other.state hw readings } where
  hwAvailable := same.hwAvailable
  decode := same.decode
  ioCount := same.ioCount
  cpu := same.cpu
  procIo := same.procIo
  windows := same.windows
  valid := same.valid
  cached := same.cached
  updated := same.updated
  pid := pid
  cycles := rfl
  instructions := rfl
  llc := rfl
  ctx := rfl
  ioWaitNs := rfl
  rqWaitNs := rfl
  migrations := migrations

/-! ## One pass -/

section Pass

variable {st other : PidState} {r another : SlotRecord}

theorem countMigration_eq
    (cpu : SameCpu st.prevCpuId other.prevCpuId)
    (migrations : st.migrationCount = other.migrationCount)
    (curCpuId : Int) :
    countMigration st curCpuId = countMigration other curCpuId := by
  unfold countMigration
  rw [migrations]
  rcases cpu with same | ⟨unknown, otherUnknown⟩
  · rw [same]
  · rw [if_neg (by omega), if_neg (by omega)]

/-- Files with the same baselines read the same and stay alike. -/
theorem SameProcIo.procIoStep
    (same : SameProcIo st other)
    (readings : SlowReadings) :
    let step := Schedmon.procIoStep st readings
    let otherStep := Schedmon.procIoStep other readings
    step.curIoProc = otherStep.curIoProc ∧
      step.curIoSyscall = otherStep.curIoSyscall ∧
      byteDelta step.curIoProc step.state.prevIoProc =
        byteDelta otherStep.curIoProc otherStep.state.prevIoProc ∧
      byteDelta step.curIoSyscall step.state.prevIoSyscall =
        byteDelta otherStep.curIoSyscall otherStep.state.prevIoSyscall ∧
      (step.state.ioFd ≥ 0 ↔ otherStep.state.ioFd ≥ 0) := by
  have zero (prev : UInt64) : byteDelta 0 prev = 0 := by
    unfold byteDelta
    split
    · next above =>
        have equal : prev = 0 := UInt64.le_zero_iff.mp above
        rw [equal]
        rfl
    · rfl
  rcases same with ⟨closed, otherClosed⟩ | ⟨isOpen, otherOpen, proc, syscall⟩
  · unfold Schedmon.procIoStep
    rw [if_neg (by omega), if_neg (by omega)]
    refine ⟨rfl, rfl, ?_, ?_, by dsimp only; omega⟩
    · rw [zero, zero]
    · rw [zero, zero]
  · unfold Schedmon.procIoStep
    rw [if_pos isOpen, if_pos otherOpen]
    dsimp only
    split
    · exact ⟨rfl, rfl, rfl, rfl, Iff.rfl⟩
    · refine ⟨rfl, rfl, ?_, ?_, ?_⟩
      · rw [proc]
      · rw [syscall]
      · exact ⟨fun _ => otherOpen, fun _ => isOpen⟩

theorem SlotRecord.Indistinct.rawSample_eq
    (same : r.Indistinct another)
    (hw : RawCounters)
    (readings : SlowReadings)
    (dt : ℚ) :
    rawSample r.state hw readings dt = rawSample another.state hw readings dt := by
  obtain ⟨_, _, procDelta, syscallDelta, _⟩ := same.procIo.procIoStep readings
  unfold rawSample
  dsimp only
  rw [procDelta, syscallDelta, same.cycles, same.instructions, same.llc, same.ctx,
    same.ioWaitNs, same.rqWaitNs, same.ioCount,
    countMigration_eq same.cpu same.migrations]

/-- Equal windows stay equal, and so do their means. -/
theorem push_eq_of_windows
    (same : r.windows = another.windows)
    (raw : RawSample) :
    (pushSample r raw).windows = (pushSample another raw).windows ∧
      (smoothed (pushSample r raw)).metrics =
        (smoothed (pushSample another raw)).metrics := by
  simp only [SlotRecord.windows, List.cons.injEq, and_true] at same
  obtain ⟨ipc, llc, ctx, io, ioWait, rqWait, migration, ioSyscall⟩ := same
  simp only [SlotRecord.windows, SmoothedMetrics.metrics, smoothed, pushSample, ipc,
    llc, ctx, io, ioWait, rqWait, migration, ioSyscall, and_self]

theorem SmoothedMetrics.untimed_ext
    {m other : SmoothedMetrics}
    (metrics : m.metrics = other.metrics)
    (pid : m.pid = other.pid)
    (cpuId : m.cpuId = other.cpuId)
    (hwPmuAvailable : m.hwPmuAvailable = other.hwPmuAvailable) :
    m.untimed = other.untimed := by
  cases m
  cases other
  simp only [SmoothedMetrics.metrics, List.cons.injEq, and_true] at metrics
  obtain ⟨ipc, llc, ctx, io, ioWait, rqWait, migration, ioSyscall⟩ := metrics
  subst ipc llc ctx io ioWait rqWait migration ioSyscall pid cpuId hwPmuAvailable
  rfl

theorem SlotRecord.Indistinct.resampled
    (same : r.Indistinct another)
    (hw : RawCounters)
    (readings : SlowReadings)
    (dt : ℚ) :
    (Schedmon.resampled r hw readings dt).Indistinct
        (Schedmon.resampled another hw readings dt) ∧
      (Schedmon.resampled r hw readings dt).lastSm.untimed =
        (Schedmon.resampled another hw readings dt).lastSm.untimed := by
  have raw := same.rawSample_eq hw readings dt
  obtain ⟨proc, syscall, _, _, fd⟩ := same.procIo.procIoStep readings
  have windows : ({ r with state := sampledState r.state hw readings } :
      SlotRecord).windows =
        ({ another with state := sampledState another.state hw readings } :
          SlotRecord).windows := same.windows
  obtain ⟨pushed, metrics⟩ :=
    push_eq_of_windows windows (rawSample another.state hw readings dt)
  have pid : (Schedmon.resampled r hw readings dt).pid =
      (Schedmon.resampled another hw readings dt).pid := by
    rw [resampled_pid, resampled_pid, same.pid]
  have untimed : (Schedmon.resampled r hw readings dt).lastSm.untimed =
      (Schedmon.resampled another hw readings dt).lastSm.untimed := by
    apply SmoothedMetrics.untimed_ext
    · unfold Schedmon.resampled
      dsimp only
      rw [raw]
      exact metrics
    · rw [resampled_lastSm_pid, resampled_lastSm_pid, same.pid]
    · rfl
    · exact same.hwAvailable
  refine ⟨?_, untimed⟩
  exact
    { hwAvailable := same.hwAvailable
      decode := same.decode
      ioCount := rfl
      cpu := .inl rfl
      procIo := by
        by_cases isOpen : (procIoStep r.state readings).state.ioFd ≥ 0
        · exact .inr ⟨isOpen, fd.mp isOpen, proc, syscall⟩
        · exact .inl ⟨lt_of_not_ge isOpen, lt_of_not_ge (fd.not.mp isOpen)⟩
      windows := by
        unfold Schedmon.resampled
        dsimp only
        rw [raw]
        exact pushed
      valid := same.valid
      cached := fun _ => untimed
      updated := same.updated
      pid := pid
      cycles := rfl
      instructions := rfl
      llc := rfl
      ctx := rfl
      ioWaitNs := rfl
      rqWaitNs := rfl
      migrations := rfl }

theorem smIsActive_untimed (m : SmoothedMetrics) :
    smIsActive m.untimed = smIsActive m := rfl

theorem SmoothedMetrics.stamp_untimed (m : SmoothedMetrics) (now : UInt64) :
    m.untimed.stamp now = m.stamp now := rfl

/-- Publishing pushes the same for both. -/
theorem SlotRecord.Indistinct.publish
    (same : r.Indistinct another)
    (metrics : r.lastSm.untimed = another.lastSm.untimed)
    (now : UInt64) :
    (Schedmon.publish r now).1.Indistinct (Schedmon.publish another now).1 ∧
      (Schedmon.publish r now).2 = (Schedmon.publish another now).2 := by
  have active : smIsActive r.lastSm = smIsActive another.lastSm := by
    rw [← smIsActive_untimed, metrics, smIsActive_untimed]
  have stamped : r.lastSm.stamp now = another.lastSm.stamp now := by
    rw [← SmoothedMetrics.stamp_untimed, metrics, SmoothedMetrics.stamp_untimed]
  unfold SmoothedMetrics.stamp at stamped
  unfold Schedmon.publish
  rw [active]
  split
  · refine ⟨?_, by rw [stamped]⟩
    exact
      { same with
        valid := rfl
        cached := fun _ => metrics
        updated := fun _ => rfl }
  · refine ⟨?_, rfl⟩
    exact
      { same with
        valid := rfl
        cached := fun valid => absurd valid (by simp)
        updated := fun valid => absurd valid (by simp) }

/-- The fast path pushes the same for both. -/
theorem SlotRecord.Indistinct.fastVisit
    (same : r.Indistinct another)
    (now : UInt64) :
    (Schedmon.fastVisit r now).1.Indistinct (Schedmon.fastVisit another now).1 ∧
      (Schedmon.fastVisit r now).2 = (Schedmon.fastVisit another now).2 := by
  have publishes : fastPublishes r now = fastPublishes another now := by
    unfold fastPublishes
    rw [← same.valid]
    cases valid : r.lastSmValid with
    | true => rw [same.updated valid]
    | false => rfl
  unfold Schedmon.fastVisit
  rw [← publishes]
  split
  · next published =>
      have valid := lastSmValid_of_fastPublishes published
      have metrics := same.cached valid
      have stamped : r.lastSm.stamp now = another.lastSm.stamp now := by
        rw [← SmoothedMetrics.stamp_untimed, metrics, SmoothedMetrics.stamp_untimed]
      unfold SmoothedMetrics.stamp at stamped
      refine ⟨?_, by rw [stamped]⟩
      exact { same with cached := fun _ => metrics }
  · exact ⟨same, rfl⟩

theorem SlotRecord.Indistinct.fresh (pid : Int) (readings : AddReadings) :
    (freshRecord pid readings).core.Indistinct (freshRecord pid readings).core where
  hwAvailable := rfl
  decode := rfl
  ioCount := rfl
  cpu := .inl rfl
  procIo := by
    by_cases isOpen : (freshRecord pid readings).core.state.ioFd ≥ 0
    · exact .inr ⟨isOpen, isOpen, rfl, rfl⟩
    · exact .inl ⟨lt_of_not_ge isOpen, lt_of_not_ge isOpen⟩
  windows := rfl
  valid := rfl
  cached := fun _ => rfl
  updated := fun _ => rfl
  pid := rfl
  cycles := rfl
  instructions := rfl
  llc := rfl
  ctx := rfl
  ioWaitNs := rfl
  rqWaitNs := rfl
  migrations := rfl

end Pass

/-! ## Replicas that cannot be told apart -/

/-- Two replicas whose slots cannot be told apart and that have pushed the same
since they had pushed two given lists. -/
structure Replica.Indistinct (pushed otherPushed : List (Ring × SmoothedMetrics))
    (s other : Replica) : Prop where
  now : s.now = other.now
  slots : Option.Rel SlotRecord.Indistinct s.slot other.slot
  pushes : ∃ since, s.pushed = pushed ++ since ∧ other.pushed = otherPushed ++ since

section Replicas

variable {pushed otherPushed : List (Ring × SmoothedMetrics)} {s other : Replica}

/-- A visit that treats the slots alike. -/
theorem Replica.Indistinct.visit
    (same : Replica.Indistinct pushed otherPushed s other)
    (pid : Int)
    {pass otherPass : SlotRecord → SlotRecord × List Event}
    (alike : ∀ r another, r.Indistinct another →
      (pass r).1.Indistinct (otherPass another).1 ∧
        (pass r).2 = (otherPass another).2) :
    Replica.Indistinct pushed otherPushed (s.visit pid pass)
      (other.visit pid otherPass) := by
  obtain ⟨now, slot, before⟩ := s
  obtain ⟨otherNow, otherSlot, otherBefore⟩ := other
  obtain ⟨sameNow, slots, since, equal, otherEqual⟩ := same
  dsimp only at sameNow slots equal otherEqual
  unfold Replica.visit
  cases slots with
  | none => exact ⟨sameNow, .none, since, equal, otherEqual⟩
  | @some r another indistinct =>
      obtain ⟨after, events⟩ := alike r another indistinct
      dsimp only
      refine ⟨sameNow, .some after, since ++ pushesOf pid (otherPass another).2, ?_, ?_⟩
      · rw [equal, events, List.append_assoc]
      · rw [otherEqual, List.append_assoc]

theorem Replica.Indistinct.finish
    (same : Replica.Indistinct pushed otherPushed s other)
    (pid : Int) :
    Replica.Indistinct pushed otherPushed (s.finish pid) (other.finish pid) := by
  apply same.visit pid
  intro r another indistinct
  rw [same.now]
  exact indistinct.fastVisit other.now

theorem Replica.Indistinct.rebase
    (same : Replica.Indistinct pushed otherPushed s other)
    (readings : SlowReadings) :
    Replica.Indistinct pushed otherPushed (s.rebase readings)
      (other.rebase readings) := by
  obtain ⟨now, slot, before⟩ := s
  obtain ⟨otherNow, otherSlot, otherBefore⟩ := other
  obtain ⟨sameNow, slots, pushes⟩ := same
  refine ⟨sameNow, ?_, pushes⟩
  dsimp only at slots
  unfold Replica.rebase
  cases slots with
  | none => exact .none
  | @some r another indistinct =>
      apply Option.Rel.some
      dsimp only
      rw [indistinct.decode]
      cases perfCounterRead another.perf readings.hw with
      | none => exact indistinct
      | some hw =>
          exact indistinct.toSameSurvivors.rebase indistinct.pid
            indistinct.migrations hw readings

/-- One input of both replicas. -/
theorem Replica.Indistinct.step
    (same : Replica.Indistinct pushed otherPushed s other)
    (pid : Int)
    (input : SlotInput) :
    Replica.Indistinct pushed otherPushed (s.step pid input)
      (other.step pid input) := by
  cases input with
  | tick now =>
      have finished := same.finish pid
      exact ⟨rfl, finished.slots, finished.pushes⟩
  | added readings =>
      exact ⟨same.now, .some (SlotRecord.Indistinct.fresh pid readings), same.pushes⟩
  | removed => exact ⟨same.now, .none, same.pushes⟩
  | rebased readings => exact same.rebase readings
  | sampled hw readings dt =>
      apply same.visit pid
      intro r another indistinct
      obtain ⟨after, metrics⟩ := indistinct.resampled hw readings dt
      rw [same.now]
      exact after.publish metrics other.now

/-- Any number of inputs. -/
theorem Replica.Indistinct.run
    (same : Replica.Indistinct pushed otherPushed s other)
    (pid : Int)
    (inputs : List SlotInput) :
    Replica.Indistinct pushed otherPushed (s.run pid inputs)
      (other.run pid inputs) := by
  induction inputs generalizing s other with
  | nil => exact same
  | cons input rest inductionHypothesis =>
      exact inductionHypothesis (same.step pid input)

end Replicas

/-! ## What holds of every slot -/

/-- No migration is pending between passes. -/
theorem noMigration_invariant :
    RecordInvariant fun r => r.state.migrationCount = 0 where
  fresh := fun _ _ => rfl
  rebased := fun _ _ _ zero => zero
  sampled := by
    intro r hw readings dt now _
    unfold publish
    split <;> rfl
  fast := by
    intro r now zero
    unfold fastVisit
    split <;> exact zero

/-! ## Two runs -/

/-- A reset of a pid's slot in a log. -/
structure ResetIn (pid : Int) (log : List Event) where
  before : List Event
  readings : SlowReadings
  after : List Event
  split : log = before ++ .rebased pid readings :: after

/-- Two logs that are the same for a pid from a reset of its slot on. -/
structure SameFromReset {pid : Int} {log otherLog : List Event}
    (reset : ResetIn pid log) (other : ResetIn pid otherLog) : Prop where
  time : currentTime reset.before = currentTime other.before
  readings : reset.readings = other.readings
  inputs : inputsOf pid reset.after = inputsOf pid other.after

/-- The slot at the time of the reset. -/
def ResetIn.slot {pid : Int} {log : List Event} (reset : ResetIn pid log) :
    Option SlotRecord :=
  (replicaAt pid reset.before).slot

/-- Just after resets by the same readings of slots with the same survivors, the
replicas cannot be told apart. -/
theorem ResetIn.indistinct
    {pid : Int}
    {log otherLog : List Event}
    {reset : ResetIn pid log}
    {other : ResetIn pid otherLog}
    (same : SameFromReset reset other)
    (survivors : Option.Rel SlotRecord.SameSurvivors reset.slot other.slot)
    (law : replayLaw reset.before (.rebased pid reset.readings))
    (otherLaw : replayLaw other.before (.rebased pid other.readings)) :
    Replica.Indistinct (pushesOf pid reset.before) (pushesOf pid other.before)
      (replicaAt pid (reset.before ++ [.rebased pid reset.readings]))
      (replicaAt pid (other.before ++ [.rebased pid other.readings])) := by
  have fed (readings : SlowReadings) : Event.input? pid (.rebased pid readings) =
      some (.rebased readings) := if_pos rfl
  have none := noMigration_invariant.replicaAt pid reset.before
  have otherNone := noMigration_invariant.replicaAt pid other.before
  obtain ⟨pushed, r, hw, slot, named, decoded, _⟩ := law
  obtain ⟨otherPushed, another, otherHw, otherSlot, otherNamed, _, _⟩ := otherLaw
  unfold ResetIn.slot at survivors
  rw [slot, otherSlot] at survivors
  cases survivors with
  | some alike =>
      rw [replicaAt_snoc, replicaAt_snoc, fed, fed]
      change Replica.Indistinct _ _ ((replicaAt pid reset.before).rebase _)
        ((replicaAt pid other.before).rebase _)
      unfold Replica.rebase
      rw [slot, otherSlot, Option.map_some, Option.map_some, ← same.readings,
        ← alike.decode]
      have decodedCore : perfCounterRead r.core.perf reset.readings.hw = some hw :=
        decoded
      rw [decodedCore]
      refine ⟨?_, ?_, [], ?_, ?_⟩
      · rw [replicaAt_now, replicaAt_now]
        exact same.time
      · apply Option.Rel.some
        apply alike.rebase
        · exact named.trans otherNamed.symm
        · exact (none _ slot).trans (otherNone _ otherSlot).symm
      · rw [List.append_nil]
        exact pushed
      · rw [List.append_nil]
        exact otherPushed

theorem ResetIn.pushesOf_split
    {pid : Int}
    {log : List Event}
    (reset : ResetIn pid log) :
    pushesOf pid log = pushesOf pid reset.before ++ pushesOf pid reset.after := by
  conv_lhs => rw [reset.split, List.append_cons, pushesOf_append, pushesOf_append_of_none
    (by simp [Event.push?])]

theorem ResetIn.replicaAt_split
    {pid : Int}
    {log : List Event}
    (reset : ResetIn pid log) :
    replicaAt pid log =
      (replicaAt pid (reset.before ++ [.rebased pid reset.readings])).run pid
        (inputsOf pid reset.after) := by
  conv_lhs => rw [reset.split, List.append_cons, replicaAt_append]

/-- Two runs that are the same for a pid from a reset of its slot on publish the
same for it from then on, if the slots agreed on what the reset leaves alone. -/
theorem runs_push_alike_afterReset
    (qsort otherQsort : Qsort)
    (cfg otherCfg : DaemonConfig)
    (start otherStart : UInt64)
    (envs otherEnvs : List TickEnv)
    (pid : Int)
    (reset : ResetIn pid (runSamplingLoop qsort cfg start envs).world.log)
    (other : ResetIn pid
      (runSamplingLoop otherQsort otherCfg otherStart otherEnvs).world.log)
    (same : SameFromReset reset other)
    (survivors : Option.Rel SlotRecord.SameSurvivors reset.slot other.slot) :
    pushesOf pid reset.after = pushesOf pid other.after := by
  have law := runSamplingLoop_replayLaw qsort cfg start envs _ _ _ reset.split
  have otherLaw := runSamplingLoop_replayLaw otherQsort otherCfg otherStart otherEnvs
    _ _ _ other.split
  have pushed := runSamplingLoop_replicated qsort cfg start envs pid
  have otherPushed :=
    runSamplingLoop_replicated otherQsort otherCfg otherStart otherEnvs pid
  rw [reset.pushesOf_split, reset.replicaAt_split] at pushed
  rw [other.pushesOf_split, other.replicaAt_split] at otherPushed
  have after := (ResetIn.indistinct same survivors law otherLaw).run pid
    (inputsOf pid reset.after)
  obtain ⟨since, equal, otherEqual⟩ := (after.finish pid).pushes
  rw [equal] at pushed
  rw [same.inputs, otherPushed] at otherEqual
  rw [← List.append_cancel_left pushed, List.append_cancel_left otherEqual]

/-! ## Slots that differ in the six baselines only -/

/-- A slot without the six baselines that a reset takes. -/
def SlotRecord.survivors (r : SlotRecord) : SlotRecord :=
  { r with
    state := { r.state with
      prevCtx := 0
      prevIoWaitNs := 0
      prevRqWaitNs := 0
      prevCycles := 0
      prevInstructions := 0
      prevLlc := 0 } }

theorem SlotRecord.SameSurvivors.of_eq
    {r other : SlotRecord}
    (equal : r.survivors = other.survivors) :
    r.SameSurvivors other where
  hwAvailable := congrArg (fun s => s.perf.hwAvailable) equal
  decode := congrArg (fun s => perfCounterRead s.perf) equal
  ioCount := congrArg (fun s => s.state.prevIoCount) equal
  cpu := .inl (congrArg (fun s => s.state.prevCpuId) equal)
  procIo := by
    have fd : r.state.ioFd = other.state.ioFd :=
      congrArg (fun s => s.state.ioFd) equal
    by_cases isOpen : r.state.ioFd ≥ 0
    · exact .inr ⟨isOpen, fd ▸ isOpen, congrArg (fun s => s.state.prevIoProc) equal,
        congrArg (fun s => s.state.prevIoSyscall) equal⟩
    · exact .inl ⟨lt_of_not_ge isOpen, fd ▸ lt_of_not_ge isOpen⟩
  windows := congrArg (fun s => s.windows) equal
  valid := congrArg (fun s => s.lastSmValid) equal
  cached := fun _ => congrArg (fun s => s.lastSm.untimed) equal
  updated := fun _ => congrArg (fun s => s.lastSmUpdatedNs) equal

/-- Slots that differ in the six baselines only agree on what survives. -/
theorem sameSurvivors_of_slots
    {pid : Int}
    {log otherLog : List Event}
    {reset : ResetIn pid log}
    {other : ResetIn pid otherLog}
    (equal : reset.slot.map SlotRecord.survivors = other.slot.map SlotRecord.survivors) :
    Option.Rel SlotRecord.SameSurvivors reset.slot other.slot := by
  unfold ResetIn.slot at equal ⊢
  cases slot : (replicaAt pid reset.before).slot with
  | none =>
      rw [slot, Option.map_none] at equal
      rw [Option.map_eq_none_iff.mp equal.symm]
      exact .none
  | some r =>
      rw [slot, Option.map_some] at equal
      obtain ⟨another, held, survivors⟩ := Option.map_eq_some_iff.mp equal.symm
      rw [held]
      exact .some (.of_eq survivors.symm)

/-! ## Resets of explicit runs -/

/-- The reset at an index of a log. -/
def ResetIn.ofIndex (pid : Int) (log : List Event) (i : Nat) (readings : SlowReadings)
    (here : log[i]? = some (.rebased pid readings)) : ResetIn pid log where
  before := log.take i
  readings := readings
  after := log.drop (i + 1)
  split := by
    obtain ⟨inside, equal⟩ := List.getElem?_eq_some_iff.mp here
    rw [← equal, List.getElem_cons_drop, List.take_append_drop]

/-- That a reset forgets everything that was read before it. -/
def ResetsForget : Prop :=
  ∀ (qsort : Qsort) (cfg : DaemonConfig) (start otherStart : UInt64)
    (envs otherEnvs : List TickEnv) (pid : Int)
    (reset : ResetIn pid (runSamplingLoop qsort cfg start envs).world.log)
    (other : ResetIn pid (runSamplingLoop qsort cfg otherStart otherEnvs).world.log),
    SameFromReset reset other → pushesOf pid reset.after = pushesOf pid other.after

/-- The first tick, with the number of switches that `add_pid` and the slow path
read. -/
def switchesTick (seed switches : UInt64) : TickEnv :=
  { plainTick 1 { plainSlowReadings with ctx := switches } with
    sync := { plainSyncEnv 1 [1000] with
      add := fun _ _ => { plainAddReadings with switches := seed } } }

/-- The log of some ticks with the default configuration. -/
def defaultLog (envs : List TickEnv) : List Event :=
  (runSamplingLoop insertionQsort defaultConfig 0 envs).world.log

/-- Whether two runs have resets at an index of their logs, from which on they
are the same. -/
def ResetAt (i : Nat) (envs otherEnvs : List TickEnv) : Prop :=
  ((defaultLog envs)[i]? = some (.rebased 1000 plainSlowReadings) ∧
    (defaultLog otherEnvs)[i]? = some (.rebased 1000 plainSlowReadings)) ∧
  currentTime ((defaultLog envs).take i) = currentTime ((defaultLog otherEnvs).take i) ∧
  inputsOf 1000 ((defaultLog envs).drop (i + 1)) =
    inputsOf 1000 ((defaultLog otherEnvs).drop (i + 1))

instance (i : Nat) (envs otherEnvs : List TickEnv) :
    Decidable (ResetAt i envs otherEnvs) :=
  inferInstanceAs (Decidable (_ ∧ _ ∧ _))

namespace ResetAt

variable {i : Nat} {envs otherEnvs : List TickEnv} (resets : ResetAt i envs otherEnvs)

/-- The reset of the one run. -/
def first :
    ResetIn 1000 (runSamplingLoop insertionQsort defaultConfig 0 envs).world.log :=
  ResetIn.ofIndex 1000 (defaultLog envs) i plainSlowReadings resets.1.1

/-- The reset of the other run. -/
def second :
    ResetIn 1000 (runSamplingLoop insertionQsort defaultConfig 0 otherEnvs).world.log :=
  ResetIn.ofIndex 1000 (defaultLog otherEnvs) i plainSlowReadings resets.1.2

theorem same : SameFromReset resets.first resets.second :=
  ⟨resets.2.1, rfl, resets.2.2⟩

theorem first_after : resets.first.after = (defaultLog envs).drop (i + 1) := rfl

theorem second_after : resets.second.after = (defaultLog otherEnvs).drop (i + 1) := rfl

theorem survivors
    (equal : (replicaAt 1000 ((defaultLog envs).take i)).slot.map SlotRecord.survivors =
      (replicaAt 1000 ((defaultLog otherEnvs).take i)).slot.map SlotRecord.survivors) :
    Option.Rel SlotRecord.SameSurvivors resets.first.slot resets.second.slot :=
  sameSurvivors_of_slots equal

end ResetAt

/-- Nine ticks with a number of switches before the reset. -/
def switchesTicks (switches : UInt64) : List TickEnv :=
  restartedTicks (switchesTick 0 switches)

/-- Eight and sixteen switches before the reset, and what is pushed after it. -/
theorem switches_push_differently :
    ResetAt 17 (switchesTicks 8) (switchesTicks 16) ∧
      pushesOf 1000 ((defaultLog (switchesTicks 8)).drop (17 + 1)) ≠
        pushesOf 1000 ((defaultLog (switchesTicks 16)).drop (17 + 1)) := by
  decide +kernel

/-- Eight or sixteen switches before the reset show in the means after it. -/
theorem not_resetsForget : ¬ ResetsForget := by
  intro forget
  obtain ⟨resets, different⟩ := switches_push_differently
  have equal := forget insertionQsort defaultConfig 0 0 (switchesTicks 8)
    (switchesTicks 16) 1000 resets.first resets.second resets.same
  rw [resets.first_after, resets.second_after] at equal
  exact different equal

/-- Five ticks with a number of switches, some of which `add_pid` reads. -/
def seededTicks (seed switches : UInt64) : List TickEnv :=
  (restartedTicks (switchesTick seed switches)).take 5

/-- Eight switches more that `add_pid` has seen already, and what survives. -/
theorem seeded_survivors :
    ResetAt 17 (seededTicks 0 8) (seededTicks 8 16) ∧
      (replicaAt 1000 ((defaultLog (seededTicks 0 8)).take 17)).slot.map
          SlotRecord.survivors =
        (replicaAt 1000 ((defaultLog (seededTicks 8 16)).take 17)).slot.map
          SlotRecord.survivors := by
  decide +kernel

/-- Switches that `add_pid` has seen already do not show. -/
theorem runs_push_alike_afterReset_seeded :
    pushesOf 1000 ((defaultLog (seededTicks 0 8)).drop (17 + 1)) =
      pushesOf 1000 ((defaultLog (seededTicks 8 16)).drop (17 + 1)) := by
  obtain ⟨resets, survivors⟩ := seeded_survivors
  have equal := runs_push_alike_afterReset insertionQsort insertionQsort defaultConfig
    defaultConfig 0 0 (seededTicks 0 8) (seededTicks 8 16) 1000 resets.first
    resets.second resets.same (resets.survivors survivors)
  rw [resets.first_after, resets.second_after] at equal
  exact equal

end Schedmon
