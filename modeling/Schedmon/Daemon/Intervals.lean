import Schedmon.Daemon.Runs

/-!
# The interval of a rate

A rate divides the increase over a slot's stored baseline by `slow_dt`, the time
since the previous slow tick.  The two agree only for a slot that was added or
sampled at that tick.
-/

namespace Schedmon

open Library EventLog

/-- The four rates that are divided by `slow_dt`. -/
inductive Rate
  | ctxFreq
  | ioFreq
  | ioSyscallFreq
  | migrationFreq
  deriving DecidableEq

instance : Fintype Rate where
  elems := {.ctxFreq, .ioFreq, .ioSyscallFreq, .migrationFreq}
  complete := by
    intro rate
    cases rate <;> decide

/-- The baseline of a rate in a slot's state. -/
def PidState.baseline (st : PidState) : Rate → Int
  | .ctxFreq => st.prevCtx.toNat
  | .ioFreq => st.prevIoProc.toNat
  | .ioSyscallFreq => st.prevIoSyscall.toNat
  | .migrationFreq => st.prevCpuId

/-- The baseline of a rate that `add_pid` takes. -/
def AddReadings.baseline (readings : AddReadings) : Rate → Int
  | .ctxFreq => readings.switches.toNat
  | .ioFreq => (seedProcIo readings).1.toNat
  | .ioSyscallFreq => (seedProcIo readings).2.toNat
  | .migrationFreq => -1

/-- The baseline of a rate that a sampling pass leaves. -/
def SlowReadings.baseline (readings : SlowReadings) (prior : PidState) : Rate → Int
  | .ctxFreq => readings.ctx.toNat
  | .ioFreq => (procIoStep prior readings).curIoProc.toNat
  | .ioSyscallFreq => (procIoStep prior readings).curIoSyscall.toNat
  | .migrationFreq => readings.lastCpu

/-- The baseline of a pid's rate that an event takes.  The regression resets
take only that of the context switches. -/
def Event.takesBaseline (rate : Rate) (pid : Int) : Event → Option Int
  | .added other readings => if other = pid then some (readings.baseline rate) else none
  | .rebased other readings =>
      if other = pid ∧ rate = .ctxFreq then some readings.ctx.toNat else none
  | .sampled other prior _ readings _ _ =>
      if other = pid then some (readings.baseline prior rate) else none
  | _ => none

/-- When the stored baseline of a pid's rate was taken, and what it is. -/
def storedBaseline (log : List Event) (rate : Rate) (pid : Int) :
    Option (UInt64 × Int) :=
  latestAt (Event.takesBaseline rate pid) log

/-- Whether this pass failed to read `/proc/PID/io`, and so takes new baselines
of its two rates before it computes them. -/
def reopens (prior : PidState) (readings : SlowReadings) : Bool :=
  prior.ioFd ≥ 0 && readings.procIo.result = procIoReadFail

/-- Whether the pass itself takes the baseline it computes a rate against. -/
def Rate.retaken (rate : Rate) (prior : PidState) (readings : SlowReadings) : Bool :=
  match rate with
  | .ioFreq => reopens prior readings
  | .ioSyscallFreq => reopens prior readings
  | _ => false

/-- When the baseline that a pass computes a rate against was taken. -/
def baselineTime (log : List Event) (rate : Rate) (pid : Int) (prior : PidState)
    (readings : SlowReadings) : Option UInt64 :=
  if rate.retaken prior readings then some (currentTime log)
  else (storedBaseline log rate pid).map Prod.fst

/-- The time in seconds from one tick to another. -/
def secondsBetween (first last : UInt64) : ℚ :=
  (((last.toNat : Int) - (first.toNat : Int) : Int) : ℚ) / 1000000000

/-- Every rate of a sample is divided by the time since its baseline. -/
def SameInterval (before : List Event) : Event → Prop
  | .sampled pid prior _ readings dt _ => ∀ rate,
      (baselineTime before rate pid prior readings).map
        (fun time => secondsBetween time (currentTime before)) = some dt
  | _ => True

/-- Whether an event adds a pid or samples it, and so takes all its baselines. -/
def Event.startsInterval (pid : Int) : Event → Option Unit
  | .added other _ => if other = pid then some () else none
  | .sampled other _ _ _ _ _ => if other = pid then some () else none
  | _ => none

/-- The slot was added or sampled, not reset, at the previous slow tick, that
tick is earlier than this one, and `/proc/PID/io` is not reopened now. -/
def WholeInterval (before : List Event) : Event → Prop
  | .sampled pid prior _ readings _ _ => ∃ last earlier,
      slowTimes before = currentTime before :: last :: earlier ∧
        last < currentTime before ∧ reopens prior readings = false ∧
          (latestAt (Event.startsInterval pid) before).map Prod.fst = some last
  | _ => True

/-! ## Which events take a baseline -/

theorem Event.takesBaseline_of_other
    {e : Event}
    {pid : Int}
    (other : e.pid? ≠ some pid)
    (rate : Rate) :
    e.takesBaseline rate pid = none := by
  cases e with
  | added q readings =>
      have different : q ≠ pid := fun equal => other (by rw [equal]; rfl)
      simp [Event.takesBaseline, different]
  | rebased q readings =>
      have different : q ≠ pid := fun equal => other (by rw [equal]; rfl)
      simp [Event.takesBaseline, different]
  | sampled q prior hw readings dt metrics =>
      have different : q ≠ pid := fun equal => other (by rw [equal]; rfl)
      simp [Event.takesBaseline, different]
  | _ => rfl

theorem Event.takesBaseline_added
    (rate : Rate)
    (pid : Int)
    (readings : AddReadings) :
    (Event.added pid readings).takesBaseline rate pid = some (readings.baseline rate) :=
  if_pos rfl

theorem Event.takesBaseline_rebased (pid : Int) (readings : SlowReadings) :
    (Event.rebased pid readings).takesBaseline .ctxFreq pid =
      some (readings.ctx.toNat : Int) :=
  if_pos ⟨rfl, rfl⟩

theorem Event.takesBaseline_sampled
    (rate : Rate)
    (pid : Int)
    (prior : PidState)
    (hw : RawCounters)
    (readings : SlowReadings)
    (dt : ℚ)
    (metrics : SmoothedMetrics) :
    (Event.sampled pid prior hw readings dt metrics).takesBaseline rate pid =
      some (readings.baseline prior rate) :=
  if_pos rfl

theorem storedBaseline_append_of_none
    (log : List Event)
    {events : List Event}
    {rate : Rate}
    {pid : Int}
    (silent : ∀ e ∈ events, e.takesBaseline rate pid = none) :
    storedBaseline (log ++ events) rate pid = storedBaseline log rate pid :=
  latestAt_append_of_none log silent

theorem storedBaseline_snoc
    (log : List Event)
    {e : Event}
    {rate : Rate}
    {pid : Int}
    (about : e.pid? = some pid)
    {value : Int}
    (takes : e.takesBaseline rate pid = some value) :
    storedBaseline (log ++ [e]) rate pid = some (currentTime log, value) := by
  have own : ∀ later ∈ [e], later.pid? = some pid := by simpa using about
  have now := currentTime_of_pid log own
  unfold storedBaseline
  rw [latestAt_snoc, takes, now]
  rfl

theorem fdEvents_takesBaseline (pid other : Int) (rate : Rate) (ops : List FdOp) :
    ∀ e ∈ ops.map (Event.fd pid), e.takesBaseline rate other = none :=
  forall_fdEvents (fun _ => rfl) ops

/-- When a pid's baselines were taken by an event that takes all of them. -/
theorem storedBaseline_time
    (log : List Event)
    {rate : Rate}
    (notCtx : rate ≠ .ctxFreq)
    (pid : Int) :
    (storedBaseline log rate pid).map Prod.fst =
      (latestAt (Event.startsInterval pid) log).map Prod.fst := by
  have same (e : Event) : (e.takesBaseline rate pid).isSome =
      (e.startsInterval pid).isSome := by
    cases e with
    | rebased other readings => simp [Event.takesBaseline, Event.startsInterval, notCtx]
    | added other readings =>
        simp only [Event.takesBaseline, Event.startsInterval]
        split <;> rfl
    | sampled other prior hw readings dt metrics =>
        simp only [Event.takesBaseline, Event.startsInterval]
        split <;> rfl
    | _ => rfl
  exact latestAt_fst_congr same log

/-! ## The law -/

/-- The baselines of a slot are the stored ones. -/
def BaselinesStored (log : List Event) (r : SlotRecord) : Prop :=
  ∀ rate, ∃ time, storedBaseline log rate r.pid = some (time, r.state.baseline rate)

/-- A slot was added in this tick. -/
def AddedNow (log : List Event) (r : SlotRecord) : Prop :=
  ∀ rate, (storedBaseline log rate r.pid).map Prod.fst = some (currentTime log)

/-- The baseline of the context switches, which every pass takes, is of the
latest of the given slow ticks. -/
def VisitedAt (times : List UInt64) (log : List Event) (r : SlotRecord) : Prop :=
  ∃ last earlier, times = last :: earlier ∧
    (storedBaseline log .ctxFreq r.pid).map Prod.fst = some last

/-- When a slot was last visited, by phase. -/
def BaselinePhase : SlotPhase → List Event → SlotRecord → Prop
  | .due, log, r => AddedNow log r ∨ VisitedAt (slowTimes log).tail log r
  | .visited, log, r => VisitedAt (slowTimes log) log r
  | .rested, log, r => VisitedAt (slowTimes log) log r

/-- The law of a sample: its slot's baselines are the stored ones, and its rates
have the right divisor exactly for a whole interval. -/
def intervalLaw (before : List Event) : Event → Prop
  | .sampled pid prior hw readings dt metrics =>
      (∀ rate, (storedBaseline before rate pid).map Prod.snd =
        some (prior.baseline rate)) ∧
      (SameInterval before (.sampled pid prior hw readings dt metrics) ↔
        WholeInterval before (.sampled pid prior hw readings dt metrics))
  | _ => True

theorem secondsBetween_self (time : UInt64) : secondsBetween time time = 0 := by
  simp [secondsBetween]

theorem secondsBetween_nonpos
    {first last : UInt64}
    (order : last ≤ first) :
    secondsBetween first last ≤ 0 := by
  have order := UInt64.le_iff_toNat_le.mp order
  have nonpos : (last.toNat : Int) - (first.toNat : Int) ≤ 0 := by omega
  unfold secondsBetween
  exact div_nonpos_of_nonpos_of_nonneg (by exact_mod_cast nonpos) (by norm_num)

theorem secondsBetween_eq_slowInterval_iff
    {now last first : UInt64}
    {earlier : List UInt64}
    (later : last < now) :
    secondsBetween first now = slowInterval (now :: last :: earlier) ↔
      first = last := by
  have positive : (now.toNat : Int) - (last.toNat : Int) > 0 := by
    have order := UInt64.lt_iff_toNat_lt.mp later
    omega
  unfold secondsBetween slowInterval
  dsimp only
  rw [if_pos positive, div_left_inj' (by norm_num), Int.cast_inj]
  constructor
  · intro equal
    apply UInt64.toNat_inj.mp
    omega
  · intro equal
    rw [equal]

/-- What happens in a pass before its sample changes neither the clock nor the
stored baselines. -/
structure SameBaselines (log other : List Event) (pid : Int) : Prop where
  stored : ∀ rate, storedBaseline other rate pid = storedBaseline log rate pid
  ticks_eq : ticks other = ticks log

theorem SameBaselines.append
    (log : List Event)
    {events : List Event}
    {pid other : Int}
    (about : ∀ e ∈ events, e.pid? = some other)
    (silent : ∀ e ∈ events, ∀ rate, e.takesBaseline rate pid = none) :
    SameBaselines log (log ++ events) pid where
  stored := fun rate =>
    storedBaseline_append_of_none log fun e member => silent e member rate
  ticks_eq := ticks_append_of_pid log about

theorem BaselinesStored.of_same
    {log other : List Event}
    {r : SlotRecord}
    (stored : BaselinesStored log r)
    (same : SameBaselines log other r.pid) :
    BaselinesStored other r := by
  intro rate
  rw [same.stored]
  exact stored rate

theorem BaselinePhase.of_same
    {phase : SlotPhase}
    {log other : List Event}
    {r : SlotRecord}
    (holds : BaselinePhase phase log r)
    (same : SameBaselines log other r.pid) :
    BaselinePhase phase other r := by
  have times := slowTimes_eq_of_ticks same.ticks_eq
  have now := currentTime_eq_of_ticks same.ticks_eq
  cases phase <;>
    simpa only [BaselinePhase, AddedNow, VisitedAt, same.stored, times, now] using holds

/-- The iff of the law, for a slot that the slow path has come to. -/
theorem sameInterval_iff_wholeInterval
    {log : List Event}
    {r : SlotRecord}
    (phase : BaselinePhase .due log r)
    (slow : InSlowTick log)
    (hw : RawCounters)
    (readings : SlowReadings)
    (metrics : SmoothedMetrics) :
    SameInterval log (.sampled r.pid r.state hw readings
        (slowInterval (slowTimes log)) metrics) ↔
      WholeInterval log (.sampled r.pid r.state hw readings
        (slowInterval (slowTimes log)) metrics) := by
  have positive := slowInterval_pos (slowTimes log)
  obtain ⟨earlier, times⟩ := slow
  have whole := storedBaseline_time log (show Rate.ioFreq ≠ .ctxFreq by decide) r.pid
  simp only [SameInterval, WholeInterval, baselineTime]
  constructor
  · intro same
    have notReopened : reopens r.state readings = false := by
      rw [← Bool.not_eq_true]
      intro reopened
      have now := same .ioFreq
      simp only [Rate.retaken, reopened, if_true, Option.map_some,
        secondsBetween_self, Option.some.injEq] at now
      exact absurd now positive.ne
    have rates (rate : Rate) : ∃ time,
        (storedBaseline log rate r.pid).map Prod.fst = some time ∧
          secondsBetween time (currentTime log) = slowInterval (slowTimes log) := by
      have kept : rate.retaken r.state readings = false := by
        cases rate <;> simp [Rate.retaken, notReopened]
      have interval := same rate
      rw [kept, if_neg Bool.false_ne_true] at interval
      exact Option.map_eq_some_iff.mp interval
    obtain ⟨ctxTime, ctxTaken, ctxInterval⟩ := rates .ctxFreq
    rcases phase with now | ⟨last, rest, tail, previous⟩
    · -- a slot added in this tick would have an interval of no length
      rw [now, Option.some.injEq] at ctxTaken
      rw [← ctxTaken, secondsBetween_self] at ctxInterval
      exact absurd ctxInterval positive.ne
    · rw [times, List.tail_cons] at tail
      rw [previous, Option.some.injEq] at ctxTaken
      rw [← ctxTaken] at ctxInterval
      have later : last < currentTime log := by
        by_contra notLater
        have nonpos := secondsBetween_nonpos (UInt64.not_lt.mp notLater)
        rw [ctxInterval] at nonpos
        exact absurd positive (not_lt.mpr nonpos)
      refine ⟨last, rest, by rw [times, tail], later, notReopened, ?_⟩
      obtain ⟨time, taken, interval⟩ := rates .ioFreq
      rw [times, tail, secondsBetween_eq_slowInterval_iff later] at interval
      rw [← whole, taken, interval]
  · rintro ⟨last, rest, equal, later, notReopened, started⟩ rate
    have kept : rate.retaken r.state readings = false := by
      cases rate <;> simp [Rate.retaken, notReopened]
    have taken : (storedBaseline log rate r.pid).map Prod.fst = some last := by
      by_cases ctx : rate = .ctxFreq
      · rw [ctx]
        rcases phase with now | ⟨previous, _, tail, visited⟩
        · have sameTime := (now .ioFreq).symm.trans (whole.trans started)
          rw [now .ctxFreq, sameTime]
        · rw [equal, List.tail_cons] at tail
          cases tail
          exact visited
      · rw [storedBaseline_time log ctx, started]
    rw [kept, if_neg Bool.false_ne_true, taken, equal, Option.map_some,
      Option.some.injEq, secondsBetween_eq_slowInterval_iff later]

/-! ## The baselines of a slot over its operations -/

/-- A pass that samples stores all four baselines. -/
theorem baseline_sampledState
    (st : PidState)
    (hw : RawCounters)
    (readings : SlowReadings)
    (rate : Rate) :
    (sampledState st hw readings).baseline rate = readings.baseline st rate := by
  cases rate <;> rfl

/-- A reset stores that of the context switches only. -/
theorem baseline_rebase
    (st : PidState)
    (hw : RawCounters)
    (readings : SlowReadings)
    (rate : Rate) :
    (rebase st hw readings).baseline rate =
      if rate = .ctxFreq then (readings.ctx.toNat : Int) else st.baseline rate := by
  cases rate <;> rfl

theorem baseline_addedState
    (pid : Int)
    (readings : AddReadings)
    (opened : PerfCounter)
    (rate : Rate) :
    (addedState pid readings opened).baseline rate = readings.baseline rate := by
  cases rate <;> rfl

theorem storedBaseline_sampleEvents
    (log : List Event)
    (r : SlotRecord)
    (hw : RawCounters)
    (readings : SlowReadings)
    (dt : ℚ)
    (rate : Rate) :
    storedBaseline (log ++ sampleEvents r hw readings dt) rate r.pid =
      some (currentTime log, readings.baseline r.state rate) := by
  unfold sampleEvents
  rw [← List.append_assoc,
    storedBaseline_snoc _ rfl (Event.takesBaseline_sampled rate _ _ _ _ _ _),
    currentTime_of_pid log (fdEvents_pid r.pid _)]

/-- Publishing takes no baseline. -/
theorem storedBaseline_takeSample
    (log : List Event)
    (r : SlotRecord)
    (hw : RawCounters)
    (readings : SlowReadings)
    (now : UInt64)
    (dt : ℚ)
    (displayed : Bool)
    (rate : Rate) :
    storedBaseline (log ++ (takeSample r hw readings now dt displayed).2) rate r.pid =
      some (currentTime log, readings.baseline r.state rate) := by
  rcases takeSample_cases r hw readings now dt displayed with ⟨_, equal⟩ | ⟨_, equal⟩
  · rw [equal, ← List.append_assoc, storedBaseline_append_of_none,
      storedBaseline_sampleEvents]
    simp [Event.takesBaseline]
  · rw [equal, storedBaseline_sampleEvents]

theorem takeSample_baseline
    (r : SlotRecord)
    (hw : RawCounters)
    (readings : SlowReadings)
    (now : UInt64)
    (dt : ℚ)
    (displayed : Bool)
    (rate : Rate) :
    (takeSample r hw readings now dt displayed).1.state.baseline rate =
      readings.baseline r.state rate := by
  rcases takeSample_cases r hw readings now dt displayed with ⟨_, equal⟩ | ⟨_, equal⟩
  · obtain ⟨comm, refreshed⟩ := refreshComm_eq
      { resampled r hw readings dt with
        lastSmUpdatedNs := now
        lastSmValid := true
        lastSm := (resampled r hw readings dt).lastSm.stamp now } readings displayed
    rw [equal, refreshed]
    exact baseline_sampledState r.state hw readings rate
  · obtain ⟨comm, refreshed⟩ := refreshComm_eq
      { resampled r hw readings dt with lastSmValid := false } readings displayed
    rw [equal, refreshed]
    exact baseline_sampledState r.state hw readings rate

/-- The law of the intervals. -/
def intervalsLaw (cfg : DaemonConfig) : SlotLaw cfg where
  holds := fun phase log r => BaselinesStored log r ∧ BaselinePhase phase log r
  law := intervalLaw
  frame := by
    intro phase log r e pid about other holds
    have same : SameBaselines log (log ++ [e]) r.pid := by
      apply SameBaselines.append log (by simpa using about)
      intro later member rate
      rw [List.mem_singleton.mp member]
      apply Event.takesBaseline_of_other
      rw [about]
      exact fun equal => other (Option.some.inj equal)
    exact ⟨holds.1.of_same same, holds.2.of_same same⟩
  tick := fun _ _ _ _ => trivial
  startSlow := by
    intro log r now ⟨stored, visited⟩
    have silent (rate : Rate) :
        storedBaseline (log ++ [.tick now true]) rate r.pid =
          storedBaseline log rate r.pid :=
      storedBaseline_append_of_none log (by simp [Event.takesBaseline])
    refine ⟨fun rate => silent rate ▸ stored rate, .inr ?_⟩
    rw [slowTimes_slowTick, List.tail_cons, VisitedAt, silent]
    exact visited
  startFast := by
    intro log r now ⟨stored, visited⟩
    have silent (rate : Rate) :
        storedBaseline (log ++ [.tick now false]) rate r.pid =
          storedBaseline log rate r.pid :=
      storedBaseline_append_of_none log (by simp [Event.takesBaseline])
    refine ⟨fun rate => silent rate ▸ stored rate, ?_⟩
    change VisitedAt _ _ _
    rw [slowTimes_fastTick, VisitedAt, silent]
    exact visited
  mark := by
    intro log r active ⟨stored, phase⟩
    refine ⟨?_, phase⟩
    intro rate
    obtain ⟨time, taken⟩ := stored rate
    refine ⟨time, taken.trans ?_⟩
    cases rate <;> rfl
  refused := by
    intro log pid readings _ _
    exact ⟨along_fdEvents (fun _ _ => trivial) _, trivial⟩
  added := by
    intro log pid readings _ _ _ _ _
    have taken (rate : Rate) : storedBaseline (log ++ ((addOps pid readings).map
        (Event.fd pid) ++ [.added pid readings])) rate pid =
          some (currentTime log, readings.baseline rate) := by
      rw [← List.append_assoc,
        storedBaseline_snoc _ rfl (Event.takesBaseline_added rate pid readings),
        currentTime_of_pid log (fdEvents_pid pid _)]
    refine ⟨along_fdEvents_snoc (fun _ _ => trivial) trivial, ?_, .inl ?_⟩
    · intro rate
      refine ⟨currentTime log, (taken rate).trans ?_⟩
      unfold freshRecord
      rw [baseline_addedState]
    · intro rate
      rw [freshRecord_pid, taken, currentTime_of_pid log (addEvents_pid pid readings)]
      rfl
  removed := fun log r _ _ => ⟨along_fdEvents_snoc (fun _ _ => trivial) trivial, trivial⟩
  visit := by
    intro log r readings displayed after events live slow ⟨stored, phase⟩ wrote
    obtain ⟨earlier, times⟩ := slow
    obtain ⟨hw, _, ⟨_, rfl, rfl⟩ | ⟨_, _, rfl, rfl⟩⟩ := SlotWrite.slow_cases wrote
    · have about : ∀ e ∈ [Event.rebased r.pid readings], e.pid? = some r.pid := by
        simp [Event.pid?]
      have ctxTaken : storedBaseline (log ++ [.rebased r.pid readings]) .ctxFreq r.pid =
          some (currentTime log, (readings.ctx.toNat : Int)) :=
        storedBaseline_snoc log rfl (Event.takesBaseline_rebased r.pid readings)
      refine ⟨along_singleton.mpr trivial, ?_, ?_⟩
      · intro rate
        change ∃ time, storedBaseline _ rate r.pid =
          some (time, (rebase r.state hw readings).baseline rate)
        rw [baseline_rebase]
        by_cases ctx : rate = .ctxFreq
        · rw [ctx, if_pos rfl, ctxTaken]
          exact ⟨currentTime log, rfl⟩
        · rw [if_neg ctx, storedBaseline_append_of_none log
            (by simp [Event.takesBaseline, ctx])]
          exact stored rate
      · refine ⟨currentTime log, earlier, ?_, ?_⟩
        · rw [slowTimes_eq_of_ticks (ticks_append_of_pid log about), times]
        · exact congrArg (Option.map Prod.fst) ctxTaken
    · generalize dtEq : slowInterval (slowTimes log) = dt
      have about := (takeSample_events r hw readings (currentTime log) dt displayed).1
      have taken := storedBaseline_takeSample log r hw readings (currentTime log) dt
        displayed
      have samePid := takeSample_pid r hw readings (currentTime log) dt displayed
      refine ⟨?_, ?_, ?_⟩
      · have opened : SameBaselines log
            (log ++ (procIoStep r.state readings).ops.map (Event.fd r.pid)) r.pid :=
          .append log (fdEvents_pid r.pid _) fun e member rate =>
            fdEvents_takesBaseline r.pid r.pid rate _ e member
        have sampled : Along intervalLaw log (sampleEvents r hw readings dt) := by
          apply along_fdEvents_snoc fun _ _ => trivial
          refine ⟨?_, ?_⟩
          · intro rate
            obtain ⟨time, value⟩ := stored rate
            rw [opened.stored, value]
            rfl
          · rw [← dtEq, ← slowTimes_eq_of_ticks opened.ticks_eq]
            exact sameInterval_iff_wholeInterval (phase.of_same opened)
              (InSlowTick.of_ticks ⟨earlier, times⟩ opened.ticks_eq) hw readings _
        rcases takeSample_cases r hw readings (currentTime log) dt displayed with
          ⟨_, equal⟩ | ⟨_, equal⟩
        · rw [equal, along_append, along_cons, along_singleton]
          exact ⟨sampled, trivial, trivial⟩
        · rw [equal]
          exact sampled
      · intro rate
        rw [samePid, taken, takeSample_baseline]
        exact ⟨currentTime log, rfl⟩
      · refine ⟨currentTime log, earlier, ?_, ?_⟩
        · rw [slowTimes_eq_of_ticks
            (ticks_append_of_pid log fun e member => (about e member).1), times]
        · rw [samePid, taken]
          rfl
  fast := by
    intro log r live ⟨stored, visited⟩
    unfold fastVisit
    split
    · have silent (rate : Rate) (m : SmoothedMetrics) :
          storedBaseline (log ++ [.pushed .classifier m]) rate r.pid =
            storedBaseline log rate r.pid :=
        storedBaseline_append_of_none log (by simp [Event.takesBaseline])
      refine ⟨along_singleton.mpr trivial, ?_, ?_⟩
      · intro rate
        change ∃ time, storedBaseline _ rate r.pid =
          some (time, r.state.baseline rate)
        rw [silent]
        exact stored rate
      · obtain ⟨last, earlier, times, taken⟩ := visited
        refine ⟨last, earlier, ?_, ?_⟩
        · rw [slowTimes_eq_of_ticks ((ticks_append log _).trans (List.append_nil _)),
            times]
        · change (storedBaseline _ _ r.pid).map Prod.fst = _
          rw [silent]
          exact taken
    · refine ⟨along_nil _ _, ?_⟩
      rw [List.append_nil]
      exact ⟨stored, visited⟩

/-- In every run, the rates of a sample have the right divisor exactly for a
whole interval. -/
theorem runSamplingLoop_sameInterval_iff
    (qsort : Qsort)
    (cfg : DaemonConfig)
    (start : UInt64)
    (envs : List TickEnv) :
    EachEvent intervalLaw (runSamplingLoop qsort cfg start envs).world.log ∧
      (EachEvent SameInterval (runSamplingLoop qsort cfg start envs).world.log ↔
        EachEvent WholeInterval (runSamplingLoop qsort cfg start envs).world.log) := by
  have laws := (runSamplingLoop_lawful (intervalsLaw cfg) qsort start
    envs).governed.laws
  generalize (runSamplingLoop qsort cfg start envs).world.log = log at laws ⊢
  have pointwise (before : List Event) (e : Event) (after : List Event)
      (split : log = before ++ e :: after) :
      SameInterval before e ↔ WholeInterval before e := by
    have law := laws before e after split
    cases e with
    | sampled pid prior hw readings dt metrics => exact law.2
    | _ => exact Iff.rfl
  refine ⟨laws, ?_, ?_⟩
  · intro same before e after split
    exact (pointwise before e after split).mp (same before e after split)
  · intro whole before e after split
    exact (pointwise before e after split).mpr (whole before e after split)

instance (before : List Event) (e : Event) : Decidable (SameInterval before e) :=
  match e with
  | .sampled pid prior _ readings dt _ =>
      inferInstanceAs (Decidable (∀ rate,
        (baselineTime before rate pid prior readings).map
          (fun time => secondsBetween time (currentTime before)) = some dt))
  | .fd _ _ | .added _ _ | .removed _ | .rebased _ _ | .pushed _ _ | .tick _ _ =>
      isTrue trivial

/-- Eight context switches between a process's `add_pid` and its sample in the
same tick are divided by a fifth of a second. -/
theorem firstTick_not_sameInterval :
    ¬ EachEvent SameInterval (runSamplingLoop insertionQsort defaultConfig 0
      [plainTick 1 switchedReadings]).world.log := by
  apply not_eachEvent 6
  decide +kernel

end Schedmon
