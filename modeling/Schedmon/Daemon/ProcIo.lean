import Schedmon.Daemon.Windows

/-!
# The reads of `/proc/PID/io`

`add_pid` and every sampling pass read two byte totals of a process, and each
read can fail.  A failed read leaves the baseline 0; where the file stays open,
the next read is compared with that 0 instead of the total that was read last.
-/

namespace Schedmon

open Library EventLog

/-! ## The history of the reads -/

/-- The two totals: the bytes of the disk, and of the system calls. -/
inductive IoTotal
  | disk
  | syscall
  deriving DecidableEq

instance : Fintype IoTotal where
  elems := {.disk, .syscall}
  complete := by
    intro total
    cases total <;> decide

/-- What a successful read shows. -/
structure IoTotals where
  disk : UInt64
  syscall : UInt64
  deriving DecidableEq

/-- One of the totals. -/
def IoTotals.get (totals : IoTotals) : IoTotal → UInt64
  | .disk => totals.disk
  | .syscall => totals.syscall

/-- The totals that stand for a failed read. -/
def IoTotals.zero : IoTotals := ⟨0, 0⟩

@[simp] theorem IoTotals.zero_get (total : IoTotal) : IoTotals.zero.get total = 0 := by
  cases total <;> rfl

/-- What a call of `read_proc_io_fd` shows, unless it fails; `unset` is what the
variable behind `out_syscall_bytes` held before. -/
def ProcIoRead.totals (read : ProcIoRead) (unset : UInt64) : Option IoTotals :=
  if read.result = procIoReadFail then none
  else some ⟨read.result, read.syscallBytes.getD unset⟩

/-- The reads of `add_pid`: one, if the file opens. -/
def AddReadings.ioReads (readings : AddReadings) : List (Option IoTotals) :=
  match readings.ioFd with
  | .ok _ => [readings.procIo.totals 0]
  | .error _ => []

/-- The reads of a pass: none if the file is not open, one if that succeeds, and
otherwise a second one if the file can be opened again. -/
def SlowReadings.ioReads (readings : SlowReadings) (prior : PidState) :
    List (Option IoTotals) :=
  if prior.ioFd ≥ 0 then
    match readings.procIo.totals 0 with
    | some shown => [some shown]
    | none =>
        match readings.reopened with
        | .ok _ =>
            [none, readings.procIoAgain.totals (readings.procIo.syscallBytes.getD 0)]
        | .error _ => [none]
  else []

/-- The totals that the last successful read showed. -/
def lastTotals (reads : List (Option IoTotals)) : Option IoTotals :=
  (reads.filterMap id).getLast?

/-- By how much a total grew between two successful reads, as far as there are
two. -/
def increase (total : IoTotal) : Option IoTotals → Option IoTotals → Nat
  | some last, some now => (now.get total).toNat - (last.get total).toNat
  | _, _ => 0

/-- The sample that shows the growth of a total. -/
def RawSample.ioRate (raw : RawSample) : IoTotal → ℚ
  | .disk => raw.ioFreq
  | .syscall => raw.ioSyscallFreq

/-- A sample shows no more than what the totals grew by since the last
successful read. -/
def SampleBounded (reads : List (Option IoTotals)) (prior : PidState)
    (hw : RawCounters) (readings : SlowReadings) (dt : ℚ) : Prop :=
  ∀ total, (rawSample prior hw readings dt).ioRate total * dt ≤
    increase total (lastTotals reads) (lastTotals (readings.ioReads prior))

/-- Where the first read of a pass follows a failed one and succeeds, each total
that it shows is 0, or was 0 when it was last read. -/
def FailureHarmless (reads : List (Option IoTotals)) (prior : PidState)
    (readings : SlowReadings) : Prop :=
  ∀ shown, readings.ioReads prior = [some shown] → reads.getLast? = some none →
    ∀ total, shown.get total = 0 ∨ ∃ last ∈ lastTotals reads, last.get total = 0

/-! ## One pass -/

/-- The totals that a read leaves as baselines. -/
def leftBy (read : Option IoTotals) : IoTotals :=
  read.getD IoTotals.zero

/-- The baselines of a slot. -/
def PidState.ioTotals (st : PidState) : IoTotals :=
  ⟨st.prevIoProc, st.prevIoSyscall⟩

/-- What a pass compares with the baselines. -/
def ProcIoStep.cur (step : ProcIoStep) : IoTotals :=
  ⟨step.curIoProc, step.curIoSyscall⟩

/-- What a pass does, by its reads. -/
inductive ProcIoOutcome (st : PidState) : List (Option IoTotals) → ProcIoStep → Prop
  | unopened
      (step : ProcIoStep)
      (closed : ¬ st.ioFd ≥ 0)
      (fd : step.state.ioFd = st.ioFd)
      (cur : step.cur = IoTotals.zero) :
      ProcIoOutcome st [] step
  | read
      (step : ProcIoStep)
      (shown : IoTotals)
      (opened : st.ioFd ≥ 0)
      (same : step.state = st)
      (cur : step.cur = shown) :
      ProcIoOutcome st [some shown] step
  | reread
      (step : ProcIoStep)
      (second : Option IoTotals)
      (cur : step.cur = leftBy second)
      (baselines : step.state.ioTotals = step.cur) :
      ProcIoOutcome st [none, second] step
  | lost
      (step : ProcIoStep)
      (fd : step.state.ioFd = -1)
      (cur : step.cur = IoTotals.zero)
      (baselines : step.state.ioTotals = step.cur) :
      ProcIoOutcome st [none] step

theorem procIoStep_outcome (st : PidState) (readings : SlowReadings) :
    ProcIoOutcome st (readings.ioReads st) (procIoStep st readings) := by
  unfold SlowReadings.ioReads procIoStep ProcIoRead.totals
  by_cases opened : st.ioFd ≥ 0
  · rw [if_pos opened, if_pos opened]
    by_cases failed : readings.procIo.result = procIoReadFail
    · simp only [failed, if_true]
      cases readings.reopened with
      | ok fd =>
          refine .reread _ _ ?_ rfl
          by_cases again : readings.procIoAgain.result = procIoReadFail
          · simp [again, ProcIoStep.cur, leftBy, IoTotals.zero]
          · simp [again, ProcIoStep.cur, leftBy]
      | error errno => exact .lost _ rfl rfl rfl
    · simp only [failed, if_false]
      exact .read _ _ opened rfl rfl
  · rw [if_neg opened, if_neg opened]
    exact .unopened _ opened rfl rfl

/-- While the file is open, the baselines are what the last read left. -/
def BaselinesRead (reads : List (Option IoTotals)) (st : PidState) : Prop :=
  st.ioFd ≥ 0 → ∃ last, reads.getLast? = some last ∧ st.ioTotals = leftBy last

theorem addedState_baselinesRead
    (pid : Int)
    (readings : AddReadings)
    (opened : PerfCounter) :
    BaselinesRead readings.ioReads (addedState pid readings opened) := by
  intro fd
  have state : (addedState pid readings opened).ioTotals =
      ⟨(seedProcIo readings).1, (seedProcIo readings).2⟩ := rfl
  have ioFd : (addedState pid readings opened).ioFd = readings.ioFd.toFd := rfl
  rw [ioFd] at fd
  rw [state]
  unfold AddReadings.ioReads seedProcIo ProcIoRead.totals
  cases result : readings.ioFd with
  | ok number =>
      refine ⟨_, rfl, ?_⟩
      dsimp only [List.getLast_singleton]
      split <;> rfl
  | error errno =>
      rw [result] at fd
      exact absurd fd (not_le.mpr neg_one_lt_zero)

theorem sampledState_baselinesRead
    {reads : List (Option IoTotals)}
    {st : PidState}
    (hw : RawCounters)
    (readings : SlowReadings) :
    BaselinesRead (reads ++ readings.ioReads st) (sampledState st hw readings) := by
  intro fd
  have state : (sampledState st hw readings).ioTotals =
      (procIoStep st readings).cur := rfl
  have ioFd : (sampledState st hw readings).ioFd =
      (procIoStep st readings).state.ioFd := rfl
  rw [ioFd] at fd
  rw [state]
  have outcome := procIoStep_outcome st readings
  generalize procIoStep st readings = step at fd outcome ⊢
  generalize readings.ioReads st = now at outcome ⊢
  cases outcome with
  | unopened _ closed same cur => exact absurd (same ▸ fd) closed
  | read _ shown opened same cur => exact ⟨some shown, by simp, cur⟩
  | reread _ second cur baselines => exact ⟨second, by simp, cur⟩
  | lost _ lost cur baselines =>
      rw [lost] at fd
      exact absurd fd (by decide)

/-! ## The law of a sample -/

theorem byteDelta_toNat (cur prev : UInt64) :
    (byteDelta cur prev).toNat = cur.toNat - prev.toNat := by
  unfold byteDelta
  split
  · next order => exact UInt64.toNat_sub_of_le _ _ order
  · next order =>
      have below : cur.toNat < prev.toNat := by
        rw [← UInt64.lt_iff_toNat_lt]
        exact UInt64.not_le.mp order
      change 0 = _
      omega

theorem perSecond_mul_le_iff
    {dt : ℚ}
    (positive : 0 < dt)
    {amount : UInt64}
    {limit : Nat} :
    perSecond (toQ amount) dt * dt ≤ limit ↔ amount.toNat ≤ limit := by
  unfold perSecond toQ
  rw [if_pos positive, div_mul_cancel₀ _ positive.ne', Nat.cast_le]

theorem rawSample_ioRate
    (st : PidState)
    (hw : RawCounters)
    (readings : SlowReadings)
    (dt : ℚ)
    (total : IoTotal) :
    (rawSample st hw readings dt).ioRate total =
      perSecond (toQ (byteDelta ((procIoStep st readings).cur.get total)
        ((procIoStep st readings).state.ioTotals.get total))) dt := by
  cases total <;> rfl

theorem lastTotals_of_getLast
    {reads : List (Option IoTotals)}
    {last : IoTotals}
    (latest : reads.getLast? = some (some last)) :
    lastTotals reads = some last := by
  obtain ⟨earlier, rfl⟩ := List.getLast?_eq_some_iff.mp latest
  simp [lastTotals]

/-- A difference to 0 is no larger than that to an earlier total only where one
of the two is 0. -/
theorem le_increase_iff
    (total : IoTotal)
    (last : Option IoTotals)
    (shown : IoTotals) :
    (shown.get total).toNat ≤ increase total last (some shown) ↔
      shown.get total = 0 ∨ ∃ earlier ∈ last, earlier.get total = 0 := by
  have zero (value : UInt64) : value = 0 ↔ value.toNat = 0 :=
    UInt64.toNat_inj.symm
  cases last with
  | none => simp [increase, zero]
  | some earlier =>
      simp only [increase, zero, Option.mem_def, Option.some.injEq, exists_eq_left']
      omega

/-- A sample is bounded just when no failure before it does harm. -/
theorem sampleBounded_iff
    {reads : List (Option IoTotals)}
    {st : PidState}
    (holds : BaselinesRead reads st)
    (hw : RawCounters)
    (readings : SlowReadings)
    {dt : ℚ}
    (positive : 0 < dt) :
    SampleBounded reads st hw readings dt ↔ FailureHarmless reads st readings := by
  unfold SampleBounded FailureHarmless
  simp only [rawSample_ioRate, perSecond_mul_le_iff positive, byteDelta_toNat]
  have outcome := procIoStep_outcome st readings
  generalize procIoStep st readings = step at outcome ⊢
  generalize readings.ioReads st = now at outcome ⊢
  cases outcome with
  | unopened _ closed same cur => simp [cur]
  | reread _ second cur baselines => simp [baselines]
  | lost _ lost cur baselines => simp [baselines]
  | read _ shown opened same cur =>
      obtain ⟨last, latest, left⟩ := holds opened
      have now : lastTotals [some shown] = some shown := rfl
      rw [same, cur, now, left]
      cases last with
      | some last =>
          rw [lastTotals_of_getLast latest]
          simp [leftBy, increase, latest]
      | none =>
          simp only [leftBy, Option.getD_none, IoTotals.zero_get]
          constructor
          · intro bounded other single _ total
            cases single
            exact (le_increase_iff total _ shown).mp (bounded total)
          · intro harmless total
            exact (le_increase_iff total _ shown).mpr (harmless shown rfl latest total)

/-- The baselines of a slot follow its reads, so that every sample keeps the
equivalence.  A regression reset reads no totals and keeps their baselines. -/
def ioReadsLaw : PassLaw (List (Option IoTotals)) where
  initial := []
  onAdded := AddReadings.ioReads
  onReset := fun _ reads => reads
  onSample := fun prior _ readings _ reads => reads ++ readings.ioReads prior
  holds := fun reads r => BaselinesRead reads r.state
  law := fun reads prior hw readings dt _ =>
    SampleBounded reads prior hw readings dt ↔ FailureHarmless reads prior readings
  alike := by
    rintro reads r other ⟨-, active, state⟩ holds
    rw [state]
    exact holds
  added := fun pid readings => addedState_baselinesRead pid readings _
  reset := fun _ _ _ _ _ holds => holds
  sample := by
    intro reads r hw readings dt positive _ _ holds
    exact ⟨sampleBounded_iff holds hw readings positive,
      sampledState_baselinesRead hw readings⟩

/-! ## Whole runs -/

/-- The reads of a pid's totals since it was last added, oldest first. -/
def ioReads (log : List Event) (pid : Int) : List (Option IoTotals) :=
  ioReadsLaw.observed log pid

/-- A sample shows no more bytes than its totals grew by since the last
successful read of its slot, and none where there was no such read. -/
def IoBounded (before : List Event) : Event → Prop
  | .sampled pid prior hw readings dt _ =>
      SampleBounded (ioReads before pid) prior hw readings dt
  | _ => True

/-- No failed read before a sample does harm. -/
def IoFailureHarmless (before : List Event) : Event → Prop
  | .sampled pid prior _ readings _ _ =>
      FailureHarmless (ioReads before pid) prior readings
  | _ => True

/-- In every run, a sample shows no more bytes than the totals grew by exactly
where the failed read before it, if there is one, does no harm. -/
theorem runSamplingLoop_ioBounded_iff
    (qsort : Qsort)
    (cfg : DaemonConfig)
    (start : UInt64)
    (envs : List TickEnv) :
    EachEvent (fun before e => IoBounded before e ↔ IoFailureHarmless before e)
        (runSamplingLoop qsort cfg start envs).world.log ∧
      (EachEvent IoBounded (runSamplingLoop qsort cfg start envs).world.log ↔
        EachEvent IoFailureHarmless
          (runSamplingLoop qsort cfg start envs).world.log) := by
  have laws := ioReadsLaw.eventLaw_run qsort cfg start envs
  generalize (runSamplingLoop qsort cfg start envs).world.log = log at laws ⊢
  have pointwise : EachEvent
      (fun before e => IoBounded before e ↔ IoFailureHarmless before e) log := by
    intro before e after split
    have law := laws before e after split
    cases e with
    | sampled pid prior hw readings dt metrics => exact law.2
    | _ => exact Iff.rfl
  refine ⟨pointwise, ?_, ?_⟩
  · intro bounded before e after split
    exact (pointwise before e after split).mp (bounded before e after split)
  · intro harmless before e after split
    exact (pointwise before e after split).mpr (harmless before e after split)

instance (before : List Event) (e : Event) : Decidable (IoBounded before e) :=
  match e with
  | .sampled pid prior hw readings dt _ =>
      inferInstanceAs (Decidable (∀ total,
        (rawSample prior hw readings dt).ioRate total * dt ≤
          increase total (lastTotals (ioReads before pid))
            (lastTotals (readings.ioReads prior))))
  | .fd _ _ | .added _ _ | .removed _ | .rebased _ _ | .pushed _ _ | .tick _ _ =>
      isTrue trivial

/-! ## A failed read that does harm -/

/-- A process that has moved a mebibyte when it is added, and moves nothing
from then on; both reads of the first pass fail, with the file open. -/
def unreadableTick : TickEnv where
  now := 1
  sync :=
    { plainSyncEnv 1 [1000] with
      add := fun _ _ =>
        { plainAddReadings with
          procIo := { result := 1048576, syscallBytes := some 1048576 } } }
  slow := fun _ =>
    { plainSlowReadings with
      procIo := { result := procIoReadFail, syscallBytes := none }
      reopened := .ok 6
      procIoAgain := { result := procIoReadFail, syscallBytes := none } }

/-- The readings of the process when the file can be read again. -/
def idleReadings : SlowReadings :=
  { plainSlowReadings with
    procIo := { result := 1048576, syscallBytes := some 1048576 } }

/-- Five ticks, the second slow one of which reads the totals again. -/
def unreadableTicks : List TickEnv :=
  [unreadableTick, plainTick 50000001 idleReadings, plainTick 100000001 idleReadings,
    plainTick 150000001 idleReadings, plainTick 200000001 idleReadings]

/-- The next sample shows all that the process ever moved as the traffic of one
interval. -/
theorem unreadableTicks_not_ioBounded :
    ¬ EachEvent IoBounded
      (runSamplingLoop insertionQsort defaultConfig 0 unreadableTicks).world.log := by
  apply not_eachEvent 13
  decide +kernel

end Schedmon
