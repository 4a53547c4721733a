import Schedmon.Daemon.Runs

/-!
# Replaying one slot from the log

What a slot works on, its readings and the ticks, is in the log.  A replica of
the slot that is fed these inputs holds the slot's record at every point of
every run, but for the name and the mark of `sync_pids`, and pushes what the
daemon pushes for the pid.
-/

namespace Schedmon

open Library EventLog

/-- What the replica of a slot is fed. -/
inductive SlotInput
  | tick (now : UInt64)
  | added (readings : AddReadings)
  | removed
  | rebased (readings : SlowReadings)
  | sampled (hw : RawCounters) (readings : SlowReadings) (slowDt : ℚ)
  deriving DecidableEq

/-- What an event feeds to the replica of a pid's slot. -/
def Event.input? (pid : Int) : Event → Option SlotInput
  | .tick now _ => some (.tick now)
  | .added other readings => if other = pid then some (.added readings) else none
  | .removed other => if other = pid then some .removed else none
  | .rebased other readings =>
      if other = pid then some (.rebased readings) else none
  | .sampled other _ hw readings dt _ =>
      if other = pid then some (.sampled hw readings dt) else none
  | _ => none

/-- What an event pushes for a pid. -/
def Event.push? (pid : Int) : Event → Option (Ring × SmoothedMetrics)
  | .pushed ring m => if m.pid = pid then some (ring, m) else none
  | _ => none

/-- All that a log feeds to the replica of a pid's slot. -/
def inputsOf (pid : Int) (log : List Event) : List SlotInput :=
  log.filterMap (Event.input? pid)

/-- All that a log pushes for a pid. -/
def pushesOf (pid : Int) (log : List Event) : List (Ring × SmoothedMetrics) :=
  log.filterMap (Event.push? pid)

/-- A record without the name and the mark. -/
def SlotRecord.core (r : SlotRecord) : SlotRecord :=
  { r with
    state := { r.state with active := false }
    comm := [] }

/-- A replica: the time of the tick, the record, and what was pushed so far. -/
structure Replica where
  now : UInt64
  slot : Option SlotRecord
  pushed : List (Ring × SmoothedMetrics)

namespace Replica

/-- No slot before the first tick. -/
def start : Replica := ⟨0, none, []⟩

/-- A visit of the slot that publishes. -/
def visit (pid : Int) (pass : SlotRecord → SlotRecord × List Event) (s : Replica) :
    Replica :=
  match s.slot with
  | none => s
  | some r =>
      { s with
        slot := some (pass r).1
        pushed := s.pushed ++ pushesOf pid (pass r).2 }

/-- The fast path at the end of a tick. -/
def finish (pid : Int) (s : Replica) : Replica :=
  s.visit pid fun r => fastVisit r s.now

/-- A regression reset. -/
def rebase (readings : SlowReadings) (s : Replica) : Replica :=
  { s with
    slot := s.slot.map fun r =>
      match perfCounterRead r.perf readings.hw with
      | some hw => { r with state := Schedmon.rebase r.state hw readings }
      | none => r }

/-- A pass that takes a sample. -/
def sample (pid : Int) (hw : RawCounters) (readings : SlowReadings) (dt : ℚ)
    (s : Replica) : Replica :=
  s.visit pid fun r => publish (resampled r hw readings dt) s.now

/-- The replica after an input. -/
def step (pid : Int) (s : Replica) : SlotInput → Replica
  | .tick now => { s.finish pid with now := now }
  | .added readings => { s with slot := some (freshRecord pid readings).core }
  | .removed => { s with slot := none }
  | .rebased readings => s.rebase readings
  | .sampled hw readings dt => s.sample pid hw readings dt

/-- The replica after a list of inputs. -/
def run (pid : Int) (s : Replica) (inputs : List SlotInput) : Replica :=
  inputs.foldl (step pid) s

end Replica

/-- The replica of a pid's slot at a point of a log. -/
def replicaAt (pid : Int) (log : List Event) : Replica :=
  Replica.start.run pid (inputsOf pid log)

/-! ## Inputs and pushes of appended events -/

theorem pushesOf_append (pid : Int) (log events : List Event) :
    pushesOf pid (log ++ events) = pushesOf pid log ++ pushesOf pid events :=
  List.filterMap_append

theorem replicaAt_append (pid : Int) (log events : List Event) :
    replicaAt pid (log ++ events) =
      (replicaAt pid log).run pid (inputsOf pid events) := by
  unfold replicaAt Replica.run inputsOf
  rw [List.filterMap_append, List.foldl_append]

theorem replicaAt_snoc (pid : Int) (log : List Event) (e : Event) :
    replicaAt pid (log ++ [e]) =
      ((e.input? pid).toList.foldl (Replica.step pid) (replicaAt pid log)) := by
  rw [replicaAt_append]
  unfold Replica.run inputsOf
  cases fed : e.input? pid <;> simp [fed]

@[simp] theorem Replica.visit_now
    (pid : Int)
    (pass : SlotRecord → SlotRecord × List Event)
    (s : Replica) :
    (s.visit pid pass).now = s.now := by
  unfold Replica.visit
  split <;> rfl

theorem Replica.slot_visit
    (pid : Int)
    (pass : SlotRecord → SlotRecord × List Event)
    (s : Replica) :
    (s.visit pid pass).slot = s.slot.map fun r => (pass r).1 := by
  unfold Replica.visit
  split
  · next vacant => rw [vacant, Option.map_none]
  · next r held => rw [held, Option.map_some]

theorem Replica.visit_of_none
    {s : Replica}
    (vacant : s.slot = none)
    (pid : Int)
    (pass : SlotRecord → SlotRecord × List Event) :
    s.visit pid pass = s := by
  unfold Replica.visit
  rw [vacant]

/-- The replica's time is the time of the tick. -/
theorem replicaAt_now (pid : Int) (log : List Event) :
    (replicaAt pid log).now = currentTime log := by
  induction log using List.reverseRecOn with
  | nil => rfl
  | append_singleton log e inductionHypothesis =>
      rw [replicaAt_snoc]
      cases about : e.pid? with
      | none =>
          cases e with
          | tick now slow => exact (currentTime_tick log now slow).symm
          | _ => cases about
      | some other =>
          have own : ∀ later ∈ [e], later.pid? = some other := by simpa using about
          rw [currentTime_of_pid log own, ← inductionHypothesis]
          cases e with
          | tick now slow => cases about
          | fd q op => rfl
          | pushed ring m => rfl
          | added q readings =>
              by_cases own : q = pid <;> simp [Event.input?, own, Replica.step]
          | removed q =>
              by_cases own : q = pid <;> simp [Event.input?, own, Replica.step]
          | rebased q readings =>
              by_cases own : q = pid <;>
                simp [Event.input?, own, Replica.step, Replica.rebase]
          | sampled q prior hw readings dt metrics =>
              by_cases own : q = pid <;>
                simp [Event.input?, own, Replica.step, Replica.sample]

/-- Events that neither feed nor push anything for a pid. -/
structure Event.Irrelevant (pid : Int) (e : Event) : Prop where
  input : e.input? pid = none
  push : e.push? pid = none

theorem inputsOf_of_none
    {events : List Event}
    {pid : Int}
    (silent : ∀ e ∈ events, e.input? pid = none) :
    inputsOf pid events = [] :=
  List.filterMap_eq_nil_iff.mpr silent

theorem pushesOf_of_none
    {events : List Event}
    {pid : Int}
    (silent : ∀ e ∈ events, e.push? pid = none) :
    pushesOf pid events = [] :=
  List.filterMap_eq_nil_iff.mpr silent

theorem replicaAt_append_of_none
    {log events : List Event}
    {pid : Int}
    (silent : ∀ e ∈ events, e.input? pid = none) :
    replicaAt pid (log ++ events) = replicaAt pid log := by
  rw [replicaAt_append, inputsOf_of_none silent]
  rfl

theorem pushesOf_append_of_none
    {log events : List Event}
    {pid : Int}
    (silent : ∀ e ∈ events, e.push? pid = none) :
    pushesOf pid (log ++ events) = pushesOf pid log := by
  rw [pushesOf_append, pushesOf_of_none silent, List.append_nil]

theorem Event.irrelevant_of_other
    {e : Event}
    {pid other : Int}
    (about : e.pid? = some other)
    (different : other ≠ pid) :
    e.Irrelevant pid := by
  cases e with
  | tick now slow => cases about
  | fd q op => exact ⟨rfl, rfl⟩
  | pushed ring m =>
      cases about
      exact ⟨rfl, if_neg different⟩
  | _ =>
      cases about
      exact ⟨if_neg different, rfl⟩

theorem fdEvents_irrelevant (pid other : Int) (ops : List FdOp) :
    ∀ e ∈ ops.map (Event.fd pid), e.Irrelevant other :=
  forall_fdEvents (fun _ => ⟨rfl, rfl⟩) ops

/-! ## The name and the mark do not matter -/

section Core

variable (r : SlotRecord)

@[simp] theorem SlotRecord.core_pid : r.core.pid = r.pid := rfl

theorem procIoStep_unmarked (st : PidState) (active : Bool) (readings : SlowReadings) :
    procIoStep { st with active := active } readings =
      { procIoStep st readings with
        state := { (procIoStep st readings).state with active := active } } := by
  unfold procIoStep
  dsimp only
  split
  · split <;> rfl
  · rfl

theorem rawSample_unmarked
    (st : PidState)
    (active : Bool)
    (hw : RawCounters)
    (readings : SlowReadings)
    (dt : ℚ) :
    rawSample { st with active := active } hw readings dt =
      rawSample st hw readings dt := by
  unfold rawSample
  rw [procIoStep_unmarked]
  rfl

theorem sampledState_unmarked
    (st : PidState)
    (active : Bool)
    (hw : RawCounters)
    (readings : SlowReadings) :
    sampledState { st with active := active } hw readings =
      { sampledState st hw readings with active := active } := by
  unfold sampledState
  rw [procIoStep_unmarked]

theorem core_resampled (hw : RawCounters) (readings : SlowReadings) (dt : ℚ) :
    (resampled r hw readings dt).core = resampled r.core hw readings dt := by
  have raw : rawSample r.core.state hw readings dt =
      rawSample r.state hw readings dt := rawSample_unmarked _ _ _ _ _
  have state : sampledState r.core.state hw readings =
      { sampledState r.state hw readings with active := false } :=
    sampledState_unmarked _ _ _ _
  unfold resampled
  dsimp only
  rw [raw, state]
  rfl

theorem core_publish (now : UInt64) :
    publish r.core now = ((publish r now).1.core, (publish r now).2) := by
  unfold publish
  have same : r.core.lastSm = r.lastSm := rfl
  rw [same]
  split <;> rfl

theorem core_refreshComm (readings : SlowReadings) (displayed : Bool) :
    (refreshComm r readings displayed).core = r.core := by
  obtain ⟨comm, equal⟩ := refreshComm_eq r readings displayed
  rw [equal]
  rfl

theorem core_fastVisit (now : UInt64) :
    fastVisit r.core now = ((fastVisit r now).1.core, (fastVisit r now).2) := by
  unfold fastVisit
  have same : fastPublishes r.core now = fastPublishes r now := rfl
  rw [same]
  split <;> rfl

end Core

/-! ## The law -/

/-- The replica holds the slot's record, and pushed what was pushed. -/
structure Replicates (s : Replica) (log : List Event) (pid : Int)
    (slot : Option SlotRecord) : Prop where
  slot : s.slot = slot
  pushed : s.pushed = pushesOf pid log

/-- Between ticks the replica has yet to do the fast path of the last tick. -/
def ReplicatedIn (phase : SlotPhase) (log : List Event) (r : SlotRecord) : Prop :=
  match phase with
  | .rested =>
      Replicates ((replicaAt r.pid log).finish r.pid) log r.pid (some r.core)
  | _ => Replicates (replicaAt r.pid log) log r.pid (some r.core)

/-- A pid without a slot has a replica without one. -/
def NotReplicated (log : List Event) (pid : Int) : Prop :=
  Replicates (replicaAt pid log) log pid none

/-- What the replica says about a pass when it is logged. -/
def replayLaw (before : List Event) : Event → Prop
  | .rebased pid readings =>
      (replicaAt pid before).pushed = pushesOf pid before ∧
      ∃ r hw, (replicaAt pid before).slot = some (SlotRecord.core r) ∧ r.pid = pid ∧
        perfCounterRead r.perf readings.hw = some hw ∧
        (bpfRegressed r.state readings = true ∨ cyclesRegressed r.state hw = true)
  | .sampled pid prior hw readings dt metrics =>
      ∃ r : SlotRecord, (replicaAt pid before).slot = some r.core ∧ r.pid = pid ∧
        prior = r.state ∧ perfCounterRead r.perf readings.hw = some hw ∧
        bpfRegressed prior readings = false ∧ cyclesRegressed prior hw = false ∧
        dt = slowInterval (slowTimes before) ∧
        metrics = (resampled r hw readings dt).lastSm
  | _ => True

theorem Replicates.append_irrelevant
    {s : Replica}
    {log events : List Event}
    {pid : Int}
    {slot : Option SlotRecord}
    (replicates : Replicates s log pid slot)
    (irrelevant : ∀ e ∈ events, e.Irrelevant pid) :
    Replicates s (log ++ events) pid slot where
  slot := replicates.slot
  pushed := by
    rw [pushesOf_append_of_none fun e member => (irrelevant e member).push]
    exact replicates.pushed

theorem ReplicatedIn.append_irrelevant
    {phase : SlotPhase}
    {log events : List Event}
    {r : SlotRecord}
    (replicated : ReplicatedIn phase log r)
    (irrelevant : ∀ e ∈ events, e.Irrelevant r.pid) :
    ReplicatedIn phase (log ++ events) r := by
  have same : replicaAt r.pid (log ++ events) = replicaAt r.pid log :=
    replicaAt_append_of_none fun e member => (irrelevant e member).input
  unfold ReplicatedIn at replicated ⊢
  rw [same]
  cases phase with
  | rested => exact replicated.append_irrelevant irrelevant
  | due => exact replicated.append_irrelevant irrelevant
  | visited => exact replicated.append_irrelevant irrelevant

theorem NotReplicated.append_irrelevant
    {log events : List Event}
    {pid : Int}
    (absent : NotReplicated log pid)
    (irrelevant : ∀ e ∈ events, e.Irrelevant pid) :
    NotReplicated (log ++ events) pid := by
  have same : replicaAt pid (log ++ events) = replicaAt pid log :=
    replicaAt_append_of_none fun e member => (irrelevant e member).input
  unfold NotReplicated at absent ⊢
  rw [same]
  exact Replicates.append_irrelevant absent irrelevant

theorem publish_events_noInput (r : SlotRecord) (now : UInt64) (pid : Int) :
    ∀ e ∈ (publish r now).2, e.input? pid = none := by
  unfold publish
  split <;> simp [Event.input?]

theorem sampleEvents_noPush
    (r : SlotRecord)
    (hw : RawCounters)
    (readings : SlowReadings)
    (dt : ℚ)
    (pid : Int) :
    ∀ e ∈ sampleEvents r hw readings dt, e.push? pid = none := by
  intro e member
  rcases List.mem_append.mp member with opened | sampled
  · exact (fdEvents_irrelevant _ _ _ e opened).push
  · rw [List.mem_singleton.mp sampled]
    rfl

theorem fastVisit_events_noInput (r : SlotRecord) (now : UInt64) (pid : Int) :
    ∀ e ∈ (fastVisit r now).2, e.input? pid = none := by
  unfold fastVisit
  split <;> simp [Event.input?]

/-- Starting a tick does the fast path of the last one. -/
theorem ReplicatedIn.startTick
    {log : List Event}
    {r : SlotRecord}
    (replicated : ReplicatedIn .rested log r)
    (now : UInt64)
    (slow : Bool) :
    Replicates (replicaAt r.pid (log ++ [.tick now slow]))
      (log ++ [.tick now slow]) r.pid (some r.core) := by
  rw [replicaAt_snoc]
  refine ⟨replicated.slot, ?_⟩
  rw [pushesOf_append_of_none (by simp [Event.push?])]
  exact replicated.pushed

/-- A replica without a slot does nothing in the fast path. -/
theorem NotReplicated.startTick
    {log : List Event}
    {pid : Int}
    (absent : NotReplicated log pid)
    (now : UInt64)
    (slow : Bool) :
    NotReplicated (log ++ [.tick now slow]) pid := by
  unfold NotReplicated
  rw [replicaAt_snoc]
  have finished : (replicaAt pid log).finish pid = replicaAt pid log :=
    Replica.visit_of_none absent.slot pid _
  constructor
  · change ((replicaAt pid log).finish pid).slot = none
    rw [finished]
    exact absent.slot
  · rw [pushesOf_append_of_none (by simp [Event.push?])]
    change ((replicaAt pid log).finish pid).pushed = _
    rw [finished]
    exact absent.pushed

/-- A reset of the slot resets the replica. -/
theorem Replicates.rebased
    {log : List Event}
    {r : SlotRecord}
    (replicates : Replicates (replicaAt r.pid log) log r.pid (some r.core))
    {hw : RawCounters}
    {readings : SlowReadings}
    (decoded : perfCounterRead r.perf readings.hw = some hw) :
    Replicates (replicaAt r.pid (log ++ [.rebased r.pid readings]))
      (log ++ [.rebased r.pid readings]) r.pid
      (some { r with state := Schedmon.rebase r.state hw readings }.core) := by
  have fed : Event.input? r.pid (.rebased r.pid readings) =
      some (.rebased readings) := if_pos rfl
  rw [replicaAt_snoc, fed]
  constructor
  · change (replicaAt r.pid log).slot.map _ = _
    have same : r.core.perf = r.perf := rfl
    rw [replicates.slot, Option.map_some, same, decoded]
    rfl
  · rw [pushesOf_append_of_none (by simp [Event.push?])]
    exact replicates.pushed

/-- A sample of the slot is a sample of the replica. -/
theorem Replicates.sampled
    {log : List Event}
    {r : SlotRecord}
    (replicates : Replicates (replicaAt r.pid log) log r.pid (some r.core))
    (hw : RawCounters)
    (readings : SlowReadings)
    (dt : ℚ)
    (displayed : Bool) :
    Replicates
      (replicaAt r.pid
        (log ++ (takeSample r hw readings (currentTime log) dt displayed).2))
      (log ++ (takeSample r hw readings (currentTime log) dt displayed).2) r.pid
      (some (takeSample r hw readings (currentTime log) dt displayed).1.core) := by
  have fed : Event.input? r.pid
      (.sampled r.pid r.state hw readings dt (resampled r hw readings dt).lastSm) =
        some (.sampled hw readings dt) := if_pos rfl
  have stepped : replicaAt r.pid
      (log ++ (takeSample r hw readings (currentTime log) dt displayed).2) =
        (replicaAt r.pid log).sample r.pid hw readings dt := by
    change replicaAt r.pid (log ++ (sampleEvents r hw readings dt ++
      (publish (resampled r hw readings dt) (currentTime log)).2)) = _
    rw [← List.append_assoc,
      replicaAt_append_of_none (publish_events_noInput _ _ _)]
    unfold sampleEvents
    rw [← List.append_assoc, replicaAt_snoc, fed,
      replicaAt_append_of_none fun e member =>
        (fdEvents_irrelevant _ _ _ e member).input]
    rfl
  have pushed : pushesOf r.pid
      (log ++ (takeSample r hw readings (currentTime log) dt displayed).2) =
        pushesOf r.pid log ++ pushesOf r.pid
          (publish (resampled r hw readings dt) (currentTime log)).2 := by
    change pushesOf r.pid (log ++ (sampleEvents r hw readings dt ++
      (publish (resampled r hw readings dt) (currentTime log)).2)) = _
    rw [← List.append_assoc, pushesOf_append,
      pushesOf_append_of_none (sampleEvents_noPush r hw readings dt r.pid)]
  have published := core_publish (resampled r hw readings dt) (currentTime log)
  rw [core_resampled] at published
  unfold Replica.sample Replica.visit at stepped
  rw [replicates.slot] at stepped
  dsimp only at stepped
  rw [replicaAt_now, published] at stepped
  rw [stepped]
  constructor
  · change some (publish (resampled r hw readings dt) (currentTime log)).1.core =
      some (refreshComm (publish (resampled r hw readings dt) (currentTime log)).1
        readings displayed).core
    rw [core_refreshComm]
  · rw [pushed, ← replicates.pushed]

/-- The replica does the fast path of the slot. -/
theorem Replicates.fast
    {log : List Event}
    {r : SlotRecord}
    (replicates : Replicates (replicaAt r.pid log) log r.pid (some r.core)) :
    Replicates
      ((replicaAt r.pid (log ++ (fastVisit r (currentTime log)).2)).finish r.pid)
      (log ++ (fastVisit r (currentTime log)).2) r.pid
      (some (fastVisit r (currentTime log)).1.core) := by
  rw [replicaAt_append_of_none (fastVisit_events_noInput _ _ _)]
  have visited := core_fastVisit r (currentTime log)
  unfold Replica.finish Replica.visit
  rw [replicates.slot]
  dsimp only
  rw [replicaAt_now, visited]
  refine ⟨rfl, ?_⟩
  rw [pushesOf_append, ← replicates.pushed]

/-- A new slot starts a new record in the replica. -/
theorem NotReplicated.added
    {log : List Event}
    {pid : Int}
    (absent : NotReplicated log pid)
    (readings : AddReadings) :
    ReplicatedIn .due
      (log ++ ((addOps pid readings).map (Event.fd pid) ++ [.added pid readings]))
      (freshRecord pid readings) := by
  have fed : Event.input? pid (.added pid readings) = some (.added readings) :=
    if_pos rfl
  have opened := absent.append_irrelevant
    (fdEvents_irrelevant pid pid (addOps pid readings))
  unfold ReplicatedIn
  rw [freshRecord_pid, ← List.append_assoc, replicaAt_snoc, fed]
  refine ⟨rfl, ?_⟩
  rw [pushesOf_append_of_none (by simp [Event.push?])]
  exact opened.pushed

/-- Removing the slot empties the replica. -/
theorem ReplicatedIn.removed
    {log : List Event}
    {r : SlotRecord}
    (replicated : ReplicatedIn .due log r) :
    NotReplicated
      (log ++ ((removeOps r).map (Event.fd r.pid) ++ [.removed r.pid])) r.pid := by
  have fed : Event.input? r.pid (.removed r.pid) = some .removed := if_pos rfl
  have closed := replicated.append_irrelevant
    (fdEvents_irrelevant r.pid r.pid (removeOps r))
  unfold NotReplicated
  rw [← List.append_assoc, replicaAt_snoc, fed]
  refine ⟨rfl, ?_⟩
  rw [pushesOf_append_of_none (by simp [Event.push?])]
  exact closed.pushed

theorem replayLaw_of_noInput
    {log : List Event}
    {e : Event}
    (silent : ∀ pid, e.input? pid = none) :
    replayLaw log e := by
  cases e with
  | rebased pid readings => simpa [Event.input?] using silent pid
  | sampled pid prior hw readings dt metrics =>
      simpa [Event.input?] using silent pid
  | _ => trivial

/-- Every operation on a slot is replicated. -/
def replayedLaw (cfg : DaemonConfig) : SlotLaw cfg where
  holds := fun phase log r => r.Named ∧ ReplicatedIn phase log r
  absent := NotReplicated
  law := replayLaw
  frame := by
    intro phase log r e pid about other holds
    refine ⟨holds.1, holds.2.append_irrelevant ?_⟩
    intro later member
    rw [List.mem_singleton.mp member]
    exact Event.irrelevant_of_other about other
  absentFrame := by
    intro log other e pid about different absent
    apply absent.append_irrelevant
    intro later member
    rw [List.mem_singleton.mp member]
    exact Event.irrelevant_of_other about different
  absentStart := fun _ => ⟨rfl, rfl⟩
  absentTick := fun _ _ now slow absent => absent.startTick now slow
  tick := fun _ _ _ _ => trivial
  startSlow := fun _ _ now holds => ⟨holds.1, holds.2.startTick now true⟩
  startFast := fun _ _ now holds => ⟨holds.1, holds.2.startTick now false⟩
  mark := fun _ _ _ holds => holds
  refused := fun log pid readings _ absent =>
    ⟨along_fdEvents (fun _ _ => trivial) _,
      absent.append_irrelevant (fdEvents_irrelevant _ _ _)⟩
  added := by
    intro log pid readings _ absent _ _ _
    refine ⟨along_fdEvents_snoc (fun _ _ => trivial) trivial, ?_,
      absent.added readings⟩
    intro valid
    cases valid
  removed := fun log r _ holds =>
    ⟨along_fdEvents_snoc (fun _ _ => trivial) trivial, holds.2.removed⟩
  visit := by
    intro log r readings displayed after events _ _ holds wrote
    obtain ⟨named, replicates⟩ := holds
    obtain ⟨hw, decoded, ⟨regressed, rfl, rfl⟩ | ⟨noBpf, noCycles, rfl, rfl⟩⟩ :=
      SlotWrite.slow_cases wrote
    · refine ⟨along_singleton.mpr ⟨replicates.pushed, ?_⟩, named,
        replicates.rebased decoded⟩
      exact ⟨r, hw, replicates.slot, rfl, decoded, regressed⟩
    · refine ⟨?_, (takeSample_events r hw readings _ _ displayed).2, ?_⟩
      · have silent (e : Event) (member : e ∈ (procIoStep r.state readings).ops.map
            (Event.fd r.pid)) : e.input? r.pid = none :=
          (fdEvents_irrelevant _ _ _ e member).input
        have own : Along replayLaw log
            (sampleEvents r hw readings (slowInterval (slowTimes log))) := by
          apply along_fdEvents_snoc fun _ _ => trivial
          refine ⟨r, ?_, rfl, rfl, decoded, noBpf, noCycles, ?_, rfl⟩
          · rw [replicaAt_append_of_none silent]
            exact replicates.slot
          · rw [slowTimes_eq_of_ticks
              (ticks_append_of_pid log (fdEvents_pid r.pid _))]
        apply along_append.mpr
        refine ⟨own, along_of_forall fun before e member => ?_⟩
        exact replayLaw_of_noInput fun other =>
          publish_events_noInput (resampled r hw readings _) _ other e member
      · have sampled := Replicates.sampled replicates hw readings
          (slowInterval (slowTimes log)) displayed
        unfold ReplicatedIn
        rw [takeSample_pid]
        exact sampled
  fast := by
    intro log r _ holds
    refine ⟨?_, (fastVisit_events holds.1 _).2, ?_⟩
    · exact along_of_forall fun _ e member => replayLaw_of_noInput fun other =>
        fastVisit_events_noInput r _ other e member
    · unfold ReplicatedIn
      rw [fastVisit_pid]
      exact Replicates.fast holds.2

/-- At every point of every run the replica of a pid's slot has pushed what the
daemon pushed for the pid. -/
theorem runSamplingLoop_replicated
    (qsort : Qsort)
    (cfg : DaemonConfig)
    (start : UInt64)
    (envs : List TickEnv)
    (pid : Int) :
    ((replicaAt pid (runSamplingLoop qsort cfg start envs).world.log).finish
      pid).pushed =
        pushesOf pid (runSamplingLoop qsort cfg start envs).world.log := by
  have governed :=
    (runSamplingLoop_lawful (replayedLaw cfg) qsort start envs).governed
  by_cases tracked : pid ∈ (runSamplingLoop qsort cfg start envs).world.daemon.pids
  · obtain ⟨i, live, named⟩ := Daemon.mem_pids.mp tracked
    have replicated := (governed.slots i live).2.pushed
    rw [named] at replicated
    exact replicated
  · have absent := governed.absent pid tracked
    unfold Replica.finish
    rw [Replica.visit_of_none absent.slot]
    exact absent.pushed

/-- Every pass that is logged is a pass of the replica. -/
theorem runSamplingLoop_replayLaw
    (qsort : Qsort)
    (cfg : DaemonConfig)
    (start : UInt64)
    (envs : List TickEnv) :
    EachEvent replayLaw (runSamplingLoop qsort cfg start envs).world.log :=
  (runSamplingLoop_lawful (replayedLaw cfg) qsort start envs).governed.laws

/-! ## Invariants of a replica's record -/

/-- A property of records that every operation on a slot keeps. -/
structure RecordInvariant (P : SlotRecord → Prop) : Prop where
  fresh : ∀ pid readings, P (freshRecord pid readings).core
  rebased : ∀ r hw readings, P r → P { r with state := rebase r.state hw readings }
  sampled : ∀ r hw readings dt now, P r →
    P (publish (resampled r hw readings dt) now).1
  fast : ∀ r now, P r → P (fastVisit r now).1

theorem RecordInvariant.visit
    {P : SlotRecord → Prop}
    {s : Replica}
    (holds : ∀ r, s.slot = some r → P r)
    (pid : Int)
    {pass : SlotRecord → SlotRecord × List Event}
    (kept : ∀ r, P r → P (pass r).1) :
    ∀ r, (s.visit pid pass).slot = some r → P r := by
  obtain ⟨now, slot, pushed⟩ := s
  cases slot with
  | none => exact holds
  | some r =>
      intro after held
      cases held
      exact kept r (holds r rfl)

theorem RecordInvariant.step
    {P : SlotRecord → Prop}
    (invariant : RecordInvariant P)
    {s : Replica}
    (holds : ∀ r, s.slot = some r → P r)
    (pid : Int)
    (input : SlotInput) :
    ∀ r, (s.step pid input).slot = some r → P r := by
  cases input with
  | tick now => exact RecordInvariant.visit holds pid fun r => invariant.fast r s.now
  | added readings =>
      intro r held
      cases held
      exact invariant.fresh pid readings
  | removed =>
      intro r held
      cases held
  | rebased readings =>
      intro r held
      obtain ⟨before, slot, rfl⟩ := Option.map_eq_some_iff.mp held
      cases perfCounterRead before.perf readings.hw with
      | none => exact holds before slot
      | some hw => exact invariant.rebased before hw readings (holds before slot)
  | sampled hw readings dt =>
      exact RecordInvariant.visit holds pid fun r =>
        invariant.sampled r hw readings dt s.now

/-- An invariant of the records holds of every replica. -/
theorem RecordInvariant.replicaAt
    {P : SlotRecord → Prop}
    (invariant : RecordInvariant P)
    (pid : Int)
    (log : List Event) :
    ∀ r, (Schedmon.replicaAt pid log).slot = some r → P r := by
  unfold Schedmon.replicaAt Replica.run
  have start : ∀ r, Replica.start.slot = some r → P r := by
    intro r held
    cases held
  generalize Replica.start = s at start
  induction inputsOf pid log generalizing s with
  | nil => exact start
  | cons input rest inductionHypothesis =>
      exact inductionHypothesis _ (invariant.step start pid input)

end Schedmon
