import Schedmon.Daemon.Runs
import Schedmon.Library.Stutter

/-!
# The contents of the two rings

The slow path feeds both rings, the fast path repeats cached records on one of
them.  Up to timestamps and repetition each pid has the same records on both.
-/

namespace Schedmon

open Library EventLog Stutter

/-- What an event pushes to a ring for a pid. -/
def Event.pushOf (ring : Ring) (pid : Int) : Event → Option SmoothedMetrics
  | .pushed other m => if other = ring ∧ m.pid = pid then some m else none
  | _ => none

/-- The records of a pid pushed to a ring, oldest first. -/
def pushesTo (ring : Ring) (pid : Int) (log : List Event) : List SmoothedMetrics :=
  log.filterMap (Event.pushOf ring pid)

/-- A record without its timestamp. -/
def SmoothedMetrics.untimed (m : SmoothedMetrics) : SmoothedMetrics :=
  m.stamp 0

/-- The records of a pid pushed to a ring, up to timestamps and repetition. -/
def contentsOf (ring : Ring) (pid : Int) (log : List Event) :
    List SmoothedMetrics :=
  collapse ((pushesTo ring pid log).map SmoothedMetrics.untimed)

/-- Both rings were fed the same records of a pid up to timestamps and
repetition, and the classifier's ring every record of the other one. -/
structure SameContents (log : List Event) (pid : Int) : Prop where
  contents : contentsOf .classifier pid log = contentsOf .dashboard pid log
  occurs : ∀ m ∈ pushesTo .dashboard pid log, m ∈ pushesTo .classifier pid log

/-- The last record of a pid pushed to the classifier's ring, but for its
timestamp. -/
def lastPushed (pid : Int) (log : List Event) : Option SmoothedMetrics :=
  ((pushesTo .classifier pid log).map SmoothedMetrics.untimed).getLast?

@[simp] theorem SmoothedMetrics.untimed_stamp
    (m : SmoothedMetrics)
    (now : UInt64) :
    (m.stamp now).untimed = m.untimed := rfl

/-! ## Appending events -/

theorem pushesTo_append (ring : Ring) (pid : Int) (log events : List Event) :
    pushesTo ring pid (log ++ events) =
      pushesTo ring pid log ++ pushesTo ring pid events :=
  List.filterMap_append

theorem pushesTo_append_of_none
    {ring : Ring}
    {pid : Int}
    (log : List Event)
    {events : List Event}
    (silent : ∀ e ∈ events, e.pushOf ring pid = none) :
    pushesTo ring pid (log ++ events) = pushesTo ring pid log := by
  have nothing : pushesTo ring pid events = [] :=
    List.filterMap_eq_nil_iff.mpr silent
  rw [pushesTo_append, nothing, List.append_nil]

/-- An event that pushes nothing for a pid. -/
def Event.PushesNothing (pid : Int) (e : Event) : Prop :=
  ∀ ring, e.pushOf ring pid = none

theorem Event.pushesNothing_of_other
    {e : Event}
    {pid : Int}
    (other : e.pid? ≠ some pid) :
    e.PushesNothing pid := by
  intro ring
  cases e with
  | pushed target m =>
      have different : m.pid ≠ pid := fun equal => other (congrArg some equal)
      simp [pushOf, different]
  | _ => rfl

theorem fdEvents_pushNothing (pid other : Int) (ops : List FdOp) :
    ∀ e ∈ ops.map (Event.fd pid), e.PushesNothing other :=
  forall_fdEvents (fun _ _ => rfl) ops

theorem SameContents.append_nothing
    {log events : List Event}
    {pid : Int}
    (same : SameContents log pid)
    (silent : ∀ e ∈ events, e.PushesNothing pid) :
    SameContents (log ++ events) pid := by
  have unchanged (ring : Ring) :
      pushesTo ring pid (log ++ events) = pushesTo ring pid log :=
    pushesTo_append_of_none log fun e member => silent e member ring
  constructor
  · unfold contentsOf
    rw [unchanged, unchanged]
    exact same.contents
  · rw [unchanged, unchanged]
    exact same.occurs

theorem lastPushed_append_nothing
    {log events : List Event}
    {pid : Int}
    (silent : ∀ e ∈ events, e.PushesNothing pid) :
    lastPushed pid (log ++ events) = lastPushed pid log := by
  unfold lastPushed
  rw [pushesTo_append_of_none log fun e member => silent e member .classifier]

section Pushes

variable {log : List Event} {pid : Int} {m : SmoothedMetrics} (own : m.pid = pid)

include own

theorem pushesTo_snoc (ring target : Ring) :
    pushesTo ring pid (log ++ [.pushed target m]) =
      if target = ring then pushesTo ring pid log ++ [m] else pushesTo ring pid log := by
  rw [pushesTo_append]
  by_cases here : target = ring
  · simp [pushesTo, Event.pushOf, here, own]
  · simp [pushesTo, Event.pushOf, here]

theorem lastPushed_snoc :
    lastPushed pid (log ++ [.pushed .classifier m]) = some m.untimed := by
  unfold lastPushed
  rw [pushesTo_snoc own, if_pos rfl, List.map_append, List.map_singleton,
    List.getLast?_concat]

/-- The slow path pushes to both rings. -/
theorem SameContents.pushBoth (same : SameContents log pid) :
    SameContents (log ++ [.pushed .classifier m, .pushed .dashboard m]) pid := by
  have classifier : pushesTo .classifier pid
      (log ++ [.pushed .classifier m, .pushed .dashboard m]) =
        pushesTo .classifier pid log ++ [m] := by
    rw [List.append_cons, pushesTo_snoc own, if_neg (by decide), pushesTo_snoc own,
      if_pos rfl]
  have dashboard : pushesTo .dashboard pid
      (log ++ [.pushed .classifier m, .pushed .dashboard m]) =
        pushesTo .dashboard pid log ++ [m] := by
    rw [List.append_cons, pushesTo_snoc own, if_pos rfl, pushesTo_snoc own,
      if_neg (by decide)]
  constructor
  · unfold contentsOf
    rw [classifier, dashboard, List.map_append, List.map_append]
    exact collapse_append_congr same.contents _
  · rw [classifier, dashboard]
    intro other member
    rcases List.mem_append.mp member with old | new
    · exact List.mem_append_left _ (same.occurs other old)
    · exact List.mem_append_right _ new

/-- The fast path repeats the record that was pushed last. -/
theorem SameContents.pushAgain
    (same : SameContents log pid)
    (last : lastPushed pid log = some m.untimed) :
    SameContents (log ++ [.pushed .classifier m]) pid := by
  constructor
  · unfold contentsOf
    rw [pushesTo_snoc own, if_pos rfl, pushesTo_snoc own, if_neg (by decide),
      List.map_append, List.map_singleton, collapse_append_last last]
    exact same.contents
  · rw [pushesTo_snoc own, if_neg (by decide), pushesTo_snoc own, if_pos rfl]
    intro other member
    exact List.mem_append_left _ (same.occurs other member)

end Pushes

/-! ## The law -/

/-- A slot's valid metrics are those pushed last, on both rings. -/
structure HoldsPushed (log : List Event) (r : SlotRecord) : Prop where
  same : SameContents log r.pid
  named : r.Named
  last : r.lastSmValid = true → lastPushed r.pid log = some r.lastSm.untimed

theorem HoldsPushed.append_nothing
    {log events : List Event}
    {r : SlotRecord}
    (holds : HoldsPushed log r)
    (silent : ∀ e ∈ events, e.PushesNothing r.pid) :
    HoldsPushed (log ++ events) r where
  same := holds.same.append_nothing silent
  named := holds.named
  last := by
    intro valid
    rw [lastPushed_append_nothing silent]
    exact holds.last valid

theorem sampleEvents_pushNothing
    (r : SlotRecord)
    (hw : RawCounters)
    (readings : SlowReadings)
    (dt : ℚ)
    (pid : Int) :
    ∀ e ∈ sampleEvents r hw readings dt, e.PushesNothing pid :=
  forall_fdEvents_snoc (fun _ _ => rfl) _ fun _ => rfl

/-- A sampling pass pushes to both rings or leaves nothing to repeat. -/
theorem HoldsPushed.takeSample
    {log : List Event}
    {r : SlotRecord}
    (holds : HoldsPushed log r)
    (hw : RawCounters)
    (readings : SlowReadings)
    (now : UInt64)
    (dt : ℚ)
    (displayed : Bool) :
    HoldsPushed (log ++ (Schedmon.takeSample r hw readings now dt displayed).2)
      (Schedmon.takeSample r hw readings now dt displayed).1 := by
  have silent := sampleEvents_pushNothing r hw readings dt r.pid
  have own := resampled_lastSm_pid r hw readings dt
  have samePid := takeSample_pid r hw readings now dt displayed
  obtain ⟨_, named⟩ := takeSample_events r hw readings now dt displayed
  have sampled := holds.same.append_nothing silent
  rcases takeSample_cases r hw readings now dt displayed with
    ⟨_, equal⟩ | ⟨_, equal⟩
  · refine ⟨?_, named, ?_⟩
    · rw [samePid, equal, ← List.append_assoc]
      exact sampled.pushBoth own
    · intro _
      rw [samePid, equal]
      obtain ⟨comm, refreshed⟩ := refreshComm_eq
        { resampled r hw readings dt with
          lastSmUpdatedNs := now
          lastSmValid := true
          lastSm := (resampled r hw readings dt).lastSm.stamp now }
        readings displayed
      rw [refreshed]
      have dashboard : ∀ e ∈ [Event.pushed .dashboard
          ((resampled r hw readings dt).lastSm.stamp now)],
            e.pushOf .classifier r.pid = none := by
        intro e member
        rw [List.mem_singleton.mp member]
        simp [Event.pushOf]
      rw [← List.append_assoc, List.append_cons]
      unfold lastPushed
      rw [pushesTo_append_of_none _ dashboard]
      exact lastPushed_snoc own
  · refine ⟨?_, named, ?_⟩
    · rw [samePid, equal]
      exact sampled
    · intro valid
      obtain ⟨comm, refreshed⟩ := refreshComm_eq
        { resampled r hw readings dt with lastSmValid := false } readings displayed
      rw [equal, refreshed] at valid
      cases valid

/-- The fast path repeats what a slot holds. -/
theorem HoldsPushed.fastVisit
    {log : List Event}
    {r : SlotRecord}
    (holds : HoldsPushed log r)
    (now : UInt64) :
    HoldsPushed (log ++ (Schedmon.fastVisit r now).2)
      (Schedmon.fastVisit r now).1 := by
  unfold Schedmon.fastVisit
  split
  · next published =>
      have valid := lastSmValid_of_fastPublishes published
      have own : (r.lastSm.stamp now).pid = r.pid := holds.named valid
      refine ⟨?_, fun _ => own, fun _ => lastPushed_snoc own⟩
      exact holds.same.pushAgain own (holds.last valid)
  · rw [List.append_nil]
    exact holds

/-- Every operation on a slot keeps the contents of the two rings equal. -/
def ringsLaw (cfg : DaemonConfig) : SlotLaw cfg where
  holds := fun _ log r => HoldsPushed log r
  absent := SameContents
  law := fun _ _ => True
  frame := by
    intro _ log r e pid about other holds
    apply holds.append_nothing
    intro later member
    rw [List.mem_singleton.mp member]
    apply Event.pushesNothing_of_other
    rw [about]
    exact fun equal => other (Option.some.inj equal)
  absentFrame := by
    intro log other e pid about different same
    apply same.append_nothing
    intro later member
    rw [List.mem_singleton.mp member]
    apply Event.pushesNothing_of_other
    rw [about]
    exact fun equal => different (Option.some.inj equal)
  absentStart := fun _ => ⟨rfl, fun _ member => member⟩
  absentTick := fun log pid now slow same =>
    same.append_nothing fun e member => by
      rw [List.mem_singleton.mp member]
      exact fun _ => rfl
  tick := fun _ _ _ _ => trivial
  startSlow := fun log r now holds => holds.append_nothing fun e member => by
    rw [List.mem_singleton.mp member]
    exact fun _ => rfl
  startFast := fun log r now holds => holds.append_nothing fun e member => by
    rw [List.mem_singleton.mp member]
    exact fun _ => rfl
  mark := fun log r active holds => ⟨holds.same, holds.named, holds.last⟩
  refused := fun log pid readings _ same =>
    ⟨along_of_forall fun _ _ _ => trivial,
      same.append_nothing (fdEvents_pushNothing pid pid _)⟩
  added := by
    intro log pid readings _ same _ _ _
    refine ⟨along_of_forall fun _ _ _ => trivial, ?_, ?_, ?_⟩
    · exact same.append_nothing (forall_fdEvents_snoc (fun _ _ => rfl) _ fun _ => rfl)
    · intro valid
      cases valid
    · intro valid
      cases valid
  removed := fun log r _ holds =>
    ⟨along_of_forall fun _ _ _ => trivial,
      holds.same.append_nothing (forall_fdEvents_snoc (fun _ _ => rfl) _ fun _ => rfl)⟩
  visit := by
    intro log r readings displayed after events _ _ holds wrote
    refine ⟨along_of_forall fun _ _ _ => trivial, ?_⟩
    obtain ⟨hw, _, ⟨_, rfl, rfl⟩ | ⟨_, _, rfl, rfl⟩⟩ := SlotWrite.slow_cases wrote
    · have silent : ∀ e ∈ [Event.rebased r.pid readings], e.PushesNothing r.pid := by
        intro e member
        rw [List.mem_singleton.mp member]
        exact fun _ => rfl
      have kept := holds.append_nothing silent
      exact ⟨kept.same, kept.named, kept.last⟩
    · exact holds.takeSample hw readings _ _ displayed
  fast := fun log r _ holds =>
    ⟨along_of_forall fun _ _ _ => trivial, holds.fastVisit (currentTime log)⟩

/-- In every run and for every pid the two rings are fed the same records, up
to timestamps and repetition. -/
theorem runSamplingLoop_sameContents
    (qsort : Qsort)
    (cfg : DaemonConfig)
    (start : UInt64)
    (envs : List TickEnv)
    (pid : Int) :
    SameContents (runSamplingLoop qsort cfg start envs).world.log pid := by
  have governed :=
    (runSamplingLoop_lawful (ringsLaw cfg) qsort start envs).governed
  by_cases tracked : pid ∈ (runSamplingLoop qsort cfg start envs).world.daemon.pids
  · obtain ⟨i, live, named⟩ := Daemon.mem_pids.mp tracked
    rw [← named]
    exact (governed.slots i live).same
  · exact governed.absent pid tracked

end Schedmon
