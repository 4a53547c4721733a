import Schedmon.Daemon.Windows

/-!
# What is published

Every record pushed to a ring is the latest sample of a live slot, active,
fresh, and stamped with the time of its tick.
-/

namespace Schedmon

open Library EventLog

/-- What an event says about the samples of a pid: a new slot starts without. -/
def Event.sampleOf (pid : Int) : Event → Option (Option SmoothedMetrics)
  | .added other _ => if other = pid then some none else none
  | .sampled other _ _ _ _ metrics => if other = pid then some (some metrics) else none
  | _ => none

/-- The time and the metrics of a pid's latest sample since it was last added. -/
def lastSample (log : List Event) (pid : Int) : Option (UInt64 × SmoothedMetrics) :=
  (latestAt (Event.sampleOf pid) log).bind fun latest =>
    latest.2.map fun metrics => (latest.1, metrics)

@[simp] theorem SmoothedMetrics.stamp_metrics (m : SmoothedMetrics) (now : UInt64) :
    (m.stamp now).metrics = m.metrics := rfl

@[simp] theorem SmoothedMetrics.stamp_pid (m : SmoothedMetrics) (now : UInt64) :
    (m.stamp now).pid = m.pid := rfl

@[simp] theorem SmoothedMetrics.stamp_stamp
    (m : SmoothedMetrics)
    (now later : UInt64) :
    (m.stamp now).stamp later = m.stamp later := rfl

/-- What is true of a record when it is pushed, whatever the clock does. -/
structure PushedSample (before : List Event) (m : SmoothedMetrics) : Prop where
  stamped : m.timestampNs = currentTime before
  live : trackedIn before m.pid = true
  active : smIsActive m = true
  own : ∃ time sample, lastSample before m.pid = some (time, sample) ∧
    m = sample.stamp m.timestampNs ∧ ¬ currentTime before - time > staleNs

/-- What is true of a record when it is pushed. -/
structure PushedWell (before : List Event) (m : SmoothedMetrics) : Prop where
  stamped : m.timestampNs = currentTime before
  live : trackedIn before m.pid = true
  active : ∃ metric ∈ m.metrics, 0 < metric
  /-- It is the pid's own latest sample, at most `STALE_NS` old. -/
  own : ∃ time sample, lastSample before m.pid = some (time, sample) ∧
    m = sample.stamp m.timestampNs ∧ time ≤ currentTime before ∧
    (currentTime before).toNat - time.toNat ≤ staleNs.toNat

/-! ## The last sample under appended events -/

theorem Event.sampleOf_of_other
    {e : Event}
    {pid : Int}
    (other : e.pid? ≠ some pid) :
    e.sampleOf pid = none := by
  cases e with
  | added q readings =>
      have different : q ≠ pid := fun equal => other (by rw [equal]; rfl)
      simp [Event.sampleOf, different]
  | sampled q prior hw readings dt metrics =>
      have different : q ≠ pid := fun equal => other (by rw [equal]; rfl)
      simp [Event.sampleOf, different]
  | _ => rfl

theorem lastSample_append_of_none
    (log : List Event)
    {events : List Event}
    {pid : Int}
    (silent : ∀ e ∈ events, e.sampleOf pid = none) :
    lastSample (log ++ events) pid = lastSample log pid := by
  unfold lastSample
  rw [latestAt_append_of_none log silent]

theorem lastSample_sampled
    (log : List Event)
    (pid : Int)
    (prior : PidState)
    (hw : RawCounters)
    (readings : SlowReadings)
    (dt : ℚ)
    (metrics : SmoothedMetrics) :
    lastSample (log ++ [.sampled pid prior hw readings dt metrics]) pid =
      some (currentTime log, metrics) := by
  have about : ∀ e ∈ [Event.sampled pid prior hw readings dt metrics],
      e.pid? = some pid := by
    intro e member
    rw [List.mem_singleton.mp member]
    rfl
  have now := currentTime_of_pid log about
  unfold lastSample
  rw [latestAt_snoc, now]
  simp [Event.sampleOf]

/-- After a sample's events, that sample is the last one. -/
theorem lastSample_sampleEvents
    (log : List Event)
    (r : SlotRecord)
    (hw : RawCounters)
    (readings : SlowReadings)
    (dt : ℚ) :
    lastSample (log ++ sampleEvents r hw readings dt) r.pid =
      some (currentTime log, (resampled r hw readings dt).lastSm) := by
  unfold sampleEvents
  rw [← List.append_assoc, lastSample_sampled,
    currentTime_of_pid log (fdEvents_pid r.pid _)]

/-- The latest sample of a pid is one of the log. -/
theorem exists_of_lastSample
    {log : List Event}
    {pid : Int}
    {time : UInt64}
    {sample : SmoothedMetrics}
    (last : lastSample log pid = some (time, sample)) :
    ∃ prior hw readings dt, .sampled pid prior hw readings dt sample ∈ log := by
  unfold lastSample at last
  obtain ⟨⟨stamp, shown⟩, found, shows⟩ := Option.bind_eq_some_iff.mp last
  obtain ⟨metrics, isSome, equal⟩ := Option.map_eq_some_iff.mp shows
  cases equal
  obtain ⟨e, member, selected⟩ := exists_of_latestAt found
  dsimp only at isSome
  subst isSome
  cases e with
  | added other readings =>
      simp only [Event.sampleOf] at selected
      split at selected <;> cases selected
  | sampled other prior hw readings dt metrics =>
      simp only [Event.sampleOf] at selected
      split at selected
      · next same =>
          cases selected
          subst same
          exact ⟨prior, hw, readings, dt, member⟩
      · cases selected
  | _ => cases selected

/-! ## The law -/

/-- A slot whose metrics are valid holds the latest sample of its pid. -/
def HoldsSample (log : List Event) (r : SlotRecord) : Prop :=
  r.lastSmValid = true →
    ∃ sample, lastSample log r.pid = some (r.lastSmUpdatedNs, sample) ∧
      r.lastSm = sample.stamp r.lastSm.timestampNs ∧ r.lastSm.pid = r.pid ∧
      smIsActive sample = true

theorem HoldsSample.of_sample
    {log : List Event}
    {r : SlotRecord}
    {pid : Int}
    {sample : SmoothedMetrics}
    (named : r.pid = pid)
    (last : lastSample log pid = some (r.lastSmUpdatedNs, sample))
    (stamped : r.lastSm = sample.stamp r.lastSm.timestampNs)
    (own : sample.pid = pid)
    (active : smIsActive sample = true) :
    HoldsSample log r := by
  intro _
  refine ⟨sample, named ▸ last, stamped, ?_, active⟩
  rw [stamped, SmoothedMetrics.stamp_pid, own, named]

/-- With a monotone clock, the sample is no later than the push and at most
`STALE_NS` old. -/
theorem PushedSample.pushedWell
    {before : List Event}
    {m : SmoothedMetrics}
    (pushed : PushedSample before m)
    (monotone : ClockMonotone before) :
    PushedWell before m := by
  obtain ⟨time, sample, last, equal, fresh⟩ := pushed.own
  have past : time ≤ currentTime before := by
    unfold lastSample at last
    obtain ⟨⟨stamp, shown⟩, found, shows⟩ := Option.bind_eq_some_iff.mp last
    obtain ⟨metrics, _, equal⟩ := Option.map_eq_some_iff.mp shows
    cases equal
    exact latestAt_le_currentTime monotone found
  refine ⟨pushed.stamped, pushed.live, (smIsActive_iff m).mp pushed.active,
    time, sample, last, equal, past, ?_⟩
  rw [← UInt64.toNat_sub_of_le _ _ past]
  exact UInt64.not_lt.mp fresh

/-- The law of a push. -/
def pushLaw (before : List Event) : Event → Prop
  | .pushed _ m => PushedSample before m
  | _ => True

/-- A push of the latest sample while it is fresh obeys the law. -/
theorem pushLaw_of_fresh
    {log : List Event}
    {ring : Ring}
    {pid : Int}
    {time : UInt64}
    {sample : SmoothedMetrics}
    (live : trackedIn log pid = true)
    (last : lastSample log pid = some (time, sample))
    (own : sample.pid = pid)
    (active : smIsActive sample = true)
    (fresh : ¬ currentTime log - time > staleNs) :
    pushLaw log (.pushed ring (sample.stamp (currentTime log))) := by
  refine ⟨rfl, ?_, active, time, sample, ?_, rfl, fresh⟩
  · rw [SmoothedMetrics.stamp_pid, own]
    exact live
  · rw [SmoothedMetrics.stamp_pid, own]
    exact last

/-- The slots always hold what the pushes need. -/
def publishingLaw (cfg : DaemonConfig) : SlotLaw cfg where
  holds := fun _ => HoldsSample
  law := pushLaw
  frame := by
    intro _ log r e pid about other holds valid
    have silent : ∀ later ∈ [e], later.sampleOf r.pid = none := by
      intro later member
      rw [List.mem_singleton.mp member]
      apply Event.sampleOf_of_other
      rw [about]
      exact fun equal => other (Option.some.inj equal)
    rw [lastSample_append_of_none log silent]
    exact holds valid
  tick := fun _ _ _ _ => trivial
  startSlow := by
    intro log r now holds valid
    rw [lastSample_append_of_none log (by simp [Event.sampleOf])]
    exact holds valid
  startFast := by
    intro log r now holds valid
    rw [lastSample_append_of_none log (by simp [Event.sampleOf])]
    exact holds valid
  mark := fun _ _ _ holds => holds
  refused := fun log pid readings _ _ => ⟨along_fdEvents (fun _ _ => trivial) _, trivial⟩
  added := by
    intro log pid readings _ _ _ _ _
    refine ⟨along_fdEvents_snoc (fun _ _ => trivial) trivial, ?_⟩
    intro valid
    exact absurd valid (by simp [freshRecord])
  removed := fun log r _ _ =>
    ⟨along_fdEvents_snoc (fun _ _ => trivial) trivial, trivial⟩
  visit := by
    intro log r readings displayed after events live _ holds wrote
    obtain ⟨hw, _, ⟨_, rfl, rfl⟩ | ⟨_, _, rfl, rfl⟩⟩ := SlotWrite.slow_cases wrote
    · refine ⟨along_singleton.mpr trivial, ?_⟩
      intro valid
      rw [lastSample_append_of_none log (by simp [Event.sampleOf])]
      exact holds valid
    · generalize slowInterval (slowTimes log) = dt
      have last := lastSample_sampleEvents log r hw readings dt
      have own := resampled_lastSm_pid r hw readings dt
      have sampled : Along pushLaw log (sampleEvents r hw readings dt) :=
        along_fdEvents_snoc (fun _ _ => trivial) trivial
      have now : currentTime (log ++ sampleEvents r hw readings dt) =
          currentTime log :=
        currentTime_of_pid log fun e member =>
          (sampleEvents_sampling r hw readings dt e member).1
      have tracked : trackedIn (log ++ sampleEvents r hw readings dt) r.pid = true := by
        rw [trackedIn_append_of_none log fun e member =>
          (sampleEvents_sampling r hw readings dt e member).2 _]
        exact live
      rcases takeSample_cases r hw readings (currentTime log) dt displayed with
        ⟨active, equal⟩ | ⟨inactive, equal⟩
      · rw [equal]
        obtain ⟨comm, refreshed⟩ := refreshComm_eq
          { resampled r hw readings dt with
            lastSmUpdatedNs := currentTime log
            lastSmValid := true
            lastSm := (resampled r hw readings dt).lastSm.stamp (currentTime log) }
          readings displayed
        rw [refreshed]
        generalize (resampled r hw readings dt).lastSm = sample at *
        -- neither the sample's own events nor a push change what the law reads
        have push (ring : Ring) (pushes : List Event)
            (silent : ∀ e ∈ pushes, e.SamplingOf r.pid ∧ e.sampleOf r.pid = none) :
            pushLaw (log ++ sampleEvents r hw readings dt ++ pushes)
              (.pushed ring (sample.stamp (currentTime log))) := by
          have sameNow : currentTime (log ++ sampleEvents r hw readings dt ++ pushes) =
              currentTime log :=
            (currentTime_of_pid _ fun e member => (silent e member).1.1).trans now
          rw [← sameNow]
          apply pushLaw_of_fresh ?_ ?_ own active
          · rw [sameNow, UInt64.sub_self]
            decide
          · rw [trackedIn_append_of_none _ fun e member => (silent e member).1.2 _]
            exact tracked
          · rw [lastSample_append_of_none _ fun e member => (silent e member).2]
            exact last
        have pushed (ring : Ring) : (Event.pushed ring
            (sample.stamp (currentTime log))).SamplingOf r.pid ∧
              (Event.pushed ring (sample.stamp (currentTime log))).sampleOf r.pid =
                none :=
          ⟨⟨congrArg some own, fun _ => rfl⟩, rfl⟩
        constructor
        · rw [along_append, along_cons, along_singleton]
          refine ⟨sampled, ?_, ?_⟩
          · have first := push .classifier [] (by simp)
            rwa [List.append_nil] at first
          · apply push .dashboard
            intro e member
            rw [List.mem_singleton.mp member]
            exact pushed .classifier
        · have samePid := resampled_pid r hw readings dt
          refine HoldsSample.of_sample samePid ?_ rfl own active
          rw [← List.append_assoc, lastSample_append_of_none]
          · exact last
          · intro e member
            simp only [List.mem_cons, List.not_mem_nil, or_false] at member
            rcases member with rfl | rfl
            · rfl
            · rfl
      · rw [equal]
        obtain ⟨comm, refreshed⟩ := refreshComm_eq
          { resampled r hw readings dt with lastSmValid := false } readings displayed
        rw [refreshed]
        exact ⟨sampled, fun valid => absurd valid (by simp)⟩
  fast := by
    intro log r live holds
    unfold fastVisit
    split
    · next published =>
        unfold fastPublishes at published
        obtain ⟨valid, fresh⟩ := Bool.and_eq_true_iff.mp published
        obtain ⟨sample, last, equal, own, active⟩ := holds valid
        have ownSample : sample.pid = r.pid := by
          rw [equal] at own
          exact own
        have stamped : { r.lastSm with timestampNs := currentTime log } =
            sample.stamp (currentTime log) := by
          rw [equal]
          rfl
        dsimp only
        rw [stamped]
        constructor
        · rw [along_singleton]
          exact pushLaw_of_fresh live last ownSample active (by simpa using fresh)
        · refine HoldsSample.of_sample rfl ?_ rfl ownSample active
          rw [lastSample_append_of_none log (by simp [Event.sampleOf])]
          exact last
    · refine ⟨along_nil _ _, ?_⟩
      rw [List.append_nil]
      exact holds

/-! ## Runs -/

/-- A published record is a sample of the log, stamped. -/
theorem exists_sampled_of_pushed
    {log : List Event}
    (lawful : EachEvent pushLaw log)
    {ring : Ring}
    {m : SmoothedMetrics}
    (published : .pushed ring m ∈ log) :
    ∃ before after prior hw readings dt sample,
      log = before ++ .sampled m.pid prior hw readings dt sample :: after ∧
        m = sample.stamp m.timestampNs ∧ smIsActive sample = true := by
  obtain ⟨before, after, split⟩ := List.append_of_mem published
  have pushed : PushedSample before m := lawful before _ after split
  obtain ⟨time, sample, last, equal, -⟩ := pushed.own
  obtain ⟨prior, hw, readings, dt, member⟩ := exists_of_lastSample last
  have inLog : .sampled m.pid prior hw readings dt sample ∈ log := by
    rw [split]
    exact List.mem_append_left _ member
  obtain ⟨earlier, later, place⟩ := List.append_of_mem inLog
  have active : smIsActive sample = true := by
    have shown := pushed.active
    rw [equal] at shown
    exact shown
  exact ⟨earlier, later, prior, hw, readings, dt, sample, place, equal, active⟩

/-- The timestamps of the records pushed to one ring, in order. -/
def pushTimes (ring : Ring) (log : List Event) : List UInt64 :=
  log.filterMap fun e =>
    match e with
    | .pushed other m => if other = ring then some m.timestampNs else none
    | _ => none

/-- Records stamped with the time of their tick are in the order of time. -/
theorem pushTimes_ordered
    {log : List Event}
    (monotone : ClockMonotone log)
    (lawful : EachEvent pushLaw log)
    (ring : Ring) :
    (pushTimes ring log).Pairwise (· ≤ ·) ∧
      ∀ time ∈ pushTimes ring log, time ≤ currentTime log := by
  induction log using List.reverseRecOn with
  | nil => exact ⟨.nil, fun time member => absurd member List.not_mem_nil⟩
  | append_singleton log e inductionHypothesis =>
      obtain ⟨earlier, last⟩ := eachEvent_append.mp lawful
      obtain ⟨ordered, bounded⟩ := inductionHypothesis monotone.of_append earlier
      have later := monotone.currentTime_le
      have unchanged (silent : pushTimes ring [e] = []) :
          (pushTimes ring (log ++ [e])).Pairwise (· ≤ ·) ∧
            ∀ time ∈ pushTimes ring (log ++ [e]),
              time ≤ currentTime (log ++ [e]) := by
        have same : pushTimes ring (log ++ [e]) = pushTimes ring log := by
          unfold pushTimes at silent ⊢
          rw [List.filterMap_append, silent, List.append_nil]
        rw [same]
        exact ⟨ordered, fun time member => UInt64.le_trans (bounded time member) later⟩
      cases e with
      | pushed other m =>
          by_cases same : other = ring
          · have pushed : PushedSample log m := along_singleton.mp last
            have stamped := pushed.stamped
            have grown : pushTimes ring (log ++ [.pushed other m]) =
                pushTimes ring log ++ [currentTime log] := by
              unfold pushTimes
              rw [List.filterMap_append]
              simp [same, stamped]
            have about : ∀ e ∈ [Event.pushed other m], e.pid? = some m.pid := by
              simp [Event.pid?]
            rw [grown, currentTime_of_pid log about]
            constructor
            · rw [List.pairwise_append]
              refine ⟨ordered, List.pairwise_singleton _ _, ?_⟩
              intro time member other equal
              rw [List.mem_singleton.mp equal]
              exact bounded time member
            · intro time member
              rcases List.mem_append.mp member with old | new
              · exact bounded time old
              · rw [List.mem_singleton.mp new]
                exact UInt64.le_refl _
          · exact unchanged (by simp [pushTimes, same])
      | _ => exact unchanged rfl

/-- What the two rings have received is well published. -/
structure WellPublished (w : World) : Prop where
  pushes : ∀ before ring m after,
    w.log = before ++ .pushed ring m :: after → PushedWell before m
  ordered : ∀ ring, (pushTimes ring w.log).Pairwise (· ≤ ·)
  /-- The pids that the log says are tracked are those of the live slots. -/
  tracks : w.Tracks

/-- Every run with a monotone clock publishes well. -/
theorem runSamplingLoop_wellPublished
    (qsort : Qsort)
    (cfg : DaemonConfig)
    (start : UInt64)
    (envs : List TickEnv)
    (monotone : (envs.map TickEnv.now).Pairwise (· ≤ ·)) :
    WellPublished (runSamplingLoop qsort cfg start envs).world := by
  have lawful := runSamplingLoop_lawful (publishingLaw cfg) qsort start envs
  have clock : ClockMonotone (runSamplingLoop qsort cfg start envs).world.log := by
    unfold ClockMonotone
    rw [runSamplingLoop_times (publishingLaw cfg)]
    exact monotone
  refine ⟨?_, ?_, lawful.governed.tracks⟩
  · intro before ring m after split
    have earlier : ClockMonotone before := by
      rw [split] at clock
      exact clock.of_append
    have pushed : PushedSample before m := lawful.governed.laws before _ after split
    exact pushed.pushedWell earlier
  · exact fun ring => (pushTimes_ordered clock lawful.governed.laws ring).1

theorem runSamplingLoop_wellPublished_switched :
    WellPublished (runSamplingLoop insertionQsort defaultConfig 0
        switchedTicks).world ∧
      pushTimes .dashboard (runSamplingLoop insertionQsort defaultConfig 0
        switchedTicks).world.log = [200000001] :=
  ⟨runSamplingLoop_wellPublished insertionQsort defaultConfig 0 switchedTicks
    (by decide), by decide +kernel⟩

end Schedmon
