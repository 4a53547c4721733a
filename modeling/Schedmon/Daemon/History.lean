import Schedmon.Daemon.Refinement
import Schedmon.Library.EventLog

/-!
# What the log says

The tick times, the interval that a slow tick divides by, and the pids that are
tracked can all be read off the log.
-/

namespace Schedmon

open Library EventLog

/-- The time of a tick, and whether it runs the slow path. -/
def Event.tick? : Event → Option (UInt64 × Bool)
  | .tick now slow => some (now, slow)
  | _ => none

/-- The ticks so far, oldest first. -/
def ticks (log : List Event) : List (UInt64 × Bool) :=
  log.filterMap Event.tick?

/-- The time of the current tick. -/
def currentTime (log : List Event) : UInt64 :=
  (ticks log).getLast?.elim 0 Prod.fst

/-- The times of the slow ticks so far, latest first. -/
def slowTimes (log : List Event) : List UInt64 :=
  ((ticks log).reverse.filter Prod.snd).map Prod.fst

/-- The time in seconds between two slow ticks, or the 0.2 s that the code
assumes where there is none or the clock did not advance. -/
def slowInterval : List UInt64 → ℚ
  | now :: last :: _ =>
      let elapsed : Int := (now.toNat : Int) - (last.toNat : Int)
      if elapsed > 0 then (elapsed : ℚ) / 1000000000 else 1 / 5
  | _ => 1 / 5

theorem slowInterval_pos (times : List UInt64) : 0 < slowInterval times := by
  unfold slowInterval
  split
  · dsimp only
    split
    · next positive =>
        apply div_pos _ (by norm_num)
        exact_mod_cast positive
    · norm_num
  · norm_num

/-- The current tick runs the slow path. -/
def InSlowTick (log : List Event) : Prop :=
  ∃ earlier, slowTimes log = currentTime log :: earlier

/-- Whether an event starts or ends the tracking of a pid. -/
def Event.tracks? (pid : Int) : Event → Option Bool
  | .added other _ => if other = pid then some true else none
  | .removed other => if other = pid then some false else none
  | _ => none

/-- Whether a pid was added and not removed since. -/
def trackedIn (log : List Event) (pid : Int) : Bool :=
  (latest (Event.tracks? pid) log).getD false

/-- The time after an event. -/
def Event.timeFrom (now : UInt64) : Event → UInt64
  | .tick next _ => next
  | _ => now

/-- Pair each event with the time of its tick. -/
def timedFrom : UInt64 → List Event → List (UInt64 × Event)
  | _, [] => []
  | now, e :: rest => (e.timeFrom now, e) :: timedFrom (e.timeFrom now) rest

/-- The time of the latest event that an observation selects, and what it
shows. -/
def latestAt (select : Event → Option α) (log : List Event) : Option (UInt64 × α) :=
  latest (fun timed => (select timed.2).map fun shown => (timed.1, shown))
    (timedFrom 0 log)

/-! ## Appending events -/

theorem ticks_append (log events : List Event) :
    ticks (log ++ events) = ticks log ++ ticks events :=
  List.filterMap_append

/-- An event of some pid is not a tick. -/
theorem Event.tick?_of_pid?
    {e : Event}
    {pid : Int}
    (about : e.pid? = some pid) :
    e.tick? = none := by
  cases e with
  | tick now slow => simp [Event.pid?] at about
  | _ => rfl

theorem ticks_of_pid
    {events : List Event}
    {pid : Int}
    (about : ∀ e ∈ events, e.pid? = some pid) :
    ticks events = [] := by
  apply List.filterMap_eq_nil_iff.mpr
  intro e member
  exact Event.tick?_of_pid? (about e member)

theorem ticks_append_of_pid
    (log : List Event)
    {events : List Event}
    {pid : Int}
    (about : ∀ e ∈ events, e.pid? = some pid) :
    ticks (log ++ events) = ticks log := by
  rw [ticks_append, ticks_of_pid about, List.append_nil]

theorem currentTime_eq_of_ticks
    {log other : List Event}
    (same : ticks log = ticks other) :
    currentTime log = currentTime other := by
  unfold currentTime
  rw [same]

theorem slowTimes_eq_of_ticks
    {log other : List Event}
    (same : ticks log = ticks other) :
    slowTimes log = slowTimes other := by
  unfold slowTimes
  rw [same]

@[simp] theorem currentTime_tick (log : List Event) (now : UInt64) (slow : Bool) :
    currentTime (log ++ [.tick now slow]) = now := by
  simp [currentTime, ticks, Event.tick?]

@[simp] theorem slowTimes_slowTick (log : List Event) (now : UInt64) :
    slowTimes (log ++ [.tick now true]) = now :: slowTimes log := by
  simp [slowTimes, ticks, Event.tick?]

@[simp] theorem slowTimes_fastTick (log : List Event) (now : UInt64) :
    slowTimes (log ++ [.tick now false]) = slowTimes log := by
  simp [slowTimes, ticks, Event.tick?]

theorem foldl_timeFrom (now : UInt64) (log : List Event) :
    log.foldl Event.timeFrom now = (ticks log).getLast?.elim now Prod.fst := by
  induction log generalizing now with
  | nil => rfl
  | cons e rest inductionHypothesis =>
      rw [List.foldl_cons, inductionHypothesis]
      cases e with
      | tick next slow =>
          have grown : ticks (.tick next slow :: rest) = (next, slow) :: ticks rest := rfl
          rw [grown, List.getLast?_cons]
          cases (ticks rest).getLast? <;> rfl
      | _ => rfl

theorem timedFrom_append (now : UInt64) (log events : List Event) :
    timedFrom now (log ++ events) =
      timedFrom now log ++ timedFrom (log.foldl Event.timeFrom now) events := by
  induction log generalizing now with
  | nil => rfl
  | cons e rest inductionHypothesis =>
      simp only [List.cons_append, timedFrom, List.foldl_cons, inductionHypothesis]

theorem currentTime_eq_foldl (log : List Event) :
    currentTime log = log.foldl Event.timeFrom 0 :=
  (foldl_timeFrom 0 log).symm

theorem currentTime_of_pid
    (log : List Event)
    {events : List Event}
    {pid : Int}
    (about : ∀ e ∈ events, e.pid? = some pid) :
    currentTime (log ++ events) = currentTime log :=
  currentTime_eq_of_ticks (ticks_append_of_pid log about)

theorem latestAt_snoc
    (select : Event → Option α)
    (log : List Event)
    (e : Event) :
    latestAt select (log ++ [e]) =
      ((select e).map fun shown => (currentTime (log ++ [e]), shown)).or
        (latestAt select log) := by
  have now : currentTime (log ++ [e]) =
      e.timeFrom (log.foldl Event.timeFrom 0) := by
    rw [currentTime_eq_foldl, List.foldl_append]
    rfl
  unfold latestAt
  rw [timedFrom_append, timedFrom, timedFrom, latest_snoc, now]

/-- Observations that select the same events find the same time. -/
theorem latestAt_fst_congr
    {select : Event → Option α}
    {choose : Event → Option β}
    (same : ∀ e, (select e).isSome = (choose e).isSome)
    (log : List Event) :
    (latestAt select log).map Prod.fst = (latestAt choose log).map Prod.fst := by
  induction log using List.reverseRecOn with
  | nil => rfl
  | append_singleton log e inductionHypothesis =>
      rw [latestAt_snoc, latestAt_snoc]
      have agree := same e
      cases selected : select e with
      | none =>
          rw [selected, Option.isSome_none] at agree
          rw [Option.isSome_eq_false_iff.mp agree.symm |> Option.isNone_iff_eq_none.mp]
          exact inductionHypothesis
      | some shown =>
          rw [selected, Option.isSome_some] at agree
          obtain ⟨other, chosen⟩ := Option.isSome_iff_exists.mp agree.symm
          rw [chosen]
          rfl

/-- Events that are not selected leave the latest one alone. -/
theorem latestAt_append_of_none
    {select : Event → Option α}
    (log : List Event)
    {events : List Event}
    (silent : ∀ e ∈ events, select e = none) :
    latestAt select (log ++ events) = latestAt select log := by
  have later (now : UInt64) : ∀ timed ∈ timedFrom now events,
      (select timed.2).map (fun shown => (timed.1, shown)) = none := by
    induction events generalizing now with
    | nil =>
        intro timed member
        exact absurd member (List.not_mem_nil)
    | cons e rest inductionHypothesis =>
        intro timed member
        rcases List.mem_cons.mp member with here | after
        · rw [here, silent e List.mem_cons_self]
          rfl
        · exact inductionHypothesis
            (fun other inside => silent other (List.mem_cons_of_mem e inside))
            (e.timeFrom now) timed after
  unfold latestAt
  rw [timedFrom_append, latest_append_of_none _ (later _)]

theorem mem_of_mem_timedFrom
    {now : UInt64}
    {log : List Event}
    {timed : UInt64 × Event}
    (member : timed ∈ timedFrom now log) :
    timed.2 ∈ log := by
  induction log generalizing now with
  | nil => exact absurd member List.not_mem_nil
  | cons e rest inductionHypothesis =>
      rcases List.mem_cons.mp member with here | later
      · rw [here]
        exact List.mem_cons_self
      · exact List.mem_cons_of_mem e (inductionHypothesis later)

theorem exists_of_latestAt
    {select : Event → Option α}
    {log : List Event}
    {time : UInt64}
    {shown : α}
    (found : latestAt select log = some (time, shown)) :
    ∃ e ∈ log, select e = some shown := by
  obtain ⟨timed, member, shows⟩ := exists_of_latest found
  obtain ⟨value, selected, equal⟩ := Option.map_eq_some_iff.mp shows
  cases equal
  exact ⟨timed.2, mem_of_mem_timedFrom member, selected⟩

/-- No tick of the log is earlier than one before it. -/
def ClockMonotone (log : List Event) : Prop :=
  ((ticks log).map Prod.fst).Pairwise (· ≤ ·)

theorem ClockMonotone.of_append
    {log events : List Event}
    (monotone : ClockMonotone (log ++ events)) :
    ClockMonotone log := by
  unfold ClockMonotone at monotone
  rw [ticks_append, List.map_append] at monotone
  exact (List.pairwise_append.mp monotone).1

theorem ClockMonotone.currentTime_le
    {log : List Event}
    {e : Event}
    (monotone : ClockMonotone (log ++ [e])) :
    currentTime log ≤ currentTime (log ++ [e]) := by
  cases about : e.pid? with
  | some pid =>
      rw [currentTime_of_pid log (by simpa using about)]
      exact UInt64.le_refl _
  | none =>
      cases e with
      | tick next slow =>
          rw [currentTime_tick]
          unfold ClockMonotone at monotone
          rw [ticks_append, List.map_append] at monotone
          have bounded := (List.pairwise_append.mp monotone).2.2
          unfold currentTime
          cases last : (ticks log).getLast? with
          | none => exact UInt64.zero_le
          | some final =>
              have member : final ∈ ticks log := List.mem_of_getLast? last
              exact bounded final.1 (List.mem_map_of_mem member) next
                (by simp [ticks, Event.tick?])
      | _ => cases about

/-- With a monotone clock, nothing in the log lies in the future. -/
theorem latestAt_le_currentTime
    {select : Event → Option α}
    {log : List Event}
    (monotone : ClockMonotone log)
    {time : UInt64}
    {shown : α}
    (found : latestAt select log = some (time, shown)) :
    time ≤ currentTime log := by
  induction log using List.reverseRecOn with
  | nil => cases found
  | append_singleton log e inductionHypothesis =>
      rw [latestAt_snoc] at found
      cases selected : select e with
      | none =>
          rw [selected] at found
          exact UInt64.le_trans (inductionHypothesis monotone.of_append found)
            monotone.currentTime_le
      | some other =>
          rw [selected] at found
          cases found
          exact UInt64.le_refl _

theorem inSlowTick_slowTick (log : List Event) (now : UInt64) :
    InSlowTick (log ++ [.tick now true]) :=
  ⟨slowTimes log, by rw [slowTimes_slowTick, currentTime_tick]⟩

theorem InSlowTick.of_ticks
    {log other : List Event}
    (slow : InSlowTick log)
    (same : ticks other = ticks log) :
    InSlowTick other := by
  obtain ⟨earlier, times⟩ := slow
  exact ⟨earlier, by
    rw [slowTimes_eq_of_ticks same, currentTime_eq_of_ticks same, times]⟩

/-- An event of another pid does not change whether a pid is tracked. -/
theorem Event.tracks?_of_other
    {e : Event}
    {pid : Int}
    (other : e.pid? ≠ some pid) :
    e.tracks? pid = none := by
  cases e with
  | added q readings =>
      have different : q ≠ pid := fun equal => other (by rw [equal]; rfl)
      simp [Event.tracks?, different]
  | removed q =>
      have different : q ≠ pid := fun equal => other (by rw [equal]; rfl)
      simp [Event.tracks?, different]
  | _ => rfl

theorem trackedIn_append_of_none
    (log : List Event)
    {events : List Event}
    {pid : Int}
    (silent : ∀ e ∈ events, e.tracks? pid = none) :
    trackedIn (log ++ events) pid = trackedIn log pid := by
  unfold trackedIn
  rw [latest_append_of_none log silent]

theorem trackedIn_append_of_other
    (log : List Event)
    {events : List Event}
    {pid : Int}
    (other : ∀ e ∈ events, e.pid? ≠ some pid) :
    trackedIn (log ++ events) pid = trackedIn log pid :=
  trackedIn_append_of_none log fun e member =>
    Event.tracks?_of_other (other e member)

@[simp] theorem trackedIn_added
    (log : List Event)
    (pid : Int)
    (readings : AddReadings) :
    trackedIn (log ++ [.added pid readings]) pid = true := by
  simp [trackedIn, latest_snoc, Event.tracks?]

@[simp] theorem trackedIn_removed (log : List Event) (pid : Int) :
    trackedIn (log ++ [.removed pid]) pid = false := by
  simp [trackedIn, latest_snoc, Event.tracks?]

/-- A log in which exactly the pids of the live slots are tracked. -/
def World.Tracks (w : World) : Prop :=
  ∀ pid, trackedIn w.log pid = true ↔ pid ∈ w.daemon.pids

/-! ## What each operation appends -/

section Descriptors

variable {P : Event → Prop} {law : List Event → Event → Prop} {log : List Event}
variable {pid : Int} {e : Event}

/-- What holds of each descriptor event holds of all that an operation appends. -/
theorem forall_fdEvents (each : ∀ op, P (.fd pid op)) (ops : List FdOp) :
    ∀ e ∈ ops.map (Event.fd pid), P e :=
  List.forall_mem_map.mpr fun op _ => each op

theorem forall_fdEvents_snoc
    (each : ∀ op, P (.fd pid op))
    (ops : List FdOp)
    (last : P e) :
    ∀ later ∈ ops.map (Event.fd pid) ++ [e], P later := by
  rw [List.forall_mem_append]
  exact ⟨forall_fdEvents each ops, List.forall_mem_singleton.mpr last⟩

/-- A law that leaves the descriptors free holds along their events. -/
theorem along_fdEvents
    (free : ∀ before op, law before (.fd pid op))
    (ops : List FdOp) :
    Along law log (ops.map (Event.fd pid)) :=
  along_of_forall fun before => forall_fdEvents (free before) ops

theorem along_fdEvents_snoc
    (free : ∀ before op, law before (.fd pid op))
    {ops : List FdOp}
    (lawful : law (log ++ ops.map (Event.fd pid)) e) :
    Along law log (ops.map (Event.fd pid) ++ [e]) := by
  rw [along_append, along_singleton]
  exact ⟨along_fdEvents free ops, lawful⟩

end Descriptors

theorem fdEvents_pid (pid : Int) (ops : List FdOp) :
    ∀ e ∈ ops.map (Event.fd pid), e.pid? = some pid :=
  forall_fdEvents (fun _ => rfl) ops

theorem fdEvents_tracks (pid other : Int) (ops : List FdOp) :
    ∀ e ∈ ops.map (Event.fd pid), e.tracks? other = none :=
  forall_fdEvents (fun _ => rfl) ops

/-- Published metrics carry the pid of their slot. -/
def SlotRecord.Named (r : SlotRecord) : Prop :=
  r.lastSmValid = true → r.lastSm.pid = r.pid

/-- A new slot has no record yet. -/
theorem freshRecord_named (pid : Int) (readings : AddReadings) :
    (freshRecord pid readings).Named :=
  fun valid => absurd valid (by simp [freshRecord])

@[simp] theorem resampled_lastSm_pid
    (r : SlotRecord)
    (hw : RawCounters)
    (readings : SlowReadings)
    (dt : ℚ) :
    (resampled r hw readings dt).lastSm.pid = r.pid := by
  simp [resampled, smoothed, pushSample, SlotRecord.pid]

/-- An event that a sampling write makes: about the slot's own pid, and neither
starting nor ending its tracking. -/
def Event.SamplingOf (pid : Int) (e : Event) : Prop :=
  e.pid? = some pid ∧ ∀ other, e.tracks? other = none

theorem sampleEvents_sampling
    (r : SlotRecord)
    (hw : RawCounters)
    (readings : SlowReadings)
    (dt : ℚ) :
    ∀ e ∈ sampleEvents r hw readings dt, e.SamplingOf r.pid := by
  intro e member
  rcases List.mem_append.mp member with opened | sampled
  · exact ⟨fdEvents_pid _ _ e opened, fun other => fdEvents_tracks _ other _ e opened⟩
  · rw [List.mem_singleton.mp sampled]
    exact ⟨rfl, fun other => rfl⟩

theorem takeSample_events
    (r : SlotRecord)
    (hw : RawCounters)
    (readings : SlowReadings)
    (now : UInt64)
    (dt : ℚ)
    (displayed : Bool) :
    (∀ e ∈ (takeSample r hw readings now dt displayed).2, e.SamplingOf r.pid) ∧
      (takeSample r hw readings now dt displayed).1.Named := by
  have own := resampled_lastSm_pid r hw readings dt
  have samePid := resampled_pid r hw readings dt
  have sampling := sampleEvents_sampling r hw readings dt
  rcases takeSample_cases r hw readings now dt displayed with
    ⟨_, equal⟩ | ⟨_, equal⟩
  · rw [equal]
    constructor
    · intro e member
      rcases List.mem_append.mp member with sampled | pushed
      · exact sampling e sampled
      · simp only [List.mem_cons, List.not_mem_nil, or_false] at pushed
        rcases pushed with rfl | rfl
        · exact ⟨congrArg some own, fun other => rfl⟩
        · exact ⟨congrArg some own, fun other => rfl⟩
    · intro _
      rw [refreshComm_pid]
      unfold refreshComm
      split
      · exact own.trans samePid.symm
      · exact own.trans samePid.symm
  · rw [equal]
    refine ⟨sampling, ?_⟩
    intro valid
    obtain ⟨comm, refreshed⟩ := refreshComm_eq
      { resampled r hw readings dt with lastSmValid := false } readings displayed
    rw [refreshed] at valid
    exact absurd valid (by simp)

theorem fastVisit_events
    {r : SlotRecord}
    (named : r.Named)
    (now : UInt64) :
    (∀ e ∈ (fastVisit r now).2, e.SamplingOf r.pid) ∧ (fastVisit r now).1.Named := by
  unfold fastVisit
  split
  · next published =>
      have valid := lastSmValid_of_fastPublishes published
      refine ⟨?_, fun _ => named valid⟩
      intro e member
      rw [List.mem_singleton.mp member]
      exact ⟨congrArg some (named valid), fun other => rfl⟩
  · refine ⟨?_, named⟩
    intro e member
    exact absurd member (List.not_mem_nil)

theorem SlotWrite.apply_events
    {write : SlotWrite}
    {r after : SlotRecord}
    {events : List Event}
    (named : r.Named)
    (wrote : write.apply r = some (after, events)) :
    (∀ e ∈ events, e.SamplingOf r.pid) ∧ after.Named := by
  cases write with
  | slow readings now dt displayed =>
      obtain ⟨hw, -, ⟨rfl, rfl⟩ | sampled⟩ := apply_slow_cases wrote
      · refine ⟨?_, named⟩
        intro e member
        rw [List.mem_singleton.mp member]
        exact ⟨rfl, fun other => rfl⟩
      · have taken := takeSample_events r hw readings now dt displayed
        rw [sampled] at taken
        exact taken
  | fast now =>
      simp only [apply, Option.some.injEq] at wrote
      have equal := fastVisit_events named now
      rw [wrote] at equal
      exact equal
  | mark active =>
      cases wrote
      refine ⟨?_, named⟩
      intro e member
      exact absurd member (List.not_mem_nil)

end Schedmon
