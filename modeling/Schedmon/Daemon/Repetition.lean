import Schedmon.Daemon.Publishing

/-!
# How often a tick publishes a pid

A slow tick that samples a pid as active publishes it in the slow path, and the
fast path of the same tick publishes it again.
-/

namespace Schedmon

open Library EventLog

/-- The events of the current tick after an event, from those before it. -/
def Event.extendTick (events : List Event) (e : Event) : List Event :=
  match e with
  | .tick _ _ => []
  | e => events ++ [e]

/-- The events since the latest tick began. -/
def sinceTick (log : List Event) : List Event :=
  log.foldl Event.extendTick []

/-- Whether an event pushes a record of a pid to the classifier ring. -/
def Event.pushesClassifier (pid : Int) : Event → Bool
  | .pushed .classifier m => m.pid = pid
  | _ => false

/-- How many records of a pid some events push to the classifier ring. -/
def pushCount (pid : Int) (events : List Event) : Nat :=
  events.countP (Event.pushesClassifier pid)

/-- Whether an event is a sample of a pid with active metrics. -/
def Event.samplesActive (pid : Int) : Event → Bool
  | .sampled other _ _ _ _ metrics => other = pid && smIsActive metrics
  | _ => false

/-- Whether some events contain an active sample of a pid. -/
def activeSample (pid : Int) (events : List Event) : Bool :=
  events.any (Event.samplesActive pid)

/-! ## Appending events -/

@[simp] theorem sinceTick_tick (log : List Event) (now : UInt64) (slow : Bool) :
    sinceTick (log ++ [.tick now slow]) = [] := by
  simp [sinceTick, List.foldl_append, Event.extendTick]

theorem sinceTick_snoc_of_noTick
    (log : List Event)
    {e : Event}
    (noTick : e.tick? = none) :
    sinceTick (log ++ [e]) = sinceTick log ++ [e] := by
  unfold sinceTick
  rw [List.foldl_append]
  cases e with
  | tick now slow => cases noTick
  | _ => rfl

theorem sinceTick_append_of_noTick
    (log : List Event)
    {events : List Event}
    (noTick : ∀ e ∈ events, e.tick? = none) :
    sinceTick (log ++ events) = sinceTick log ++ events := by
  induction events using List.reverseRecOn with
  | nil => rw [List.append_nil, List.append_nil]
  | append_singleton events e inductionHypothesis =>
      rw [← List.append_assoc,
        sinceTick_snoc_of_noTick _ (noTick e (List.mem_append_right _ List.mem_cons_self)),
        inductionHypothesis fun other member =>
          noTick other (List.mem_append_left _ member),
        List.append_assoc]

theorem mem_of_mem_sinceTick
    {log : List Event}
    {e : Event}
    (member : e ∈ sinceTick log) :
    e ∈ log := by
  induction log using List.reverseRecOn with
  | nil => exact member
  | append_singleton log last inductionHypothesis =>
      cases ticking : last.tick? with
      | some time =>
          cases last with
          | tick now slow =>
              rw [sinceTick_tick] at member
              exact absurd member List.not_mem_nil
          | _ => cases ticking
      | none =>
          rw [sinceTick_snoc_of_noTick log ticking] at member
          rcases List.mem_append.mp member with old | new
          · exact List.mem_append_left _ (inductionHypothesis old)
          · exact List.mem_append_right _ new

/-- Events that neither push a pid nor sample it. -/
def Event.Unseen (pid : Int) (e : Event) : Prop :=
  e.tick? = none ∧ e.pushesClassifier pid = false ∧ e.samplesActive pid = false

theorem Event.unseen_of_other
    {e : Event}
    {other pid : Int}
    (about : e.pid? = some other)
    (different : other ≠ pid) :
    e.Unseen pid := by
  refine ⟨Event.tick?_of_pid? about, ?_, ?_⟩
  · cases e with
    | pushed ring m =>
        have named : m.pid = other := Option.some.inj about
        cases ring with
        | classifier => simp [Event.pushesClassifier, named, different]
        | dashboard => rfl
    | _ => rfl
  · cases e with
    | sampled q prior hw readings dt metrics =>
        have named : q = other := Option.some.inj about
        simp [Event.samplesActive, named, different]
    | _ => rfl

theorem fdEvents_unseen (pid other : Int) (ops : List FdOp) :
    ∀ e ∈ ops.map (Event.fd pid), e.Unseen other :=
  forall_fdEvents (fun _ => ⟨rfl, rfl, rfl⟩) ops

theorem unseen_singleton
    {e : Event}
    {other pid : Int}
    (about : e.pid? = some other)
    (different : other ≠ pid) :
    ∀ later ∈ [e], later.Unseen pid := by
  intro later member
  rw [List.mem_singleton.mp member]
  exact Event.unseen_of_other about different

theorem addEvents_unseen (pid : Int) (readings : AddReadings) :
    ∀ e ∈ (addOps pid readings).map (Event.fd pid) ++ [.added pid readings],
      e.Unseen pid :=
  forall_fdEvents_snoc (fun _ => ⟨rfl, rfl, rfl⟩) _ ⟨rfl, rfl, rfl⟩

theorem removeEvents_unseen (r : SlotRecord) :
    ∀ e ∈ (removeOps r).map (Event.fd r.pid) ++ [.removed r.pid], e.Unseen r.pid :=
  forall_fdEvents_snoc (fun _ => ⟨rfl, rfl, rfl⟩) _ ⟨rfl, rfl, rfl⟩

/-! ## Counting events -/

theorem pushCount_append (pid : Int) (earlier later : List Event) :
    pushCount pid (earlier ++ later) = pushCount pid earlier + pushCount pid later :=
  List.countP_append

theorem activeSample_append (pid : Int) (earlier later : List Event) :
    activeSample pid (earlier ++ later) =
      (activeSample pid earlier || activeSample pid later) :=
  List.any_append

theorem pushCount_of_unseen
    {events : List Event}
    {pid : Int}
    (unseen : ∀ e ∈ events, e.Unseen pid) :
    pushCount pid events = 0 := by
  unfold pushCount
  rw [List.countP_eq_zero]
  intro e member
  simp [(unseen e member).2.1]

theorem activeSample_of_unseen
    {events : List Event}
    {pid : Int}
    (unseen : ∀ e ∈ events, e.Unseen pid) :
    activeSample pid events = false := by
  unfold activeSample
  rw [List.any_eq_false]
  intro e member
  simp [(unseen e member).2.2]

section

variable (r : SlotRecord) (hw : RawCounters) (readings : SlowReadings)
variable (now : UInt64) (dt : ℚ) (displayed : Bool)

theorem pushCount_sampleEvents :
    pushCount r.pid (sampleEvents r hw readings dt) = 0 := by
  unfold sampleEvents
  rw [pushCount_append, pushCount_of_unseen (fdEvents_unseen r.pid r.pid _)]
  rfl

theorem activeSample_sampleEvents :
    activeSample r.pid (sampleEvents r hw readings dt) =
      smIsActive (resampled r hw readings dt).lastSm := by
  unfold sampleEvents
  rw [activeSample_append, activeSample_of_unseen (fdEvents_unseen r.pid r.pid _)]
  simp [activeSample, Event.samplesActive]

/-- The slow path pushes an active sample to the classifier ring once. -/
theorem pushCount_takeSample :
    pushCount r.pid (takeSample r hw readings now dt displayed).2 =
      (smIsActive (resampled r hw readings dt).lastSm).toNat := by
  rcases takeSample_cases r hw readings now dt displayed with
    ⟨active, equal⟩ | ⟨inactive, equal⟩
  · rw [equal, active, pushCount_append, pushCount_sampleEvents]
    simp [pushCount, Event.pushesClassifier, SmoothedMetrics.stamp]
  · rw [equal, inactive, pushCount_sampleEvents]
    rfl

theorem activeSample_takeSample :
    activeSample r.pid (takeSample r hw readings now dt displayed).2 =
      smIsActive (resampled r hw readings dt).lastSm := by
  rcases takeSample_cases r hw readings now dt displayed with
    ⟨_, equal⟩ | ⟨_, equal⟩
  · rw [equal, activeSample_append, activeSample_sampleEvents]
    simp [activeSample, Event.samplesActive]
  · rw [equal, activeSample_sampleEvents]

/-- An active sample leaves a record of its own time. -/
theorem takeSample_record
    (active : smIsActive (resampled r hw readings dt).lastSm = true) :
    (takeSample r hw readings now dt displayed).1.lastSmValid = true ∧
      (takeSample r hw readings now dt displayed).1.lastSmUpdatedNs = now := by
  rcases takeSample_cases r hw readings now dt displayed with
    ⟨_, equal⟩ | ⟨inactive, _⟩
  · obtain ⟨comm, refreshed⟩ := refreshComm_eq
      { resampled r hw readings dt with
        lastSmUpdatedNs := now
        lastSmValid := true
        lastSm := (resampled r hw readings dt).lastSm.stamp now } readings displayed
    rw [equal, refreshed]
    exact ⟨rfl, rfl⟩
  · rw [active] at inactive
    cases inactive

variable {r} in
theorem pushCount_fastVisit (named : r.Named) :
    pushCount r.pid (fastVisit r now).2 = (fastPublishes r now).toNat := by
  unfold fastVisit
  split
  · next published =>
      have valid := lastSmValid_of_fastPublishes published
      have own : r.lastSm.pid = r.pid := named valid
      rw [published]
      simp [pushCount, Event.pushesClassifier, own]
  · next silent =>
      rw [Bool.not_eq_true] at silent
      rw [silent]
      rfl

theorem activeSample_fastVisit (pid : Int) :
    activeSample pid (fastVisit r now).2 = false := by
  unfold fastVisit
  split
  · rfl
  · rfl

end

/-! ## The law -/

/-- What the current tick has shown of a pid so far. -/
structure TickShows (log : List Event) (pid : Int) (pushes : Nat)
    (active : Bool) : Prop where
  pushes_eq : pushCount pid (sinceTick log) = pushes
  active_eq : activeSample pid (sinceTick log) = active

theorem TickShows.append
    {log events : List Event}
    {pid : Int}
    {pushes : Nat}
    {active : Bool}
    (shows : TickShows log pid pushes active)
    (noTick : ∀ e ∈ events, e.tick? = none) :
    TickShows (log ++ events) pid (pushes + pushCount pid events)
      (active || activeSample pid events) := by
  obtain ⟨count, seen⟩ := shows
  constructor
  · rw [sinceTick_append_of_noTick log noTick, pushCount_append, count]
  · rw [sinceTick_append_of_noTick log noTick, activeSample_append, seen]

theorem TickShows.append_unseen
    {log events : List Event}
    {pid : Int}
    {pushes : Nat}
    {active : Bool}
    (shows : TickShows log pid pushes active)
    (unseen : ∀ e ∈ events, e.Unseen pid) :
    TickShows (log ++ events) pid pushes active := by
  have grown := shows.append fun e member => (unseen e member).1
  rwa [pushCount_of_unseen unseen, activeSample_of_unseen unseen, Nat.add_zero,
    Bool.or_false] at grown

theorem tickShows_tick (log : List Event) (now : UInt64) (slow : Bool) (pid : Int) :
    TickShows (log ++ [.tick now slow]) pid 0 false := by
  constructor
  · rw [sinceTick_tick]
    rfl
  · rw [sinceTick_tick]
    rfl

/-- What the current tick has shown of a slot, by phase: two pushes after an
active sample, at most one otherwise. -/
def ShownInPhase : SlotPhase → List Event → SlotRecord → Prop
  | .due, log, r => TickShows log r.pid 0 false
  | .visited, log, r =>
      TickShows log r.pid 0 false ∨
        TickShows log r.pid 1 true ∧ r.lastSmValid = true ∧
          r.lastSmUpdatedNs = currentTime log
  | .rested, log, r =>
      TickShows log r.pid 0 false ∨ TickShows log r.pid 1 false ∨
        TickShows log r.pid 2 true

/-- When a tick ends, a pid was pushed at most once exactly if it had no active
sample. -/
def SingleUnlessActive (log : List Event) (pid : Int) : Prop :=
  pushCount pid (sinceTick log) ≤ 1 ↔ activeSample pid (sinceTick log) = false

theorem TickShows.singleUnlessActive
    {log : List Event}
    {pid : Int}
    {pushes : Nat}
    {active : Bool}
    (shows : TickShows log pid pushes active)
    (matching : pushes ≤ 1 ↔ active = false) :
    SingleUnlessActive log pid := by
  unfold SingleUnlessActive
  rw [shows.pushes_eq, shows.active_eq]
  exact matching

theorem ShownInPhase.singleUnlessActive
    {log : List Event}
    {r : SlotRecord}
    (shown : ShownInPhase .rested log r) :
    SingleUnlessActive log r.pid := by
  rcases shown with none | once | twice
  · exact none.singleUnlessActive (by simp)
  · exact once.singleUnlessActive (by simp)
  · exact twice.singleUnlessActive (by simp)

/-- The law at the end of each tick. -/
def repetitionLaw (before : List Event) : Event → Prop
  | .tick _ _ => ∀ pid, SingleUnlessActive before pid
  | _ => True

theorem repetitionLaw_of_noTick
    (log : List Event)
    {events : List Event}
    (noTick : ∀ e ∈ events, e.tick? = none) :
    Along repetitionLaw log events := by
  apply along_of_forall
  intro before e member
  cases e with
  | tick now slow => cases noTick _ member
  | _ => trivial

theorem ShownInPhase.append_other
    {phase : SlotPhase}
    {log : List Event}
    {r : SlotRecord}
    {e : Event}
    {pid : Int}
    (about : e.pid? = some pid)
    (other : pid ≠ r.pid)
    (shown : ShownInPhase phase log r) :
    ShownInPhase phase (log ++ [e]) r := by
  have unseen : ∀ later ∈ [e], later.Unseen r.pid := unseen_singleton about other
  have now : currentTime (log ++ [e]) = currentTime log :=
    currentTime_of_pid log (by simpa using about)
  cases phase with
  | due => exact shown.append_unseen unseen
  | visited =>
      rcases shown with none | ⟨once, valid, updated⟩
      · exact .inl (none.append_unseen unseen)
      · exact .inr ⟨once.append_unseen unseen, valid, updated.trans now.symm⟩
  | rested =>
      rcases shown with none | once | twice
      · exact .inl (none.append_unseen unseen)
      · exact .inr (.inl (once.append_unseen unseen))
      · exact .inr (.inr (twice.append_unseen unseen))

/-- A pass of the slow path publishes once exactly for an active sample. -/
theorem shownInPhase_visit
    {log : List Event}
    {r after : SlotRecord}
    {readings : SlowReadings}
    {dt : ℚ}
    {displayed : Bool}
    {events : List Event}
    (shown : ShownInPhase .due log r)
    (wrote : (SlotWrite.slow readings (currentTime log) dt displayed).apply r =
      some (after, events)) :
    ShownInPhase .visited (log ++ events) after := by
  have samePid := SlotWrite.apply_pid wrote
  obtain ⟨hw, _, ⟨_, rfl, rfl⟩ | ⟨_, _, rfl, rfl⟩⟩ := SlotWrite.slow_cases wrote
  · exact .inl (shown.append_unseen fun e member => by
      rw [List.mem_singleton.mp member]
      exact ⟨rfl, rfl, rfl⟩)
  · have about : ∀ e ∈ (takeSample r hw readings (currentTime log) dt displayed).2,
        e.pid? = some r.pid := fun e member =>
      ((takeSample_events r hw readings (currentTime log) dt displayed).1 e member).1
    have taken := TickShows.append shown fun e member =>
      Event.tick?_of_pid? (about e member)
    rw [pushCount_takeSample, activeSample_takeSample, Nat.zero_add, Bool.false_or,
      ← samePid] at taken
    cases active : smIsActive (resampled r hw readings dt).lastSm with
    | false =>
        rw [active] at taken
        exact .inl taken
    | true =>
        rw [active] at taken
        obtain ⟨valid, updated⟩ :=
          takeSample_record r hw readings (currentTime log) dt displayed active
        refine .inr ⟨taken, valid, ?_⟩
        rw [currentTime_of_pid log about]
        exact updated

/-- The fast path publishes what the slow path of the same tick published. -/
theorem shownInPhase_fast
    {log : List Event}
    {r : SlotRecord}
    (named : r.Named)
    (shown : ShownInPhase .visited log r) :
    ShownInPhase .rested (log ++ (fastVisit r (currentTime log)).2)
      (fastVisit r (currentTime log)).1 := by
  have noTick : ∀ e ∈ (fastVisit r (currentTime log)).2, e.tick? = none :=
    fun e member => Event.tick?_of_pid?
      ((fastVisit_events named (currentTime log)).1 e member).1
  simp only [ShownInPhase, fastVisit_pid]
  rcases shown with none | ⟨once, valid, updated⟩
  · have grown := none.append noTick
    rw [pushCount_fastVisit _ named, activeSample_fastVisit] at grown
    cases published : fastPublishes r (currentTime log) with
    | false =>
        rw [published] at grown
        exact .inl grown
    | true =>
        rw [published] at grown
        exact .inr (.inl grown)
  · have published : fastPublishes r (currentTime log) = true := by
      unfold fastPublishes
      rw [valid, updated, UInt64.sub_self]
      rfl
    have grown := once.append noTick
    rw [pushCount_fastVisit _ named, activeSample_fastVisit, published] at grown
    exact .inr (.inr grown)

/-- Every pid is published twice in a tick that samples it as active, and at
most once in any other. -/
def repeatedLaw (cfg : DaemonConfig) : SlotLaw cfg where
  holds := fun phase log r => r.Named ∧ ShownInPhase phase log r
  absent := fun log pid => TickShows log pid 0 false
  law := repetitionLaw
  frame := fun _ _ _ _ _ about other holds =>
    ⟨holds.1, holds.2.append_other about other⟩
  absentFrame := fun _ _ _ _ about different shows =>
    shows.append_unseen (unseen_singleton about different)
  absentStart := fun _ => ⟨rfl, rfl⟩
  absentTick := fun log pid now slow _ => tickShows_tick log now slow pid
  tick := by
    intro log now slow each pid
    rcases each pid with shows | ⟨r, rfl, _, shown⟩
    · exact shows.singleUnlessActive (by simp)
    · exact shown.singleUnlessActive
  startSlow := fun log r now holds => ⟨holds.1, tickShows_tick log now true r.pid⟩
  startFast := fun log r now holds =>
    ⟨holds.1, .inl (tickShows_tick log now false r.pid)⟩
  mark := fun _ _ _ holds => holds
  refused := fun log pid readings _ shows =>
    ⟨repetitionLaw_of_noTick log fun e member => (fdEvents_unseen pid pid _ e member).1,
      shows.append_unseen (fdEvents_unseen pid pid _)⟩
  added := by
    intro log pid readings _ shows _ _ _
    have unseen := addEvents_unseen pid readings
    exact ⟨repetitionLaw_of_noTick log fun e member => (unseen e member).1,
      freshRecord_named pid readings, shows.append_unseen unseen⟩
  removed := by
    intro log r _ holds
    have unseen := removeEvents_unseen r
    exact ⟨repetitionLaw_of_noTick log fun e member => (unseen e member).1,
      holds.2.append_unseen unseen⟩
  visit := by
    intro log r readings displayed after events _ _ holds wrote
    obtain ⟨sampling, named⟩ := SlotWrite.apply_events holds.1 wrote
    refine ⟨repetitionLaw_of_noTick log fun e member =>
      Event.tick?_of_pid? (sampling e member).1, named, ?_⟩
    exact shownInPhase_visit holds.2 wrote
  fast := by
    intro log r _ holds
    obtain ⟨sampling, named⟩ := fastVisit_events holds.1 (currentTime log)
    exact ⟨repetitionLaw_of_noTick log fun e member =>
      Event.tick?_of_pid? (sampling e member).1, named,
      shownInPhase_fast holds.1 holds.2⟩

/-! ## Runs -/

/-- The timestamps of the records of one pid pushed to the classifier ring. -/
def pidPushTimes (pid : Int) (log : List Event) : List UInt64 :=
  log.filterMap fun e =>
    match e with
    | .pushed .classifier m => if m.pid = pid then some m.timestampNs else none
    | _ => none

/-- At most one record of each pid in each tick, and so, where the tick times
increase, increasing timestamps for each pid. -/
structure PushedOncePerTick (w : World) : Prop where
  once : ∀ earlier later pid, w.log = earlier ++ later →
    pushCount pid (sinceTick earlier) ≤ 1
  increasing : ((ticks w.log).map Prod.fst).Pairwise (· < ·) →
    ∀ pid, (pidPushTimes pid w.log).Pairwise (· < ·)

/-- No interval that the run sampled was active. -/
def QuietRun (w : World) : Prop :=
  ∀ e ∈ w.log, e.isActiveInterval = false

/-- Split a log at its next tick. -/
theorem exists_nextTick (log : List Event) :
    ∃ inside rest, log = inside ++ rest ∧ (∀ e ∈ inside, e.tick? = none) ∧
      (rest = [] ∨ ∃ now slow tail, rest = .tick now slow :: tail) := by
  induction log with
  | nil => exact ⟨[], [], rfl, by simp, .inl rfl⟩
  | cons e tail inductionHypothesis =>
      cases ticking : e.tick? with
      | some time =>
          refine ⟨[], e :: tail, rfl, by simp, .inr ?_⟩
          cases e with
          | tick now slow => exact ⟨now, slow, tail, rfl⟩
          | _ => cases ticking
      | none =>
          obtain ⟨inside, rest, rfl, noTick, next⟩ := inductionHypothesis
          refine ⟨e :: inside, rest, rfl, ?_, next⟩
          intro other member
          rcases List.mem_cons.mp member with here | later
          · rw [here]
            exact ticking
          · exact noTick other later

/-- A quiet run pushes nothing. -/
theorem QuietRun.no_push
    {w : World}
    (quiet : QuietRun w)
    (published : EachEvent pushLaw w.log)
    (sampled : EachEvent windowsLaw.eventLaw w.log)
    (ring : Ring)
    (m : SmoothedMetrics) :
    .pushed ring m ∉ w.log := by
  intro member
  obtain ⟨before, after, prior, hw, readings, dt, sample, place, -, active⟩ :=
    exists_sampled_of_pushed published member
  obtain ⟨e, inside, busy⟩ := exists_active_of_metrics sampled place active
  rw [quiet e inside] at busy
  cases busy

/-- A run publishes each pid at most once in each tick exactly if it never
samples an active interval. -/
theorem pushedOncePerTick_iff_quietRun
    (qsort : Qsort)
    (cfg : DaemonConfig)
    (start : UInt64)
    (envs : List TickEnv) :
    PushedOncePerTick (runSamplingLoop qsort cfg start envs).world ↔
      QuietRun (runSamplingLoop qsort cfg start envs).world := by
  have published := (runSamplingLoop_lawful (publishingLaw cfg) qsort start
    envs).governed.laws
  have sampled := windowsLaw.eventLaw_run qsort cfg start envs
  have repeated := (runSamplingLoop_lawful (repeatedLaw cfg) qsort start
    envs).governed
  generalize (runSamplingLoop qsort cfg start envs).world = w at *
  constructor
  · intro single e member
    by_contra busy
    rw [Bool.not_eq_false] at busy
    obtain ⟨before, after, split⟩ := List.append_of_mem member
    cases e with
    | sampled pid prior hw readings dt metrics =>
        have active := metrics_active_of_interval sampled split busy
        obtain ⟨inside, rest, rfl, noTick, next⟩ := exists_nextTick after
        have whole : w.log = (before ++ .sampled pid prior hw readings dt metrics ::
            inside) ++ rest := by
          rw [split, List.append_assoc, List.cons_append]
        have seen : activeSample pid (sinceTick
            (before ++ .sampled pid prior hw readings dt metrics :: inside)) =
              true := by
          rw [sinceTick_append_of_noTick before (by
            intro e member
            rcases List.mem_cons.mp member with here | later
            · rw [here]
              rfl
            · exact noTick e later)]
          simp [activeSample, Event.samplesActive, active]
        have law : SingleUnlessActive
            (before ++ .sampled pid prior hw readings dt metrics :: inside) pid := by
          rcases next with rfl | ⟨now, slow, tail, rfl⟩
          · rw [List.append_nil] at whole
            rw [← whole]
            by_cases tracked : pid ∈ w.daemon.pids
            · obtain ⟨i, live, named⟩ := Daemon.mem_pids.mp tracked
              rw [← named]
              exact (repeated.slots i live).2.singleUnlessActive
            · exact (repeated.absent pid tracked).singleUnlessActive (by simp)
          · exact repeated.laws _ _ _ whole pid
        have count := law.mp (single.once _ rest pid whole)
        rw [seen] at count
        cases count
    | _ => cases busy
  · intro quiet
    have silent := quiet.no_push published sampled
    constructor
    · intro earlier later pid split
      have none : pushCount pid (sinceTick earlier) = 0 := by
        unfold pushCount
        rw [List.countP_eq_zero]
        intro e member pushes
        have inLog : e ∈ w.log := by
          rw [split]
          exact List.mem_append_left _ (mem_of_mem_sinceTick member)
        cases e with
        | pushed ring m => exact silent ring m inLog
        | _ => cases pushes
      rw [none]
      exact Nat.zero_le 1
    · intro _ pid
      have none : pidPushTimes pid w.log = [] := by
        unfold pidPushTimes
        rw [List.filterMap_eq_nil_iff]
        intro e member
        cases e with
        | pushed ring m => exact absurd member (silent ring m)
        | _ => rfl
      rw [none]
      exact .nil

/-- A process that switched eight times between two slow ticks is published
twice at the same time. -/
theorem switchedRun_pushedTwice :
    ¬ PushedOncePerTick (runSamplingLoop insertionQsort defaultConfig 0
      switchedTicks).world := by
  intro single
  have times := single.increasing (by decide +kernel) 1000
  have twice : pidPushTimes 1000 (runSamplingLoop insertionQsort defaultConfig 0
      switchedTicks).world.log = [200000001, 200000001] := by
    decide +kernel
  rw [twice] at times
  exact absurd times (by decide)

end Schedmon
