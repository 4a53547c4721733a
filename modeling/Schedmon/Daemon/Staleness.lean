import Mathlib.Data.List.Chain
import Schedmon.Daemon.Repetition

/-!
# Cached records between slow ticks

The fast path publishes the record that a slow tick cached until it is older
than one second, and a slow tick comes every four intervals of a length that
the user chooses.
-/

namespace Schedmon

open Library EventLog

/-- The events of the current slow period after an event, from those before
it. -/
def Event.extendPeriod (events : List Event) (e : Event) : List Event :=
  match e with
  | .tick _ true => []
  | e => events ++ [e]

/-- The events since the latest slow tick began. -/
def sinceSlow (log : List Event) : List Event :=
  log.foldl Event.extendPeriod []

@[simp] theorem sinceSlow_slowTick (log : List Event) (now : UInt64) :
    sinceSlow (log ++ [.tick now true]) = [] := by
  simp [sinceSlow, List.foldl_append, Event.extendPeriod]

@[simp] theorem sinceSlow_fastTick (log : List Event) (now : UInt64) :
    sinceSlow (log ++ [.tick now false]) = sinceSlow log ++ [.tick now false] := by
  simp [sinceSlow, List.foldl_append, Event.extendPeriod]

theorem sinceSlow_append_of_noTick
    (log : List Event)
    {events : List Event}
    (noTick : ∀ e ∈ events, e.tick? = none) :
    sinceSlow (log ++ events) = sinceSlow log ++ events := by
  induction events using List.reverseRecOn with
  | nil => rw [List.append_nil, List.append_nil]
  | append_singleton events e inductionHypothesis =>
      have earlier := inductionHypothesis fun other member =>
        noTick other (List.mem_append_left _ member)
      have ticking := noTick e (List.mem_append_right _ List.mem_cons_self)
      rw [← List.append_assoc, ← List.append_assoc, ← earlier]
      generalize log ++ events = longer
      unfold sinceSlow
      rw [List.foldl_append]
      cases e with
      | tick now slow => cases ticking
      | _ => rfl

/-! ## What a period shows of a pid -/

/-- How many records of a pid the current tick has pushed to the classifier
ring, and whether the slow path has sampled it as active since the latest slow
tick began. -/
structure PeriodShows (log : List Event) (pid : Int) (pushes : Nat)
    (active : Bool) : Prop where
  pushes_eq : pushCount pid (sinceTick log) = pushes
  active_eq : activeSample pid (sinceSlow log) = active

theorem periodShows_slowTick (log : List Event) (now : UInt64) (pid : Int) :
    PeriodShows (log ++ [.tick now true]) pid 0 false := by
  constructor
  · rw [sinceTick_tick]
    rfl
  · rw [sinceSlow_slowTick]
    rfl

section

variable {log events : List Event} {pid : Int} {pushes : Nat} {active : Bool}

theorem PeriodShows.fastTick
    (shows : PeriodShows log pid pushes active)
    (now : UInt64) :
    PeriodShows (log ++ [.tick now false]) pid 0 active := by
  constructor
  · rw [sinceTick_tick]
    rfl
  · rw [sinceSlow_fastTick, activeSample_append, shows.active_eq]
    exact Bool.or_false active

theorem PeriodShows.append
    (shows : PeriodShows log pid pushes active)
    (noTick : ∀ e ∈ events, e.tick? = none) :
    PeriodShows (log ++ events) pid (pushes + pushCount pid events)
      (active || activeSample pid events) := by
  obtain ⟨count, seen⟩ := shows
  constructor
  · rw [sinceTick_append_of_noTick log noTick, pushCount_append, count]
  · rw [sinceSlow_append_of_noTick log noTick, activeSample_append, seen]

theorem PeriodShows.append_unseen
    (shows : PeriodShows log pid pushes active)
    (unseen : ∀ e ∈ events, e.Unseen pid) :
    PeriodShows (log ++ events) pid pushes active := by
  have grown := shows.append fun e member => (unseen e member).1
  rwa [pushCount_of_unseen unseen, activeSample_of_unseen unseen, Nat.add_zero,
    Bool.or_false] at grown

end

/-! ## The law -/

/-- A slot that was sampled as active since the latest slow tick began holds a
record of that tick. -/
def Refreshed (log : List Event) (r : SlotRecord) (active : Bool) : Prop :=
  active = true → r.lastSmValid = true ∧ (slowTimes log).head? = some r.lastSmUpdatedNs

/-- What the period has shown of a slot, by phase: when a tick ends it has
published the slot exactly where the fast path does. -/
def RefreshPhase : SlotPhase → List Event → SlotRecord → Prop
  | .due, log, r => PeriodShows log r.pid 0 false
  | .visited, log, r => ∃ pushes active, PeriodShows log r.pid pushes active ∧
      Refreshed log r active ∧
        (0 < pushes → fastPublishes r (currentTime log) = true)
  | .rested, log, r => ∃ pushes active, PeriodShows log r.pid pushes active ∧
      Refreshed log r active ∧
        (0 < pushes ↔ fastPublishes r (currentTime log) = true)

theorem RefreshPhase.append_other
    {phase : SlotPhase}
    {log : List Event}
    {r : SlotRecord}
    {e : Event}
    {pid : Int}
    (about : e.pid? = some pid)
    (other : pid ≠ r.pid)
    (holds : RefreshPhase phase log r) :
    RefreshPhase phase (log ++ [e]) r := by
  have unseen : ∀ later ∈ [e], later.Unseen r.pid := unseen_singleton about other
  have own : ∀ later ∈ [e], later.pid? = some pid := by simpa using about
  have now : currentTime (log ++ [e]) = currentTime log := currentTime_of_pid log own
  have times : slowTimes (log ++ [e]) = slowTimes log :=
    slowTimes_eq_of_ticks (ticks_append_of_pid log own)
  cases phase with
  | due => exact holds.append_unseen unseen
  | visited =>
      obtain ⟨pushes, active, shows, refreshed, published⟩ := holds
      refine ⟨pushes, active, shows.append_unseen unseen, ?_, by rwa [now]⟩
      unfold Refreshed
      rwa [times]
  | rested =>
      obtain ⟨pushes, active, shows, refreshed, published⟩ := holds
      refine ⟨pushes, active, shows.append_unseen unseen, ?_, by rwa [now]⟩
      unfold Refreshed
      rwa [times]

/-- A pass that samples a slot as active refreshes its record. -/
theorem refreshPhase_visit
    {log : List Event}
    {r after : SlotRecord}
    {readings : SlowReadings}
    {dt : ℚ}
    {displayed : Bool}
    {events : List Event}
    (slow : InSlowTick log)
    (shows : RefreshPhase .due log r)
    (wrote : (SlotWrite.slow readings (currentTime log) dt displayed).apply r =
      some (after, events)) :
    RefreshPhase .visited (log ++ events) after := by
  have samePid := SlotWrite.apply_pid wrote
  obtain ⟨hw, _, ⟨_, rfl, rfl⟩ | ⟨_, _, rfl, rfl⟩⟩ := SlotWrite.slow_cases wrote
  · have unseen : ∀ e ∈ [Event.rebased r.pid readings], e.Unseen r.pid := by
      intro e member
      rw [List.mem_singleton.mp member]
      exact ⟨rfl, rfl, rfl⟩
    exact ⟨0, false, shows.append_unseen unseen, by simp [Refreshed], by simp⟩
  · have about : ∀ e ∈ (takeSample r hw readings (currentTime log) dt displayed).2,
        e.pid? = some r.pid := fun e member =>
      ((takeSample_events r hw readings (currentTime log) dt displayed).1 e member).1
    have taken := PeriodShows.append shows fun e member =>
      Event.tick?_of_pid? (about e member)
    rw [pushCount_takeSample, activeSample_takeSample, Nat.zero_add, Bool.false_or,
      ← samePid] at taken
    cases active : smIsActive (resampled r hw readings dt).lastSm with
    | false =>
        rw [active] at taken
        exact ⟨0, false, taken, by simp [Refreshed], by simp⟩
    | true =>
        rw [active] at taken
        obtain ⟨valid, updated⟩ :=
          takeSample_record r hw readings (currentTime log) dt displayed active
        obtain ⟨earlier, times⟩ := slow
        refine ⟨1, true, taken, fun _ => ⟨valid, ?_⟩, fun _ => ?_⟩
        · rw [slowTimes_eq_of_ticks (ticks_append_of_pid log about), times, updated]
          rfl
        · unfold fastPublishes
          rw [currentTime_of_pid log about, valid, updated, UInt64.sub_self]
          rfl

/-- The fast path leaves the fields that it tests alone. -/
theorem fastVisit_record (r : SlotRecord) (now : UInt64) :
    (fastVisit r now).1.lastSmValid = r.lastSmValid ∧
      (fastVisit r now).1.lastSmUpdatedNs = r.lastSmUpdatedNs := by
  unfold fastVisit
  split
  · exact ⟨rfl, rfl⟩
  · exact ⟨rfl, rfl⟩

/-- The fast path publishes a slot where its record is not stale. -/
theorem refreshPhase_fast
    {log : List Event}
    {r : SlotRecord}
    (named : r.Named)
    (holds : RefreshPhase .visited log r) :
    RefreshPhase .rested (log ++ (fastVisit r (currentTime log)).2)
      (fastVisit r (currentTime log)).1 := by
  obtain ⟨pushes, active, shows, refreshed, published⟩ := holds
  have about : ∀ e ∈ (fastVisit r (currentTime log)).2, e.pid? = some r.pid :=
    fun e member => ((fastVisit_events named (currentTime log)).1 e member).1
  have now := currentTime_of_pid log about
  have times := slowTimes_eq_of_ticks (ticks_append_of_pid log about)
  have grown := shows.append fun e member => Event.tick?_of_pid? (about e member)
  rw [pushCount_fastVisit _ named, activeSample_fastVisit, Bool.or_false] at grown
  obtain ⟨valid, updated⟩ := fastVisit_record r (currentTime log)
  refine ⟨pushes + (fastPublishes r (currentTime log)).toNat, active, ?_, ?_, ?_⟩
  · rw [fastVisit_pid]
    exact grown
  · unfold Refreshed
    rw [valid, updated, times]
    exact refreshed
  · have same : fastPublishes (fastVisit r (currentTime log)).1 (currentTime log) =
        fastPublishes r (currentTime log) := by
      unfold fastPublishes
      rw [valid, updated]
    rw [now, same]
    cases fresh : fastPublishes r (currentTime log) with
    | true => simp
    | false =>
        rw [fresh] at published
        simpa using published

/-- Every tick publishes a slot just where the fast path does, and a slot that
the latest slow tick sampled as active holds a record of that tick. -/
def refreshLaw (cfg : DaemonConfig) : SlotLaw cfg where
  holds := fun phase log r => r.Named ∧ RefreshPhase phase log r
  absent := fun log pid => PeriodShows log pid 0 false
  law := fun _ _ => True
  frame := fun _ _ _ _ _ about other holds =>
    ⟨holds.1, holds.2.append_other about other⟩
  absentFrame := fun _ _ _ _ about different shows =>
    shows.append_unseen (unseen_singleton about different)
  absentStart := fun _ => ⟨rfl, rfl⟩
  absentTick := by
    intro log pid now slow shows
    cases slow with
    | true => exact periodShows_slowTick log now pid
    | false => exact shows.fastTick now
  tick := fun _ _ _ _ => trivial
  startSlow := fun log r now holds => ⟨holds.1, periodShows_slowTick log now r.pid⟩
  startFast := by
    rintro log r now ⟨named, pushes, active, shows, refreshed, -⟩
    refine ⟨named, 0, active, shows.fastTick now, ?_, by simp⟩
    unfold Refreshed
    rwa [slowTimes_fastTick]
  mark := fun _ _ _ holds => holds
  refused := fun log pid readings _ shows =>
    ⟨along_fdEvents (fun _ _ => trivial) _,
      shows.append_unseen (fdEvents_unseen pid pid _)⟩
  added := fun log pid readings _ shows _ _ _ =>
    ⟨along_fdEvents_snoc (fun _ _ => trivial) trivial, freshRecord_named pid readings,
      shows.append_unseen (addEvents_unseen pid readings)⟩
  removed := fun log r _ holds =>
    ⟨along_fdEvents_snoc (fun _ _ => trivial) trivial,
      holds.2.append_unseen (removeEvents_unseen r)⟩
  visit := by
    intro log r readings displayed after events _ slow holds wrote
    exact ⟨along_of_forall fun _ _ _ => trivial,
      (SlotWrite.apply_events holds.1 wrote).2, refreshPhase_visit slow holds.2 wrote⟩
  fast := by
    intro log r _ holds
    exact ⟨along_of_forall fun _ _ _ => trivial,
      (fastVisit_events holds.1 (currentTime log)).2,
      refreshPhase_fast holds.1 holds.2⟩

/-! ## The option -/

/-- `DEFAULT_INTERVAL`. -/
def defaultInterval : Int := 50

/-- `g_cfg.interval_ms` after one `--interval` option, by what `atoi` makes of
its value. -/
def intervalOption (value : Int32) : Int :=
  if value ≤ 0 then defaultInterval else value.toInt

/-- `g_cfg.interval_ms` as `parse_args` leaves it after the `--interval` options
with these values, in order. -/
def parseInterval (values : List Int32) : Int :=
  values.foldl (fun _ value => intervalOption value) defaultInterval

theorem intervalOption_bounds (value : Int32) :
    0 < intervalOption value ∧ intervalOption value < 2147483648 := by
  unfold intervalOption defaultInterval
  split
  · exact ⟨by norm_num, by norm_num⟩
  · next positive =>
      rw [Int32.le_iff_toInt_le, not_le] at positive
      exact ⟨positive, value.toInt_lt⟩

/-- `parse_args` accepts positive intervals only. -/
theorem parseInterval_bounds (values : List Int32) :
    0 < parseInterval values ∧ parseInterval values < 2147483648 := by
  unfold parseInterval
  induction values using List.reverseRecOn with
  | nil => exact ⟨by decide, by decide⟩
  | append_singleton values value _ =>
      rw [List.foldl_append]
      exact intervalOption_bounds value

/-- The configuration under other `--interval` options. -/
def DaemonConfig.withInterval (cfg : DaemonConfig) (values : List Int32) :
    DaemonConfig :=
  { cfg with intervalMs := parseInterval values }

/-- `interval_ns` of the main loop, which sleeps until that much after the start
of a tick. -/
def DaemonConfig.intervalNs (cfg : DaemonConfig) : Int :=
  cfg.intervalMs * 1000000

/-- Ticks that are exactly one interval apart. -/
def Spaced (cfg : DaemonConfig) (envs : List TickEnv) : Prop :=
  envs.IsChain fun earlier later =>
    later.now = earlier.now + UInt64.ofNat cfg.intervalNs.toNat

/-! ## The clock of a run -/

theorem runSamplingLoop_sampleNum
    (qsort : Qsort)
    (cfg : DaemonConfig)
    (start : UInt64)
    (envs : List TickEnv) :
    (runSamplingLoop qsort cfg start envs).sampleNum = envs.length % 4 := by
  induction envs using List.reverseRecOn with
  | nil => rfl
  | append_singleton envs env inductionHypothesis =>
      have next : (tick qsort cfg (runSamplingLoop qsort cfg start envs) env).sampleNum =
          ((runSamplingLoop qsort cfg start envs).sampleNum + 1) % 4 := by
        unfold tick
        split <;> rfl
      rw [runSamplingLoop_snoc, next, inductionHypothesis, List.length_append,
        List.length_singleton]
      omega

/-- Where ticks are an interval apart, the latest slow tick lies as many
intervals back as there were fast ticks since. -/
theorem runSamplingLoop_clock
    (qsort : Qsort)
    {cfg : DaemonConfig}
    (start : UInt64)
    {envs : List TickEnv}
    (spaced : Spaced cfg envs)
    {last : TickEnv}
    (latest : envs.getLast? = some last) :
    currentTime (runSamplingLoop qsort cfg start envs).world.log = last.now ∧
      ∃ slow, (slowTimes (runSamplingLoop qsort cfg start envs).world.log).head? =
          some slow ∧
        last.now = slow +
          UInt64.ofNat ((envs.length - 1) % 4 * cfg.intervalNs.toNat) := by
  induction envs using List.reverseRecOn generalizing last with
  | nil => cases latest
  | append_singleton envs env inductionHypothesis =>
      rw [List.getLast?_concat, Option.some.injEq] at latest
      subst latest
      obtain ⟨earlier, -, step⟩ := List.isChain_append.mp spaced
      have governed := tick_governed qsort env
        (runSamplingLoop_lawful (refreshLaw cfg) qsort start envs)
      have times := governed.ticks_eq
      have number := runSamplingLoop_sampleNum qsort cfg start envs
      rw [runSamplingLoop_snoc, currentTime_eq_of_ticks times, slowTimes_eq_of_ticks times,
        currentTime_tick, List.length_append, List.length_singleton, Nat.add_sub_cancel]
      refine ⟨rfl, ?_⟩
      cases slow : (runSamplingLoop qsort cfg start envs).slowTick with
      | true =>
          refine ⟨env.now, by rw [slowTimes_slowTick]; rfl, ?_⟩
          have first : envs.length % 4 = 0 := by
            unfold LoopState.slowTick at slow
            rw [number] at slow
            have := of_decide_eq_true slow
            omega
          rw [first]
          simp
      | false =>
          have rest : envs.length % 4 ≠ 0 := by
            unfold LoopState.slowTick at slow
            rw [number] at slow
            have := of_decide_eq_false slow
            omega
          have occupied : envs ≠ [] := by
            rintro rfl
            exact rest rfl
          obtain ⟨previous, found⟩ := List.getLast?_isSome.mpr occupied |>
            Option.isSome_iff_exists.mp
          obtain ⟨-, slowest, head, elapsed⟩ := inductionHypothesis earlier found
          refine ⟨slowest, by rw [slowTimes_fastTick]; exact head, ?_⟩
          have advanced := step previous found env (by simp)
          have count : envs.length % 4 = (envs.length - 1) % 4 + 1 := by omega
          rw [advanced, elapsed, count, Nat.succ_mul, UInt64.ofNat_add, UInt64.add_assoc]

/-! ## Refreshed slots are shown -/

/-- Every pid that the latest slow tick sampled as active has a record in the
last tick, and a slot whose valid record the fast path suppresses was not
sampled as active by the latest slow tick.  The fast path leaves the fields that
it tests alone. -/
structure RefreshedShown (w : World) : Prop where
  shown : ∀ pid, activeSample pid (sinceSlow w.log) = true →
    0 < pushCount pid (sinceTick w.log)
  suppressed : ∀ i : Fin maxPids, i.val < w.daemon.gNActive →
    (w.daemon.slot i).lastSmValid = true →
      fastPublishes (w.daemon.slot i) (currentTime w.log) = false →
        activeSample (w.daemon.slot i).pid (sinceSlow w.log) = false

/-- A record is stale after some ticks where these last longer than a second. -/
theorem elapsed_gt_iff
    (cfg : DaemonConfig)
    (values : List Int32)
    (slow : UInt64)
    {count : Nat}
    (few : count ≤ 3) :
    slow + UInt64.ofNat (count * (cfg.withInterval values).intervalNs.toNat) - slow >
        staleNs ↔
      1000 < (count : Int) * parseInterval values := by
  obtain ⟨positive, bounded⟩ := parseInterval_bounds values
  obtain ⟨interval, nonneg⟩ := Int.eq_ofNat_of_zero_le positive.le
  have nanoseconds : (cfg.withInterval values).intervalNs.toNat = interval * 1000000 := by
    unfold DaemonConfig.intervalNs DaemonConfig.withInterval
    dsimp only
    omega
  rw [nanoseconds, nonneg, UInt64.add_comm, UInt64.add_sub_cancel, gt_iff_lt,
    UInt64.lt_iff_toNat_lt]
  have small : interval < 2147483648 := by omega
  have product : count * (interval * 1000000) < 2 ^ 64 := by
    nlinarith [Nat.mul_le_mul few (Nat.mul_le_mul small.le (Nat.le_refl 1000000))]
  rw [UInt64.toNat_ofNat_of_lt' product]
  have limit : staleNs.toNat = 1000000000 := rfl
  rw [limit]
  constructor
  · intro longer
    have : 1000 < count * interval := by nlinarith
    exact_mod_cast this
  · intro longer
    have : 1000 < count * interval := by exact_mod_cast longer
    nlinarith

section

variable {cfg : DaemonConfig} {values : List Int32} {envs : List TickEnv}
variable (qsort : Qsort) (start : UInt64)

/-- After a run, the cached record of a slot that the latest slow tick sampled
as active is as old as that tick. -/
theorem fastPublishes_iff
    (spaced : Spaced (cfg.withInterval values) envs)
    {r : SlotRecord}
    (valid : r.lastSmValid = true)
    (head : (slowTimes (runSamplingLoop qsort (cfg.withInterval values) start
      envs).world.log).head? = some r.lastSmUpdatedNs) :
    fastPublishes r (currentTime (runSamplingLoop qsort (cfg.withInterval values)
        start envs).world.log) = true ↔
      (((envs.length - 1) % 4 : Nat) : Int) * parseInterval values ≤ 1000 := by
  cases latest : envs.getLast? with
  | none =>
      rw [List.getLast?_eq_none_iff.mp latest] at head
      cases head
  | some last =>
      obtain ⟨now, slow, found, elapsed⟩ :=
        runSamplingLoop_clock qsort start spaced latest
      rw [head, Option.some.injEq] at found
      subst found
      have few : (envs.length - 1) % 4 ≤ 3 := by omega
      have old := elapsed_gt_iff cfg values r.lastSmUpdatedNs few
      rw [← elapsed] at old
      unfold fastPublishes
      rw [now, valid, Bool.true_and, Bool.not_eq_true', decide_eq_false_iff_not, old,
        not_lt]

/-- The last tick of a run publishes such a slot exactly where it is not too
late for that. -/
theorem pushCount_pos_iff
    (spaced : Spaced (cfg.withInterval values) envs)
    {pid : Int}
    (seen : activeSample pid (sinceSlow (runSamplingLoop qsort
      (cfg.withInterval values) start envs).world.log) = true) :
    0 < pushCount pid (sinceTick (runSamplingLoop qsort (cfg.withInterval values)
        start envs).world.log) ↔
      (((envs.length - 1) % 4 : Nat) : Int) * parseInterval values ≤ 1000 := by
  have governed := (runSamplingLoop_lawful (refreshLaw (cfg.withInterval values))
    qsort start envs).governed
  have publishes (r : SlotRecord) := fastPublishes_iff qsort start spaced (r := r)
  generalize (runSamplingLoop qsort (cfg.withInterval values) start envs).world = w at *
  by_cases tracked : pid ∈ w.daemon.pids
  · obtain ⟨i, live, rfl⟩ := Daemon.mem_pids.mp tracked
    obtain ⟨-, pushes, active, shows, refreshed, published⟩ := governed.slots i live
    obtain ⟨valid, head⟩ := refreshed (shows.active_eq.symm.trans seen)
    rw [shows.pushes_eq, published]
    exact publishes _ valid head
  · rw [(governed.absent pid tracked).active_eq] at seen
    cases seen

/-- Where three intervals are no longer than a second, every refreshed slot is
shown until the next slow tick. -/
theorem refreshedShown_of_short
    (spaced : Spaced (cfg.withInterval values) envs)
    (short : 3 * parseInterval values ≤ 1000) :
    RefreshedShown (runSamplingLoop qsort (cfg.withInterval values) start envs).world := by
  have early : (((envs.length - 1) % 4 : Nat) : Int) * parseInterval values ≤ 1000 := by
    have positive := (parseInterval_bounds values).1
    have few : (((envs.length - 1) % 4 : Nat) : Int) ≤ 3 := by omega
    nlinarith
  constructor
  · intro pid seen
    exact (pushCount_pos_iff qsort start spaced seen).mpr early
  · intro i live valid silent
    have governed := (runSamplingLoop_lawful (refreshLaw (cfg.withInterval values))
      qsort start envs).governed
    obtain ⟨-, pushes, active, shows, refreshed, -⟩ := governed.slots i live
    rw [shows.active_eq]
    by_contra seen
    obtain ⟨-, head⟩ := refreshed (Bool.not_eq_false _ ▸ seen)
    have fresh := (fastPublishes_iff qsort start spaced valid head).mpr early
    rw [silent] at fresh
    cases fresh

end

/-! ## A burst that is not followed up -/

/-- The fast path only appends pushes to the log. -/
theorem fastLoop_log
    (now : UInt64)
    (fuel i : Nat)
    (w : World) :
    ∃ events, (fastLoop now fuel i w).log = w.log ++ events ∧
      ∀ e ∈ events, e.tick? = none := by
  induction fuel generalizing i w with
  | zero => exact ⟨[], (List.append_nil _).symm, by simp⟩
  | succ fuel inductionHypothesis =>
      unfold fastLoop
      split
      · next below =>
          dsimp only
          obtain ⟨later, grown, noTick⟩ := inductionHypothesis (i + 1)
            (w.putSlot (w.daemon.live below)
              (fastVisit (w.daemon.slot (w.daemon.live below)) now).1
              (fastVisit (w.daemon.slot (w.daemon.live below)) now).2)
          refine ⟨(fastVisit (w.daemon.slot (w.daemon.live below)) now).2 ++ later,
            ?_, ?_⟩
          · rw [grown, World.putSlot, List.append_assoc]
          · intro e member
            rcases List.mem_append.mp member with pushed | rest
            · unfold fastVisit at pushed
              split at pushed
              · rw [List.mem_singleton.mp pushed]
                rfl
              · exact absurd pushed List.not_mem_nil
            · exact noTick e rest
      · exact ⟨[], (List.append_nil _).symm, by simp⟩

/-- A fast tick forgets no sample of the latest slow tick. -/
theorem activeSample_tick
    {qsort : Qsort}
    {cfg : DaemonConfig}
    {st : LoopState}
    {pid : Int}
    (env : TickEnv)
    (fast : st.slowTick = false)
    (seen : activeSample pid (sinceSlow st.world.log) = true) :
    activeSample pid (sinceSlow (tick qsort cfg st env).world.log) = true := by
  obtain ⟨events, grown, noTick⟩ := fastLoop_log env.now
    st.world.daemon.gNActive 0 (st.world.emit (.tick env.now false))
  have log : (tick qsort cfg st env).world.log =
      st.world.log ++ [.tick env.now false] ++ events := by
    simp only [tick, fast, Bool.false_eq_true, if_false]
    exact grown
  rw [log, sinceSlow_append_of_noTick _ noTick, sinceSlow_fastTick, activeSample_append,
    activeSample_append, seen]
  rfl

/-- A slow tick that samples a burst of context switches, and three fast ticks
that follow it in these distances. -/
def burstTicks (distance : UInt64) : List TickEnv :=
  [plainTick 1 switchedReadings, plainTick (1 + distance) switchedReadings,
    plainTick (1 + distance + distance) switchedReadings,
    plainTick (1 + distance + distance + distance) switchedReadings]

theorem burstTicks_activeSample (values : List Int32) (distance : UInt64) :
    activeSample 1000 (sinceSlow (runSamplingLoop insertionQsort
      (defaultConfig.withInterval values) 0 (burstTicks distance)).world.log) =
        true := by
  have first : activeSample 1000 (sinceSlow (runSamplingLoop insertionQsort
      defaultConfig 0 [plainTick 1 switchedReadings]).world.log) = true := by
    decide +kernel
  have later (envs : List TickEnv) (few : envs.length ≤ 3) :
      activeSample 1000 (sinceSlow (runSamplingLoop insertionQsort
        (defaultConfig.withInterval values) 0
          (plainTick 1 switchedReadings :: envs)).world.log) = true := by
    induction envs using List.reverseRecOn with
    | nil => exact first
    | append_singleton envs env inductionHypothesis =>
        rw [List.length_append, List.length_singleton] at few
        rw [← List.cons_append, runSamplingLoop_snoc]
        refine activeSample_tick env ?_ (inductionHypothesis (by omega))
        unfold LoopState.slowTick
        rw [runSamplingLoop_sampleNum, List.length_cons, decide_eq_false_iff_not]
        omega
  exact later _ (Nat.le_refl 3)

/-- Over an interval that `parse_args` accepts, a tick publishes a pid that the
latest slow tick sampled as active exactly where it comes at most a second after
that slow tick.  So every run shows all refreshed slots just when three
intervals are no longer than a second. -/
theorem refreshedShown_iff (values : List Int32) :
    (∀ qsort (cfg : DaemonConfig) start envs, Spaced (cfg.withInterval values) envs →
      ∀ pid, activeSample pid (sinceSlow (runSamplingLoop qsort
          (cfg.withInterval values) start envs).world.log) = true →
        (0 < pushCount pid (sinceTick (runSamplingLoop qsort
            (cfg.withInterval values) start envs).world.log) ↔
          (((envs.length - 1) % 4 : Nat) : Int) * parseInterval values ≤ 1000)) ∧
    ((∀ qsort (cfg : DaemonConfig) start envs,
        Spaced (cfg.withInterval values) envs →
          RefreshedShown (runSamplingLoop qsort (cfg.withInterval values) start
            envs).world) ↔
      3 * parseInterval values ≤ 1000) := by
  refine ⟨fun qsort cfg start envs spaced pid seen =>
    pushCount_pos_iff qsort start spaced seen, ?_, ?_⟩
  · intro every
    let distance := UInt64.ofNat (defaultConfig.withInterval values).intervalNs.toNat
    have spaced : Spaced (defaultConfig.withInterval values) (burstTicks distance) := by
      simp [Spaced, burstTicks, plainTick, distance]
    have seen := burstTicks_activeSample values distance
    have shown := (every insertionQsort defaultConfig 0 (burstTicks distance)
      spaced).shown 1000 seen
    have inTime := (pushCount_pos_iff insertionQsort 0 spaced seen).mp shown
    have late : (burstTicks distance).length - 1 = 3 := rfl
    rw [late] at inTime
    exact inTime
  · intro short qsort cfg start envs spaced
    exact refreshedShown_of_short qsort start spaced short

/-- With `--interval 400` the last tick before the next slow one suppresses the
record of that period. -/
theorem burstTicks_not_refreshedShown :
    Spaced (defaultConfig.withInterval [400]) (burstTicks 400000000) ∧
      ¬ RefreshedShown (runSamplingLoop insertionQsort
        (defaultConfig.withInterval [400]) 0 (burstTicks 400000000)).world := by
  constructor
  · have step : UInt64.ofNat
        (defaultConfig.withInterval [400]).intervalNs.toNat = 400000000 := by
      decide +kernel
    simp [Spaced, burstTicks, plainTick, step]
  · intro all
    have shown := all.shown 1000 (burstTicks_activeSample [400] 400000000)
    exact absurd shown (by decide +kernel)

end Schedmon
