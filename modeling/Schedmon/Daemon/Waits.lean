import Mathlib.Algebra.Order.BigOperators.Group.List
import Mathlib.Tactic.FieldSimp
import Mathlib.Tactic.Linarith
import Schedmon.Bpf.Tracer
import Schedmon.Daemon.Windows

/-!
# Where the waits go

Of a counter of waits, what the passes of a slot report as averages and what
they lose add up to what was read.  Whatever the kernel does between two reads
only shows in what they read, so the readings here are arbitrary.
-/

namespace Schedmon

open Library EventLog

/-- A pass of the slow path that takes a sample. -/
structure Pass where
  prior : PidState
  hw : RawCounters
  readings : SlowReadings
  slowDt : ℚ

/-- A counter of waits and the counter of events that its average divides by. -/
structure WaitMetric where
  seed : AddReadings → UInt64
  waitBefore : PidState → UInt64
  waitRead : SlowReadings → UInt64
  eventsBefore : PidState → UInt64
  eventsRead : SlowReadings → UInt64
  limit : UInt64
  sample : RawSample → ℚ
  sample_eq : ∀ st hw readings dt,
    sample (rawSample st hw readings dt) =
      averageMs
        (clampWait (waitRead readings - waitBefore st)
          (eventsRead readings - eventsBefore st) limit)
        (eventsRead readings - eventsBefore st)
  unmarked : ∀ st active, waitBefore { st with active := active } = waitBefore st
  seeded : ∀ pid readings opened,
    waitBefore (addedState pid readings opened) = seed readings
  taken : ∀ st hw readings, waitBefore (sampledState st hw readings) = waitRead readings
  regression : ∀ st readings, bpfRegressed st readings = false →
    waitBefore st ≤ waitRead readings

/-- Without a regression no counter went backwards. -/
theorem bpfRegressed_eq_false_iff
    {st : PidState}
    {readings : SlowReadings} :
    bpfRegressed st readings = false ↔
      st.prevCtx ≤ readings.ctx ∧ st.prevIoWaitNs ≤ readings.ioWaitNs ∧
        st.prevRqWaitNs ≤ readings.rqWaitNs := by
  simp only [bpfRegressed, Bool.or_eq_false_iff, decide_eq_false_iff_not,
    UInt64.not_lt, and_assoc]

/-- `io_wait_ms`. -/
def ioWaitMetric : WaitMetric where
  seed := AddReadings.ioWaitNs
  waitBefore := PidState.prevIoWaitNs
  waitRead := SlowReadings.ioWaitNs
  eventsBefore := PidState.prevIoCount
  eventsRead := SlowReadings.io
  limit := ioWaitMaxNs
  sample := RawSample.ioWaitMs
  sample_eq := fun _ _ _ _ => rfl
  unmarked := fun _ _ => rfl
  seeded := fun _ _ _ => rfl
  taken := fun _ _ _ => rfl
  regression := fun _ _ clean => (bpfRegressed_eq_false_iff.mp clean).2.1

/-- `rq_wait_ms`. -/
def rqWaitMetric : WaitMetric where
  seed := AddReadings.rqWaitNs
  waitBefore := PidState.prevRqWaitNs
  waitRead := SlowReadings.rqWaitNs
  eventsBefore := PidState.prevCtx
  eventsRead := SlowReadings.ctx
  limit := rqWaitMaxNs
  sample := RawSample.rqWaitMs
  sample_eq := fun _ _ _ _ => rfl
  unmarked := fun _ _ => rfl
  seeded := fun _ _ _ => rfl
  taken := fun _ _ _ => rfl
  regression := fun _ _ clean => (bpfRegressed_eq_false_iff.mp clean).2.2

namespace WaitMetric

variable (metric : WaitMetric) (pass : Pass)

/-- The wait that a pass reads. -/
def wait : UInt64 := metric.waitRead pass.readings - metric.waitBefore pass.prior

/-- The events that it divides by. -/
def events : UInt64 :=
  metric.eventsRead pass.readings - metric.eventsBefore pass.prior

/-- The wait in nanoseconds that its sample stands for. -/
def reported : ℚ :=
  metric.sample (rawSample pass.prior pass.hw pass.readings pass.slowDt) *
    toQ (metric.events pass) * 1000000

/-- The wait that its sample leaves out: all of it where there is no event, and
else what exceeds the clamp. -/
def lost : ℚ :=
  if metric.events pass = 0 then toQ (metric.wait pass)
  else if metric.wait pass > metric.events pass * metric.limit then
    toQ (metric.wait pass) - toQ (metric.events pass * metric.limit)
  else 0

/-- A pass that leaves nothing out. -/
def Kept : Prop :=
  metric.wait pass = 0 ∨
    metric.events pass ≠ 0 ∧ metric.wait pass ≤ metric.events pass * metric.limit

/-- What the last of the passes read. -/
def lastRead (seed : AddReadings) (passes : List Pass) : UInt64 :=
  passes.getLast?.elim (metric.seed seed) fun pass => metric.waitRead pass.readings

end WaitMetric

/-! ## One pass -/

theorem toQ_lt {first second : UInt64} (order : first < second) :
    toQ first < toQ second := by
  unfold toQ
  exact_mod_cast UInt64.lt_iff_toNat_lt.mp order

theorem toQ_sub {first second : UInt64} (order : first ≤ second) :
    toQ (second - first) = toQ second - toQ first := by
  unfold toQ
  rw [UInt64.toNat_sub_of_le _ _ order,
    Nat.cast_sub (UInt64.le_iff_toNat_le.mp order)]

theorem toQ_eq_zero {value : UInt64} : toQ value = 0 ↔ value = 0 := by
  unfold toQ
  rw [Nat.cast_eq_zero]
  exact UInt64.toNat_inj (b := 0)

/-- An average times its number of events is the wait, if there is an event. -/
theorem averageMs_mul (wait events : UInt64) :
    averageMs wait events * toQ events * 1000000 =
      if events = 0 then 0 else toQ wait := by
  unfold averageMs
  by_cases none : events = 0
  · simp [none]
  · have positive : events > 0 := UInt64.pos_iff_ne_zero.mpr none
    have nonzero : toQ events ≠ 0 := toQ_eq_zero.not.mpr none
    rw [if_neg none]
    split
    · field_simp
    · next idle =>
        have empty : wait = 0 := by
          by_contra some
          exact idle ⟨positive, UInt64.pos_iff_ne_zero.mpr some⟩
        simp [empty, toQ_eq_zero.mpr]

namespace WaitMetric

variable (metric : WaitMetric) (pass : Pass)

/-- A pass reports or loses all of the wait that it reads. -/
theorem reported_add_lost :
    metric.reported pass + metric.lost pass = toQ (metric.wait pass) := by
  unfold reported lost
  rw [metric.sample_eq]
  change averageMs (clampWait (metric.wait pass) (metric.events pass) metric.limit)
    (metric.events pass) * _ * _ + _ = _
  rw [averageMs_mul]
  by_cases none : metric.events pass = 0
  · rw [if_pos none, if_pos none, zero_add]
  · rw [if_neg none, if_neg none]
    unfold clampWait
    split
    · ring
    · ring

theorem lost_nonneg : 0 ≤ metric.lost pass := by
  unfold lost
  split
  · exact toQ_nonneg _
  · split
    · next larger => exact sub_nonneg.mpr (toQ_lt larger).le
    · exact le_refl 0

theorem lost_eq_zero_iff : metric.lost pass = 0 ↔ metric.Kept pass := by
  unfold lost Kept
  split
  · next none => simp [none, toQ_eq_zero]
  · next some =>
      split
      · next larger =>
          have positive := toQ_lt larger
          have notZero : metric.wait pass ≠ 0 := by
            intro zero
            rw [zero] at larger
            exact absurd larger (UInt64.not_lt.mpr UInt64.zero_le)
          simp only [sub_eq_zero, positive.ne', notZero, ne_eq, some, not_false_eq_true,
            UInt64.not_le.mpr larger, and_false, or_false]
      · next smaller => simp [some, UInt64.not_lt.mp smaller]

end WaitMetric

/-! ## All passes -/

/-- The passes of a slot since it was added, as long as none was a reset. -/
def waitsLaw : PassLaw (Option (AddReadings × List Pass)) where
  initial := none
  onAdded := fun readings => some (readings, [])
  onReset := fun _ _ => none
  onSample := fun prior hw readings dt => Option.map fun (seed, passes) =>
    (seed, passes ++ [⟨prior, hw, readings, dt⟩])
  holds := fun unbroken r => ∀ seed passes, unbroken = some (seed, passes) →
    ∀ metric : WaitMetric, metric.waitBefore r.state = metric.lastRead seed passes
  law := fun unbroken prior _ readings _ _ => ∀ metric : WaitMetric,
    metric.waitBefore prior ≤ metric.waitRead readings ∧
      ∀ seed passes, unbroken = some (seed, passes) →
        metric.waitBefore prior = metric.lastRead seed passes
  alike := by
    rintro unbroken r other ⟨_, active, state⟩ holds seed passes equal metric
    rw [state, metric.unmarked]
    exact holds seed passes equal metric
  added := by
    rintro pid readings _ _ ⟨⟩ metric
    exact metric.seeded pid readings (openedPerf pid readings)
  reset := by
    intro unbroken r hw readings _ _ seed passes equal
    cases equal
  sample := by
    intro unbroken r hw readings dt _ clean _ holds
    constructor
    · intro metric
      exact ⟨metric.regression r.state readings clean,
        fun seed passes equal => holds seed passes equal metric⟩
    · intro seed passes equal metric
      obtain ⟨⟨oldSeed, old⟩, _, shown⟩ := Option.map_eq_some_iff.mp equal
      cases shown
      unfold WaitMetric.lastRead
      rw [List.getLast?_concat, Option.elim_some]
      exact metric.taken r.state hw readings

/-- The readings of a pid's last `add_pid` and its passes since, if none of them
was a reset. -/
def unbrokenPasses (log : List Event) (pid : Int) : Option (AddReadings × List Pass) :=
  waitsLaw.observed log pid

/-- What a slot's passes report and what they lose is what they read. -/
theorem sum_reported_add_sum_lost
    {log : List Event}
    (lawful : EachEvent waitsLaw.eventLaw log)
    {pid : Int}
    {seed : AddReadings}
    {passes : List Pass}
    (unbroken : unbrokenPasses log pid = some (seed, passes))
    (metric : WaitMetric) :
    (passes.map metric.reported).sum + (passes.map metric.lost).sum =
      toQ (metric.lastRead seed passes) - toQ (metric.seed seed) := by
  induction log using List.reverseRecOn generalizing passes with
  | nil => cases unbroken
  | append_singleton log e inductionHypothesis =>
      obtain ⟨earlier, last⟩ := eachEvent_append.mp lawful
      have law : waitsLaw.eventLaw log e := along_singleton.mp last
      unfold unbrokenPasses at unbroken inductionHypothesis
      rw [PassLaw.observed_snoc] at unbroken
      cases e with
      | added other readings =>
          simp only [PassLaw.observe] at unbroken
          split at unbroken
          · cases unbroken
            simp [WaitMetric.lastRead]
          · exact inductionHypothesis earlier unbroken
      | rebased other readings =>
          simp only [PassLaw.observe] at unbroken
          split at unbroken
          · cases unbroken
          · exact inductionHypothesis earlier unbroken
      | sampled other prior hw readings dt metrics =>
          simp only [PassLaw.observe] at unbroken
          split at unbroken
          · next own =>
              subst own
              obtain ⟨⟨oldSeed, old⟩, before, shown⟩ := Option.map_eq_some_iff.mp unbroken
              cases shown
              obtain ⟨order, baseline⟩ := law.2 metric
              have sum := inductionHypothesis earlier before
              have new := metric.reported_add_lost ⟨prior, hw, readings, dt⟩
              have delta : toQ (metric.wait ⟨prior, hw, readings, dt⟩) =
                  toQ (metric.waitRead readings) - toQ (metric.lastRead seed old) := by
                rw [← baseline seed old before]
                exact toQ_sub order
              have read : metric.lastRead seed (old ++ [⟨prior, hw, readings, dt⟩]) =
                  metric.waitRead readings := by
                unfold WaitMetric.lastRead
                rw [List.getLast?_concat, Option.elim_some]
              simp only [List.map_append, List.sum_append, List.map_cons, List.map_nil,
                List.sum_singleton, read]
              linarith
          · exact inductionHypothesis earlier unbroken
      | _ => exact inductionHypothesis earlier unbroken

/-- In every run, the waits that a slot's unbroken passes report fall short of
what they read by what they lose, and do not fall short exactly if every pass
keeps its wait. -/
theorem runSamplingLoop_waits
    (qsort : Qsort)
    (cfg : DaemonConfig)
    (start : UInt64)
    (envs : List TickEnv)
    (pid : Int)
    (seed : AddReadings)
    (passes : List Pass)
    (unbroken : unbrokenPasses (runSamplingLoop qsort cfg start envs).world.log pid =
      some (seed, passes))
    (metric : WaitMetric) :
    (passes.map metric.reported).sum =
        toQ (metric.lastRead seed passes) - toQ (metric.seed seed) -
          (passes.map metric.lost).sum ∧
      ((passes.map metric.reported).sum =
          toQ (metric.lastRead seed passes) - toQ (metric.seed seed) ↔
        ∀ pass ∈ passes, metric.Kept pass) := by
  have sum := sum_reported_add_sum_lost (waitsLaw.eventLaw_run qsort cfg start envs)
    unbroken metric
  have kept : (passes.map metric.lost).sum = 0 ↔ ∀ pass ∈ passes, metric.Kept pass := by
    constructor
    · intro none pass member
      rw [← metric.lost_eq_zero_iff]
      apply List.all_zero_of_le_zero_le_of_sum_eq_zero _ none
        (List.mem_map_of_mem member)
      simp [metric.lost_nonneg]
    · intro all
      apply List.sum_eq_zero
      intro amount member
      obtain ⟨pass, inside, rfl⟩ := List.mem_map.mp member
      exact (metric.lost_eq_zero_iff pass).mpr (all pass inside)
  refine ⟨by linarith, ?_⟩
  rw [← kept]
  constructor
  · intro equal
    linarith
  · intro none
    linarith

/-! ## A wait that no average shows -/

/-- What one process's slot reads when the kernel runs given events before its
first pass and before its second one, 200 ms later. -/
def interleavedTicks (first second : List KernelEvent) : List TickEnv :=
  let added := AddGaps.none.run plainAddReadings 1000
    (first.foldl handleEvent (BpfMaps.start .declared))
  let early := PassGaps.none.run plainSlowReadings 1000 added.2
  let late := { PassGaps.none with switches := second }.run plainSlowReadings 1000
    early.2
  let tick := fun now readings =>
    { plainTick now readings with
      sync := { plainSyncEnv now [1000] with add := fun _ _ => added.1 } }
  [tick 1 early.1, tick 50000001 late.1, tick 100000001 late.1,
    tick 150000001 late.1, tick 200000001 late.1]

/-- The process is forked; later it is woken and waits 5 ms for the CPU, but it
is not switched out again. -/
def wokenTicks : List TickEnv :=
  interleavedTicks [.fork 1000 1000]
    [.schedWakeup 1000 160000001, .schedSwitch ⟨0, 0, 1000⟩ 165000001 0]

/-- The log of this run. -/
def wokenLog : List Event :=
  (runSamplingLoop insertionQsort defaultConfig 0 wokenTicks).world.log

/-- The waits reported, last read and seeded of a pid's unbroken passes. -/
def WaitMetric.totals (metric : WaitMetric) (log : List Event) (pid : Int) :
    Option (ℚ × ℚ × ℚ) :=
  (unbrokenPasses log pid).map fun (seed, passes) =>
    ((passes.map metric.reported).sum, toQ (metric.lastRead seed passes),
      toQ (metric.seed seed))

theorem runSamplingLoop_waits_woken :
    ∃ seed passes, unbrokenPasses wokenLog 1000 = some (seed, passes) ∧
      ((passes.map ioWaitMetric.reported).sum =
          toQ (ioWaitMetric.lastRead seed passes) - toQ (ioWaitMetric.seed seed) -
            (passes.map ioWaitMetric.lost).sum ∧
        ((passes.map ioWaitMetric.reported).sum =
            toQ (ioWaitMetric.lastRead seed passes) - toQ (ioWaitMetric.seed seed) ↔
          ∀ pass ∈ passes, ioWaitMetric.Kept pass)) := by
  obtain ⟨⟨seed, passes⟩, unbroken⟩ := Option.isSome_iff_exists.mp
    (show (unbrokenPasses wokenLog 1000).isSome = true by decide +kernel)
  exact ⟨seed, passes, unbroken, runSamplingLoop_waits insertionQsort defaultConfig 0
    wokenTicks 1000 seed passes unbroken ioWaitMetric⟩

/-- The 5 ms are read, but no interval reports them. -/
theorem wokenLog_loses_rqWait :
    ¬ ∀ seed passes, unbrokenPasses wokenLog 1000 = some (seed, passes) →
      (passes.map rqWaitMetric.reported).sum =
        toQ (rqWaitMetric.lastRead seed passes) - toQ (rqWaitMetric.seed seed) := by
  intro equal
  have totals : rqWaitMetric.totals wokenLog 1000 = some (0, 5000000, 0) := by
    decide +kernel
  obtain ⟨⟨seed, passes⟩, unbroken, shown⟩ := Option.map_eq_some_iff.mp totals
  simp only [Prod.mk.injEq] at shown
  have conserved := equal seed passes unbroken
  rw [shown.1, shown.2.1, shown.2.2] at conserved
  exact absurd conserved (by norm_num)

end Schedmon
