import Schedmon.Daemon.Replay

/-!
# The seven differences of a pass

A pass subtracts seven baselines from what it reads, modulo 2^64.  Four of the
counters were tested for going backwards; the differences of the other three
are exact where these did not go backwards since they were last read.
-/

namespace Schedmon

open Library EventLog

/-- A counter in one pass: its baseline and what is read now. -/
structure Reading where
  baseline : UInt64
  current : UInt64

namespace Reading

variable (counter : Reading)

/-- The difference that the code computes. -/
def delta : UInt64 := counter.current - counter.baseline

/-- The mathematical difference. -/
def difference : Int :=
  (counter.current.toNat : Int) - (counter.baseline.toNat : Int)

/-- The subtraction does not wrap. -/
def Exact : Prop :=
  (counter.delta.toNat : Int) = counter.difference ∧ 0 ≤ counter.difference

instance : Decidable counter.Exact := inferInstanceAs (Decidable (_ ∧ _))

theorem exact_iff : counter.Exact ↔ counter.baseline ≤ counter.current := by
  rw [UInt64.le_iff_toNat_le]
  constructor
  · rintro ⟨_, nonneg⟩
    unfold difference at nonneg
    omega
  · intro order
    have exact := UInt64.toNat_sub_of_le _ _ (UInt64.le_iff_toNat_le.mpr order)
    unfold Exact delta difference
    omega

theorem Exact.toQ_delta
    {counter : Reading}
    (exact : counter.Exact) :
    toQ counter.delta = (counter.difference : ℚ) := by
  unfold toQ
  rw [← exact.1]
  rfl

theorem Exact.delta_pos_iff
    {counter : Reading}
    (exact : counter.Exact) :
    counter.delta > 0 ↔ counter.difference > 0 := by
  rw [← exact.1]
  change (0 : UInt64) < counter.delta ↔ _
  rw [UInt64.lt_iff_toNat_lt]
  change 0 < counter.delta.toNat ↔ _
  omega

end Reading

/-- The seven counters of one pass. -/
structure PassCounters where
  cycles : Reading
  instructions : Reading
  llc : Reading
  ctx : Reading
  rqWaitNs : Reading
  ioWaitNs : Reading
  ioForWait : Reading

/-- What a pass subtracts from what. -/
def passCounters (st : PidState) (hw : RawCounters) (readings : SlowReadings) :
    PassCounters where
  cycles := ⟨st.prevCycles, hw.cycles⟩
  instructions := ⟨st.prevInstructions, hw.instructions⟩
  llc := ⟨st.prevLlc, hw.llcMisses⟩
  ctx := ⟨st.prevCtx, readings.ctx⟩
  rqWaitNs := ⟨st.prevRqWaitNs, readings.rqWaitNs⟩
  ioWaitNs := ⟨st.prevIoWaitNs, readings.ioWaitNs⟩
  ioForWait := ⟨st.prevIoCount, readings.io⟩

namespace PassCounters

variable (counters : PassCounters)

/-- None of the seven subtractions wraps. -/
structure Exact : Prop where
  cycles : counters.cycles.Exact
  instructions : counters.instructions.Exact
  llc : counters.llc.Exact
  ctx : counters.ctx.Exact
  rqWaitNs : counters.rqWaitNs.Exact
  ioWaitNs : counters.ioWaitNs.Exact
  ioForWait : counters.ioForWait.Exact

/-- Instructions per cycle of the mathematical differences. -/
def trueIpc : ℚ :=
  if counters.cycles.difference > 0 then
    (counters.instructions.difference : ℚ) / (counters.cycles.difference : ℚ)
  else 0

/-- Misses per instruction of the mathematical differences. -/
def trueLlcRate : ℚ :=
  if counters.cycles.difference > 0 ∧ counters.instructions.difference > 0 then
    (counters.llc.difference : ℚ) / (counters.instructions.difference : ℚ)
  else 0

/-- The I/O wait of the mathematical differences, after the clamp.  The product
in the clamp is one of 64-bit words. -/
def trueIoWait : Int :=
  min counters.ioWaitNs.difference
    (counters.ioForWait.difference * 30000000000 % 18446744073709551616)

/-- Milliseconds of wait for each completion, of the mathematical differences. -/
def trueIoWaitMs : ℚ :=
  if counters.ioForWait.difference > 0 ∧ counters.trueIoWait > 0 then
    (counters.trueIoWait : ℚ) / (counters.ioForWait.difference : ℚ) / 1000000
  else 0

end PassCounters

/-- No subtraction of a pass wraps, and the samples are those of the
mathematical differences. -/
structure ExactPass (st : PidState) (hw : RawCounters) (readings : SlowReadings)
    (slowDt : ℚ) : Prop where
  deltas : (passCounters st hw readings).Exact
  ipc : (rawSample st hw readings slowDt).ipc = (passCounters st hw readings).trueIpc
  llcRate : (rawSample st hw readings slowDt).llcRate =
    (passCounters st hw readings).trueLlcRate
  ioWaitMs : (rawSample st hw readings slowDt).ioWaitMs =
    (passCounters st hw readings).trueIoWaitMs

/-! ## The samples of exact differences -/

section Samples

variable {counters : PassCounters}

theorem PassCounters.Exact.ioWait
    (exact : counters.Exact) :
    ((clampWait counters.ioWaitNs.delta counters.ioForWait.delta
      ioWaitMaxNs).toNat : Int) = counters.trueIoWait := by
  have product : ((counters.ioForWait.delta * ioWaitMaxNs).toNat : Int) =
      counters.ioForWait.difference * 30000000000 % 18446744073709551616 := by
    rw [UInt64.toNat_mul, ← exact.ioForWait.1]
    rfl
  unfold clampWait PassCounters.trueIoWait
  rw [← product, ← exact.ioWaitNs.1]
  split
  · next above =>
      have order := UInt64.lt_iff_toNat_lt.mp above
      omega
  · next below =>
      have order := UInt64.le_iff_toNat_le.mp (UInt64.not_lt.mp below)
      omega

theorem PassCounters.Exact.averageMs
    (exact : counters.Exact) :
    Schedmon.averageMs (clampWait counters.ioWaitNs.delta counters.ioForWait.delta
      ioWaitMaxNs) counters.ioForWait.delta = counters.trueIoWaitMs := by
  have wait := exact.ioWait
  generalize clampWait counters.ioWaitNs.delta counters.ioForWait.delta
    ioWaitMaxNs = clamped at wait
  have positive : clamped > 0 ↔ counters.trueIoWait > 0 := by
    rw [← wait]
    change (0 : UInt64) < clamped ↔ _
    rw [UInt64.lt_iff_toNat_lt]
    change 0 < clamped.toNat ↔ _
    omega
  unfold Schedmon.averageMs PassCounters.trueIoWaitMs
  rw [exact.ioForWait.toQ_delta, ← wait]
  simp only [exact.ioForWait.delta_pos_iff, positive, ← wait]
  rfl

end Samples

/-- A pass is exact when its seven differences are. -/
theorem exactPass_of_deltas
    {st : PidState}
    {hw : RawCounters}
    {readings : SlowReadings}
    (slowDt : ℚ)
    (exact : (passCounters st hw readings).Exact) :
    ExactPass st hw readings slowDt where
  deltas := exact
  ipc := by
    change (if (passCounters st hw readings).cycles.delta > 0 then
      toQ (passCounters st hw readings).instructions.delta /
        toQ (passCounters st hw readings).cycles.delta else 0) = _
    unfold PassCounters.trueIpc
    rw [exact.cycles.toQ_delta, exact.instructions.toQ_delta]
    simp only [exact.cycles.delta_pos_iff]
  llcRate := by
    change (if (passCounters st hw readings).cycles.delta > 0 ∧
        (passCounters st hw readings).instructions.delta > 0 then
      toQ (passCounters st hw readings).llc.delta /
        toQ (passCounters st hw readings).instructions.delta else 0) = _
    unfold PassCounters.trueLlcRate
    rw [exact.llc.toQ_delta, exact.instructions.toQ_delta]
    simp only [exact.cycles.delta_pos_iff, exact.instructions.delta_pos_iff]
  ioWaitMs := exact.averageMs

/-- After the two regression tests only three counters can go backwards. -/
theorem exactPass_iff
    {st : PidState}
    {hw : RawCounters}
    {readings : SlowReadings}
    (slowDt : ℚ)
    (noBpf : bpfRegressed st readings = false)
    (noCycles : cyclesRegressed st hw = false) :
    ExactPass st hw readings slowDt ↔
      st.prevInstructions ≤ hw.instructions ∧ st.prevLlc ≤ hw.llcMisses ∧
        st.prevIoCount ≤ readings.io := by
  simp only [bpfRegressed, cyclesRegressed, Bool.or_eq_false_iff,
    decide_eq_false_iff_not, UInt64.not_lt] at noBpf noCycles
  constructor
  · intro exact
    exact ⟨(Reading.exact_iff _).mp exact.deltas.instructions,
      (Reading.exact_iff _).mp exact.deltas.llc,
      (Reading.exact_iff _).mp exact.deltas.ioForWait⟩
  · rintro ⟨instructions, llc, io⟩
    apply exactPass_of_deltas
    exact
      { cycles := (Reading.exact_iff _).mpr noCycles
        instructions := (Reading.exact_iff _).mpr instructions
        llc := (Reading.exact_iff _).mpr llc
        ctx := (Reading.exact_iff _).mpr noBpf.1.1
        rqWaitNs := (Reading.exact_iff _).mpr noBpf.2
        ioWaitNs := (Reading.exact_iff _).mpr noBpf.1.2
        ioForWait := (Reading.exact_iff _).mpr io }

/-! ## What the unguarded counters last read -/

/-- What was last read of the counters that no regression test guards, and the
counter that decodes a read. -/
structure LastRead where
  perf : PerfCounter
  instructions : UInt64
  llc : UInt64
  io : UInt64

namespace LastRead

/-- Nothing was read yet. -/
def start : LastRead := ⟨PerfCounter.closed, 0, 0, 0⟩

/-- `add_pid` and the samples read all three; a reset reads instructions and
misses, but no completions. -/
def step (pid : Int) (s : LastRead) : SlotInput → LastRead
  | .added readings =>
      let perf := openedPerf pid readings
      let seed := (perfCounterRead perf readings.seed).getD RawCounters.zero
      ⟨perf, seed.instructions, seed.llcMisses, readings.io⟩
  | .rebased readings =>
      match perfCounterRead s.perf readings.hw with
      | some hw => { s with instructions := hw.instructions, llc := hw.llcMisses }
      | none => s
  | .sampled hw readings _ =>
      { s with
        instructions := hw.instructions
        llc := hw.llcMisses
        io := readings.io }
  | _ => s

end LastRead

/-- What was last read for a pid at a point of a log. -/
def lastRead (pid : Int) (log : List Event) : LastRead :=
  (inputsOf pid log).foldl (LastRead.step pid) LastRead.start

/-- No unguarded counter is below what was last read of it. -/
def NotBackwards (s : LastRead) (hw : RawCounters) (readings : SlowReadings) : Prop :=
  s.instructions ≤ hw.instructions ∧ s.llc ≤ hw.llcMisses ∧ s.io ≤ readings.io

/-- The baselines of a slot are what was last read. -/
structure LastRead.Matches (s : LastRead) (r : SlotRecord) : Prop where
  perf : r.perf = s.perf
  instructions : r.state.prevInstructions = s.instructions
  llc : r.state.prevLlc = s.llc
  io : r.state.prevIoCount = s.io

theorem LastRead.Matches.fastVisit
    {s : LastRead}
    {r : SlotRecord}
    (same : s.Matches r)
    (now : UInt64) :
    s.Matches (Schedmon.fastVisit r now).1 := by
  unfold Schedmon.fastVisit
  split
  · exact ⟨same.perf, same.instructions, same.llc, same.io⟩
  · exact same

theorem LastRead.Matches.publish
    {s : LastRead}
    {r : SlotRecord}
    (same : s.Matches r)
    (now : UInt64) :
    s.Matches (Schedmon.publish r now).1 := by
  unfold Schedmon.publish
  split
  · exact ⟨same.perf, same.instructions, same.llc, same.io⟩
  · exact ⟨same.perf, same.instructions, same.llc, same.io⟩

/-- One input of the replica. -/
theorem LastRead.Matches.step
    {s : LastRead}
    {replica : Replica}
    (pid : Int)
    (same : ∀ r, replica.slot = some r → s.Matches r)
    (input : SlotInput) :
    ∀ r, (replica.step pid input).slot = some r → (s.step pid input).Matches r := by
  intro r held
  cases input with
  | tick now =>
      change (replica.finish pid).slot = some r at held
      unfold Replica.finish at held
      rw [Replica.slot_visit] at held
      obtain ⟨old, slot, rfl⟩ := Option.map_eq_some_iff.mp held
      exact (same old slot).fastVisit replica.now
  | added readings =>
      cases held
      exact ⟨rfl, rfl, rfl, rfl⟩
  | removed => cases held
  | rebased readings =>
      change replica.slot.map _ = some r at held
      obtain ⟨old, slot, rfl⟩ := Option.map_eq_some_iff.mp held
      have before := same old slot
      unfold LastRead.step
      dsimp only
      rw [before.perf]
      cases perfCounterRead s.perf readings.hw with
      | none => exact before
      | some hw => exact ⟨rfl, rfl, rfl, before.io⟩
  | sampled hw readings dt =>
      change (replica.sample pid hw readings dt).slot = some r at held
      unfold Replica.sample at held
      rw [Replica.slot_visit] at held
      obtain ⟨old, slot, rfl⟩ := Option.map_eq_some_iff.mp held
      apply LastRead.Matches.publish
      exact ⟨(same old slot).perf, rfl, rfl, rfl⟩

/-- At every point the replica's baselines are what was last read. -/
theorem replicaAt_matches
    (pid : Int)
    (log : List Event) :
    ∀ r, (replicaAt pid log).slot = some r → (lastRead pid log).Matches r := by
  unfold replicaAt Replica.run lastRead
  have none : ∀ r, Replica.start.slot = some r → LastRead.start.Matches r := by
    intro r held
    cases held
  generalize Replica.start = replica at none
  generalize LastRead.start = s at none
  induction inputsOf pid log generalizing replica s with
  | nil => exact none
  | cons input rest inductionHypothesis =>
      exact inductionHypothesis _ _ (LastRead.Matches.step pid none input)

/-! ## Every run -/

/-- If an event is a pass that pushes samples, its differences are exact. -/
def Event.ExactSample : Event → Prop
  | .sampled _ prior hw readings dt _ => ExactPass prior hw readings dt
  | _ => True

/-- A sample is exact if and only if no unguarded counter went backwards. -/
def exactLaw (before : List Event) : Event → Prop
  | .sampled pid prior hw readings dt metrics =>
      (Event.sampled pid prior hw readings dt metrics).ExactSample ↔
        NotBackwards (lastRead pid before) hw readings
  | _ => True

/-- In every run the differences of every pass that pushes samples are exact if
and only if instructions, misses and completions are not below what was last
read of them. -/
theorem runSamplingLoop_exact_iff
    (qsort : Qsort)
    (cfg : DaemonConfig)
    (start : UInt64)
    (envs : List TickEnv) :
    EachEvent exactLaw (runSamplingLoop qsort cfg start envs).world.log := by
  intro before e after split
  have replayed := runSamplingLoop_replayLaw qsort cfg start envs before e after split
  cases e with
  | sampled pid prior hw readings dt metrics =>
      obtain ⟨r, slot, _, rfl, _, noBpf, noCycles, _, _⟩ := replayed
      have last := replicaAt_matches pid before r.core slot
      have instructions : r.state.prevInstructions = _ := last.instructions
      have llc : r.state.prevLlc = _ := last.llc
      have io : r.state.prevIoCount = _ := last.io
      change ExactPass r.state hw readings dt ↔ NotBackwards _ hw readings
      rw [exactPass_iff dt noBpf noCycles, instructions, llc, io]
      rfl
  | _ => trivial

/-! ## Counters that vanish and restart -/

/-- Five completions and eight switches. -/
def busyReadings : SlowReadings :=
  { plainSlowReadings with ctx := 8, io := 5 }

instance (counters : PassCounters) : Decidable counters.Exact :=
  decidable_of_iff
    (counters.cycles.Exact ∧ counters.instructions.Exact ∧ counters.llc.Exact ∧
      counters.ctx.Exact ∧ counters.rqWaitNs.Exact ∧ counters.ioWaitNs.Exact ∧
        counters.ioForWait.Exact)
    ⟨fun ⟨cycles, instructions, llc, ctx, rqWait, ioWait, io⟩ =>
      ⟨cycles, instructions, llc, ctx, rqWait, ioWait, io⟩,
      fun exact => ⟨exact.cycles, exact.instructions, exact.llc, exact.ctx,
        exact.rqWaitNs, exact.ioWaitNs, exact.ioForWait⟩⟩

instance (st : PidState) (hw : RawCounters) (readings : SlowReadings) (dt : ℚ) :
    Decidable (ExactPass st hw readings dt) :=
  decidable_of_iff (passCounters st hw readings).Exact
    ⟨exactPass_of_deltas dt, ExactPass.deltas⟩

instance : DecidablePred Event.ExactSample
  | .sampled _ prior hw readings dt _ =>
      inferInstanceAs (Decidable (ExactPass prior hw readings dt))
  | .tick _ _ | .fd _ _ | .added _ _ | .removed _ | .rebased _ _ | .pushed _ _ =>
      isTrue trivial

/-- The reset does not take the completions again, so that the next sample
subtracts five from zero. -/
theorem restartedTicks_not_exact :
    ¬ ∀ e ∈ (runSamplingLoop insertionQsort defaultConfig 0
      (restartedTicks (plainTick 1 busyReadings))).world.log, e.ExactSample := by
  decide +kernel

end Schedmon
