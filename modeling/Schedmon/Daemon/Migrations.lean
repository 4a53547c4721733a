import Schedmon.Bpf.Tracer
import Schedmon.Daemon.PassLaw
import Schedmon.Library.Consecutive
import Schedmon.Library.Stutter

/-!
# Counting migrations

The kernel side keeps the CPU of the last switch of each pid, the daemon looks
at it in each pass that takes a sample.  A slot runs here together with the
maps, in any interleaving of events and passes.
-/

namespace Schedmon

open Library Stutter Consecutive

/-- The CPU of a switch of a pid. -/
def KernelEvent.switchCpu? (pid : UInt32) : KernelEvent → Option UInt32
  | .schedSwitch ctx _ cpu =>
      if ctx.prevPid = pid ∨ ctx.nextPid = pid then some cpu else none
  | _ => none

/-- What happens to a slot and the maps: an event, or a pass of the slow path
with the readings of everything but the last CPU. -/
inductive SightingStep
  | event (e : KernelEvent)
  | visit (base : SlowReadings) (now lastSlow : UInt64) (displayed : Bool)

/-- A look at the last CPU: the CPUs of the pid's switches until then, and what
was read. -/
structure Sighting where
  cpus : List UInt32
  lastCpu : Int
  deriving DecidableEq

/-- The maps and a slot. -/
structure SightedSlot (sizes : MapSizes) where
  maps : BpfMaps sizes
  slot : Option SlotRecord
  /-- The CPUs of the pid's switches so far. -/
  cpus : List UInt32
  /-- The looks at the last CPU since the slot was added. -/
  sightings : List Sighting
  /-- The sum of `migration_freq * slow_dt` over the samples. -/
  counted : ℚ

/-- The migrations that an event reports: the sample times its interval. -/
def Event.migrations : Event → ℚ
  | .sampled _ prior hw readings slowDt _ =>
      (rawSample prior hw readings slowDt).migrationFreq * slowDt
  | _ => 0

namespace SightedSlot

variable {sizes : MapSizes}

/-- A slot just after `add_pid`, with the maps after a history of events. -/
def start (sizes : MapSizes) (pid : UInt32) (history : List KernelEvent)
    (readings : AddReadings) : SightedSlot sizes where
  maps := mapsAfter sizes history
  slot := some (freshRecord pid.toNat readings)
  cpus := history.filterMap (KernelEvent.switchCpu? pid)
  sightings := []
  counted := 0

/-- A pass of the slow path over the slot. -/
def visit (pid : UInt32) (s : SightedSlot sizes) (r : SlotRecord)
    (base : SlowReadings) (now lastSlow : UInt64) (displayed : Bool) :
    SightedSlot sizes :=
  let lastCpu := readLastCpu s.maps pid
  match slowVisit r { base with lastCpu := lastCpu } now
      (slowInterval [now, lastSlow]) displayed with
  | .unreadable => { s with slot := none }
  | .skipped r _ => { s with slot := some r }
  | .sampled r events =>
      { s with
        slot := some r
        sightings := s.sightings ++ [⟨s.cpus, lastCpu⟩]
        counted := s.counted + (events.map Event.migrations).sum }

/-- One step of the maps or the slot. -/
def step (pid : UInt32) (s : SightedSlot sizes) : SightingStep → SightedSlot sizes
  | .event e =>
      { s with
        maps := handleEvent s.maps e
        cpus := s.cpus ++ (e.switchCpu? pid).toList }
  | .visit base now lastSlow displayed =>
      match s.slot with
      | some r => s.visit pid r base now lastSlow displayed
      | none => s

/-- A slot after a list of steps. -/
def run (sizes : MapSizes) (pid : UInt32) (history : List KernelEvent)
    (readings : AddReadings) (steps : List SightingStep) : SightedSlot sizes :=
  steps.foldl (step pid) (start sizes pid history readings)

end SightedSlot

/-- A look that finds an entry. -/
def Sighting.Known (s : Sighting) : Prop := s.lastCpu ≥ 0

instance (s : Sighting) : Decidable s.Known := inferInstanceAs (Decidable (_ ≥ _))

/-- What the daemon counts between two looks. -/
def movedBetween (first second : Sighting) : Nat :=
  if second.Known ∧ first.Known ∧ second.lastCpu ≠ first.lastCpu then 1 else 0

/-- The consecutive switches between two looks that are on different CPUs. -/
def migrationsBetween (first second : Sighting) : Nat :=
  changes second.cpus - changes first.cpus

/-- The consecutive switches on different CPUs from the first look to the last
one. -/
def migrationsSeen : List Sighting → Nat
  | [] => 0
  | first :: rest =>
      migrationsBetween first ((first :: rest).getLast (List.cons_ne_nil _ _))

/-- An interval in which the daemon can miss nothing: at most one change, and
none where it does not know the CPU at both ends. -/
def AtMostOneChange (first second : Sighting) : Prop :=
  migrationsBetween first second ≤ if first.Known ∧ second.Known then 1 else 0

/-! ## The last CPU in the maps -/

section

variable {sizes : MapSizes} {s : BpfMaps sizes} {pid : UInt32} {cpus : List UInt32}

/-- What the maps hold is the CPU of the last switch. -/
def HoldsLast (s : BpfMaps sizes) (pid : UInt32) (cpus : List UInt32) : Prop :=
  ∀ cpu, s.pidLastCpu.lookup pid = some cpu → 1 < pid ∧ cpus.getLast? = some cpu

theorem handleSchedSwitch_pidLastCpu
    (s : BpfMaps sizes)
    (ctx : SchedSwitchArgs)
    (now : UInt64)
    (cpu : UInt32) :
    (handleSchedSwitch s ctx now cpu).pidLastCpu = (storeLastCpu s ctx cpu).pidLastCpu := by
  obtain ⟨waits, enqueued, accounted⟩ :=
    accountRqWait_eq (countVoluntary (storeLastCpu s ctx cpu) ctx) ctx now
  unfold handleSchedSwitch
  rw [accounted]
  unfold countVoluntary
  split <;> rfl

/-- The entry after an update for a task that may be the pid. -/
theorem HoldsLast.store
    {m : BoundedMap sizes.pids UInt32 UInt32}
    {task cpu value : UInt32}
    (found : (if task > 1 then m.update task cpu .any else m).lookup pid = some value) :
    (task ≠ pid ∨ task ≤ 1) ∧ m.lookup pid = some value ∨
      task = pid ∧ 1 < pid ∧ value = cpu := by
  split at found
  · next ordinary =>
      by_cases own : task = pid
      · subst own
        exact .inr ⟨rfl, ordinary, BoundedMap.eq_of_lookup_update_any found⟩
      · rw [BoundedMap.lookup_update_of_ne _ _ _ (Ne.symm own)] at found
        exact .inl ⟨.inl own, found⟩
  · next kernel => exact .inl ⟨.inr (UInt32.not_lt.mp kernel), found⟩

theorem HoldsLast.schedSwitch
    (holds : HoldsLast s pid cpus)
    (ctx : SchedSwitchArgs)
    (now : UInt64)
    (cpu : UInt32) :
    HoldsLast (handleSchedSwitch s ctx now cpu) pid
      (cpus ++ ((KernelEvent.schedSwitch ctx now cpu).switchCpu? pid).toList) := by
  intro value found
  rw [handleSchedSwitch_pidLastCpu] at found
  have stored : (storeLastCpu s ctx cpu).pidLastCpu =
      if ctx.nextPid > 1 then
        (if ctx.prevPid > 1 then s.pidLastCpu.update ctx.prevPid cpu .any
          else s.pidLastCpu).update ctx.nextPid cpu .any
      else if ctx.prevPid > 1 then s.pidLastCpu.update ctx.prevPid cpu .any
      else s.pidLastCpu := by
    unfold storeLastCpu
    dsimp only
    split <;> split <;> rfl
  rw [stored] at found
  change 1 < pid ∧ (cpus ++ (if ctx.prevPid = pid ∨ ctx.nextPid = pid then some cpu
    else none).toList).getLast? = some value
  rcases HoldsLast.store found with ⟨notNext, before⟩ | ⟨next, ordinary, rfl⟩
  · rcases HoldsLast.store before with ⟨notPrev, old⟩ | ⟨prev, ordinary, rfl⟩
    · obtain ⟨ordinary, last⟩ := holds value old
      have other (task : UInt32) (not : task ≠ pid ∨ task ≤ 1) : task ≠ pid := by
        rintro rfl
        exact not.elim (fun different => different rfl)
          fun kernel => absurd ordinary (UInt32.not_lt.mpr kernel)
      rw [if_neg (not_or.mpr ⟨other _ notPrev, other _ notNext⟩)]
      exact ⟨ordinary, by simpa using last⟩
    · rw [if_pos (.inl prev)]
      exact ⟨ordinary, List.getLast?_concat⟩
  · rw [if_pos (.inr next)]
    exact ⟨ordinary, List.getLast?_concat⟩

/-- An event that is not a switch can only remove the entry. -/
theorem HoldsLast.of_kept
    {after : BpfMaps sizes}
    (holds : HoldsLast s pid cpus)
    (kept : ∀ value, after.pidLastCpu.lookup pid = some value →
      s.pidLastCpu.lookup pid = some value) :
    HoldsLast after pid (cpus ++ (none : Option UInt32).toList) := by
  intro value found
  rw [Option.toList_none, List.append_nil]
  exact holds value (kept value found)

/-- Every event keeps the entry up to date. -/
theorem HoldsLast.event
    (holds : HoldsLast s pid cpus)
    (e : KernelEvent) :
    HoldsLast (handleEvent s e) pid (cpus ++ (e.switchCpu? pid).toList) := by
  cases e with
  | schedSwitch ctx now cpu => exact holds.schedSwitch ctx now cpu
  | exit other groupDead =>
      apply holds.of_kept
      intro value found
      unfold handleEvent handleExit at found
      dsimp only at found
      split at found
      · exact found
      · dsimp only at found
        rw [BoundedMap.lookup_delete] at found
        split at found
        · cases found
        · exact found
  | schedWakeup other now =>
      apply holds.of_kept
      unfold handleEvent handleSchedWakeup
      dsimp only
      split <;> exact fun _ found => found
  | fork childPid process =>
      apply holds.of_kept
      unfold handleEvent handleFork
      dsimp only
      split <;> exact fun _ found => found
  | exec other comm =>
      apply holds.of_kept
      unfold handleEvent handleExec
      dsimp only
      split <;> exact fun _ found => found
  | blockRqIssue other rqPtr now =>
      apply holds.of_kept
      unfold handleEvent handleBlockRqIssue
      dsimp only
      split <;> exact fun _ found => found
  | blockRqComplete rqPtr now =>
      apply holds.of_kept
      unfold handleEvent handleBlockRqComplete
      dsimp only
      split
      · exact fun _ found => found
      · next info _ =>
          obtain ⟨counts, waits, charged⟩ := chargeRequest_eq
            { s with bioInflight := s.bioInflight.delete rqPtr } info now
          rw [charged]
          exact fun _ found => found

theorem holdsLast_mapsAfter (sizes : MapSizes) (pid : UInt32) (history : List KernelEvent) :
    HoldsLast (mapsAfter sizes history) pid
      (history.filterMap (KernelEvent.switchCpu? pid)) := by
  induction history using List.reverseRecOn with
  | nil =>
      intro value found
      cases found
  | append_singleton history e inductionHypothesis =>
      have after := inductionHypothesis.event e
      rw [mapsAfter_snoc, List.filterMap_append]
      cases shown : e.switchCpu? pid with
      | none => simpa [shown] using after
      | some cpu => simpa [shown] using after

end

/-! ## One look -/

/-- What a look finds is the CPU of the last switch before it. -/
def Sighting.Truthful (s : Sighting) : Prop :=
  s.Known → ∃ cpu : UInt32, s.cpus.getLast? = some cpu ∧ s.lastCpu = cpu.toInt32.toInt

/-- Two looks, the first of which is the earlier one. -/
structure Sighting.Before (first second : Sighting) : Prop where
  earlier : first.Truthful
  later : second.Truthful
  grows : first.cpus <+: second.cpus

theorem toInt32_injective {cpu other : UInt32}
    (same : cpu.toInt32.toInt = other.toInt32.toInt) :
    cpu = other := by
  have equal : cpu.toInt32 = other.toInt32 := Int32.toInt_inj.mp same
  exact congrArg Int32.toUInt32 equal

/-- Between two looks the daemon counts at most the changes, and all of them if
and only if it can miss nothing. -/
theorem Sighting.Before.moved
    {first second : Sighting}
    (before : first.Before second) :
    movedBetween first second ≤ migrationsBetween first second ∧
      (movedBetween first second = migrationsBetween first second ↔
        AtMostOneChange first second) := by
  obtain ⟨more, grown⟩ := before.grows
  unfold movedBetween AtMostOneChange migrationsBetween
  rw [← grown]
  by_cases known : first.Known ∧ second.Known
  · obtain ⟨cpu, last, read⟩ := before.earlier known.1
    obtain ⟨final, finally_, finalRead⟩ := before.later known.2
    rw [← grown] at finally_
    rw [if_pos known]
    have moved : (second.Known ∧ first.Known ∧ second.lastCpu ≠ first.lastCpu) ↔
        final ≠ cpu := by
      rw [read, finalRead]
      constructor
      · rintro ⟨_, _, different⟩ rfl
        exact different rfl
      · intro different
        exact ⟨known.2, known.1, fun same => different (toInt32_injective same)⟩
    rw [if_congr moved rfl rfl]
    rcases changes_append_cases last more with
      ⟨count, same⟩ | ⟨count, other, there, different⟩ | many
    · rw [same] at finally_
      cases finally_
      simp [count]
    · rw [there] at finally_
      cases finally_
      simp [count, different]
    · split <;> omega
  · rw [if_neg known, if_neg fun both => known ⟨both.2.1, both.1⟩]
    omega

/-! ## The run -/

namespace SightedSlot

variable {sizes : MapSizes} {pid : UInt32} {s : SightedSlot sizes}

/-- What holds after every step. -/
structure Sound (pid : UInt32) (s : SightedSlot sizes) : Prop where
  last : HoldsLast s.maps pid s.cpus
  idle : ∀ r, s.slot = some r → r.state.migrationCount = 0
  prevCpu : ∀ r, s.slot = some r →
    r.state.prevCpuId = s.sightings.getLast?.elim (-1) Sighting.lastCpu
  chain : s.sightings.IsChain Sighting.Before
  latest : ∀ look ∈ s.sightings.getLast?, look.Truthful ∧ look.cpus <+: s.cpus
  counted : s.counted = overPairs movedBetween s.sightings

theorem Sound.event
    (sound : s.Sound pid)
    (e : KernelEvent) :
    (s.step pid (.event e)).Sound pid where
  last := sound.last.event e
  idle := sound.idle
  prevCpu := sound.prevCpu
  chain := sound.chain
  latest := by
    intro look final
    obtain ⟨truthful, inside⟩ := sound.latest look final
    exact ⟨truthful, inside.trans (List.prefix_append _ _)⟩
  counted := sound.counted

/-- A look finds the CPU of the last switch. -/
theorem Sound.look (sound : s.Sound pid) :
    Sighting.Truthful ⟨s.cpus, readLastCpu s.maps pid⟩ := by
  intro known
  unfold Sighting.Known readLastCpu at known
  unfold readLastCpu
  cases found : s.maps.pidLastCpu.lookup pid with
  | none =>
      rw [found] at known
      exact absurd (show (-1 : Int) ≥ 0 from known) (by decide)
  | some cpu => exact ⟨cpu, (sound.last cpu found).2, rfl⟩

/-- What the events of a sample report. -/
theorem migrations_takeSample
    (r : SlotRecord)
    (hw : RawCounters)
    (readings : SlowReadings)
    (now : UInt64)
    {dt : ℚ}
    (positive : 0 < dt)
    (displayed : Bool) :
    ((takeSample r hw readings now dt displayed).2.map Event.migrations).sum =
      countMigration r.state readings.lastCpu := by
  have fds : (((procIoStep r.state readings).ops.map (Event.fd r.pid)).map
      Event.migrations).sum = 0 := by
    apply List.sum_eq_zero
    intro amount member
    simp only [List.map_map, List.mem_map] at member
    obtain ⟨op, _, rfl⟩ := member
    rfl
  have pushes : ((publish (resampled r hw readings dt) now).2.map
      Event.migrations).sum = 0 := by
    unfold publish
    split <;> simp [Event.migrations]
  have own : (rawSample r.state hw readings dt).migrationFreq * dt =
      countMigration r.state readings.lastCpu := by
    change perSecond (countMigration r.state readings.lastCpu : ℚ) dt * dt = _
    unfold perSecond
    rw [if_pos positive, div_mul_cancel₀ _ (ne_of_gt positive)]
  unfold takeSample
  dsimp only
  rw [List.map_append, List.map_append, List.sum_append, List.sum_append, fds, pushes,
    List.map_singleton, List.sum_singleton, zero_add, add_zero]
  exact own

/-- A pass that takes a sample looks once. -/
theorem Sound.sampled
    (sound : s.Sound pid)
    {r : SlotRecord}
    (held : s.slot = some r)
    (hw : RawCounters)
    (base : SlowReadings)
    (now : UInt64)
    {dt : ℚ}
    (positive : 0 < dt)
    (displayed : Bool) :
    Sound pid
      { s with
        slot := some (takeSample r hw
          { base with lastCpu := readLastCpu s.maps pid } now dt displayed).1
        sightings := s.sightings ++ [⟨s.cpus, readLastCpu s.maps pid⟩]
        counted := s.counted + ((takeSample r hw
          { base with lastCpu := readLastCpu s.maps pid } now dt displayed).2.map
            Event.migrations).sum } := by
  have look := sound.look
  generalize readLastCpu s.maps pid = lastCpu at look ⊢
  obtain ⟨_, active, state⟩ := PassLaw.alike_takeSample r hw
    { base with lastCpu := lastCpu } now dt displayed
  have prevCpu := sound.prevCpu r held
  have idle := sound.idle r held
  refine ⟨sound.last, ?_, ?_, ?_, ?_, ?_⟩
  · intro after equal
    cases equal
    rw [state]
    rfl
  · intro after equal
    cases equal
    rw [state, List.getLast?_concat]
    rfl
  · rw [List.isChain_append]
    refine ⟨sound.chain, List.isChain_singleton _, ?_⟩
    intro first final second here
    cases here
    obtain ⟨truthful, inside⟩ := sound.latest first final
    exact ⟨truthful, look, inside⟩
  · intro latest final
    rw [List.getLast?_concat] at final
    cases final
    exact ⟨look, List.prefix_refl _⟩
  · dsimp only
    rw [migrations_takeSample r hw _ now positive displayed, sound.counted]
    unfold countMigration
    rw [prevCpu, idle]
    cases final : s.sightings.getLast? with
    | none =>
        rw [List.getLast?_eq_none_iff.mp final]
        simp [overPairs]
    | some latest =>
        obtain ⟨init, split⟩ := List.getLast?_eq_some_iff.mp final
        rw [split, overPairs_concat, Nat.cast_add, Nat.zero_add]
        rfl

theorem Sound.visit
    (sound : s.Sound pid)
    {r : SlotRecord}
    (held : s.slot = some r)
    (base : SlowReadings)
    (now lastSlow : UInt64)
    (displayed : Bool) :
    (s.visit pid r base now lastSlow displayed).Sound pid := by
  have positive := slowInterval_pos [now, lastSlow]
  unfold SightedSlot.visit
  dsimp only
  generalize slowInterval [now, lastSlow] = dt at positive
  rcases slowVisit_cases r { base with lastCpu := readLastCpu s.maps pid } now dt
      displayed with
    ⟨_, outcome⟩ | ⟨hw, _, ⟨_, outcome⟩ | ⟨_, _, outcome⟩⟩
  · rw [outcome]
    refine ⟨sound.last, ?_, ?_, sound.chain, sound.latest, sound.counted⟩
    · intro after equal
      cases equal
    · intro after equal
      cases equal
  · rw [outcome]
    refine ⟨sound.last, ?_, ?_, sound.chain, sound.latest, sound.counted⟩
    · intro after equal
      cases equal
      exact sound.idle r held
    · intro after equal
      cases equal
      exact sound.prevCpu r held
  · rw [outcome]
    exact sound.sampled held hw base now positive displayed

theorem run_sound
    (sizes : MapSizes)
    (pid : UInt32)
    (history : List KernelEvent)
    (readings : AddReadings)
    (steps : List SightingStep) :
    (run sizes pid history readings steps).Sound pid := by
  unfold run
  have sound : (start sizes pid history readings).Sound pid :=
    { last := holdsLast_mapsAfter sizes pid history
      idle := by
        intro r held
        cases held
        rfl
      prevCpu := by
        intro r held
        cases held
        rfl
      chain := List.isChain_nil
      latest := by
        intro look final
        cases final
      counted := by simp [start, overPairs] }
  generalize start sizes pid history readings = s at sound
  induction steps generalizing s with
  | nil => exact sound
  | cons first rest inductionHypothesis =>
      apply inductionHypothesis
      cases first with
      | event e => exact sound.event e
      | visit base now lastSlow displayed =>
          unfold step
          cases held : s.slot with
          | none => exact sound
          | some r => exact sound.visit held base now lastSlow displayed

/-- The looks count the changes from the first one to the last one. -/
theorem Sound.overPairs_migrationsBetween (sound : s.Sound pid) :
    overPairs migrationsBetween s.sightings = migrationsSeen s.sightings := by
  have chain := sound.chain
  generalize s.sightings = looks at chain
  cases looks with
  | nil => rfl
  | cons first rest =>
      apply (overPairs_sub (fun look : Sighting => changes look.cpus) ?_).1
      apply chain.imp
      intro earlier later before
      obtain ⟨more, grown⟩ := before.grows
      rw [← grown]
      exact changes_append_le _ _

/-- In every interleaving the daemon counts the pairs of consecutive samples
that find different CPUs.  These are at most the consecutive switches on
different CPUs, and as many if and only if no interval between two samples has
a change that the samples cannot show. -/
theorem run_counted
    (sizes : MapSizes)
    (pid : UInt32)
    (history : List KernelEvent)
    (readings : AddReadings)
    (steps : List SightingStep) :
    let s := run sizes pid history readings steps
    s.counted = overPairs movedBetween s.sightings ∧
      s.counted ≤ migrationsSeen s.sightings ∧
      (s.counted = migrationsSeen s.sightings ↔ s.sightings.IsChain AtMostOneChange) := by
  have sound := run_sound sizes pid history readings steps
  dsimp only
  generalize run sizes pid history readings steps = s at sound
  have below : s.sightings.IsChain fun first second =>
      movedBetween first second ≤ migrationsBetween first second :=
    sound.chain.imp fun _ _ before => before.moved.1
  rw [sound.counted, ← sound.overPairs_migrationsBetween]
  simp only [Nat.cast_inj, Nat.cast_le]
  rw [overPairs_eq_iff below]
  exact ⟨trivial, overPairs_le below,
    isChain_congr sound.chain fun _ _ before => before.moved.2⟩

/-- A switch of process 1000 on a CPU. -/
def switchOn (cpu : UInt32) : SightingStep :=
  .event (.schedSwitch { prevPid := 0, prevState := 0, nextPid := 1000 } 1 cpu)

/-- A process that runs on CPU 0, and between two samples on CPU 1 and again on
CPU 0. -/
def bounceSteps : List SightingStep :=
  [switchOn 0, .visit plainSlowReadings 1 0 true, switchOn 1, switchOn 0,
    .visit plainSlowReadings 200000001 1 true]

/-- Two consecutive pairs of switches are on different CPUs, none is counted. -/
theorem bounce_not_counted :
    (run .unlimited 1000 [] plainAddReadings bounceSteps).counted ≠
      migrationsSeen (run .unlimited 1000 [] plainAddReadings bounceSteps).sightings := by
  decide +kernel

end SightedSlot

end Schedmon
