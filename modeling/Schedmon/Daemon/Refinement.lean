import Schedmon.Daemon.SlotTable

/-!
# Histories of the slot table

Any history of `add_pid`, `remove_slot` and per-slot sampling writes, as steps
on the world, refines a history of insertions, deletions and updates of a
finite map.
-/

namespace Schedmon

open Library

/-! ## Sampling writes keep the pid -/

@[simp] theorem procIoStep_pid (st : PidState) (readings : SlowReadings) :
    (procIoStep st readings).state.pid = st.pid := by
  unfold procIoStep
  dsimp only
  split_ifs <;> rfl

@[simp] theorem sampledState_pid
    (st : PidState)
    (hw : RawCounters)
    (readings : SlowReadings) :
    (sampledState st hw readings).pid = st.pid := by
  simp [sampledState]

@[simp] theorem resampled_pid
    (r : SlotRecord)
    (hw : RawCounters)
    (readings : SlowReadings)
    (dt : ℚ) :
    (resampled r hw readings dt).pid = r.pid := by
  simp [resampled, pushSample, SlotRecord.pid]

@[simp] theorem publish_pid (r : SlotRecord) (now : UInt64) :
    (publish r now).1.pid = r.pid := by
  unfold publish
  split <;> rfl

@[simp] theorem refreshComm_pid
    (r : SlotRecord)
    (readings : SlowReadings)
    (displayed : Bool) :
    (refreshComm r readings displayed).pid = r.pid := by
  unfold refreshComm
  split <;> rfl

@[simp] theorem takeSample_pid
    (r : SlotRecord)
    (hw : RawCounters)
    (readings : SlowReadings)
    (now : UInt64)
    (dt : ℚ)
    (displayed : Bool) :
    (takeSample r hw readings now dt displayed).1.pid = r.pid := by
  simp [takeSample]

@[simp] theorem fastVisit_pid (r : SlotRecord) (now : UInt64) :
    (fastVisit r now).1.pid = r.pid := by
  unfold fastVisit
  split <;> rfl

/-- The writes that the loops make to one slot. -/
inductive SlotWrite
  /-- A pass of the slow path that does not remove the slot. -/
  | slow (readings : SlowReadings) (now : UInt64) (dt : ℚ) (displayed : Bool)
  /-- A pass of the fast path. -/
  | fast (now : UInt64)
  /-- `g_states[i].active` in `sync_pids`. -/
  | mark (active : Bool)

/-- The record after a write, and what was seen; `none` where the slow path
would remove the slot instead. -/
def SlotWrite.apply : SlotWrite → SlotRecord → Option (SlotRecord × List Event)
  | .slow readings now dt displayed, r =>
      match slowVisit r readings now dt displayed with
      | .unreadable => none
      | .skipped r events => some (r, events)
      | .sampled r events => some (r, events)
  | .fast now, r => some (fastVisit r now)
  | .mark active, r => some ({ r with state := { r.state with active := active } }, [])

/-- The three outcomes of a slow-path pass. -/
theorem slowVisit_cases
    (r : SlotRecord)
    (readings : SlowReadings)
    (now : UInt64)
    (dt : ℚ)
    (displayed : Bool) :
    (perfCounterRead r.perf readings.hw = none ∧
      slowVisit r readings now dt displayed = .unreadable) ∨
    ∃ hw, perfCounterRead r.perf readings.hw = some hw ∧
      ((bpfRegressed r.state readings = true ∨ cyclesRegressed r.state hw = true) ∧
        slowVisit r readings now dt displayed =
          .skipped { r with state := rebase r.state hw readings }
            [.rebased r.pid readings] ∨
      bpfRegressed r.state readings = false ∧ cyclesRegressed r.state hw = false ∧
        slowVisit r readings now dt displayed =
          .sampled (takeSample r hw readings now dt displayed).1
            (takeSample r hw readings now dt displayed).2) := by
  unfold slowVisit
  cases perfCounterRead r.perf readings.hw with
  | none => exact .inl ⟨rfl, rfl⟩
  | some hw =>
      refine .inr ⟨hw, rfl, ?_⟩
      cases bpf : bpfRegressed r.state readings with
      | true => exact .inl ⟨.inl rfl, by simp⟩
      | false =>
          cases cycles : cyclesRegressed r.state hw with
          | true => exact .inl ⟨.inr rfl, by simp [cycles]⟩
          | false => exact .inr ⟨rfl, rfl, by simp [cycles]⟩

theorem slowVisit_eq_unreadable
    {r : SlotRecord}
    {readings : SlowReadings}
    {now : UInt64}
    {dt : ℚ}
    {displayed : Bool}
    (outcome : slowVisit r readings now dt displayed = .unreadable) :
    perfCounterRead r.perf readings.hw = none := by
  rcases slowVisit_cases r readings now dt displayed with
    ⟨unreadable, _⟩ | ⟨hw, _, ⟨_, other⟩ | ⟨_, _, other⟩⟩
  · exact unreadable
  · rw [outcome] at other
    cases other
  · rw [outcome] at other
    cases other

/-- A slow pass that is written either rebases the slot or takes a sample. -/
theorem SlotWrite.apply_slow_cases
    {readings : SlowReadings}
    {now : UInt64}
    {dt : ℚ}
    {displayed : Bool}
    {r after : SlotRecord}
    {events : List Event}
    (wrote : (SlotWrite.slow readings now dt displayed).apply r =
      some (after, events)) :
    ∃ hw, perfCounterRead r.perf readings.hw = some hw ∧
      ((after = { r with state := rebase r.state hw readings } ∧
          events = [.rebased r.pid readings]) ∨
        takeSample r hw readings now dt displayed = (after, events)) := by
  simp only [apply] at wrote
  rcases slowVisit_cases r readings now dt displayed with
    ⟨_, outcome⟩ | ⟨hw, read, ⟨_, outcome⟩ | ⟨_, _, outcome⟩⟩
  · rw [outcome] at wrote
    cases wrote
  · rw [outcome] at wrote
    cases wrote
    exact ⟨hw, read, .inl ⟨rfl, rfl⟩⟩
  · rw [outcome] at wrote
    cases wrote
    exact ⟨hw, read, .inr rfl⟩

/-- The fast path publishes a record that is valid. -/
theorem lastSmValid_of_fastPublishes
    {r : SlotRecord}
    {now : UInt64}
    (published : fastPublishes r now = true) :
    r.lastSmValid = true := by
  unfold fastPublishes at published
  exact (Bool.and_eq_true_iff.mp published).1

theorem SlotWrite.apply_pid
    {write : SlotWrite}
    {r after : SlotRecord}
    {events : List Event}
    (wrote : write.apply r = some (after, events)) :
    after.pid = r.pid := by
  cases write with
  | slow readings now dt displayed =>
      obtain ⟨hw, -, ⟨rfl, -⟩ | sampled⟩ := apply_slow_cases wrote
      · rfl
      · have kept := takeSample_pid r hw readings now dt displayed
        rw [sampled] at kept
        exact kept
  | fast now =>
      simp only [apply, Option.some.injEq] at wrote
      have equal : (fastVisit r now).1 = after := congrArg Prod.fst wrote
      rw [← equal]
      exact fastVisit_pid r now
  | mark active =>
      cases wrote
      rfl

/-- A pass that does not remove the slot keeps its pid. -/
theorem slowVisit_pid
    {r after : SlotRecord}
    {readings : SlowReadings}
    {now : UInt64}
    {dt : ℚ}
    {displayed : Bool}
    {events : List Event}
    (outcome : slowVisit r readings now dt displayed = .skipped after events ∨
      slowVisit r readings now dt displayed = .sampled after events) :
    after.pid = r.pid := by
  have wrote : (SlotWrite.slow readings now dt displayed).apply r =
      some (after, events) := by
    rcases outcome with skipped | sampled
    · simp only [SlotWrite.apply, skipped]
    · simp only [SlotWrite.apply, sampled]
  exact SlotWrite.apply_pid wrote

/-- What a pass of the slow path that keeps the slot does to its record. -/
theorem SlotWrite.slow_cases
    {r after : SlotRecord}
    {readings : SlowReadings}
    {now : UInt64}
    {dt : ℚ}
    {displayed : Bool}
    {events : List Event}
    (wrote : (SlotWrite.slow readings now dt displayed).apply r =
      some (after, events)) :
    ∃ hw, perfCounterRead r.perf readings.hw = some hw ∧
      ((bpfRegressed r.state readings = true ∨ cyclesRegressed r.state hw = true) ∧
        after = { r with state := rebase r.state hw readings } ∧
        events = [.rebased r.pid readings] ∨
      bpfRegressed r.state readings = false ∧ cyclesRegressed r.state hw = false ∧
        after = (takeSample r hw readings now dt displayed).1 ∧
        events = (takeSample r hw readings now dt displayed).2) := by
  simp only [apply] at wrote
  rcases slowVisit_cases r readings now dt displayed with
    ⟨_, outcome⟩ | ⟨hw, read, ⟨reset, outcome⟩ | ⟨noBpf, noCycles, outcome⟩⟩
  · rw [outcome] at wrote
    cases wrote
  · rw [outcome] at wrote
    cases wrote
    exact ⟨hw, read, .inl ⟨reset, rfl, rfl⟩⟩
  · rw [outcome] at wrote
    cases wrote
    exact ⟨hw, read, .inr ⟨noBpf, noCycles, rfl, rfl⟩⟩

/-- The record that an active sample is published as. -/
def SmoothedMetrics.stamp (m : SmoothedMetrics) (now : UInt64) : SmoothedMetrics :=
  { m with timestampNs := now }

/-- The events up to and including the sample itself. -/
def sampleEvents (r : SlotRecord) (hw : RawCounters) (readings : SlowReadings)
    (dt : ℚ) : List Event :=
  (procIoStep r.state readings).ops.map (Event.fd r.pid) ++
    [.sampled r.pid r.state hw readings dt (resampled r hw readings dt).lastSm]

/-- An active sample is published on both rings, any other is dropped. -/
theorem takeSample_cases
    (r : SlotRecord)
    (hw : RawCounters)
    (readings : SlowReadings)
    (now : UInt64)
    (dt : ℚ)
    (displayed : Bool) :
    (smIsActive (resampled r hw readings dt).lastSm = true ∧
      takeSample r hw readings now dt displayed =
        (refreshComm
          { resampled r hw readings dt with
            lastSmUpdatedNs := now
            lastSmValid := true
            lastSm := (resampled r hw readings dt).lastSm.stamp now }
          readings displayed,
          sampleEvents r hw readings dt ++
            [.pushed .classifier ((resampled r hw readings dt).lastSm.stamp now),
              .pushed .dashboard ((resampled r hw readings dt).lastSm.stamp now)])) ∨
    (smIsActive (resampled r hw readings dt).lastSm = false ∧
      takeSample r hw readings now dt displayed =
        (refreshComm { resampled r hw readings dt with lastSmValid := false }
          readings displayed,
          sampleEvents r hw readings dt)) := by
  unfold takeSample publish
  cases active : smIsActive (resampled r hw readings dt).lastSm with
  | true =>
      refine .inl ⟨rfl, ?_⟩
      simp only [active, if_true]
      rfl
  | false =>
      refine .inr ⟨rfl, ?_⟩
      simp only [active, Bool.false_eq_true, if_false, List.append_nil]
      rfl

/-- The name is none of the other thirteen arrays. -/
theorem refreshComm_eq
    (r : SlotRecord)
    (readings : SlowReadings)
    (displayed : Bool) :
    ∃ comm, refreshComm r readings displayed = { r with comm := comm } := by
  unfold refreshComm
  split
  · exact ⟨_, rfl⟩
  · exact ⟨r.comm, rfl⟩

/-! ## The operations on the map -/

section Lookup

variable {w : World} {pid : Int}

/-- `add_pid` on an untracked pid inserts a fresh record or changes nothing. -/
theorem addPid_lookup
    (readings : AddReadings)
    (distinct : w.daemon.Distinct)
    (untracked : pid ∉ w.daemon.pids) :
    (addPid w pid readings).2.daemon.Distinct ∧
      (addPid w pid readings).2.daemon.lookup =
        if (addPid w pid readings).1.isSome then
          Function.update w.daemon.lookup pid (some (freshRecord pid readings))
        else w.daemon.lookup := by
  have outcome := addPid_outcome w pid readings
  generalize addPid w pid readings = result at outcome ⊢
  cases outcome with
  | success room opens daemon nActive slots statics =>
      exact distinct.append (r := freshRecord pid readings) nActive slots untracked
  | failure refused daemon ops traced nActive slots statics =>
      exact distinct.lookup_eq_of_slots nActive slots

/-- `remove_slot` deletes the record of its pid and no other. -/
theorem removeSlot_lookup
    (distinct : w.daemon.Distinct)
    {i : Nat}
    (below : i < w.daemon.gNActive) :
    (removeSlot w i below).daemon.Distinct ∧
      (removeSlot w i below).daemon.lookup =
        Function.update w.daemon.lookup
          (w.daemon.slot (w.daemon.live below)).pid none :=
  distinct.swapRemove (i := w.daemon.live below) below
    (removeSlot_gNActive below) (removeSlot_slot below)

/-- A write to a live slot that keeps its pid updates the record of that pid. -/
theorem putSlot_lookup
    (distinct : w.daemon.Distinct)
    {i : Fin maxPids}
    (below : i.val < w.daemon.gNActive)
    {r : SlotRecord}
    (samePid : r.pid = (w.daemon.slot i).pid)
    (events : List Event) :
    (w.putSlot i r events).daemon.Distinct ∧
      (w.putSlot i r events).daemon.lookup =
        Function.update w.daemon.lookup r.pid (some r) :=
  distinct.write below rfl (fun j => w.daemon.slot_setSlot i j r) samePid

end Lookup

/-! ## Histories -/

/-- One operation on the slot table. -/
inductive TableOp
  | addPid (pid : Int) (readings : AddReadings)
  | removeSlot (i : Nat)
  | write (i : Nat) (write : SlotWrite)

/-- Perform an operation where the daemon would: `add_pid` only for a pid that
`find_slot` does not find, the others only on a live slot. -/
def tableStep : TableOp → World → Option World
  | .addPid pid readings, w =>
      if w.daemon.findSlot pid = none then some (Schedmon.addPid w pid readings).2
      else none
  | .removeSlot i, w =>
      if below : i < w.daemon.gNActive then some (Schedmon.removeSlot w i below)
      else none
  | .write i write, w =>
      if below : i < w.daemon.gNActive then
        (write.apply (w.daemon.slot (w.daemon.live below))).map fun result =>
          w.putSlot (w.daemon.live below) result.1 result.2
      else none

/-- One operation on a map from pids to records. -/
inductive MapStep : (Int → Option SlotRecord) → (Int → Option SlotRecord) → Prop
  | insert (map : Int → Option SlotRecord) (pid : Int) (readings : AddReadings)
      (absent : map pid = none) :
      MapStep map (Function.update map pid (some (freshRecord pid readings)))
  | refuse (map : Int → Option SlotRecord) : MapStep map map
  | delete (map : Int → Option SlotRecord) (pid : Int) (r : SlotRecord)
      (present : map pid = some r) :
      MapStep map (Function.update map pid none)
  | write (map : Int → Option SlotRecord) (pid : Int) (write : SlotWrite)
      (r after : SlotRecord) (events : List Event)
      (present : map pid = some r) (wrote : write.apply r = some (after, events)) :
      MapStep map (Function.update map pid (some after))

/-- An operation on the arrays keeps the pids distinct and is one operation on
the map. -/
theorem tableStep_refines
    (op : TableOp)
    (w next : World)
    (distinct : w.daemon.Distinct)
    (taken : tableStep op w = some next) :
    next.daemon.Distinct ∧ MapStep w.daemon.lookup next.daemon.lookup := by
  cases op with
  | addPid pid readings =>
      simp only [tableStep] at taken
      split at taken
      · next untracked =>
          cases taken
          have absent := Daemon.findSlot_eq_none_iff.mp untracked
          obtain ⟨kept, effect⟩ := addPid_lookup readings distinct absent
          refine ⟨kept, ?_⟩
          rw [effect]
          split
          · exact .insert _ pid readings (Daemon.lookup_eq_none_iff.mpr absent)
          · exact .refuse _
      · cases taken
  | removeSlot i =>
      simp only [tableStep] at taken
      split at taken
      · next below =>
          cases taken
          obtain ⟨kept, effect⟩ := removeSlot_lookup distinct below
          refine ⟨kept, ?_⟩
          rw [effect]
          exact .delete _ _ _ (distinct.lookup_slot below)
      · cases taken
  | write i write =>
      simp only [tableStep] at taken
      split at taken
      · next below =>
          obtain ⟨⟨after, events⟩, wrote, equal⟩ := Option.map_eq_some_iff.mp taken
          subst equal
          have samePid := SlotWrite.apply_pid wrote
          obtain ⟨kept, effect⟩ := putSlot_lookup distinct
            (i := w.daemon.live below) below samePid events
          refine ⟨kept, ?_⟩
          rw [effect]
          exact .write _ _ write _ after events
            (samePid ▸ distinct.lookup_slot (i := w.daemon.live below) below) wrote
      · cases taken

/-- The slot table, at a point of its history, is a finite map. -/
structure TableIsMap (w : World) : Prop where
  /-- `g_n_active` counts the tracked pids and fits the arrays. -/
  size : w.daemon.pids.card = w.daemon.gNActive ∧ w.daemon.gNActive ≤ maxPids
  distinct : w.daemon.Distinct
  /-- The map was built by map operations from the empty map. -/
  history : Relation.ReflTransGen MapStep (fun _ => none) w.daemon.lookup
  /-- A successful `add_pid` inserts a fresh record. -/
  addSucceeds : ∀ pid readings i next, w.daemon.findSlot pid = none →
    addPid w pid readings = (some i, next) →
      next.daemon.lookup =
        Function.update w.daemon.lookup pid (some (freshRecord pid readings))
  /-- A failed `add_pid` changes no record. -/
  addFails : ∀ pid readings next, w.daemon.findSlot pid = none →
    addPid w pid readings = (none, next) →
      next.daemon.lookup = w.daemon.lookup
  /-- `remove_slot` deletes one record and keeps every other. -/
  removes : ∀ i (below : i < w.daemon.gNActive),
    (removeSlot w i below).daemon.lookup =
      Function.update w.daemon.lookup
        (w.daemon.slot (w.daemon.live below)).pid none
  /-- A sampling write changes the record of its own slot only. -/
  writes : ∀ i (below : i < w.daemon.gNActive) (write : SlotWrite) after events,
    write.apply (w.daemon.slot (w.daemon.live below)) = some (after, events) →
      (w.putSlot (w.daemon.live below) after events).daemon.lookup =
        Function.update w.daemon.lookup
          (w.daemon.slot (w.daemon.live below)).pid (some after)

/-- After any history the fourteen arrays are a finite map from pids to
records. -/
theorem slotTable_refines_map
    (ops : List TableOp)
    (w : World)
    (run : Transition.runActions tableStep ops ⟨Daemon.start, []⟩ = some w) :
    TableIsMap w := by
  have invariant : w.daemon.Distinct ∧
      Relation.ReflTransGen MapStep (fun _ => none) w.daemon.lookup := by
    refine Transition.runActions_invariant
      (fun w => w.daemon.Distinct ∧
        Relation.ReflTransGen MapStep (fun _ => none) w.daemon.lookup)
      ?_ ⟨Daemon.start_distinct, .refl⟩ run
    rintro op current next ⟨distinct, history⟩ taken
    obtain ⟨kept, step⟩ := tableStep_refines op current next distinct taken
    exact ⟨kept, history.tail step⟩
  obtain ⟨distinct, history⟩ := invariant
  exact
    { size := ⟨distinct.card_pids, w.daemon.gNActive_le⟩
      distinct := distinct
      history := history
      addSucceeds := by
        intro pid readings i next untracked result
        have effect := (addPid_lookup readings distinct
          (Daemon.findSlot_eq_none_iff.mp untracked)).2
        rw [result] at effect
        exact effect
      addFails := by
        intro pid readings next untracked result
        have effect := (addPid_lookup readings distinct
          (Daemon.findSlot_eq_none_iff.mp untracked)).2
        rw [result] at effect
        exact effect
      removes := fun i below => (removeSlot_lookup distinct below).2
      writes := by
        intro i below write after events wrote
        have samePid := SlotWrite.apply_pid wrote
        rw [← samePid]
        exact (putSlot_lookup distinct (i := w.daemon.live below) below samePid
          events).2 }

/-- A process whose counters open and read, with all other readings zero. -/
def plainAddReadings : AddReadings where
  perf :=
    { hwCycles := .ok 3
      swClock := .error .other
      hwInstr := .ok 4
      hwLlc := .ok 5
      idCycles := 1
      idInstr := 2
      idLlc := 3 }
  seed := { plain := none, group := some [(0, 1), (0, 2), (0, 3)] }
  switches := 0
  io := 0
  ioWaitNs := 0
  rqWaitNs := 0
  ioFd := .ok 6
  procIo := { result := 0, syscallBytes := some 0 }
  execComm := none
  procComm := []

theorem slotTable_refines_map_swap :
    ∃ w, Transition.runActions tableStep
        [.addPid 5 plainAddReadings, .addPid 6 plainAddReadings,
          .write 1 (.fast 100), .removeSlot 0] ⟨Daemon.start, []⟩ = some w ∧
      TableIsMap w ∧ w.daemon.gNActive = 1 :=
  ⟨_, rfl, slotTable_refines_map
    [.addPid 5 plainAddReadings, .addPid 6 plainAddReadings,
      .write 1 (.fast 100), .removeSlot 0] _ rfl, rfl⟩

end Schedmon
