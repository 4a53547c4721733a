import Mathlib.Tactic.SplitIfs
import Schedmon.Daemon.State

/-!
# What the slot operations do to a slot

One lemma for each operation and each kind of observation: the number of live
slots, the fourteen arrays at one index, the log, and the variables that the
operation leaves alone.  Later modules never unfold the operations.
-/

namespace Schedmon

/-- Whether `perf_counter_open` returns 0. -/
def perfOpens (readings : AddReadings) : Bool :=
  match readings.perf.hwCycles with
  | .error .other => readings.perf.swClock.isOk
  | .error _ => false
  | .ok _ => readings.perf.hwInstr.isOk && readings.perf.hwLlc.isOk

theorem perfCounterOpen_fst
    (readings : AddReadings)
    (pid cpuId : Int) :
    (perfCounterOpen readings.perf pid cpuId).1 =
      if perfOpens readings then 0 else -1 := by
  unfold perfCounterOpen perfOpens
  cases readings.perf.hwCycles with
  | error errno =>
      cases errno with
      | emfile => rfl
      | enfile => rfl
      | other => cases readings.perf.swClock <;> rfl
  | ok cyclesFd =>
      cases readings.perf.hwInstr with
      | error errno => rfl
      | ok instrFd => cases readings.perf.hwLlc <;> rfl

/-- The counter that a successful `perf_counter_open` leaves. -/
def openedPerf (pid : Int) (readings : AddReadings) : PerfCounter :=
  (perfCounterOpen readings.perf pid (-1)).2.1

/-- The record of a process that is tracked from now on. -/
def freshRecord (pid : Int) (readings : AddReadings) : SlotRecord where
  state := addedState pid readings (openedPerf pid readings)
  winIpc := swInit
  winLlc := swInit
  winCtx := swInit
  winIo := swInit
  winIoWait := swInit
  winRqWait := swInit
  winMigration := swInit
  winIoSyscall := swInit
  perf := openedPerf pid readings
  lastSm := SmoothedMetrics.zero
  lastSmValid := false
  lastSmUpdatedNs := 0
  comm := readings.execComm.getD readings.procComm

@[simp] theorem freshRecord_pid (pid : Int) (readings : AddReadings) :
    (freshRecord pid readings).pid = pid := rfl

/-- The descriptors a successful `add_pid` opens. -/
def addOps (pid : Int) (readings : AddReadings) : List FdOp :=
  (perfCounterOpen readings.perf pid (-1)).2.2 ++ readings.ioFd.ops

/-- The descriptors a failed `add_pid` opens and closes. -/
def failedAddOps (pid : Int) (readings : AddReadings) : List FdOp :=
  (perfCounterOpen readings.perf pid (-1)).2.2 ++
    (perfCounterClose (openedPerf pid readings)).2

/-- The descriptors `remove_slot` closes. -/
def removeOps (r : SlotRecord) : List FdOp :=
  closeFd r.state.ioFd ++ (perfCounterClose r.perf).2

namespace World

@[simp] theorem emit_daemon (w : World) (e : Event) :
    (w.emit e).daemon = w.daemon := rfl

@[simp] theorem emit_log (w : World) (e : Event) :
    (w.emit e).log = w.log ++ [e] := rfl

@[simp] theorem emitFds_daemon (w : World) (pid : Int) (ops : List FdOp) :
    (w.emitFds pid ops).daemon = w.daemon := rfl

@[simp] theorem emitFds_log (w : World) (pid : Int) (ops : List FdOp) :
    (w.emitFds pid ops).log = w.log ++ ops.map (Event.fd pid) := rfl

end World

/-- The variables that belong to no slot. -/
def Daemon.statics (s : Daemon) : ProcScanner × UInt64 × Bool :=
  (s.gScanner, s.lastSync, s.firstRun)

/-! ## Writing one slot -/

theorem Daemon.slot_setSlot
    (s : Daemon)
    (i j : Fin maxPids)
    (r : SlotRecord) :
    (s.setSlot i r).slot j = if j = i then r else s.slot j := by
  unfold Daemon.slot Daemon.setSlot
  by_cases same : j = i
  · subst same
    simp
  · simp [same]

@[simp] theorem Daemon.setSlot_gNActive
    (s : Daemon)
    (i : Fin maxPids)
    (r : SlotRecord) :
    (s.setSlot i r).gNActive = s.gNActive := rfl

@[simp] theorem Daemon.setSlot_statics
    (s : Daemon)
    (i : Fin maxPids)
    (r : SlotRecord) :
    (s.setSlot i r).statics = s.statics := rfl

/-! ## Adding a slot -/

section Add

variable {w : World} {pid : Int} {readings : AddReadings}

theorem addPid_of_perf_fails
    (room : w.daemon.gNActive < maxPids)
    (fails : perfOpens readings = false) :
    addPid w pid readings =
      (none,
        ({ w with daemon :=
          w.daemon.storePerf ⟨w.daemon.gNActive, room⟩ PerfCounter.closed } :
            World).emitFds pid (failedAddOps pid readings)) := by
  have returned := perfCounterOpen_fst readings pid (-1)
  simp only [fails, Bool.false_eq_true, if_false] at returned
  unfold addPid
  rw [dif_pos room]
  dsimp only
  rw [returned, if_pos (by decide)]
  rfl

theorem addPid_of_perf_opens
    (room : w.daemon.gNActive < maxPids)
    (opens : perfOpens readings = true) :
    addPid w pid readings =
      (some ⟨w.daemon.gNActive, room⟩,
        (({ w with daemon :=
          w.daemon.fillSlot room pid readings (openedPerf pid readings) } :
            World).emitFds pid (addOps pid readings)).emit
              (.added pid readings)) := by
  have returned := perfCounterOpen_fst readings pid (-1)
  simp only [opens, if_true] at returned
  unfold addPid
  rw [dif_pos room]
  dsimp only
  rw [returned, if_neg (by decide)]
  rfl

theorem addPid_of_full
    (full : w.daemon.gNActive = maxPids) :
    addPid w pid readings = (none, w) := by
  unfold addPid
  rw [dif_neg (by omega)]

end Add

/-- Filling the first dead slot writes all fourteen arrays there. -/
theorem Daemon.slot_fillSlot
    (s : Daemon)
    (room : s.gNActive < maxPids)
    (pid : Int)
    (readings : AddReadings)
    (j : Fin maxPids) :
    (s.fillSlot room pid readings (openedPerf pid readings)).slot j =
      if j.val = s.gNActive then freshRecord pid readings else s.slot j := by
  have newIff : j = ⟨s.gNActive, room⟩ ↔ j.val = s.gNActive := Fin.ext_iff
  unfold Daemon.slot Daemon.fillSlot freshRecord
  simp only [Function.update_apply, newIff]
  split <;> rfl

/-- A failed add writes no live slot. -/
theorem Daemon.slot_storePerf
    (s : Daemon)
    {i j : Fin maxPids}
    (pc : PerfCounter)
    (different : j ≠ i) :
    (s.storePerf i pc).slot j = s.slot j := by
  unfold Daemon.slot Daemon.storePerf
  simp [different]

/-- What `add_pid` does to everything that can be observed. -/
inductive AddOutcome (w : World) (pid : Int) (readings : AddReadings) :
    Option (Fin maxPids) × World → Prop
  | success
      (room : w.daemon.gNActive < maxPids)
      (opens : perfOpens readings = true)
      (daemon : Daemon)
      (nActive : daemon.gNActive = w.daemon.gNActive + 1)
      (slots : ∀ j, daemon.slot j =
        if j.val = w.daemon.gNActive then freshRecord pid readings
        else w.daemon.slot j)
      (statics : daemon.statics = w.daemon.statics) :
      AddOutcome w pid readings
        (some ⟨w.daemon.gNActive, room⟩,
          ⟨daemon, w.log ++ (addOps pid readings).map (Event.fd pid) ++
            [.added pid readings]⟩)
  | failure
      (refused : w.daemon.gNActive = maxPids ∨ perfOpens readings = false)
      (daemon : Daemon)
      (ops : List FdOp)
      (traced : ops = [] ∨ ops = failedAddOps pid readings)
      (nActive : daemon.gNActive = w.daemon.gNActive)
      (slots : ∀ j : Fin maxPids, j.val < w.daemon.gNActive →
        daemon.slot j = w.daemon.slot j)
      (statics : daemon.statics = w.daemon.statics) :
      AddOutcome w pid readings
        (none, ⟨daemon, w.log ++ ops.map (Event.fd pid)⟩)

theorem addPid_outcome
    (w : World)
    (pid : Int)
    (readings : AddReadings) :
    AddOutcome w pid readings (addPid w pid readings) := by
  by_cases room : w.daemon.gNActive < maxPids
  · cases opens : perfOpens readings with
    | true =>
        rw [addPid_of_perf_opens room opens]
        exact .success room opens _ rfl
          (w.daemon.slot_fillSlot room pid readings) rfl
    | false =>
        rw [addPid_of_perf_fails room opens]
        refine .failure (.inr opens) _ _ (.inr rfl) rfl ?_ rfl
        intro j below
        apply Daemon.slot_storePerf
        intro equal
        subst equal
        exact Nat.lt_irrefl _ below
  · have full : w.daemon.gNActive = maxPids := by
      have bounded := w.daemon.gNActive_le
      omega
    rw [addPid_of_full full]
    have unchanged : AddOutcome w pid readings (none, ⟨w.daemon, w.log ++ []⟩) :=
      .failure (.inl full) w.daemon [] (.inl rfl) rfl (fun _ _ => rfl) rfl
    rwa [List.append_nil] at unchanged

@[simp] theorem addPid_statics
    (w : World)
    (pid : Int)
    (readings : AddReadings) :
    (addPid w pid readings).2.daemon.statics = w.daemon.statics := by
  have outcome := addPid_outcome w pid readings
  generalize addPid w pid readings = result at outcome ⊢
  cases outcome with
  | success room opens daemon nActive slots statics => exact statics
  | failure refused daemon ops traced nActive slots statics => exact statics

/-! ## Removing a slot -/

theorem Daemon.slot_copySlot
    (s : Daemon)
    (i last j : Fin maxPids) :
    (s.copySlot i last).slot j = if j = i then s.slot last else s.slot j := by
  unfold Daemon.slot Daemon.copySlot
  by_cases same : j = i
  · subst same
    simp
  · simp [same]

theorem Daemon.slot_closeSlot
    (s : Daemon)
    {i j : Fin maxPids}
    (different : j ≠ i) :
    (s.closeSlot i).slot j = s.slot j := by
  unfold Daemon.slot Daemon.closeSlot
  split <;> simp [different]

theorem Daemon.slot_dropLast
    (s : Daemon)
    {last j : Fin maxPids}
    (different : j ≠ last) :
    (s.dropLast last).slot j = s.slot j := by
  unfold Daemon.slot Daemon.dropLast
  simp [different]

section Remove

variable {w : World} {i : Nat} (below : i < w.daemon.gNActive)

@[simp] theorem removeSlot_gNActive :
    (removeSlot w i below).daemon.gNActive = w.daemon.gNActive - 1 := by
  unfold removeSlot Daemon.closeSlot
  dsimp only [World.emit, World.emitFds]
  split_ifs <;> rfl

@[simp] theorem removeSlot_statics :
    (removeSlot w i below).daemon.statics = w.daemon.statics := by
  unfold removeSlot Daemon.closeSlot
  dsimp only [World.emit, World.emitFds]
  split_ifs <;> rfl

theorem removeSlot_log :
    (removeSlot w i below).log =
      w.log ++ (removeOps (w.daemon.slot (w.daemon.live below))).map
        (Event.fd (w.daemon.slot (w.daemon.live below)).pid) ++
        [.removed (w.daemon.slot (w.daemon.live below)).pid] := rfl

/-- Every remaining slot keeps all fourteen values; the freed one holds what
the last one held. -/
theorem removeSlot_slot
    (j : Fin maxPids)
    (remains : j.val < w.daemon.gNActive - 1) :
    (removeSlot w i below).daemon.slot j =
      if j.val = i then w.daemon.slot w.daemon.lastIndex else w.daemon.slot j := by
  have notLast : j ≠ w.daemon.lastIndex := by
    intro equal
    subst equal
    exact Nat.lt_irrefl _ remains
  have hereIff : j = w.daemon.live below ↔ j.val = i := Fin.ext_iff
  unfold removeSlot
  dsimp only [World.emit, World.emitFds]
  rw [Daemon.slot_dropLast _ notLast]
  by_cases lastHere : w.daemon.live below = w.daemon.lastIndex
  · have notHere : j ≠ w.daemon.live below := lastHere ▸ notLast
    rw [if_neg (not_not.mpr lastHere), Daemon.slot_closeSlot _ notHere,
      if_neg (hereIff.not.mp notHere)]
  · rw [if_pos lastHere, Daemon.slot_copySlot]
    simp only [hereIff]
    split
    · exact Daemon.slot_closeSlot _ (Ne.symm lastHere)
    · next other => exact Daemon.slot_closeSlot _ (hereIff.not.mpr other)

end Remove

end Schedmon
