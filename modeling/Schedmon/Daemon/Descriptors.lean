import Schedmon.Daemon.Refinement
import Schedmon.Library.Handles

/-!
# Who owns a descriptor

`open` and `perf_event_open` hand out descriptors, `close` takes them back.
Between two operations the open ones are those in the four fields of the live
slots, each in one field of one slot.
-/

namespace Schedmon

open Library Handles Transition

/-! ## Descriptors as handles -/

/-- A system call as an operation on handles. -/
def FdOp.handleOp : FdOp → HandleOp Int
  | .opened fd => .acquire fd
  | .closed fd => .release fd

/-- The handle that an event opens or closes. -/
def Event.handleOp? : Event → Option (HandleOp Int)
  | .fd _ op => some op.handleOp
  | _ => none

/-- The system calls in a log. -/
def handleOps (log : List Event) : List (HandleOp Int) :=
  log.filterMap Event.handleOp?

@[simp] theorem handleOps_append (log later : List Event) :
    handleOps (log ++ later) = handleOps log ++ handleOps later :=
  List.filterMap_append

@[simp] theorem handleOps_fds (pid : Int) (ops : List FdOp) :
    handleOps (ops.map (Event.fd pid)) = ops.map FdOp.handleOp := by
  induction ops with
  | nil => rfl
  | cons op rest inductionHypothesis =>
      exact congrArg (op.handleOp :: ·) inductionHypothesis

/-- The open descriptors at a point of a log, none being open at its start. -/
def openDescriptors (log : List Event) : Finset Int := heldAfter ∅ (handleOps log)

/-- The descriptors among some fields. -/
def validFds (fields : List Int) : List Int := fields.filter (0 ≤ ·)

/-- The descriptors that a slot holds. -/
def SlotRecord.descriptors (r : SlotRecord) : List Int :=
  validFds [r.state.ioFd, r.perf.fdCycles, r.perf.fdInstr, r.perf.fdLlc]

/-- The descriptors at an index of the arrays. -/
def Daemon.descriptorsAt (s : Daemon) (j : Nat) : List Int :=
  if inside : j < maxPids then (s.slot ⟨j, inside⟩).descriptors else []

/-- The descriptors of the live slots, as often as they occur. -/
def Daemon.descriptors (s : Daemon) : Multiset Int :=
  ∑ j ∈ Finset.range s.gNActive, (s.descriptorsAt j : Multiset Int)

/-! ## What the operations open and close -/

theorem closeFd_handleOps (fd : Int) :
    (closeFd fd).map FdOp.handleOp = (validFds [fd]).map .release := by
  unfold closeFd validFds
  by_cases valid : fd ≥ 0
  · rw [if_pos valid, List.filter_cons_of_pos (by simpa using valid)]
    rfl
  · rw [if_neg valid, List.filter_cons_of_neg (by simpa using valid)]
    rfl

theorem validFds_append (fields more : List Int) :
    validFds (fields ++ more) = validFds fields ++ validFds more :=
  List.filter_append _ _

/-- The descriptor fields of a `perf_counter_t`. -/
def PerfCounter.fields (pc : PerfCounter) : List Int :=
  [pc.fdCycles, pc.fdInstr, pc.fdLlc]

theorem perfCounterClose_handleOps (pc : PerfCounter) :
    (perfCounterClose pc).2.map FdOp.handleOp =
      (validFds pc.fields).map .release := by
  have fields : pc.fields = [pc.fdCycles] ++ [pc.fdInstr] ++ [pc.fdLlc] := rfl
  rw [fields, validFds_append, validFds_append]
  simp only [perfCounterClose, List.map_append, closeFd_handleOps]

theorem removeOps_handleOps (r : SlotRecord) :
    (removeOps r).map FdOp.handleOp = r.descriptors.map .release := by
  have fields : r.descriptors =
      validFds [r.state.ioFd] ++ validFds r.perf.fields :=
    validFds_append [r.state.ioFd] r.perf.fields
  rw [fields]
  simp only [removeOps, List.map_append, closeFd_handleOps, perfCounterClose_handleOps]

theorem openResult_ops (result : OpenResult) :
    result.ops.map FdOp.handleOp = (validFds [result.toFd]).map .acquire := by
  cases result with
  | error errno => rfl
  | ok fd =>
      have valid : (0 : Int) ≤ fd := Int.natCast_nonneg fd
      simp [OpenResult.ops, OpenResult.toFd, validFds, FdOp.handleOp, valid]

theorem validFds_cons_natCast (fd : Nat) (rest : List Int) :
    validFds ((fd : Int) :: rest) = (fd : Int) :: validFds rest :=
  List.filter_cons_of_pos (by simp)

/-- `perf_counter_open` closes again what it opens and does not store; a call
that returns 0 closes nothing. -/
theorem perfCounterOpen_handleOps (answers : PerfOpenAnswers) (pid cpuId : Int) :
    ∃ temporary : List Int,
      (perfCounterOpen answers pid cpuId).2.2.map FdOp.handleOp =
        (temporary ++ validFds (perfCounterOpen answers pid cpuId).2.1.fields).map
          .acquire ++ temporary.map .release ∧
      ((perfCounterOpen answers pid cpuId).1 = 0 → temporary = []) := by
  have failed : (-1 : Int) ≠ 0 := by decide
  unfold perfCounterOpen PerfCounter.fields
  cases answers.hwCycles with
  | error errno =>
      cases errno with
      | emfile => exact ⟨[], rfl, fun _ => rfl⟩
      | enfile => exact ⟨[], rfl, fun _ => rfl⟩
      | other =>
          cases answers.swClock with
          | error second => exact ⟨[], rfl, fun _ => rfl⟩
          | ok fd =>
              refine ⟨[], ?_, fun _ => rfl⟩
              dsimp only [OpenResult.toFd, PerfCounter.closed]
              rw [validFds_cons_natCast]
              rfl
  | ok cyclesFd =>
      cases answers.hwInstr with
      | error errno =>
          refine ⟨[(cyclesFd : Int)], ?_, fun returned => absurd returned failed⟩
          dsimp only [OpenResult.toFd, PerfCounter.closed]
          rw [List.map_append, perfCounterClose_handleOps, PerfCounter.fields,
            validFds_cons_natCast]
          rfl
      | ok instrFd =>
          cases answers.hwLlc with
          | error errno =>
              refine ⟨[(cyclesFd : Int), (instrFd : Int)], ?_,
                fun returned => absurd returned failed⟩
              dsimp only [OpenResult.toFd, PerfCounter.closed]
              rw [List.map_append, perfCounterClose_handleOps, PerfCounter.fields,
                validFds_cons_natCast, validFds_cons_natCast]
              rfl
          | ok llcFd =>
              refine ⟨[], ?_, fun _ => rfl⟩
              dsimp only [OpenResult.toFd, PerfCounter.closed]
              rw [validFds_cons_natCast, validFds_cons_natCast, validFds_cons_natCast]
              rfl

theorem addOps_handleOps
    {readings : AddReadings}
    (opens : perfOpens readings = true)
    (pid : Int) :
    (addOps pid readings).map FdOp.handleOp =
      (validFds (openedPerf pid readings).fields ++
        validFds [readings.ioFd.toFd]).map .acquire := by
  obtain ⟨temporary, calls, none⟩ := perfCounterOpen_handleOps readings.perf pid (-1)
  have returned := perfCounterOpen_fst readings pid (-1)
  rw [if_pos opens] at returned
  rw [none returned, List.nil_append, List.map_nil, List.append_nil] at calls
  unfold addOps
  rw [List.map_append, calls, openResult_ops, ← List.map_append]
  rfl

theorem failedAddOps_handleOps (pid : Int) (readings : AddReadings) :
    ∃ opened closed : List Int, (failedAddOps pid readings).map FdOp.handleOp =
        opened.map .acquire ++ closed.map .release ∧ opened.Perm closed := by
  obtain ⟨temporary, calls, _⟩ := perfCounterOpen_handleOps readings.perf pid (-1)
  refine ⟨_, temporary ++ validFds (openedPerf pid readings).fields, ?_, .refl _⟩
  unfold failedAddOps
  rw [List.map_append, calls, perfCounterClose_handleOps, List.append_assoc,
    ← List.map_append]
  rfl

/-- `add_pid` stores the descriptors that it opened. -/
theorem freshRecord_descriptors (pid : Int) (readings : AddReadings) :
    ((freshRecord pid readings).descriptors : Multiset Int) =
      (validFds (openedPerf pid readings).fields ++
        validFds [readings.ioFd.toFd] : List Int) := by
  have fields : (freshRecord pid readings).descriptors =
      validFds [readings.ioFd.toFd] ++ validFds (openedPerf pid readings).fields :=
    validFds_append [readings.ioFd.toFd] (openedPerf pid readings).fields
  rw [fields]
  exact Multiset.coe_eq_coe.mpr List.perm_append_comm

/-- A pass opens the `io` file again after it has closed it, and stores what it
opened. -/
theorem procIoStep_handleOps (st : PidState) (readings : SlowReadings) :
    ∃ closed opened : List Int,
      (procIoStep st readings).ops.map FdOp.handleOp =
        closed.map .release ++ opened.map .acquire ∧
      (validFds [st.ioFd] = closed ∧ validFds [(procIoStep st readings).state.ioFd] =
        opened ∨
        closed = [] ∧ opened = [] ∧ (procIoStep st readings).state.ioFd = st.ioFd) := by
  unfold procIoStep
  split
  · next valid =>
      dsimp only
      split
      · refine ⟨[st.ioFd], validFds [readings.reopened.toFd], ?_, .inl ⟨?_, rfl⟩⟩
        · rw [List.map_append, openResult_ops]
          rfl
        · exact List.filter_cons_of_pos (by simpa using valid)
      · exact ⟨[], [], rfl, .inr ⟨rfl, rfl, rfl⟩⟩
  · exact ⟨[], [], rfl, .inr ⟨rfl, rfl, rfl⟩⟩

/-- The two records hold the same descriptors. -/
theorem SlotRecord.descriptors_congr
    {r other : SlotRecord}
    (ioFd : r.state.ioFd = other.state.ioFd)
    (perf : r.perf = other.perf) :
    r.descriptors = other.descriptors := by
  unfold descriptors
  rw [ioFd, perf]

/-- What is read between two system calls opens and closes nothing. -/
theorem publish_quiet (r : SlotRecord) (now : UInt64) :
    handleOps (publish r now).2 = [] ∧
      (publish r now).1.descriptors = r.descriptors := by
  unfold publish
  split <;> exact ⟨rfl, rfl⟩

theorem takeSample_handleOps
    (r : SlotRecord)
    (hw : RawCounters)
    (readings : SlowReadings)
    (now : UInt64)
    (dt : ℚ)
    (displayed : Bool) :
    handleOps (takeSample r hw readings now dt displayed).2 =
        (procIoStep r.state readings).ops.map FdOp.handleOp ∧
      (takeSample r hw readings now dt displayed).1.descriptors =
        validFds [(procIoStep r.state readings).state.ioFd] ++
          validFds r.perf.fields := by
  unfold takeSample
  obtain ⟨quiet, same⟩ := publish_quiet (resampled r hw readings dt) now
  obtain ⟨comm, named⟩ := refreshComm_eq
    (publish (resampled r hw readings dt) now).1 readings displayed
  refine ⟨?_, ?_⟩
  · simp only [handleOps_append, handleOps_fds, quiet, List.append_nil]
    exact List.append_nil _
  · rw [← validFds_append]
    dsimp only
    rw [named]
    exact same

/-- A write to a slot exchanges some of its descriptors for others. -/
theorem SlotWrite.apply_handleOps
    {write : SlotWrite}
    {r after : SlotRecord}
    {events : List Event}
    (wrote : write.apply r = some (after, events)) :
    ∃ kept closed opened : List Int,
      handleOps events = closed.map .release ++ opened.map .acquire ∧
      (r.descriptors : Multiset Int) = kept + closed ∧
      (after.descriptors : Multiset Int) = kept + opened := by
  have unchanged (quiet : handleOps events = [])
      (same : after.descriptors = r.descriptors) :
      ∃ kept closed opened : List Int,
        handleOps events = closed.map .release ++ opened.map .acquire ∧
        (r.descriptors : Multiset Int) = kept + closed ∧
        (after.descriptors : Multiset Int) = kept + opened := by
    refine ⟨r.descriptors, [], [], quiet, (add_zero _).symm, ?_⟩
    rw [same]
    exact (add_zero _).symm
  cases write with
  | slow readings now dt displayed =>
      obtain ⟨hw, _, ⟨_, rfl, rfl⟩ | ⟨_, _, rfl, rfl⟩⟩ := SlotWrite.slow_cases wrote
      · exact unchanged rfl rfl
      · obtain ⟨calls, held⟩ := takeSample_handleOps r hw readings now dt displayed
        obtain ⟨closed, opened, ops, exchange⟩ := procIoStep_handleOps r.state readings
        have fields : r.descriptors =
            validFds [r.state.ioFd] ++ validFds r.perf.fields :=
          validFds_append [r.state.ioFd] r.perf.fields
        rcases exchange with ⟨old, new⟩ | ⟨rfl, rfl, same⟩
        · refine ⟨validFds r.perf.fields, closed, opened, calls.trans ops, ?_, ?_⟩
          · rw [fields, old]
            exact Multiset.coe_eq_coe.mpr List.perm_append_comm
          · rw [held, new]
            exact Multiset.coe_eq_coe.mpr List.perm_append_comm
        · apply unchanged (calls.trans ops)
          rw [held, same, fields]
  | fast now =>
      simp only [apply, Option.some.injEq] at wrote
      unfold fastVisit at wrote
      split at wrote
      · cases wrote
        exact unchanged rfl rfl
      · cases wrote
        exact unchanged rfl rfl
  | mark active =>
      cases wrote
      exact unchanged rfl rfl

/-! ## The table owns what is open -/

/-- No close of a log is of a descriptor that is not open, and the open ones are
those of the live slots. -/
def Owned (w : World) : Prop :=
  Keeps ∅ (handleOps w.log) w.daemon.descriptors

/-- No open of a log answers a descriptor that is open. -/
def OpensFresh (w : World) : Prop := AcquiresFresh ∅ (handleOps w.log)

theorem Daemon.descriptorsAt_of_lt
    (s : Daemon)
    (i : Fin maxPids) :
    s.descriptorsAt i.val = (s.slot i).descriptors := by
  unfold descriptorsAt
  rw [dif_pos i.isLt]

/-- Tables with the same live records hold the same descriptors. -/
theorem Daemon.descriptors_congr
    {s t : Daemon}
    (nActive : t.gNActive = s.gNActive)
    (slots : ∀ j : Fin maxPids, j.val < s.gNActive →
      (t.slot j).descriptors = (s.slot j).descriptors) :
    t.descriptors = s.descriptors := by
  unfold descriptors
  rw [nActive]
  apply Finset.sum_congr rfl
  intro j inside
  have below := Finset.mem_range.mp inside
  have same := slots ⟨j, below.trans_le s.gNActive_le⟩ below
  rw [← descriptorsAt_of_lt, ← descriptorsAt_of_lt] at same
  exact congrArg _ same

/-- One more slot holds its own descriptors. -/
theorem Daemon.descriptors_append
    {s t : Daemon}
    {r : SlotRecord}
    (nActive : t.gNActive = s.gNActive + 1)
    (slots : ∀ j, t.slot j = if j.val = s.gNActive then r else s.slot j) :
    t.descriptors = s.descriptors + r.descriptors := by
  have room : s.gNActive < maxPids := by
    have bounded := t.gNActive_le
    omega
  unfold descriptors
  rw [nActive, Finset.sum_range_succ]
  congr 1
  · apply Finset.sum_congr rfl
    intro j inside
    have below := Finset.mem_range.mp inside
    have old := slots ⟨j, below.trans room⟩
    rw [if_neg (Nat.ne_of_lt below)] at old
    have same := congrArg SlotRecord.descriptors old
    rw [← descriptorsAt_of_lt, ← descriptorsAt_of_lt] at same
    exact congrArg _ same
  · have new := slots ⟨s.gNActive, room⟩
    rw [if_pos rfl] at new
    have same := congrArg SlotRecord.descriptors new
    rw [← descriptorsAt_of_lt] at same
    exact congrArg _ same

/-- Where one slot is overwritten, the others hold what they held. -/
theorem Daemon.descriptors_write
    {s t : Daemon}
    {i : Fin maxPids}
    {r : SlotRecord}
    (below : i.val < s.gNActive)
    (nActive : t.gNActive = s.gNActive)
    (slots : ∀ j, t.slot j = if j = i then r else s.slot j) :
    ∃ others : Multiset Int,
      s.descriptors = others + (s.slot i).descriptors ∧
      t.descriptors = others + r.descriptors := by
  have member : i.val ∈ Finset.range s.gNActive := Finset.mem_range.mpr below
  have here := congrArg SlotRecord.descriptors (slots i)
  rw [if_pos rfl, ← descriptorsAt_of_lt] at here
  refine ⟨∑ j ∈ (Finset.range s.gNActive).erase i.val,
    (s.descriptorsAt j : Multiset Int), ?_, ?_⟩
  · unfold descriptors
    rw [← Finset.sum_erase_add _ _ member, descriptorsAt_of_lt]
  · unfold descriptors
    rw [nActive, ← Finset.sum_erase_add _ _ member, here]
    congr 1
    apply Finset.sum_congr rfl
    intro j other
    have inside := Finset.mem_range.mp (Finset.mem_of_mem_erase other)
    have old := slots ⟨j, inside.trans_le s.gNActive_le⟩
    rw [if_neg (Fin.ne_of_val_ne (Finset.ne_of_mem_erase other))] at old
    have same := congrArg SlotRecord.descriptors old
    rw [← descriptorsAt_of_lt, ← descriptorsAt_of_lt] at same
    exact congrArg _ same

/-- A removed slot takes its descriptors along, wherever the last one goes. -/
theorem Daemon.descriptors_remove
    {s t : Daemon}
    {i : Fin maxPids}
    (below : i.val < s.gNActive)
    (nActive : t.gNActive = s.gNActive - 1)
    (slots : ∀ j : Fin maxPids, j.val < s.gNActive - 1 →
      t.slot j = if j.val = i.val then s.slot s.lastIndex else s.slot j) :
    s.descriptors = t.descriptors + (s.slot i).descriptors := by
  unfold descriptors
  rw [sum_range_swapRemove _ below, nActive, descriptorsAt_of_lt]
  congr 1
  apply Finset.sum_congr rfl
  intro j inside
  have remains := Finset.mem_range.mp inside
  have bounded := s.gNActive_le
  have moved := congrArg SlotRecord.descriptors (slots ⟨j, by omega⟩ remains)
  rw [← descriptorsAt_of_lt, apply_ite SlotRecord.descriptors, ← descriptorsAt_of_lt,
    ← descriptorsAt_of_lt] at moved
  rw [← apply_ite (fun fds : List Int => (fds : Multiset Int))]
  exact congrArg _ moved.symm

namespace Owned

variable {w : World}

theorem start : Owned ⟨Daemon.start, []⟩ := Keeps.nil

/-- `add_pid` owns what it opened, and closed it again where it fails. -/
theorem addPid
    (owned : Owned w)
    (pid : Int)
    (readings : AddReadings)
    (fresh : OpensFresh (Schedmon.addPid w pid readings).2) :
    Owned (Schedmon.addPid w pid readings).2 := by
  have outcome := addPid_outcome w pid readings
  generalize Schedmon.addPid w pid readings = result at outcome fresh ⊢
  unfold OpensFresh at fresh
  unfold Owned
  cases outcome with
  | success room opens daemon nActive slots statics =>
      have calls : handleOps (w.log ++ (addOps pid readings).map (Event.fd pid) ++
          [.added pid readings]) = handleOps w.log ++
            (validFds (openedPerf pid readings).fields ++
              validFds [readings.ioFd.toFd]).map .acquire := by
        rw [handleOps_append, handleOps_append, handleOps_fds, addOps_handleOps opens]
        exact List.append_nil _
      dsimp only at fresh ⊢
      rw [calls, acquiresFresh_append] at fresh
      rw [calls, Daemon.descriptors_append nActive slots, freshRecord_descriptors]
      exact Keeps.acquire owned _ fresh.2
  | failure refused daemon ops traced nActive slots statics =>
      dsimp only at fresh ⊢
      rw [Daemon.descriptors_congr nActive fun j below =>
        congrArg SlotRecord.descriptors (slots j below)]
      rw [handleOps_append, handleOps_fds] at fresh ⊢
      rcases traced with rfl | rfl
      · rw [List.map_nil, List.append_nil]
        exact owned
      · obtain ⟨opened, closed, calls, same⟩ := failedAddOps_handleOps pid readings
        rw [calls, ← List.append_assoc] at fresh ⊢
        rw [acquiresFresh_append, acquiresFresh_append] at fresh
        apply Keeps.release
        rw [← Multiset.coe_eq_coe.mpr same]
        exact Keeps.acquire owned opened fresh.1.2

/-- `remove_slot` closes what its slot owned. -/
theorem removeSlot
    (owned : Owned w)
    {i : Nat}
    (below : i < w.daemon.gNActive) :
    Owned (Schedmon.removeSlot w i below) := by
  have quiet : handleOps [.removed (w.daemon.slot (w.daemon.live below)).pid] = [] := rfl
  unfold Owned
  rw [removeSlot_log, handleOps_append, handleOps_append, handleOps_fds, quiet,
    removeOps_handleOps, List.append_nil]
  apply Keeps.release
  rw [← Daemon.descriptors_remove (i := w.daemon.live below) below
    (removeSlot_gNActive below) (removeSlot_slot below)]
  exact owned

/-- A write to a slot owns what it exchanged. -/
theorem write
    (owned : Owned w)
    {i : Fin maxPids}
    (below : i.val < w.daemon.gNActive)
    {write : SlotWrite}
    {after : SlotRecord}
    {events : List Event}
    (wrote : write.apply (w.daemon.slot i) = some (after, events))
    (fresh : OpensFresh (w.putSlot i after events)) :
    Owned (w.putSlot i after events) := by
  obtain ⟨kept, closed, opened, calls, old, new⟩ := SlotWrite.apply_handleOps wrote
  obtain ⟨others, before, later⟩ := Daemon.descriptors_write
    (t := (w.putSlot i after events).daemon) below rfl
    fun j => w.daemon.slot_setSlot i j after
  have log : handleOps (w.putSlot i after events).log =
      handleOps w.log ++ closed.map .release ++ opened.map .acquire := by
    change handleOps (w.log ++ events) = _
    rw [handleOps_append, calls, List.append_assoc]
  unfold Owned at owned ⊢
  unfold OpensFresh at fresh
  rw [log, acquiresFresh_append] at fresh
  rw [before, old, ← add_assoc] at owned
  rw [log, later, new, ← add_assoc]
  exact Keeps.acquire (Keeps.release closed owned) opened fresh.2

end Owned

/-! ## Runs and the end of the daemon -/

/-- Perform an operation on the table, `add_pid` whether or not the pid is
tracked. -/
def descriptorStep : TableOp → World → Option World
  | .addPid pid readings, w => some (Schedmon.addPid w pid readings).2
  | op, w => tableStep op w

/-- One iteration of the loop of `cleanup`. -/
def cleanupSlot (w : World) (i : Fin maxPids) : World :=
  ({ w with daemon := w.daemon.closeSlot i } : World).emitFds (w.daemon.gStates i).pid
    (closeFd (w.daemon.gStates i).ioFd ++ (perfCounterClose (w.daemon.gPerf i)).2)

/-- The loop of `cleanup`, over the first `bound` slots. -/
def cleanupBelow (w : World) : Nat → World
  | 0 => w
  | bound + 1 =>
      if inside : bound < maxPids then
        cleanupSlot (cleanupBelow w bound) ⟨bound, inside⟩
      else cleanupBelow w bound

/-- `cleanup`. -/
def cleanup (w : World) : World := cleanupBelow w w.daemon.gNActive

theorem descriptorStep_log
    {op : TableOp}
    {w next : World}
    (taken : descriptorStep op w = some next) :
    ∃ events, next.log = w.log ++ events := by
  cases op with
  | addPid pid readings =>
      cases taken
      have outcome := addPid_outcome w pid readings
      generalize Schedmon.addPid w pid readings = result at outcome ⊢
      cases outcome with
      | success => exact ⟨_, List.append_assoc _ _ _⟩
      | failure => exact ⟨_, rfl⟩
  | removeSlot i =>
      simp only [descriptorStep, tableStep] at taken
      split at taken
      · next below =>
          cases taken
          exact ⟨_, (removeSlot_log below).trans (List.append_assoc _ _ _)⟩
      · cases taken
  | write i write =>
      simp only [descriptorStep, tableStep] at taken
      split at taken
      · obtain ⟨result, _, equal⟩ := Option.map_eq_some_iff.mp taken
        subst equal
        exact ⟨result.2, rfl⟩
      · cases taken

/-- Every operation keeps the table the owner of what is open. -/
theorem descriptorStep_owned
    (op : TableOp)
    (w next : World)
    (owned : OpensFresh w → Owned w)
    (taken : descriptorStep op w = some next)
    (fresh : OpensFresh next) :
    Owned next := by
  have before : Owned w := by
    apply owned
    obtain ⟨events, log⟩ := descriptorStep_log taken
    unfold OpensFresh at fresh
    rw [log, handleOps_append, acquiresFresh_append] at fresh
    exact fresh.1
  cases op with
  | addPid pid readings =>
      cases taken
      exact before.addPid pid readings fresh
  | removeSlot i =>
      simp only [descriptorStep, tableStep] at taken
      split at taken
      · next below =>
          cases taken
          exact before.removeSlot below
      · cases taken
  | write i write =>
      simp only [descriptorStep, tableStep] at taken
      split at taken
      · next below =>
          obtain ⟨⟨after, events⟩, wrote, equal⟩ := Option.map_eq_some_iff.mp taken
          subst equal
          exact before.write (i := w.daemon.live below) below wrote fresh
      · cases taken

theorem Daemon.closeSlot_descriptors (s : Daemon) (i : Fin maxPids) :
    ((s.closeSlot i).slot i).descriptors = [] := by
  unfold closeSlot slot SlotRecord.descriptors perfCounterClose
  dsimp only
  simp only [Function.update_self]
  split
  · simp only [Function.update_self]
    rfl
  · next invalid =>
      simp [validFds, PerfCounter.closed, invalid]

@[simp] theorem Daemon.closeSlot_gNActive (s : Daemon) (i : Fin maxPids) :
    (s.closeSlot i).gNActive = s.gNActive := by
  unfold closeSlot
  dsimp only
  split <;> rfl

theorem Owned.cleanupSlot
    {w : World}
    (owned : Owned w)
    {i : Fin maxPids}
    (below : i.val < w.daemon.gNActive) :
    Owned (Schedmon.cleanupSlot w i) := by
  obtain ⟨others, before, after⟩ := Daemon.descriptors_write (s := w.daemon)
    (t := w.daemon.closeSlot i) (r := (w.daemon.closeSlot i).slot i) below
    (w.daemon.closeSlot_gNActive i) (by
      intro j
      split
      · next same => rw [same]
      · next different => exact Daemon.slot_closeSlot _ different)
  have log : handleOps (Schedmon.cleanupSlot w i).log =
      handleOps w.log ++ (w.daemon.slot i).descriptors.map .release := by
    rw [← removeOps_handleOps, ← handleOps_fds, ← handleOps_append]
    rfl
  have daemon : (Schedmon.cleanupSlot w i).daemon = w.daemon.closeSlot i := rfl
  rw [Daemon.closeSlot_descriptors, Multiset.coe_nil, add_zero] at after
  unfold Owned at owned ⊢
  rw [before] at owned
  rw [log, daemon, after]
  exact Keeps.release _ owned

/-- The loop of `cleanup` closes what it has passed, and nothing else. -/
theorem Owned.cleanupBelow
    {w : World}
    (owned : Owned w)
    (bound : Nat)
    (live : bound ≤ w.daemon.gNActive) :
    Owned (Schedmon.cleanupBelow w bound) ∧
      (Schedmon.cleanupBelow w bound).daemon.gNActive = w.daemon.gNActive ∧
      ∀ j : Fin maxPids, j.val < bound →
        ((Schedmon.cleanupBelow w bound).daemon.slot j).descriptors = [] := by
  induction bound with
  | zero => exact ⟨owned, rfl, fun j below => absurd below (Nat.not_lt_zero _)⟩
  | succ bound inductionHypothesis =>
      obtain ⟨earlier, nActive, passed⟩ := inductionHypothesis (Nat.le_of_succ_le live)
      have inside : bound < maxPids := live.trans w.daemon.gNActive_le
      unfold Schedmon.cleanupBelow
      rw [dif_pos inside]
      generalize Schedmon.cleanupBelow w bound = current at earlier nActive passed ⊢
      have below : bound < current.daemon.gNActive := by omega
      refine ⟨earlier.cleanupSlot (i := ⟨bound, inside⟩) below, ?_, ?_⟩
      · exact (current.daemon.closeSlot_gNActive _).trans nActive
      · intro j below
        change ((current.daemon.closeSlot ⟨bound, inside⟩).slot j).descriptors = []
        rcases Nat.lt_succ_iff_lt_or_eq.mp below with old | here
        · rw [Daemon.slot_closeSlot _ (Fin.ne_of_val_ne (Nat.ne_of_lt old))]
          exact passed j old
        · have same : j = ⟨bound, inside⟩ := Fin.ext here
          rw [same]
          exact current.daemon.closeSlot_descriptors _

/-- After `cleanup` no descriptor is open. -/
theorem Owned.cleanup
    {w : World}
    (owned : Owned w) :
    ReleasesHeld ∅ (handleOps (Schedmon.cleanup w).log) ∧
      openDescriptors (Schedmon.cleanup w).log = ∅ := by
  obtain ⟨kept, nActive, closed⟩ := owned.cleanupBelow w.daemon.gNActive le_rfl
  refine ⟨kept.releases, ?_⟩
  rw [← Finset.val_eq_zero]
  have owns := kept.owns
  unfold Daemon.descriptors at owns
  refine owns.trans (Finset.sum_eq_zero ?_)
  intro j inside
  have below := Finset.mem_range.mp inside
  rw [nActive] at below
  have empty := closed ⟨j, below.trans_le w.daemon.gNActive_le⟩ below
  rw [← Daemon.descriptorsAt_of_lt] at empty
  exact congrArg _ empty

/-- What the live slots own, they own alone. -/
theorem Owned.unshared
    {w : World}
    (owned : Owned w) :
    (∀ i : Fin maxPids, i.val < w.daemon.gNActive →
      (w.daemon.slot i).descriptors.Nodup) ∧
      ∀ i j : Fin maxPids, i.val < w.daemon.gNActive → j.val < w.daemon.gNActive →
        ∀ fd ∈ (w.daemon.slot i).descriptors, fd ∈ (w.daemon.slot j).descriptors →
          i = j := by
  obtain ⟨each, apart⟩ := nodup_sum_range owned.nodup
  refine ⟨?_, ?_⟩
  · intro i live
    rw [← Daemon.descriptorsAt_of_lt]
    exact each i.val live
  · intro i j iLive jLive fd mine yours
    by_contra different
    rw [← Daemon.descriptorsAt_of_lt] at mine yours
    exact Multiset.disjoint_left.mp
      (apart i.val j.val iLive jLive (Fin.val_ne_of_ne different)) mine yours

theorem Owned.mem_openDescriptors
    {w : World}
    (owned : Owned w)
    (fd : Int) :
    fd ∈ openDescriptors w.log ↔
      ∃ i : Fin maxPids, i.val < w.daemon.gNActive ∧
        fd ∈ (w.daemon.slot i).descriptors := by
  rw [openDescriptors, owned.mem_iff]
  unfold Daemon.descriptors
  rw [Multiset.mem_sum]
  constructor
  · rintro ⟨j, inside, held⟩
    have below := Finset.mem_range.mp inside
    refine ⟨⟨j, below.trans_le w.daemon.gNActive_le⟩, below, ?_⟩
    rwa [← Daemon.descriptorsAt_of_lt]
  · rintro ⟨i, live, held⟩
    refine ⟨i.val, Finset.mem_range.mpr live, ?_⟩
    rwa [Daemon.descriptorsAt_of_lt]

/-- Through any history of the table, whichever opens fail, no descriptor is
closed twice, the open ones are those of the live slots, no two fields share
one, and none is open after `cleanup`. -/
theorem descriptors_owned
    (ops : List TableOp)
    (w : World)
    (run : runActions descriptorStep ops ⟨Daemon.start, []⟩ = some w)
    (fresh : OpensFresh w) :
    ReleasesHeld ∅ (handleOps (cleanup w).log) ∧
      openDescriptors (cleanup w).log = ∅ ∧
      (∀ fd, fd ∈ openDescriptors w.log ↔
        ∃ i : Fin maxPids, i.val < w.daemon.gNActive ∧
          fd ∈ (w.daemon.slot i).descriptors) ∧
      (∀ i : Fin maxPids, i.val < w.daemon.gNActive →
        (w.daemon.slot i).descriptors.Nodup) ∧
      ∀ i j : Fin maxPids, i.val < w.daemon.gNActive → j.val < w.daemon.gNActive →
        ∀ fd ∈ (w.daemon.slot i).descriptors, fd ∈ (w.daemon.slot j).descriptors →
          i = j := by
  have owned : Owned w :=
    runActions_invariant (fun w => OpensFresh w → Owned w) descriptorStep_owned
      (fun _ => Owned.start) run fresh
  obtain ⟨once, none⟩ := owned.cleanup
  exact ⟨once, none, owned.mem_openDescriptors, owned.unshared⟩

/-- A pass whose read of the `io` file fails, and which opens it again. -/
def reopeningReadings : SlowReadings where
  hw := { plain := none, group := some [] }
  ctx := 0
  ioWaitNs := 0
  rqWaitNs := 0
  procIo := { result := procIoReadFail, syscallBytes := none }
  reopened := .ok 6
  procIoAgain := { result := 0, syscallBytes := some 0 }
  io := 0
  lastCpu := -1
  execComm := none

/-- A slot is added; an add fails at its third counter; a slot with only the
software clock is added; the first slot's file is opened again, and the slot is
removed. -/
def failingOps : List TableOp :=
  [.addPid 10 plainAddReadings,
    .addPid 11
      { plainAddReadings with
        perf :=
          { plainAddReadings.perf with
            hwCycles := .ok 7
            hwInstr := .ok 8
            hwLlc := .error .emfile } },
    .addPid 12
      { plainAddReadings with
        perf :=
          { plainAddReadings.perf with
            hwCycles := .error .other
            swClock := .ok 7 }
        ioFd := .error .other },
    .write 0 (.slow reopeningReadings 0 1 false),
    .removeSlot 0]

theorem descriptors_owned_failing :
    ∃ w, runActions descriptorStep failingOps ⟨Daemon.start, []⟩ = some w ∧
      openDescriptors w.log = {7} ∧ openDescriptors (cleanup w).log = ∅ := by
  refine ⟨_, rfl, by decide +kernel, ?_⟩
  exact (descriptors_owned failingOps _ rfl (by unfold OpensFresh; decide +kernel)).2.1

end Schedmon
