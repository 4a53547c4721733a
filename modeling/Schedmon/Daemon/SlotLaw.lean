import Schedmon.Daemon.History
import Schedmon.Daemon.Sync

/-!
# Laws of the slots over whole runs

A law of the slots says what holds of a slot's record and the log in each phase
of a tick, and what holds of the log before each event.  If every operation on
a single slot keeps the law, then every run of the main loop keeps it, whatever
slots are added, removed or moved.
-/

namespace Schedmon

open Library EventLog

/-- Where a slot is in the current tick. -/
inductive SlotPhase
  /-- Between ticks. -/
  | rested
  /-- In a slow tick, before the slow path has come to the slot. -/
  | due
  /-- Before the fast path has come to the slot. -/
  | visited
  deriving DecidableEq

/-- A law of the slots that every operation on a slot keeps. -/
structure SlotLaw (cfg : DaemonConfig) where
  /-- What holds of the record of a tracked pid. -/
  holds : SlotPhase → List Event → SlotRecord → Prop
  /-- What holds of a pid that is not tracked. -/
  absent : List Event → Int → Prop := fun _ _ => True
  /-- What holds of the log before an event. -/
  law : List Event → Event → Prop
  /-- What happens to other pids does not matter. -/
  frame : ∀ phase log r e pid, e.pid? = some pid → pid ≠ r.pid →
    holds phase log r → holds phase (log ++ [e]) r
  absentFrame : ∀ log other e pid, e.pid? = some pid → pid ≠ other →
    absent log other → absent (log ++ [e]) other := by
      intros
      trivial
  absentStart : ∀ pid, absent [] pid := by
    intros
    trivial
  absentTick : ∀ log pid now slow, absent log pid →
    absent (log ++ [.tick now slow]) pid := by
      intros
      trivial
  tick : ∀ log now slow,
    (∀ pid, absent log pid ∨ ∃ r, r.pid = pid ∧ holds .rested log r) →
      law log (.tick now slow)
  startSlow : ∀ log r now, holds .rested log r →
    holds .due (log ++ [.tick now true]) r
  startFast : ∀ log r now, holds .rested log r →
    holds .visited (log ++ [.tick now false]) r
  mark : ∀ log r active, holds .due log r → holds .due log (r.setActive active)
  refused : ∀ log pid readings, trackedIn log pid = false → absent log pid →
    Along law log ((failedAddOps pid readings).map (Event.fd pid)) ∧
      absent (log ++ (failedAddOps pid readings).map (Event.fd pid)) pid
  added : ∀ log pid readings, trackedIn log pid = false → absent log pid →
    InSlowTick log → (cfg.pids ≠ [] → pid ∈ cfg.pids) → perfOpens readings = true →
      Along law log
          ((addOps pid readings).map (Event.fd pid) ++ [.added pid readings]) ∧
        holds .due
          (log ++ ((addOps pid readings).map (Event.fd pid) ++
            [.added pid readings]))
          (freshRecord pid readings)
  removed : ∀ log r, trackedIn log r.pid = true → holds .due log r →
    Along law log ((removeOps r).map (Event.fd r.pid) ++ [.removed r.pid]) ∧
      absent (log ++ ((removeOps r).map (Event.fd r.pid) ++ [.removed r.pid]))
        r.pid
  visit : ∀ log r readings displayed after events,
    trackedIn log r.pid = true → InSlowTick log → holds .due log r →
      (SlotWrite.slow readings (currentTime log) (slowInterval (slowTimes log))
        displayed).apply r = some (after, events) →
        Along law log events ∧ holds .visited (log ++ events) after
  fast : ∀ log r, trackedIn log r.pid = true → holds .visited log r →
    Along law log (fastVisit r (currentTime log)).2 ∧
      holds .rested (log ++ (fastVisit r (currentTime log)).2)
        (fastVisit r (currentTime log)).1

section

variable {cfg : DaemonConfig} {L : SlotLaw cfg}

theorem SlotLaw.frame_append
    (L : SlotLaw cfg)
    {phase : SlotPhase}
    {log events : List Event}
    {r : SlotRecord}
    {pid : Int}
    (about : ∀ e ∈ events, e.pid? = some pid)
    (other : pid ≠ r.pid)
    (holds : L.holds phase log r) :
    L.holds phase (log ++ events) r := by
  induction events generalizing log with
  | nil => simpa using holds
  | cons e rest inductionHypothesis =>
      rw [List.append_cons]
      apply inductionHypothesis
      · intro later member
        exact about later (List.mem_cons_of_mem e member)
      · exact L.frame phase log r e pid (about e List.mem_cons_self) other holds

theorem SlotLaw.absentFrame_append
    (L : SlotLaw cfg)
    {log events : List Event}
    {other pid : Int}
    (about : ∀ e ∈ events, e.pid? = some pid)
    (different : pid ≠ other)
    (absent : L.absent log other) :
    L.absent (log ++ events) other := by
  induction events generalizing log with
  | nil => simpa using absent
  | cons e rest inductionHypothesis =>
      rw [List.append_cons]
      apply inductionHypothesis
      · intro later member
        exact about later (List.mem_cons_of_mem e member)
      · exact L.absentFrame log other e pid (about e List.mem_cons_self) different
          absent

/-- The law at a point of a tick: each slot is in its phase, and the ticks so
far are those of a given log. -/
structure Governed (L : SlotLaw cfg) (phase : Nat → SlotPhase)
    (base : List Event) (w : World) : Prop where
  distinct : w.daemon.Distinct
  tracks : w.Tracks
  named : ∀ i : Fin maxPids, i.val < w.daemon.gNActive → (w.daemon.slot i).Named
  slots : ∀ i : Fin maxPids, i.val < w.daemon.gNActive →
    L.holds (phase i.val) w.log (w.daemon.slot i)
  absent : ∀ pid, pid ∉ w.daemon.pids → L.absent w.log pid
  laws : EachEvent L.law w.log
  ticks_eq : ticks w.log = ticks base

variable {phase : Nat → SlotPhase} {base : List Event} {w : World}

/-- A live slot's pid is tracked according to the log. -/
theorem Governed.tracked
    (governed : Governed L phase base w)
    {i : Fin maxPids}
    (below : i.val < w.daemon.gNActive) :
    trackedIn w.log (w.daemon.slot i).pid = true :=
  (governed.tracks _).mpr (Daemon.mem_pids.mpr ⟨i, below, rfl⟩)

/-- A pid without a slot is not tracked according to the log. -/
theorem Governed.untracked
    (governed : Governed L phase base w)
    {pid : Int}
    (absent : pid ∉ w.daemon.pids) :
    trackedIn w.log pid = false := by
  rw [← Bool.not_eq_true]
  exact (governed.tracks pid).not.mpr absent

/-- A step whose events are about one pid: every other pid keeps its record in
its phase, and the slot of this pid, if it has one, is given. -/
theorem Governed.step
    (governed : Governed L phase base w)
    {next : World}
    {after : Nat → SlotPhase}
    {pid : Int}
    {events : List Event}
    (distinct : next.daemon.Distinct)
    (log : next.log = w.log ++ events)
    (about : ∀ e ∈ events, e.pid? = some pid)
    (lawful : Along L.law w.log events)
    (kept : ∀ other, other ≠ pid →
      next.daemon.lookup other = w.daemon.lookup other)
    (tracked : trackedIn (w.log ++ events) pid = true ↔ pid ∈ next.daemon.pids)
    (origin : ∀ j : Fin maxPids, j.val < next.daemon.gNActive →
      (next.daemon.slot j).pid ≠ pid →
        ∃ k : Fin maxPids, k.val < w.daemon.gNActive ∧
          after j.val = phase k.val ∧ next.daemon.slot j = w.daemon.slot k)
    (own : ∀ j : Fin maxPids, j.val < next.daemon.gNActive →
      (next.daemon.slot j).pid = pid →
        (next.daemon.slot j).Named ∧
          L.holds (after j.val) (w.log ++ events) (next.daemon.slot j))
    (gone : pid ∉ next.daemon.pids → L.absent (w.log ++ events) pid) :
    Governed L after base next := by
  have keptPids (other : Int) (different : other ≠ pid) :
      other ∈ next.daemon.pids ↔ other ∈ w.daemon.pids := by
    rw [Daemon.mem_pids_iff_lookup, kept other different,
      ← Daemon.mem_pids_iff_lookup]
  refine ⟨distinct, ?_, ?_, ?_, ?_, ?_, ?_⟩
  · intro other
    rw [log]
    by_cases same : other = pid
    · rw [same]
      exact tracked
    · rw [keptPids other same, ← governed.tracks other,
        trackedIn_append_of_other w.log fun e member => by
          rw [about e member]
          exact fun equal => same (Option.some.inj equal).symm]
  · intro j live
    by_cases same : (next.daemon.slot j).pid = pid
    · exact (own j live same).1
    · obtain ⟨k, kLive, _, equal⟩ := origin j live same
      rw [equal]
      exact governed.named k kLive
  · intro j live
    rw [log]
    by_cases same : (next.daemon.slot j).pid = pid
    · exact (own j live same).2
    · obtain ⟨k, kLive, phases, equal⟩ := origin j live same
      rw [equal] at same ⊢
      rw [phases]
      exact L.frame_append about (Ne.symm same) (governed.slots k kLive)
  · intro other missing
    rw [log]
    by_cases same : other = pid
    · subst same
      exact gone missing
    · rw [keptPids other same] at missing
      exact L.absentFrame_append about (Ne.symm same) (governed.absent other missing)
  · rw [log, eachEvent_append]
    exact ⟨governed.laws, lawful⟩
  · rw [log, ticks_append_of_pid w.log about]
    exact governed.ticks_eq

/-- Changing variables that no slot and no event shows keeps the law. -/
theorem Governed.of_slots
    {next : World}
    (governed : Governed L phase base w)
    (nActive : next.daemon.gNActive = w.daemon.gNActive)
    (slots : ∀ i, next.daemon.slot i = w.daemon.slot i)
    (log : next.log = w.log) :
    Governed L phase base next := by
  obtain ⟨distinct, lookup⟩ :=
    governed.distinct.lookup_eq_of_slots nActive fun i _ => slots i
  refine ⟨distinct, ?_, ?_, ?_, ?_, ?_, ?_⟩
  · intro pid
    rw [log, Daemon.mem_pids_iff_lookup, lookup, ← Daemon.mem_pids_iff_lookup]
    exact governed.tracks pid
  · intro i below
    rw [slots]
    exact governed.named i (nActive ▸ below)
  · intro i below
    rw [slots, log]
    exact governed.slots i (nActive ▸ below)
  · intro pid missing
    rw [Daemon.mem_pids_iff_lookup, lookup, ← Daemon.mem_pids_iff_lookup] at missing
    rw [log]
    exact governed.absent pid missing
  · rw [log]
    exact governed.laws
  · rw [log]
    exact governed.ticks_eq

/-! ## The operations -/

/-- Starting a tick moves every slot to the phase of that tick. -/
theorem Governed.emitTick
    (governed : Governed L (fun _ => .rested) base w)
    (now : UInt64)
    (slow : Bool) :
    Governed L (fun _ => if slow then .due else .visited)
      (w.log ++ [.tick now slow]) (w.emit (.tick now slow)) := by
  refine ⟨governed.distinct, ?_, governed.named, ?_, ?_, ?_, rfl⟩
  · intro pid
    rw [World.emit_log, trackedIn_append_of_none _ (by simp [Event.tracks?])]
    exact governed.tracks pid
  · intro i below
    have rested := governed.slots i below
    cases slow with
    | true => exact L.startSlow _ _ now rested
    | false => exact L.startFast _ _ now rested
  · intro pid missing
    exact L.absentTick _ pid now slow (governed.absent pid missing)
  · rw [World.emit_log, eachEvent_append, along_singleton]
    refine ⟨governed.laws, L.tick _ now slow ?_⟩
    intro pid
    by_cases member : pid ∈ w.daemon.pids
    · obtain ⟨i, live, named⟩ := Daemon.mem_pids.mp member
      exact .inr ⟨w.daemon.slot i, named, governed.slots i live⟩
    · exact .inl (governed.absent pid member)

theorem addEvents_pid (pid : Int) (readings : AddReadings) :
    ∀ e ∈ (addOps pid readings).map (Event.fd pid) ++ [.added pid readings],
      e.pid? = some pid := by
  intro e member
  rcases List.mem_append.mp member with opened | last
  · exact fdEvents_pid pid _ e opened
  · rw [List.mem_singleton.mp last]
    rfl

theorem Governed.addPid
    (governed : Governed L (fun _ => .due) base w)
    (slow : InSlowTick base)
    {pid : Int}
    (absent : pid ∉ w.daemon.pids)
    (candidate : cfg.pids ≠ [] → pid ∈ cfg.pids)
    (readings : AddReadings) :
    Governed L (fun _ => .due) base (Schedmon.addPid w pid readings).2 := by
  have untracked := governed.untracked absent
  have notOld (k : Fin maxPids) (kLive : k.val < w.daemon.gNActive) :
      (w.daemon.slot k).pid ≠ pid := fun equal =>
    absent (Daemon.mem_pids.mpr ⟨k, kLive, equal⟩)
  have effect := addPid_lookup readings governed.distinct absent
  have outcome := addPid_outcome w pid readings
  generalize Schedmon.addPid w pid readings = result at outcome effect ⊢
  obtain ⟨distinct, lookup⟩ := effect
  cases outcome with
  | success room opens daemon nActive slots statics =>
      obtain ⟨lawful, fresh⟩ := L.added w.log pid readings untracked
        (governed.absent pid absent) (slow.of_ticks governed.ticks_eq) candidate
        opens
      simp only [Option.isSome_some, if_true] at lookup
      refine governed.step distinct (List.append_assoc _ _ _)
        (addEvents_pid pid readings) lawful ?_ ?_ ?_ ?_ ?_
      · intro other different
        rw [lookup, Function.update_of_ne different]
      · rw [← List.append_assoc, trackedIn_added, Daemon.mem_pids_iff_lookup, lookup]
        simp
      · intro j live different
        dsimp only at live different ⊢
        rw [slots] at different ⊢
        by_cases last : j.val = w.daemon.gNActive
        · rw [if_pos last] at different
          exact absurd rfl different
        · rw [if_neg last]
          exact ⟨j, by omega, rfl, rfl⟩
      · intro j live same
        dsimp only at live same ⊢
        rw [slots] at same ⊢
        by_cases last : j.val = w.daemon.gNActive
        · rw [if_pos last]
          exact ⟨freshRecord_named _ _, fresh⟩
        · rw [if_neg last] at same
          exact absurd same (notOld j (by omega))
      · intro missing
        rw [Daemon.mem_pids_iff_lookup, lookup] at missing
        simp at missing
  | failure refused daemon ops traced nActive slots statics =>
      simp only [Option.isSome_none, Bool.false_eq_true, if_false] at lookup
      have old (j : Fin maxPids) (live : j.val < daemon.gNActive) :
          j.val < w.daemon.gNActive ∧ daemon.slot j = w.daemon.slot j := by
        rw [nActive] at live
        exact ⟨live, slots j live⟩
      obtain ⟨lawful, stillAbsent⟩ : Along L.law w.log (ops.map (Event.fd pid)) ∧
          L.absent (w.log ++ ops.map (Event.fd pid)) pid := by
        rcases traced with rfl | rfl
        · refine ⟨along_nil _ _, ?_⟩
          rw [List.map_nil, List.append_nil]
          exact governed.absent pid absent
        · exact L.refused w.log pid readings untracked (governed.absent pid absent)
      refine governed.step distinct rfl (fdEvents_pid pid ops) lawful ?_ ?_ ?_ ?_
        fun _ => stillAbsent
      · intro other _
        rw [lookup]
      · rw [trackedIn_append_of_none w.log (fdEvents_tracks pid pid ops), untracked,
          Daemon.mem_pids_iff_lookup, lookup, ← Daemon.mem_pids_iff_lookup]
        simpa using absent
      · intro j live _
        obtain ⟨below, equal⟩ := old j live
        exact ⟨j, below, rfl, equal⟩
      · intro j live same
        obtain ⟨below, equal⟩ := old j live
        dsimp only at same
        rw [equal] at same
        exact absurd same (notOld j below)

theorem removeEvents_pid (r : SlotRecord) :
    ∀ e ∈ (removeOps r).map (Event.fd r.pid) ++ [.removed r.pid],
      e.pid? = some r.pid := by
  intro e member
  rcases List.mem_append.mp member with closed | last
  · exact fdEvents_pid r.pid _ e closed
  · rw [List.mem_singleton.mp last]
    rfl

theorem Governed.removeSlot
    (governed : Governed L phase base w)
    {i : Nat}
    (below : i < w.daemon.gNActive)
    (dueHere : phase i = .due)
    (dueLast : phase (w.daemon.gNActive - 1) = .due) :
    Governed L phase base (Schedmon.removeSlot w i below) := by
  have here := governed.slots (w.daemon.live below) below
  have tracked := governed.tracked (i := w.daemon.live below) below
  obtain ⟨lawful, nowAbsent⟩ := L.removed w.log _ tracked (dueHere ▸ here)
  obtain ⟨distinct, lookup⟩ := removeSlot_lookup governed.distinct below
  -- a remaining slot holds an unmoved record or the last one
  have origin (j : Fin maxPids)
      (live : j.val < (Schedmon.removeSlot w i below).daemon.gNActive) :
      ∃ k : Fin maxPids, k.val < w.daemon.gNActive ∧ k.val ≠ i ∧
        phase j.val = phase k.val ∧
          (Schedmon.removeSlot w i below).daemon.slot j = w.daemon.slot k := by
    rw [removeSlot_gNActive] at live
    have lastVal : w.daemon.lastIndex.val = w.daemon.gNActive - 1 := rfl
    rw [removeSlot_slot below j live]
    by_cases moved : j.val = i
    · rw [if_pos moved]
      exact ⟨w.daemon.lastIndex, by omega, by omega,
        by rw [moved, dueHere, lastVal, dueLast], rfl⟩
    · rw [if_neg moved]
      exact ⟨j, by omega, moved, rfl, rfl⟩
  refine governed.step distinct
    ((removeSlot_log below).trans (List.append_assoc _ _ _))
    (removeEvents_pid _) lawful ?_ ?_ ?_ ?_ fun _ => nowAbsent
  · intro other different
    rw [lookup, Function.update_of_ne different]
  · rw [← List.append_assoc, trackedIn_removed, Daemon.mem_pids_iff_lookup, lookup]
    simp
  · intro j live _
    obtain ⟨k, kLive, _, phases, equal⟩ := origin j live
    exact ⟨k, kLive, phases, equal⟩
  · intro j live same
    obtain ⟨k, kLive, elsewhere, _, equal⟩ := origin j live
    rw [equal] at same
    have merged := governed.distinct k (w.daemon.live below) kLive below same
    exact absurd (congrArg Fin.val merged) elsewhere

/-- A sampling write to one slot moves that slot to its next phase. -/
theorem Governed.putSlot
    (governed : Governed L phase base w)
    {i : Nat}
    (below : i < w.daemon.gNActive)
    {write : SlotWrite}
    {r : SlotRecord}
    {events : List Event}
    (wrote : write.apply (w.daemon.slot (w.daemon.live below)) = some (r, events))
    {after : Nat → SlotPhase}
    (others : ∀ j, j ≠ i → after j = phase j)
    (lawful : Along L.law w.log events)
    (holds : L.holds (after i) (w.log ++ events) r) :
    Governed L after base (w.putSlot (w.daemon.live below) r events) := by
  have samePid := SlotWrite.apply_pid wrote
  obtain ⟨sampling, named⟩ := SlotWrite.apply_events
    (governed.named (w.daemon.live below) below) wrote
  obtain ⟨distinct, lookup⟩ :=
    putSlot_lookup governed.distinct (i := w.daemon.live below) below samePid events
  have slot (j : Fin maxPids) :
      (w.putSlot (w.daemon.live below) r events).daemon.slot j =
        if j = w.daemon.live below then r else w.daemon.slot j :=
    w.daemon.slot_setSlot _ j r
  refine governed.step distinct rfl (fun e member => (sampling e member).1) lawful
    ?_ ?_ ?_ ?_ ?_
  · intro other different
    rw [lookup, samePid, Function.update_of_ne different]
  · rw [trackedIn_append_of_none w.log fun e member => (sampling e member).2 _,
      governed.tracked (i := w.daemon.live below) below,
      Daemon.mem_pids_iff_lookup, lookup, samePid]
    simp
  · intro j live different
    rw [slot] at different ⊢
    by_cases here : j = w.daemon.live below
    · rw [if_pos here] at different
      exact absurd samePid different
    · rw [if_neg here]
      exact ⟨j, live, others j.val fun equal => here (Fin.ext equal), rfl⟩
  · intro j live same
    rw [slot] at same ⊢
    by_cases here : j = w.daemon.live below
    · rw [if_pos here]
      subst here
      exact ⟨named, holds⟩
    · rw [if_neg here] at same
      exact absurd (governed.distinct j (w.daemon.live below) live below same) here
  · intro missing
    rw [Daemon.mem_pids_iff_lookup, lookup, samePid] at missing
    simp at missing

end

end Schedmon
