import Schedmon.Daemon.SlotLaw

/-!
# Every run keeps a law of the slots

Each loop of a tick keeps the law and moves the slots it passes to their next
phase; so does a tick, and so does a run of any length.
-/

namespace Schedmon

open Library EventLog

section

variable {cfg : DaemonConfig} {L : SlotLaw cfg}
variable {phase : Nat → SlotPhase} {base : List Event} {w : World}

/-! ## The loops of `sync_pids` -/

/-- Setting marks keeps the law while the slots are due. -/
theorem Governed.setMarks
    {next : World}
    (governed : Governed L (fun _ => .due) base w)
    (nActive : next.daemon.gNActive = w.daemon.gNActive)
    (log : next.log = w.log)
    (slots : ∀ j : Fin maxPids, j.val < w.daemon.gNActive →
      ∃ active, next.daemon.slot j = (w.daemon.slot j).setActive active) :
    Governed L (fun _ => .due) base next := by
  have pids (j : Fin maxPids) (below : j.val < w.daemon.gNActive) :
      (next.daemon.slot j).pid = (w.daemon.slot j).pid := by
    obtain ⟨active, equal⟩ := slots j below
    rw [equal, SlotRecord.setActive_pid]
  have samePids (pid : Int) : pid ∈ next.daemon.pids ↔ pid ∈ w.daemon.pids := by
    rw [Daemon.mem_pids, Daemon.mem_pids, nActive]
    constructor
    · rintro ⟨j, below, equal⟩
      exact ⟨j, below, (pids j below).symm.trans equal⟩
    · rintro ⟨j, below, equal⟩
      exact ⟨j, below, (pids j below).trans equal⟩
  refine ⟨?_, ?_, ?_, ?_, ?_, ?_, ?_⟩
  · intro i j iLive jLive equal
    rw [nActive] at iLive jLive
    rw [pids i iLive, pids j jLive] at equal
    exact governed.distinct i j iLive jLive equal
  · intro pid
    rw [log, governed.tracks pid, samePids]
  · intro j live
    rw [nActive] at live
    obtain ⟨active, equal⟩ := slots j live
    rw [equal]
    exact governed.named j live
  · intro j live
    rw [nActive] at live
    obtain ⟨active, equal⟩ := slots j live
    rw [equal, log]
    exact L.mark _ _ active (governed.slots j live)
  · intro pid missing
    rw [log]
    exact governed.absent pid ((samePids pid).not.mp missing)
  · rw [log]
    exact governed.laws
  · rw [log]
    exact governed.ticks_eq

theorem Governed.markActive
    (governed : Governed L (fun _ => .due) base w)
    (i : Fin maxPids) :
    Governed L (fun _ => .due) base (Schedmon.markActive w i) := by
  refine governed.setMarks rfl rfl ?_
  intro j _
  rw [markActive_slot]
  split
  · next here =>
      subst here
      exact ⟨true, rfl⟩
  · exact ⟨(w.daemon.slot j).state.active, rfl⟩

theorem Governed.clearMarks
    (governed : Governed L (fun _ => .due) base w) :
    Governed L (fun _ => .due) base (Schedmon.clearMarks w) :=
  governed.setMarks rfl rfl fun _ live => ⟨false, clearMarks_slot w live⟩

theorem Governed.addMissing
    (env : SyncEnv)
    (position : Nat)
    (pids : List Int)
    (candidates : ∀ pid ∈ pids, cfg.pids ≠ [] → pid ∈ cfg.pids)
    (slow : InSlowTick base)
    (governed : Governed L (fun _ => .due) base w) :
    Governed L (fun _ => .due) base
      (Schedmon.addMissing env position pids w) := by
  induction pids generalizing position w with
  | nil => exact governed
  | cons pid rest inductionHypothesis =>
      unfold Schedmon.addMissing
      dsimp only
      apply inductionHypothesis (position + 1) fun other member =>
        candidates other (List.mem_cons_of_mem pid member)
      split
      · next untracked =>
          exact governed.addPid slow (Daemon.findSlot_eq_none_iff.mp untracked)
            (candidates pid List.mem_cons_self) _
      · exact governed

theorem Governed.addTop
    (env : SyncEnv)
    (position : Nat)
    (pids : List Int)
    (candidates : ∀ pid ∈ pids, cfg.pids ≠ [] → pid ∈ cfg.pids)
    (slow : InSlowTick base)
    (governed : Governed L (fun _ => .due) base w) :
    Governed L (fun _ => .due) base (Schedmon.addTop env position pids w) := by
  induction pids generalizing position w with
  | nil => exact governed
  | cons pid rest inductionHypothesis =>
      unfold Schedmon.addTop
      dsimp only
      apply inductionHypothesis (position + 1) fun other member =>
        candidates other (List.mem_cons_of_mem pid member)
      cases found : w.daemon.findSlot pid with
      | some slot => exact governed.markActive slot
      | none =>
          have added := governed.addPid slow (Daemon.findSlot_eq_none_iff.mp found)
            (candidates pid List.mem_cons_self) (env.add position pid)
          dsimp only
          split
          · exact added.markActive _
          · exact added

theorem Governed.removeWhere
    (gone : PidState → Bool)
    (fuel i : Nat)
    (governed : Governed L (fun _ => .due) base w) :
    Governed L (fun _ => .due) base (Schedmon.removeWhere gone fuel i w) := by
  induction fuel generalizing i w with
  | zero => exact governed
  | succ fuel inductionHypothesis =>
      unfold Schedmon.removeWhere
      split
      · next below =>
          split
          · exact inductionHypothesis i (governed.removeSlot below rfl rfl)
          · exact inductionHypothesis (i + 1) governed
      · exact governed

theorem Governed.syncPids
    (qsort : Qsort)
    (env : SyncEnv)
    (slow : InSlowTick base)
    (governed : Governed L (fun _ => .due) base w) :
    Governed L (fun _ => .due) base (Schedmon.syncPids qsort cfg env w) := by
  unfold Schedmon.syncPids
  split
  · exact governed
  · unfold syncNow
    dsimp only
    split
    · apply Governed.removeWhere
      apply Governed.addMissing env 0 cfg.pids (fun _ member _ => member) slow
      exact governed.of_slots rfl (fun _ => rfl) rfl
    · next noPids =>
        have empty : cfg.pids = [] := List.length_eq_zero_iff.mp (by omega)
        apply Governed.removeWhere
        apply Governed.addTop env 0 _ (fun _ _ some => absurd empty some) slow
        apply Governed.clearMarks
        exact governed.of_slots rfl (fun _ => rfl) rfl

/-! ## The slow path -/

/-- The phases while the slow path is at slot `i`. -/
def slowPhases (i : Nat) (j : Nat) : SlotPhase :=
  if j < i then .visited else .due

theorem slowPhases_succ {i j : Nat} (other : j ≠ i) :
    slowPhases (i + 1) j = slowPhases i j := by
  unfold slowPhases
  have same : j < i + 1 ↔ j < i := by omega
  rw [if_congr same rfl rfl]

/-- Once every live slot has been passed, all are in the later phase. -/
theorem Governed.of_passed
    (governed : Governed L phase base w)
    (after : Nat → SlotPhase)
    (passed : ∀ j, j < w.daemon.gNActive → phase j = after j) :
    Governed L after base w :=
  { governed with
    slots := fun j live => passed j live ▸ governed.slots j live }

/-- One visit of the slow path that keeps the slot. -/
theorem Governed.slowVisit
    {i : Nat}
    (governed : Governed L (slowPhases i) base w)
    (slow : InSlowTick base)
    (below : i < w.daemon.gNActive)
    (readings : SlowReadings)
    (displayed : Bool)
    {r : SlotRecord}
    {events : List Event}
    (wrote : (SlotWrite.slow readings (currentTime base)
      (slowInterval (slowTimes base)) displayed).apply
        (w.daemon.slot (w.daemon.live below)) = some (r, events)) :
    Governed L (slowPhases (i + 1)) base
      (w.putSlot (w.daemon.live below) r events) := by
  have here := governed.slots (w.daemon.live below) below
  have dueHere : slowPhases i i = .due := if_neg (Nat.lt_irrefl i)
  have doneHere : slowPhases (i + 1) i = .visited := if_pos (Nat.lt_succ_self i)
  have sameTime := currentTime_eq_of_ticks governed.ticks_eq
  have sameSlow := slowTimes_eq_of_ticks governed.ticks_eq
  obtain ⟨lawful, holds⟩ := L.visit w.log _ readings displayed r events
    (governed.tracked (i := w.daemon.live below) below)
    (slow.of_ticks governed.ticks_eq) (dueHere ▸ here)
    (by rw [sameTime, sameSlow]; exact wrote)
  exact governed.putSlot below wrote (fun j other => slowPhases_succ other) lawful
    (doneHere ▸ holds)

theorem Governed.slowLoop
    (env : TickEnv)
    (displayLimit : Int)
    (slow : InSlowTick base)
    (now : currentTime base = env.now)
    (fuel i displayed : Nat)
    (enough : w.daemon.gNActive ≤ i + fuel)
    (governed : Governed L (slowPhases i) base w) :
    Governed L (fun _ => .visited) base
      (Schedmon.slowLoop env (slowInterval (slowTimes base)) displayLimit fuel i
        displayed w) := by
  induction fuel generalizing i displayed w with
  | zero => exact governed.of_passed _ fun j live => if_pos (by omega)
  | succ fuel inductionHypothesis =>
      unfold Schedmon.slowLoop
      split
      · next below =>
          dsimp only
          split
          · have dueLast : slowPhases i (w.daemon.gNActive - 1) = .due :=
              if_neg (by omega)
            apply inductionHypothesis i displayed
            · rw [removeSlot_gNActive]
              omega
            · exact governed.removeSlot below (if_neg (Nat.lt_irrefl i)) dueLast
          · next r events outcome =>
              apply inductionHypothesis (i + 1)
              · change w.daemon.gNActive ≤ _
                omega
              · exact governed.slowVisit slow below
                  (env.slow (w.daemon.slot (w.daemon.live below)).pid)
                  (decide ((displayed : Int) < displayLimit))
                  (by simp only [SlotWrite.apply, now, outcome])
          · next r events outcome =>
              apply inductionHypothesis (i + 1)
              · change w.daemon.gNActive ≤ _
                omega
              · exact governed.slowVisit slow below
                  (env.slow (w.daemon.slot (w.daemon.live below)).pid)
                  (decide ((displayed : Int) < displayLimit))
                  (by simp only [SlotWrite.apply, now, outcome])
      · exact governed.of_passed _ fun j live => if_pos (by omega)

/-! ## The fast path -/

/-- The phases while the fast path is at slot `i`. -/
def fastPhases (i : Nat) (j : Nat) : SlotPhase :=
  if j < i then .rested else .visited

theorem fastPhases_succ {i j : Nat} (other : j ≠ i) :
    fastPhases (i + 1) j = fastPhases i j := by
  unfold fastPhases
  have same : j < i + 1 ↔ j < i := by omega
  rw [if_congr same rfl rfl]

theorem Governed.fastLoop
    (now : UInt64)
    (sameTime : currentTime base = now)
    (fuel i : Nat)
    (enough : w.daemon.gNActive ≤ i + fuel)
    (governed : Governed L (fastPhases i) base w) :
    Governed L (fun _ => .rested) base (Schedmon.fastLoop now fuel i w) := by
  induction fuel generalizing i w with
  | zero => exact governed.of_passed _ fun j live => if_pos (by omega)
  | succ fuel inductionHypothesis =>
      unfold Schedmon.fastLoop
      split
      · next below =>
          have here := governed.slots (w.daemon.live below) below
          have dueHere : fastPhases i i = .visited := if_neg (Nat.lt_irrefl i)
          have doneHere : fastPhases (i + 1) i = .rested :=
            if_pos (Nat.lt_succ_self i)
          have logTime : currentTime w.log = now :=
            (currentTime_eq_of_ticks governed.ticks_eq).trans sameTime
          obtain ⟨lawful, holds⟩ := L.fast w.log _
            (governed.tracked (i := w.daemon.live below) below) (dueHere ▸ here)
          rw [logTime] at lawful holds
          have wrote : (SlotWrite.fast now).apply
              (w.daemon.slot (w.daemon.live below)) =
                some (fastVisit (w.daemon.slot (w.daemon.live below)) now) := rfl
          apply inductionHypothesis (i + 1)
          · change w.daemon.gNActive ≤ _
            omega
          · exact governed.putSlot below wrote
              (fun j other => fastPhases_succ other) lawful (doneHere ▸ holds)
      · exact governed.of_passed _ fun j live => if_pos (by omega)

end

/-! ## Ticks and runs -/

/-- The variables that measure `slow_dt`, as the log determines them. -/
structure LoopState.Clocked (st : LoopState) : Prop where
  firstSlow_iff : st.firstSlow = true ↔ slowTimes st.world.log = []
  lastSlow_eq : ∀ last earlier,
    slowTimes st.world.log = last :: earlier → st.lastSlow = last

/-- `slow_dt` is the interval between the last two slow ticks in the log. -/
theorem LoopState.Clocked.slowDt_eq
    {st : LoopState}
    (clocked : st.Clocked)
    (now : UInt64) :
    slowDt st now = slowInterval (now :: slowTimes st.world.log) := by
  unfold slowDt
  cases times : slowTimes st.world.log with
  | nil =>
      have first := clocked.firstSlow_iff.mpr times
      simp [first, slowInterval]
  | cons last earlier =>
      have notFirst : st.firstSlow = false := by
        rw [← Bool.not_eq_true, clocked.firstSlow_iff, times]
        simp
      rw [clocked.lastSlow_eq last earlier times, notFirst]
      simp [slowInterval]

/-- A state of the main loop between two ticks, in which a law holds. -/
structure Lawful (L : SlotLaw cfg) (st : LoopState) : Prop where
  governed : Governed L (fun _ => .rested) st.world.log st.world
  clocked : st.Clocked

theorem start_lawful (L : SlotLaw cfg) (start : UInt64) :
    Lawful L (LoopState.start start) where
  governed :=
    { distinct := Daemon.start_distinct
      tracks := by
        intro pid
        rw [Daemon.mem_pids]
        constructor
        · intro tracked
          simp [LoopState.start, trackedIn] at tracked
        · rintro ⟨i, live, _⟩
          exact absurd live (Nat.not_lt_zero _)
      named := fun _ live => absurd live (Nat.not_lt_zero _)
      slots := fun _ live => absurd live (Nat.not_lt_zero _)
      absent := fun pid _ => L.absentStart pid
      laws := eachEvent_nil _
      ticks_eq := rfl }
  clocked :=
    { firstSlow_iff := by simp [LoopState.start, slowTimes, ticks]
      lastSlow_eq := by
        intro last earlier times
        simp [LoopState.start, slowTimes, ticks] at times }

theorem Governed.rebase
    {L : SlotLaw cfg}
    {phase : Nat → SlotPhase}
    {base : List Event}
    {w : World}
    (governed : Governed L phase base w) :
    Governed L phase w.log w :=
  { governed with ticks_eq := rfl }

/-- A tick keeps the law and adds one tick to the log. -/
theorem tick_governed
    {L : SlotLaw cfg}
    (qsort : Qsort)
    {st : LoopState}
    (env : TickEnv)
    (lawful : Lawful L st) :
    Governed L (fun _ => .rested) (st.world.log ++ [.tick env.now st.slowTick])
      (tick qsort cfg st env).world := by
  have started := lawful.governed.emitTick env.now st.slowTick
  unfold tick
  dsimp only
  cases slow : st.slowTick with
  | true =>
      simp only [slow, if_true] at started ⊢
      have synced := started.syncPids qsort env.sync (inSlowTick_slowTick _ _)
      have interval : slowDt st env.now =
          slowInterval (slowTimes (st.world.log ++ [.tick env.now true])) := by
        rw [lawful.clocked.slowDt_eq, slowTimes_slowTick]
      have sampled := (synced.of_passed (slowPhases 0) fun j _ =>
        (if_neg (Nat.not_lt_zero j)).symm).slowLoop env
          (if cfg.topN > 0 then cfg.topN
            else ((Schedmon.syncPids qsort cfg env.sync
              (st.world.emit (.tick env.now true))).daemon.gNActive : Int))
          (inSlowTick_slowTick _ _) (currentTime_tick _ _ _) _ 0 0
          (Nat.le_add_left _ 0)
      rw [← interval] at sampled
      exact (sampled.of_passed (fastPhases 0) fun j _ =>
        (if_neg (Nat.not_lt_zero j)).symm).fastLoop env.now
          (currentTime_tick _ _ _) _ 0 (Nat.le_add_left _ 0)
  | false =>
      simp only [slow, Bool.false_eq_true, if_false] at started ⊢
      exact (started.of_passed (fastPhases 0) fun j _ =>
        (if_neg (Nat.not_lt_zero j)).symm).fastLoop env.now
          (currentTime_tick _ _ _) _ 0 (Nat.le_add_left _ 0)

theorem tick_lawful
    {L : SlotLaw cfg}
    (qsort : Qsort)
    {st : LoopState}
    (env : TickEnv)
    (lawful : Lawful L st) :
    Lawful L (tick qsort cfg st env) := by
  have governed := tick_governed qsort env lawful
  have sameTimes := slowTimes_eq_of_ticks governed.ticks_eq
  refine ⟨governed.rebase, ?_⟩
  cases slow : st.slowTick with
  | true =>
      rw [slow, slowTimes_slowTick] at sameTimes
      have first : (tick qsort cfg st env).firstSlow = false := by
        simp only [tick, slow, if_true]
      have last : (tick qsort cfg st env).lastSlow = env.now := by
        simp only [tick, slow, if_true]
      constructor
      · rw [first, sameTimes]
        simp
      · intro latest earlier equal
        rw [last]
        exact (List.cons.inj (sameTimes.symm.trans equal)).1
  | false =>
      rw [slow, slowTimes_fastTick] at sameTimes
      have first : (tick qsort cfg st env).firstSlow = st.firstSlow := by
        simp only [tick, slow, Bool.false_eq_true, if_false]
      have last : (tick qsort cfg st env).lastSlow = st.lastSlow := by
        simp only [tick, slow, Bool.false_eq_true, if_false]
      constructor
      · rw [first, sameTimes]
        exact lawful.clocked.firstSlow_iff
      · intro latest earlier equal
        rw [last]
        exact lawful.clocked.lastSlow_eq latest earlier (sameTimes.symm.trans equal)

/-- Every run keeps every law of the slots. -/
theorem runSamplingLoop_lawful
    (L : SlotLaw cfg)
    (qsort : Qsort)
    (start : UInt64)
    (envs : List TickEnv) :
    Lawful L (runSamplingLoop qsort cfg start envs) := by
  unfold runSamplingLoop
  have holds := start_lawful L start
  generalize LoopState.start start = st at holds ⊢
  induction envs generalizing st with
  | nil => exact holds
  | cons env rest inductionHypothesis =>
      exact inductionHypothesis _ (tick_lawful qsort env holds)

theorem runSamplingLoop_snoc
    (qsort : Qsort)
    (cfg : DaemonConfig)
    (start : UInt64)
    (envs : List TickEnv)
    (env : TickEnv) :
    runSamplingLoop qsort cfg start (envs ++ [env]) =
      tick qsort cfg (runSamplingLoop qsort cfg start envs) env := by
  unfold runSamplingLoop
  rw [List.foldl_append]
  rfl

/-- The ticks in the log are the ticks of the run. -/
theorem runSamplingLoop_times
    (L : SlotLaw cfg)
    (qsort : Qsort)
    (start : UInt64)
    (envs : List TickEnv) :
    (ticks (runSamplingLoop qsort cfg start envs).world.log).map Prod.fst =
      envs.map TickEnv.now := by
  induction envs using List.reverseRecOn with
  | nil => rfl
  | append_singleton envs env inductionHypothesis =>
      have governed := tick_governed qsort env
        (runSamplingLoop_lawful L qsort start envs)
      rw [runSamplingLoop_snoc, governed.ticks_eq, ticks_append, List.map_append,
        inductionHypothesis, List.map_append]
      rfl

/-! ## Plain inputs -/

/-- A listing of readable processes of one ordinary user. -/
def plainProcFs (pids : List Int) : ProcFs where
  listing := some pids
  stat := fun _ => some { comm := [], utime := 0, stime := 0 }
  uid := fun _ => 1000

/-- A `sync_pids` call in which every process is alive and all counters open. -/
def plainSyncEnv (now : UInt64) (pids : List Int) : SyncEnv where
  now := now
  proc := plainProcFs pids
  add := fun _ _ => plainAddReadings
  alive := fun _ => true

/-- Counters that can be read and stand still. -/
def plainSlowReadings : SlowReadings where
  hw := { plain := some 0, group := some [] }
  ctx := 0
  ioWaitNs := 0
  rqWaitNs := 0
  procIo := { result := 0, syscallBytes := some 0 }
  reopened := .error .other
  procIoAgain := { result := 0, syscallBytes := none }
  io := 0
  lastCpu := 0
  execComm := none

/-- The configuration of a daemon without options: the top 256 of all users. -/
def defaultConfig : DaemonConfig where
  pids := []
  topN := 256
  minUid := 0
  intervalMs := 50
  pids_le := by decide
  topN_le := by decide

/-- A tick that lists one process and reads given counters for it. -/
def plainTick (now : UInt64) (readings : SlowReadings) : TickEnv where
  now := now
  sync := plainSyncEnv now [1000]
  slow := fun _ => readings

/-- The daemon after a first tick that has found process 1000. -/
def tickedWorld : World :=
  (runSamplingLoop insertionQsort defaultConfig 0 [plainTick 1 plainSlowReadings]).world

/-- The same counters after eight context switches. -/
def switchedReadings : SlowReadings :=
  { plainSlowReadings with ctx := 8 }

/-- Five ticks, the second slow one of which sees the context switches. -/
def switchedTicks : List TickEnv :=
  [plainTick 1 plainSlowReadings, plainTick 50000001 switchedReadings,
    plainTick 100000001 switchedReadings, plainTick 150000001 switchedReadings,
    plainTick 200000001 switchedReadings]

/-- Nine ticks: a slow one with given readings, then two in which the counters
read zero again. -/
def restartedTicks (first : TickEnv) : List TickEnv :=
  [first, plainTick 50000001 plainSlowReadings,
    plainTick 100000001 plainSlowReadings, plainTick 150000001 plainSlowReadings,
    plainTick 200000001 plainSlowReadings, plainTick 250000001 plainSlowReadings,
    plainTick 300000001 plainSlowReadings, plainTick 350000001 plainSlowReadings,
    plainTick 400000001 plainSlowReadings]

end Schedmon
