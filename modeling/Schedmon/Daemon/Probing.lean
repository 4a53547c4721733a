import Schedmon.Daemon.TopN
import Schedmon.Daemon.Windows

/-!
# When two `--top` options make a difference

A scan that shows one option a process more than the other can be followed by
readings for which only that process is pushed.  So the options that select
alike from every scan are the only ones with the same records for all readings.
-/

namespace Schedmon

open Library Admission

/-! ## Records are only added -/

theorem recordsOn_append (ring : Ring) (log events : List Event) :
    recordsOn ring (log ++ events) = recordsOn ring log ++ recordsOn ring events :=
  List.filterMap_append

theorem recordsOn_append_of_none
    {ring : Ring}
    {events : List Event}
    (log : List Event)
    (silent : ∀ e ∈ events, e.onRing? ring = none) :
    recordsOn ring (log ++ events) = recordsOn ring log := by
  have nothing : recordsOn ring events = [] := List.filterMap_eq_nil_iff.mpr silent
  rw [recordsOn_append, nothing, List.append_nil]

theorem fdEvents_onRing (ring : Ring) (pid : Int) (ops : List FdOp) :
    ∀ e ∈ ops.map (Event.fd pid), e.onRing? ring = none :=
  forall_fdEvents (fun _ => rfl) ops

section Sync

variable (ring : Ring)

theorem addPid_recordsOn (w : World) (pid : Int) (readings : AddReadings) :
    recordsOn ring (addPid w pid readings).2.log = recordsOn ring w.log := by
  have outcome := addPid_outcome w pid readings
  generalize addPid w pid readings = result at outcome ⊢
  cases outcome with
  | success room opens daemon nActive slots statics =>
      change recordsOn ring (w.log ++ _ ++ _) = _
      rw [recordsOn_append_of_none _ (by simp [Event.onRing?]),
        recordsOn_append_of_none _ (fdEvents_onRing ring pid _)]
  | failure refused daemon ops traced nActive slots statics =>
      exact recordsOn_append_of_none _ (fdEvents_onRing ring pid ops)

theorem removeSlot_recordsOn
    (w : World)
    {i : Nat}
    (below : i < w.daemon.gNActive) :
    recordsOn ring (removeSlot w i below).log = recordsOn ring w.log := by
  rw [removeSlot_log, recordsOn_append_of_none _ (by simp [Event.onRing?]),
    recordsOn_append_of_none _ (fdEvents_onRing ring _ _)]

theorem removeWhere_recordsOn
    (gone : PidState → Bool)
    (fuel i : Nat)
    (w : World) :
    recordsOn ring (removeWhere gone fuel i w).log = recordsOn ring w.log := by
  induction fuel generalizing i w with
  | zero => rfl
  | succ fuel inductionHypothesis =>
      unfold removeWhere
      split
      · split
        · rw [inductionHypothesis, removeSlot_recordsOn]
        · exact inductionHypothesis (i + 1) w
      · rfl

theorem addMissing_recordsOn
    (env : SyncEnv)
    (position : Nat)
    (pids : List Int)
    (w : World) :
    recordsOn ring (addMissing env position pids w).log = recordsOn ring w.log := by
  induction pids generalizing position w with
  | nil => rfl
  | cons pid rest inductionHypothesis =>
      unfold addMissing
      dsimp only
      rw [inductionHypothesis]
      split
      · exact addPid_recordsOn ring w pid _
      · rfl

theorem topRound_recordsOn
    (env : SyncEnv)
    (position : Nat)
    (pid : Int)
    (w : World) :
    recordsOn ring (topRound env position pid w).log = recordsOn ring w.log := by
  have added := addPid_recordsOn ring w pid (env.add position pid)
  unfold topRound
  cases w.daemon.findSlot pid with
  | some slot => rfl
  | none =>
      dsimp only
      split <;> exact added

theorem addTop_recordsOn
    (env : SyncEnv)
    (position : Nat)
    (pids : List Int)
    (w : World) :
    recordsOn ring (addTop env position pids w).log = recordsOn ring w.log := by
  induction pids generalizing position w with
  | nil => rfl
  | cons pid rest inductionHypothesis =>
      rw [addTop_cons, inductionHypothesis, topRound_recordsOn]

/-- `sync_pids` pushes nothing. -/
theorem syncPids_recordsOn
    (qsort : Qsort)
    (cfg : DaemonConfig)
    (env : SyncEnv)
    (w : World) :
    recordsOn ring (syncPids qsort cfg env w).log = recordsOn ring w.log := by
  unfold syncPids syncNow
  dsimp only
  split
  · rfl
  · split
    · rw [removeWhere_recordsOn, addMissing_recordsOn]
      rfl
    · rw [removeWhere_recordsOn, addTop_recordsOn]
      rfl

theorem putSlot_recordsOn
    (w : World)
    (i : Fin maxPids)
    (r : SlotRecord)
    (events : List Event) :
    recordsOn ring w.log <+: recordsOn ring (w.putSlot i r events).log :=
  ⟨recordsOn ring events, (recordsOn_append ring w.log events).symm⟩

theorem slowLoop_recordsOn
    (env : TickEnv)
    (dt : ℚ)
    (displayLimit : Int)
    (fuel i displayed : Nat)
    (w : World) :
    recordsOn ring w.log <+:
      recordsOn ring (slowLoop env dt displayLimit fuel i displayed w).log := by
  induction fuel generalizing i displayed w with
  | zero => exact List.prefix_refl _
  | succ fuel inductionHypothesis =>
      unfold slowLoop
      split
      · next below =>
          dsimp only
          split
          · rw [← removeSlot_recordsOn ring w below]
            exact inductionHypothesis i displayed _
          · exact (putSlot_recordsOn ring w _ _ _).trans
              (inductionHypothesis (i + 1) _ _)
          · exact (putSlot_recordsOn ring w _ _ _).trans
              (inductionHypothesis (i + 1) _ _)
      · exact List.prefix_refl _

theorem fastLoop_recordsOn
    (now : UInt64)
    (fuel i : Nat)
    (w : World) :
    recordsOn ring w.log <+: recordsOn ring (fastLoop now fuel i w).log := by
  induction fuel generalizing i w with
  | zero => exact List.prefix_refl _
  | succ fuel inductionHypothesis =>
      unfold fastLoop
      split
      · exact (putSlot_recordsOn ring w _ _ _).trans (inductionHypothesis (i + 1) _)
      · exact List.prefix_refl _

/-- A tick takes no record back. -/
theorem tick_recordsOn
    (qsort : Qsort)
    (cfg : DaemonConfig)
    (st : LoopState)
    (env : TickEnv) :
    recordsOn ring st.world.log <+:
      recordsOn ring (tick qsort cfg st env).world.log := by
  have emitted : recordsOn ring (st.world.emit (.tick env.now st.slowTick)).log =
      recordsOn ring st.world.log :=
    recordsOn_append_of_none _ (by simp [Event.onRing?])
  rw [← emitted]
  unfold tick
  dsimp only
  split
  · refine List.IsPrefix.trans ?_ (fastLoop_recordsOn ring env.now _ 0 _)
    unfold slowPath
    dsimp only
    refine List.IsPrefix.trans ?_ (slowLoop_recordsOn ring env _ _ _ 0 0 _)
    rw [syncPids_recordsOn]
  · exact fastLoop_recordsOn ring env.now _ 0 _

end Sync

/-! ## Probes -/

/-- The readings of an `add_pid` that fails. -/
def refusedAddReadings : AddReadings :=
  { plainAddReadings with
    perf := { plainAddReadings.perf with hwCycles := .error .emfile } }

/-- A tick with a given scan in which only some processes can be added, and all
that are tracked have switched. -/
def probe (opens : Int → Bool) (scan : TickScan) : TickEnv where
  now := scan.now
  sync :=
    { now := scan.syncNow
      proc := scan.proc
      add := fun _ pid => if opens pid then plainAddReadings else refusedAddReadings
      alive := fun _ => true }
  slow := fun _ => switchedReadings

@[simp] theorem probe_scan (opens : Int → Bool) (scan : TickScan) :
    (probe opens scan).scan = scan := rfl

theorem perfOpens_probe
    (opens : Int → Bool)
    (scan : TickScan)
    (position : Nat)
    (pid : Int) :
    perfOpens ((probe opens scan).sync.add position pid) = opens pid := by
  unfold probe
  dsimp only
  cases opens pid <;> rfl

/-- Every live slot is as `add_pid` left it, but for the mark. -/
def Unsampled (w : World) : Prop :=
  ∀ i : Fin maxPids, i.val < w.daemon.gNActive → ∃ pid active,
    w.daemon.slot i = (freshRecord pid plainAddReadings).setActive active

section

variable {w : World}

theorem Unsampled.of_empty (empty : w.daemon.gNActive = 0) : Unsampled w :=
  fun i live => absurd live (by omega)

theorem Unsampled.addPid
    (unsampled : Unsampled w)
    (opens : Int → Bool)
    (scan : TickScan)
    (position : Nat)
    (pid : Int) :
    Unsampled (Schedmon.addPid w pid ((probe opens scan).sync.add position pid)).2 := by
  have outcome := addPid_outcome w pid ((probe opens scan).sync.add position pid)
  have oracle := perfOpens_probe opens scan position pid
  generalize Schedmon.addPid w pid ((probe opens scan).sync.add position pid) = result
    at outcome ⊢
  cases outcome with
  | success room accepted daemon nActive slots statics =>
      have plain : (probe opens scan).sync.add position pid = plainAddReadings :=
        if_pos (oracle ▸ accepted)
      intro i live
      change i.val < daemon.gNActive at live
      change ∃ pid active, daemon.slot i = _
      rw [slots i, plain]
      split
      · exact ⟨pid, true, rfl⟩
      · exact unsampled i (by omega)
  | failure refused daemon ops traced nActive slots statics =>
      intro i live
      change i.val < daemon.gNActive at live
      change ∃ pid active, daemon.slot i = _
      rw [slots i (by omega)]
      exact unsampled i (by omega)

theorem Unsampled.markActive
    (unsampled : Unsampled w)
    (i : Fin maxPids) :
    Unsampled (Schedmon.markActive w i) := by
  intro j live
  obtain ⟨pid, active, slot⟩ := unsampled j live
  rw [markActive_slot]
  split
  · next here => exact ⟨pid, true, by rw [← here, slot]; rfl⟩
  · exact ⟨pid, active, slot⟩

theorem Unsampled.removeSlot
    (unsampled : Unsampled w)
    {i : Nat}
    (below : i < w.daemon.gNActive) :
    Unsampled (Schedmon.removeSlot w i below) := by
  intro j live
  rw [removeSlot_gNActive] at live
  rw [removeSlot_slot below j live]
  split
  · exact unsampled w.daemon.lastIndex (Nat.sub_lt (by omega) Nat.one_pos)
  · exact unsampled j (by omega)

theorem Unsampled.addTop
    (unsampled : Unsampled w)
    (opens : Int → Bool)
    (scan : TickScan)
    (position : Nat)
    (pids : List Int) :
    Unsampled (Schedmon.addTop (probe opens scan).sync position pids w) := by
  induction pids generalizing position w with
  | nil => exact unsampled
  | cons pid rest inductionHypothesis =>
      rw [addTop_cons]
      apply inductionHypothesis
      unfold topRound
      cases w.daemon.findSlot pid with
      | some slot => exact unsampled.markActive slot
      | none =>
          have added := unsampled.addPid opens scan position pid
          dsimp only
          split
          · exact added.markActive _
          · exact added

theorem Unsampled.removeWhere
    (unsampled : Unsampled w)
    (gone : PidState → Bool)
    (fuel i : Nat) :
    Unsampled (Schedmon.removeWhere gone fuel i w) := by
  induction fuel generalizing i w with
  | zero => exact unsampled
  | succ fuel inductionHypothesis =>
      unfold Schedmon.removeWhere
      split
      · next below =>
          split
          · exact inductionHypothesis (unsampled.removeSlot below) i
          · exact inductionHypothesis unsampled (i + 1)
      · exact unsampled

/-- The first sample of a slot is active if its interval is. -/
theorem resampled_active_first
    {r : SlotRecord}
    (represent : r.RepresentSamples [])
    (hw : RawCounters)
    (readings : SlowReadings)
    {dt : ℚ}
    (positive : 0 < dt)
    (active : activeInterval r.state hw readings = true) :
    smIsActive (resampled r hw readings dt).lastSm = true := by
  have unchanged : ({ r with state := sampledState r.state hw readings } :
      SlotRecord).RepresentSamples [] := represent
  have means : (resampled r hw readings dt).lastSm.metrics =
      RawSample.fields.map fun field =>
        recentMean (([] ++ [rawSample r.state hw readings dt]).map field) :=
    (unchanged.push _).smoothed_metrics
  obtain ⟨field, listed, larger⟩ :=
    (rawSample_pos_iff r.state hw readings positive).mpr active
  have nonneg := rawSample_nonneg r.state hw readings positive field listed
  rw [smIsActive_iff, means]
  refine ⟨_, List.mem_map_of_mem listed, ?_⟩
  rw [recentMean_pos_iff (by simpa using nonneg)]
  exact ⟨_, mem_recent_append [] _, larger⟩

/-- The first pass over a probe's process publishes a record. -/
theorem slowVisit_unsampled
    (pid : Int)
    (active displayed : Bool)
    (now : UInt64)
    {dt : ℚ}
    (positive : 0 < dt) :
    ∃ after events,
      slowVisit ((freshRecord pid plainAddReadings).setActive active)
        switchedReadings now dt displayed = .sampled after events ∧
      recordsOn .classifier events ≠ [] := by
  have represent : ((freshRecord pid plainAddReadings).setActive
      active).RepresentSamples [] := freshRecord_representSamples pid plainAddReadings
  have switched : switchedReadings.ctx -
      ((freshRecord pid plainAddReadings).setActive active).state.prevCtx > 0 := by
    change (8 : UInt64) - 0 > 0
    decide
  have interval : activeInterval
      ((freshRecord pid plainAddReadings).setActive active).state RawCounters.zero
        switchedReadings = true := by
    unfold activeInterval
    simp [switched]
  have sampled := resampled_active_first represent RawCounters.zero switchedReadings
    positive interval
  have visited : slowVisit ((freshRecord pid plainAddReadings).setActive active)
      switchedReadings now dt displayed =
        .sampled
          (takeSample ((freshRecord pid plainAddReadings).setActive active)
            RawCounters.zero switchedReadings now dt displayed).1
          (takeSample ((freshRecord pid plainAddReadings).setActive active)
            RawCounters.zero switchedReadings now dt displayed).2 := rfl
  refine ⟨_, _, visited, ?_⟩
  rcases takeSample_cases ((freshRecord pid plainAddReadings).setActive active)
    RawCounters.zero switchedReadings now dt displayed with
    ⟨_, taken⟩ | ⟨idle, _⟩
  · rw [taken, recordsOn_append]
    simp [recordsOn, Event.onRing?]
  · rw [sampled] at idle
    cases idle

/-- The slow path after a probe publishes a record. -/
theorem Unsampled.slowLoop
    (unsampled : Unsampled w)
    (occupied : 0 < w.daemon.gNActive)
    (opens : Int → Bool)
    (scan : TickScan)
    {dt : ℚ}
    (positive : 0 < dt)
    (displayLimit : Int) :
    recordsOn .classifier
      (Schedmon.slowLoop (probe opens scan) dt displayLimit w.daemon.gNActive 0 0
        w).log ≠ [] := by
  obtain ⟨pid, active, slot⟩ := unsampled (w.daemon.live occupied) occupied
  obtain ⟨fuel, enough⟩ := Nat.exists_eq_succ_of_ne_zero occupied.ne'
  have shown (events : List Event) (records : recordsOn .classifier events ≠ [])
      (after : SlotRecord) : recordsOn .classifier
        (w.putSlot (w.daemon.live occupied) after events).log ≠ [] := by
    change recordsOn .classifier (w.log ++ events) ≠ []
    rw [recordsOn_append]
    exact List.append_ne_nil_of_right_ne_nil _ records
  have readings : (probe opens scan).slow (w.daemon.slot
      (w.daemon.live occupied)).pid = switchedReadings := rfl
  rw [enough]
  unfold Schedmon.slowLoop
  rw [dif_pos occupied]
  dsimp only
  obtain ⟨after, events, visited, records⟩ := slowVisit_unsampled pid active
    (decide (((0 : Nat) : Int) < displayLimit)) (probe opens scan).now positive
  rw [readings, slot, visited]
  intro none
  have grown := slowLoop_recordsOn .classifier (probe opens scan) dt displayLimit fuel
    1 (if decide (((0 : Nat) : Int) < displayLimit) then 1 else 0)
    (w.putSlot (w.daemon.live occupied) after events)
  rw [none, List.prefix_nil] at grown
  exact shown events records after grown

theorem Daemon.pids_eq_empty_iff {s : Daemon} : s.pids = ∅ ↔ s.gNActive = 0 := by
  rw [Finset.eq_empty_iff_forall_notMem]
  constructor
  · intro none
    by_contra occupied
    exact none _ (Daemon.mem_pids.mpr
      ⟨s.live (Nat.pos_of_ne_zero occupied), Nat.pos_of_ne_zero occupied, rfl⟩)
  · intro empty pid member
    obtain ⟨i, live, _⟩ := Daemon.mem_pids.mp member
    omega

end

section

variable {qsort : Qsort} {cfg : DaemonConfig} {opens : Int → Bool} {scan : TickScan}

/-! ## A probe of an empty table -/

/-- A scan fills an empty table with the ranked processes that can be added. -/
theorem syncPids_probe
    {w : World}
    (noPids : cfg.pids = [])
    (empty : w.daemon.gNActive = 0)
    (ungated : syncGated (probe opens scan).sync w.daemon = false)
    (fits : (wanted opens (topPids qsort cfg
      (procScannerScan scan.proc w.daemon.gScanner))).card ≤ maxPids) :
    (syncPids qsort cfg (probe opens scan).sync w).daemon.pids =
        wanted opens (topPids qsort cfg
          (procScannerScan scan.proc w.daemon.gScanner)) ∧
      Unsampled (syncPids qsort cfg (probe opens scan).sync w) := by
  unfold syncPids
  rw [ungated]
  simp only [Bool.false_eq_true, if_false]
  generalize same : ({ w with
    daemon :=
      { w.daemon with
        firstRun := false
        lastSync := (probe opens scan).sync.now } } : World) = clocked
  have still : clocked.daemon.gNActive = 0 := by
    rw [← same]
    exact empty
  have scanner : (scanProcs cfg (probe opens scan).sync clocked).daemon.gScanner =
      procScannerScan scan.proc w.daemon.gScanner := by
    rw [scanProcs_gScanner noPids, ← same]
    rfl
  have distinct : clocked.daemon.Distinct := fun i j live => absurd live (by omega)
  have ranked : rankedPids qsort cfg (probe opens scan).sync clocked =
      topPids qsort cfg (procScannerScan scan.proc w.daemon.gScanner) := by
    rw [← topPids_eq_rankedPids, scanner]
  have admitted : admitAll maxPids opens (topPids qsort cfg
      (procScannerScan scan.proc w.daemon.gScanner)) ∅ =
        wanted opens (topPids qsort cfg
          (procScannerScan scan.proc w.daemon.gScanner)) := by
    rw [(admitAll_eq_union_iff (Nat.zero_le _)).mpr, Finset.empty_union]
    rw [Finset.empty_union]
    exact fits
  constructor
  · ext pid
    rw [mem_syncNow_pids_of_topN (perfOpens_probe opens scan) distinct noPids,
      Daemon.pids_eq_empty_iff.mpr still, ranked, admitted]
    exact ⟨fun both => both.1, fun member => ⟨member, (mem_wanted.mp member).1⟩⟩
  · have topMode : ¬ cfg.pids.length > 0 := by simp [noPids]
    unfold syncNow
    dsimp only
    rw [if_neg topMode]
    apply Unsampled.removeWhere
    apply Unsampled.addTop
    exact Unsampled.of_empty still

theorem fastPath_of_empty
    {w : World}
    (empty : w.daemon.gNActive = 0)
    (now : UInt64) :
    fastPath now w = w := by
  unfold fastPath
  rw [empty]
  rfl

theorem slowPath_of_empty
    {w : World}
    {env : TickEnv}
    (empty : (syncPids qsort cfg env.sync w).daemon.gNActive = 0)
    (dt : ℚ) :
    slowPath qsort cfg env dt w = syncPids qsort cfg env.sync w := by
  unfold slowPath
  dsimp only
  rw [empty]
  rfl

theorem slowDt_pos (st : LoopState) (now : UInt64) : 0 < slowDt st now := by
  unfold slowDt
  dsimp only
  split
  · next advanced =>
      apply div_pos _ (by norm_num)
      exact_mod_cast advanced.2
  · norm_num

theorem tick_world_of_slowTick
    {st : LoopState}
    (slow : st.slowTick = true)
    (env : TickEnv) :
    (tick qsort cfg st env).world =
      fastPath env.now (slowPath qsort cfg env (slowDt st env.now)
        (st.world.emit (.tick env.now true))) := by
  unfold tick
  rw [slow]
  rfl

theorem tick_world_of_fastTick
    {st : LoopState}
    (slow : st.slowTick = false)
    (env : TickEnv) :
    (tick qsort cfg st env).world =
      fastPath env.now (st.world.emit (.tick env.now false)) := by
  unfold tick
  rw [slow]
  rfl

/-- A probe that admits no ranked process leaves an empty table empty. -/
theorem tick_probe_refused
    {st : LoopState}
    (noPids : cfg.pids = [])
    (empty : st.world.daemon.gNActive = 0)
    (refused : st.scanning.due scan = true →
      wanted opens (topPids qsort cfg (st.scanning.step scan).scanner) = ∅)
    (ring : Ring) :
    (tick qsort cfg st (probe opens scan)).world.daemon.gNActive = 0 ∧
      recordsOn ring (tick qsort cfg st (probe opens scan)).world.log =
        recordsOn ring st.world.log := by
  have emitted (e : Event) (silent : e.onRing? ring = none) :
      recordsOn ring (st.world.emit e).log = recordsOn ring st.world.log :=
    recordsOn_append_of_none _ (by simpa using silent)
  have stillEmpty (e : Event) : (st.world.emit e).daemon.gNActive = 0 := empty
  cases slow : st.slowTick with
  | true =>
      have synced : (syncPids qsort cfg (probe opens scan).sync
          (st.world.emit (.tick (probe opens scan).now true))).daemon.gNActive = 0 := by
        cases gate : syncGated (probe opens scan).sync st.world.daemon with
        | true =>
            have same : syncGated (probe opens scan).sync
                (st.world.emit (.tick (probe opens scan).now true)).daemon = true :=
              gate
            unfold syncPids
            rw [if_pos same]
            exact stillEmpty _
        | false =>
            have due : st.scanning.due scan = true := by
              rw [← probe_scan opens scan, LoopState.due_of_slowTick slow, gate]
              rfl
            have none := refused due
            rw [Scanning.step_scanner due] at none
            have fits : (wanted opens (topPids qsort cfg
                (procScannerScan scan.proc st.scanning.scanner))).card ≤ maxPids := by
              rw [none]
              exact Nat.zero_le _
            have filled := (syncPids_probe noPids
              (stillEmpty (.tick (probe opens scan).now true)) gate fits).1
            exact Daemon.pids_eq_empty_iff.mp (filled.trans none)
      rw [tick_world_of_slowTick slow, slowPath_of_empty synced,
        fastPath_of_empty synced]
      exact ⟨synced, (syncPids_recordsOn ring _ _ _ _).trans (emitted _ rfl)⟩
  | false =>
      rw [tick_world_of_fastTick slow, fastPath_of_empty (stillEmpty _)]
      exact ⟨empty, emitted _ rfl⟩

/-- A probe that admits one ranked process publishes a record of it. -/
theorem tick_probe_admitted
    {st : LoopState}
    (noPids : cfg.pids = [])
    (empty : st.world.daemon.gNActive = 0)
    (due : st.scanning.due scan = true)
    {pid : Int}
    (one : wanted opens (topPids qsort cfg (st.scanning.step scan).scanner) = {pid}) :
    recordsOn .classifier (tick qsort cfg st (probe opens scan)).world.log ≠ [] := by
  have slow : st.slowTick = true := by
    by_contra fast
    rw [LoopState.due_of_fastTick (Bool.not_eq_true _ ▸ fast)] at due
    cases due
  have gate : syncGated (probe opens scan).sync
      (st.world.emit (.tick (probe opens scan).now true)).daemon = false := by
    have passed := LoopState.due_of_slowTick slow (probe opens scan)
    rw [probe_scan, due] at passed
    exact Bool.not_eq_true' _ ▸ passed.symm
  rw [Scanning.step_scanner due] at one
  have fits : (wanted opens (topPids qsort cfg
      (procScannerScan scan.proc st.scanning.scanner))).card ≤ maxPids := by
    rw [one, Finset.card_singleton]
    decide
  have stillEmpty : (st.world.emit
      (.tick (probe opens scan).now true)).daemon.gNActive = 0 := empty
  obtain ⟨filled, unsampled⟩ := syncPids_probe noPids stillEmpty gate fits
  have occupied : 0 < (syncPids qsort cfg (probe opens scan).sync
      (st.world.emit (.tick (probe opens scan).now true))).daemon.gNActive := by
    apply Nat.pos_of_ne_zero
    rw [Ne, ← Daemon.pids_eq_empty_iff, filled]
    exact one ▸ Finset.singleton_ne_empty pid
  intro none
  rw [tick_world_of_slowTick slow] at none
  have grown := fastLoop_recordsOn .classifier (probe opens scan).now
    (slowPath qsort cfg (probe opens scan) (slowDt st (probe opens scan).now)
      (st.world.emit (.tick (probe opens scan).now true))).daemon.gNActive 0
    (slowPath qsort cfg (probe opens scan) (slowDt st (probe opens scan).now)
      (st.world.emit (.tick (probe opens scan).now true)))
  unfold fastPath at none
  rw [none, List.prefix_nil] at grown
  exact unsampled.slowLoop occupied opens scan (slowDt_pos st _) _ grown

/-! ## Runs of probes -/

/-- Probes that admit nobody leave the table empty and push nothing. -/
theorem run_probe_refused
    (qsort : Qsort)
    (noPids : cfg.pids = [])
    (scans : List TickScan)
    {st : LoopState}
    (empty : st.world.daemon.gNActive = 0)
    (ring : Ring) :
    let last := (scans.map (probe fun _ => false)).foldl (tick qsort cfg) st
    last.world.daemon.gNActive = 0 ∧
      recordsOn ring last.world.log = recordsOn ring st.world.log := by
  induction scans generalizing st with
  | nil => exact ⟨empty, rfl⟩
  | cons scan rest inductionHypothesis =>
      have refused (top : List Int) : wanted (fun _ => false) top = ∅ := by
        simp [wanted]
      obtain ⟨still, same⟩ := tick_probe_refused noPids empty
        (fun _ => refused (topPids qsort cfg (st.scanning.step scan).scanner)) ring
      obtain ⟨last, records⟩ := inductionHypothesis still
      exact ⟨last, records.trans same⟩

theorem run_scanning
    (qsort : Qsort)
    (noPids : cfg.pids = [])
    (envs : List TickEnv)
    (st : LoopState) :
    (envs.foldl (tick qsort cfg) st).scanning =
      (envs.map TickEnv.scan).foldl Scanning.step st.scanning := by
  induction envs generalizing st with
  | nil => rfl
  | cons env rest inductionHypothesis =>
      rw [List.foldl_cons, inductionHypothesis, tick_scanning qsort noPids]
      rfl

theorem run_recordsOn
    (ring : Ring)
    (qsort : Qsort)
    (cfg : DaemonConfig)
    (envs : List TickEnv)
    (st : LoopState) :
    recordsOn ring st.world.log <+:
      recordsOn ring (envs.foldl (tick qsort cfg) st).world.log := by
  induction envs generalizing st with
  | nil => exact List.prefix_refl _
  | cons env rest inductionHypothesis =>
      exact (tick_recordsOn ring qsort cfg st env).trans (inductionHypothesis _)

end

/-- Each scan of a run happens at one of its ticks. -/
theorem exists_of_mem_scansFrom
    {s : Scanning}
    {scans : List TickScan}
    {scanner : ProcScanner}
    (member : scanner ∈ scansFrom s scans) :
    ∃ before scan after, scans = before ++ scan :: after ∧
      (before.foldl Scanning.step s).due scan = true ∧
      scanner = ((before.foldl Scanning.step s).step scan).scanner := by
  induction scans generalizing s with
  | nil => exact absurd member List.not_mem_nil
  | cons scan rest inductionHypothesis =>
      rcases List.mem_append.mp member with here | later
      · split at here
        · next due =>
            exact ⟨[], scan, rest, rfl, due, List.mem_singleton.mp here⟩
        · exact absurd here List.not_mem_nil
      · obtain ⟨before, found, after, split, due, equal⟩ := inductionHypothesis later
        exact ⟨scan :: before, found, after, congrArg (scan :: ·) split, due, equal⟩

theorem Scanning.step_keyed
    {s : Scanning}
    (keyed : s.scanner.Keyed)
    (scan : TickScan) :
    (s.step scan).scanner.Keyed := by
  unfold Scanning.step
  dsimp only
  split
  · exact keyed.procScannerScan scan.proc
  · exact keyed

/-- The scanner keeps one entry for each process in every run. -/
theorem Scanning.run_keyed (scans : List TickScan) :
    (scans.foldl Scanning.step Scanning.start).scanner.Keyed := by
  have run (s : Scanning) (keyed : s.scanner.Keyed) :
      (scans.foldl Scanning.step s).scanner.Keyed := by
    induction scans generalizing s with
    | nil => exact keyed
    | cons scan rest inductionHypothesis =>
        exact inductionHypothesis _ (Scanning.step_keyed keyed scan)
  exact run _ procScannerInit_keyed

/-- A longer part of a list without repetitions has an element more. -/
theorem exists_mem_take_of_lt
    {l : List Int}
    (distinct : l.Nodup)
    {less more : Nat}
    (longer : less < more)
    (enough : less < l.length) :
    ∃ pid ∈ l.take more, pid ∉ l.take less := by
  refine ⟨l[less], ?_, ?_⟩
  · exact List.mem_take_iff_getElem.mpr ⟨less, by omega, rfl⟩
  · intro member
    obtain ⟨i, bound, equal⟩ := List.mem_take_iff_getElem.mp member
    have same := distinct.getElem_inj_iff.mp equal
    omega

/-- A run of probes that admits one process, at one scan. -/
def singleProbe (before : List TickScan) (pid : Int) (scan : TickScan)
    (after : List TickScan) : List TickEnv :=
  before.map (probe fun _ => false) ++
    probe (fun other => other = pid) scan :: after.map (probe fun _ => false)

theorem probes_scans (opens : Int → Bool) (scans : List TickScan) :
    (scans.map (probe opens)).map TickEnv.scan = scans := by
  rw [List.map_map]
  exact List.map_id scans

theorem singleProbe_scans
    (before : List TickScan)
    (pid : Int)
    (scan : TickScan)
    (after : List TickScan) :
    (singleProbe before pid scan after).map TickEnv.scan = before ++ scan :: after := by
  unfold singleProbe
  rw [List.map_append, List.map_cons, probes_scans, probes_scans, probe_scan]

section

variable {cfg : DaemonConfig} {before : List TickScan} {pid : Int} {scan : TickScan}

/-- The probes before the one that admits a process do nothing. -/
theorem probes_before
    (qsort : Qsort)
    (noPids : cfg.pids = [])
    (before : List TickScan)
    (start : UInt64)
    {st : LoopState}
    (reached : (before.map (probe fun _ => false)).foldl (tick qsort cfg)
      (LoopState.start start) = st) :
    st.world.daemon.gNActive = 0 ∧ recordsOn .classifier st.world.log = [] ∧
      st.scanning = before.foldl Scanning.step Scanning.start := by
  have begins : (LoopState.start start).world.daemon.gNActive = 0 := rfl
  obtain ⟨empty, silent⟩ := run_probe_refused qsort noPids before begins .classifier
  have scanning := run_scanning qsort noPids (before.map (probe fun _ => false))
    (LoopState.start start)
  rw [probes_scans] at scanning
  rw [reached] at empty silent scanning
  exact ⟨empty, silent, scanning⟩

theorem run_singleProbe
    (qsort : Qsort)
    (cfg : DaemonConfig)
    (start : UInt64)
    (before : List TickScan)
    (pid : Int)
    (scan : TickScan)
    (after : List TickScan) :
    runSamplingLoop qsort cfg start (singleProbe before pid scan after) =
      (after.map (probe fun _ => false)).foldl (tick qsort cfg)
        (tick qsort cfg
          ((before.map (probe fun _ => false)).foldl (tick qsort cfg)
            (LoopState.start start))
          (probe (fun other => other = pid) scan)) := by
  unfold runSamplingLoop singleProbe
  rw [List.foldl_append, List.foldl_cons]

/-- The run pushes nothing if the process is not selected. -/
theorem singleProbe_missing
    (qsort : Qsort)
    (start : UInt64)
    (after : List TickScan)
    (noPids : cfg.pids = [])
    (missing : pid ∉ topPids qsort cfg
      ((before.foldl Scanning.step Scanning.start).step scan).scanner) :
    recordsOn .classifier (runSamplingLoop qsort cfg start
      (singleProbe before pid scan after)).world.log = [] := by
  rw [run_singleProbe]
  generalize reached : (before.map (probe fun _ => false)).foldl (tick qsort cfg)
    (LoopState.start start) = st
  obtain ⟨empty, silent, scanning⟩ := probes_before qsort noPids before start reached
  have refused : wanted (fun other => decide (other = pid))
      (topPids qsort cfg (st.scanning.step scan).scanner) = ∅ := by
    rw [scanning, Finset.eq_empty_iff_forall_notMem]
    intro other member
    obtain ⟨listed, same⟩ := mem_wanted.mp member
    exact missing (of_decide_eq_true same ▸ listed)
  obtain ⟨still, unchanged⟩ := tick_probe_refused noPids empty (fun _ => refused)
    .classifier
  have last := (run_probe_refused qsort noPids after still .classifier).2
  exact last.trans (unchanged.trans silent)

/-- The run pushes a record if the process is selected. -/
theorem singleProbe_selected
    (qsort : Qsort)
    (start : UInt64)
    (after : List TickScan)
    (noPids : cfg.pids = [])
    (due : (before.foldl Scanning.step Scanning.start).due scan = true)
    (selected : pid ∈ topPids qsort cfg
      ((before.foldl Scanning.step Scanning.start).step scan).scanner) :
    recordsOn .classifier (runSamplingLoop qsort cfg start
      (singleProbe before pid scan after)).world.log ≠ [] := by
  rw [run_singleProbe]
  generalize reached : (before.map (probe fun _ => false)).foldl (tick qsort cfg)
    (LoopState.start start) = st
  obtain ⟨empty, _, scanning⟩ := probes_before qsort noPids before start reached
  have one : wanted (fun other => decide (other = pid))
      (topPids qsort cfg (st.scanning.step scan).scanner) = {pid} := by
    rw [scanning]
    ext other
    rw [mem_wanted, Finset.mem_singleton]
    constructor
    · exact fun both => of_decide_eq_true both.2
    · rintro rfl
      exact ⟨selected, decide_eq_true rfl⟩
  have pushed := tick_probe_admitted noPids empty (scanning ▸ due) one
  intro none
  have grown := run_recordsOn .classifier qsort cfg (after.map (probe fun _ => false))
    (tick qsort cfg st (probe (fun other => other = pid) scan))
  rw [none, List.prefix_nil] at grown
  exact pushed grown

end

/-- Where one option selects more than the other from a scan, readings follow
with which it alone pushes a record. -/
theorem exists_records_differ
    (qsort : Qsort)
    {cfg : DaemonConfig}
    {values otherValues : List Int}
    (start : UInt64)
    {scans : List TickScan}
    {scanner : ProcScanner}
    (noPids : cfg.pids = [])
    (member : scanner ∈ scansFrom Scanning.start scans)
    (less : (cfg.withTop values).topN < (cfg.withTop otherValues).topN)
    (many : (cfg.withTop values).topN < (eligibleCount cfg.minUid scanner : Int)) :
    ∃ envs : List TickEnv, envs.map TickEnv.scan = scans ∧
      recordsOn .classifier
        (runSamplingLoop qsort (cfg.withTop values) start envs).world.log ≠
      recordsOn .classifier
        (runSamplingLoop qsort (cfg.withTop otherValues) start envs).world.log := by
  obtain ⟨before, scan, after, split, due, rfl⟩ := exists_of_mem_scansFrom member
  have keyed := Scanning.step_keyed (Scanning.run_keyed before) scan
  have positive := (parseTop_bounds cfg.pids.length values).1
  change 0 ≤ (cfg.withTop values).topN at positive
  have longer : (cfg.withTop values).topN.toNat <
      (cfg.withTop otherValues).topN.toNat := by omega
  have enough : (cfg.withTop values).topN.toNat < (ranking qsort cfg.minUid
      ((before.foldl Scanning.step Scanning.start).step scan).scanner).length := by
    rw [length_ranking]
    omega
  obtain ⟨pid, selected, missing⟩ := exists_mem_take_of_lt
    (keyed.ranking_nodup qsort cfg.minUid) longer enough
  have none := singleProbe_missing qsort start after
    (show (cfg.withTop values).pids = [] from noPids)
    (by rw [topPids_eq_take]; exact missing)
  have some := singleProbe_selected qsort start after
    (show (cfg.withTop otherValues).pids = [] from noPids) due
    (by rw [topPids_eq_take]; exact selected)
  refine ⟨singleProbe before pid scan after, ?_, ?_⟩
  · rw [singleProbe_scans, split]
  · rw [none]
    exact some.symm

/-- Two `--top` options give both rings the same records, whatever the counters
and the files of the processes read, exactly when pids are given or both select
alike from every scan. -/
theorem runSamplingLoop_sameRecords_iff
    (qsort : Qsort)
    (cfg : DaemonConfig)
    (values otherValues : List Int)
    (start : UInt64)
    (scans : List TickScan) :
    (∀ envs : List TickEnv, envs.map TickEnv.scan = scans → ∀ ring,
      recordsOn ring
        (runSamplingLoop qsort (cfg.withTop values) start envs).world.log =
      recordsOn ring
        (runSamplingLoop qsort (cfg.withTop otherValues) start envs).world.log) ↔
    (cfg.pids = [] → ∀ scanner ∈ scansFrom Scanning.start scans,
      SelectAlike cfg values otherValues scanner) := by
  constructor
  · intro same noPids scanner member
    by_contra differ
    obtain ⟨unequal, many⟩ := not_or.mp differ
    rcases lt_or_gt_of_ne unequal with less | less
    · obtain ⟨envs, rfl, distinct⟩ := exists_records_differ qsort start noPids member
        less (by omega)
      exact distinct (same envs rfl .classifier)
    · obtain ⟨envs, rfl, distinct⟩ := exists_records_differ qsort start noPids member
        less (by omega)
      exact distinct (same envs rfl .classifier).symm
  · intro alike envs shown ring
    have started : (LoopState.start start).SameButNames (LoopState.start start) :=
      ⟨World.SameButNames.refl _, rfl, rfl, rfl⟩
    have same : (runSamplingLoop qsort (cfg.withTop values) start envs).SameButNames
        (runSamplingLoop qsort (cfg.withTop otherValues) start envs) :=
      started.run envs fun noPids => shown ▸ alike noPids
    rw [same.world.log]

/-- One tick that lists two processes, which both switch. -/
def twoProcesses : List TickEnv :=
  [probe (fun _ => true) ⟨5, 5, plainProcFs [1000, 1001]⟩]

/-- With `--top 1` the second process of a tick is not pushed, with `--top 2`
it is. -/
theorem twoProcesses_records_differ :
    (defaultConfig.withTop [1]).topN = 1 ∧ (defaultConfig.withTop [2]).topN = 2 ∧
      recordsOn .classifier (runSamplingLoop insertionQsort
        (defaultConfig.withTop [1]) 0 twoProcesses).world.log ≠
      recordsOn .classifier (runSamplingLoop insertionQsort
        (defaultConfig.withTop [2]) 0 twoProcesses).world.log := by
  decide +kernel

end Schedmon
