import Schedmon.Daemon.Runs

/-!
# Which pids are tracked

`sync_pids` adds before it removes, so a full table refuses newcomers even
where the removals that follow would have made room for them.
-/

namespace Schedmon

open Library Admission EventLog

/-! ## The pids that `sync_pids` leaves -/

/-- A removal loop keeps the pids whose record is not gone. -/
theorem mem_removeWhere_pids
    {gone : PidState → Bool}
    {w : World}
    (distinct : w.daemon.Distinct)
    {pid : Int} :
    pid ∈ (removeWhere gone w.daemon.gNActive 0 w).daemon.pids ↔
      ∃ r, w.daemon.lookup pid = some r ∧ gone r.state = false := by
  have lookup := (removeWhere_lookup gone w.daemon.gNActive 0 w distinct (by omega)
    (fun j _ earlier => absurd earlier (Nat.not_lt_zero _))).2 pid
  rw [Daemon.mem_pids_iff_lookup, lookup, Ne, Option.filter_eq_none_iff]
  simp

theorem scanProcs_pids (cfg : DaemonConfig) (env : SyncEnv) (w : World) :
    (scanProcs cfg env w).daemon.pids = w.daemon.pids := rfl

/-- The pids that top-N mode ranks after the scan of this call. -/
def rankedPids (qsort : Qsort) (cfg : DaemonConfig) (env : SyncEnv) (w : World) :
    List Int :=
  procScannerTopN qsort (scanProcs cfg env w).daemon.gScanner cfg.topN cfg.minUid

theorem topPids_eq_rankedPids
    (qsort : Qsort)
    (cfg : DaemonConfig)
    (env : SyncEnv)
    (w : World) :
    topPids qsort cfg (scanProcs cfg env w).daemon.gScanner =
      rankedPids qsort cfg env w := by
  unfold topPids rankedPids
  rw [min_eq_left cfg.topN_le]

section

variable {qsort : Qsort} {cfg : DaemonConfig} {env : SyncEnv} {w : World}
variable {opens : Int → Bool}

/-- Explicit mode keeps the admitted pids that are alive. -/
theorem mem_syncNow_pids_of_explicit
    (oracle : ∀ position pid, perfOpens (env.add position pid) = opens pid)
    (distinct : w.daemon.Distinct)
    (explicit : cfg.pids ≠ [])
    (pid : Int) :
    pid ∈ (syncNow qsort cfg env w).daemon.pids ↔
      pid ∈ admitAll maxPids opens cfg.pids w.daemon.pids ∧
        env.alive pid = true := by
  obtain ⟨kept, pids⟩ := addMissing_pids oracle 0 cfg.pids (scanProcs cfg env w)
    distinct
  unfold syncNow
  dsimp only
  rw [if_pos (List.length_pos_iff.mpr explicit), mem_removeWhere_pids kept,
    ← scanProcs_pids cfg env w, ← pids, Daemon.mem_pids_iff_lookup]
  constructor
  · rintro ⟨r, found, stays⟩
    obtain ⟨_, _, _, named⟩ := kept.lookup_eq_some_iff.mp found
    have alive : env.alive r.pid = true := by simpa [SlotRecord.pid] using stays
    exact ⟨by simp [found], named ▸ alive⟩
  · rintro ⟨tracked, alive⟩
    obtain ⟨r, found⟩ := Option.ne_none_iff_exists'.mp tracked
    obtain ⟨_, _, _, named⟩ := kept.lookup_eq_some_iff.mp found
    refine ⟨r, found, ?_⟩
    have same : r.state.pid = pid := named
    simp [same, alive]

/-- Top-N mode keeps the admitted pids that are ranked. -/
theorem mem_syncNow_pids_of_topN
    (oracle : ∀ position pid, perfOpens (env.add position pid) = opens pid)
    (distinct : w.daemon.Distinct)
    (topN : cfg.pids = [])
    (pid : Int) :
    pid ∈ (syncNow qsort cfg env w).daemon.pids ↔
      pid ∈ admitAll maxPids opens (rankedPids qsort cfg env w) w.daemon.pids ∧
        pid ∈ rankedPids qsort cfg env w := by
  have scanned : (scanProcs cfg env w).daemon.Distinct := distinct
  obtain ⟨cleared, lookup⟩ := clearMarks_lookup scanned
  have clearedPids : (clearMarks (scanProcs cfg env w)).daemon.pids =
      w.daemon.pids := by
    ext other
    rw [Daemon.mem_pids_iff_lookup, lookup, Ne, Option.map_eq_none_iff]
    exact Daemon.mem_pids_iff_lookup.symm
  have unmarked : ¬ (clearMarks (scanProcs cfg env w)).daemon.Marked pid := by
    rintro ⟨r, found, active⟩
    rw [lookup, Option.map_eq_some_iff] at found
    obtain ⟨old, _, rfl⟩ := found
    exact absurd active (by simp [SlotRecord.setActive])
  obtain ⟨kept, pids, marked⟩ := addTop_spec oracle 0
    (rankedPids qsort cfg env w) (clearMarks (scanProcs cfg env w)) cleared
  rw [clearedPids] at pids
  have noPids : ¬ cfg.pids.length > 0 := by simp [topN]
  unfold syncNow
  dsimp only
  rw [if_neg noPids, topPids_eq_rankedPids, mem_removeWhere_pids kept, ← pids]
  have marks := marked pid
  simp only [unmarked, false_or] at marks
  rw [and_comm, ← marks]
  unfold Daemon.Marked
  simp

/-- What `sync_pids` is to track: the wanted pids that were tracked before or
whose counters open. -/
def ShouldTrack (qsort : Qsort) (cfg : DaemonConfig) (env : SyncEnv)
    (opens : Int → Bool) (w : World) (pid : Int) : Prop :=
  if cfg.pids = [] then
    pid ∈ rankedPids qsort cfg env w ∧ (pid ∈ w.daemon.pids ∨ opens pid = true)
  else
    pid ∈ cfg.pids ∧ env.alive pid = true ∧
      (pid ∈ w.daemon.pids ∨ opens pid = true)

/-- In top-N mode: the tracked pids and the ranked pids whose counters open fit
the table together. -/
def NewcomersFit (qsort : Qsort) (cfg : DaemonConfig) (env : SyncEnv)
    (opens : Int → Bool) (w : World) : Prop :=
  cfg.pids = [] →
    (w.daemon.pids ∪ wanted opens (rankedPids qsort cfg env w)).card ≤ maxPids

theorem card_pids_le (distinct : w.daemon.Distinct) :
    w.daemon.pids.card ≤ maxPids :=
  distinct.card_pids.trans_le w.daemon.gNActive_le

/-- Explicit mode always has room: the table only ever holds configured pids. -/
theorem admitAll_of_explicit
    (configured : ∀ pid ∈ w.daemon.pids, pid ∈ cfg.pids)
    (pid : Int) :
    pid ∈ admitAll maxPids opens cfg.pids w.daemon.pids ↔
      pid ∈ cfg.pids ∧ (pid ∈ w.daemon.pids ∨ opens pid = true) := by
  have inside : w.daemon.pids ∪ wanted opens cfg.pids ⊆ cfg.pids.toFinset := by
    intro other member
    rw [List.mem_toFinset]
    rcases Finset.mem_union.mp member with old | new
    · exact configured other old
    · exact (mem_wanted.mp new).1
  have fits : (w.daemon.pids ∪ wanted opens cfg.pids).card ≤ maxPids :=
    (Finset.card_le_card inside).trans
      ((List.toFinset_card_le cfg.pids).trans cfg.pids_le)
  have bounded : w.daemon.pids.card ≤ maxPids :=
    (Finset.card_le_card Finset.subset_union_left).trans fits
  rw [(admitAll_eq_union_iff bounded).mpr fits, Finset.mem_union, mem_wanted]
  constructor
  · rintro (old | ⟨listed, opened⟩)
    · exact ⟨configured pid old, .inl old⟩
    · exact ⟨listed, .inr opened⟩
  · rintro ⟨listed, old | opened⟩
    · exact .inl old
    · exact .inr ⟨listed, opened⟩

/-- After the gate, the right pids are tracked exactly when the newcomers fit
next to the pids that are still to be removed. -/
theorem syncNow_tracks_iff
    (oracle : ∀ position pid, perfOpens (env.add position pid) = opens pid)
    (distinct : w.daemon.Distinct)
    (configured : cfg.pids ≠ [] → ∀ pid ∈ w.daemon.pids, pid ∈ cfg.pids) :
    (∀ pid, pid ∈ (syncNow qsort cfg env w).daemon.pids ↔
      ShouldTrack qsort cfg env opens w pid) ↔
        NewcomersFit qsort cfg env opens w := by
  unfold ShouldTrack NewcomersFit
  by_cases topN : cfg.pids = []
  · simp only [topN, if_true, true_implies,
      mem_syncNow_pids_of_topN oracle distinct topN]
    have bounded := card_pids_le distinct
    rw [← admitAll_eq_union_iff bounded]
    constructor
    · intro tracks
      apply Finset.Subset.antisymm admitAll_subset
      apply Finset.union_subset subset_admitAll
      intro pid member
      obtain ⟨ranked, opened⟩ := mem_wanted.mp member
      exact ((tracks pid).mpr ⟨ranked, .inr opened⟩).1
    · intro all pid
      rw [all, Finset.mem_union, mem_wanted]
      constructor
      · rintro ⟨old | ⟨_, opened⟩, ranked⟩
        · exact ⟨ranked, .inl old⟩
        · exact ⟨ranked, .inr opened⟩
      · rintro ⟨ranked, old | opened⟩
        · exact ⟨.inl old, ranked⟩
        · exact ⟨.inr ⟨ranked, opened⟩, ranked⟩
  · simp only [topN, if_false, false_implies, iff_true]
    intro pid
    rw [mem_syncNow_pids_of_explicit oracle distinct topN,
      admitAll_of_explicit (configured topN)]
    constructor
    · rintro ⟨⟨listed, source⟩, alive⟩
      exact ⟨listed, alive, source⟩
    · rintro ⟨listed, alive, source⟩
      exact ⟨⟨listed, source⟩, alive⟩

theorem syncPids_tracks_iff
    (oracle : ∀ position pid, perfOpens (env.add position pid) = opens pid)
    (ungated : syncGated env w.daemon = false)
    (distinct : w.daemon.Distinct)
    (configured : cfg.pids ≠ [] → ∀ pid ∈ w.daemon.pids, pid ∈ cfg.pids) :
    (∀ pid, pid ∈ (syncPids qsort cfg env w).daemon.pids ↔
      ShouldTrack qsort cfg env opens w pid) ↔
        NewcomersFit qsort cfg env opens w := by
  unfold syncPids
  rw [ungated, if_neg Bool.false_ne_true]
  exact syncNow_tracks_iff oracle distinct configured

end

/-! ## Reachable tables -/

/-- In explicit mode every slot tracks a configured pid. -/
def configuredLaw (cfg : DaemonConfig) : SlotLaw cfg where
  holds := fun _ _ r => cfg.pids ≠ [] → r.pid ∈ cfg.pids
  law := fun _ _ => True
  frame := fun _ _ _ _ _ _ _ holds => holds
  tick := fun _ _ _ _ => trivial
  startSlow := fun _ _ _ holds => holds
  startFast := fun _ _ _ holds => holds
  mark := fun _ _ _ holds => holds
  refused := fun _ _ _ _ _ => ⟨along_of_forall fun _ _ _ => trivial, trivial⟩
  added := fun _ _ _ _ _ _ candidate _ =>
    ⟨along_of_forall fun _ _ _ => trivial, candidate⟩
  removed := fun _ _ _ _ => ⟨along_of_forall fun _ _ _ => trivial, trivial⟩
  visit := fun _ _ _ _ _ _ _ _ holds wrote =>
    ⟨along_of_forall fun _ _ _ => trivial,
      fun explicit => SlotWrite.apply_pid wrote ▸ holds explicit⟩
  fast := fun _ _ _ holds =>
    ⟨along_of_forall fun _ _ _ => trivial,
      fun explicit => (fastVisit_pid _ _).symm ▸ holds explicit⟩

/-- The table that a run leaves has distinct pids, all of them configured ones
in explicit mode. -/
theorem run_distinct_configured
    (qsort : Qsort)
    (cfg : DaemonConfig)
    (start : UInt64)
    (envs : List TickEnv) :
    (runSamplingLoop qsort cfg start envs).world.daemon.Distinct ∧
      (cfg.pids ≠ [] → ∀ pid ∈
        (runSamplingLoop qsort cfg start envs).world.daemon.pids,
          pid ∈ cfg.pids) := by
  have governed := (runSamplingLoop_lawful (configuredLaw cfg) qsort start
    envs).governed
  refine ⟨governed.distinct, ?_⟩
  intro explicit pid member
  obtain ⟨i, live, rfl⟩ := Daemon.mem_pids.mp member
  exact governed.slots i live explicit

/-- The same world with another scanner. -/
def World.withScanner (w : World) (scanner : ProcScanner) : World :=
  { w with daemon := { w.daemon with gScanner := scanner } }

@[simp] theorem World.withScanner_pids (w : World) (scanner : ProcScanner) :
    (w.withScanner scanner).daemon.pids = w.daemon.pids := rfl

@[simp] theorem World.withScanner_lastSync (w : World) (scanner : ProcScanner) :
    (w.withScanner scanner).daemon.lastSync = w.daemon.lastSync := rfl

theorem World.withScanner_distinct
    {w : World}
    (scanner : ProcScanner)
    (distinct : w.daemon.Distinct) :
    (w.withScanner scanner).daemon.Distinct := distinct

/-- Whatever table a run leaves and whatever the scanner holds, a `sync_pids`
call that the gate lets through tracks the right pids exactly when the
newcomers fit. -/
theorem syncPids_tracks_iff_newcomersFit
    (qsort : Qsort)
    (cfg : DaemonConfig)
    (start : UInt64)
    (envs : List TickEnv)
    (scanner : ProcScanner)
    (env : SyncEnv)
    (opens : Int → Bool)
    (oracle : ∀ position pid, perfOpens (env.add position pid) = opens pid)
    (w : World)
    (reached : w =
      (runSamplingLoop qsort cfg start envs).world.withScanner scanner)
    (ungated : syncGated env w.daemon = false) :
    (∀ pid, pid ∈ (syncPids qsort cfg env w).daemon.pids ↔
      ShouldTrack qsort cfg env opens w pid) ↔
        NewcomersFit qsort cfg env opens w := by
  obtain ⟨distinct, configured⟩ := run_distinct_configured qsort cfg start envs
  subst reached
  exact syncPids_tracks_iff oracle ungated distinct configured

theorem tickedWorld_pids : tickedWorld.daemon.pids = {1000} := by
  decide +kernel

theorem tickedWorld_newcomerFits :
    NewcomersFit insertionQsort defaultConfig (plainSyncEnv 1000000001 [2000])
      (fun _ => true) tickedWorld := by
  intro _
  rw [tickedWorld_pids]
  decide +kernel

/-- A second after the first tick another process has taken the place of the one
that is tracked. -/
theorem syncPids_tracks_iff_newcomersFit_replaced :
    tickedWorld.daemon.pids = {1000} ∧
      ∀ pid, pid ∈ (syncPids insertionQsort defaultConfig
          (plainSyncEnv 1000000001 [2000]) tickedWorld).daemon.pids ↔
        ShouldTrack insertionQsort defaultConfig (plainSyncEnv 1000000001 [2000])
          (fun _ => true) tickedWorld pid :=
  ⟨tickedWorld_pids,
    (syncPids_tracks_iff_newcomersFit insertionQsort defaultConfig 0
      [plainTick 1 plainSlowReadings] tickedWorld.daemon.gScanner
      (plainSyncEnv 1000000001 [2000]) (fun _ => true) (fun _ _ => rfl)
      tickedWorld rfl (by decide +kernel)).mpr tickedWorld_newcomerFits⟩

/-! ## A full table -/

theorem putSlot_pids
    {w : World}
    (distinct : w.daemon.Distinct)
    {i : Fin maxPids}
    (below : i.val < w.daemon.gNActive)
    {r : SlotRecord}
    (samePid : r.pid = (w.daemon.slot i).pid)
    (events : List Event) :
    (w.putSlot i r events).daemon.pids = w.daemon.pids := by
  have lookup := (putSlot_lookup distinct below samePid events).2
  ext pid
  rw [Daemon.mem_pids_iff_lookup, lookup, Daemon.mem_pids_iff_lookup]
  by_cases same : pid = r.pid
  · rw [same, samePid, distinct.lookup_slot below]
    simp
  · rw [Function.update_of_ne same]

/-- The slow path removes no slot whose counters can be read. -/
theorem slowLoop_pids
    {env : TickEnv}
    (readable : ∀ pc pid, perfCounterRead pc (env.slow pid).hw ≠ none)
    (dt : ℚ)
    (displayLimit : Int)
    (fuel i displayed : Nat)
    (w : World)
    (distinct : w.daemon.Distinct) :
    (slowLoop env dt displayLimit fuel i displayed w).daemon.Distinct ∧
      (slowLoop env dt displayLimit fuel i displayed w).daemon.pids =
        w.daemon.pids := by
  induction fuel generalizing i displayed w with
  | zero => exact ⟨distinct, rfl⟩
  | succ fuel inductionHypothesis =>
      unfold slowLoop
      split
      · next below =>
          dsimp only
          split
          · next outcome =>
              exact absurd (slowVisit_eq_unreadable outcome) (readable _ _)
          · next r events outcome =>
              have samePid := slowVisit_pid (.inl outcome)
              obtain ⟨kept, pids⟩ := inductionHypothesis (i + 1) displayed _
                (putSlot_lookup distinct below samePid events).1
              exact ⟨kept, pids.trans (putSlot_pids distinct below samePid events)⟩
          · next r events outcome =>
              have samePid := slowVisit_pid (.inr outcome)
              obtain ⟨kept, pids⟩ := inductionHypothesis (i + 1) _ _
                (putSlot_lookup distinct below samePid events).1
              exact ⟨kept, pids.trans (putSlot_pids distinct below samePid events)⟩
      · exact ⟨distinct, rfl⟩

/-- The fast path removes no slot. -/
theorem fastLoop_pids
    (now : UInt64)
    (fuel i : Nat)
    (w : World)
    (distinct : w.daemon.Distinct) :
    (fastLoop now fuel i w).daemon.pids = w.daemon.pids := by
  induction fuel generalizing i w with
  | zero => rfl
  | succ fuel inductionHypothesis =>
      unfold fastLoop
      split
      · next below =>
          have samePid := fastVisit_pid (w.daemon.slot (w.daemon.live below)) now
          exact (inductionHypothesis (i + 1) _
            (putSlot_lookup distinct below samePid _).1).trans
              (putSlot_pids distinct below samePid _)
      · rfl

/-- The first tick of top-N mode tracks every process it ranks, if they fit the
table and all counters can be opened and read. -/
theorem firstTick_pids
    (qsort : Qsort)
    {cfg : DaemonConfig}
    (topN : cfg.pids = [])
    (start : UInt64)
    {env : TickEnv}
    (readable : ∀ pc pid, perfCounterRead pc (env.slow pid).hw ≠ none)
    (opened : ∀ position pid, perfOpens (env.sync.add position pid) = true)
    {ranked : List Int}
    (ranks : ∀ pid, pid ∈ procScannerTopN qsort
      (procScannerScan env.sync.proc procScannerInit) cfg.topN cfg.minUid ↔
        pid ∈ ranked)
    (fits : ranked.length ≤ maxPids) :
    (runSamplingLoop qsort cfg start [env]).world.daemon.pids = ranked.toFinset := by
  -- the daemon as `sync_pids` finds it after its gate
  let entered : World :=
    { daemon := { Daemon.start with firstRun := false, lastSync := env.sync.now }
      log := [.tick env.now true] }
  have distinct : entered.daemon.Distinct := Daemon.start_distinct
  have noPids : entered.daemon.pids = ∅ := by
    ext pid
    simp [Daemon.mem_pids, entered, Daemon.start]
  have scanned : ∀ pid, pid ∈ rankedPids qsort cfg env.sync entered ↔
      pid ∈ ranked := by
    intro pid
    rw [← ranks]
    unfold rankedPids scanProcs
    simp [topN, entered, Daemon.start]
  have room : NewcomersFit qsort cfg env.sync (fun _ => true) entered := by
    intro _
    have within : wanted (fun _ => true) (rankedPids qsort cfg env.sync entered) ⊆
        ranked.toFinset := by
      intro pid member
      rw [List.mem_toFinset, ← scanned]
      exact (mem_wanted.mp member).1
    rw [noPids, Finset.empty_union]
    exact (Finset.card_le_card within).trans
      ((List.toFinset_card_le ranked).trans fits)
  have synced := (syncNow_tracks_iff opened distinct
    (fun explicit => absurd topN explicit)).mpr room
  have tracked : (syncPids qsort cfg env.sync
      ((LoopState.start start).world.emit (.tick env.now true))).daemon.pids =
        ranked.toFinset := by
    ext pid
    rw [List.mem_toFinset, ← scanned]
    refine (synced pid).trans ?_
    unfold ShouldTrack
    simp [topN]
  have kept := (((start_lawful (configuredLaw cfg) start).governed.emitTick
    env.now true).syncPids qsort env.sync (inSlowTick_slowTick _ _)).distinct
  obtain ⟨slowKept, slowPids⟩ := slowLoop_pids readable
    (slowDt (LoopState.start start) env.now)
    (if cfg.topN > 0 then cfg.topN
      else ((syncPids qsort cfg env.sync ((LoopState.start start).world.emit
        (.tick env.now true))).daemon.gNActive : Int)) _ 0 0 _ kept
  exact (fastLoop_pids env.now _ 0 _ slowKept).trans (slowPids.trans tracked)

/-- As many pids as the table has slots. -/
def crowd : List Int :=
  (List.range maxPids).map fun k : Nat => (k : Int) + 2

theorem length_crowd : crowd.length = maxPids := by
  rw [crowd, List.length_map, List.length_range]

theorem crowd_nodup : crowd.Nodup := by
  apply List.Nodup.map ?_ List.nodup_range
  intro left right equal
  exact Int.ofNat.inj (add_right_cancel equal)

theorem card_crowd : crowd.toFinset.card = maxPids :=
  (List.toFinset_card_of_nodup crowd_nodup).trans length_crowd

theorem one_lt_of_mem_crowd {pid : Int} (member : pid ∈ crowd) : pid > 1 := by
  obtain ⟨k, _, rfl⟩ := List.mem_map.mp member
  omega

/-- A first tick that finds as many processes as the table has slots. -/
def crowdedTick : TickEnv where
  now := 0
  sync := plainSyncEnv 0 crowd
  slow := fun _ => plainSlowReadings

/-- The daemon a second after a full table's processes have all been replaced by
one other. -/
def crowdedWorld : World :=
  (runSamplingLoop insertionQsort defaultConfig 0 [crowdedTick]).world.withScanner
    procScannerInit

theorem plainSlowReadings_readable (pc : PerfCounter) :
    perfCounterRead pc plainSlowReadings.hw ≠ none := by
  unfold perfCounterRead plainSlowReadings
  split
  · exact Option.some_ne_none _
  · exact Option.some_ne_none _

theorem crowdedWorld_pids : crowdedWorld.daemon.pids = crowd.toFinset := by
  have ranks (pid : Int) : pid ∈ procScannerTopN insertionQsort
      (procScannerScan (plainProcFs crowd) procScannerInit) 256 0 ↔
        pid ∈ crowd := by
    apply mem_procScannerTopN_first insertionQsort rfl
      (fun _ => one_lt_of_mem_crowd) crowd_nodup
    · rw [length_crowd]
      decide
    · exact fun _ _ => rfl
    · exact fun _ _ => Int.natCast_nonneg 1000
    · rw [length_crowd]
      decide
  unfold crowdedWorld
  rw [World.withScanner_pids]
  exact firstTick_pids insertionQsort rfl 0
    (fun pc _ => plainSlowReadings_readable pc) (fun _ _ => rfl) ranks
    length_crowd.le

theorem firstTick_lastSync
    (qsort : Qsort)
    (cfg : DaemonConfig)
    (start : UInt64)
    (env : TickEnv) :
    (runSamplingLoop qsort cfg start [env]).world.daemon.lastSync =
      env.sync.now := by
  let entered : World :=
    { daemon := { Daemon.start with firstRun := false, lastSync := env.sync.now }
      log := [.tick env.now true] }
  have statics : (runSamplingLoop qsort cfg start [env]).world.daemon.statics =
      (scanProcs cfg env.sync entered).daemon.statics :=
    (fastLoop_statics _ _ _ _).trans ((slowLoop_statics _ _ _ _ _ _ _).trans
      (syncNow_statics _ _ _ _))
  exact congrArg (fun statics => statics.2.1) statics

/-- The gate is open one second after the first tick. -/
theorem crowdedWorld_ungated :
    syncGated (plainSyncEnv 1000000000 [1000]) crowdedWorld.daemon = false := by
  have lastSync : crowdedWorld.daemon.lastSync = crowdedTick.sync.now := by
    unfold crowdedWorld
    rw [World.withScanner_lastSync, firstTick_lastSync]
  unfold syncGated
  rw [lastSync]
  simp [plainSyncEnv, crowdedTick]

theorem rankedPids_withScanner
    (qsort : Qsort)
    {cfg : DaemonConfig}
    (topN : cfg.pids = [])
    (env : SyncEnv)
    (w : World)
    (scanner : ProcScanner) :
    rankedPids qsort cfg env (w.withScanner scanner) =
      procScannerTopN qsort (procScannerScan env.proc scanner) cfg.topN
        cfg.minUid := by
  unfold rankedPids scanProcs
  simp [topN, World.withScanner]

/-- The one process that is left is refused, because the table still holds the
slots of all that are gone. -/
theorem syncPids_refuses_newcomer :
    syncGated (plainSyncEnv 1000000000 [1000]) crowdedWorld.daemon = false ∧
      ¬ ∀ pid, pid ∈ (syncPids insertionQsort defaultConfig
          (plainSyncEnv 1000000000 [1000]) crowdedWorld).daemon.pids ↔
        ShouldTrack insertionQsort defaultConfig (plainSyncEnv 1000000000 [1000])
          (fun _ => true) crowdedWorld pid := by
  refine ⟨crowdedWorld_ungated, ?_⟩
  intro tracks
  have distinct : crowdedWorld.daemon.Distinct := World.withScanner_distinct _
    (run_distinct_configured insertionQsort defaultConfig 0 [crowdedTick]).1
  have ranked : (1000 : Int) ∈ rankedPids insertionQsort defaultConfig
      (plainSyncEnv 1000000000 [1000]) crowdedWorld := by
    unfold crowdedWorld
    rw [rankedPids_withScanner insertionQsort rfl]
    decide +kernel
  have newcomer : (1000 : Int) ∉ crowdedWorld.daemon.pids := by
    rw [crowdedWorld_pids, List.mem_toFinset]
    intro member
    obtain ⟨k, below, equal⟩ := List.mem_map.mp member
    rw [List.mem_range] at below
    unfold maxPids at below
    omega
  have fits := (syncPids_tracks_iff (fun _ _ => rfl) crowdedWorld_ungated distinct
    (fun explicit => absurd rfl explicit)).mp tracks rfl
  have larger : insert 1000 crowdedWorld.daemon.pids ⊆ crowdedWorld.daemon.pids ∪
      wanted (fun _ => true) (rankedPids insertionQsort defaultConfig
        (plainSyncEnv 1000000000 [1000]) crowdedWorld) :=
    Finset.insert_subset
      (Finset.mem_union_right _ (mem_wanted.mpr ⟨ranked, rfl⟩))
      Finset.subset_union_left
  have count := (Finset.card_le_card larger).trans fits
  rw [Finset.card_insert_of_notMem newcomer, crowdedWorld_pids, card_crowd] at count
  omega

end Schedmon
