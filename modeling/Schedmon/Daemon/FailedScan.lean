import Schedmon.Daemon.Runs
import Schedmon.Daemon.Visits

/-!
# Scans that fail

`proc_scanner_scan` clears the active flags before it opens `/proc`, and leaves
them cleared where that fails.  The ranking of the failed scan is empty, so the
`sync_pids` call around it removes every slot.
-/

namespace Schedmon

/-! ## The ranking -/

/-- Entries that are all inactive are not ranked. -/
theorem ranking_clearActive (qsort : Qsort) (minUid : Int) (ps : ProcScanner) :
    ranking qsort minUid ps.clearActive = [] := by
  rw [← List.length_eq_zero_iff, length_ranking]
  unfold eligibleCount ProcScanner.clearActive
  rw [List.countP_map]
  exact List.countP_eq_zero.mpr fun e _ => by simp [eligible]

/-- Where `opendir` fails, `proc_scanner_top_n` finds nothing afterwards. -/
theorem procScannerTopN_failed
    (qsort : Qsort)
    {fs : ProcFs}
    (failed : fs.listing = none)
    (ps : ProcScanner)
    (n minUid : Int) :
    procScannerTopN qsort (procScannerScan fs ps) n minUid = [] := by
  unfold procScannerScan
  rw [failed, procScannerTopN_eq_take, ranking_clearActive, List.take_nil]

/-- Nothing is ranked where nothing is asked for or nothing is eligible. -/
theorem procScannerTopN_eq_nil_iff
    (qsort : Qsort)
    (ps : ProcScanner)
    (n minUid : Int) :
    procScannerTopN qsort ps n minUid = [] ↔
      n ≤ 0 ∨ ∀ e ∈ ps.entries, eligible minUid e = false := by
  rw [procScannerTopN_eq_take, List.take_eq_nil_iff, Int.toNat_eq_zero,
    ← List.length_eq_zero_iff, length_ranking]
  unfold eligibleCount
  simp [List.countP_eq_zero]

/-! ## The slots -/

/-- A `sync_pids` call keeps the slots of the previous ranking, with everything
in them but the mark that it sets itself. -/
def RankedSlotsKept (qsort : Qsort) (cfg : DaemonConfig) (env : SyncEnv)
    (w : World) : Prop :=
  ∀ r ∈ w.daemon.liveSlots, r.pid ∈ topPids qsort cfg w.daemon.gScanner →
    ∃ kept ∈ (syncPids qsort cfg env w).daemon.liveSlots,
      kept.setActive true = r.setActive true

theorem clearMarks_liveSlots (w : World) :
    ∀ r ∈ (clearMarks w).daemon.liveSlots, r.state.active = false := by
  intro r member
  obtain ⟨i, rfl⟩ := List.mem_ofFn.mp member
  rw [clearMarks_slot w i.isLt]
  rfl

/-- With no mark set, the removal loop of top-N mode empties the table. -/
theorem liveSlots_removeWhere_clearMarks (w : World) :
    (removeWhere (fun st => !st.active) (clearMarks w).daemon.gNActive 0
      (clearMarks w)).daemon.liveSlots = [] := by
  obtain ⟨final, -, ended, remaining⟩ :=
    removeWhere_finish (fun st => !st.active) (clearMarks w)
  have none : (clearMarks w).daemon.liveSlots.filter (fun r => !!r.state.active) = [] := by
    rw [List.filter_eq_nil_iff]
    intro r member
    simp [clearMarks_liveSlots w r member]
  rw [ended _ le_rfl]
  rw [none] at remaining
  exact remaining.eq_nil

section

variable {qsort : Qsort} {cfg : DaemonConfig} {env : SyncEnv} {w : World}

/-- The call in which the scan fails leaves no slot. -/
theorem liveSlots_syncPids_failed
    (topMode : cfg.pids = [])
    (failed : env.proc.listing = none)
    (passed : syncGated env w.daemon = false) :
    (syncPids qsort cfg env w).daemon.liveSlots = [] := by
  unfold syncPids
  rw [passed]
  unfold syncNow scanProcs topPids
  simp only [Bool.false_eq_true, if_false, topMode, List.length_nil, if_true,
    lt_irrefl, procScannerTopN_failed qsort failed, addTop]
  exact liveSlots_removeWhere_clearMarks _

/-- So it keeps the ranked slots only if there are none. -/
theorem rankedSlotsKept_failed_iff
    (topMode : cfg.pids = [])
    (failed : env.proc.listing = none)
    (passed : syncGated env w.daemon = false) :
    RankedSlotsKept qsort cfg env w ↔
      ∀ r ∈ w.daemon.liveSlots, r.pid ∉ topPids qsort cfg w.daemon.gScanner := by
  unfold RankedSlotsKept
  rw [liveSlots_syncPids_failed topMode failed passed]
  simp

end

/-- Whatever scanner and table it meets, a failed scan leaves the ranking as it
was, and the ranked slots in place, exactly where the ranking was empty: no pid
is asked for or no entry is eligible.  The slots alone stay in place exactly
where none of them was ranked. -/
theorem failedScan_harmless_iff
    (qsort : Qsort)
    (cfg : DaemonConfig)
    (env : SyncEnv)
    (w : World)
    (topMode : cfg.pids = [])
    (failed : env.proc.listing = none)
    (passed : syncGated env w.daemon = false) :
    (∀ n minUid,
      procScannerTopN qsort (procScannerScan env.proc w.daemon.gScanner) n minUid =
          procScannerTopN qsort w.daemon.gScanner n minUid ↔
        n ≤ 0 ∨ ∀ e ∈ w.daemon.gScanner.entries, eligible minUid e = false) ∧
    (topPids qsort cfg (procScannerScan env.proc w.daemon.gScanner) =
          topPids qsort cfg w.daemon.gScanner ∧ RankedSlotsKept qsort cfg env w ↔
        cfg.topN ≤ 0 ∨
          ∀ e ∈ w.daemon.gScanner.entries, eligible cfg.minUid e = false) ∧
    (RankedSlotsKept qsort cfg env w ↔
      ∀ r ∈ w.daemon.liveSlots, r.pid ∉ topPids qsort cfg w.daemon.gScanner) := by
  have same (n minUid : Int) :
      procScannerTopN qsort (procScannerScan env.proc w.daemon.gScanner) n minUid =
          procScannerTopN qsort w.daemon.gScanner n minUid ↔
        n ≤ 0 ∨ ∀ e ∈ w.daemon.gScanner.entries, eligible minUid e = false := by
    rw [procScannerTopN_failed qsort failed, eq_comm, procScannerTopN_eq_nil_iff]
  have kept : RankedSlotsKept qsort cfg env w ↔ _ :=
    rankedSlotsKept_failed_iff topMode failed passed
  refine ⟨same, ?_, kept⟩
  rw [kept, ← same cfg.topN cfg.minUid]
  unfold topPids
  rw [min_eq_left cfg.topN_le, procScannerTopN_failed qsort failed]
  constructor
  · exact fun both => both.1
  · intro empty
    exact ⟨empty, by simp [← empty]⟩

/-- A `sync_pids` call two seconds after the start that cannot open `/proc`. -/
def failedSync : SyncEnv :=
  { plainSyncEnv 2000000001 [] with
    proc := { plainProcFs [] with listing := none } }

theorem tickedWorld_ungated : syncGated failedSync tickedWorld.daemon = false := by
  decide +kernel

/-- The process that the first tick has found is no longer ranked and not in its
slot. -/
theorem failedScan_harmless_iff_ticked :
    topPids insertionQsort defaultConfig tickedWorld.daemon.gScanner = [1000] ∧
      ¬ (topPids insertionQsort defaultConfig
          (procScannerScan failedSync.proc tickedWorld.daemon.gScanner) =
            topPids insertionQsort defaultConfig tickedWorld.daemon.gScanner ∧
        RankedSlotsKept insertionQsort defaultConfig failedSync tickedWorld) ∧
      ¬ RankedSlotsKept insertionQsort defaultConfig failedSync tickedWorld := by
  have ranked : topPids insertionQsort defaultConfig tickedWorld.daemon.gScanner =
      [1000] := by
    decide +kernel
  have slotted : ∃ r ∈ tickedWorld.daemon.liveSlots, r.pid = 1000 := by
    decide +kernel
  have listed : ¬ (defaultConfig.topN ≤ 0 ∨ ∀ e ∈ tickedWorld.daemon.gScanner.entries,
      eligible defaultConfig.minUid e = false) := by
    decide +kernel
  obtain ⟨r, live, named⟩ := slotted
  obtain ⟨-, harmless, kept⟩ := failedScan_harmless_iff insertionQsort defaultConfig
    failedSync tickedWorld rfl rfl tickedWorld_ungated
  refine ⟨ranked, fun both => listed (harmless.mp both), fun slots => ?_⟩
  apply kept.mp slots r live
  rw [ranked, named]
  exact List.mem_singleton_self 1000

/-- The daemon tracks process 1000 after its first tick; the failed scan ranks
nobody and the process loses its slot. -/
theorem failedScan_drops_slot :
    ¬ ∀ (envs : List TickEnv) (env : SyncEnv),
      env.proc.listing = none →
        let w := (runSamplingLoop insertionQsort defaultConfig 0 envs).world
        syncGated env w.daemon = false →
          topPids insertionQsort defaultConfig
              (procScannerScan env.proc w.daemon.gScanner) =
            topPids insertionQsort defaultConfig w.daemon.gScanner ∧
          RankedSlotsKept insertionQsort defaultConfig env w := by
  intro harmless
  have same := (harmless [plainTick 1 plainSlowReadings] failedSync rfl
    tickedWorld_ungated).1
  have before : topPids insertionQsort defaultConfig tickedWorld.daemon.gScanner =
      [1000] := by
    decide +kernel
  have after := procScannerTopN_failed insertionQsort
    (rfl : failedSync.proc.listing = none) tickedWorld.daemon.gScanner 256 0
  change _ = topPids insertionQsort defaultConfig tickedWorld.daemon.gScanner at same
  rw [before] at same
  exact absurd (after.symm.trans same) (by decide)

end Schedmon
