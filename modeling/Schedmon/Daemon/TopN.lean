import Schedmon.Daemon.Naming

/-!
# Two runs under different `--top` options

`--top` bounds what is displayed, and in top-N mode also what is tracked.  What
the scans of a run see decides whether the second use makes a difference.
-/

namespace Schedmon

/-! ## The option -/

/-- `DEFAULT_TOP_N`. -/
def defaultTopN : Int := 256

/-- `g_cfg.top_n` after one `--top` option. -/
def topOption (value : Int) : Int :=
  if value ≤ 0 ∨ value > maxPids then defaultTopN else value

/-- `g_cfg.top_n` as `parse_args` leaves it after the `--top` options with these
values, in order. -/
def parseTop (nPids : Nat) (values : List Int) : Int :=
  let topN := values.foldl (fun _ value => topOption value) 0
  if nPids = 0 ∧ topN = 0 then defaultTopN else topN

theorem topOption_bounds (value : Int) :
    0 < topOption value ∧ topOption value ≤ maxPids := by
  unfold topOption defaultTopN maxPids
  split <;> omega

theorem parseTop_bounds (nPids : Nat) (values : List Int) :
    0 ≤ parseTop nPids values ∧ parseTop nPids values ≤ maxPids := by
  have last (topN : Int) (inside : 0 ≤ topN ∧ topN ≤ maxPids) :
      0 ≤ values.foldl (fun _ value => topOption value) topN ∧
        values.foldl (fun _ value => topOption value) topN ≤ maxPids := by
    induction values generalizing topN with
    | nil => exact inside
    | cons value rest inductionHypothesis =>
        obtain ⟨positive, bounded⟩ := topOption_bounds value
        exact inductionHypothesis _ ⟨positive.le, bounded⟩
  unfold parseTop
  dsimp only
  split
  · decide
  · exact last 0 ⟨le_refl 0, Int.natCast_nonneg _⟩

/-- The configuration under other `--top` options. -/
def DaemonConfig.withTop (cfg : DaemonConfig) (values : List Int) : DaemonConfig :=
  { cfg with
    topN := parseTop cfg.pids.length values
    topN_le := (parseTop_bounds _ _).2 }

/-! ## What the scans of a run see -/

/-- What a tick shows to a scan of `/proc`: the clocks and the processes. -/
structure TickScan where
  now : UInt64
  syncNow : UInt64
  proc : ProcFs

/-- The part of a tick's environment that its scan sees. -/
def TickEnv.scan (env : TickEnv) : TickScan :=
  ⟨env.now, env.sync.now, env.sync.proc⟩

/-- The scanner, and what decides when top-N mode scans. -/
structure Scanning where
  scanner : ProcScanner
  lastSync : UInt64
  firstRun : Bool
  sampleNum : Nat

namespace Scanning

/-- Before the first tick. -/
def start : Scanning := ⟨procScannerInit, 0, true, 0⟩

/-- Whether this tick scans: it is a slow one and passes the one-second gate. -/
def due (s : Scanning) (scan : TickScan) : Bool :=
  s.sampleNum % 4 = 0 &&
    !(!s.firstRun &&
      (scan.syncNow.toNat : Int) - (s.lastSync.toNat : Int) < 1000000000)

/-- After a tick. -/
def step (s : Scanning) (scan : TickScan) : Scanning :=
  let sampleNum := (s.sampleNum + 1) % 4
  if s.due scan then
    ⟨procScannerScan scan.proc s.scanner, scan.syncNow, false, sampleNum⟩
  else { s with sampleNum := sampleNum }

theorem step_scanner
    {s : Scanning}
    {scan : TickScan}
    (due : s.due scan = true) :
    (s.step scan).scanner = procScannerScan scan.proc s.scanner := by
  unfold step
  rw [due]
  rfl

end Scanning

/-- The scanner after each scan of top-N mode. -/
def scansFrom : Scanning → List TickScan → List ProcScanner
  | _, [] => []
  | s, scan :: rest =>
      (if s.due scan then [(s.step scan).scanner] else []) ++
        scansFrom (s.step scan) rest

/-- The main loop's part of it. -/
def LoopState.scanning (st : LoopState) : Scanning :=
  ⟨st.world.daemon.gScanner, st.world.daemon.lastSync, st.world.daemon.firstRun,
    st.sampleNum⟩

/-- What an event pushes to a ring. -/
def Event.onRing? (ring : Ring) : Event → Option SmoothedMetrics
  | .pushed other m => if other = ring then some m else none
  | _ => none

/-- The records that a log pushes to a ring, in order. -/
def recordsOn (ring : Ring) (log : List Event) : List SmoothedMetrics :=
  log.filterMap (Event.onRing? ring)

theorem topPids_eq_take
    (qsort : Qsort)
    (cfg : DaemonConfig)
    (scanner : ProcScanner) :
    topPids qsort cfg scanner =
      (ranking qsort cfg.minUid scanner).take cfg.topN.toNat := by
  unfold topPids
  rw [min_eq_left cfg.topN_le, procScannerTopN_eq_take]

section

variable (qsort : Qsort) (cfg : DaemonConfig)

theorem LoopState.due_of_slowTick
    {st : LoopState}
    (slow : st.slowTick = true)
    (env : TickEnv) :
    st.scanning.due env.scan = !syncGated env.sync st.world.daemon := by
  unfold LoopState.slowTick at slow
  unfold Scanning.due syncGated
  change (decide (st.sampleNum % 4 = 0) && _) = _
  rw [slow, Bool.true_and]
  rfl

theorem LoopState.due_of_fastTick
    {st : LoopState}
    (slow : st.slowTick = false)
    (scan : TickScan) :
    st.scanning.due scan = false := by
  unfold LoopState.slowTick at slow
  unfold Scanning.due
  change (decide (st.sampleNum % 4 = 0) && _) = _
  rw [slow, Bool.false_and]

theorem scanProcs_gScanner
    {cfg : DaemonConfig}
    (noPids : cfg.pids = [])
    (env : SyncEnv)
    (w : World) :
    (scanProcs cfg env w).daemon.gScanner =
      procScannerScan env.proc w.daemon.gScanner := by
  unfold scanProcs
  rw [noPids]
  rfl

theorem syncPids_statics (env : SyncEnv) (w : World) :
    (syncPids qsort cfg env w).daemon.statics =
      if syncGated env w.daemon then w.daemon.statics
      else
        ((scanProcs cfg env w).daemon.gScanner, env.now, false) := by
  unfold syncPids
  split
  · rfl
  · dsimp only
    rw [syncNow_statics]
    rfl

/-- In top-N mode the scans of a run depend on what they see only. -/
theorem tick_scanning
    {cfg : DaemonConfig}
    (noPids : cfg.pids = [])
    (st : LoopState)
    (env : TickEnv) :
    (tick qsort cfg st env).scanning = st.scanning.step env.scan := by
  have ofStatics (w : World) (n : Nat) (first : Bool) (last : UInt64) :
      LoopState.scanning ⟨w, n, first, last⟩ =
        ⟨w.daemon.statics.1, w.daemon.statics.2.1, w.daemon.statics.2.2, n⟩ := rfl
  unfold tick
  dsimp only
  cases slow : st.slowTick with
  | true =>
      have synced := syncPids_statics qsort cfg env.sync
        (st.world.emit (.tick env.now true))
      rw [scanProcs_gScanner noPids, World.emit_daemon] at synced
      simp only [if_true]
      rw [ofStatics]
      unfold fastPath slowPath
      dsimp only
      rw [fastLoop_statics, slowLoop_statics, synced]
      unfold Scanning.step
      dsimp only
      rw [LoopState.due_of_slowTick slow]
      cases syncGated env.sync st.world.daemon with
      | true => rfl
      | false => rfl
  | false =>
      simp only [Bool.false_eq_true, if_false]
      rw [ofStatics]
      unfold fastPath Scanning.step
      dsimp only
      rw [fastLoop_statics, LoopState.due_of_fastTick slow]
      rfl

end

/-! ## Options that make no difference -/

/-- Both options take the same from the ranking of a scanner. -/
def SelectAlike (cfg : DaemonConfig) (values otherValues : List Int)
    (scanner : ProcScanner) : Prop :=
  (cfg.withTop values).topN = (cfg.withTop otherValues).topN ∨
    (eligibleCount cfg.minUid scanner : Int) ≤
      min (cfg.withTop values).topN (cfg.withTop otherValues).topN

/-- Two states of the main loop that differ at most in the names of the slots. -/
structure LoopState.SameButNames (st other : LoopState) : Prop where
  world : st.world.SameButNames other.world
  sampleNum : other.sampleNum = st.sampleNum
  firstSlow : other.firstSlow = st.firstSlow
  lastSlow : other.lastSlow = st.lastSlow

section

variable {qsort : Qsort} {cfg : DaemonConfig} {values otherValues : List Int}

theorem SelectAlike.topPids_eq
    {scanner : ProcScanner}
    (alike : SelectAlike cfg values otherValues scanner) :
    topPids qsort (cfg.withTop otherValues) scanner =
      topPids qsort (cfg.withTop values) scanner := by
  have length := length_ranking qsort cfg.minUid scanner
  have sameUid (values : List Int) : (cfg.withTop values).minUid = cfg.minUid := rfl
  rw [topPids_eq_take, topPids_eq_take, sameUid, sameUid]
  rcases alike with same | few
  · rw [same]
  · rw [List.take_of_length_le (by omega), List.take_of_length_le (by omega)]

theorem World.SameButNames.syncNow
    {w other : World}
    (same : w.SameButNames other)
    (env : SyncEnv)
    (alike : cfg.pids = [] → SelectAlike cfg values otherValues
      (procScannerScan env.proc w.daemon.gScanner)) :
    (Schedmon.syncNow qsort (cfg.withTop values) env w).SameButNames
      (Schedmon.syncNow qsort (cfg.withTop otherValues) env other) := by
  have scanned := same.scanProcs cfg env
  have samePids (values : List Int) : (cfg.withTop values).pids = cfg.pids := rfl
  have sameScan (values : List Int) (w : World) :
      Schedmon.scanProcs (cfg.withTop values) env w =
        Schedmon.scanProcs cfg env w := rfl
  unfold Schedmon.syncNow
  rw [sameScan, sameScan, samePids, samePids]
  dsimp only
  split
  · have added := scanned.addMissing env 0 cfg.pids
    rw [added.gNActive]
    exact added.removeWhere _ _ 0
  · next noPids =>
      have empty : cfg.pids = [] := List.length_eq_zero_iff.mp (by omega)
      have selected := alike empty
      rw [← scanProcs_gScanner empty] at selected
      have scanner : (Schedmon.scanProcs cfg env other).daemon.gScanner =
          (Schedmon.scanProcs cfg env w).daemon.gScanner :=
        congrArg Prod.fst scanned.statics
      rw [scanner, selected.topPids_eq]
      have added := scanned.clearMarks.addTop env 0
        (topPids qsort (cfg.withTop values)
          (Schedmon.scanProcs cfg env w).daemon.gScanner)
      rw [added.gNActive]
      exact added.removeWhere _ _ 0

theorem World.SameButNames.syncPids
    {w other : World}
    (same : w.SameButNames other)
    (env : SyncEnv)
    (alike : cfg.pids = [] → syncGated env w.daemon = false →
      SelectAlike cfg values otherValues
        (procScannerScan env.proc w.daemon.gScanner)) :
    (Schedmon.syncPids qsort (cfg.withTop values) env w).SameButNames
      (Schedmon.syncPids qsort (cfg.withTop otherValues) env other) := by
  have gate : syncGated env other.daemon = syncGated env w.daemon := by
    obtain ⟨names, rfl⟩ := same
    rfl
  unfold Schedmon.syncPids
  rw [gate]
  cases passed : syncGated env w.daemon with
  | true => exact same
  | false =>
      have clocked : ({ w with
            daemon := { w.daemon with firstRun := false, lastSync := env.now } } :
          World).SameButNames
            { other with
              daemon :=
                { other.daemon with firstRun := false, lastSync := env.now } } := by
        obtain ⟨names, rfl⟩ := same
        exact ⟨names, rfl⟩
      exact clocked.syncNow env fun noPids => alike noPids passed

/-- A tick does the same for both, if its scan is one they select alike from. -/
theorem LoopState.SameButNames.tick
    {st other : LoopState}
    (same : st.SameButNames other)
    (env : TickEnv)
    (alike : cfg.pids = [] → st.scanning.due env.scan = true →
      SelectAlike cfg values otherValues (st.scanning.step env.scan).scanner) :
    (Schedmon.tick qsort (cfg.withTop values) st env).SameButNames
      (Schedmon.tick qsort (cfg.withTop otherValues) other env) := by
  have slowTick : other.slowTick = st.slowTick := by
    unfold LoopState.slowTick
    rw [same.sampleNum]
  have interval : slowDt other env.now = slowDt st env.now := by
    unfold slowDt
    rw [same.firstSlow, same.lastSlow]
  have started := same.world.emit (.tick env.now st.slowTick)
  unfold Schedmon.tick
  rw [slowTick, interval, same.sampleNum]
  dsimp only
  cases slow : st.slowTick with
  | true =>
      rw [slow] at started
      have synced : (Schedmon.syncPids qsort (cfg.withTop values) env.sync
          (st.world.emit (.tick env.now true))).SameButNames
            (Schedmon.syncPids qsort (cfg.withTop otherValues) env.sync
              (other.world.emit (.tick env.now true))) := by
        apply started.syncPids env.sync
        intro noPids passed
        have due : st.scanning.due env.scan = true := by
          rw [LoopState.due_of_slowTick slow]
          exact congrArg not passed
        have selected := alike noPids due
        rw [Scanning.step_scanner due] at selected
        exact selected
      simp only [if_true]
      refine ⟨?_, rfl, rfl, rfl⟩
      apply World.SameButNames.fastPath
      unfold slowPath
      dsimp only
      rw [synced.gNActive]
      exact synced.slowLoop env _ _ _ _ 0 0 0
  | false =>
      rw [slow] at started
      simp only [Bool.false_eq_true, if_false]
      exact ⟨started.fastPath env.now, rfl, same.firstSlow, same.lastSlow⟩

/-- A run does the same for both, if they select alike from all its scans. -/
theorem LoopState.SameButNames.run
    {st other : LoopState}
    (same : st.SameButNames other)
    (envs : List TickEnv)
    (alike : cfg.pids = [] →
      ∀ scanner ∈ scansFrom st.scanning (envs.map TickEnv.scan),
        SelectAlike cfg values otherValues scanner) :
    (envs.foldl (Schedmon.tick qsort (cfg.withTop values)) st).SameButNames
      (envs.foldl (Schedmon.tick qsort (cfg.withTop otherValues)) other) := by
  induction envs generalizing st other with
  | nil => exact same
  | cons env rest inductionHypothesis =>
      rw [List.foldl_cons, List.foldl_cons]
      apply inductionHypothesis
      · apply same.tick env
        intro noPids due
        apply alike noPids
        simp [scansFrom, due]
      · intro noPids scanner member
        have topPids : (cfg.withTop values).pids = [] := noPids
        rw [tick_scanning qsort topPids] at member
        apply alike noPids
        rw [List.map_cons, scansFrom]
        exact List.mem_append_right _ member

end

end Schedmon
