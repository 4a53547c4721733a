import Schedmon.Daemon.Sampling

/-!
# The daemon's main loop

`sync_pids` and one iteration of `run_sampling_loop`.  What the daemon reads
during a tick comes from that tick's environment.
-/

namespace Schedmon

/-- The part of `DaemonConfig` that the sampling loop reads.  `parse_args` keeps
the pids inside their array and clamps `top_n` to the size of the table. -/
structure DaemonConfig where
  pids : List Int
  topN : Int
  minUid : Int
  intervalMs : Int
  pids_le : pids.length ≤ maxPids
  topN_le : topN ≤ maxPids

/-- What one `sync_pids` call reads. -/
structure SyncEnv where
  /-- `CLOCK_MONOTONIC` in nanoseconds. -/
  now : UInt64
  proc : ProcFs
  /-- The readings of the `add_pid` call at a position of the loop. -/
  add : Nat → Int → AddReadings
  /-- Whether `kill(pid, 0)` does not report `ESRCH`. -/
  alive : Int → Bool

/-- What one iteration of the main loop reads. -/
structure TickEnv where
  /-- `CLOCK_MONOTONIC` at the start of the tick, in nanoseconds. -/
  now : UInt64
  sync : SyncEnv
  /-- The readings of the slow path for each pid. -/
  slow : Int → SlowReadings

/-- Remove every slot that a condition marks as gone: the two removal loops of
`sync_pids`.  Every iteration either advances or removes, so the number
of live slots at the start is fuel enough. -/
def removeWhere (gone : PidState → Bool) : Nat → Nat → World → World
  | 0, _, w => w
  | fuel + 1, i, w =>
      if below : i < w.daemon.gNActive then
        if gone (w.daemon.gStates (w.daemon.live below)) then
          removeWhere gone fuel i (removeSlot w i below)
        else
          removeWhere gone fuel (i + 1) w
      else w

/-- The first loop of explicit mode: add every configured pid without a slot. -/
def addMissing (env : SyncEnv) : Nat → List Int → World → World
  | _, [], w => w
  | position, pid :: rest, w =>
      let w :=
        if w.daemon.findSlot pid = none then
          (addPid w pid (env.add position pid)).2
        else w
      addMissing env (position + 1) rest w

/-- `g_states[slot].active = 1`. -/
def markActive (w : World) (slot : Fin maxPids) : World :=
  let marked := { w.daemon.gStates slot with active := true }
  { w with
    daemon := { w.daemon with
      gStates := Function.update w.daemon.gStates slot marked } }

/-- The second loop of top-N mode: find or add every ranked pid and mark its
slot. -/
def addTop (env : SyncEnv) : Nat → List Int → World → World
  | _, [], w => w
  | position, pid :: rest, w =>
      let found :=
        match w.daemon.findSlot pid with
        | some slot => (some slot, w)
        | none => addPid w pid (env.add position pid)
      let marked :=
        match found.1 with
        | some slot => markActive found.2 slot
        | none => found.2
      addTop env (position + 1) rest marked

/-- The first loop of top-N mode: clear the mark of every live slot. -/
def clearMarks (w : World) : World :=
  let unmark (i : Fin maxPids) : PidState :=
    if i.val < w.daemon.gNActive then { w.daemon.gStates i with active := false }
    else w.daemon.gStates i
  { w with daemon := { w.daemon with gStates := unmark } }

/-- The scan at the start of `sync_pids`. -/
def scanProcs (cfg : DaemonConfig) (env : SyncEnv) (w : World) : World :=
  let scanner :=
    if cfg.pids.length = 0 then procScannerScan env.proc w.daemon.gScanner
    else procScannerScanPids env.proc cfg.pids w.daemon.gScanner
  { w with daemon := { w.daemon with gScanner := scanner } }

/-- The pids that top-N mode wants to track. -/
def topPids (qsort : Qsort) (cfg : DaemonConfig) (scanner : ProcScanner) :
    List Int :=
  procScannerTopN qsort scanner (min cfg.topN (maxPids : Int)) cfg.minUid

/-- `sync_pids` after the one-second gate. -/
def syncNow (qsort : Qsort) (cfg : DaemonConfig) (env : SyncEnv) (w : World) :
    World :=
  let w := scanProcs cfg env w
  if cfg.pids.length > 0 then
    let w := addMissing env 0 cfg.pids w
    removeWhere (fun st => !env.alive st.pid) w.daemon.gNActive 0 w
  else
    let top := topPids qsort cfg w.daemon.gScanner
    let w := addTop env 0 top (clearMarks w)
    removeWhere (fun st => !st.active) w.daemon.gNActive 0 w

/-- The one-second gate of `sync_pids`. -/
def syncGated (env : SyncEnv) (s : Daemon) : Bool :=
  !s.firstRun &&
    (env.now.toNat : Int) - (s.lastSync.toNat : Int) < 1000000000

/-- `sync_pids`. -/
def syncPids (qsort : Qsort) (cfg : DaemonConfig) (env : SyncEnv) (w : World) :
    World :=
  if syncGated env w.daemon then w
  else
    let daemon := { w.daemon with firstRun := false, lastSync := env.now }
    syncNow qsort cfg env { w with daemon := daemon }

/-- Write one slot and append what was seen. -/
def World.putSlot (w : World) (i : Fin maxPids) (r : SlotRecord)
    (events : List Event) : World where
  daemon := w.daemon.setSlot i r
  log := w.log ++ events

/-- The slow-path loop, from slot `i` on.  A removal puts the last slot at `i`,
so the index is taken again. -/
def slowLoop (env : TickEnv) (slowDt : ℚ) (displayLimit : Int) :
    Nat → Nat → Nat → World → World
  | 0, _, _, w => w
  | fuel + 1, i, displayed, w =>
      if below : i < w.daemon.gNActive then
        let here := w.daemon.live below
        let r := w.daemon.slot here
        let shown : Bool := decide ((displayed : Int) < displayLimit)
        match slowVisit r (env.slow r.pid) env.now slowDt shown with
        | .unreadable =>
            slowLoop env slowDt displayLimit fuel i displayed
              (removeSlot w i below)
        | .skipped r events =>
            slowLoop env slowDt displayLimit fuel (i + 1) displayed
              (w.putSlot here r events)
        | .sampled r events =>
            slowLoop env slowDt displayLimit fuel (i + 1)
              (if shown then displayed + 1 else displayed)
              (w.putSlot here r events)
      else w

/-- The fast-path loop, from slot `i` on. -/
def fastLoop (now : UInt64) : Nat → Nat → World → World
  | 0, _, w => w
  | fuel + 1, i, w =>
      if below : i < w.daemon.gNActive then
        let here := w.daemon.live below
        let result := fastVisit (w.daemon.slot here) now
        fastLoop now fuel (i + 1) (w.putSlot here result.1 result.2)
      else w

/-- The variables of `run_sampling_loop` that live across ticks. -/
structure LoopState where
  world : World
  sampleNum : Nat
  firstSlow : Bool
  lastSlow : UInt64

/-- The loop before its first tick; `now` is the clock at its start. -/
def LoopState.start (now : UInt64) : LoopState where
  world := ⟨Daemon.start, []⟩
  sampleNum := 0
  firstSlow := true
  lastSlow := now

/-- Whether the next tick runs the slow path. -/
def LoopState.slowTick (st : LoopState) : Bool :=
  st.sampleNum % 4 = 0

/-- `slow_dt` of a slow tick at time `now`, in seconds. -/
def slowDt (st : LoopState) (now : UInt64) : ℚ :=
  let slowDtNs : Int := (now.toNat : Int) - (st.lastSlow.toNat : Int)
  if !st.firstSlow ∧ slowDtNs > 0 then (slowDtNs : ℚ) / 1000000000 else 1 / 5

/-- The slow path of one tick. -/
def slowPath (qsort : Qsort) (cfg : DaemonConfig) (env : TickEnv) (dt : ℚ)
    (w : World) : World :=
  let w := syncPids qsort cfg env.sync w
  let displayLimit : Int :=
    if cfg.topN > 0 then cfg.topN else (w.daemon.gNActive : Int)
  slowLoop env dt displayLimit w.daemon.gNActive 0 0 w

/-- The fast path of one tick. -/
def fastPath (now : UInt64) (w : World) : World :=
  fastLoop now w.daemon.gNActive 0 w

/-- One iteration of `run_sampling_loop`. -/
def tick (qsort : Qsort) (cfg : DaemonConfig) (st : LoopState) (env : TickEnv) :
    LoopState :=
  let w := st.world.emit (.tick env.now st.slowTick)
  let sampleNum := (st.sampleNum + 1) % 4
  if st.slowTick then
    { world := fastPath env.now
        (slowPath qsort cfg env (slowDt st env.now) w)
      sampleNum := sampleNum
      firstSlow := false
      lastSlow := env.now }
  else
    { st with
      world := fastPath env.now w
      sampleNum := sampleNum }

/-- `run_sampling_loop` for a number of ticks. -/
def runSamplingLoop (qsort : Qsort) (cfg : DaemonConfig) (start : UInt64)
    (envs : List TickEnv) : LoopState :=
  envs.foldl (tick qsort cfg) (LoopState.start start)

end Schedmon
