import Schedmon.Daemon.Quiet

/-!
# The CSV log

The rows that the slow path writes where `--csv` is given.  The function that
gathers them goes through the slots as the slow path does.
-/

namespace Schedmon

open Library

/-- The values of one row. -/
structure CsvRow where
  pid : Int
  timestampNs : UInt64
  ipc : ℚ
  llcMiss : ℚ
  ctxFreq : ℚ
  ioFreq : ℚ
  ioWaitMs : ℚ
  rqWaitMs : ℚ
  migrationFreq : ℚ
  ioSyscallFreq : ℚ
  deriving DecidableEq

/-- The row of a record at a time. -/
def CsvRow.of (pid : Int) (now : UInt64) (m : SmoothedMetrics) : CsvRow where
  pid := pid
  timestampNs := now
  ipc := m.smoothedIpc
  llcMiss := m.smoothedLlcMiss
  ctxFreq := m.smoothedCtxFreq
  ioFreq := m.smoothedIoFreq
  ioWaitMs := m.smoothedIoWaitMs
  rqWaitMs := m.smoothedRqWaitMs
  migrationFreq := m.smoothedMigrationFreq
  ioSyscallFreq := m.smoothedIoSyscallFreq

/-- The rows that the slow-path loop writes. -/
def slowLoopRows (env : TickEnv) (slowDt : ℚ) (displayLimit : Int) :
    Nat → Nat → Nat → World → List CsvRow
  | 0, _, _, _ => []
  | fuel + 1, i, displayed, w =>
      if below : i < w.daemon.gNActive then
        let here := w.daemon.live below
        let r := w.daemon.slot here
        let shown : Bool := decide ((displayed : Int) < displayLimit)
        match slowVisit r (env.slow r.pid) env.now slowDt shown with
        | .unreadable =>
            slowLoopRows env slowDt displayLimit fuel i displayed
              (removeSlot w i below)
        | .skipped r events =>
            slowLoopRows env slowDt displayLimit fuel (i + 1) displayed
              (w.putSlot here r events)
        | .sampled after events =>
            (if shown then [CsvRow.of r.pid env.now after.lastSm] else []) ++
              slowLoopRows env slowDt displayLimit fuel (i + 1)
                (if shown then displayed + 1 else displayed)
                (w.putSlot here after events)
      else []

/-- The rows that one tick writes. -/
def tickRows (qsort : Qsort) (cfg : DaemonConfig) (st : LoopState) (env : TickEnv) :
    List CsvRow :=
  if st.slowTick then
    let w := syncPids qsort cfg env.sync (st.world.emit (.tick env.now st.slowTick))
    let displayLimit : Int :=
      if cfg.topN > 0 then cfg.topN else (w.daemon.gNActive : Int)
    slowLoopRows env (slowDt st env.now) displayLimit w.daemon.gNActive 0 0 w
  else []

/-- The rows that a number of ticks write. -/
def ticksRows (qsort : Qsort) (cfg : DaemonConfig) :
    LoopState → List TickEnv → List CsvRow
  | _, [] => []
  | st, env :: rest =>
      tickRows qsort cfg st env ++ ticksRows qsort cfg (tick qsort cfg st env) rest

/-! ## The samples in a log -/

/-- The time of the tick under way, and the samples so far as rows. -/
structure Sampled where
  now : UInt64
  rows : List CsvRow

/-- What an event adds to it. -/
def Sampled.observe (s : Sampled) : Event → Sampled
  | .tick now _ => { s with now := now }
  | .sampled pid _ _ _ _ m => { s with rows := s.rows ++ [.of pid s.now m] }
  | _ => s

/-- The samples in a log. -/
def sampledIn (log : List Event) : Sampled :=
  log.foldl Sampled.observe ⟨0, []⟩

@[simp] theorem sampledIn_concat (log : List Event) (e : Event) :
    sampledIn (log ++ [e]) = (sampledIn log).observe e :=
  List.foldl_concat _ _ _ _

/-- Neither a tick nor a sample. -/
def Event.unsampled : Event → Bool
  | .tick _ _ => false
  | .sampled _ _ _ _ _ _ => false
  | _ => true

theorem Event.unsampled_of_quiet
    {e : Event}
    (quiet : e.quiet = true) :
    e.unsampled = true := by
  cases e <;> first | rfl | cases quiet

theorem sampledIn_append_unsampled
    (log : List Event)
    {events : List Event}
    (quiet : ∀ e ∈ events, e.unsampled = true) :
    sampledIn (log ++ events) = sampledIn log := by
  induction events using List.reverseRecOn with
  | nil => rw [List.append_nil]
  | append_singleton events e inductionHypothesis =>
      have last := quiet e (List.mem_append_right _ List.mem_cons_self)
      rw [← List.append_assoc, sampledIn_concat, inductionHypothesis fun earlier member =>
        quiet earlier (List.mem_append_left _ member)]
      cases e with
      | tick now slow => cases last
      | sampled pid prior hw readings dt m => cases last
      | _ => rfl

/-- Parts that log quiet events alone log no sample. -/
theorem LogsQuiet.sampledIn_eq
    {w next : World}
    (logs : LogsQuiet w next) :
    sampledIn next.log = sampledIn w.log := by
  obtain ⟨events, log, quiet⟩ := logs
  rw [log, sampledIn_append_unsampled _ fun e member =>
    Event.unsampled_of_quiet (quiet e member)]

/-! ## The slow path -/

/-- Publishing changes no metric. -/
theorem CsvRow.of_takeSample
    (pid : Int)
    (r : SlotRecord)
    (hw : RawCounters)
    (readings : SlowReadings)
    (now : UInt64)
    (dt : ℚ)
    (displayed : Bool) :
    CsvRow.of pid now (takeSample r hw readings now dt displayed).1.lastSm =
      .of pid now (resampled r hw readings dt).lastSm := by
  obtain ⟨comm, named⟩ := refreshComm_eq
    (publish (resampled r hw readings dt) now).1 readings displayed
  unfold takeSample
  dsimp only
  rw [named]
  unfold publish
  split <;> rfl

/-- A pass that takes a sample logs it, and nothing else of the kind. -/
theorem sampledIn_takeSample
    (log : List Event)
    (r : SlotRecord)
    (hw : RawCounters)
    (readings : SlowReadings)
    (now : UInt64)
    (dt : ℚ)
    (displayed : Bool) :
    sampledIn (log ++ (takeSample r hw readings now dt displayed).2) =
      { sampledIn log with
        rows := (sampledIn log).rows ++
          [.of r.pid (sampledIn log).now (resampled r hw readings dt).lastSm] } := by
  have pushes : ∀ e ∈ (publish (resampled r hw readings dt) now).2,
      e.unsampled = true := by
    unfold publish
    split <;> simp [Event.unsampled]
  have opened : ∀ e ∈ (procIoStep r.state readings).ops.map (Event.fd r.pid),
      e.unsampled = true := forall_fdEvents (fun _ => rfl) _
  unfold takeSample
  dsimp only
  rw [← List.append_assoc, sampledIn_append_unsampled _ pushes, ← List.append_assoc,
    sampledIn_concat, sampledIn_append_unsampled _ opened]
  rfl

/-- The slow path logs samples, and writes the first of them as rows. -/
theorem slowLoop_sampledIn
    (env : TickEnv)
    (dt : ℚ)
    (displayLimit : Int)
    (fuel i displayed : Nat)
    (w : World)
    (time : (sampledIn w.log).now = env.now) :
    ∃ samples : List CsvRow,
      sampledIn (slowLoop env dt displayLimit fuel i displayed w).log =
        ⟨env.now, (sampledIn w.log).rows ++ samples⟩ ∧
      slowLoopRows env dt displayLimit fuel i displayed w =
        samples.take (displayLimit - displayed).toNat ∧
      samples.length ≤ w.daemon.gNActive - i ∧
      ∀ row ∈ samples, row.timestampNs = env.now := by
  induction fuel generalizing i displayed w with
  | zero =>
      refine ⟨[], ?_, List.take_nil.symm, Nat.zero_le _, List.forall_mem_nil _⟩
      rw [List.append_nil, ← time]
      rfl
  | succ fuel inductionHypothesis =>
      unfold slowLoop slowLoopRows
      by_cases below : i < w.daemon.gNActive
      · rw [dif_pos below, dif_pos below]
        dsimp only
        rcases slowVisit_cases (w.daemon.slot (w.daemon.live below))
            (env.slow (w.daemon.slot (w.daemon.live below)).pid) env.now dt
            (decide ((displayed : Int) < displayLimit)) with
          ⟨_, outcome⟩ | ⟨hw, _, ⟨_, outcome⟩ | ⟨_, _, outcome⟩⟩
        · -- the slot is removed, and another takes its place
          rw [outcome]
          have quiet := (removeSlot_logsQuiet below).sampledIn_eq
          have fewer := removeSlot_gNActive below
          obtain ⟨samples, logged, written, few, timed⟩ :=
            inductionHypothesis i displayed (removeSlot w i below) (by rw [quiet, time])
          rw [quiet] at logged
          exact ⟨samples, logged, written, by omega, timed⟩
        · rw [outcome]
          have quiet : sampledIn (w.log ++ [.rebased (w.daemon.slot
              (w.daemon.live below)).pid (env.slow (w.daemon.slot
                (w.daemon.live below)).pid)]) = sampledIn w.log := sampledIn_concat _ _
          obtain ⟨samples, logged, written, few, timed⟩ :=
            inductionHypothesis (i + 1) displayed
              (w.putSlot (w.daemon.live below) _ _) (quiet ▸ time)
          refine ⟨samples, logged.trans ?_, written, ?_, timed⟩
          · exact congrArg (fun s : Sampled => (⟨env.now, s.rows ++ samples⟩ : Sampled)) quiet
          · change samples.length ≤ w.daemon.gNActive - (i + 1) at few
            omega
        · rw [outcome]
          dsimp only
          have sampled := sampledIn_takeSample w.log (w.daemon.slot (w.daemon.live below)) hw
            (env.slow (w.daemon.slot (w.daemon.live below)).pid) env.now dt
            (decide ((displayed : Int) < displayLimit))
          rw [CsvRow.of_takeSample]
          rw [time] at sampled
          generalize rowIs : CsvRow.of _ env.now _ = row at sampled ⊢
          have rowTime : row.timestampNs = env.now := by rw [← rowIs]; rfl
          have now := congrArg Sampled.now sampled
          obtain ⟨samples, logged, written, few, timed⟩ := inductionHypothesis (i + 1)
            (if decide ((displayed : Int) < displayLimit) = true then displayed + 1
              else displayed)
            (w.putSlot (w.daemon.live below) _ _) (now.trans time)
          refine ⟨row :: samples, logged.trans ?_, ?_, ?_,
            List.forall_mem_cons.mpr ⟨rowTime, timed⟩⟩
          · have rows := congrArg Sampled.rows sampled
            change (⟨env.now, (sampledIn (w.log ++ _)).rows ++ samples⟩ : Sampled) = _
            rw [rows, List.append_assoc]
            rfl
          · rw [written]
            by_cases room : (displayed : Int) < displayLimit
            · have left : (displayLimit - displayed).toNat =
                  (displayLimit - (displayed + 1 : Nat)).toNat + 1 := by omega
              simp only [room, decide_true, if_true, left, List.take_succ_cons]
              rfl
            · have none : (displayLimit - displayed).toNat = 0 := by omega
              simp [room, none]
          · change samples.length ≤ w.daemon.gNActive - (i + 1) at few
            rw [List.length_cons]
            omega
      · rw [dif_neg below, dif_neg below]
        refine ⟨[], ?_, List.take_nil.symm, Nat.zero_le _, List.forall_mem_nil _⟩
        rw [List.append_nil, ← time]

/-! ## Runs -/

section

variable {qsort : Qsort} {cfg : DaemonConfig}

/-- The samples that a display limit lets through. -/
def displayedOf (cfg : DaemonConfig) (samples : List CsvRow) : List CsvRow :=
  if cfg.topN > 0 then samples.take cfg.topN.toNat else samples

variable (qsort cfg) in
/-- A tick logs samples, and writes the displayed ones as rows. -/
theorem tick_sampledIn (st : LoopState) (env : TickEnv) :
    ∃ samples : List CsvRow,
      sampledIn (tick qsort cfg st env).world.log =
        ⟨env.now, (sampledIn st.world.log).rows ++ samples⟩ ∧
      tickRows qsort cfg st env = displayedOf cfg samples ∧
      ∀ row ∈ samples, row.timestampNs = env.now := by
  have ticked : sampledIn (st.world.emit (.tick env.now st.slowTick)).log =
      ⟨env.now, (sampledIn st.world.log).rows⟩ := sampledIn_concat _ _
  unfold tick tickRows
  cases slow : st.slowTick with
  | true =>
      rw [slow] at ticked
      simp only [if_true]
      have synced := (syncPids_logsQuiet qsort cfg env.sync
        (st.world.emit (.tick env.now true))).sampledIn_eq
      unfold fastPath slowPath
      dsimp only
      generalize syncPids qsort cfg env.sync _ = w at synced ⊢
      obtain ⟨samples, logged, written, few, timed⟩ := slowLoop_sampledIn env (slowDt st env.now)
        (if cfg.topN > 0 then cfg.topN else (w.daemon.gNActive : Int))
        w.daemon.gNActive 0 0 w (by rw [synced, ticked])
      refine ⟨samples, ?_, ?_, timed⟩
      · rw [(fastLoop_logsQuiet env.now _ 0 _).sampledIn_eq, logged, synced, ticked]
      · rw [written]
        unfold displayedOf
        by_cases limited : cfg.topN > 0
        · simp [limited]
        · rw [if_neg limited, if_neg limited, List.take_of_length_le (by omega)]
  | false =>
      rw [slow] at ticked
      simp only [Bool.false_eq_true, if_false]
      refine ⟨[], ?_, ?_, List.forall_mem_nil _⟩
      · unfold fastPath
        rw [(fastLoop_logsQuiet env.now _ 0 _).sampledIn_eq, ticked, List.append_nil]
      · unfold displayedOf
        rw [List.take_nil, ite_self]

variable (qsort cfg) in
/-- From any state of the loop, the ticks log batches of samples, and write the
displayed ones of each batch. -/
theorem ticksRows_spec (st : LoopState) (envs : List TickEnv) :
    ∃ batches : List (List CsvRow),
      List.Forall₂ (fun env samples => ∀ row ∈ samples, row.timestampNs = env.now)
        envs batches ∧
      (sampledIn (envs.foldl (tick qsort cfg) st).world.log).rows =
        (sampledIn st.world.log).rows ++ batches.flatten ∧
      ticksRows qsort cfg st envs = batches.flatMap (displayedOf cfg) := by
  induction envs generalizing st with
  | nil => exact ⟨[], .nil, (List.append_nil _).symm, rfl⟩
  | cons env rest inductionHypothesis =>
      obtain ⟨samples, logged, written, timed⟩ :=
        tick_sampledIn qsort cfg st env
      obtain ⟨batches, times, later, rows⟩ :=
        inductionHypothesis (tick qsort cfg st env)
      refine ⟨samples :: batches, .cons timed times, ?_, ?_⟩
      · rw [List.foldl_cons, later, logged, List.append_assoc]
        rfl
      · rw [ticksRows, written, rows]
        rfl

/-- In every run the log of samples falls into one batch for each tick, all at the
time of the tick, and the file has the batches in order: with `--top` the first
samples of each batch, as many as it says, and otherwise all of them. -/
theorem csvRows_run
    (qsort : Qsort)
    (cfg : DaemonConfig)
    (start : UInt64)
    (envs : List TickEnv) :
    ∃ batches : List (List CsvRow),
      List.Forall₂ (fun env samples => ∀ row ∈ samples, row.timestampNs = env.now)
        envs batches ∧
      (sampledIn (runSamplingLoop qsort cfg start envs).world.log).rows =
        batches.flatten ∧
      ticksRows qsort cfg (LoopState.start start) envs =
        batches.flatMap fun samples =>
          if cfg.topN > 0 then samples.take cfg.topN.toNat else samples :=
  ticksRows_spec qsort cfg (LoopState.start start) envs

end

end Schedmon
