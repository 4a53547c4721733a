import Schedmon.Calibrate.CollectSamples
import Schedmon.Daemon.ParseArgs
import Schedmon.Daemon.Tracking

/-!
# The daemon that calibration starts

The arguments with which `collect_samples` starts the daemon, and whose samples the
daemon then writes.
-/

namespace Schedmon

open Library EventLog CString Decimal Csv

/-! ## The arguments -/

/-- An argument written out. -/
def Argument.literal (text : String) (noZero : 0 ∉ ascii text) : Argument :=
  ⟨ascii text, noZero⟩

/-- `",".join(map(str, pids))`. -/
def joinedPids (pids : List ℕ) : Argument where
  bytes := List.intercalate [44] (pids.map decimal)
  noZero := by
    intro zero
    rcases mem_intercalate zero with comma | ⟨number, listed, digit⟩
    · exact absurd comma (by decide)
    · obtain ⟨pid, -, rfl⟩ := List.mem_map.mp listed
      exact absurd (isdigit_of_mem_decimal digit) (by decide)

/-- The arguments behind the path of the BPF object. -/
def calibrationArgs (pids : List ℕ) (csvPath label : Argument) : List Argument :=
  [.literal "--pids" (by decide), joinedPids pids, .literal "--csv" (by decide), csvPath,
    .literal "--interval" (by decide), .literal "50" (by decide),
    .literal "--label" (by decide), label]

theorem settings_calibrationArgs (pids : List ℕ) (csvPath label : Argument) :
    settings (calibrationArgs pids csvPath label) =
      [.valued .pids (joinedPids pids), .valued .csv csvPath,
        .valued .interval (.literal "50" (by decide)), .valued .label label] := rfl

theorem pidIn_decimal
    {pid : ℕ}
    (valid : 0 < pid ∧ (pid : Int) ≤ linuxPidMax) :
    pidIn (decimal pid) = some (pid : Int) := by
  unfold pidIn
  rw [scanInt_decimal]
  exact if_pos ⟨by exact_mod_cast valid.1, valid.2⟩

/-- The pids of the joined text. -/
theorem pidsIn_joinedPids
    {pids : List ℕ}
    (valid : ∀ pid ∈ pids, 0 < pid ∧ (pid : Int) ≤ linuxPidMax) :
    pidsIn (joinedPids pids) = pids.map Nat.cast := by
  rw [pidsIn_eq_tokens]
  unfold joinedPids
  dsimp only
  rw [tokens_intercalate]
  · have each : ∀ pid ∈ pids, (pidIn ∘ decimal) pid = some ((pid : ℕ) : Int) :=
      fun pid listed => pidIn_decimal (valid pid listed)
    rw [List.filterMap_map, List.filterMap_congr each, ← List.filterMap_eq_map]
    rfl
  · intro word listed
    obtain ⟨pid, -, rfl⟩ := List.mem_map.mp listed
    refine ⟨decimal_ne_nil pid, fun comma => ?_⟩
    exact absurd (isdigit_of_mem_decimal comma) (by decide)

/-- The configuration of the daemon. -/
theorem parseArgs_calibrationArgs
    {pids : List ℕ}
    (valid : ∀ pid ∈ pids, 0 < pid ∧ (pid : Int) ≤ linuxPidMax)
    (csvPath label : Argument) :
    ∃ cfg, parseArgs (calibrationArgs pids csvPath label) = some cfg ∧
      cfg.pids.pids = (pids.map Nat.cast).take maxPids ∧
      cfg.topN = (if pids = [] then 256 else 0) ∧
      cfg.intervalMs = 50 ∧ cfg.minUid = 0 ∧
      cfg.csvPath = some csvPath ∧ cfg.label = some label ∧
      cfg.terminalMode = false ∧ cfg.showZero = false := by
  obtain ⟨cfg, parsed, listed, topN, intervalMs, minUid, path, labelled, terminal, zero⟩ :=
    parseArgs_spec (calibrationArgs pids csvPath label)
  have values (option : ValuedOption) :
      valuesOf option (calibrationArgs pids csvPath label) =
        valuesIn option [.valued .pids (joinedPids pids), .valued .csv csvPath,
          .valued .interval (.literal "50" (by decide)), .valued .label label] :=
    congrArg (valuesIn option) (settings_calibrationArgs pids csvPath label)
  have flags (name : String) :
      hasFlag name (calibrationArgs pids csvPath label) = false :=
    congrArg (List.any · (Setting.isFlag name))
      (settings_calibrationArgs pids csvPath label)
  have watched : cfg.pids.pids = (pids.map Nat.cast).take maxPids := by
    rw [listed, values]
    change ([joinedPids pids].flatMap pidsIn).take maxPids = _
    rw [List.flatMap_singleton, pidsIn_joinedPids valid]
  refine ⟨cfg, parsed, watched, ?_, ?_, ?_, ?_, ?_, ?_, ?_⟩
  · rw [topN, values, watched]
    cases pids with
    | nil => rfl
    | cons pid rest => rfl
  · rw [intervalMs, values]
    change parseInterval [atoiText (ascii "50")] = 50
    decide
  · rw [minUid, values]
    rfl
  · rw [path, values]
    rfl
  · rw [labelled, values]
    rfl
  · rw [terminal, flags]
  · rw [zero, flags, flags]
    rfl

/-! ## Whose samples the daemon takes -/

/-- The pid of a sample. -/
def Event.sampledPid? : Event → Option Int
  | .sampled pid _ _ _ _ _ => some pid
  | _ => none

/-- In explicit mode every sample is of a configured pid. -/
def sampledLaw (cfg : DaemonConfig) : SlotLaw cfg where
  holds := fun _ _ r => cfg.pids ≠ [] → r.pid ∈ cfg.pids
  law := fun _ e => cfg.pids ≠ [] → ∀ pid ∈ e.sampledPid?, pid ∈ cfg.pids
  frame := fun _ _ _ _ _ _ _ holds => holds
  tick := fun _ _ _ _ _ _ sampled => nomatch sampled
  startSlow := fun _ _ _ holds => holds
  startFast := fun _ _ _ holds => holds
  mark := fun _ _ _ holds => holds
  refused := fun _ _ _ _ _ =>
    ⟨along_fdEvents (fun _ _ _ _ sampled => nomatch sampled) _, trivial⟩
  added := fun _ _ _ _ _ _ candidate _ =>
    ⟨along_fdEvents_snoc (fun _ _ _ _ sampled => nomatch sampled)
      (fun _ _ sampled => nomatch sampled), candidate⟩
  removed := fun _ _ _ _ =>
    ⟨along_fdEvents_snoc (fun _ _ _ _ sampled => nomatch sampled)
      (fun _ _ sampled => nomatch sampled), trivial⟩
  visit := by
    intro log r readings displayed after events _ _ holds wrote
    refine ⟨?_, fun explicit => SlotWrite.apply_pid wrote ▸ holds explicit⟩
    obtain ⟨hw, _, ⟨_, rfl, rfl⟩ | ⟨_, _, rfl, rfl⟩⟩ := SlotWrite.slow_cases wrote
    · exact along_singleton.mpr fun _ _ sampled => nomatch sampled
    · generalize slowInterval (slowTimes log) = dt
      have own : Along (fun _ e => cfg.pids ≠ [] → ∀ pid ∈ e.sampledPid?, pid ∈ cfg.pids)
          log (sampleEvents r hw readings dt) := by
        apply along_fdEvents_snoc fun _ _ _ _ sampled => nomatch sampled
        intro explicit pid sampled
        rw [← Option.some.inj sampled]
        exact holds explicit
      rcases takeSample_cases r hw readings (currentTime log) dt displayed with
        ⟨_, equal⟩ | ⟨_, equal⟩
      · rw [equal, along_append, along_cons, along_singleton]
        refine ⟨own, ?_, ?_⟩
        · exact fun _ _ sampled => nomatch sampled
        · exact fun _ _ sampled => nomatch sampled
      · rw [equal]
        exact own
  fast := by
    intro log r _ holds
    refine ⟨?_, fun explicit => (fastVisit_pid _ _).symm ▸ holds explicit⟩
    unfold fastVisit
    split
    · exact along_singleton.mpr fun _ _ sampled => nomatch sampled
    · exact along_nil _ _

/-- In explicit mode every row is of a configured pid. -/
theorem row_pid_mem
    {qsort : Qsort}
    {cfg : DaemonConfig}
    (explicit : cfg.pids ≠ [])
    {start : UInt64}
    {envs : List TickEnv}
    {row : CsvRow}
    (written : row ∈ ticksRows qsort cfg (LoopState.start start) envs) :
    row.pid ∈ cfg.pids := by
  have laws := (runSamplingLoop_lawful (sampledLaw cfg) qsort start envs).governed.laws
  obtain ⟨pid, prior, hw, readings, dt, now, metrics, logged, rfl⟩ :=
    exists_sampled_of_mem_rows (ticksRows_subset qsort cfg start envs written)
  obtain ⟨before, after, split⟩ := List.append_of_mem logged
  exact laws before _ after split explicit pid rfl

/-- The daemon that calibration starts reads its arguments back as the first pids,
the path and the label, every 50 ms.  Where there is a pid, it displays every sample
that it takes, and takes them of these pids only. -/
theorem calibration_daemon
    {pids : List ℕ}
    (valid : ∀ pid ∈ pids, 0 < pid ∧ (pid : Int) ≤ linuxPidMax)
    (csvPath label : Argument) :
    ∃ cfg, parseArgs (calibrationArgs pids csvPath label) = some cfg ∧
      cfg.pids.pids = (pids.map Nat.cast).take maxPids ∧
      cfg.topN = (if pids = [] then 256 else 0) ∧
      cfg.intervalMs = 50 ∧ cfg.minUid = 0 ∧
      cfg.csvPath = some csvPath ∧ cfg.label = some label ∧
      cfg.terminalMode = false ∧ cfg.showZero = false ∧
      (pids ≠ [] → ∀ qsort start envs,
        ticksRows qsort cfg.daemonConfig (LoopState.start start) envs =
          (sampledIn (runSamplingLoop qsort cfg.daemonConfig start envs).world.log).rows ∧
        ∀ row ∈ ticksRows qsort cfg.daemonConfig (LoopState.start start) envs,
          row.pid ∈ (pids.map Nat.cast).take maxPids) := by
  obtain ⟨cfg, parsed, listed, topN, intervalMs, minUid, path, labelled, terminal, zero⟩ :=
    parseArgs_calibrationArgs valid csvPath label
  refine ⟨cfg, parsed, listed, topN, intervalMs, minUid, path, labelled, terminal, zero,
    ?_⟩
  intro some qsort start envs
  rw [if_neg some] at topN
  have unlimited : ¬cfg.daemonConfig.topN > 0 := topN.not_gt
  have explicit : cfg.daemonConfig.pids ≠ [] := by
    change cfg.pids.pids ≠ []
    rw [listed]
    obtain ⟨pid, rest, rfl⟩ := List.exists_cons_of_ne_nil some
    exact List.cons_ne_nil _ _
  refine ⟨ticksRows_eq_sampled unlimited start envs, fun row written => ?_⟩
  rw [← listed]
  exact row_pid_mem explicit written

theorem calibration_daemon_twoPids :
    ∃ cfg, parseArgs (calibrationArgs [1000, 31] (.literal "_calib_cpu.csv" (by decide))
        (.literal "cpu" (by decide))) = some cfg ∧
      cfg.pids.pids = [1000, 31] ∧ cfg.topN = 0 := by
  have valid : ∀ pid ∈ [1000, 31], 0 < pid ∧ ((pid : ℕ) : Int) ≤ linuxPidMax := by
    simp [linuxPidMax]
  obtain ⟨cfg, parsed, listed, topN, -⟩ := calibration_daemon valid
    (.literal "_calib_cpu.csv" (by decide)) (.literal "cpu" (by decide))
  exact ⟨cfg, parsed, listed, topN⟩

end Schedmon
