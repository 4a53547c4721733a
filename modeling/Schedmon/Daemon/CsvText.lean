import Schedmon.Daemon.Bounds
import Schedmon.Daemon.CsvLog
import Schedmon.Daemon.Resets
import Schedmon.Library.Csv
import Schedmon.Library.FixedPoint

/-!
# The text of the CSV log

The header that `main` writes and the line that the slow path writes for a row.
In every run a reader of comma-separated values gets the printed fields back:
no metric is so large that its text would not fit a field.
-/

namespace Schedmon

open Library EventLog Csv FixedPoint

/-- The fields of a row as `fprintf` prints them. -/
def CsvRow.fields (row : CsvRow) : List (List Char) :=
  [printedInt row.pid, signed row.timestampNs.toNat, fixed 4 row.ipc, fixed 6 row.llcMiss,
    fixed 2 row.ctxFreq, fixed 2 row.ioFreq, fixed 3 row.ioWaitMs, fixed 3 row.rqWaitMs,
    fixed 3 row.migrationFreq, fixed 2 row.ioSyscallFreq]

/-- The names in the first line. -/
def csvNames : List (List Char) :=
  ["pid".toList, "timestamp_ns".toList, "ipc".toList, "llc_miss".toList,
    "ctx_freq".toList, "io_freq".toList, "io_wait_ms".toList, "rq_wait_ms".toList,
    "migration_freq".toList, "io_syscall_freq".toList]

/-- The last column, where `--label` is given. -/
def labelColumn (label : Option (List Char)) (last : List Char → List Char) :
    List (List Char) :=
  match label with
  | none => []
  | some label => [last label]

/-- The names, with that of the last column. -/
def csvHeader (label : Option (List Char)) : List (List Char) :=
  csvNames ++ labelColumn label fun _ => "label".toList

/-- The fields of a row, with the last column. -/
def CsvRow.record (label : Option (List Char)) (row : CsvRow) : List (List Char) :=
  row.fields ++ labelColumn label id

/-- The text of the file after some rows. -/
def csvText (label : Option (List Char)) (rows : List CsvRow) : List Char :=
  line (csvHeader label) ++ rows.flatMap fun row => line (row.record label)

/-! ## How large a metric can be -/

theorem inv_billion_le_slowInterval (times : List UInt64) :
    1 / 1000000000 ≤ slowInterval times := by
  unfold slowInterval
  split
  · dsimp only
    split
    · next elapsed =>
        apply div_le_div_of_nonneg_right _ (by norm_num)
        exact_mod_cast elapsed
    · norm_num
  · norm_num

theorem toQ_le (value : UInt64) : toQ value ≤ 2 ^ 64 := by
  unfold toQ
  exact_mod_cast value.toNat_lt.le

/-- A rate over an interval of a nanosecond at least. -/
theorem div_interval_le
    {amount dt : ℚ}
    (bounded : amount ≤ 2 ^ 64)
    (interval : 1 / 1000000000 ≤ dt) :
    amount / dt ≤ 10 ^ 29 := by
  have positive : 0 < dt := lt_of_lt_of_le (by norm_num) interval
  rw [div_le_iff₀ positive]
  calc amount ≤ 2 ^ 64 := bounded
    _ ≤ 10 ^ 29 * (1 / 1000000000) := by norm_num
    _ ≤ 10 ^ 29 * dt := mul_le_mul_of_nonneg_left interval (by norm_num)

theorem perSecond_le
    {amount dt : ℚ}
    (bounded : amount ≤ 2 ^ 64)
    (interval : 1 / 1000000000 ≤ dt) :
    perSecond amount dt ≤ 10 ^ 29 := by
  unfold perSecond
  split
  · exact div_interval_le bounded interval
  · norm_num

/-- A ratio of two counts. -/
theorem ratio_le (part whole : UInt64) (positive : whole > 0) :
    toQ part / toQ whole ≤ 10 ^ 29 := by
  have one : 1 ≤ toQ whole := by
    unfold toQ
    exact_mod_cast UInt64.lt_iff_toNat_lt.mp positive
  calc toQ part / toQ whole ≤ toQ part := div_le_self (toQ_nonneg part) one
    _ ≤ 2 ^ 64 := toQ_le part
    _ ≤ 10 ^ 29 := by norm_num

/-- The samples of an interval in which no migration was pending. -/
theorem rawSample_le
    {st : PidState}
    (hw : RawCounters)
    (readings : SlowReadings)
    {dt : ℚ}
    (interval : 1 / 1000000000 ≤ dt)
    (idle : st.migrationCount = 0) :
    ∀ field ∈ RawSample.fields, field (rawSample st hw readings dt) ≤ 10 ^ 29 := by
  have waits := rawSample_boundedWaits st hw readings dt
  have migrations : (countMigration st readings.lastCpu : ℚ) ≤ 2 ^ 64 := by
    unfold countMigration
    rw [idle]
    split <;> norm_num
  simp only [RawSample.fields, List.forall_mem_cons]
  refine ⟨?_, ?_, ?_, ?_, ?_, ?_, ?_, ?_, List.forall_mem_nil _⟩
  · unfold rawSample
    dsimp only
    split
    · next cycles => exact ratio_le _ _ cycles
    · norm_num
  · unfold rawSample
    dsimp only
    split
    · next both => exact ratio_le _ _ both.2
    · norm_num
  · exact div_interval_le (toQ_le _) interval
  · exact perSecond_le (toQ_le _) interval
  · exact waits.ioWaitMs.trans (by norm_num)
  · exact waits.rqWaitMs.trans (by norm_num)
  · exact perSecond_le migrations interval
  · exact perSecond_le (toQ_le _) interval

section

variable {log : List Event}

/-- Every sample in a log of passes was taken with no migration pending, over an
interval of a nanosecond at least. -/
theorem rawSample_le_of_sampled
    (replayed : EachEvent replayLaw log)
    {pid : Int}
    {prior : PidState}
    {hw : RawCounters}
    {readings : SlowReadings}
    {dt : ℚ}
    {metrics : SmoothedMetrics}
    (logged : .sampled pid prior hw readings dt metrics ∈ log) :
    ∀ field ∈ RawSample.fields, field (rawSample prior hw readings dt) ≤ 10 ^ 29 := by
  obtain ⟨before, after, split⟩ := List.append_of_mem logged
  obtain ⟨r, slot, -, rfl, -, -, -, rfl, -⟩ := replayed before _ after split
  have idle : r.core.state.migrationCount = 0 :=
    noMigration_invariant.replicaAt pid before r.core slot
  exact rawSample_le hw readings (inv_billion_le_slowInterval _) idle

/-- No metric of a sample is negative, and none is large. -/
theorem metrics_bounds_of_sampled
    (replayed : EachEvent replayLaw log)
    (windows : EachEvent windowsLaw.eventLaw log)
    {pid : Int}
    {prior : PidState}
    {hw : RawCounters}
    {readings : SlowReadings}
    {dt : ℚ}
    {metrics : SmoothedMetrics}
    (logged : .sampled pid prior hw readings dt metrics ∈ log) :
    ∀ metric ∈ metrics.metrics, 0 ≤ metric ∧ metric ≤ 10 ^ 29 := by
  obtain ⟨before, after, split⟩ := List.append_of_mem logged
  obtain ⟨-, means⟩ := metrics_eq_recentMeans windows split
  rw [means]
  intro metric member
  obtain ⟨field, listed, rfl⟩ := List.mem_map.mp member
  refine ⟨recentMean_nonneg (extended_nonneg windows split listed), ?_⟩
  apply recentMean_map_le (by norm_num)
  intro raw inside
  obtain ⟨_, _, _, _, _, earlier, rfl⟩ := exists_sampled_of_mem_extended split inside
  exact rawSample_le_of_sampled replayed earlier field listed

end

/-- The metrics of a row. -/
def CsvRow.metrics (row : CsvRow) : List ℚ :=
  [row.ipc, row.llcMiss, row.ctxFreq, row.ioFreq, row.ioWaitMs, row.rqWaitMs,
    row.migrationFreq, row.ioSyscallFreq]

/-- A row is that of a logged sample. -/
theorem exists_sampled_of_mem_rows
    {log : List Event}
    {row : CsvRow}
    (member : row ∈ (sampledIn log).rows) :
    ∃ pid prior hw readings dt now metrics,
      .sampled pid prior hw readings dt metrics ∈ log ∧ row = .of pid now metrics := by
  induction log using List.reverseRecOn with
  | nil => exact absurd member List.not_mem_nil
  | append_singleton log e inductionHypothesis =>
      have earlier (old : row ∈ (sampledIn log).rows) :
          ∃ pid prior hw readings dt now metrics,
            .sampled pid prior hw readings dt metrics ∈ log ++ [e] ∧
              row = .of pid now metrics := by
        obtain ⟨pid, prior, hw, readings, dt, now, metrics, logged, equal⟩ :=
          inductionHypothesis old
        exact ⟨pid, prior, hw, readings, dt, now, metrics, List.mem_append_left _ logged,
          equal⟩
      rw [sampledIn_concat] at member
      cases e with
      | sampled pid prior hw readings dt metrics =>
          rcases List.mem_append.mp member with old | new
          · exact earlier old
          · exact ⟨pid, prior, hw, readings, dt, _, metrics,
              List.mem_append_right _ List.mem_cons_self, List.mem_singleton.mp new⟩
      | _ => exact earlier member

/-- No metric of a run's rows is negative, and none is large. -/
theorem rows_bounds_run
    (qsort : Qsort)
    (cfg : DaemonConfig)
    (start : UInt64)
    (envs : List TickEnv) :
    ∀ row ∈ (sampledIn (runSamplingLoop qsort cfg start envs).world.log).rows,
      ∀ metric ∈ row.metrics, 0 ≤ metric ∧ metric ≤ 10 ^ 29 := by
  intro row member
  have replayed := runSamplingLoop_replayLaw qsort cfg start envs
  have windows := windowsLaw.eventLaw_run qsort cfg start envs
  obtain ⟨pid, prior, hw, readings, dt, now, metrics, logged, rfl⟩ :=
    exists_sampled_of_mem_rows member
  exact metrics_bounds_of_sampled replayed windows logged

/-! ## The file as records -/

open PythonText

/-- A label without the characters that separate or quote fields. -/
def PlainLabel (label : Option (List Char)) : Prop := ∀ text ∈ label, Plain text

/-- Digits, points and letters come behind the characters that are not plain. -/
theorem plain_of_codes
    {field : List Char}
    (codes : ∀ c ∈ field, 45 ≤ c.toNat)
    (short : field.length ≤ 100) :
    Plain field where
  noComma := fun member => absurd (codes _ member) (by decide)
  noQuote := fun member => absurd (codes _ member) (by decide)
  noNewline := fun member => absurd (codes _ member) (by decide)
  noReturn := fun member => absurd (codes _ member) (by decide)
  short := short.trans (by decide)

theorem plain_fixed
    {places : ℕ}
    {x : ℚ}
    (positive : 0 < places)
    (few : places ≤ 6)
    (bounds : 0 ≤ x ∧ x ≤ 10 ^ 29) :
    Plain (fixed places x) := by
  apply plain_of_codes fun _ member => (numeric_of_mem_fixed member).1
  have length := length_fixed_le positive ((abs_of_nonneg bounds.1).trans_le bounds.2)
  omega

theorem plain_fields
    {row : CsvRow}
    (bounds : ∀ metric ∈ row.metrics, 0 ≤ metric ∧ metric ≤ 10 ^ 29) :
    ∀ field ∈ row.fields, Plain field := by
  have time : row.timestampNs.toNat < 10 ^ 20 := row.timestampNs.toNat_lt.trans (by decide)
  have timeLength := length_signed_le (n := row.timestampNs.toNat) time (by decide)
  have pidLength := length_printedInt_le row.pid
  simp only [CsvRow.metrics, List.forall_mem_cons] at bounds
  obtain ⟨ipc, llcMiss, ctxFreq, ioFreq, ioWaitMs, rqWaitMs, migrationFreq, ioSyscallFreq,
    -⟩ := bounds
  simp only [CsvRow.fields, List.forall_mem_cons]
  exact ⟨plain_of_codes (fun _ member => (numeric_of_mem_signed member).1)
      (pidLength.trans (by decide)),
    plain_of_codes (fun _ member => (numeric_of_mem_signed member).1) (by omega),
    plain_fixed (by decide) (by decide) ipc, plain_fixed (by decide) (by decide) llcMiss,
    plain_fixed (by decide) (by decide) ctxFreq, plain_fixed (by decide) (by decide) ioFreq,
    plain_fixed (by decide) (by decide) ioWaitMs,
    plain_fixed (by decide) (by decide) rqWaitMs,
    plain_fixed (by decide) (by decide) migrationFreq,
    plain_fixed (by decide) (by decide) ioSyscallFreq, List.forall_mem_nil _⟩

theorem plain_name
    {name : List Char}
    (codes : (name.all fun c => 45 ≤ c.toNat) = true)
    (short : name.length ≤ 100) :
    Plain name :=
  plain_of_codes (fun c member => of_decide_eq_true (List.all_eq_true.mp codes c member))
    short

theorem plainRecord_header (label : Option (List Char)) :
    PlainRecord (csvHeader label) := by
  refine ⟨List.cons_ne_nil _ _, fun equal => ?_, ?_⟩
  · exact absurd (List.cons.inj equal).1 (by decide)
  · intro name member
    rcases List.mem_append.mp member with column | last
    · simp only [csvNames, List.mem_cons, List.not_mem_nil, or_false] at column
      rcases column with rfl | rfl | rfl | rfl | rfl | rfl | rfl | rfl | rfl | rfl <;>
        exact plain_name (by decide) (by decide)
    · cases label with
      | none => cases last
      | some label =>
          rw [List.mem_singleton.mp last]
          exact plain_name rfl (by dsimp only; decide)

theorem plainRecord_row
    {label : Option (List Char)}
    (plainLabel : PlainLabel label)
    {row : CsvRow}
    (bounds : ∀ metric ∈ row.metrics, 0 ≤ metric ∧ metric ≤ 10 ^ 29) :
    PlainRecord (row.record label) := by
  refine ⟨List.cons_ne_nil _ _, fun equal => ?_, ?_⟩
  · exact absurd (List.cons.inj equal).2 (List.cons_ne_nil _ _)
  · intro field member
    rcases List.mem_append.mp member with column | last
    · exact plain_fields bounds field column
    · cases label with
      | none => cases last
      | some label =>
          rw [List.mem_singleton.mp last]
          exact plainLabel label rfl

/-- The records of the file are what was printed. -/
theorem dictReader_csvText
    {label : Option (List Char)}
    (plainLabel : PlainLabel label)
    {rows : List CsvRow}
    (bounds : ∀ row ∈ rows, ∀ metric ∈ row.metrics, 0 ≤ metric ∧ metric ≤ 10 ^ 29) :
    dictReader (lines (universalNewlines (csvText label rows))) =
      some (rows.map fun row => dictRow (csvHeader label) (row.record label)) := by
  have header := plainRecord_header label
  have records : ∀ fields ∈ rows.map (CsvRow.record label), PlainRecord fields := by
    intro fields member
    obtain ⟨row, listed, rfl⟩ := List.mem_map.mp member
    exact plainRecord_row plainLabel (bounds row listed)
  -- the text as lines with a newline behind each
  have text : csvText label rows =
      ((csvHeader label :: rows.map (CsvRow.record label)).map
        (List.intercalate [','])).flatMap (· ++ ['\n']) := by
    unfold csvText line
    rw [List.map_cons, List.flatMap_cons, List.flatMap_map, List.flatMap_map]
  have oneLine : ∀ written ∈ (csvHeader label :: rows.map (CsvRow.record label)).map
      (List.intercalate [',']), '\n' ∉ written ∧ '\r' ∉ written := by
    intro written member
    obtain ⟨fields, listed, rfl⟩ := List.mem_map.mp member
    rcases List.mem_cons.mp listed with rfl | row
    · exact header.oneLine
    · exact (records fields row).oneLine
  have noReturn : '\r' ∉ csvText label rows := by
    rw [text, List.mem_flatMap]
    rintro ⟨written, listed, member⟩
    rcases List.mem_append.mp member with inside | newline
    · exact (oneLine written listed).2 inside
    · exact absurd newline (by decide)
  have translated := universalNewlines_append noReturn []
  have split := lines_flatMap (fun written listed => (oneLine written listed).1) []
  rw [List.append_nil] at translated split
  rw [← text] at split
  rw [translated, show universalNewlines [] = [] from rfl, List.append_nil, split]
  have read := dictReader_lines header records
  rw [List.map_map] at read
  rw [show lines [] = [] from rfl, List.append_nil, List.map_map, List.map_cons,
    List.map_map]
  exact read.trans (congrArg some List.map_map)

end Schedmon
