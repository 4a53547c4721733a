import Schedmon.Calibrate.Summaries
import Schedmon.Daemon.CsvText
import Schedmon.Daemon.Runs

/-!
# Collecting samples

`collect_samples` of the calibration, from the file that the daemon leaves.  The
numbers are of any type, in which zero has no sign, with a function for Python's
`float` of a text, which is absent where it raises an exception.
-/

namespace Schedmon

open Library Csv FixedPoint PythonText Rounding

/-- The dictionary of lists that `collect_samples` fills. -/
abbrev SampleLists (F : Type) := Metric → List F

namespace Metric

/-- The column of a key. -/
def column : Metric → List Char
  | ipc => "ipc".toList
  | llc => "llc_miss".toList
  | ctx => "ctx_freq".toList
  | ioFreq => "io_freq".toList
  | ioWait => "io_wait_ms".toList
  | rqWait => "rq_wait_ms".toList

/-- Whether the column is read with `row.get(column, 0)`. -/
def hasDefault : Metric → Bool
  | ipc => false
  | llc => false
  | ctx => false
  | ioFreq => true
  | ioWait => true
  | rqWait => true

/-- The value of the column in a row, as it was printed. -/
def printed : Metric → CsvRow → ℚ
  | ipc, row => toDigits 4 row.ipc
  | llc, row => toDigits 6 row.llcMiss
  | ctx, row => toDigits 2 row.ctxFreq
  | ioFreq, row => toDigits 2 row.ioFreq
  | ioWait, row => toDigits 3 row.ioWaitMs
  | rqWait, row => toDigits 3 row.rqWaitMs

end Metric

/-- `int(row["timestamp_ns"])`, or an exception. -/
def timestampOf (row : DictRow) : Option Int := do
  let field ← row.get? "timestamp_ns".toList
  let text ← field
  int text

/-- The variables of the loop over the rows. -/
structure Collecting (F : Type) where
  rows : SampleLists F
  nFiltered : ℕ

/-- What `collect_samples` returns and prints. -/
structure Collected (F : Type) where
  rows : SampleLists F
  /-- Whether it warned about an exception. -/
  parseError : Bool
  /-- The number of filtered samples that it printed, if it did. -/
  filtered : Option ℕ

section Collect

variable {F : Type} [Zero F] [DecidableEq F] (float : List Char → Option F)

/-- `float(row[column])` or `float(row.get(column, 0))`, or an exception. -/
def numberOf (row : DictRow) (metric : Metric) : Option F :=
  match row.get? metric.column with
  | some (some text) => float text
  | some none => none
  | none => if metric.hasDefault then some 0 else none

/-- Append the numbers of some metrics, up to an exception, and whether there was
none. -/
def appendNumbers (row : DictRow) :
    List Metric → SampleLists F → SampleLists F × Bool
  | [], rows => (rows, true)
  | metric :: rest, rows =>
      match numberOf float row metric with
      | none => (rows, false)
      | some number =>
          appendNumbers row rest
            (Function.update rows metric (rows metric ++ [number]))

/-- The loop body, up to an exception, and whether there was none. -/
def collectRow (cutoffNs : Int) (filterZeros : Bool) (row : DictRow)
    (s : Collecting F) : Collecting F × Bool :=
  match timestampOf row with
  | none => (s, false)
  | some timestampNs =>
      if timestampNs < cutoffNs then (s, true)
      else
        match numberOf float row .ipc with
        | none => (s, false)
        | some ipcVal =>
            if filterZeros ∧ ipcVal = 0 then
              ({ s with nFiltered := s.nFiltered + 1 }, true)
            else
              let (rows, intact) := appendNumbers float row
                [.llc, .ctx, .ioFreq, .ioWait, .rqWait]
                (Function.update s.rows .ipc (s.rows .ipc ++ [ipcVal]))
              ({ s with rows := rows }, intact)

/-- The loop over the rows. -/
def collectRows (cutoffNs : Int) (filterZeros : Bool) :
    List DictRow → Collecting F → Collecting F × Bool
  | [], s => (s, true)
  | row :: rest, s =>
      match collectRow float cutoffNs filterZeros row s with
      | (s, false) => (s, false)
      | (s, true) => collectRows cutoffNs filterZeros rest s

/-- `collect_samples` after the daemon has stopped, given the text of its file, if
there is one, and `int(warmup_s * 1e9)`.  An exception before the loop leaves
`n_filtered` unbound: with `filter_zeros` reading it raises another one, which is
not caught. -/
def collectSamples (warmupNs : Int) (filterZeros : Bool)
    (file : Option (List Char)) : Option (Collected F) :=
  let nothing : SampleLists F := fun _ => []
  let unbound : Option (Collected F) :=
    if filterZeros then none else some ⟨nothing, true, none⟩
  match file with
  | none => some ⟨nothing, false, none⟩
  | some text =>
      match dictReader (lines (universalNewlines text)) with
      | none => unbound
      | some [] => some ⟨nothing, false, none⟩
      | some (first :: rest) =>
          match timestampOf first with
          | none => unbound
          | some firstTs =>
              let (s, intact) := collectRows float (firstTs + warmupNs) filterZeros
                (first :: rest) ⟨nothing, 0⟩
              some
                { rows := s.rows
                  parseError := !intact
                  filtered :=
                    if filterZeros ∧ s.nFiltered ≠ 0 then some s.nFiltered else none }

end Collect

/-! ## The columns of a written row -/

/-- A row of the file as a dictionary. -/
def CsvRow.dict (label : Option (List Char)) (row : CsvRow) : DictRow :=
  dictRow (csvHeader label) (row.record label)

/-- No later column has the name, with a label or without. -/
theorem not_mem_drop_header
    {key : List Char}
    {k : ℕ}
    (absent : key ∉ csvNames.drop k ++ ["label".toList])
    (label : Option (List Char)) :
    key ∉ (csvHeader label).drop k := by
  intro member
  apply absent
  rw [csvHeader, List.drop_append] at member
  rcases List.mem_append.mp member with name | last
  · exact List.mem_append_left _ name
  · cases label with
    | none => exact absurd (List.mem_of_mem_drop last) List.not_mem_nil
    | some label => exact List.mem_append_right _ (List.mem_of_mem_drop last)

theorem timestampOf_dict (label : Option (List Char)) (row : CsvRow) :
    timestampOf (row.dict label) = some (row.timestampNs.toNat : Int) := by
  have column : (row.dict label).get? "timestamp_ns".toList =
      some (some (signed row.timestampNs.toNat)) :=
    get?_dictRow 1 rfl (not_mem_drop_header (by decide) label) rfl
  have text : signed (row.timestampNs.toNat : Int) =
      Utf8.asciiChars (Decimal.decimal row.timestampNs.toNat) :=
    if_neg (by omega)
  rw [timestampOf, column]
  exact (congrArg int text).trans (int_decimal _)

section Written

variable {F : Type} [Zero F] {float : List Char → Option F} {nearest : ℚ → F}

/-- `float` of a text with a decimal point is the float nearest to its value. -/
def ReadsNearest (float : List Char → Option F) (nearest : ℚ → F) : Prop :=
  ∀ text x, FixedPoint.value text = some x → float text = some (nearest x)

theorem numberOf_dict
    (reads : ReadsNearest float nearest)
    (label : Option (List Char))
    (row : CsvRow)
    (metric : Metric) :
    numberOf float (row.dict label) metric = some (nearest (metric.printed row)) := by
  have read {places : ℕ} {x : ℚ} (k : ℕ) (positive : 0 < places)
      (named : (csvHeader label)[k]? = some metric.column)
      (last : metric.column ∉ csvNames.drop (k + 1) ++ ["label".toList])
      (there : (row.record label)[k]? = some (fixed places x)) :
      numberOf float (row.dict label) metric = some (nearest (toDigits places x)) := by
    unfold numberOf CsvRow.dict
    rw [get?_dictRow k named (not_mem_drop_header last label) there]
    exact reads _ _ (value_fixed positive x)
  cases metric with
  | ipc => exact read 2 (by decide) rfl (by decide) rfl
  | llc => exact read 3 (by decide) rfl (by decide) rfl
  | ctx => exact read 4 (by decide) rfl (by decide) rfl
  | ioFreq => exact read 5 (by decide) rfl (by decide) rfl
  | ioWait => exact read 6 (by decide) rfl (by decide) rfl
  | rqWait => exact read 7 (by decide) rfl (by decide) rfl

/-- The numbers of rows, added to lists. -/
def SampleLists.extend (lists : SampleLists F) (nearest : ℚ → F)
    (rows : List CsvRow) : SampleLists F :=
  fun metric => lists metric ++ rows.map fun row => nearest (metric.printed row)

theorem appendNumbers_dict
    (reads : ReadsNearest float nearest)
    (label : Option (List Char))
    (row : CsvRow)
    (lists : SampleLists F) :
    appendNumbers float (row.dict label) [.llc, .ctx, .ioFreq, .ioWait, .rqWait]
        (Function.update lists .ipc
          (lists .ipc ++ [nearest (toDigits 4 row.ipc)])) =
      (lists.extend nearest [row], true) := by
  simp only [appendNumbers, numberOf_dict reads, Prod.mk.injEq, and_true]
  funext metric
  cases metric <;> rfl

variable [DecidableEq F]

/-- Whether the zero filter drops a row. -/
def droppedZero (nearest : ℚ → F) (filterZeros : Bool) (row : CsvRow) : Bool :=
  filterZeros && decide (nearest (toDigits 4 row.ipc) = 0)

/-- The rows from a time on. -/
def rowsFrom (cutoffNs : Int) (rows : List CsvRow) : List CsvRow :=
  rows.filter fun row => cutoffNs ≤ (row.timestampNs.toNat : Int)

theorem collectRow_dict
    (reads : ReadsNearest float nearest)
    (label : Option (List Char))
    (cutoffNs : Int)
    (filterZeros : Bool)
    (row : CsvRow)
    (s : Collecting F) :
    collectRow float cutoffNs filterZeros (row.dict label) s =
      (if (row.timestampNs.toNat : Int) < cutoffNs then s
        else if droppedZero nearest filterZeros row then
          { s with nFiltered := s.nFiltered + 1 }
        else { s with rows := s.rows.extend nearest [row] },
        true) := by
  unfold collectRow
  rw [timestampOf_dict]
  dsimp only
  split
  · rfl
  · rw [numberOf_dict reads]
    unfold droppedZero
    dsimp only [Metric.printed]
    rw [appendNumbers_dict reads]
    cases filterZeros with
    | false => simp
    | true =>
        by_cases zero : nearest (toDigits 4 row.ipc) = 0
        · simp [zero]
        · simp [zero]

/-- The loop goes through the rows without an exception. -/
theorem collectRows_dict
    (reads : ReadsNearest float nearest)
    (label : Option (List Char))
    (cutoffNs : Int)
    (filterZeros : Bool)
    (rows : List CsvRow)
    (s : Collecting F) :
    collectRows float cutoffNs filterZeros (rows.map (CsvRow.dict label)) s =
      ({ rows := s.rows.extend nearest ((rowsFrom cutoffNs rows).filter fun row =>
            !droppedZero nearest filterZeros row)
         nFiltered := s.nFiltered +
            (rowsFrom cutoffNs rows).countP (droppedZero nearest filterZeros) },
        true) := by
  induction rows generalizing s with
  | nil =>
      unfold rowsFrom SampleLists.extend
      simp [collectRows]
  | cons row rest inductionHypothesis =>
      rw [List.map_cons, collectRows, collectRow_dict reads]
      dsimp only
      rw [inductionHypothesis]
      unfold rowsFrom
      by_cases early : (row.timestampNs.toNat : Int) < cutoffNs
      · rw [if_pos early, List.filter_cons_of_neg (by simpa using early)]
      · rw [if_neg early, List.filter_cons_of_pos (by simpa using early)]
        cases dropped : droppedZero nearest filterZeros row with
        | true =>
            rw [if_pos rfl, List.filter_cons_of_neg (by simp [dropped]),
              List.countP_cons_of_pos dropped, add_assoc, Nat.add_comm 1]
        | false =>
            rw [if_neg Bool.false_ne_true, List.filter_cons_of_pos (by simp [dropped]),
              List.countP_cons_of_neg (by simp [dropped])]
            unfold SampleLists.extend
            simp

/-! ## The samples of a run -/

/-- The rows whose time is at least the warm-up after that of the first. -/
def warmRows (warmupNs : Int) : List CsvRow → List CsvRow
  | [] => []
  | first :: rest => rowsFrom (first.timestampNs.toNat + warmupNs) (first :: rest)

/-- The rows of a run are among the samples of its log. -/
theorem ticksRows_subset
    (qsort : Qsort)
    (cfg : DaemonConfig)
    (start : UInt64)
    (envs : List TickEnv) :
    ticksRows qsort cfg (LoopState.start start) envs ⊆
      (sampledIn (runSamplingLoop qsort cfg start envs).world.log).rows := by
  obtain ⟨batches, -, logged, written⟩ :=
    ticksRows_spec qsort cfg (LoopState.start start) envs
  intro row member
  rw [written] at member
  obtain ⟨samples, batch, displayed⟩ := List.mem_flatMap.mp member
  have sampled : row ∈ samples := by
    unfold displayedOf at displayed
    split at displayed
    · exact List.mem_of_mem_take displayed
    · exact displayed
  change row ∈ (sampledIn (envs.foldl (tick qsort cfg) _).world.log).rows
  rw [logged]
  exact List.mem_append_right _ (List.mem_flatten_of_mem batch sampled)

/-- Where every pid is displayed the file has all samples of the log. -/
theorem ticksRows_eq_sampled
    {qsort : Qsort}
    {cfg : DaemonConfig}
    (unlimited : ¬cfg.topN > 0)
    (start : UInt64)
    (envs : List TickEnv) :
    ticksRows qsort cfg (LoopState.start start) envs =
      (sampledIn (runSamplingLoop qsort cfg start envs).world.log).rows := by
  obtain ⟨batches, -, logged, written⟩ :=
    ticksRows_spec qsort cfg (LoopState.start start) envs
  have all : displayedOf cfg = id := by
    funext samples
    exact if_neg unlimited
  have flatten : batches.flatMap (displayedOf cfg) = batches.flatten := by
    rw [all, List.flatMap_id]
  exact (written.trans flatten).trans logged.symm

/-- `collect_samples` of a file with the rows. -/
theorem collectSamples_csvText
    (reads : ReadsNearest float nearest)
    {label : Option (List Char)}
    (plainLabel : PlainLabel label)
    {rows : List CsvRow}
    (bounds : ∀ row ∈ rows, ∀ metric ∈ row.metrics, 0 ≤ metric ∧ metric ≤ 10 ^ 29)
    (warmupNs : Int)
    (filterZeros : Bool) :
    collectSamples float warmupNs filterZeros (some (csvText label rows)) =
      some
        { rows := fun metric =>
            ((warmRows warmupNs rows).filter fun row =>
              !droppedZero nearest filterZeros row).map fun row =>
                nearest (metric.printed row)
          parseError := false
          filtered :=
            let dropped := (warmRows warmupNs rows).countP (droppedZero nearest filterZeros)
            if filterZeros ∧ dropped ≠ 0 then some dropped else none } := by
  have records : dictReader (lines (universalNewlines (csvText label rows))) =
      some (rows.map (CsvRow.dict label)) := dictReader_csvText plainLabel bounds
  unfold collectSamples
  dsimp only
  rw [records]
  cases rows with
  | nil => simp [warmRows]
  | cons first rest =>
      rw [List.map_cons]
      dsimp only
      rw [timestampOf_dict]
      dsimp only
      rw [← List.map_cons, collectRows_dict reads]
      unfold SampleLists.extend
      simp only [List.nil_append, Nat.zero_add, warmRows, Bool.not_true]
      rfl

/-- The daemon writes its samples and may end after any row: `collect_samples` then
reads the file without an exception, and every list has the numbers of the rows from
the end of the warm-up on, as they were printed, but for those the zero filter drops
and counts. -/
theorem collectSamples_run
    (reads : ReadsNearest float nearest)
    (qsort : Qsort)
    (cfg : DaemonConfig)
    (start : UInt64)
    (envs : List TickEnv)
    {label : Option (List Char)}
    (plainLabel : PlainLabel label)
    {rows : List CsvRow}
    (written : rows <+: ticksRows qsort cfg (LoopState.start start) envs)
    (warmupNs : Int)
    (filterZeros : Bool) :
    (¬cfg.topN > 0 →
      rows <+: (sampledIn (runSamplingLoop qsort cfg start envs).world.log).rows) ∧
    ∃ collected,
      collectSamples float warmupNs filterZeros (some (csvText label rows)) =
        some collected ∧
      collected.parseError = false ∧
      (∀ metric, collected.rows metric =
        ((warmRows warmupNs rows).filter fun row =>
          !droppedZero nearest filterZeros row).map fun row =>
            nearest (metric.printed row)) ∧
      ∀ n, collected.filtered = some n ↔
        filterZeros = true ∧ n ≠ 0 ∧
          (warmRows warmupNs rows).countP (droppedZero nearest filterZeros) = n := by
  have bounds : ∀ row ∈ rows, ∀ metric ∈ row.metrics, 0 ≤ metric ∧ metric ≤ 10 ^ 29 :=
    fun row member => rows_bounds_run qsort cfg start envs row
      (ticksRows_subset qsort cfg start envs (written.subset member))
  refine ⟨fun unlimited => ticksRows_eq_sampled unlimited start envs ▸ written, _,
    collectSamples_csvText reads plainLabel bounds warmupNs filterZeros, rfl,
    fun _ => rfl, ?_⟩
  intro n
  dsimp only
  split
  · next counted =>
      rw [Option.some.injEq]
      exact ⟨fun equal => ⟨counted.1, equal ▸ counted.2, equal⟩, fun parts => parts.2.2⟩
  · next uncounted =>
      refine ⟨fun missing => absurd missing nofun, fun parts => ?_⟩
      exact absurd ⟨parts.1, parts.2.2 ▸ parts.2.1⟩ uncounted

end Written

/-- The configuration of a daemon that calibration starts for one process. -/
def calibrationConfig : DaemonConfig where
  pids := [1000]
  topN := 0
  minUid := 0
  intervalMs := 50
  pids_le := by decide
  topN_le := by decide

/-- Two samples, the second of which comes after the warm-up and has twenty context
switches a second. -/
theorem collectSamples_run_switched :
    ∃ collected,
      collectSamples FixedPoint.value 1000 false
        (some (csvText (some "cpu".toList)
          (ticksRows insertionQsort calibrationConfig (LoopState.start 0)
            switchedTicks))) = some collected ∧
      collected.rows .ctx = [20] := by
  have plain : PlainLabel (some "cpu".toList) := by
    intro text equal
    cases equal
    exact plain_name (by decide) (by decide)
  have reads : ReadsNearest FixedPoint.value id := fun _ _ read => read
  obtain ⟨-, collected, read, -, rows, -⟩ := collectSamples_run reads insertionQsort
    calibrationConfig 0 switchedTicks plain (List.prefix_refl _) 1000 false
  refine ⟨collected, read, (rows .ctx).trans ?_⟩
  decide +kernel

end Schedmon
