import Schedmon.Dashboard.ThresholdsConf

/-!
# Writing the thresholds

`write_thresholds` of the calibration, which writes the file that the dashboard
reads, with what it needs of the hardware profile.  The dashboard gets back what
was written, and in general every key that is undisturbed by a damaged line.
-/

namespace Schedmon

open Library.Decimal Library.Utf8 Library.PythonText

/-! ## The name of the processor -/

/-- `read_cpu_model`, given the text of `/proc/cpuinfo`, if it can be read. -/
def readCpuModel (cpuinfo : Option (List Char)) : List Char :=
  match cpuinfo with
  | none => []
  | some text =>
      match (lines (universalNewlines text)).find?
          ("model name".toList.isPrefixOf ·) with
      | none => []
      | some line => if ':' ∈ line then strip (partition ':' line).2 else []

/-- `get_cpu_model`. -/
def getCpuModel (cpuinfo : Option (List Char)) : List Char :=
  let model := readCpuModel cpuinfo
  if model = [] then "unknown".toList else model

/-! ## The file -/

/-- The local time in a format that `time.strftime` has for it. -/
structure LocalTime where
  year : ℕ
  month : ℕ
  day : ℕ
  hour : ℕ
  minute : ℕ
  second : ℕ

/-- `str` of a number. -/
def str (n : ℕ) : List Char := asciiChars (decimal n)

/-- Two digits at least. -/
def twoDigits (n : ℕ) : List Char :=
  if n < 10 then '0' :: str n else str n

/-- `time.strftime('%Y-%m-%d %H:%M:%S')`. -/
def strftime (time : LocalTime) : List Char :=
  str time.year ++ '-' :: twoDigits time.month ++ '-' :: twoDigits time.day ++
    ' ' :: twoDigits time.hour ++ ':' :: twoDigits time.minute ++
    ':' :: twoDigits time.second

section Write

variable {F : Type*} (repr : F → List Char)

/-- The comments above the thresholds. -/
def headerLines
    (time : LocalTime)
    (cores llcBytes ramGb : ℕ)
    (cpuinfo : Option (List Char))
    (durations : F) : List (List Char) :=
  ["# Auto-generated by calibrate.py".toList,
    "# Generated  : ".toList ++ strftime time,
    "# Hardware   : ".toList ++ str cores ++ " cores, ".toList ++
      str (llcBytes / 1024 / 1024) ++ "MB LLC, ".toList ++ str ramGb ++
      "GB RAM".toList,
    "# CPU model  : ".toList ++ getCpuModel cpuinfo,
    "# Collection : ".toList ++ repr durations ++
      "s per workload (+ 2s warmup each)".toList,
    "# Method     : midpoint between workload distributions ".toList ++
      "with adaptive guard band (10%-30%, widened when ".toList ++
      "distributions are noisy relative to their gap)".toList]

/-- The line of one threshold. -/
def thresholdLine
    (thresholds : ThresholdTable F)
    (key : ThresholdKey) : List Char :=
  key.name ++ " = ".toList ++ repr (thresholds key)

/-- The text that `write_thresholds` writes. -/
def writeThresholds
    (thresholds : ThresholdTable F)
    (time : LocalTime)
    (cores llcBytes ramGb : ℕ)
    (cpuinfo : Option (List Char))
    (durations : F) : List Char :=
  (headerLines repr time cores llcBytes ramGb cpuinfo durations).flatMap
      (· ++ ['\n']) ++
    '\n' :: (ThresholdKey.all.map (thresholdLine repr thresholds)).flatMap
      (· ++ ['\n'])

end Write

/-! ## What is written stays on its line -/

/-- A text without line breaks. -/
def OneLine (text : List Char) : Prop := '\n' ∉ text ∧ '\r' ∉ text

instance (text : List Char) : Decidable (OneLine text) :=
  inferInstanceAs (Decidable (_ ∧ _))

theorem OneLine.append
    {first second : List Char}
    (firstLine : OneLine first)
    (secondLine : OneLine second) :
    OneLine (first ++ second) := by
  constructor
  · rw [List.mem_append, not_or]
    exact ⟨firstLine.1, secondLine.1⟩
  · rw [List.mem_append, not_or]
    exact ⟨firstLine.2, secondLine.2⟩

theorem OneLine.cons
    {c : Char}
    {text : List Char}
    (single : OneLine [c])
    (rest : OneLine text) :
    OneLine (c :: text) :=
  single.append rest

theorem oneLine_of_printed
    {text : List Char}
    (printed : ∀ c ∈ text, isspace c = false) :
    OneLine text := by
  constructor
  · intro membership
    exact absurd (printed _ membership) (by decide)
  · intro membership
    exact absurd (printed _ membership) (by decide)

theorem oneLine_str (n : ℕ) : OneLine (str n) := by
  apply oneLine_of_printed
  intro c membership
  have code := code_of_mem_decimal membership
  exact isspace_eq_false (by omega) (by omega)

theorem oneLine_twoDigits (n : ℕ) : OneLine (twoDigits n) := by
  unfold twoDigits
  split
  · exact OneLine.cons (by decide) (oneLine_str n)
  · exact oneLine_str n

theorem oneLine_strftime (time : LocalTime) : OneLine (strftime time) := by
  have separated : ∀ (c : Char) (n : ℕ), OneLine [c] →
      OneLine (c :: twoDigits n) :=
    fun c n single => single.cons (oneLine_twoDigits n)
  exact (((((oneLine_str _).append (separated '-' _ (by decide))).append
    (separated '-' _ (by decide))).append (separated ' ' _ (by decide))).append
    (separated ':' _ (by decide))).append (separated ':' _ (by decide))

theorem oneLine_readCpuModel (cpuinfo : Option (List Char)) :
    OneLine (readCpuModel cpuinfo) := by
  unfold readCpuModel
  split
  · decide
  · next text =>
    split
    · decide
    · next line found =>
      have line_mem := List.mem_of_find?_eq_some found
      split
      · next colon =>
        obtain ⟨before, model, parts, absent⟩ := List.eq_append_cons_of_mem colon
        rw [parts, partition_append_cons absent]
        constructor
        · apply newline_notMem_strip
          have atEnd := newline_notMem_dropLast line_mem
          rw [parts, List.dropLast_append_of_ne_nil (List.cons_ne_nil _ _)] at atEnd
          cases model with
          | nil => exact List.not_mem_nil
          | cons c model =>
            intro membership
            exact atEnd (List.mem_append_right _
              (List.mem_cons_of_mem _ membership))
        · intro membership
          apply return_notMem_universalNewlines text
          rw [← flatten_lines (universalNewlines text), List.mem_flatten]
          refine ⟨line, line_mem, ?_⟩
          rw [parts]
          exact List.mem_append_right _
            (List.mem_cons_of_mem _ (mem_of_mem_strip membership))
      · decide

theorem oneLine_getCpuModel (cpuinfo : Option (List Char)) :
    OneLine (getCpuModel cpuinfo) := by
  unfold getCpuModel
  dsimp only
  split
  · decide
  · exact oneLine_readCpuModel cpuinfo

section RoundTrip

variable {F : Type*} {float : List Char → Option F} {repr : F → List Char}

/-- The text form of a float has no blanks and parses back to it. -/
structure ReprReadsBack
    (float : List Char → Option F)
    (repr : F → List Char) : Prop where
  float_repr : ∀ x, float (repr x) = some x
  repr_ne_nil : ∀ x, repr x ≠ []
  printed : ∀ x, ∀ c ∈ repr x, isspace c = false

theorem headerLines_comment
    {time : LocalTime}
    {cores llcBytes ramGb : ℕ}
    {cpuinfo : Option (List Char)}
    {durations : F}
    {line : List Char}
    (membership : line ∈
      headerLines repr time cores llcBytes ramGb cpuinfo durations) :
    line.head? = some '#' := by
  simp only [headerLines, List.mem_cons, List.not_mem_nil, or_false] at membership
  rcases membership with rfl | rfl | rfl | rfl | rfl | rfl <;> rfl

theorem headerLines_oneLine
    (text : ReprReadsBack float repr)
    {time : LocalTime}
    {cores llcBytes ramGb : ℕ}
    {cpuinfo : Option (List Char)}
    {durations : F}
    {line : List Char}
    (membership : line ∈
      headerLines repr time cores llcBytes ramGb cpuinfo durations) :
    OneLine line := by
  simp only [headerLines, List.mem_cons, List.not_mem_nil, or_false] at membership
  rcases membership with rfl | rfl | rfl | rfl | rfl | rfl
  · decide
  · exact OneLine.append (by decide) (oneLine_strftime time)
  · refine (((((OneLine.append ?_ (oneLine_str _)).append ?_).append
      (oneLine_str _)).append ?_).append (oneLine_str _)).append ?_ <;> decide
  · exact OneLine.append (by decide) (oneLine_getCpuModel cpuinfo)
  · refine (OneLine.append ?_ (oneLine_of_printed (text.printed _))).append ?_ <;>
      decide
  · decide

theorem thresholdLine_oneLine
    (text : ReprReadsBack float repr)
    (thresholds : ThresholdTable F)
    (key : ThresholdKey) :
    OneLine (thresholdLine repr thresholds key) := by
  refine (OneLine.append ?_ (by decide)).append
    (oneLine_of_printed (text.printed _))
  cases key <;> decide

/-! ## Reading what was written -/

theorem lineEntry_comment
    {line : List Char}
    (comment : line.head? = some '#') :
    lineEntry float (line ++ ['\n']) = none := by
  obtain ⟨rest, rfl⟩ := List.head?_eq_some_iff.mp comment
  have stripped := head?_strip_cons (by decide : isspace '#' = false)
    (rest ++ ['\n'])
  simp [lineEntry, stripped]

/-- A name is no comment and starts with no blank. -/
theorem head?_name
    {key : ThresholdKey}
    {rest : List Char}
    {c : Char}
    (first : c ∈ (key.name ++ rest).head?) :
    isspace c = false ∧ c ≠ '#' := by
  cases key <;> cases first <;> decide

theorem strip_thresholdLine
    (text : ReprReadsBack float repr)
    (thresholds : ThresholdTable F)
    (key : ThresholdKey) :
    strip (thresholdLine repr thresholds key ++ ['\n']) =
      thresholdLine repr thresholds key := by
  rw [strip_concat _ (by decide)]
  apply strip_of_ends
  · intro c first
    rw [thresholdLine, List.append_assoc] at first
    exact (head?_name first).1
  · intro c last
    rw [thresholdLine, List.getLast?_append_of_ne_nil _
      (text.repr_ne_nil _)] at last
    exact text.printed _ c (List.mem_of_getLast? last)

theorem lineEntry_thresholdLine
    (text : ReprReadsBack float repr)
    (thresholds : ThresholdTable F)
    (key : ThresholdKey) :
    lineEntry float (thresholdLine repr thresholds key ++ ['\n']) =
      some (key, some (thresholds key)) := by
  have no_separator : '=' ∉ key.name ++ [' '] := by
    cases key <;> decide
  have parts : thresholdLine repr thresholds key =
      (key.name ++ [' ']) ++ '=' :: ' ' :: repr (thresholds key) := by
    simp [thresholdLine]
  have name_stripped : strip (key.name ++ [' ']) = key.name := by
    rw [strip_concat _ (by decide), strip_of_printed fun _ => key.name_printed]
  have number_stripped : strip (' ' :: repr (thresholds key)) =
      repr (thresholds key) := by
    rw [strip_cons (by decide), strip_of_printed (text.printed _)]
  have relevant : ¬ (thresholdLine repr thresholds key = [] ∨
      (thresholdLine repr thresholds key).head? = some '#') := by
    rintro (empty | comment)
    · rw [parts] at empty
      simp at empty
    · rw [thresholdLine, List.append_assoc] at comment
      exact (head?_name comment).2 rfl
  rw [lineEntry, strip_thresholdLine text, if_neg relevant, parts,
    partition_append_cons no_separator]
  dsimp only
  rw [name_stripped, number_stripped, ThresholdKey.ofName_name, text.float_repr]
  rfl

/-- Lines without a known key are passed over. -/
theorem loadLines_append_of_lineEntry
    {passed : List (List Char)}
    (noEntry : ∀ line ∈ passed, lineEntry float line = none)
    (t : ThresholdTable F)
    (text : List (List Char)) :
    loadLines float t (passed ++ text) = loadLines float t text := by
  induction passed with
  | nil => rfl
  | cons line passed inductionHypothesis =>
    obtain ⟨first, others⟩ := List.forall_mem_cons.mp noEntry
    rw [List.cons_append, loadLines, loadLine_eq, first]
    exact inductionHypothesis others

theorem loadLines_thresholdLines
    (text : ReprReadsBack float repr)
    (t thresholds : ThresholdTable F)
    (keys : List ThresholdKey)
    (key : ThresholdKey) :
    loadLines float t
        ((keys.map (thresholdLine repr thresholds)).map (· ++ ['\n'])) key =
      if key ∈ keys then thresholds key else t key := by
  induction keys generalizing t with
  | nil => rfl
  | cons other keys inductionHypothesis =>
    rw [List.map_cons, List.map_cons, loadLines, loadLine_eq,
      lineEntry_thresholdLine text]
    have rest := inductionHypothesis
      (Function.update t other (thresholds other))
    refine rest.trans ?_
    by_cases later : key ∈ keys
    · simp [later]
    · by_cases same : key = other
      · subst same
        simp
      · simp [later, same]

theorem return_notMem_flatMap
    {written : List (List Char)}
    (oneLine : ∀ line ∈ written, OneLine line) :
    '\r' ∉ written.flatMap (· ++ ['\n']) := by
  intro membership
  obtain ⟨line, line_mem, within⟩ := List.mem_flatMap.mp membership
  rcases List.mem_append.mp within with inLine | newline
  · exact (oneLine line line_mem).2 inLine
  · exact absurd newline (by decide)

/-- The lines of the written file. -/
theorem lines_writeThresholds
    (text : ReprReadsBack float repr)
    (thresholds : ThresholdTable F)
    (time : LocalTime)
    (cores llcBytes ramGb : ℕ)
    (cpuinfo : Option (List Char))
    (durations : F) :
    lines (universalNewlines (writeThresholds repr thresholds time cores llcBytes
        ramGb cpuinfo durations)) =
      (headerLines repr time cores llcBytes ramGb cpuinfo durations).map
          (· ++ ['\n']) ++
        ['\n'] :: (ThresholdKey.all.map (thresholdLine repr thresholds)).map
          (· ++ ['\n']) := by
  have header_oneLine : ∀ line ∈ headerLines repr time cores llcBytes ramGb
      cpuinfo durations, OneLine line :=
    fun _ membership => headerLines_oneLine text membership
  have entries_oneLine : ∀ line ∈ ThresholdKey.all.map
      (thresholdLine repr thresholds), OneLine line := by
    intro line membership
    obtain ⟨key, -, rfl⟩ := List.mem_map.mp membership
    exact thresholdLine_oneLine text thresholds key
  have no_return : '\r' ∉ writeThresholds repr thresholds time cores llcBytes
      ramGb cpuinfo durations := by
    intro membership
    rw [writeThresholds, List.mem_append, List.mem_cons] at membership
    rcases membership with inHeader | newline | inEntries
    · exact return_notMem_flatMap header_oneLine inHeader
    · exact absurd newline (by decide)
    · exact return_notMem_flatMap entries_oneLine inEntries
  have translated := universalNewlines_append no_return []
  have entries := lines_flatMap (fun line membership =>
    (entries_oneLine line membership).1) []
  rw [List.append_nil] at translated entries
  rw [translated, writeThresholds]
  have header := lines_flatMap (fun line membership =>
    (header_oneLine line membership).1)
    ('\n' :: (ThresholdKey.all.map (thresholdLine repr thresholds)).flatMap
      (· ++ ['\n']))
  rw [show universalNewlines [] = [] from rfl, List.append_nil, header, lines,
    if_pos rfl, entries]
  rfl

/-- The dashboard gets back the written thresholds. -/
theorem loadThresholds_writeThresholds
    (text : ReprReadsBack float repr)
    (defaults thresholds : ThresholdTable F)
    (time : LocalTime)
    (cores llcBytes ramGb : ℕ)
    (cpuinfo : Option (List Char))
    (durations : F) :
    loadThresholds float defaults (some (writeThresholds repr thresholds time
      cores llcBytes ramGb cpuinfo durations)) = thresholds := by
  have header : ∀ line ∈ (headerLines repr time cores llcBytes ramGb cpuinfo
      durations).map (· ++ ['\n']), lineEntry float line = none := by
    intro line membership
    obtain ⟨comment, comment_mem, rfl⟩ := List.mem_map.mp membership
    exact lineEntry_comment (headerLines_comment comment_mem)
  have blank : ∀ line ∈ [['\n']], lineEntry float line = none := by
    intro line membership
    rw [List.mem_singleton.mp membership]
    rfl
  funext key
  rw [loadThresholds, lines_writeThresholds text,
    loadLines_append_of_lineEntry header, ← List.singleton_append,
    loadLines_append_of_lineEntry blank, loadLines_thresholdLines text,
    if_pos key.mem_all]

end RoundTrip

/-! ## When the dashboard has what the file says -/

/-- A key has what the file says exactly if the lines behind the first damaged
one leave it alone.  Comments and unknown keys never matter, and a written file
gives back the written thresholds. -/
theorem loadThresholds_eq_spec_iff
    {F : Type*}
    (float : List Char → Option F)
    (defaults : ThresholdTable F) :
    (∀ text key,
      loadThresholds float defaults (some text) key =
          specThresholds float defaults (lines (universalNewlines text)) key ↔
        Undisturbed float defaults (lines (universalNewlines text)) key) ∧
    (∀ text text',
      (lines (universalNewlines text)).filter
          (fun line => (lineEntry float line).isSome) =
        (lines (universalNewlines text')).filter
          (fun line => (lineEntry float line).isSome) →
      loadThresholds float defaults (some text) =
        loadThresholds float defaults (some text')) ∧
    (∀ repr, ReprReadsBack float repr →
      ∀ thresholds time cores llcBytes ramGb cpuinfo durations,
        loadThresholds float defaults (some (writeThresholds repr thresholds
          time cores llcBytes ramGb cpuinfo durations)) = thresholds) := by
  refine ⟨?_, ?_, ?_⟩
  · intro text key
    exact loadLines_apply_eq_spec_iff float defaults _ key
  · intro text text' sameEntries
    rw [loadThresholds, loadThresholds, ← loadLines_filter_lineEntry,
      sameEntries, loadLines_filter_lineEntry]
  · intro repr text thresholds time cores llcBytes ramGb cpuinfo durations
    exact loadThresholds_writeThresholds text defaults thresholds time cores
      llcBytes ramGb cpuinfo durations

/-! ## Floats on a few texts -/

/-- `float` of digits with a point in them. -/
def pointFloat (text : List Char) : Option ℚ := do
  let whole ← naturalNumber (partition '.' text).1
  let fraction ← naturalNumber (partition '.' text).2
  return whole + fraction / 10 ^ (partition '.' text).2.length

/-- A calibrated threshold, a damaged line and a calibrated threshold. -/
def damagedConf : List Char :=
  "ctx_io_threshold = 640.5\n".toList ++ "ipc_cpu_threshold = oops\n".toList ++
    "io_wait_bound_threshold = 7.25\n".toList

/-- One of the undamaged keys is loaded as calibrated, the other has its
default. -/
theorem damagedConf_mixes_thresholds :
    loadThresholds pointFloat (defaultThresholds false) (some damagedConf)
        .ctxIo = 1281 / 2 ∧
      loadThresholds pointFloat (defaultThresholds false) (some damagedConf)
        .ioWaitBound = defaultThresholds false .ioWaitBound ∧
      loadThresholds pointFloat (defaultThresholds false) (some damagedConf)
          .ioWaitBound ≠
        specThresholds pointFloat (defaultThresholds false)
          (lines (universalNewlines damagedConf)) .ioWaitBound := by
  decide +kernel

/-- The text of a float without a fraction. -/
def wholeRepr (n : ℕ) : List Char := str n ++ ".0".toList

/-- `float` of such a text. -/
def wholeFloat (text : List Char) : Option ℕ :=
  if (partition '.' text).2 = ['0'] then naturalNumber (partition '.' text).1
  else none

theorem wholeRepr_readsBack : ReprReadsBack wholeFloat wholeRepr where
  float_repr n := by
    have no_point : '.' ∉ str n := by
      intro membership
      exact absurd (code_of_mem_decimal membership) (by decide)
    have parts : partition '.' (wholeRepr n) = (str n, ['0']) :=
      partition_append_cons no_point ['0']
    rw [wholeFloat, parts, if_pos rfl]
    exact naturalNumber_decimal n
  repr_ne_nil n := by simp [wholeRepr]
  printed n c membership := by
    rcases List.mem_append.mp membership with inNumber | inPoint
    · have code := code_of_mem_decimal inNumber
      exact isspace_eq_false (by omega) (by omega)
    · rcases List.mem_pair.mp inPoint with rfl | rfl <;> rfl

theorem loadThresholds_eq_spec_iff_whole :
    loadThresholds wholeFloat (fun _ => 5)
        (some (writeThresholds wholeRepr (fun _ => 12) ⟨2025, 6, 1, 9, 30, 5⟩ 8
          8388608 16 (some "model name\t: Some CPU\n".toList) 20)) =
      fun _ => 12 :=
  (loadThresholds_eq_spec_iff wholeFloat fun _ => 5).2.2 wholeRepr
    wholeRepr_readsBack _ _ _ _ _ _ _

end Schedmon
