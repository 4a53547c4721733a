import Schedmon.Calibrate
import Schedmon.Library.PythonText

/-!
# The configuration file of the thresholds

`load_thresholds` of the dashboard.  The numbers are of any type with a function
for Python's `float` of a text, which is absent where it raises an exception.
-/

namespace Schedmon

open Library Library.PythonText

/-- The keys of the configuration file. -/
inductive ThresholdKey where
  | ipcCpu
  | ipcMem
  | llcMem
  | ctxIo
  | ipcIdle
  | ioWaitBound
  | rqWaitStarved
  deriving DecidableEq, Repr

namespace ThresholdKey

/-- The keys in the order they are written in. -/
def all : List ThresholdKey :=
  [ipcCpu, ipcMem, llcMem, ctxIo, ipcIdle, ioWaitBound, rqWaitStarved]

def name : ThresholdKey → List Char
  | ipcCpu => "ipc_cpu_threshold".toList
  | ipcMem => "ipc_mem_threshold".toList
  | llcMem => "llc_mem_threshold".toList
  | ctxIo => "ctx_io_threshold".toList
  | ipcIdle => "ipc_idle_threshold".toList
  | ioWaitBound => "io_wait_bound_threshold".toList
  | rqWaitStarved => "rq_wait_starved_threshold".toList

/-- The key of a name, if it is one. -/
def ofName (text : List Char) : Option ThresholdKey :=
  all.find? fun key => key.name = text

theorem ofName_name (key : ThresholdKey) : ofName key.name = some key := by
  cases key <;> decide

theorem mem_all (key : ThresholdKey) : key ∈ all := by
  cases key <;> decide

theorem name_printed
    (key : ThresholdKey)
    {c : Char}
    (membership : c ∈ key.name) :
    isspace c = false := by
  have printed : (key.name.all fun c => !isspace c) = true := by
    cases key <;> rfl
  have here := List.all_eq_true.mp printed c membership
  rwa [Bool.not_eq_true'] at here

end ThresholdKey

/-- The dictionary of thresholds, which has all keys. -/
abbrev ThresholdTable (F : Type*) := ThresholdKey → F

/-- `_DEFAULTS`, given the verdict of `is_narrow_issue_cpu`. -/
def defaultThresholds (isNarrowIssueCpu : Bool) : ThresholdTable ℚ :=
  let ipcMem :=
    if isNarrowIssueCpu then
      Rounding.toDigits 4 (narrowIssueIpcCeiling * (7 / 10))
    else 8 / 10
  fun
  | .ipcCpu => if isNarrowIssueCpu then narrowIssueIpcCeiling else 12 / 10
  | .ipcMem => ipcMem
  | .llcMem => 2 / 100
  | .ctxIo => 500
  | .ipcIdle =>
      if isNarrowIssueCpu then Rounding.toDigits 4 (ipcMem * (15 / 100))
      else 5 / 100
  | .ioWaitBound => 5
  | .rqWaitStarved => 2

section Load

variable {F : Type*} (float : List Char → Option F)

/-- The loop body of `load_thresholds`, or an exception. -/
def loadLine
    (t : ThresholdTable F)
    (line : List Char) : Option (ThresholdTable F) :=
  let line := strip line
  if line = [] ∨ line.head? = some '#' then some t
  else
    let (key, val) := partition '=' line
    match ThresholdKey.ofName (strip key) with
    | none => some t
    | some key => do
        let number ← float (strip val)
        return Function.update t key number

/-- The loop of `load_thresholds`: an exception ends it, and the dictionary is
returned as it is then. -/
def loadLines (t : ThresholdTable F) : List (List Char) → ThresholdTable F
  | [] => t
  | line :: lines =>
      match loadLine float t line with
      | none => t
      | some t => loadLines t lines

/-- `load_thresholds`, given the text of the file, if it exists. -/
def loadThresholds
    (defaults : ThresholdTable F)
    (file : Option (List Char)) : ThresholdTable F :=
  match file with
  | none => defaults
  | some text => loadLines float defaults (lines (universalNewlines text))

end Load

/-! ## What a line says -/

section Lines

variable {F : Type*} (float : List Char → Option F)

/-- The key of a line that is neither empty nor a comment and has a known key,
and its number, if the right-hand side is one. -/
def lineEntry (line : List Char) : Option (ThresholdKey × Option F) :=
  let line := strip line
  if line = [] ∨ line.head? = some '#' then none
  else
    (ThresholdKey.ofName (strip (partition '=' line).1)).map fun key =>
      (key, float (strip (partition '=' line).2))

/-- A line with a known key whose right-hand side is no number. -/
def isDamaged (line : List Char) : Bool :=
  (lineEntry float line).any fun entry => entry.2.isNone

/-- The number a line gives a key. -/
def givenBy (key : ThresholdKey) (line : List Char) : Option F :=
  match lineEntry float line with
  | some (other, number) => if other = key then number else none
  | none => none

/-- The number of the last line that gives the key one. -/
def lastGiven (key : ThresholdKey) (text : List (List Char)) : Option F :=
  (text.filterMap (givenBy float key)).getLast?

/-- What the file says: every key has the number of its last line whose
right-hand side is one, or its default. -/
def specThresholds
    (defaults : ThresholdTable F)
    (text : List (List Char)) : ThresholdTable F :=
  fun key => (lastGiven float key text).getD (defaults key)

theorem lastGiven_append
    (key : ThresholdKey)
    (text behind : List (List Char)) :
    lastGiven float key (text ++ behind) =
      (lastGiven float key behind).or (lastGiven float key text) := by
  rw [lastGiven, List.filterMap_append, List.getLast?_append]
  rfl

theorem lastGiven_cons
    (key : ThresholdKey)
    (line : List Char)
    (text : List (List Char)) :
    lastGiven float key (line :: text) =
      (lastGiven float key text).or (givenBy float key line) := by
  have alone : lastGiven float key [line] = givenBy float key line := by
    cases given : givenBy float key line <;> simp [lastGiven, given]
  rw [← alone, ← lastGiven_append]
  rfl

theorem loadLine_eq
    (t : ThresholdTable F)
    (line : List Char) :
    loadLine float t line =
      match lineEntry float line with
      | none => some t
      | some (_, none) => none
      | some (key, some number) => some (Function.update t key number) := by
  unfold loadLine lineEntry
  dsimp only
  split
  · rfl
  · cases ThresholdKey.ofName (strip (partition '=' (strip line)).1) with
    | none => rfl
    | some key => cases float (strip (partition '=' (strip line)).2) <;> rfl

theorem loadLine_eq_none_iff
    (t : ThresholdTable F)
    (line : List Char) :
    loadLine float t line = none ↔ isDamaged float line = true := by
  rw [loadLine_eq, isDamaged]
  rcases lineEntry float line with _ | ⟨key, _ | number⟩ <;> simp

/-- A line changes nothing but the key it gives a number. -/
theorem loadLine_apply
    {t loaded : ThresholdTable F}
    {line : List Char}
    (intact : loadLine float t line = some loaded)
    (key : ThresholdKey) :
    loaded key = (givenBy float key line).getD (t key) := by
  rw [loadLine_eq] at intact
  unfold givenBy
  cases entry : lineEntry float line with
  | none =>
    rw [entry] at intact
    cases intact
    rfl
  | some entry' =>
    obtain ⟨other, given⟩ := entry'
    rw [entry] at intact
    cases given with
    | none => cases intact
    | some number =>
      cases intact
      by_cases same : other = key
      · subst same
        simp
      · simp [same, Function.update_of_ne (Ne.symm same)]

/-! ## What a run of the loop reads -/

/-- The lines before the first damaged one. -/
def linesBefore (text : List (List Char)) : List (List Char) :=
  text.takeWhile fun line => !isDamaged float line

/-- The first damaged line and the lines behind it. -/
def linesBehind (text : List (List Char)) : List (List Char) :=
  text.dropWhile fun line => !isDamaged float line

/-- The loop reads the lines before the first damaged one. -/
theorem loadLines_apply
    (t : ThresholdTable F)
    (text : List (List Char))
    (key : ThresholdKey) :
    loadLines float t text key =
      (lastGiven float key (linesBefore float text)).getD (t key) := by
  induction text generalizing t with
  | nil => rfl
  | cons line text inductionHypothesis =>
    rw [loadLines, linesBefore]
    cases outcome : loadLine float t line with
    | none =>
      have damaged := (loadLine_eq_none_iff float t line).mp outcome
      rw [List.takeWhile_cons_of_neg (by simp [damaged])]
      rfl
    | some loaded =>
      have intact : isDamaged float line = false := by
        rw [Bool.eq_false_iff]
        intro damaged
        rw [(loadLine_eq_none_iff float t line).mpr damaged] at outcome
        cases outcome
      have step := loadLine_apply float outcome key
      have run := inductionHypothesis loaded
      rw [List.takeWhile_cons_of_pos (by simp [intact]), lastGiven_cons,
        Option.getD_or, ← step]
      exact run

/-- The lines behind the first damaged one give the key no number but the one it
has from the lines before. -/
def Undisturbed
    (defaults : ThresholdTable F)
    (text : List (List Char))
    (key : ThresholdKey) : Prop :=
  ∀ number, lastGiven float key (linesBehind float text) = some number →
    number = (lastGiven float key (linesBefore float text)).getD (defaults key)

/-- The loop gives a key what the file says exactly if the key is undisturbed. -/
theorem loadLines_apply_eq_spec_iff
    (defaults : ThresholdTable F)
    (text : List (List Char))
    (key : ThresholdKey) :
    loadLines float defaults text key =
        specThresholds float defaults text key ↔
      Undisturbed float defaults text key := by
  have parts : linesBefore float text ++ linesBehind float text = text :=
    List.takeWhile_append_dropWhile
  have spec := lastGiven_append float key (linesBefore float text)
    (linesBehind float text)
  rw [parts] at spec
  rw [loadLines_apply, specThresholds, spec, Option.getD_or, Undisturbed]
  cases lastGiven float key (linesBehind float text) with
  | none => simp
  | some number => simp [eq_comm]

/-- Lines without a known key change nothing, wherever they stand. -/
theorem loadLines_filter_lineEntry
    (t : ThresholdTable F)
    (text : List (List Char)) :
    loadLines float t
        (text.filter fun line => (lineEntry float line).isSome) =
      loadLines float t text := by
  induction text generalizing t with
  | nil => rfl
  | cons line text inductionHypothesis =>
    cases entry : lineEntry float line with
    | none =>
      have skipped : loadLine float t line = some t := by
        rw [loadLine_eq, entry]
      rw [List.filter_cons_of_neg (by simp [entry]), inductionHypothesis,
        loadLines, skipped]
    | some entry' =>
      rw [List.filter_cons_of_pos (by simp [entry]), loadLines, loadLines]
      cases loadLine float t line with
      | none => rfl
      | some loaded => exact inductionHypothesis loaded

end Lines

end Schedmon
