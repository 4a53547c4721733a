import Schedmon.Daemon.Staleness
import Schedmon.Daemon.TopN
import Schedmon.Library.CommandLine

/-!
# The command line

`parse_args` fills `g_cfg` from the arguments behind the path of the BPF object.
What it fills in is a valid configuration by its type.  The arguments are also read
as a list of settings, and the fields are what the settings say.
-/

namespace Schedmon

open Library CString Decimal

/-- An argument: its bytes up to the zero that ends it. -/
structure Argument where
  bytes : List UInt8
  noZero : 0 ∉ bytes

/-- The cells of an argument. -/
def Argument.cells (argument : Argument) : List UInt8 := argument.bytes ++ [0]

/-- `strcmp(argument, name) == 0`. -/
def Argument.is (argument : Argument) (name : String) : Bool :=
  argument.bytes = ascii name

/-- `LINUX_PID_MAX`. -/
def linuxPidMax : Int := 4194304

/-- `g_cfg.pids`, as many as `g_cfg.n_pids`. -/
structure PidList where
  pids : List Int
  few : pids.length ≤ maxPids
  valid : ∀ pid ∈ pids, 0 < pid ∧ pid ≤ linuxPidMax

/-- `g_cfg.pids[g_cfg.n_pids++] = pid`. -/
def PidList.push (list : PidList) (pid : Int) (room : list.pids.length < maxPids)
    (valid : 0 < pid ∧ pid ≤ linuxPidMax) : PidList where
  pids := list.pids ++ [pid]
  few := by
    rw [List.length_append]
    exact room
  valid := by
    intro other member
    rcases List.mem_append.mp member with old | new
    · exact list.valid other old
    · exact List.mem_singleton.mp new ▸ valid

/-- The `DaemonConfig` that `parse_args` fills, where every interval is positive
and there are at most as many pids as slots. -/
structure ParsedConfig where
  pids : PidList
  topN : Int
  minUid : Int
  intervalMs : Int
  csvPath : Option Argument
  label : Option Argument
  terminalMode : Bool
  showZero : Bool
  topN_range : 0 ≤ topN ∧ topN ≤ maxPids
  interval_range : 0 < intervalMs ∧ intervalMs < 2147483648

namespace ParsedConfig

/-- The values before the loop. -/
def default : ParsedConfig where
  pids := ⟨[], Nat.zero_le _, List.forall_mem_nil _⟩
  topN := 0
  minUid := 0
  intervalMs := defaultInterval
  csvPath := none
  label := none
  terminalMode := false
  showZero := false
  topN_range := by decide
  interval_range := by decide

/-- The part of the configuration that the main loop uses. -/
def daemonConfig (cfg : ParsedConfig) : DaemonConfig where
  pids := cfg.pids.pids
  topN := cfg.topN
  minUid := cfg.minUid
  intervalMs := cfg.intervalMs
  pids_le := cfg.pids.few
  topN_le := cfg.topN_range.2

end ParsedConfig

/-! ## The loop over the arguments -/

/-- The loop over the tokens of a `--pids` value. -/
def readPids : List (List UInt8) → PidList → Option PidList
  | [], list => some list
  | token :: rest, list =>
      if room : list.pids.length < maxPids then do
        let p := token ++ [0]
        let (v, numberEnd) ← strtol p
        let stop ← numberEnd.head?
        if valid : numberEnd ≠ p ∧ stop = 0 ∧ 0 < v ∧ v ≤ linuxPidMax then
          readPids rest (list.push v room valid.2.2)
        else readPids rest list
      else some list

/-- The options that take a value. -/
inductive ValuedOption where
  | pids
  | top
  | interval
  | csv
  | minUid
  | label
  deriving DecidableEq

/-- The option that an argument is compared equal to. -/
def Argument.option? (argument : Argument) : Option ValuedOption :=
  if argument.is "--pids" then some .pids
  else if argument.is "--top" then some .top
  else if argument.is "--interval" then some .interval
  else if argument.is "--csv" then some .csv
  else if argument.is "--min-uid" then some .minUid
  else if argument.is "--label" then some .label
  else none

namespace ParsedConfig

/-- What an option with a value does. -/
def withValue (cfg : ParsedConfig) (value : Argument) :
    ValuedOption → Option ParsedConfig
  | .pids => do
      let pids ← readPids (tokens 44 value.bytes) cfg.pids
      return { cfg with pids := pids }
  | .top => do
      let n ← atoi value.cells
      return { cfg with
        topN := topOption n.toInt
        topN_range := ⟨(topOption_bounds n.toInt).1.le, (topOption_bounds n.toInt).2⟩ }
  | .interval => do
      let n ← atoi value.cells
      return { cfg with
        intervalMs := intervalOption n
        interval_range := intervalOption_bounds n }
  | .csv => some { cfg with csvPath := some value }
  | .minUid => do
      let n ← atoi value.cells
      return { cfg with minUid := n.toInt }
  | .label => some { cfg with label := some value }

/-- What an argument without a value does. -/
def withFlag (cfg : ParsedConfig) (argument : Argument) : ParsedConfig :=
  if argument.is "--terminal" then { cfg with terminalMode := true }
  else if argument.is "--zero" ∨ argument.is "-z" then { cfg with showZero := true }
  else cfg

end ParsedConfig

/-- The loop of `parse_args`.  An option that takes a value is one only where
another argument follows. -/
def parseFrom : List Argument → ParsedConfig → Option ParsedConfig
  | [], cfg => some cfg
  | [argument], cfg => some (cfg.withFlag argument)
  | argument :: value :: rest, cfg =>
      match argument.option? with
      | some option => do
          let next ← cfg.withValue value option
          parseFrom rest next
      | none => parseFrom (value :: rest) (cfg.withFlag argument)

/-- What `parse_args` does after the loop. -/
def ParsedConfig.orDefaultTop (cfg : ParsedConfig) : ParsedConfig :=
  if cfg.pids.pids.length = 0 ∧ cfg.topN = 0 then
    { cfg with topN := defaultTopN, topN_range := by decide }
  else cfg

/-- `parse_args`. -/
def parseArgs (args : List Argument) : Option ParsedConfig := do
  let cfg ← parseFrom args .default
  return cfg.orDefaultTop

/-! ## The arguments as settings -/

/-- An option with its value, or an argument on its own. -/
inductive Setting where
  | valued (option : ValuedOption) (value : Argument)
  | flag (argument : Argument)

/-- The arguments as settings, in order. -/
def settings : List Argument → List Setting
  | [] => []
  | [argument] => [.flag argument]
  | argument :: value :: rest =>
      match argument.option? with
      | some option => .valued option value :: settings rest
      | none => .flag argument :: settings (value :: rest)

/-- The value that a setting gives an option. -/
def Setting.value? (sought : ValuedOption) : Setting → Option Argument
  | .valued option value => if option = sought then some value else none
  | .flag _ => none

/-- Whether a setting is a flag of a name. -/
def Setting.isFlag (name : String) : Setting → Bool
  | .valued _ _ => false
  | .flag argument => argument.is name

/-- The values that settings give an option. -/
def valuesIn (option : ValuedOption) (list : List Setting) : List Argument :=
  list.filterMap (Setting.value? option)

/-- The pid that a part of a `--pids` value stands for, if it is one. -/
def pidIn (part : List UInt8) : Option Int :=
  match scanInt part with
  | some (pid, []) => if 0 < pid ∧ pid ≤ linuxPidMax then some pid else none
  | _ => none

/-- The pids between the commas of a value. -/
def pidsIn (value : Argument) : List Int :=
  (value.bytes.splitOn 44).filterMap pidIn

/-! ## The tokens of `--pids` -/

/-- The empty parts, which are no tokens, stand for no pid. -/
theorem pidsIn_eq_tokens (value : Argument) :
    pidsIn value = (tokens 44 value.bytes).filterMap pidIn := by
  unfold pidsIn
  rw [tokens_eq_splitOn, List.filterMap_filter]
  apply List.filterMap_congr
  intro part _
  by_cases empty : part = []
  · rw [empty]
    rfl
  · rw [if_pos (decide_eq_true empty)]

/-- A token without a zero is read to its end and no further, and is taken where
it stands for a pid. -/
theorem token_read
    {token : List UInt8}
    (noZero : 0 ∉ token) :
    ∃ v numberEnd stop,
      strtol (token ++ [0]) = some (v, numberEnd) ∧
      numberEnd.head? = some stop ∧
      pidIn token =
        if numberEnd ≠ token ++ [0] ∧ stop = 0 ∧ 0 < v ∧ v ≤ linuxPidMax then some v
        else none := by
  have read := strtol_terminated token []
  unfold pidIn
  cases scanned : scanInt token with
  | none =>
      rw [scanned] at read
      cases token with
      | nil => exact ⟨0, [0], 0, read, rfl, rfl⟩
      | cons c rest => exact ⟨0, _, c, read, rfl, (if_neg fun valid => valid.1 rfl).symm⟩
  | some result =>
      obtain ⟨n, rest⟩ := result
      obtain ⟨suffix, shorter⟩ := scanInt_rest scanned
      rw [scanned] at read
      cases rest with
      | nil =>
          refine ⟨clampLong n, [0], 0, read, rfl, ?_⟩
          have moved : [0] ≠ token ++ [0] :=
            fun same => shorter (List.append_cancel_right same)
          have range : (0 < n ∧ n ≤ linuxPidMax) ↔
              0 < clampLong n ∧ clampLong n ≤ linuxPidMax := by
            unfold clampLong linuxPidMax
            omega
          dsimp only
          by_cases valid : 0 < n ∧ n ≤ linuxPidMax
          · rw [if_pos valid, if_pos ⟨moved, rfl, range.mp valid⟩, clampLong_of_mem]
            all_goals unfold linuxPidMax at valid; omega
          · rw [if_neg valid, if_neg fun taken => valid (range.mpr taken.2.2)]
      | cons c rest =>
          have nonzero : c ≠ 0 := by
            rintro rfl
            exact noZero (suffix.subset List.mem_cons_self)
          exact ⟨clampLong n, _, c, read, rfl, (if_neg fun valid => nonzero valid.2.1).symm⟩

theorem take_append_take
    {α : Type*}
    (n : ℕ)
    (first second : List α) :
    (first.take n ++ second).take n = (first ++ second).take n := by
  rw [List.take_append, List.take_append, List.take_take, List.length_take, min_self]
  congr 2
  omega

/-- The loop over the tokens keeps the first pids. -/
theorem readPids_spec
    {parts : List (List UInt8)}
    (noZero : ∀ part ∈ parts, 0 ∉ part)
    (list : PidList) :
    ∃ next, readPids parts list = some next ∧
      next.pids = (list.pids ++ parts.filterMap pidIn).take maxPids := by
  induction parts generalizing list with
  | nil =>
      refine ⟨list, rfl, ?_⟩
      rw [List.filterMap_nil, List.append_nil, List.take_of_length_le list.few]
  | cons token rest inductionHypothesis =>
      have later := fun list => inductionHypothesis
        (fun part member => noZero part (List.mem_cons_of_mem _ member)) list
      unfold readPids
      by_cases room : list.pids.length < maxPids
      · obtain ⟨v, numberEnd, stop, read, head, pid⟩ :=
          token_read (noZero token List.mem_cons_self)
        rw [dif_pos room]
        dsimp only
        rw [read, Option.bind_eq_bind, Option.bind_some]
        dsimp only
        rw [head, Option.bind_eq_bind, Option.bind_some]
        by_cases valid : numberEnd ≠ token ++ [0] ∧ stop = 0 ∧ 0 < v ∧ v ≤ linuxPidMax
        · rw [dif_pos valid]
          obtain ⟨next, reads, kept⟩ := later (list.push v room valid.2.2)
          rw [if_pos valid] at pid
          refine ⟨next, reads, ?_⟩
          rw [kept, List.filterMap_cons_some pid]
          unfold PidList.push
          rw [List.append_assoc, List.singleton_append]
        · rw [dif_neg valid]
          rw [if_neg valid] at pid
          rw [List.filterMap_cons_none pid]
          exact later list
      · rw [dif_neg room]
        have full : list.pids.length = maxPids :=
          Nat.le_antisymm list.few (Nat.le_of_not_lt room)
        exact ⟨list, rfl, (List.take_left' full).symm⟩

/-! ## The settings one after another -/

/-- The last value, or what was there. -/
def lastOr {α : Type} (read : Argument → α) (old : α) (values : List Argument) : α :=
  values.foldl (fun _ value => read value) old

/-- What settings make of a configuration. -/
structure Applied (cfg : ParsedConfig) (list : List Setting) (next : ParsedConfig) :
    Prop where
  pids : next.pids.pids =
    (cfg.pids.pids ++ (valuesIn .pids list).flatMap pidsIn).take maxPids
  topN : next.topN =
    lastOr (fun value => topOption (atoiText value.bytes).toInt) cfg.topN
      (valuesIn .top list)
  intervalMs : next.intervalMs =
    lastOr (fun value => intervalOption (atoiText value.bytes)) cfg.intervalMs
      (valuesIn .interval list)
  csvPath : next.csvPath = lastOr some cfg.csvPath (valuesIn .csv list)
  minUid : next.minUid =
    lastOr (fun value => (atoiText value.bytes).toInt) cfg.minUid (valuesIn .minUid list)
  label : next.label = lastOr some cfg.label (valuesIn .label list)
  terminalMode : next.terminalMode =
    (cfg.terminalMode || list.any (Setting.isFlag "--terminal"))
  showZero : next.showZero =
    (cfg.showZero || list.any fun setting =>
      setting.isFlag "--zero" || setting.isFlag "-z")

namespace Applied

theorem nil (cfg : ParsedConfig) : Applied cfg [] cfg where
  pids := by
    change _ = (cfg.pids.pids ++ []).take maxPids
    rw [List.append_nil, List.take_of_length_le cfg.pids.few]
  topN := rfl
  intervalMs := rfl
  csvPath := rfl
  minUid := rfl
  label := rfl
  terminalMode := (Bool.or_false _).symm
  showZero := (Bool.or_false _).symm

theorem trans
    {cfg middle next : ParsedConfig}
    {first second : List Setting}
    (early : Applied cfg first middle)
    (late : Applied middle second next) :
    Applied cfg (first ++ second) next := by
  have values (option : ValuedOption) : valuesIn option (first ++ second) =
      valuesIn option first ++ valuesIn option second := List.filterMap_append
  have last {α : Type} (read : Argument → α) (old : α) (option : ValuedOption) :
      lastOr read old (valuesIn option (first ++ second)) =
        lastOr read (lastOr read old (valuesIn option first)) (valuesIn option second) := by
    unfold lastOr
    rw [values, List.foldl_append]
  constructor
  · rw [late.pids, early.pids, take_append_take, values, List.flatMap_append,
      List.append_assoc]
  · rw [late.topN, early.topN, last]
  · rw [late.intervalMs, early.intervalMs, last]
  · rw [late.csvPath, early.csvPath, last]
  · rw [late.minUid, early.minUid, last]
  · rw [late.label, early.label, last]
  · rw [late.terminalMode, early.terminalMode, List.any_append, Bool.or_assoc]
  · rw [late.showZero, early.showZero, List.any_append, Bool.or_assoc]

end Applied

/-- An option with a value, read to the end of the value and no further. -/
theorem withValue_applied
    (cfg : ParsedConfig)
    (value : Argument)
    (option : ValuedOption) :
    ∃ next, cfg.withValue value option = some next ∧
      Applied cfg [.valued option value] next := by
  have number : atoi value.cells = some (atoiText value.bytes) := atoi_terminated _ _
  have unchanged := Applied.nil cfg
  unfold ParsedConfig.withValue
  cases option with
  | pids =>
      obtain ⟨pids, read, kept⟩ := readPids_spec
        (fun part listed zero => value.noZero (mem_of_mem_tokens listed zero)) cfg.pids
      rw [← pidsIn_eq_tokens] at kept
      dsimp only
      rw [read]
      refine ⟨_, rfl, { unchanged with pids := ?_ }⟩
      simpa [valuesIn, Setting.value?] using kept
  | top =>
      dsimp only
      rw [number]
      exact ⟨_, rfl, { unchanged with topN := rfl }⟩
  | interval =>
      dsimp only
      rw [number]
      exact ⟨_, rfl, { unchanged with intervalMs := rfl }⟩
  | csv => exact ⟨_, rfl, { unchanged with csvPath := rfl }⟩
  | minUid =>
      dsimp only
      rw [number]
      exact ⟨_, rfl, { unchanged with minUid := rfl }⟩
  | label => exact ⟨_, rfl, { unchanged with label := rfl }⟩

/-- An argument without a value. -/
theorem withFlag_applied
    (cfg : ParsedConfig)
    (argument : Argument) :
    Applied cfg [.flag argument] (cfg.withFlag argument) := by
  have unchanged := Applied.nil cfg
  unfold ParsedConfig.withFlag
  by_cases terminal : argument.is "--terminal" = true
  · have zero : argument.is "--zero" = false ∧ argument.is "-z" = false := by
      have bytes : argument.bytes = ascii "--terminal" := of_decide_eq_true terminal
      unfold Argument.is
      rw [bytes]
      decide
    rw [if_pos terminal]
    exact { unchanged with
      terminalMode := by simp [Setting.isFlag, terminal]
      showZero := by simp [Setting.isFlag, zero] }
  · rw [if_neg terminal]
    split
    · next zero =>
        exact { unchanged with
          terminalMode := by simp [Setting.isFlag, terminal]
          showZero := by simp [Setting.isFlag, zero] }
    · next neither =>
        rw [not_or] at neither
        exact { unchanged with
          terminalMode := by simp [Setting.isFlag, terminal]
          showZero := by simp [Setting.isFlag, neither] }

/-- The loop applies the settings. -/
theorem parseFrom_applied
    (args : List Argument)
    (cfg : ParsedConfig) :
    ∃ next, parseFrom args cfg = some next ∧ Applied cfg (settings args) next := by
  fun_induction parseFrom args cfg with
  | case1 cfg => exact ⟨cfg, rfl, .nil cfg⟩
  | case2 argument cfg => exact ⟨_, rfl, withFlag_applied cfg argument⟩
  | case3 argument value rest cfg option chosen inductionHypothesis =>
      obtain ⟨middle, step, early⟩ := withValue_applied cfg value option
      obtain ⟨next, loop, late⟩ := inductionHypothesis middle
      refine ⟨next, ?_, ?_⟩
      · rw [step]
        exact loop
      · unfold settings
        rw [chosen]
        exact early.trans late
  | case4 argument value rest cfg other inductionHypothesis =>
      obtain ⟨next, loop, late⟩ := inductionHypothesis
      refine ⟨next, loop, ?_⟩
      unfold settings
      rw [other]
      exact (withFlag_applied cfg argument).trans late

/-! ## The configuration -/

/-- The values of an option among the arguments. -/
def valuesOf (option : ValuedOption) (args : List Argument) : List Argument :=
  valuesIn option (settings args)

/-- Whether a flag is among the arguments, other than as a value. -/
def hasFlag (name : String) (args : List Argument) : Bool :=
  (settings args).any (Setting.isFlag name)

theorem lastOr_eq_getLast
    {α : Type}
    (read : Argument → α)
    (old : α)
    (values : List Argument) :
    lastOr read old values = (values.getLast?.map read).getD old := by
  unfold lastOr
  induction values using List.reverseRecOn with
  | nil => rfl
  | append_singleton values value _ =>
      rw [List.foldl_concat, List.getLast?_concat]
      rfl

theorem lastOr_some (values : List Argument) :
    lastOr some none values = values.getLast? := by
  rw [lastOr_eq_getLast]
  cases values.getLast? with
  | none => rfl
  | some value => rfl

/-- Only the display limit changes after the loop. -/
theorem orDefaultTop_eq (cfg : ParsedConfig) :
    ∃ topN topN_range,
      cfg.orDefaultTop = { cfg with topN := topN, topN_range := topN_range } ∧
      topN = if cfg.pids.pids.length = 0 ∧ cfg.topN = 0 then defaultTopN else cfg.topN := by
  unfold ParsedConfig.orDefaultTop
  split
  · exact ⟨defaultTopN, by decide, rfl, rfl⟩
  · exact ⟨cfg.topN, cfg.topN_range, rfl, rfl⟩

theorem lastOr_map
    {α β : Type}
    (read : Argument → α)
    (make : α → β)
    (old : β)
    (values : List Argument) :
    lastOr (fun value => make (read value)) old values =
      (values.map read).foldl (fun _ value => make value) old :=
  (List.foldl_map).symm

/-- Whatever the arguments, no read leaves one of them, and the configuration has
the first pids of all `--pids` values, the last value of every other option, and
256 as the display limit where there are neither pids nor `--top`. -/
theorem parseArgs_spec (args : List Argument) :
    ∃ cfg, parseArgs args = some cfg ∧
      cfg.pids.pids = ((valuesOf .pids args).flatMap pidsIn).take maxPids ∧
      cfg.topN = parseTop cfg.pids.pids.length
        ((valuesOf .top args).map fun value => (atoiText value.bytes).toInt) ∧
      cfg.intervalMs = parseInterval
        ((valuesOf .interval args).map fun value => atoiText value.bytes) ∧
      cfg.minUid = ((valuesOf .minUid args).getLast?.map fun value =>
        (atoiText value.bytes).toInt).getD 0 ∧
      cfg.csvPath = (valuesOf .csv args).getLast? ∧
      cfg.label = (valuesOf .label args).getLast? ∧
      cfg.terminalMode = hasFlag "--terminal" args ∧
      cfg.showZero = (hasFlag "--zero" args || hasFlag "-z" args) := by
  obtain ⟨cfg, loop, applied⟩ := parseFrom_applied args .default
  obtain ⟨topN, range, equal, topN_eq⟩ := orDefaultTop_eq cfg
  have limit := applied.topN
  have interval := applied.intervalMs
  rw [lastOr_map (fun value : Argument => (atoiText value.bytes).toInt) topOption] at limit
  rw [lastOr_map (fun value : Argument => atoiText value.bytes) intervalOption] at interval
  refine ⟨cfg.orDefaultTop, by unfold parseArgs; rw [loop]; rfl, ?_⟩
  rw [equal]
  refine ⟨applied.pids, ?_, interval, ?_, ?_, ?_, applied.terminalMode, ?_⟩
  · refine topN_eq.trans ?_
    rw [limit]
    rfl
  · exact applied.minUid.trans (lastOr_eq_getLast _ _ _)
  · exact applied.csvPath.trans (lastOr_some _)
  · exact applied.label.trans (lastOr_some _)
  · rw [applied.showZero]
    refine (Bool.false_or _).trans ?_
    unfold hasFlag
    rw [Bool.eq_iff_iff]
    simp only [List.any_eq_true, Bool.or_eq_true, and_or_left, exists_or]

end Schedmon
