import Mathlib.Data.List.Nodup
import Mathlib.Logic.Function.Basic
import Schedmon.SmoothedMetrics

/-!
# One refresh of the dashboard

`Dashboard.update` on the dictionary of process entries, given the drained
records, the clock and what the files of each process hold.  The Python floats
are exact rationals.
-/

namespace Schedmon

/-- `PidInfo`. -/
structure PidInfo where
  pid : Int
  comm : List Char
  cpuPct : ℚ
  rssMb : ℚ
  threads : Int
  cpuId : Int
  hwPmuAvailable : Bool
  ipc : ℚ
  llcMiss : ℚ
  ctxFreq : ℚ
  ioFreq : ℚ
  ioWaitMs : ℚ
  rqWaitMs : ℚ
  migrationFreq : ℚ
  ioSyscallFreq : ℚ
  prevTicks : Int
  seen : Bool
  lastSeen : ℚ

/-- The entries, under their pids. -/
abbrev DashState := Int → Option PidInfo

/-- What the constructor of `Dashboard` fixes for the refreshes. -/
structure DashSettings where
  interval : ℚ
  hz : ℕ
  ncores : ℕ

/-- What one refresh reads. -/
structure Refresh where
  /-- The items of the drained dictionary. -/
  rbData : List (Int × SmoothedMetrics)
  now : ℚ
  /-- `read_proc_stat`. -/
  stat : Int → Option (List Char × Int)
  /-- `read_proc_status`. -/
  status : Int → Int × Int

/-- `PidInfo(pid=pid, prev_ticks=total_ticks)`. -/
def PidInfo.new (pid totalTicks : Int) (now : ℚ) : PidInfo where
  pid := pid
  comm := []
  cpuPct := 0
  rssMb := 0
  threads := 0
  cpuId := -1
  hwPmuAvailable := true
  ipc := 0
  llcMiss := 0
  ctxFreq := 0
  ioFreq := 0
  ioWaitMs := 0
  rqWaitMs := 0
  migrationFreq := 0
  ioSyscallFreq := 0
  prevTicks := totalTicks
  seen := false
  lastSeen := now

/-- What a refresh writes to the entry of a process it could read. -/
def PidInfo.refreshed
    (info : PidInfo)
    (d : DashSettings)
    (r : Refresh)
    (pid : Int)
    (m : SmoothedMetrics)
    (comm : List Char)
    (totalTicks : Int) : PidInfo :=
  let (rssKb, threads) := r.status pid
  let delta := totalTicks - info.prevTicks
  { info with
    comm := comm
    rssMb := rssKb / 1024
    threads := threads
    seen := true
    lastSeen := r.now
    cpuId := m.cpuId
    hwPmuAvailable := m.hwPmuAvailable ≠ 0
    cpuPct := delta / (d.interval * d.hz) * 100 / d.ncores
    prevTicks := totalTicks
    ipc := m.smoothedIpc
    llcMiss := m.smoothedLlcMiss
    ctxFreq := m.smoothedCtxFreq
    ioFreq := m.smoothedIoFreq
    ioWaitMs := m.smoothedIoWaitMs
    rqWaitMs := m.smoothedRqWaitMs
    migrationFreq := m.smoothedMigrationFreq
    ioSyscallFreq := m.smoothedIoSyscallFreq }

/-- The loop body for one drained item. -/
def updatePid
    (d : DashSettings)
    (r : Refresh)
    (state : DashState)
    (item : Int × SmoothedMetrics) : DashState :=
  match r.stat item.1 with
  | none => state
  | some (comm, totalTicks) =>
      let info := (state item.1).getD (PidInfo.new item.1 totalTicks r.now)
      Function.update state item.1
        (some (info.refreshed d r item.1 item.2 comm totalTicks))

/-- `Dashboard.update`. -/
def Dashboard.update (d : DashSettings) (state : DashState) (r : Refresh) :
    DashState :=
  let state : DashState := fun pid =>
    (state pid).map fun info => { info with seen := false }
  let state := r.rbData.foldl (updatePid d r) state
  fun pid => (state pid).filter fun info =>
    info.seen || !(r.now - info.lastSeen > 10)

/-! ## What a refresh does to one entry -/

/-- The entry of a process after its own item. -/
def PidInfo.entered
    (d : DashSettings)
    (r : Refresh)
    (pid : Int)
    (m : SmoothedMetrics)
    (entry : Option PidInfo) : Option PidInfo :=
  match r.stat pid with
  | none => entry
  | some (comm, totalTicks) =>
      some ((entry.getD (PidInfo.new pid totalTicks r.now)).refreshed d r pid m
        comm totalTicks)

theorem updatePid_self
    (d : DashSettings)
    (r : Refresh)
    (state : DashState)
    (pid : Int)
    (m : SmoothedMetrics) :
    updatePid d r state (pid, m) pid =
      PidInfo.entered d r pid m (state pid) := by
  unfold updatePid PidInfo.entered
  cases r.stat pid with
  | none => rfl
  | some stat => exact Function.update_self pid _ state

theorem updatePid_of_ne
    (d : DashSettings)
    (r : Refresh)
    (state : DashState)
    {item : Int × SmoothedMetrics}
    {pid : Int}
    (other : pid ≠ item.1) :
    updatePid d r state item pid = state pid := by
  unfold updatePid
  cases r.stat item.1 with
  | none => rfl
  | some stat => exact Function.update_of_ne other _ state

/-- The loop touches the entry of a drained process once. -/
theorem foldl_updatePid_apply
    (d : DashSettings)
    (r : Refresh)
    {items : List (Int × SmoothedMetrics)}
    (nodup : (items.map Prod.fst).Nodup)
    (state : DashState)
    (pid : Int) :
    items.foldl (updatePid d r) state pid =
      match items.lookup pid with
      | none => state pid
      | some m => PidInfo.entered d r pid m (state pid) := by
  induction items generalizing state with
  | nil => rfl
  | cons item items inductionHypothesis =>
    obtain ⟨key, m⟩ := item
    rw [List.map_cons, List.nodup_cons] at nodup
    rw [List.foldl_cons, inductionHypothesis nodup.2, List.lookup_cons]
    by_cases own : pid = key
    · subst own
      have absent : items.lookup pid = none := by
        rw [List.lookup_eq_none_iff]
        intro other other_mem
        rw [bne_iff_ne]
        intro same
        exact nodup.1 (List.mem_map.mpr ⟨other, other_mem, same.symm⟩)
      rw [absent, beq_self_eq_true]
      exact updatePid_self d r state pid m
    · rw [beq_eq_false_iff_ne.mpr own, updatePid_of_ne d r state own]

/-- The record and the stat file of a process, if it is drained and its stat file
can be read. -/
def Refresh.reading
    (r : Refresh)
    (pid : Int) : Option (SmoothedMetrics × List Char × Int) := do
  let m ← r.rbData.lookup pid
  let (comm, totalTicks) ← r.stat pid
  return (m, comm, totalTicks)

/-- The ticks read of a process. -/
def Refresh.ticks (r : Refresh) (pid : Int) : Option Int :=
  (r.reading pid).map fun reading => reading.2.2

/-- They are those of the stat file. -/
theorem Refresh.ticks_of_stat
    {r : Refresh}
    {comm : Int → List Char}
    {totalTicks : Int → Int}
    (stat_eq : ∀ pid, r.stat pid = some (comm pid, totalTicks pid))
    {pid ticks : Int}
    (isRead : r.ticks pid = some ticks) :
    ticks = totalTicks pid := by
  obtain ⟨reading, found, rfl⟩ := Option.map_eq_some_iff.mp isRead
  obtain ⟨record, drained, found⟩ := Option.bind_eq_some_iff.mp found
  rw [stat_eq] at found
  cases found
  rfl

/-- A share of the processors, in percent. -/
def DashSettings.percent (d : DashSettings) (ticks : ℚ) : ℚ :=
  ticks / (d.interval * d.hz) * 100 / d.ncores

section Update

variable (d : DashSettings) {r : Refresh} (state : DashState) {pid : Int}

/-- A process that was read has a fresh entry. -/
theorem Dashboard.update_of_reading
    (nodup : (r.rbData.map Prod.fst).Nodup)
    {totalTicks : Int}
    (isRead : r.ticks pid = some totalTicks) :
    ∃ info, Dashboard.update d state r pid = some info ∧
      info.cpuPct = d.percent (totalTicks -
        ((state pid).elim totalTicks PidInfo.prevTicks : Int)) ∧
      info.prevTicks = totalTicks ∧ info.lastSeen = r.now := by
  obtain ⟨reading, found, rfl⟩ := Option.map_eq_some_iff.mp isRead
  obtain ⟨record, drained, found⟩ := Option.bind_eq_some_iff.mp found
  obtain ⟨stat, stat_eq, found⟩ := Option.bind_eq_some_iff.mp found
  cases found
  unfold Dashboard.update
  simp only [foldl_updatePid_apply d r nodup, drained, PidInfo.entered, stat_eq]
  refine ⟨_, rfl, ?_, rfl, rfl⟩
  cases state pid with
  | none => simp [PidInfo.refreshed, PidInfo.new, DashSettings.percent]
  | some before => simp [PidInfo.refreshed, DashSettings.percent]

/-- A process that was not read keeps its entry for ten seconds. -/
theorem Dashboard.update_of_no_reading
    (nodup : (r.rbData.map Prod.fst).Nodup)
    (notRead : r.ticks pid = none) :
    Dashboard.update d state r pid =
      ((state pid).filter fun info => !(r.now - info.lastSeen > 10)).map
        fun info => { info with seen := false } := by
  have untouched : r.rbData.foldl (updatePid d r)
      (fun pid => (state pid).map fun info => { info with seen := false }) pid =
      (state pid).map fun info => { info with seen := false } := by
    rw [foldl_updatePid_apply d r nodup]
    cases drained : r.rbData.lookup pid with
    | none => rfl
    | some m =>
      have noStat : r.stat pid = none := by
        cases stat_eq : r.stat pid with
        | none => rfl
        | some stat =>
          simp [Refresh.ticks, Refresh.reading, drained, stat_eq] at notRead
      simp [PidInfo.entered, noStat]
  unfold Dashboard.update
  simp only [untouched]
  cases state pid with
  | none => rfl
  | some info =>
    by_cases old : r.now - info.lastSeen > 10 <;>
      simp [Option.filter, old]

end Update

end Schedmon
