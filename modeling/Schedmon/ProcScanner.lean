import Mathlib.Data.List.Basic
import Mathlib.Data.List.Sort

/-!
# The process scanner

`proc_scanner_scan`, `proc_scanner_scan_pids` and `proc_scanner_top_n`.  The
listing of `/proc` and what the files of each process hold are arguments.
-/

namespace Schedmon

/-- `PROC_MAX_TRACKED`. -/
def procMaxTracked : Nat := 1024

/-- A process name, as bytes. -/
abbrev Comm := List UInt8

/-- `ProcEntry`. -/
structure ProcEntry where
  pid : Int
  comm : Comm
  /-- -1 until it has been read. -/
  uid : Int
  utime : UInt64
  stime : UInt64
  totalTicks : UInt64
  prevTicks : UInt64
  deltaTicks : UInt64
  active : Bool
  deriving DecidableEq

/-- `ProcScanner`.  The entries in use never outgrow the array. -/
structure ProcScanner where
  entries : List ProcEntry
  scanCount : Nat
  bounded : entries.length ≤ procMaxTracked

/-- What `read_proc_stat` reads from one stat file. -/
structure ProcStat where
  comm : Comm
  utime : UInt64
  stime : UInt64
  deriving DecidableEq

/-- What one scan finds under `/proc`. -/
structure ProcFs where
  /-- The numbers of the entries whose name starts with a digit, in `readdir`
  order; `none` where `opendir` fails. -/
  listing : Option (List Int)
  /-- `none` where the stat file cannot be read. -/
  stat : Int → Option ProcStat
  /-- `read_proc_uid`. -/
  uid : Int → Int

/-- `proc_scanner_init`. -/
def procScannerInit : ProcScanner where
  entries := []
  scanCount := 0
  bounded := by decide

namespace ProcScanner

/-- Write one entry in place. -/
def modifyEntry (ps : ProcScanner) (index : Nat)
    (change : ProcEntry → ProcEntry) : ProcScanner where
  entries := ps.entries.modify index change
  scanCount := ps.scanCount
  bounded := by
    rw [List.length_modify]
    exact ps.bounded

/-- Clear the active flags at the start of a scan. -/
def clearActive (ps : ProcScanner) : ProcScanner where
  entries := ps.entries.map fun e => { e with active := false }
  scanCount := ps.scanCount
  bounded := by
    rw [List.length_map]
    exact ps.bounded

/-- Keep the active entries, in order, and count the scan. -/
def compact (ps : ProcScanner) : ProcScanner where
  entries := ps.entries.filter ProcEntry.active
  scanCount := ps.scanCount + 1
  bounded := (List.length_filter_le _ _).trans ps.bounded

end ProcScanner

/-- The entry `find_or_alloc` starts a new process with. -/
def newProcEntry (pid : Int) : ProcEntry where
  pid := pid
  comm := []
  uid := -1
  utime := 0
  stime := 0
  totalTicks := 0
  prevTicks := 0
  deltaTicks := 0
  active := false

/-- `find_or_alloc`: the scanner, the entry's index, and whether it is new. -/
def findOrAlloc (ps : ProcScanner) (pid : Int) :
    Option (ProcScanner × Nat × Bool) :=
  match ps.entries.findIdx? fun e => e.pid = pid with
  | some index => some (ps, index, false)
  | none =>
      if room : ps.entries.length < procMaxTracked then
        some (
          { entries := ps.entries ++ [newProcEntry pid]
            scanCount := ps.scanCount
            bounded := by
              rw [List.length_append]
              exact room },
          ps.entries.length, true)
      else none

/-- What a scan writes to the entry of a process whose stat file was read. -/
def updateEntry (fs : ProcFs) (pid : Int) (isNew : Bool) (tmp : ProcStat)
    (e : ProcEntry) : ProcEntry :=
  let total := tmp.utime + tmp.stime
  let prevTicks := if isNew then total else e.totalTicks
  { e with
    comm := if isNew then tmp.comm else e.comm
    prevTicks := prevTicks
    utime := tmp.utime
    stime := tmp.stime
    totalTicks := total
    deltaTicks := if total > prevTicks then total - prevTicks else 0
    active := true
    uid := if e.uid = -1 ∧ pid > 1 then fs.uid pid else e.uid }

/-- The body that both scans run for one pid. -/
def scanPid (fs : ProcFs) (ps : ProcScanner) (pid : Int) : ProcScanner :=
  if pid ≤ 1 then ps
  else
    match findOrAlloc ps pid with
    | none => ps
    | some (ps, index, isNew) =>
        match fs.stat pid with
        | none => ps
        | some tmp => ps.modifyEntry index (updateEntry fs pid isNew tmp)

/-- `proc_scanner_scan_pids`. -/
def procScannerScanPids (fs : ProcFs) (pids : List Int) (ps : ProcScanner) :
    ProcScanner :=
  (pids.foldl (scanPid fs) ps.clearActive).compact

/-- `proc_scanner_scan`.  A failed `opendir` leaves after the flags have been
cleared. -/
def procScannerScan (fs : ProcFs) (ps : ProcScanner) : ProcScanner :=
  match fs.listing with
  | none => ps.clearActive
  | some pids => (pids.foldl (scanPid fs) ps.clearActive).compact

/-- `cmp_delta_desc`. -/
def cmpDeltaDesc (a b : ProcEntry) : Int :=
  if b.deltaTicks > a.deltaTicks then 1
  else if b.deltaTicks < a.deltaTicks then -1
  else 0

/-- A C library's `qsort`: some permutation, sorted wherever the comparator is
a total preorder.  The order of equal elements is its own. -/
structure Qsort where
  sort : (ProcEntry → ProcEntry → Int) → List ProcEntry → List ProcEntry
  perm : ∀ compare entries, (sort compare entries).Perm entries
  sorted : ∀ (compare : ProcEntry → ProcEntry → Int) (entries : List ProcEntry),
    (∀ a b, compare a b ≤ 0 ∨ compare b a ≤ 0) →
    (∀ a b c, compare a b ≤ 0 → compare b c ≤ 0 → compare a c ≤ 0) →
      (sort compare entries).Pairwise fun a b => compare a b ≤ 0

/-- An insertion sort, which keeps the order of equal elements. -/
def insertionQsort : Qsort where
  sort := fun compare entries =>
    entries.insertionSort fun a b => compare a b ≤ 0
  perm := fun _ entries => List.perm_insertionSort _ entries
  sorted := by
    intro compare entries total transitive
    have : Std.Total fun a b : ProcEntry => compare a b ≤ 0 := ⟨total⟩
    have : IsTrans ProcEntry fun a b => compare a b ≤ 0 := ⟨transitive⟩
    exact List.pairwise_insertionSort _ entries

/-- The entries `proc_scanner_top_n` ranks. -/
def eligible (minUid : Int) (e : ProcEntry) : Bool :=
  e.active && !(e.uid ≥ 0 && e.uid < minUid)

/-- `proc_scanner_top_n`: the pids it writes, in order. -/
def procScannerTopN (qsort : Qsort) (ps : ProcScanner) (n minUid : Int) :
    List Int :=
  if ps.entries.length = 0 then []
  else
    ((qsort.sort cmpDeltaDesc (ps.entries.filter (eligible minUid))).map
      ProcEntry.pid).take n.toNat

/-! ## Scanning processes that are all new -/

/-- The entry of a process that one scan finds for the first time. -/
def firstEntry (fs : ProcFs) (tmp : ProcStat) (pid : Int) : ProcEntry :=
  updateEntry fs pid true tmp (newProcEntry pid)

/-- A new process with a readable stat file gets an entry at the end. -/
theorem scanPid_new
    {fs : ProcFs}
    {ps : ProcScanner}
    {pid : Int}
    {tmp : ProcStat}
    (user : pid > 1)
    (new : pid ∉ ps.entries.map ProcEntry.pid)
    (room : ps.entries.length < procMaxTracked)
    (readable : fs.stat pid = some tmp) :
    (scanPid fs ps pid).entries = ps.entries ++ [firstEntry fs tmp pid] := by
  have absent : ps.entries.findIdx? (fun e => e.pid = pid) = none := by
    rw [List.findIdx?_eq_none_iff]
    intro e member
    simp only [decide_eq_false_iff_not]
    intro same
    exact new (List.mem_map.mpr ⟨e, member, same⟩)
  unfold scanPid findOrAlloc
  rw [if_neg (by omega), absent]
  dsimp only
  rw [dif_pos room]
  dsimp only
  rw [readable]
  dsimp only [ProcScanner.modifyEntry]
  rw [List.modify_eq_take_drop, List.take_left, List.drop_left]
  rfl

theorem foldl_scanPid_new
    {fs : ProcFs}
    {tmp : ProcStat}
    (pids : List Int)
    (ps : ProcScanner)
    (user : ∀ pid ∈ pids, pid > 1)
    (distinct : pids.Nodup)
    (new : ∀ pid ∈ pids, pid ∉ ps.entries.map ProcEntry.pid)
    (room : ps.entries.length + pids.length ≤ procMaxTracked)
    (readable : ∀ pid ∈ pids, fs.stat pid = some tmp) :
    (pids.foldl (scanPid fs) ps).entries =
      ps.entries ++ pids.map (firstEntry fs tmp) := by
  induction pids generalizing ps with
  | nil => simp
  | cons pid rest inductionHypothesis =>
      obtain ⟨notLater, restDistinct⟩ := List.nodup_cons.mp distinct
      rw [List.length_cons] at room
      have grown := scanPid_new (user pid List.mem_cons_self)
        (new pid List.mem_cons_self) (by omega) (readable pid List.mem_cons_self)
      rw [List.foldl_cons, inductionHypothesis (scanPid fs ps pid)]
      · rw [grown, List.map_cons, List.append_assoc]
        rfl
      · exact fun other member => user other (List.mem_cons_of_mem pid member)
      · exact restDistinct
      · intro other member
        rw [grown, List.map_append, List.mem_append, not_or]
        refine ⟨new other (List.mem_cons_of_mem pid member), ?_⟩
        intro same
        have equal : other = pid := List.mem_singleton.mp same
        exact notLater (equal ▸ member)
      · rw [grown, List.length_append, List.length_singleton]
        omega
      · exact fun other member => readable other (List.mem_cons_of_mem pid member)

/-- The first scan after start-up ranks every process it could read, if they
all belong to users at or above the bound. -/
theorem mem_procScannerTopN_first
    (qsort : Qsort)
    {fs : ProcFs}
    {tmp : ProcStat}
    {pids : List Int}
    {n minUid : Int}
    (listed : fs.listing = some pids)
    (user : ∀ pid ∈ pids, pid > 1)
    (distinct : pids.Nodup)
    (room : pids.length ≤ procMaxTracked)
    (readable : ∀ pid ∈ pids, fs.stat pid = some tmp)
    (owned : ∀ pid ∈ pids, fs.uid pid ≥ minUid)
    (enough : (pids.length : Int) ≤ n)
    (pid : Int) :
    pid ∈ procScannerTopN qsort (procScannerScan fs procScannerInit) n minUid ↔
      pid ∈ pids := by
  have scanned : (procScannerScan fs procScannerInit).entries =
      pids.map (firstEntry fs tmp) := by
    unfold procScannerScan
    rw [listed]
    dsimp only [ProcScanner.compact]
    rw [foldl_scanPid_new pids procScannerInit.clearActive user distinct
      (by simp [procScannerInit, ProcScanner.clearActive])
      (by simpa [procScannerInit, ProcScanner.clearActive] using room) readable,
      List.filter_eq_self.mpr]
    · rfl
    · intro e member
      obtain ⟨other, _, rfl⟩ := List.mem_map.mp member
      rfl
  have ranked : (pids.map (firstEntry fs tmp)).filter (eligible minUid) =
      pids.map (firstEntry fs tmp) := by
    rw [List.filter_eq_self]
    intro e member
    obtain ⟨other, inside, rfl⟩ := List.mem_map.mp member
    have owner := owned other inside
    have process := user other inside
    simp [eligible, firstEntry, updateEntry, newProcEntry, process, owner]
  unfold procScannerTopN
  rw [scanned, ranked]
  have sorted := qsort.perm cmpDeltaDesc (pids.map (firstEntry fs tmp))
  split
  · next empty =>
      have none : pids = [] := by simpa using empty
      simp [none]
  · have length : ((qsort.sort cmpDeltaDesc (pids.map (firstEntry fs tmp))).map
        ProcEntry.pid).length ≤ n.toNat := by
      rw [List.length_map, sorted.length_eq, List.length_map]
      omega
    rw [List.take_of_length_le length, List.mem_map]
    constructor
    · rintro ⟨e, member, rfl⟩
      obtain ⟨other, inside, rfl⟩ := List.mem_map.mp (sorted.mem_iff.mp member)
      exact inside
    · intro inside
      exact ⟨firstEntry fs tmp pid,
        sorted.mem_iff.mpr (List.mem_map.mpr ⟨pid, inside, rfl⟩), rfl⟩

/-! ## The entries of a scanner -/

/-- The pids of the entries, in order. -/
def ProcScanner.pids (ps : ProcScanner) : List Int :=
  ps.entries.map ProcEntry.pid

/-- The entries belong to different processes, none of them `init`. -/
structure ProcScanner.Keyed (ps : ProcScanner) : Prop where
  distinct : ps.pids.Nodup
  user : ∀ pid ∈ ps.pids, pid > 1

theorem procScannerInit_keyed : procScannerInit.Keyed where
  distinct := List.nodup_nil
  user := fun _ member => absurd member List.not_mem_nil

theorem ProcScanner.Keyed.clearActive
    {ps : ProcScanner}
    (keyed : ps.Keyed) :
    ps.clearActive.Keyed := by
  have pids : ps.clearActive.pids = ps.pids := List.map_map
  exact ⟨pids ▸ keyed.distinct, pids ▸ keyed.user⟩

theorem ProcScanner.Keyed.compact
    {ps : ProcScanner}
    (keyed : ps.Keyed) :
    ps.compact.Keyed := by
  have kept : ps.compact.pids.Sublist ps.pids := List.filter_sublist.map _
  exact ⟨keyed.distinct.sublist kept,
    fun pid member => keyed.user pid (kept.subset member)⟩

theorem ProcScanner.modifyEntry_pids
    (ps : ProcScanner)
    (index : Nat)
    (change : ProcEntry → ProcEntry)
    (samePid : ∀ e, (change e).pid = e.pid) :
    (ps.modifyEntry index change).pids = ps.pids := by
  have rewritten (entries : List ProcEntry) :
      (entries.modify index change).map ProcEntry.pid =
        entries.map ProcEntry.pid := by
    induction entries generalizing index with
    | nil => simp
    | cons e rest inductionHypothesis =>
        cases index with
        | zero => simp [samePid]
        | succ index => simp [inductionHypothesis]
  exact rewritten ps.entries

/-- Looking a process up adds at most an entry for it, where it has none. -/
theorem findOrAlloc_cases
    {ps next : ProcScanner}
    {pid : Int}
    {index : Nat}
    {isNew : Bool}
    (found : findOrAlloc ps pid = some (next, index, isNew)) :
    next = ps ∨ (next.pids = ps.pids ++ [pid] ∧ pid ∉ ps.pids) := by
  unfold findOrAlloc at found
  split at found
  · cases found
    exact .inl rfl
  · next absent =>
      split at found
      · cases found
        refine .inr ⟨List.map_append, ?_⟩
        intro member
        obtain ⟨e, inside, same⟩ := List.mem_map.mp member
        have differs := List.findIdx?_eq_none_iff.mp absent e inside
        simp [same] at differs
      · cases found

theorem ProcScanner.Keyed.scanPid
    {ps : ProcScanner}
    (keyed : ps.Keyed)
    (fs : ProcFs)
    (pid : Int) :
    (Schedmon.scanPid fs ps pid).Keyed := by
  unfold Schedmon.scanPid
  split
  · exact keyed
  · next user =>
      split
      · exact keyed
      · next allocated index isNew found =>
          have grown : allocated.Keyed := by
            rcases findOrAlloc_cases found with rfl | ⟨pids, new⟩
            · exact keyed
            · constructor
              · rw [pids, List.nodup_append_comm, List.singleton_append,
                  List.nodup_cons]
                exact ⟨new, keyed.distinct⟩
              · intro other member
                rw [pids, List.mem_append, List.mem_singleton] at member
                rcases member with old | rfl
                · exact keyed.user other old
                · omega
          split
          · exact grown
          · next tmp readable =>
              have pids := allocated.modifyEntry_pids index
                (updateEntry fs pid isNew tmp) fun _ => rfl
              exact ⟨pids ▸ grown.distinct, pids ▸ grown.user⟩

/-- A pass over some pids keeps one entry for each process. -/
theorem ProcScanner.Keyed.foldl_scanPid
    {ps : ProcScanner}
    (keyed : ps.Keyed)
    (fs : ProcFs)
    (pids : List Int) :
    (pids.foldl (Schedmon.scanPid fs) ps).Keyed := by
  induction pids generalizing ps with
  | nil => exact keyed
  | cons pid rest inductionHypothesis =>
      exact inductionHypothesis (keyed.scanPid fs pid)

/-- So does a scan of `/proc`. -/
theorem ProcScanner.Keyed.procScannerScan
    {ps : ProcScanner}
    (keyed : ps.Keyed)
    (fs : ProcFs) :
    (Schedmon.procScannerScan fs ps).Keyed := by
  unfold Schedmon.procScannerScan
  split
  · exact keyed.clearActive
  · next pids listed => exact (keyed.clearActive.foldl_scanPid fs pids).compact

theorem ProcScanner.Keyed.procScannerScanPids
    {ps : ProcScanner}
    (keyed : ps.Keyed)
    (fs : ProcFs)
    (pids : List Int) :
    (Schedmon.procScannerScanPids fs pids ps).Keyed :=
  (keyed.clearActive.foldl_scanPid fs pids).compact

/-! ## The ranking -/

/-- The processes that `proc_scanner_top_n` ranks. -/
def eligibleCount (minUid : Int) (ps : ProcScanner) : Nat :=
  ps.entries.countP (eligible minUid)

/-- All the pids it ranks, in order. -/
def ranking (qsort : Qsort) (minUid : Int) (ps : ProcScanner) : List Int :=
  (qsort.sort cmpDeltaDesc (ps.entries.filter (eligible minUid))).map ProcEntry.pid

theorem length_ranking (qsort : Qsort) (minUid : Int) (ps : ProcScanner) :
    (ranking qsort minUid ps).length = eligibleCount minUid ps := by
  unfold ranking eligibleCount
  rw [List.length_map, (qsort.perm _ _).length_eq, List.countP_eq_length_filter]

theorem ProcScanner.Keyed.ranking_nodup
    {ps : ProcScanner}
    (keyed : ps.Keyed)
    (qsort : Qsort)
    (minUid : Int) :
    (ranking qsort minUid ps).Nodup := by
  have sorted := (qsort.perm cmpDeltaDesc
    (ps.entries.filter (eligible minUid))).map ProcEntry.pid
  exact sorted.nodup_iff.mpr (keyed.distinct.sublist (List.filter_sublist.map _))

/-- `proc_scanner_top_n` takes the first of the ranking. -/
theorem procScannerTopN_eq_take
    (qsort : Qsort)
    (ps : ProcScanner)
    (n minUid : Int) :
    procScannerTopN qsort ps n minUid = (ranking qsort minUid ps).take n.toNat := by
  unfold procScannerTopN
  split
  · next empty =>
      have none : ranking qsort minUid ps = [] := by
        rw [← List.length_eq_zero_iff, length_ranking]
        unfold eligibleCount
        rw [List.length_eq_zero_iff.mp empty]
        rfl
      rw [none, List.take_nil]
  · rfl

end Schedmon
