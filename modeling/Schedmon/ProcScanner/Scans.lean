import Mathlib.Data.List.DropRight
import Schedmon.Library.Admission
import Schedmon.ProcScanner

/-!
# Scans in succession

What one pass over `/proc` does to the entry of each process, and how the tick
deltas chain from one successful scan to the next.
-/

open Library.Admission

namespace Schedmon

/-- The first entry of a process. -/
def ProcScanner.entryOf (ps : ProcScanner) (pid : Int) : Option ProcEntry :=
  ps.entries.find? fun e => e.pid = pid

/-- The ticks a scanner remembers for a process. -/
def ProcScanner.totalOf (ps : ProcScanner) (pid : Int) : Option UInt64 :=
  (ps.entryOf pid).map ProcEntry.totalTicks

/-- The scanner after a sequence of scans. -/
def scansAfter (history : List ProcFs) : ProcScanner :=
  history.foldl (fun ps fs => procScannerScan fs ps) procScannerInit

/-- The scanner right after the last scan whose `opendir` succeeded, or after
start-up where none did. -/
def lastScanned (history : List ProcFs) : ProcScanner :=
  scansAfter (history.rdropWhile fun fs => fs.listing.isNone)

/-- What a visit makes of the entry of the visited process, where `room` says
whether the table can take one more. -/
def visited (fs : ProcFs) (room : Prop) [Decidable room] (pid : Int)
    (old : Option ProcEntry) : Option ProcEntry :=
  match old, fs.stat pid with
  | some e, some tmp => some (updateEntry fs pid false tmp e)
  | some e, none => some e
  | none, some tmp => if room then some (firstEntry fs tmp pid) else none
  | none, none => if room then some (newProcEntry pid) else none

theorem scansAfter_snoc (history : List ProcFs) (fs : ProcFs) :
    scansAfter (history ++ [fs]) = procScannerScan fs (scansAfter history) := by
  unfold scansAfter
  rw [List.foldl_append]
  rfl

theorem scansAfter_keyed (history : List ProcFs) : (scansAfter history).Keyed := by
  induction history using List.reverseRecOn with
  | nil => exact procScannerInit_keyed
  | append_singleton history fs inductionHypothesis =>
      rw [scansAfter_snoc]
      exact inductionHypothesis.procScannerScan fs

/-! ## Looking entries up -/

namespace ProcScanner

theorem entryOf_pid
    {ps : ProcScanner}
    {pid : Int}
    {e : ProcEntry}
    (found : ps.entryOf pid = some e) :
    e.pid = pid := by
  simpa using List.find?_some found

theorem mem_of_entryOf
    {ps : ProcScanner}
    {pid : Int}
    {e : ProcEntry}
    (found : ps.entryOf pid = some e) :
    e ∈ ps.entries :=
  List.mem_of_find?_eq_some found

theorem entryOf_eq_none_iff
    {ps : ProcScanner}
    {pid : Int} :
    ps.entryOf pid = none ↔ pid ∉ ps.pids := by
  unfold entryOf pids
  rw [List.find?_eq_none]
  simp

/-- A process has one entry, so every entry is found. -/
theorem Keyed.entryOf_eq
    {ps : ProcScanner}
    {e : ProcEntry}
    (keyed : ps.Keyed)
    (member : e ∈ ps.entries) :
    ps.entryOf e.pid = some e := by
  have inside : e.pid ∈ ps.pids := List.mem_map_of_mem member
  obtain ⟨found, lookup⟩ : ∃ found, ps.entryOf e.pid = some found := by
    rw [← Option.isSome_iff_exists, Option.isSome_iff_ne_none]
    intro absent
    exact entryOf_eq_none_iff.mp absent inside
  have same := List.inj_on_of_nodup_map keyed.distinct (mem_of_entryOf lookup) member
    (entryOf_pid lookup)
  rw [lookup, same]

theorem entryOf_clearActive (ps : ProcScanner) (pid : Int) :
    ps.clearActive.entryOf pid =
      (ps.entryOf pid).map fun e => { e with active := false } := by
  unfold entryOf clearActive
  rw [List.find?_map]
  rfl

theorem totalOf_clearActive (ps : ProcScanner) (pid : Int) :
    ps.clearActive.totalOf pid = ps.totalOf pid := by
  unfold totalOf
  rw [entryOf_clearActive, Option.map_map]
  rfl

theorem clearActive_inactive (ps : ProcScanner) :
    ∀ e ∈ ps.clearActive.entries, e.active = false := by
  intro e member
  obtain ⟨old, -, rfl⟩ := List.mem_map.mp member
  rfl

/-- Rewriting the entry that the search finds changes what is found for its
process only. -/
theorem find?_modify
    {entries : List ProcEntry}
    {pid : Int}
    {index : Nat}
    (found : entries.findIdx? (fun e => e.pid = pid) = some index)
    (change : ProcEntry → ProcEntry)
    (samePid : ∀ e, (change e).pid = e.pid)
    (other : Int) :
    (entries.modify index change).find? (fun e => e.pid = other) =
      if other = pid then (entries.find? fun e => e.pid = pid).map change
      else entries.find? fun e => e.pid = other := by
  induction entries generalizing index with
  | nil => simp at found
  | cons e rest inductionHypothesis =>
      rw [List.findIdx?_cons] at found
      by_cases here : e.pid = pid
      · have first : index = 0 := by simpa [here] using found.symm
        subst first
        rw [List.modify_zero_cons]
        simp only [List.find?_cons, samePid, here, decide_true]
        by_cases same : other = pid
        · simp [same]
        · have differs : pid ≠ other := fun equal => same equal.symm
          simp [same, differs]
      · simp only [here, decide_false, Bool.false_eq_true, if_false] at found
        obtain ⟨later, lookup, rfl⟩ := Option.map_eq_some_iff.mp found
        rw [List.modify_succ_cons]
        simp only [List.find?_cons, here, decide_false]
        rw [inductionHypothesis lookup]
        by_cases same : other = pid
        · simp [same, here]
        · simp only [if_neg same]

/-- The search of `find_or_alloc` fails where there is no entry. -/
theorem findIdx?_eq_none_iff
    {ps : ProcScanner}
    {pid : Int} :
    ps.entries.findIdx? (fun e => e.pid = pid) = none ↔ ps.entryOf pid = none := by
  unfold entryOf
  rw [List.findIdx?_eq_none_iff, List.find?_eq_none]
  simp

/-- An entry added at the end is found for its process only. -/
theorem find?_concat
    {ps : ProcScanner}
    {pid : Int}
    (absent : ps.entryOf pid = none)
    (e : ProcEntry)
    (own : e.pid = pid)
    (other : Int) :
    (ps.entries ++ [e]).find? (fun e => e.pid = other) =
      if other = pid then some e else ps.entryOf other := by
  rw [List.find?_append]
  by_cases same : other = pid
  · rw [same]
    unfold entryOf at absent
    simp [absent, own]
  · have differs : e.pid ≠ other := fun equal => same (equal.symm.trans own)
    simp [same, differs, entryOf]

end ProcScanner

/-! ## One visit -/

section Visit

variable {fs : ProcFs} {ps : ProcScanner} {pid : Int}

theorem scanPid_of_le (low : pid ≤ 1) : scanPid fs ps pid = ps := by
  unfold scanPid
  rw [if_pos low]

/-- A process with an entry has it rewritten if its stat file can be read. -/
theorem entryOf_scanPid_known
    (user : pid > 1)
    {e : ProcEntry}
    (known : ps.entryOf pid = some e)
    (other : Int) :
    (scanPid fs ps pid).entryOf other =
      if other = pid then
        some (match fs.stat pid with
          | some tmp => updateEntry fs pid false tmp e
          | none => e)
      else ps.entryOf other := by
  obtain ⟨index, searched⟩ :
      ∃ index, ps.entries.findIdx? (fun e => e.pid = pid) = some index := by
    rw [← Option.isSome_iff_exists, Option.isSome_iff_ne_none]
    intro absent
    rw [ProcScanner.findIdx?_eq_none_iff.mp absent] at known
    cases known
  unfold scanPid findOrAlloc
  rw [if_neg (by omega), searched]
  dsimp only
  split
  · next unreadable =>
      rw [unreadable]
      by_cases same : other = pid
      · rw [same, if_pos rfl]
        exact known
      · rw [if_neg same]
  · next tmp readable =>
      have rewritten := ProcScanner.find?_modify searched
        (updateEntry fs pid false tmp) (fun _ => rfl) other
      unfold ProcScanner.entryOf at known
      rw [known] at rewritten
      rw [readable]
      exact rewritten

/-- A process without an entry gets one if the table has room, and the entry
stays unfilled if its stat file cannot be read. -/
theorem entryOf_scanPid_new
    (user : pid > 1)
    (absent : ps.entryOf pid = none)
    (room : ps.entries.length < procMaxTracked)
    (other : Int) :
    (scanPid fs ps pid).entryOf other =
      if other = pid then
        some (match fs.stat pid with
          | some tmp => firstEntry fs tmp pid
          | none => newProcEntry pid)
      else ps.entryOf other := by
  have searched := ProcScanner.findIdx?_eq_none_iff.mpr absent
  cases readable : fs.stat pid with
  | some tmp =>
      have new : pid ∉ ps.entries.map ProcEntry.pid :=
        ProcScanner.entryOf_eq_none_iff.mp absent
      rw [ProcScanner.entryOf, scanPid_new user new room readable]
      exact ProcScanner.find?_concat absent _ rfl other
  | none =>
      unfold scanPid findOrAlloc
      rw [if_neg (by omega), searched]
      dsimp only
      rw [dif_pos room]
      dsimp only
      rw [readable]
      exact ProcScanner.find?_concat absent _ rfl other

/-- A process without an entry is passed over if the table is full. -/
theorem scanPid_refused
    (absent : ps.entryOf pid = none)
    (full : ¬ ps.entries.length < procMaxTracked) :
    scanPid fs ps pid = ps := by
  unfold scanPid findOrAlloc
  rw [ProcScanner.findIdx?_eq_none_iff.mpr absent]
  dsimp only
  rw [dif_neg full]
  exact ite_self ps

/-- A visit concerns the entry of its process alone. -/
theorem entryOf_scanPid
    (user : pid > 1)
    (other : Int) :
    (scanPid fs ps pid).entryOf other =
      if other = pid then
        visited fs (ps.entries.length < procMaxTracked) pid (ps.entryOf pid)
      else ps.entryOf other := by
  cases known : ps.entryOf pid with
  | some e =>
      rw [entryOf_scanPid_known user known]
      unfold visited
      cases fs.stat pid <;> rfl
  | none =>
      by_cases room : ps.entries.length < procMaxTracked
      · rw [entryOf_scanPid_new user known room]
        unfold visited
        cases fs.stat pid <;> simp only [if_pos room]
      · rw [scanPid_refused known room]
        by_cases same : other = pid
        · rw [same, known, if_pos rfl]
          unfold visited
          cases fs.stat pid <;> simp only [if_neg room]
        · rw [if_neg same]

theorem entryOf_scanPid_of_other
    {other : Int}
    (unvisited : ¬ (pid > 1 ∧ other = pid)) :
    (scanPid fs ps pid).entryOf other = ps.entryOf other := by
  by_cases user : pid > 1
  · rw [entryOf_scanPid user, if_neg fun same => unvisited ⟨user, same⟩]
  · rw [scanPid_of_le (not_lt.mp user)]

/-! ## One pass -/

/-- A pass leaves the entries of the processes it does not list. -/
theorem entryOf_foldl_of_notMem
    {pids : List Int}
    (unlisted : pid ∉ pids) :
    (pids.foldl (scanPid fs) ps).entryOf pid = ps.entryOf pid := by
  induction pids generalizing ps with
  | nil => rfl
  | cons first rest inductionHypothesis =>
      rw [List.mem_cons, not_or] at unlisted
      obtain ⟨differs, later⟩ := unlisted
      rw [List.foldl_cons, inductionHypothesis later,
        entryOf_scanPid_of_other fun both => differs both.2]

/-- A pass without repetitions visits each listed process once. -/
theorem entryOf_foldl_of_mem
    {pids : List Int}
    (user : pid > 1)
    (listed : pid ∈ pids)
    (unrepeated : (pids.filter (· > 1)).Nodup) :
    ∃ before : ProcScanner, (pids.foldl (scanPid fs) ps).entryOf pid =
      visited fs (before.entries.length < procMaxTracked) pid (ps.entryOf pid) := by
  induction pids generalizing ps with
  | nil => exact absurd listed List.not_mem_nil
  | cons first rest inductionHypothesis =>
      rw [List.foldl_cons]
      by_cases here : pid = first
      · subst here
        rw [List.filter_cons_of_pos (by simpa using user), List.nodup_cons] at unrepeated
        have notLater : pid ∉ rest := by
          intro later
          exact unrepeated.1 (List.mem_filter.mpr ⟨later, by simpa using user⟩)
        refine ⟨ps, ?_⟩
        rw [entryOf_foldl_of_notMem notLater, entryOf_scanPid user, if_pos rfl]
      · have later : pid ∈ rest := (List.mem_cons.mp listed).resolve_left here
        have restUnrepeated : (rest.filter (· > 1)).Nodup :=
          unrepeated.sublist ((List.sublist_cons_self first rest).filter _)
        have once : ∃ before : ProcScanner,
            (rest.foldl (scanPid fs) (scanPid fs ps first)).entryOf pid =
              visited fs (before.entries.length < procMaxTracked) pid
                ((scanPid fs ps first).entryOf pid) :=
          inductionHypothesis later restUnrepeated
        obtain ⟨before, visitedThen⟩ := once
        refine ⟨before, ?_⟩
        rw [visitedThen, entryOf_scanPid_of_other fun both => here both.2]

end Visit

/-! ## One scan -/

/-- What a successful scan leaves of a process: the ticks it read now and their
increase over the ticks remembered from before. -/
structure ScannedEntry (fs : ProcFs) (before : ProcScanner) (e : ProcEntry) : Prop where
  active : e.active = true
  read : ∃ tmp, fs.stat e.pid = some tmp ∧ e.totalTicks = tmp.utime + tmp.stime
  delta : e.deltaTicks.toNat =
    match before.totalOf e.pid with
    | some total => e.totalTicks.toNat - total.toNat
    | none => 0

theorem updateEntry_deltaTicks
    (fs : ProcFs)
    (pid : Int)
    (isNew : Bool)
    (tmp : ProcStat)
    (e : ProcEntry) :
    (updateEntry fs pid isNew tmp e).deltaTicks.toNat =
      (tmp.utime + tmp.stime).toNat -
        (if isNew then tmp.utime + tmp.stime else e.totalTicks).toNat := by
  unfold updateEntry
  dsimp only
  generalize tmp.utime + tmp.stime = total
  generalize (if isNew then total else e.totalTicks) = previous
  split
  · next larger =>
      exact UInt64.toNat_sub_of_le _ _ (UInt64.le_of_lt larger)
  · next smaller =>
      have ordered := UInt64.le_iff_toNat_le.mp (UInt64.not_lt.mp smaller)
      rw [Nat.sub_eq_zero_of_le ordered]
      rfl

section Active

variable {fs : ProcFs} {room : Prop} [Decidable room] {pid : Int}
variable {old : Option ProcEntry} {e : ProcEntry}

/-- A visit leaves an entry active only by reading the stat file, if an entry
that was active before also had a readable one. -/
theorem visited_active
    (readBefore : ∀ before, old = some before → before.active = true →
      (fs.stat pid).isSome = true)
    (visit : visited fs room pid old = some e)
    (active : e.active = true) :
    ∃ tmp, fs.stat pid = some tmp ∧
      e = updateEntry fs pid old.isNone tmp (old.getD (newProcEntry pid)) := by
  unfold visited at visit
  split at visit
  · next before tmp readable =>
      cases visit
      exact ⟨tmp, readable, rfl⟩
  · next before unreadable =>
      cases visit
      have read := readBefore e rfl active
      rw [unreadable] at read
      cases read
  · next tmp readable =>
      split at visit
      · cases visit
        exact ⟨tmp, readable, rfl⟩
      · cases visit
  · next unreadable =>
      split at visit
      · cases visit
        cases active
      · cases visit

/-- A visit that reads the stat file leaves the entry active. -/
theorem active_of_visited
    {tmp : ProcStat}
    (readable : fs.stat pid = some tmp)
    (visit : visited fs room pid old = some e) :
    e.active = true := by
  unfold visited at visit
  rw [readable] at visit
  cases old with
  | some before =>
      cases visit
      rfl
  | none =>
      dsimp only at visit
      split at visit
      · cases visit
        rfl
      · cases visit

/-- After a visit the entry, if there is one, is active just when the stat file
could be read. -/
theorem visited_active_iff
    (readBefore : ∀ before, old = some before → before.active = true →
      (fs.stat pid).isSome = true) :
    (∃ e, visited fs room pid old = some e ∧ e.active = true) ↔
      (fs.stat pid).isSome = true ∧ (visited fs room pid old).isSome = true := by
  constructor
  · rintro ⟨e, visit, active⟩
    obtain ⟨tmp, readable, -⟩ := visited_active readBefore visit active
    rw [readable, visit]
    exact ⟨rfl, rfl⟩
  · rintro ⟨read, entered⟩
    obtain ⟨tmp, readable⟩ := Option.isSome_iff_exists.mp read
    obtain ⟨e, visit⟩ := Option.isSome_iff_exists.mp entered
    exact ⟨e, visit, active_of_visited readable visit⟩

end Active

/-- A successful scan keeps exactly processes whose stat file it read. -/
theorem procScannerScan_entries
    {fs : ProcFs}
    {ps : ProcScanner}
    {pids : List Int}
    (keyed : ps.Keyed)
    (listed : fs.listing = some pids)
    (unrepeated : (pids.filter (· > 1)).Nodup)
    {e : ProcEntry}
    (member : e ∈ (procScannerScan fs ps).entries) :
    ScannedEntry fs ps e := by
  unfold procScannerScan at member
  rw [listed] at member
  obtain ⟨inside, active⟩ := List.mem_filter.mp member
  have passed : (pids.foldl (scanPid fs) ps.clearActive).Keyed :=
    keyed.clearActive.foldl_scanPid fs pids
  have found := passed.entryOf_eq inside
  have user : e.pid > 1 := passed.user e.pid (List.mem_map_of_mem inside)
  have inactive : ∀ old, ps.clearActive.entryOf e.pid = some old →
      old.active = false := fun old known =>
    ps.clearActive_inactive old (ProcScanner.mem_of_entryOf known)
  by_cases visits : e.pid ∈ pids
  · have once : ∃ before : ProcScanner,
        (pids.foldl (scanPid fs) ps.clearActive).entryOf e.pid =
          visited fs (before.entries.length < procMaxTracked) e.pid
            (ps.clearActive.entryOf e.pid) :=
      entryOf_foldl_of_mem user visits unrepeated
    obtain ⟨before, visit⟩ := once
    rw [found] at visit
    have readBefore : ∀ old, ps.clearActive.entryOf e.pid = some old →
        old.active = true → (fs.stat e.pid).isSome = true := by
      intro old known wasActive
      rw [inactive old known] at wasActive
      cases wasActive
    obtain ⟨tmp, readable, written⟩ := visited_active readBefore visit.symm active
    refine ⟨active, ⟨tmp, readable, by rw [written]; rfl⟩, ?_⟩
    have delta := updateEntry_deltaTicks fs e.pid
      (ps.clearActive.entryOf e.pid).isNone tmp
      ((ps.clearActive.entryOf e.pid).getD (newProcEntry e.pid))
    have total : e.totalTicks = tmp.utime + tmp.stime := by
      rw [written]
      rfl
    rw [← written, ← total] at delta
    rw [delta, ← ProcScanner.totalOf_clearActive]
    unfold ProcScanner.totalOf
    cases ps.clearActive.entryOf e.pid with
    | some old => rfl
    | none => exact Nat.sub_self _
  · rw [entryOf_foldl_of_notMem visits] at found
    rw [inactive e found] at active
    cases active

/-- A failed `opendir` forgets no ticks, so those a scanner remembers are those
of the last successful scan. -/
theorem totalOf_lastScanned (history : List ProcFs) (pid : Int) :
    (lastScanned history).totalOf pid = (scansAfter history).totalOf pid := by
  induction history using List.reverseRecOn with
  | nil => rfl
  | append_singleton history fs inductionHypothesis =>
      unfold lastScanned
      rw [List.rdropWhile_concat]
      split
      · next failed =>
          have closed : fs.listing = none := Option.isNone_iff_eq_none.mp failed
          rw [scansAfter_snoc]
          unfold procScannerScan
          rw [closed, ProcScanner.totalOf_clearActive]
          exact inductionHypothesis
      · rfl

/-- However scans succeed and fail, a scanner has one entry for each of at most
1024 processes, and after a successful scan its entries are active, hold what
was read now, and carry the increase since the last successful scan; processes
that could not be read are gone. -/
theorem scansAfter_entries (history : List ProcFs) :
    (scansAfter history).entries.length ≤ 1024 ∧
      (scansAfter history).pids.Nodup ∧
      (∀ pid ∈ (scansAfter history).pids, pid > 1) ∧
      ∀ (fs : ProcFs) (pids : List Int), fs.listing = some pids →
        (pids.filter (· > 1)).Nodup →
          (∀ e ∈ (scansAfter (history ++ [fs])).entries,
            ScannedEntry fs (lastScanned history) e) ∧
          ∀ pid, fs.stat pid = none → pid ∉ (scansAfter (history ++ [fs])).pids := by
  have keyed := scansAfter_keyed history
  refine ⟨(scansAfter history).bounded, keyed.distinct, keyed.user, ?_⟩
  intro fs pids listed unrepeated
  rw [scansAfter_snoc]
  have scanned {e : ProcEntry} (member : e ∈ (procScannerScan fs
      (scansAfter history)).entries) : ScannedEntry fs (scansAfter history) e :=
    procScannerScan_entries keyed listed unrepeated member
  constructor
  · intro e member
    obtain ⟨active, read, delta⟩ := scanned member
    refine ⟨active, read, ?_⟩
    rw [totalOf_lastScanned]
    exact delta
  · intro pid unreadable inside
    obtain ⟨e, member, rfl⟩ := List.mem_map.mp inside
    obtain ⟨tmp, readable, -⟩ := (scanned member).read
    rw [unreadable] at readable
    cases readable

/-! ## Room in the table -/

/-- The processes with an entry. -/
def ProcScanner.pidSet (ps : ProcScanner) : Finset Int :=
  ps.pids.toFinset

/-- A listed process other than `init` whose stat file can be read. -/
def Live (fs : ProcFs) (pids : List Int) (pid : Int) : Prop :=
  pid ∈ pids ∧ pid > 1 ∧ (fs.stat pid).isSome = true

/-- Where a live process is first listed and has no entry yet, the entries of
the previous scan and the processes listed before it leave room. -/
def RoomForLive (ps : ProcScanner) (fs : ProcFs) (pids : List Int) : Prop :=
  ∀ before pid after, pids = before ++ pid :: after → pid ∉ before →
    Live fs pids pid → pid ∉ ps.pids →
      (ps.pidSet ∪ wanted (· > 1) before).card < procMaxTracked

namespace ProcScanner

theorem mem_pidSet
    {ps : ProcScanner}
    {pid : Int} :
    pid ∈ ps.pidSet ↔ pid ∈ ps.pids := List.mem_toFinset

theorem entryOf_isSome_iff
    {ps : ProcScanner}
    {pid : Int} :
    (ps.entryOf pid).isSome = true ↔ pid ∈ ps.pidSet := by
  rw [mem_pidSet, Option.isSome_iff_ne_none, ne_eq, entryOf_eq_none_iff, not_not]

theorem Keyed.card_pidSet
    {ps : ProcScanner}
    (keyed : ps.Keyed) :
    ps.pidSet.card = ps.entries.length := by
  unfold pidSet
  rw [List.toFinset_card_of_nodup keyed.distinct, pids, List.length_map]

/-- A visit leaves an entry where there was one or room for one. -/
theorem visited_isSome
    (fs : ProcFs)
    (room : Prop) [Decidable room]
    (pid : Int)
    (old : Option ProcEntry) :
    (visited fs room pid old).isSome = (old.isSome || decide room) := by
  unfold visited
  cases old with
  | some e => cases fs.stat pid <;> rfl
  | none => cases fs.stat pid <;> by_cases room <;> simp [*]

/-- A visit gives a process an entry if the table has room. -/
theorem Keyed.pidSet_scanPid
    {ps : ProcScanner}
    (keyed : ps.Keyed)
    (fs : ProcFs)
    (pid : Int) :
    (Schedmon.scanPid fs ps pid).pidSet =
      if decide (pid > 1) then admitOne procMaxTracked pid ps.pidSet
      else ps.pidSet := by
  by_cases user : pid > 1
  · ext other
    rw [if_pos (by simpa using user), ← entryOf_isSome_iff, entryOf_scanPid user]
    unfold admitOne
    rw [keyed.card_pidSet]
    by_cases same : other = pid
    · rw [if_pos same, visited_isSome, same]
      by_cases room : ps.entries.length < procMaxTracked
      · rw [if_pos room, decide_eq_true room, Bool.or_true]
        simp
      · rw [if_neg room, decide_eq_false room, Bool.or_false]
        exact entryOf_isSome_iff
    · rw [if_neg same, entryOf_isSome_iff]
      split
      · rw [Finset.mem_insert, or_iff_right same]
      · rfl
  · rw [if_neg (by simpa using user), scanPid_of_le (not_lt.mp user)]

end ProcScanner

section Pass

variable {fs : ProcFs} {ps : ProcScanner} {pids : List Int}

/-- A pass admits the listed processes while there is room, whether it can read
their stat files or not. -/
theorem pidSet_foldl
    (keyed : ps.Keyed) :
    (pids.foldl (scanPid fs) ps).pidSet =
      admitAll procMaxTracked (· > 1) pids ps.pidSet := by
  induction pids generalizing ps with
  | nil => rfl
  | cons first rest inductionHypothesis =>
      rw [List.foldl_cons, inductionHypothesis (keyed.scanPid fs first),
        keyed.pidSet_scanPid]
      rfl

/-- After a pass over inactive entries, those of the live processes are active. -/
theorem active_foldl
    (inactive : ∀ e ∈ ps.entries, e.active = false)
    (pid : Int) :
    (∃ e, (pids.foldl (scanPid fs) ps).entryOf pid = some e ∧ e.active = true) ↔
      Live fs pids pid ∧ pid ∈ (pids.foldl (scanPid fs) ps).pidSet := by
  induction pids using List.reverseRecOn with
  | nil =>
      constructor
      · rintro ⟨e, known, active⟩
        rw [inactive e (ProcScanner.mem_of_entryOf known)] at active
        cases active
      · rintro ⟨⟨member, -⟩, -⟩
        exact absurd member List.not_mem_nil
  | append_singleton pids last inductionHypothesis =>
      rw [List.foldl_append, List.foldl_cons, List.foldl_nil]
      rw [← ProcScanner.entryOf_isSome_iff] at inductionHypothesis ⊢
      unfold Live at inductionHypothesis ⊢
      generalize pids.foldl (scanPid fs) ps = passed at inductionHypothesis ⊢
      by_cases here : last > 1 ∧ pid = last
      · obtain ⟨user, rfl⟩ := here
        rw [entryOf_scanPid user, if_pos rfl]
        have readBefore : ∀ e, passed.entryOf pid = some e → e.active = true →
            (fs.stat pid).isSome = true := fun e known active =>
          (inductionHypothesis.mp ⟨e, known, active⟩).1.2.2
        rw [visited_active_iff readBefore]
        simp [user]
      · rw [entryOf_scanPid_of_other here, inductionHypothesis, List.mem_append,
          List.mem_singleton]
        constructor
        · rintro ⟨⟨member, live⟩, known⟩
          exact ⟨⟨.inl member, live⟩, known⟩
        · rintro ⟨⟨member, user, readable⟩, known⟩
          refine ⟨⟨member.resolve_right ?_, user, readable⟩, known⟩
          rintro rfl
          exact here ⟨user, rfl⟩

/-- A scan keeps the live processes that had an entry or got one in the pass. -/
theorem mem_pids_procScannerScan
    (keyed : ps.Keyed)
    (listed : fs.listing = some pids)
    (pid : Int) :
    pid ∈ (procScannerScan fs ps).pids ↔
      Live fs pids pid ∧ pid ∈ admitAll procMaxTracked (· > 1) pids ps.pidSet := by
  have cleared : ps.clearActive.pidSet = ps.pidSet := by
    unfold ProcScanner.pidSet ProcScanner.pids ProcScanner.clearActive
    rw [List.map_map]
    rfl
  have entered : (pids.foldl (scanPid fs) ps.clearActive).pidSet =
      admitAll procMaxTracked (· > 1) pids ps.clearActive.pidSet :=
    pidSet_foldl keyed.clearActive
  rw [← cleared, ← entered, ← active_foldl ps.clearActive_inactive]
  unfold procScannerScan
  rw [listed]
  constructor
  · intro member
    obtain ⟨e, kept, rfl⟩ := List.mem_map.mp member
    obtain ⟨inside, active⟩ := List.mem_filter.mp kept
    exact ⟨e, (keyed.clearActive.foldl_scanPid fs pids).entryOf_eq inside, active⟩
  · rintro ⟨e, known, active⟩
    exact List.mem_map.mpr ⟨e, List.mem_filter.mpr
      ⟨ProcScanner.mem_of_entryOf known, active⟩, ProcScanner.entryOf_pid known⟩

/-- A scan keeps all live processes exactly when the table has room for each of
them at the moment it is listed. -/
theorem procScannerScan_complete_iff
    (keyed : ps.Keyed)
    (listed : fs.listing = some pids) :
    (∀ pid, pid ∈ (procScannerScan fs ps).pids ↔ Live fs pids pid) ↔
      RoomForLive ps fs pids := by
  have bounded : ps.pidSet.card ≤ procMaxTracked := by
    rw [keyed.card_pidSet]
    exact ps.bounded
  simp only [mem_pids_procScannerScan keyed listed, and_iff_left_iff_imp]
  constructor
  · intro complete before pid after split first live new
    have entered := complete pid live
    rw [split, mem_admitAll_iff bounded (by simpa using live.2.1)
      (fun known => new (ProcScanner.mem_pidSet.mp known)) first] at entered
    exact entered
  · intro room pid live
    by_cases known : pid ∈ ps.pids
    · exact subset_admitAll (ProcScanner.mem_pidSet.mpr known)
    · obtain ⟨before, after, split, first⟩ := List.eq_append_cons_of_mem live.1
      rw [split, mem_admitAll_iff bounded (by simpa using live.2.1)
        (fun inside => known (ProcScanner.mem_pidSet.mp inside)) first]
      exact room before pid after split first live known

end Pass

/-- The entries of a process that has died stay in the table during the pass
that would replace them: in every run of scans, a scan keeps exactly the live
processes just when the entries kept so far and the processes listed earlier
leave room for each of them. -/
theorem scansAfter_complete_iff
    (history : List ProcFs)
    (fs : ProcFs)
    (pids : List Int)
    (listed : fs.listing = some pids) :
    (∀ pid, pid ∈ (scansAfter (history ++ [fs])).pids ↔ Live fs pids pid) ↔
      RoomForLive (scansAfter history) fs pids := by
  rw [scansAfter_snoc]
  exact procScannerScan_complete_iff (scansAfter_keyed history) listed

/-- A `/proc` whose processes all have readable stat files. -/
def readableProc (pids : List Int) : ProcFs where
  listing := some pids
  stat := fun _ => some ⟨[], 0, 0⟩
  uid := fun _ => 0

theorem scansAfter_complete_iff_two :
    (∀ pid, pid ∈ (scansAfter [readableProc [2, 3]]).pids ↔
        Live (readableProc [2, 3]) [2, 3] pid) ↔
      RoomForLive procScannerInit (readableProc [2, 3]) [2, 3] :=
  scansAfter_complete_iff [] (readableProc [2, 3]) [2, 3] rfl

/-- The first scan finds every process that fits into the table. -/
theorem pidSet_firstScan
    {pids : List Int}
    (user : ∀ pid ∈ pids, pid > 1)
    (fits : pids.length ≤ procMaxTracked) :
    (scansAfter [readableProc pids]).pidSet = pids.toFinset := by
  have room : RoomForLive procScannerInit (readableProc pids) pids := by
    intro before pid after split _ _ _
    have shorter : before.length < pids.length := by
      rw [split, List.length_append, List.length_cons]
      omega
    have few : (wanted (· > 1) before).card ≤ before.length :=
      (List.toFinset_card_le _).trans (List.length_filter_le _ before)
    have none : procScannerInit.pidSet = ∅ := rfl
    rw [none, Finset.empty_union]
    omega
  have listed : (readableProc pids).listing = some pids := rfl
  have complete := (procScannerScan_complete_iff procScannerInit_keyed listed).mpr room
  ext pid
  rw [ProcScanner.mem_pidSet, List.mem_toFinset]
  exact (complete pid).trans ⟨fun live => live.1, fun member =>
    ⟨member, user pid member, rfl⟩⟩

/-- The pids from 2 to 1025. -/
def fullTable : List Int :=
  (List.range procMaxTracked).map fun index : Nat => (index : Int) + 2

/-- The first scan fills the table, then all those processes die and one new
process starts: the second scan keeps nobody. -/
theorem scansAfter_turnover :
    ¬ ∀ (history : List ProcFs) (fs : ProcFs) (pids : List Int),
      fs.listing = some pids →
      (pids.filter fun pid => pid > 1 ∧ (fs.stat pid).isSome).dedup.length ≤
        procMaxTracked →
        ∀ pid, pid ∈ (scansAfter (history ++ [fs])).pids ↔ Live fs pids pid := by
  intro complete
  have distinct : fullTable.Nodup := by
    unfold fullTable
    apply List.nodup_range.map
    intro first second same
    exact Int.ofNat_inj.mp (add_right_cancel same)
  have users : ∀ pid ∈ fullTable, pid > 1 := by
    intro pid member
    obtain ⟨index, -, rfl⟩ := List.mem_map.mp member
    omega
  have count : fullTable.length = procMaxTracked := by
    unfold fullTable
    rw [List.length_map, List.length_range]
  have filled := pidSet_firstScan users count.le
  have newcomer : (2000 : Int) ∉ fullTable := by
    intro member
    obtain ⟨index, below, same⟩ := List.mem_map.mp member
    have small := List.mem_range.mp below
    unfold procMaxTracked at small
    omega
  have kept := (complete [readableProc fullTable] (readableProc [2000]) [2000] rfl
    (by decide) 2000).mpr ⟨List.mem_singleton.mpr rfl, by decide, rfl⟩
  rw [scansAfter_snoc, mem_pids_procScannerScan (scansAfter_keyed _) rfl,
    admitAll_of_full (by
      rw [filled, List.toFinset_card_of_nodup distinct, count]),
    filled, List.mem_toFinset] at kept
  exact newcomer kept.2

end Schedmon
