import Mathlib.Data.List.Induction
import Schedmon.ProcScanner

/-!
# The ranking of a scanner

`proc_scanner_top_n` picks the processes with the most ticks.  Here its result
is compared with the entries of a scanner that any calls of the two scans have
left.
-/

namespace Schedmon

/-- A call of one of the two scans. -/
inductive ScanCall
  | scan (fs : ProcFs)
  | scanPids (fs : ProcFs) (pids : List Int)

/-- The scanner after a call. -/
def ScanCall.run (ps : ProcScanner) : ScanCall → ProcScanner
  | .scan fs => procScannerScan fs ps
  | .scanPids fs pids => procScannerScanPids fs pids ps

/-- The scanner after some calls that follow `proc_scanner_init`. -/
def scannerAfter (calls : List ScanCall) : ProcScanner :=
  calls.foldl ScanCall.run procScannerInit

theorem scannerAfter_snoc (calls : List ScanCall) (call : ScanCall) :
    scannerAfter (calls ++ [call]) = call.run (scannerAfter calls) := by
  unfold scannerAfter
  rw [List.foldl_append]
  rfl

theorem ProcScanner.Keyed.run
    {ps : ProcScanner}
    (keyed : ps.Keyed)
    (call : ScanCall) :
    (call.run ps).Keyed := by
  cases call with
  | scan fs => exact keyed.procScannerScan fs
  | scanPids fs pids => exact keyed.procScannerScanPids fs pids

theorem scannerAfter_keyed (calls : List ScanCall) : (scannerAfter calls).Keyed := by
  induction calls using List.reverseRecOn with
  | nil => exact procScannerInit_keyed
  | append_singleton calls call inductionHypothesis =>
      rw [scannerAfter_snoc]
      exact inductionHypothesis.run call

/-! ## The comparator -/

theorem cmpDeltaDesc_le_zero_iff (a b : ProcEntry) :
    cmpDeltaDesc a b ≤ 0 ↔ b.deltaTicks ≤ a.deltaTicks := by
  unfold cmpDeltaDesc
  rw [← UInt64.not_lt]
  split
  · next larger => simp [larger]
  · next notLarger =>
      split
      · simp [notLarger]
      · simp [notLarger]

theorem cmpDeltaDesc_total (a b : ProcEntry) :
    cmpDeltaDesc a b ≤ 0 ∨ cmpDeltaDesc b a ≤ 0 := by
  rw [cmpDeltaDesc_le_zero_iff, cmpDeltaDesc_le_zero_iff]
  exact UInt64.le_total _ _

theorem cmpDeltaDesc_trans
    {a b c : ProcEntry}
    (first : cmpDeltaDesc a b ≤ 0)
    (second : cmpDeltaDesc b c ≤ 0) :
    cmpDeltaDesc a c ≤ 0 := by
  rw [cmpDeltaDesc_le_zero_iff] at first second ⊢
  exact UInt64.le_trans second first

theorem cmpDeltaDesc_swap (a b : ProcEntry) : cmpDeltaDesc a b = -cmpDeltaDesc b a := by
  unfold cmpDeltaDesc
  by_cases less : a.deltaTicks < b.deltaTicks
  · simp [less, UInt64.not_lt.mpr (UInt64.le_of_lt less)]
  · by_cases greater : b.deltaTicks < a.deltaTicks
    · simp [less, greater]
    · simp [less, greater]

/-! ## The entries behind the ranking -/

/-- The entries that `proc_scanner_top_n` ranks, as `qsort` leaves them. -/
def rankedEntries (qsort : Qsort) (minUid : Int) (ps : ProcScanner) : List ProcEntry :=
  qsort.sort cmpDeltaDesc (ps.entries.filter (eligible minUid))

section

variable {qsort : Qsort} {minUid : Int} {ps : ProcScanner}

theorem mem_rankedEntries_iff {e : ProcEntry} :
    e ∈ rankedEntries qsort minUid ps ↔ e ∈ ps.entries ∧ eligible minUid e = true := by
  unfold rankedEntries
  rw [(qsort.perm _ _).mem_iff, List.mem_filter]

theorem rankedEntries_pairwise :
    (rankedEntries qsort minUid ps).Pairwise fun a b => b.deltaTicks ≤ a.deltaTicks :=
  (qsort.sorted cmpDeltaDesc _ cmpDeltaDesc_total fun _ _ _ => cmpDeltaDesc_trans).imp
    fun ordered => (cmpDeltaDesc_le_zero_iff _ _).mp ordered

theorem map_take_rankedEntries (n : Nat) :
    ((rankedEntries qsort minUid ps).take n).map ProcEntry.pid =
      procScannerTopN qsort ps n minUid := by
  rw [procScannerTopN_eq_take, List.map_take]
  rfl

end

/-- From every state that scans can reach, and for every sort, the processes
that `proc_scanner_top_n` writes are those of `min n` eligible entries, each of
them once, in the order of their ticks, and no eligible entry left out has more
ticks than one of theirs.  The comparator is a total preorder. -/
theorem procScannerTopN_exact
    (qsort : Qsort)
    (calls : List ScanCall)
    (n : Nat)
    (minUid : Int) :
    let ps := scannerAfter calls
    let pids := procScannerTopN qsort ps n minUid
    (pids.length = min n (ps.entries.countP (eligible minUid)) ∧ pids.Nodup ∧
      ∃ top : List ProcEntry, top.map ProcEntry.pid = pids ∧
        (∀ e ∈ top, e ∈ ps.entries ∧ eligible minUid e = true) ∧
        (top.Pairwise fun a b => b.deltaTicks ≤ a.deltaTicks) ∧
        ∀ e ∈ ps.entries, eligible minUid e = true → e.pid ∉ pids →
          ∀ chosen ∈ top, e.deltaTicks ≤ chosen.deltaTicks) ∧
    (∀ a b, cmpDeltaDesc a b = -cmpDeltaDesc b a) ∧
    (∀ a b, cmpDeltaDesc a b ≤ 0 ∨ cmpDeltaDesc b a ≤ 0) ∧
    ∀ a b c, cmpDeltaDesc a b ≤ 0 → cmpDeltaDesc b c ≤ 0 → cmpDeltaDesc a c ≤ 0 := by
  refine ⟨?_, cmpDeltaDesc_swap, cmpDeltaDesc_total, fun _ _ _ => cmpDeltaDesc_trans⟩
  have keyed := scannerAfter_keyed calls
  generalize scannerAfter calls = ps at keyed ⊢
  have written := procScannerTopN_eq_take qsort ps n minUid
  rw [Int.toNat_natCast] at written
  refine ⟨?_, ?_, (rankedEntries qsort minUid ps).take n, map_take_rankedEntries n,
    ?_, ?_, ?_⟩
  · rw [written, List.length_take, length_ranking]
    rfl
  · rw [written]
    exact (keyed.ranking_nodup qsort minUid).sublist (List.take_sublist _ _)
  · intro e member
    exact mem_rankedEntries_iff.mp (List.mem_of_mem_take member)
  · exact rankedEntries_pairwise.sublist (List.take_sublist _ _)
  · intro e member chosenFrom leftOut chosen inside
    have ranked : e ∈ rankedEntries qsort minUid ps :=
      mem_rankedEntries_iff.mpr ⟨member, chosenFrom⟩
    rw [← List.take_append_drop n (rankedEntries qsort minUid ps)] at ranked
    rcases List.mem_append.mp ranked with early | late
    · rw [← map_take_rankedEntries] at leftOut
      exact absurd (List.mem_map_of_mem early) leftOut
    · have ordered : (rankedEntries qsort minUid ps).Pairwise fun a b =>
          b.deltaTicks ≤ a.deltaTicks := rankedEntries_pairwise
      rw [← List.take_append_drop n (rankedEntries qsort minUid ps),
        List.pairwise_append] at ordered
      exact ordered.2.2 chosen inside e late

end Schedmon
