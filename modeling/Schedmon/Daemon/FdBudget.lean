import Schedmon.Daemon.Descriptors
import Schedmon.Daemon.Tracking
import Schedmon.Daemon.TopN

/-!
# The descriptor budget

`raise_fd_limit` estimates the descriptors that the daemon needs before it opens
any.  `sync_pids` adds the new pids of top-N mode before it removes the old
ones, so for a moment the table may hold twice as many slots as are wanted.
-/

namespace Schedmon

open Library Handles

/-! ## The estimate and the limit -/

/-- `struct rlimit` for `RLIMIT_NOFILE`. -/
structure Rlimit where
  rlimCur : UInt64
  rlimMax : UInt64
  deriving DecidableEq

/-- `RLIM_INFINITY`. -/
def rlimInfinity : UInt64 := 18446744073709551615

/-- The limits of the process, and what the kernel answers about them. -/
structure RlimitAnswers where
  current : Rlimit
  /-- Whether `getrlimit` returns 0. -/
  readable : Bool
  /-- Whether `setrlimit` returns 0 for a new limit. -/
  accepts : Rlimit → Bool

/-- What `raise_fd_limit` prints. -/
inductive FdMessage
  | unreadable
  | budget (estimated maxPids : Int) (soft hard : UInt64)
  | raised (soft target : UInt64)
  | hardTooLow (target : UInt64) (estimated : Int)
  | refused (estimated : Int) (soft : UInt64)
  deriving DecidableEq

/-- Whether a message is a `WARNING`. -/
def FdMessage.warns : FdMessage → Bool
  | .unreadable => true
  | .budget .. => false
  | .raised .. => false
  | .hardTooLow .. => true
  | .refused .. => true

/-- `max_pids` of `raise_fd_limit`. -/
def DaemonConfig.fdMaxPids (cfg : DaemonConfig) : Int :=
  if cfg.pids.length > 0 then cfg.pids.length
  else if cfg.topN > 0 then cfg.topN
  else defaultTopN

/-- `estimated` of `raise_fd_limit`. -/
def DaemonConfig.fdEstimate (cfg : DaemonConfig) : Int :=
  let fdsPerPid : Int := 3 + 1
  let rawEstimate := cfg.fdMaxPids * fdsPerPid + 64
  rawEstimate * 2

/-- `target` of `raise_fd_limit`. -/
def fdTarget (cfg : DaemonConfig) (rl : Rlimit) : UInt64 :=
  if rl.rlimMax = rlimInfinity then UInt64.ofInt cfg.fdEstimate else rl.rlimMax

/-- `raise_fd_limit`: the limits that it leaves, and what it prints. -/
def raiseFdLimit (cfg : DaemonConfig) (answers : RlimitAnswers) :
    Rlimit × List FdMessage :=
  let rl := answers.current
  let estimated := cfg.fdEstimate
  if !answers.readable then (rl, [.unreadable])
  else
    let budget := FdMessage.budget estimated cfg.fdMaxPids rl.rlimCur rl.rlimMax
    if UInt64.ofInt estimated ≤ rl.rlimCur then (rl, [budget])
    else
      let target := fdTarget cfg rl
      let newRl : Rlimit := ⟨target, rl.rlimMax⟩
      if answers.accepts newRl then
        (newRl, [budget, .raised rl.rlimCur target] ++
          if UInt64.ofInt estimated > target then [.hardTooLow target estimated]
          else [])
      else (rl, [budget, .refused estimated rl.rlimCur])

theorem DaemonConfig.fdMaxPids_bounds (cfg : DaemonConfig) :
    0 < cfg.fdMaxPids ∧ cfg.fdMaxPids ≤ maxPids := by
  have few := cfg.pids_le
  have wanted := cfg.topN_le
  unfold fdMaxPids defaultTopN
  split
  · omega
  · split
    · omega
    · decide

theorem DaemonConfig.fdEstimate_eq (cfg : DaemonConfig) :
    cfg.fdEstimate = 8 * cfg.fdMaxPids + 128 := by
  unfold fdEstimate
  dsimp only
  ring

theorem DaemonConfig.toNat_fdEstimate (cfg : DaemonConfig) :
    ((UInt64.ofInt cfg.fdEstimate).toNat : Int) = cfg.fdEstimate := by
  obtain ⟨positive, bounded⟩ := cfg.fdMaxPids_bounds
  have limit : (maxPids : Int) = 256 := rfl
  have estimate := cfg.fdEstimate_eq
  unfold UInt64.ofInt
  rw [UInt64.toNat_ofNat']
  omega

/-- Where nothing was warned about, the limit left covers the estimate. -/
theorem raiseFdLimit_covers
    {cfg : DaemonConfig}
    {answers : RlimitAnswers}
    (quiet : ∀ message ∈ (raiseFdLimit cfg answers).2, message.warns = false) :
    cfg.fdEstimate ≤ (raiseFdLimit cfg answers).1.rlimCur.toNat := by
  have estimate := cfg.toNat_fdEstimate
  have covered {soft : UInt64} (enough : UInt64.ofInt cfg.fdEstimate ≤ soft) :
      cfg.fdEstimate ≤ soft.toNat := by
    rw [← estimate]
    exact_mod_cast UInt64.le_iff_toNat_le.mp enough
  unfold raiseFdLimit at quiet ⊢
  dsimp only at quiet ⊢
  generalize fdTarget cfg answers.current = target at quiet ⊢
  cases readable : answers.readable with
  | false =>
      simp [readable, FdMessage.warns] at quiet
  | true =>
      simp only [readable, Bool.not_true, Bool.false_eq_true, if_false] at quiet ⊢
      by_cases enough : UInt64.ofInt cfg.fdEstimate ≤ answers.current.rlimCur
      · rw [if_pos enough]
        exact covered enough
      · rw [if_neg enough] at quiet ⊢
        cases accepted : answers.accepts ⟨target, answers.current.rlimMax⟩ with
        | true =>
            simp only [accepted, if_true] at quiet ⊢
            apply covered
            by_contra below
            rw [if_pos (UInt64.not_le.mp below)] at quiet
            simp [FdMessage.warns] at quiet
        | false =>
            simp [accepted, FdMessage.warns] at quiet

/-! ## What a slot costs -/

theorem SlotRecord.length_descriptors_le (r : SlotRecord) :
    r.descriptors.length ≤ 4 := by
  unfold descriptors validFds
  exact List.length_filter_le _ _

theorem Daemon.card_descriptors_le (s : Daemon) :
    Multiset.card s.descriptors ≤ 4 * s.gNActive := by
  have each (j : Nat) : Multiset.card (s.descriptorsAt j : Multiset Int) ≤ 4 := by
    unfold descriptorsAt
    split
    · exact SlotRecord.length_descriptors_le _
    · exact Nat.zero_le _
  unfold descriptors
  generalize s.gNActive = count
  induction count with
  | zero => rfl
  | succ count inductionHypothesis =>
      have last := each count
      rw [Finset.sum_range_succ, Multiset.card_add]
      omega

/-- An owner with so many slots holds four descriptors for each at most. -/
theorem Owned.card_le
    {w : World}
    (owned : Owned w) :
    (openDescriptors w.log).card ≤ 4 * w.daemon.gNActive :=
  owned.card_eq.trans_le w.daemon.card_descriptors_le

/-- The opens among some system calls. -/
def openCount (ops : List FdOp) : Nat := acquireCount (ops.map FdOp.handleOp)

@[simp] theorem openCount_append (ops later : List FdOp) :
    openCount (ops ++ later) = openCount ops + openCount later := by
  unfold openCount
  rw [List.map_append, acquireCount_append]

@[simp] theorem openCount_perfCounterClose (pc : PerfCounter) :
    openCount (perfCounterClose pc).2 = 0 := by
  unfold openCount
  rw [perfCounterClose_handleOps, acquireCount_releases]

theorem openCount_ops_le (result : OpenResult) : openCount result.ops ≤ 1 := by
  cases result with
  | error errno => exact Nat.zero_le 1
  | ok fd => exact le_rfl

/-- `perf_counter_open` opens three counters at most. -/
theorem openCount_perfCounterOpen_le (answers : PerfOpenAnswers) (pid cpuId : Int) :
    openCount (perfCounterOpen answers pid cpuId).2.2 ≤ 3 := by
  unfold perfCounterOpen
  cases answers.hwCycles with
  | error errno =>
      cases errno with
      | emfile => exact Nat.zero_le 3
      | enfile => exact Nat.zero_le 3
      | other =>
          cases answers.swClock with
          | error second => exact Nat.zero_le 3
          | ok fd => exact Nat.le_add_left 1 2
  | ok cyclesFd =>
      cases answers.hwInstr with
      | error errno =>
          dsimp only
          rw [openCount_append, openCount_perfCounterClose]
          exact Nat.le_add_left 1 2
      | ok instrFd =>
          cases answers.hwLlc with
          | error errno =>
              dsimp only
              rw [openCount_append, openCount_perfCounterClose]
              exact Nat.le_add_left 2 1
          | ok llcFd => exact le_rfl

/-! ## Worlds within the budget -/

/-- The pids in the table differ, and no more descriptors than a limit were ever
open at once. -/
structure WithinBudget (limit : Nat) (w : World) : Prop where
  distinct : w.daemon.Distinct
  owned : OpensFresh w → Owned w
  within : OpensFresh w → HeldWithin limit ∅ (handleOps w.log)

/-- A log whose opens are fresh is one of a history with fresh opens. -/
theorem OpensFresh.earlier
    {w next : World}
    (fresh : OpensFresh next)
    {events : List Event}
    (log : next.log = w.log ++ events) :
    OpensFresh w := by
  unfold OpensFresh at fresh ⊢
  rw [log, handleOps_append, acquiresFresh_append] at fresh
  exact fresh.1

namespace WithinBudget

variable {limit : Nat} {w next : World}

theorem start : WithinBudget limit ⟨Daemon.start, []⟩ where
  distinct := Daemon.start_distinct
  owned := fun _ => Owned.start
  within := fun _ => .nil (Nat.zero_le limit)

/-- An operation on the table stays within the limit if what it opens fits. -/
theorem step
    (before : WithinBudget limit w)
    (op : TableOp)
    (taken : descriptorStep op w = some next)
    (distinct : next.daemon.Distinct)
    {events : List Event}
    (log : next.log = w.log ++ events)
    (fits : 4 * w.daemon.gNActive + acquireCount (handleOps events) ≤ limit) :
    WithinBudget limit next where
  distinct := distinct
  owned := descriptorStep_owned op w next before.owned taken
  within := by
    intro fresh
    have earlier := fresh.earlier log
    have held := (before.owned earlier).card_le
    rw [log, handleOps_append]
    apply (before.within earlier).append
    unfold openDescriptors at held
    omega

/-- A world with the same descriptors and the same log. -/
theorem of_same
    (before : WithinBudget limit w)
    (distinct : next.daemon.Distinct)
    (log : handleOps next.log = handleOps w.log)
    (descriptors : next.daemon.descriptors = w.daemon.descriptors) :
    WithinBudget limit next := by
  have same : OpensFresh next → OpensFresh w := by
    unfold OpensFresh
    rw [log]
    exact id
  refine ⟨distinct, ?_, ?_⟩
  · intro fresh
    unfold Owned
    rw [log, descriptors]
    exact before.owned (same fresh)
  · intro fresh
    rw [log]
    exact before.within (same fresh)

theorem addPid
    (before : WithinBudget limit w)
    {pid : Int}
    (absent : pid ∉ w.daemon.pids)
    (readings : AddReadings)
    (fits : 4 * (w.daemon.gNActive + 1) ≤ limit) :
    WithinBudget limit (Schedmon.addPid w pid readings).2 := by
  have distinct := (addPid_lookup readings before.distinct absent).1
  have taken : descriptorStep (.addPid pid readings) w =
      some (Schedmon.addPid w pid readings).2 := rfl
  have perf := openCount_perfCounterOpen_le readings.perf pid (-1)
  have io := openCount_ops_le readings.ioFd
  have outcome := addPid_outcome w pid readings
  generalize Schedmon.addPid w pid readings = result at outcome distinct taken ⊢
  cases outcome with
  | success room opens daemon nActive slots statics =>
      refine before.step _ taken distinct (List.append_assoc _ _ _) ?_
      have calls : openCount (addOps pid readings) ≤ 4 := by
        rw [addOps, openCount_append]
        omega
      rw [handleOps_append, handleOps_fds, acquireCount_append]
      change _ + (openCount (addOps pid readings) + 0) ≤ _
      omega
  | failure refused daemon ops traced nActive slots statics =>
      refine before.step _ taken distinct rfl ?_
      have calls : openCount ops ≤ 3 := by
        rcases traced with rfl | rfl
        · exact Nat.zero_le 3
        · rw [failedAddOps, openCount_append, openCount_perfCounterClose]
          exact perf
      rw [handleOps_fds]
      change _ + openCount ops ≤ _
      omega

theorem removeSlot
    (before : WithinBudget limit w)
    {i : Nat}
    (below : i < w.daemon.gNActive)
    (fits : 4 * w.daemon.gNActive ≤ limit) :
    WithinBudget limit (Schedmon.removeSlot w i below) := by
  refine before.step (.removeSlot i) (dif_pos below)
    (removeSlot_lookup before.distinct below).1
    ((removeSlot_log below).trans (List.append_assoc _ _ _)) ?_
  rw [handleOps_append, handleOps_fds, removeOps_handleOps, acquireCount_append,
    acquireCount_releases]
  exact fits

/-- What a write to a slot opens. -/
theorem acquireCount_write_le
    {write : SlotWrite}
    {r after : SlotRecord}
    {events : List Event}
    (wrote : write.apply r = some (after, events)) :
    acquireCount (handleOps events) ≤ 4 := by
  obtain ⟨kept, closed, opened, calls, old, new⟩ := SlotWrite.apply_handleOps wrote
  have few := after.length_descriptors_le
  have total := congrArg Multiset.card new
  rw [Multiset.card_add, Multiset.coe_card, Multiset.coe_card,
    Multiset.coe_card] at total
  rw [calls, acquireCount_append, acquireCount_releases, acquireCount_acquires]
  omega

theorem write
    (before : WithinBudget limit w)
    {i : Nat}
    (below : i < w.daemon.gNActive)
    {write : SlotWrite}
    {after : SlotRecord}
    {events : List Event}
    (wrote : write.apply (w.daemon.slot (w.daemon.live below)) = some (after, events))
    (fits : 4 * (w.daemon.gNActive + 1) ≤ limit) :
    WithinBudget limit (w.putSlot (w.daemon.live below) after events) := by
  have opened := acquireCount_write_le wrote
  refine before.step (.write i write) ?_
    (putSlot_lookup before.distinct below (SlotWrite.apply_pid wrote) events).1 rfl
    (by omega)
  simp only [descriptorStep, tableStep, dif_pos below, wrote]
  rfl

/-! ## The loops of a tick -/

theorem markActive
    (before : WithinBudget limit w)
    {i : Fin maxPids}
    (below : i.val < w.daemon.gNActive) :
    WithinBudget limit (Schedmon.markActive w i) := by
  refine before.of_same (markActive_lookup before.distinct below).1 rfl ?_
  apply Daemon.descriptors_congr (markActive_gNActive w i)
  intro j _
  rw [markActive_slot]
  split
  · next here =>
      subst here
      rfl
  · rfl

theorem clearMarks (before : WithinBudget limit w) :
    WithinBudget limit (Schedmon.clearMarks w) := by
  refine before.of_same (clearMarks_lookup before.distinct).1 rfl ?_
  apply Daemon.descriptors_congr (clearMarks_gNActive w)
  intro j live
  rw [clearMarks_slot w live]
  rfl

/-- A removal loop leaves no more slots than it found. -/
theorem removeWhere
    (before : WithinBudget limit w)
    (gone : PidState → Bool)
    (fuel i : Nat)
    (fits : 4 * w.daemon.gNActive ≤ limit) :
    WithinBudget limit (Schedmon.removeWhere gone fuel i w) ∧
      (Schedmon.removeWhere gone fuel i w).daemon.gNActive ≤ w.daemon.gNActive := by
  induction fuel generalizing i w with
  | zero => exact ⟨before, le_rfl⟩
  | succ fuel inductionHypothesis =>
      unfold Schedmon.removeWhere
      split
      · next below =>
          split
          · have fewer := removeSlot_gNActive below
            obtain ⟨kept, count⟩ := inductionHypothesis
              (before.removeSlot below fits) i (by omega)
            exact ⟨kept, by omega⟩
          · exact inductionHypothesis before (i + 1) fits
      · exact ⟨before, le_rfl⟩

/-- The add loop of explicit mode tracks configured pids only. -/
theorem addMissing
    (before : WithinBudget limit w)
    (env : SyncEnv)
    (position : Nat)
    (configured : Finset Int)
    (tracked : w.daemon.pids ⊆ configured)
    (pids : List Int)
    (candidates : ∀ pid ∈ pids, pid ∈ configured)
    (fits : 4 * (configured.card + 1) ≤ limit) :
    WithinBudget limit (Schedmon.addMissing env position pids w) ∧
      (Schedmon.addMissing env position pids w).daemon.pids ⊆ configured := by
  induction pids generalizing position w with
  | nil => exact ⟨before, tracked⟩
  | cons pid rest inductionHypothesis =>
      unfold Schedmon.addMissing
      dsimp only
      have others : ∀ other ∈ rest, other ∈ configured := fun other member =>
        candidates other (List.mem_cons_of_mem pid member)
      split
      · next untracked =>
          have absent := Daemon.findSlot_eq_none_iff.mp untracked
          have count := Finset.card_le_card tracked
          rw [before.distinct.card_pids] at count
          apply inductionHypothesis (before.addPid absent _ (by omega)) (position + 1)
            _ others
          rw [addPid_pids _ before.distinct absent]
          have inserted : insert pid w.daemon.pids ⊆ configured :=
            Finset.insert_subset (candidates pid List.mem_cons_self) tracked
          unfold Library.Admission.admitOne
          split
          · split
            · exact inserted
            · exact tracked
          · exact tracked
      · exact inductionHypothesis before (position + 1) tracked others

/-- The add loop of top-N mode adds one slot for a pid at most, and marks ranked
pids only. -/
theorem addTop
    (before : WithinBudget limit w)
    (env : SyncEnv)
    (position : Nat)
    (top : List Int)
    (fits : 4 * (w.daemon.gNActive + top.length) ≤ limit) :
    WithinBudget limit (Schedmon.addTop env position top w) ∧
      (Schedmon.addTop env position top w).daemon.gNActive ≤
        w.daemon.gNActive + top.length ∧
      ∀ pid, (Schedmon.addTop env position top w).daemon.Marked pid →
        w.daemon.Marked pid ∨ pid ∈ top := by
  induction top generalizing position w with
  | nil => exact ⟨before, le_rfl, fun _ marked => .inl marked⟩
  | cons pid rest inductionHypothesis =>
      obtain ⟨distinct, pids, marked⟩ := topRound_spec env position pid before.distinct
      have grown : (topRound env position pid w).daemon.gNActive ≤
          w.daemon.gNActive + 1 := by
        rw [← distinct.card_pids, ← before.distinct.card_pids, pids]
        unfold Library.Admission.admitOne
        split
        · split
          · exact Finset.card_insert_le pid _
          · exact Nat.le_succ _
        · exact Nat.le_succ _
      have round : WithinBudget limit (topRound env position pid w) := by
        rw [List.length_cons] at fits
        unfold topRound
        cases found : w.daemon.findSlot pid with
        | some slot => exact before.markActive (Daemon.findSlot_eq_some found).1
        | none =>
            have absent := Daemon.findSlot_eq_none_iff.mp found
            have added := before.addPid absent (env.add position pid) (by omega)
            have outcome := addPid_outcome w pid (env.add position pid)
            dsimp only
            generalize Schedmon.addPid w pid (env.add position pid) = result at *
            cases outcome with
            | success room opens daemon nActive slots statics =>
                exact added.markActive (by dsimp only; omega)
            | failure refused daemon ops traced nActive slots statics => exact added
      rw [List.length_cons] at fits
      obtain ⟨kept, count, laterMarked⟩ :=
        inductionHypothesis round (position + 1) (by omega)
      rw [addTop_cons, List.length_cons]
      refine ⟨kept, by omega, ?_⟩
      intro other final
      rcases laterMarked other final with early | listed
      · rcases (marked other).mp early with old | ⟨rfl, _⟩
        · exact .inl old
        · exact .inr List.mem_cons_self
      · exact .inr (List.mem_cons_of_mem pid listed)

/-- The slow path leaves no more slots than it found. -/
theorem slowLoop
    (before : WithinBudget limit w)
    (env : TickEnv)
    (dt : ℚ)
    (displayLimit : Int)
    (fuel i displayed : Nat)
    (fits : 4 * (w.daemon.gNActive + 1) ≤ limit) :
    WithinBudget limit (Schedmon.slowLoop env dt displayLimit fuel i displayed w) ∧
      (Schedmon.slowLoop env dt displayLimit fuel i displayed w).daemon.gNActive ≤
        w.daemon.gNActive := by
  induction fuel generalizing i displayed w with
  | zero => exact ⟨before, le_rfl⟩
  | succ fuel inductionHypothesis =>
      unfold Schedmon.slowLoop
      split
      · next below =>
          have kept {r : SlotRecord} {events : List Event}
              (wrote : (SlotWrite.slow (env.slow (w.daemon.slot
                (w.daemon.live below)).pid) env.now dt
                  (decide ((displayed : Int) < displayLimit))).apply
                    (w.daemon.slot (w.daemon.live below)) = some (r, events)) :
              WithinBudget limit (w.putSlot (w.daemon.live below) r events) :=
            before.write below wrote fits
          simp only [SlotWrite.apply] at kept
          dsimp only
          split
          · have fewer := removeSlot_gNActive below
            obtain ⟨removed, count⟩ := inductionHypothesis
              (before.removeSlot below (by omega)) i displayed (by omega)
            exact ⟨removed, by omega⟩
          · next r events outcome =>
              exact inductionHypothesis (kept (by rw [outcome])) (i + 1) _ fits
          · next r events outcome =>
              exact inductionHypothesis (kept (by rw [outcome])) (i + 1) _ fits
      · exact ⟨before, le_rfl⟩

/-- The fast path leaves the slots that it found. -/
theorem fastLoop
    (before : WithinBudget limit w)
    (now : UInt64)
    (fuel i : Nat)
    (fits : 4 * (w.daemon.gNActive + 1) ≤ limit) :
    WithinBudget limit (Schedmon.fastLoop now fuel i w) ∧
      (Schedmon.fastLoop now fuel i w).daemon.gNActive = w.daemon.gNActive := by
  induction fuel generalizing i w with
  | zero => exact ⟨before, rfl⟩
  | succ fuel inductionHypothesis =>
      unfold Schedmon.fastLoop
      split
      · next below =>
          have wrote : (SlotWrite.fast now).apply (w.daemon.slot
              (w.daemon.live below)) =
                some (fastVisit (w.daemon.slot (w.daemon.live below)) now) := rfl
          exact inductionHypothesis (before.write below wrote fits) (i + 1) fits
      · exact ⟨before, rfl⟩

end WithinBudget

/-! ## Runs -/

section

variable {qsort : Qsort} {cfg : DaemonConfig} {w : World}

theorem length_topPids_le
    (noPids : ¬ cfg.pids.length > 0)
    (scanner : ProcScanner) :
    (topPids qsort cfg scanner).length ≤ cfg.fdMaxPids.toNat := by
  rw [topPids_eq_take, List.length_take, DaemonConfig.fdMaxPids, if_neg noPids]
  split
  · exact min_le_left _ _
  · omega

/-- After a removal loop only the pids with a mark are tracked. -/
theorem card_pids_removeWhere_le
    (distinct : w.daemon.Distinct)
    {top : List Int}
    (marked : ∀ pid, w.daemon.Marked pid → pid ∈ top) :
    (removeWhere (fun st => !st.active) w.daemon.gNActive 0 w).daemon.pids.card ≤
      top.length := by
  refine (Finset.card_le_card ?_).trans top.toFinset_card_le
  intro pid member
  have effect := (removeWhere_lookup (fun st => !st.active) w.daemon.gNActive 0 w
    distinct (Nat.le_add_left _ 0) fun _ _ earlier => absurd earlier (Nat.not_lt_zero _)).2
  rw [Daemon.mem_pids_iff_lookup, effect] at member
  obtain ⟨r, kept⟩ := Option.ne_none_iff_exists'.mp member
  rw [Option.filter_eq_some_iff] at kept
  rw [List.mem_toFinset]
  apply marked
  exact ⟨r, kept.1, by simpa using kept.2⟩

theorem WithinBudget.syncNow
    (before : WithinBudget (8 * cfg.fdMaxPids.toNat) w)
    (env : SyncEnv)
    (few : w.daemon.gNActive ≤ cfg.fdMaxPids.toNat)
    (configured : cfg.pids ≠ [] → ∀ pid ∈ w.daemon.pids, pid ∈ cfg.pids) :
    WithinBudget (8 * cfg.fdMaxPids.toNat) (Schedmon.syncNow qsort cfg env w) ∧
      (Schedmon.syncNow qsort cfg env w).daemon.gNActive ≤ cfg.fdMaxPids.toNat := by
  have positive := cfg.fdMaxPids_bounds.1
  have scanned : WithinBudget (8 * cfg.fdMaxPids.toNat) (scanProcs cfg env w) :=
    before.of_same before.distinct rfl (Daemon.descriptors_congr rfl fun _ _ => rfl)
  have samePids : (scanProcs cfg env w).daemon.pids = w.daemon.pids := rfl
  have sameCount : (scanProcs cfg env w).daemon.gNActive = w.daemon.gNActive := rfl
  unfold Schedmon.syncNow
  generalize scanProcs cfg env w = found at scanned samePids sameCount ⊢
  dsimp only
  split
  · next explicit =>
      have listed : cfg.fdMaxPids = cfg.pids.length := if_pos explicit
      have size := cfg.pids.toFinset_card_le
      obtain ⟨added, tracked⟩ := scanned.addMissing env 0 cfg.pids.toFinset
        (fun pid member => List.mem_toFinset.mpr
          (configured (List.ne_nil_of_length_pos explicit) pid (samePids ▸ member)))
        cfg.pids (fun pid member => List.mem_toFinset.mpr member) (by omega)
      generalize Schedmon.addMissing env 0 cfg.pids found = grown at added tracked ⊢
      have count := Finset.card_le_card tracked
      rw [added.distinct.card_pids] at count
      obtain ⟨removed, fewer⟩ := added.removeWhere (fun st => !env.alive st.pid)
        grown.daemon.gNActive 0 (by omega)
      exact ⟨removed, by omega⟩
  · next noPids =>
      have listed : (topPids qsort cfg found.daemon.gScanner).length ≤ cfg.fdMaxPids.toNat :=
        length_topPids_le noPids found.daemon.gScanner
      generalize topPids qsort cfg found.daemon.gScanner = top at listed ⊢
      have unmarked (pid : Int) : ¬ (Schedmon.clearMarks found).daemon.Marked pid := by
        rintro ⟨r, kept, active⟩
        rw [(clearMarks_lookup scanned.distinct).2 pid, Option.map_eq_some_iff] at kept
        obtain ⟨old, _, rfl⟩ := kept
        cases active
      have count := clearMarks_gNActive found
      obtain ⟨added, grew, marked⟩ := scanned.clearMarks.addTop env 0 top (by omega)
      generalize Schedmon.addTop env 0 top (Schedmon.clearMarks found) = grown at added grew marked ⊢
      obtain ⟨removed, fewer⟩ := added.removeWhere (fun st => !st.active)
        grown.daemon.gNActive 0 (by omega)
      refine ⟨removed, ?_⟩
      rw [← removed.distinct.card_pids]
      refine (card_pids_removeWhere_le added.distinct fun pid held => ?_).trans listed
      exact (marked pid held).resolve_left (unmarked pid)

variable (qsort) in
/-- A `sync_pids` call leaves as many slots as the estimate counts, and no more. -/
theorem WithinBudget.syncPids
    (before : WithinBudget (8 * cfg.fdMaxPids.toNat) w)
    (env : SyncEnv)
    (few : w.daemon.gNActive ≤ cfg.fdMaxPids.toNat)
    (configured : cfg.pids ≠ [] → ∀ pid ∈ w.daemon.pids, pid ∈ cfg.pids) :
    WithinBudget (8 * cfg.fdMaxPids.toNat) (Schedmon.syncPids qsort cfg env w) ∧
      (Schedmon.syncPids qsort cfg env w).daemon.gNActive ≤ cfg.fdMaxPids.toNat := by
  unfold Schedmon.syncPids
  split
  · exact ⟨before, few⟩
  · dsimp only
    refine WithinBudget.syncNow ?_ env few configured
    exact before.of_same before.distinct rfl
      (Daemon.descriptors_congr rfl fun _ _ => rfl)

/-- A run is within the budget at each of its ticks. -/
theorem runSamplingLoop_withinBudget
    (qsort : Qsort)
    (cfg : DaemonConfig)
    (start : UInt64)
    (envs : List TickEnv) :
    WithinBudget (8 * cfg.fdMaxPids.toNat)
        (runSamplingLoop qsort cfg start envs).world ∧
      (runSamplingLoop qsort cfg start envs).world.daemon.gNActive ≤
        cfg.fdMaxPids.toNat := by
  have positive := cfg.fdMaxPids_bounds.1
  induction envs using List.reverseRecOn with
  | nil => exact ⟨WithinBudget.start, Nat.zero_le _⟩
  | append_singleton envs env inductionHypothesis =>
      have configured := (run_distinct_configured qsort cfg start envs).2
      rw [runSamplingLoop_snoc]
      generalize runSamplingLoop qsort cfg start envs = st at *
      obtain ⟨before, few⟩ := inductionHypothesis
      have ticked : WithinBudget (8 * cfg.fdMaxPids.toNat)
          (st.world.emit (.tick env.now st.slowTick)) :=
        before.of_same before.distinct (by simp [handleOps, Event.handleOp?]) rfl
      unfold tick
      dsimp only
      cases slow : st.slowTick with
      | true =>
          rw [slow] at ticked
          simp only [if_true]
          unfold slowPath fastPath
          obtain ⟨synced, count⟩ := ticked.syncPids qsort env.sync few configured
          dsimp only
          generalize syncPids qsort cfg env.sync _ = found at synced count ⊢
          obtain ⟨sampled, fewer⟩ := synced.slowLoop env (slowDt st env.now)
            (if cfg.topN > 0 then cfg.topN else (found.daemon.gNActive : Int))
            found.daemon.gNActive 0 0 (by omega)
          generalize slowLoop env _ _ _ 0 0 found = visited at sampled fewer ⊢
          obtain ⟨rested, same⟩ := sampled.fastLoop env.now visited.daemon.gNActive 0
            (by omega)
          exact ⟨rested, by omega⟩
      | false =>
          rw [slow] at ticked
          simp only [Bool.false_eq_true, if_false]
          unfold fastPath
          obtain ⟨rested, same⟩ := ticked.fastLoop env.now st.world.daemon.gNActive 0
            (by
              change 4 * (st.world.daemon.gNActive + 1) ≤ _
              omega)
          exact ⟨rested, same.trans_le few⟩

/-- Where `raise_fd_limit` warned about nothing, every run leaves a descriptor
below the limit free at every point, as long as the rest of the program holds
fewer than 128: the slots hold eight for each tracked pid at most, four of them
those of a pid that `sync_pids` is about to drop. -/
theorem raiseFdLimit_sufficient
    (qsort : Qsort)
    (cfg : DaemonConfig)
    (answers : RlimitAnswers)
    (start : UInt64)
    (envs : List TickEnv)
    (quiet : ∀ message ∈ (raiseFdLimit cfg answers).2, message.warns = false)
    (fresh : OpensFresh (runSamplingLoop qsort cfg start envs).world)
    (others : Finset Int)
    (few : others.card < 128) :
    ∀ earlier, earlier <+: (runSamplingLoop qsort cfg start envs).world.log →
      ((openDescriptors earlier).card : Int) ≤ 8 * cfg.fdMaxPids ∧
      ∃ fd : Nat, fd < (raiseFdLimit cfg answers).1.rlimCur.toNat ∧
        (fd : Int) ∉ openDescriptors earlier ∧ (fd : Int) ∉ others := by
  intro earlier before
  have positive := cfg.fdMaxPids_bounds.1
  have within := (runSamplingLoop_withinBudget qsort cfg start envs).1.within fresh
  have held : (openDescriptors earlier).card ≤ 8 * cfg.fdMaxPids.toNat := by
    obtain ⟨rest, log⟩ := before
    apply within (handleOps earlier)
    rw [← log, handleOps_append]
    exact List.prefix_append _ _
  have covers := raiseFdLimit_covers quiet
  have estimate := cfg.fdEstimate_eq
  refine ⟨by omega, ?_⟩
  generalize (raiseFdLimit cfg answers).1.rlimCur.toNat = soft at covers ⊢
  -- fewer descriptors are taken than there are numbers below the limit
  have room : (openDescriptors earlier ∪ others).card <
      ((Finset.range soft).image fun fd : Nat => (fd : Int)).card := by
    have taken := Finset.card_union_le (openDescriptors earlier) others
    rw [Finset.card_image_of_injective _ (fun _ _ => Int.natCast_inj.mp), Finset.card_range]
    omega
  obtain ⟨fd, below, free⟩ := Finset.exists_mem_notMem_of_card_lt_card room
  obtain ⟨number, inside, rfl⟩ := Finset.mem_image.mp below
  rw [Finset.mem_union, not_or] at free
  exact ⟨number, Finset.mem_range.mp inside, free.1, free.2⟩

end

/-- A limit of 100 that may be raised to 4096. -/
def raisableRlimit : RlimitAnswers where
  current := ⟨100, 4096⟩
  readable := true
  accepts := fun _ => true

/-- A configuration of top-N mode that tracks one pid. -/
def singleConfig : DaemonConfig :=
  { defaultConfig with
    topN := 1
    topN_le := by decide }

/-- A tick a second after the first, in which another process is there. -/
def turnoverTick : TickEnv :=
  { plainTick 1000000001 plainSlowReadings with
    sync :=
      { plainSyncEnv 1000000001 [1001] with
        add := fun _ _ =>
          { plainAddReadings with
            perf :=
              { plainAddReadings.perf with
                hwCycles := .ok 7
                hwInstr := .ok 8
                hwLlc := .ok 9 }
            ioFd := .ok 10 } } }

/-- A run in which one process takes the place of another. -/
def turnoverTicks : List TickEnv :=
  [plainTick 1 plainSlowReadings, plainTick 250000001 plainSlowReadings,
    plainTick 500000001 plainSlowReadings, plainTick 750000001 plainSlowReadings,
    turnoverTick]

/-- While one process takes the place of another, the bound is reached. -/
theorem raiseFdLimit_sufficient_turnover :
    ∃ earlier,
      earlier <+: (runSamplingLoop insertionQsort singleConfig 0
        turnoverTicks).world.log ∧
      (openDescriptors earlier).card = 8 ∧ singleConfig.fdMaxPids = 1 ∧
      ∃ fd : Nat, fd < (raiseFdLimit singleConfig raisableRlimit).1.rlimCur.toNat ∧
        (fd : Int) ∉ openDescriptors earlier ∧ (fd : Int) ∉ ({0, 1, 2} : Finset Int) := by
  refine ⟨_, List.take_prefix 16 _, by decide +kernel, rfl, ?_⟩
  exact (raiseFdLimit_sufficient insertionQsort singleConfig raisableRlimit 0
    turnoverTicks (by decide +kernel) (by unfold OpensFresh; decide +kernel)
    {0, 1, 2} (by decide) _ (List.take_prefix 16 _)).2

end Schedmon
