import Schedmon.Daemon.History
import Schedmon.Daemon.Sync

/-!
# Everything but a pass of the slow path

`sync_pids` and the fast path take no sample and push nothing to the dashboard's
ring.
-/

namespace Schedmon

open Library

/-- Neither a tick, nor what a pass of the slow path logs for itself. -/
def Event.quiet : Event → Bool
  | .fd _ _ => true
  | .added _ _ => true
  | .removed _ => true
  | .pushed .classifier _ => true
  | _ => false

/-- A part of the program that logs quiet events alone. -/
def LogsQuiet (w next : World) : Prop :=
  ∃ events, next.log = w.log ++ events ∧ ∀ e ∈ events, e.quiet = true

namespace LogsQuiet

variable {w middle next : World}

theorem of_log_eq (same : next.log = w.log) : LogsQuiet w next :=
  ⟨[], by rw [same, List.append_nil], fun _ member => absurd member List.not_mem_nil⟩

theorem trans
    (first : LogsQuiet w middle)
    (second : LogsQuiet middle next) :
    LogsQuiet w next := by
  obtain ⟨events, log, quiet⟩ := first
  obtain ⟨later, laterLog, laterQuiet⟩ := second
  refine ⟨events ++ later, by rw [laterLog, log, List.append_assoc], ?_⟩
  intro e member
  rcases List.mem_append.mp member with early | late
  · exact quiet e early
  · exact laterQuiet e late

end LogsQuiet

theorem addPid_logsQuiet (w : World) (pid : Int) (readings : AddReadings) :
    LogsQuiet w (addPid w pid readings).2 := by
  have outcome := addPid_outcome w pid readings
  generalize addPid w pid readings = result at outcome ⊢
  cases outcome with
  | success room opens daemon nActive slots statics =>
      exact ⟨_, List.append_assoc _ _ _, forall_fdEvents_snoc (fun _ => rfl) _ rfl⟩
  | failure refused daemon ops traced nActive slots statics =>
      exact ⟨_, rfl, forall_fdEvents (fun _ => rfl) ops⟩

theorem removeSlot_logsQuiet
    {w : World}
    {i : Nat}
    (below : i < w.daemon.gNActive) :
    LogsQuiet w (removeSlot w i below) :=
  ⟨_, (removeSlot_log below).trans (List.append_assoc _ _ _),
    forall_fdEvents_snoc (fun _ => rfl) _ rfl⟩

theorem removeWhere_logsQuiet
    (gone : PidState → Bool)
    (fuel i : Nat)
    (w : World) :
    LogsQuiet w (removeWhere gone fuel i w) := by
  induction fuel generalizing i w with
  | zero => exact .of_log_eq rfl
  | succ fuel inductionHypothesis =>
      unfold removeWhere
      split
      · next below =>
          split
          · exact (removeSlot_logsQuiet below).trans (inductionHypothesis i _)
          · exact inductionHypothesis (i + 1) w
      · exact .of_log_eq rfl

theorem addMissing_logsQuiet
    (env : SyncEnv)
    (position : Nat)
    (pids : List Int)
    (w : World) :
    LogsQuiet w (addMissing env position pids w) := by
  induction pids generalizing position w with
  | nil => exact .of_log_eq rfl
  | cons pid rest inductionHypothesis =>
      unfold addMissing
      dsimp only
      refine LogsQuiet.trans ?_ (inductionHypothesis (position + 1) _)
      split
      · exact addPid_logsQuiet w pid _
      · exact .of_log_eq rfl

theorem addTop_logsQuiet
    (env : SyncEnv)
    (position : Nat)
    (top : List Int)
    (w : World) :
    LogsQuiet w (addTop env position top w) := by
  induction top generalizing position w with
  | nil => exact .of_log_eq rfl
  | cons pid rest inductionHypothesis =>
      rw [addTop_cons]
      refine LogsQuiet.trans ?_ (inductionHypothesis (position + 1) _)
      have added := addPid_logsQuiet w pid (env.add position pid)
      unfold topRound
      cases w.daemon.findSlot pid with
      | some slot => exact .of_log_eq rfl
      | none =>
          dsimp only
          split
          · exact added.trans (.of_log_eq rfl)
          · exact added

theorem syncPids_logsQuiet
    (qsort : Qsort)
    (cfg : DaemonConfig)
    (env : SyncEnv)
    (w : World) :
    LogsQuiet w (syncPids qsort cfg env w) := by
  unfold syncPids syncNow
  dsimp only
  split
  · exact .of_log_eq rfl
  · have scanned : LogsQuiet w (scanProcs cfg env { w with
        daemon := { w.daemon with firstRun := false, lastSync := env.now } }) :=
      .of_log_eq rfl
    split
    · exact scanned.trans
        ((addMissing_logsQuiet env 0 _ _).trans (removeWhere_logsQuiet _ _ 0 _))
    · have cleared := scanned.trans (.of_log_eq (clearMarks_log _))
      exact cleared.trans
        ((addTop_logsQuiet env 0 _ _).trans (removeWhere_logsQuiet _ _ 0 _))

theorem fastLoop_logsQuiet (now : UInt64) (fuel i : Nat) (w : World) :
    LogsQuiet w (fastLoop now fuel i w) := by
  induction fuel generalizing i w with
  | zero => exact .of_log_eq rfl
  | succ fuel inductionHypothesis =>
      unfold fastLoop
      split
      · next below =>
          dsimp only
          refine LogsQuiet.trans ⟨_, rfl, ?_⟩ (inductionHypothesis (i + 1) _)
          unfold fastVisit
          split <;> simp [Event.quiet]
      · exact .of_log_eq rfl

end Schedmon
