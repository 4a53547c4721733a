import Schedmon.Daemon.Tracking

/-!
# Runs that differ in the names of processes

A slot's name is only displayed.  Worlds that differ in names take the same
steps and write the same log, whatever number of rows the slow path displays.
-/

namespace Schedmon

/-- The same slots under other names. -/
def Daemon.rename (s : Daemon) (names : Fin maxPids → Comm) : Daemon :=
  { s with gComm := names }

/-- The same world with other names in its slots. -/
def World.rename (w : World) (names : Fin maxPids → Comm) : World :=
  { w with daemon := w.daemon.rename names }

/-- Two worlds that differ at most in the names of their slots. -/
def World.SameButNames (w other : World) : Prop :=
  ∃ names, other = w.rename names

theorem World.SameButNames.refl (w : World) : w.SameButNames w :=
  ⟨w.daemon.gComm, rfl⟩

section

variable {w other : World}

theorem World.SameButNames.log (same : w.SameButNames other) :
    other.log = w.log := by
  obtain ⟨names, rfl⟩ := same
  rfl

theorem World.SameButNames.gNActive (same : w.SameButNames other) :
    other.daemon.gNActive = w.daemon.gNActive := by
  obtain ⟨names, rfl⟩ := same
  rfl

theorem World.SameButNames.statics (same : w.SameButNames other) :
    other.daemon.statics = w.daemon.statics := by
  obtain ⟨names, rfl⟩ := same
  rfl

theorem World.SameButNames.emit
    (same : w.SameButNames other)
    (e : Event) :
    (w.emit e).SameButNames (other.emit e) := by
  obtain ⟨names, rfl⟩ := same
  exact ⟨names, rfl⟩

/-- A record under another name. -/
def SlotRecord.rename (r : SlotRecord) (comm : Comm) : SlotRecord :=
  { r with comm := comm }

theorem World.SameButNames.slot
    (same : w.SameButNames other)
    (i : Fin maxPids) :
    ∃ comm, other.daemon.slot i = (w.daemon.slot i).rename comm := by
  obtain ⟨names, rfl⟩ := same
  exact ⟨names i, rfl⟩

theorem Daemon.findBelow_rename
    (s : Daemon)
    (names : Fin maxPids → Comm)
    (pid : Int)
    (bound : Nat) :
    (s.rename names).findBelow pid bound = s.findBelow pid bound := by
  induction bound with
  | zero => rfl
  | succ bound inductionHypothesis =>
      unfold Daemon.findBelow
      rw [inductionHypothesis]
      rfl

theorem World.SameButNames.findSlot
    (same : w.SameButNames other)
    (pid : Int) :
    other.daemon.findSlot pid = w.daemon.findSlot pid := by
  obtain ⟨names, rfl⟩ := same
  exact Daemon.findBelow_rename w.daemon names pid w.daemon.gNActive

/-! ## The operations on slots -/

theorem World.SameButNames.addPid
    (same : w.SameButNames other)
    (pid : Int)
    (readings : AddReadings) :
    (Schedmon.addPid other pid readings).1 = (Schedmon.addPid w pid readings).1 ∧
      (Schedmon.addPid w pid readings).2.SameButNames
        (Schedmon.addPid other pid readings).2 := by
  obtain ⟨names, rfl⟩ := same
  by_cases room : w.daemon.gNActive < maxPids
  · have otherRoom : (w.rename names).daemon.gNActive < maxPids := room
    cases opens : perfOpens readings with
    | true =>
        rw [addPid_of_perf_opens room opens, addPid_of_perf_opens otherRoom opens]
        exact ⟨rfl, _, rfl⟩
    | false =>
        rw [addPid_of_perf_fails room opens, addPid_of_perf_fails otherRoom opens]
        exact ⟨rfl, names, rfl⟩
  · have full : w.daemon.gNActive = maxPids :=
      le_antisymm w.daemon.gNActive_le (not_lt.mp room)
    have otherFull : (w.rename names).daemon.gNActive = maxPids := full
    rw [addPid_of_full full, addPid_of_full otherFull]
    exact ⟨rfl, names, rfl⟩

theorem World.SameButNames.removeSlot
    (same : w.SameButNames other)
    {i : Nat}
    (below : i < w.daemon.gNActive)
    (otherBelow : i < other.daemon.gNActive) :
    (Schedmon.removeSlot w i below).SameButNames
      (Schedmon.removeSlot other i otherBelow) := by
  obtain ⟨names, rfl⟩ := same
  have live : (w.rename names).daemon.live otherBelow = w.daemon.live below := rfl
  have last : (w.rename names).daemon.lastIndex = w.daemon.lastIndex := rfl
  have closed (i : Fin maxPids) : (w.rename names).daemon.closeSlot i =
      (w.daemon.closeSlot i).rename names := by
    unfold Daemon.closeSlot
    dsimp only
    split
    · next isOpen =>
        rw [if_pos (show (w.daemon.gStates i).ioFd ≥ 0 from isOpen)]
        rfl
    · next isClosed =>
        rw [if_neg (show ¬ (w.daemon.gStates i).ioFd ≥ 0 from isClosed)]
        rfl
  unfold Schedmon.removeSlot
  dsimp only
  rw [live, last, closed]
  split
  · exact ⟨_, rfl⟩
  · exact ⟨names, rfl⟩

theorem World.SameButNames.markActive
    (same : w.SameButNames other)
    (i : Fin maxPids) :
    (Schedmon.markActive w i).SameButNames (Schedmon.markActive other i) := by
  obtain ⟨names, rfl⟩ := same
  exact ⟨names, rfl⟩

theorem World.SameButNames.clearMarks (same : w.SameButNames other) :
    (Schedmon.clearMarks w).SameButNames (Schedmon.clearMarks other) := by
  obtain ⟨names, rfl⟩ := same
  exact ⟨names, rfl⟩

theorem World.SameButNames.putSlot
    (same : w.SameButNames other)
    (i : Fin maxPids)
    (r : SlotRecord)
    (comm : Comm)
    (events : List Event) :
    (w.putSlot i r events).SameButNames (other.putSlot i (r.rename comm) events) := by
  obtain ⟨names, rfl⟩ := same
  exact ⟨_, rfl⟩

/-! ## The loops of `sync_pids` -/

theorem World.SameButNames.removeWhere
    (same : w.SameButNames other)
    (gone : PidState → Bool)
    (fuel i : Nat) :
    (Schedmon.removeWhere gone fuel i w).SameButNames
      (Schedmon.removeWhere gone fuel i other) := by
  induction fuel generalizing i w other with
  | zero => exact same
  | succ fuel inductionHypothesis =>
      unfold Schedmon.removeWhere
      by_cases below : i < w.daemon.gNActive
      · have otherBelow : i < other.daemon.gNActive := same.gNActive ▸ below
        have state : other.daemon.gStates (other.daemon.live otherBelow) =
            w.daemon.gStates (w.daemon.live below) := by
          obtain ⟨names, rfl⟩ := same
          rfl
        rw [dif_pos below, dif_pos otherBelow, state]
        split
        · exact inductionHypothesis (same.removeSlot below otherBelow) i
        · exact inductionHypothesis same (i + 1)
      · rw [dif_neg below, dif_neg (same.gNActive ▸ below)]
        exact same

theorem World.SameButNames.addMissing
    (same : w.SameButNames other)
    (env : SyncEnv)
    (position : Nat)
    (pids : List Int) :
    (Schedmon.addMissing env position pids w).SameButNames
      (Schedmon.addMissing env position pids other) := by
  induction pids generalizing position w other with
  | nil => exact same
  | cons pid rest inductionHypothesis =>
      unfold Schedmon.addMissing
      dsimp only
      rw [same.findSlot pid]
      split
      · exact inductionHypothesis (same.addPid pid _).2 (position + 1)
      · exact inductionHypothesis same (position + 1)

theorem World.SameButNames.topRound
    (same : w.SameButNames other)
    (env : SyncEnv)
    (position : Nat)
    (pid : Int) :
    (Schedmon.topRound env position pid w).SameButNames
      (Schedmon.topRound env position pid other) := by
  unfold Schedmon.topRound
  rw [same.findSlot pid]
  cases w.daemon.findSlot pid with
  | some slot => exact same.markActive slot
  | none =>
      obtain ⟨slot, added⟩ := same.addPid pid (env.add position pid)
      dsimp only
      rw [slot]
      cases (Schedmon.addPid w pid (env.add position pid)).1 with
      | some slot => exact added.markActive slot
      | none => exact added

theorem World.SameButNames.addTop
    (same : w.SameButNames other)
    (env : SyncEnv)
    (position : Nat)
    (pids : List Int) :
    (Schedmon.addTop env position pids w).SameButNames
      (Schedmon.addTop env position pids other) := by
  induction pids generalizing position w other with
  | nil => exact same
  | cons pid rest inductionHypothesis =>
      rw [addTop_cons, addTop_cons]
      exact inductionHypothesis (same.topRound env position pid) (position + 1)

theorem World.SameButNames.scanProcs
    (same : w.SameButNames other)
    (cfg : DaemonConfig)
    (env : SyncEnv) :
    (Schedmon.scanProcs cfg env w).SameButNames
      (Schedmon.scanProcs cfg env other) := by
  obtain ⟨names, rfl⟩ := same
  exact ⟨names, rfl⟩

/-! ## The slow path and the fast path -/

/-- A pass over a renamed slot writes the renamed record and the same events,
whether or not its row is displayed. -/
theorem slowVisit_rename
    (r : SlotRecord)
    (comm : Comm)
    (readings : SlowReadings)
    (now : UInt64)
    (dt : ℚ)
    (displayed otherDisplayed : Bool) :
    (slowVisit r readings now dt displayed = .unreadable ∧
      slowVisit (r.rename comm) readings now dt otherDisplayed = .unreadable) ∨
    ∃ after later events,
      (slowVisit r readings now dt displayed = .skipped after events ∧
        slowVisit (r.rename comm) readings now dt otherDisplayed =
          .skipped (after.rename later) events) ∨
      (slowVisit r readings now dt displayed = .sampled after events ∧
        slowVisit (r.rename comm) readings now dt otherDisplayed =
          .sampled (after.rename later) events) := by
  unfold slowVisit
  have counters : (r.rename comm).perf = r.perf := rfl
  have state : (r.rename comm).state = r.state := rfl
  rw [counters, state]
  cases perfCounterRead r.perf readings.hw with
  | none => exact .inl ⟨rfl, rfl⟩
  | some hw =>
      right
      dsimp only
      split
      · exact ⟨_, comm, _, .inl ⟨rfl, rfl⟩⟩
      · split
        · exact ⟨_, comm, _, .inl ⟨rfl, rfl⟩⟩
        · refine ⟨_, (takeSample (r.rename comm) hw readings now dt
            otherDisplayed).1.comm, _, .inr ⟨rfl, ?_⟩⟩
          unfold takeSample publish
          have metrics : (resampled (r.rename comm) hw readings dt).lastSm =
              (resampled r hw readings dt).lastSm := rfl
          dsimp only
          rw [metrics]
          split
          · cases displayed <;> cases otherDisplayed <;> rfl
          · cases displayed <;> cases otherDisplayed <;> rfl

theorem fastVisit_rename
    (r : SlotRecord)
    (comm : Comm)
    (now : UInt64) :
    fastVisit (r.rename comm) now =
      ((fastVisit r now).1.rename comm, (fastVisit r now).2) := by
  unfold fastVisit
  have publishes : fastPublishes (r.rename comm) now = fastPublishes r now := rfl
  rw [publishes]
  split <;> rfl

/-- The slow path writes the same under every display limit. -/
theorem World.SameButNames.slowLoop
    (same : w.SameButNames other)
    (env : TickEnv)
    (dt : ℚ)
    (displayLimit otherLimit : Int)
    (fuel i displayed otherDisplayed : Nat) :
    (Schedmon.slowLoop env dt displayLimit fuel i displayed w).SameButNames
      (Schedmon.slowLoop env dt otherLimit fuel i otherDisplayed other) := by
  induction fuel generalizing i displayed otherDisplayed w other with
  | zero => exact same
  | succ fuel inductionHypothesis =>
      unfold Schedmon.slowLoop
      by_cases below : i < w.daemon.gNActive
      · have otherBelow : i < other.daemon.gNActive := same.gNActive ▸ below
        have live : other.daemon.live otherBelow = w.daemon.live below := rfl
        obtain ⟨comm, slot⟩ := same.slot (w.daemon.live below)
        have pid : ((w.daemon.slot (w.daemon.live below)).rename comm).pid =
            (w.daemon.slot (w.daemon.live below)).pid := rfl
        rw [dif_pos below, dif_pos otherBelow]
        dsimp only
        rw [live, slot, pid]
        rcases slowVisit_rename (w.daemon.slot (w.daemon.live below)) comm
          (env.slow (w.daemon.slot (w.daemon.live below)).pid) env.now dt
          (decide ((displayed : Int) < displayLimit))
          (decide ((otherDisplayed : Int) < otherLimit)) with
          ⟨gone, otherGone⟩ |
          ⟨after, later, events, ⟨wrote, otherWrote⟩ | ⟨wrote, otherWrote⟩⟩
        · rw [gone, otherGone]
          exact inductionHypothesis (same.removeSlot below otherBelow) i _ _
        · rw [wrote, otherWrote]
          exact inductionHypothesis (same.putSlot _ after later events) (i + 1) _ _
        · rw [wrote, otherWrote]
          exact inductionHypothesis (same.putSlot _ after later events) (i + 1) _ _
      · rw [dif_neg below, dif_neg (same.gNActive ▸ below)]
        exact same

theorem World.SameButNames.fastLoop
    (same : w.SameButNames other)
    (now : UInt64)
    (fuel i : Nat) :
    (Schedmon.fastLoop now fuel i w).SameButNames
      (Schedmon.fastLoop now fuel i other) := by
  induction fuel generalizing i w other with
  | zero => exact same
  | succ fuel inductionHypothesis =>
      unfold Schedmon.fastLoop
      by_cases below : i < w.daemon.gNActive
      · have otherBelow : i < other.daemon.gNActive := same.gNActive ▸ below
        have live : other.daemon.live otherBelow = w.daemon.live below := rfl
        obtain ⟨comm, slot⟩ := same.slot (w.daemon.live below)
        rw [dif_pos below, dif_pos otherBelow]
        dsimp only
        rw [live, slot, fastVisit_rename]
        exact inductionHypothesis (same.putSlot _ _ _ _) (i + 1)
      · rw [dif_neg below, dif_neg (same.gNActive ▸ below)]
        exact same

theorem World.SameButNames.fastPath
    (same : w.SameButNames other)
    (now : UInt64) :
    (Schedmon.fastPath now w).SameButNames (Schedmon.fastPath now other) := by
  unfold Schedmon.fastPath
  rw [same.gNActive]
  exact same.fastLoop now w.daemon.gNActive 0

end

end Schedmon
