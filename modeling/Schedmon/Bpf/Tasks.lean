import Schedmon.Bpf.Handlers
import Schedmon.Library.Transition

/-!
# The kernel's tasks

Which tracepoint events the kernel can emit.  A task is forked, runs, exits, and
is switched out for the last time; then its id may be used again.
-/

namespace Schedmon

open Library Transition

/-- The tasks of the system. -/
structure Tasks where
  /-- Not yet switched out for the last time. -/
  alive : Finset UInt32
  /-- Alive, but past `handle_exit`. -/
  exiting : Finset UInt32
  /-- Switched out for the last time, and the id not used again. -/
  gone : Finset UInt32
  /-- The process that a task belongs to, by the id of its leader. -/
  process : UInt32 → UInt32
  exiting_subset : exiting ⊆ alive
  disjoint : Disjoint alive gone
  leader_mem : ∀ pid ∈ alive, process pid ∈ alive ∪ gone
  /-- The idle task is none of them. -/
  notIdle : 0 ∉ alive ∪ gone

namespace Tasks

variable (t : Tasks)

/-- The ids in use, or used before. -/
def known : Finset UInt32 :=
  t.alive ∪ t.gone

/-- A task that can be running: the idle task is always there. -/
def Runs (pid : UInt32) : Prop :=
  pid = 0 ∨ pid ∈ t.alive

/-- A switch-out that is its task's last one: the task has exited. -/
def Final (ctx : SchedSwitchArgs) : Prop :=
  ctx.prevPid ∈ t.exiting ∧ ctx.prevState ≠ 0

/-- A new task takes a free id, and is a new process or a thread of an old one. -/
def CanFork (childPid process : UInt32) : Prop :=
  1 < childPid ∧ childPid ∉ t.alive ∧
    (∀ pid ∈ t.alive, t.process pid ≠ childPid) ∧
      (process = childPid ∨ ∃ pid ∈ t.alive, t.process pid = process)

/-- A task exits once, and `group_dead` is set for the last one of its process. -/
def CanExit (pid : UInt32) (groupDead : Bool) : Prop :=
  1 < pid ∧ pid ∈ t.alive ∧ pid ∉ t.exiting ∧
    (groupDead = true ↔ ∀ other ∈ t.alive, other ≠ pid →
      t.process other = t.process pid → other ∈ t.exiting)

/-- Some task of a process is alive. -/
def ProcessRuns (process : UInt32) : Prop :=
  ∃ pid ∈ t.alive, t.process pid = process

instance (pid : UInt32) : Decidable (t.Runs pid) :=
  inferInstanceAs (Decidable (pid = 0 ∨ pid ∈ t.alive))

instance (ctx : SchedSwitchArgs) : Decidable (t.Final ctx) :=
  inferInstanceAs (Decidable (ctx.prevPid ∈ t.exiting ∧ ctx.prevState ≠ 0))

-- the quantifiers range over the finite set of tasks, not over all of `UInt32`
instance (childPid process : UInt32) : Decidable (t.CanFork childPid process) :=
  have : Decidable (∀ pid ∈ t.alive, t.process pid ≠ childPid) :=
    Finset.decidableDforallFinset
  have : Decidable (∃ pid ∈ t.alive, t.process pid = process) :=
    Finset.decidableExistsAndFinset
  inferInstanceAs (Decidable (1 < childPid ∧ childPid ∉ t.alive ∧
    (∀ pid ∈ t.alive, t.process pid ≠ childPid) ∧
      (process = childPid ∨ ∃ pid ∈ t.alive, t.process pid = process)))

instance (pid : UInt32) (groupDead : Bool) : Decidable (t.CanExit pid groupDead) :=
  have : Decidable (∀ other ∈ t.alive, other ≠ pid →
      t.process other = t.process pid → other ∈ t.exiting) :=
    Finset.decidableDforallFinset
  inferInstanceAs (Decidable (1 < pid ∧ pid ∈ t.alive ∧ pid ∉ t.exiting ∧
    (groupDead = true ↔ ∀ other ∈ t.alive, other ≠ pid →
      t.process other = t.process pid → other ∈ t.exiting)))

instance (process : UInt32) : Decidable (t.ProcessRuns process) :=
  Finset.decidableExistsAndFinset

/-- The tasks after a fork. -/
def birth (childPid process : UInt32) (can : t.CanFork childPid process) :
    Tasks where
  alive := insert childPid t.alive
  exiting := t.exiting
  gone := t.gone.erase childPid
  process := Function.update t.process childPid process
  exiting_subset := t.exiting_subset.trans (Finset.subset_insert _ _)
  disjoint := by
    rw [Finset.disjoint_insert_left]
    exact ⟨Finset.notMem_erase _ _, t.disjoint.mono_right (Finset.erase_subset _ _)⟩
  leader_mem := by
    obtain ⟨_, absent, notLeader, belongs⟩ := can
    have kept : ∀ pid ∈ t.alive,
        t.process pid ∈ insert childPid t.alive ∪ t.gone.erase childPid := by
      intro pid member
      have leader := t.leader_mem pid member
      have other := notLeader pid member
      simp only [Finset.mem_union, Finset.mem_insert, Finset.mem_erase] at leader ⊢
      rcases leader with alive | gone
      · exact .inl (.inr alive)
      · exact .inr ⟨other, gone⟩
    intro pid member
    by_cases own : pid = childPid
    · rw [own, Function.update_self]
      rcases belongs with rfl | ⟨thread, alive, rfl⟩
      · simp
      · exact kept thread alive
    · rw [Function.update_of_ne own]
      exact kept pid ((Finset.mem_insert.mp member).resolve_left own)
  notIdle := by
    have ordinary : (0 : UInt32) ≠ childPid := by
      rintro rfl
      exact absurd can.1 (by decide)
    have old := t.notIdle
    simp only [Finset.mem_union, Finset.mem_insert, Finset.mem_erase] at old ⊢
    tauto

/-- The tasks after one has begun to exit. -/
def beginExit (pid : UInt32) (alive : pid ∈ t.alive) : Tasks :=
  { t with
    exiting := insert pid t.exiting
    exiting_subset := Finset.insert_subset alive t.exiting_subset }

/-- The tasks after one has been switched out for the last time. -/
def bury (pid : UInt32) (alive : pid ∈ t.alive) : Tasks where
  alive := t.alive.erase pid
  exiting := t.exiting.erase pid
  gone := insert pid t.gone
  process := t.process
  exiting_subset := Finset.erase_subset_erase pid t.exiting_subset
  disjoint := by
    rw [Finset.disjoint_insert_right]
    exact ⟨Finset.notMem_erase _ _, t.disjoint.mono_left (Finset.erase_subset _ _)⟩
  leader_mem := by
    intro other member
    have leader := t.leader_mem other (Finset.mem_of_mem_erase member)
    simp only [Finset.mem_union, Finset.mem_insert, Finset.mem_erase] at leader ⊢
    by_cases own : t.process other = pid
    · exact .inr (.inl own)
    · rcases leader with alive | gone
      · exact .inl ⟨own, alive⟩
      · exact .inr (.inr gone)
  notIdle := by
    have ordinary : (0 : UInt32) ≠ pid := by
      rintro rfl
      exact t.notIdle (Finset.mem_union_left _ alive)
    have old := t.notIdle
    simp only [Finset.mem_union, Finset.mem_insert, Finset.mem_erase] at old ⊢
    tauto

/-- The tasks after an event, or `none` where the kernel does not emit it.  A
completion can come at any time. -/
def step : KernelEvent → Tasks → Option Tasks
  | .schedSwitch ctx _ _, t =>
      if t.Runs ctx.prevPid ∧ t.Runs ctx.nextPid ∧ ctx.prevPid ≠ ctx.nextPid then
        some (if final : t.Final ctx then
          t.bury ctx.prevPid (t.exiting_subset final.1) else t)
      else none
  | .schedWakeup pid _, t => if pid ∈ t.alive then some t else none
  | .fork childPid process, t =>
      if can : t.CanFork childPid process then some (t.birth childPid process can)
      else none
  | .exit pid groupDead, t =>
      if can : t.CanExit pid groupDead then some (t.beginExit pid can.2.1) else none
  | .exec pid _, t => if t.ProcessRuns pid then some t else none
  | .blockRqIssue pid _ _, t => if pid = 0 ∨ t.ProcessRuns pid then some t else none
  | .blockRqComplete _ _, t => some t

/-- A system in which only `init` runs. -/
def boot : Tasks where
  alive := {1}
  exiting := ∅
  gone := ∅
  process := id
  exiting_subset := Finset.empty_subset _
  disjoint := Finset.disjoint_empty_right _
  leader_mem := by simp
  notIdle := by simp

theorem ne_zero_of_alive {pid : UInt32} (alive : pid ∈ t.alive) : pid ≠ 0 := by
  rintro rfl
  exact t.notIdle (Finset.mem_union_left _ alive)

theorem ne_zero_of_gone {pid : UInt32} (gone : pid ∈ t.gone) : pid ≠ 0 := by
  rintro rfl
  exact t.notIdle (Finset.mem_union_right _ gone)

theorem not_mem_gone {pid : UInt32} (alive : pid ∈ t.alive) : pid ∉ t.gone :=
  Finset.disjoint_left.mp t.disjoint alive

theorem ProcessRuns.mem_known {t : Tasks} {process : UInt32}
    (runs : t.ProcessRuns process) :
    process ∈ t.known := by
  obtain ⟨pid, alive, rfl⟩ := runs
  exact t.leader_mem pid alive

end Tasks

/-- The id that a fork gives to its child. -/
def KernelEvent.forked? : KernelEvent → Option UInt32
  | .fork childPid _ => some childPid
  | _ => none

/-- The id of a task that exits. -/
def KernelEvent.exited? : KernelEvent → Option UInt32
  | .exit pid _ => some pid
  | _ => none

/-- The ids under which a handler inserts into the maps, but for a completion,
which finds its id in `bio_inflight`. -/
def KernelEvent.Involves (e : KernelEvent) (pid : UInt32) : Prop :=
  match e with
  | .schedSwitch ctx _ _ => pid = ctx.prevPid ∨ pid = ctx.nextPid
  | .schedWakeup other _ => pid = other
  | .fork childPid _ => pid = childPid
  | .exit other _ => pid = other
  | .exec other _ => pid = other
  | .blockRqIssue other _ _ => pid = other
  | .blockRqComplete _ _ => False

/-! ## What an event can do to the tasks -/

/-- The effect of an event on the sets of tasks. -/
inductive TaskEffect (t : Tasks) (e : KernelEvent) : Tasks → Prop
  | same
      (notFork : e.forked? = none)
      (notExit : e.exited? = none)
      (notFinal : ∀ ctx now cpu, e = .schedSwitch ctx now cpu → ¬ t.Final ctx) :
      TaskEffect t e t
  | birth (childPid process : UInt32) (event : e = .fork childPid process)
      (can : t.CanFork childPid process) :
      TaskEffect t e (t.birth childPid process can)
  | beginExit (pid : UInt32) (groupDead : Bool) (event : e = .exit pid groupDead)
      (can : t.CanExit pid groupDead) :
      TaskEffect t e (t.beginExit pid can.2.1)
  | bury (ctx : SchedSwitchArgs) (now : UInt64) (cpu : UInt32)
      (event : e = .schedSwitch ctx now cpu) (final : t.Final ctx) :
      TaskEffect t e (t.bury ctx.prevPid (t.exiting_subset final.1))

theorem Tasks.step_effect
    {e : KernelEvent}
    {t next : Tasks}
    (taken : Tasks.step e t = some next) :
    TaskEffect t e next := by
  cases e with
  | schedSwitch ctx now cpu =>
      simp only [Tasks.step] at taken
      split at taken
      · cases taken
        split
        · next final => exact .bury ctx now cpu rfl final
        · next notFinal =>
            refine .same rfl rfl ?_
            rintro _ _ _ ⟨⟩
            exact notFinal
      · cases taken
  | fork childPid process =>
      simp only [Tasks.step] at taken
      split at taken
      · next can =>
          cases taken
          exact .birth childPid process rfl can
      · cases taken
  | exit pid groupDead =>
      simp only [Tasks.step] at taken
      split at taken
      · next can =>
          cases taken
          exact .beginExit pid groupDead rfl can
      · cases taken
  | schedWakeup pid now =>
      simp only [Tasks.step, Option.ite_none_right_eq_some, Option.some.injEq] at taken
      rw [← taken.2]
      exact .same rfl rfl (by simp)
  | exec pid comm =>
      simp only [Tasks.step, Option.ite_none_right_eq_some, Option.some.injEq] at taken
      rw [← taken.2]
      exact .same rfl rfl (by simp)
  | blockRqIssue pid rqPtr now =>
      simp only [Tasks.step, Option.ite_none_right_eq_some, Option.some.injEq] at taken
      rw [← taken.2]
      exact .same rfl rfl (by simp)
  | blockRqComplete rqPtr now =>
      simp only [Tasks.step, Option.some.injEq] at taken
      rw [← taken]
      exact .same rfl rfl (by simp)

theorem Tasks.known_birth
    (t : Tasks)
    {childPid process : UInt32}
    (can : t.CanFork childPid process) :
    (t.birth childPid process can).known = insert childPid t.known := by
  ext pid
  simp only [Tasks.known, Tasks.birth, Finset.mem_union, Finset.mem_insert,
    Finset.mem_erase]
  tauto

theorem Tasks.known_bury
    (t : Tasks)
    {pid : UInt32}
    (alive : pid ∈ t.alive) :
    (t.bury pid alive).known = t.known := by
  ext other
  simp only [Tasks.known, Tasks.bury, Finset.mem_union, Finset.mem_insert,
    Finset.mem_erase]
  by_cases own : other = pid
  · subst own
    simp [alive]
  · simp [own]

/-- A fork makes one more id known, every other event none. -/
theorem Tasks.mem_known_step
    {e : KernelEvent}
    {t next : Tasks}
    (taken : Tasks.step e t = some next)
    {pid : UInt32} :
    pid ∈ next.known ↔ e.forked? = some pid ∨ pid ∈ t.known := by
  cases Tasks.step_effect taken with
  | same notFork => simp [notFork]
  | birth childPid process event can =>
      rw [event, Tasks.known_birth, Finset.mem_insert]
      simp [KernelEvent.forked?, eq_comm]
  | beginExit pid groupDead event can =>
      rw [event]
      simp [KernelEvent.forked?, Tasks.known, Tasks.beginExit]
  | bury ctx now cpu event final =>
      rw [event, Tasks.known_bury t (t.exiting_subset final.1)]
      simp [KernelEvent.forked?]

/-- The ids an event involves are known after it. -/
theorem Tasks.step_involves
    {e : KernelEvent}
    {t next : Tasks}
    (taken : Tasks.step e t = some next)
    {pid : UInt32}
    (involved : e.Involves pid)
    (notIdle : pid ≠ 0) :
    pid ∈ next.known := by
  rw [Tasks.mem_known_step taken]
  have alive {other : UInt32} (member : other ∈ t.alive) : other ∈ t.known :=
    Finset.mem_union_left _ member
  cases e with
  | schedSwitch ctx now cpu =>
      simp only [Tasks.step, Option.ite_none_right_eq_some] at taken
      obtain ⟨⟨prev, next, _⟩, _⟩ := taken
      rcases involved with rfl | rfl
      · exact .inr (alive (prev.resolve_left notIdle))
      · exact .inr (alive (next.resolve_left notIdle))
  | schedWakeup other now =>
      simp only [Tasks.step, Option.ite_none_right_eq_some] at taken
      rw [show pid = other from involved]
      exact .inr (alive taken.1)
  | fork childPid process =>
      rw [show pid = childPid from involved]
      exact .inl rfl
  | exit other groupDead =>
      simp only [Tasks.step, Option.dite_none_right_eq_some] at taken
      obtain ⟨can, _⟩ := taken
      rw [show pid = other from involved]
      exact .inr (alive can.2.1)
  | exec other comm =>
      simp only [Tasks.step, Option.ite_none_right_eq_some] at taken
      rw [show pid = other from involved]
      exact .inr taken.1.mem_known
  | blockRqIssue other rqPtr now =>
      simp only [Tasks.step, Option.ite_none_right_eq_some] at taken
      rw [show pid = other from involved] at notIdle ⊢
      exact .inr (taken.1.resolve_left notIdle).mem_known
  | blockRqComplete rqPtr now => exact involved.elim

/-- The ids known after a history are those known before and those forked. -/
theorem Tasks.mem_known_run
    {events : List KernelEvent}
    {t final : Tasks}
    (run : runActions Tasks.step events t = some final)
    {pid : UInt32} :
    pid ∈ final.known ↔ pid ∈ events.filterMap KernelEvent.forked? ∨ pid ∈ t.known := by
  induction events generalizing t with
  | nil =>
      cases run
      simp
  | cons e rest inductionHypothesis =>
      obtain ⟨next, taken, remaining⟩ := Option.bind_eq_some_iff.mp run
      rw [inductionHypothesis remaining, Tasks.mem_known_step taken,
        List.filterMap_cons]
      cases forks : e.forked? with
      | none => simp
      | some childPid => simp [or_left_comm, or_assoc, eq_comm]

end Schedmon
