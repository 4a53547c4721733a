import Schedmon.Bpf.PidView
import Schedmon.Bpf.Tasks

/-!
# Incarnations of a pid

When a pid is used again, the counters of its new task should not show the old
one.  They do: the last switch-out of a task comes after `handle_exit` has
deleted its entries.
-/

namespace Schedmon

open Library Transition

/-- The four counters of a pid. -/
def PidView.counters (v : PidView) : List (Option UInt64) :=
  [v.volCtxSwitch, v.ioCounts, v.ioWaitNs, v.rqWaitNs]

/-- The four counters of a pid after a history. -/
def countersAfter (events : List KernelEvent) (pid : UInt32) : List (Option UInt64) :=
  ((mapsAfter .unlimited events).view pid).counters

/-- The entries of a pid account only for the task that was forked last. -/
structure Isolated (events : List KernelEvent) : Prop where
  /-- All four counters are 0 right after a fork. -/
  zeros : ∀ before pid process after,
    events = before ++ .fork pid process :: after →
      countersAfter (before ++ [.fork pid process]) pid =
        [some 0, some 0, some 0, some 0]
  /-- What happened before the fork does not matter. -/
  own : ∀ before pid process life after,
    events = before ++ .fork pid process :: (life ++ after) →
      (∀ e ∈ life, e.forked? ≠ some pid) →
        countersAfter (before ++ .fork pid process :: life) pid =
          countersAfter (.fork pid process :: life) pid
  /-- The completion of a request that was not issued since is not charged. -/
  uncharged : ∀ before pid process life rqPtr now after,
    events = before ++
        .fork pid process :: (life ++ .blockRqComplete rqPtr now :: after) →
      (∀ e ∈ life, e.forked? ≠ some pid) →
        (∀ other time, .blockRqIssue other rqPtr time ∉ life) →
          countersAfter (before ++
              .fork pid process :: (life ++ [.blockRqComplete rqPtr now])) pid =
            countersAfter (before ++ .fork pid process :: life) pid

/-- Every exit ends its process. -/
def ExitsGroups (events : List KernelEvent) : Prop :=
  ∀ pid groupDead, .exit pid groupDead ∈ events → groupDead = true

/-- No fork uses the id of an earlier task. -/
def NoReuse (start : Tasks) (events : List KernelEvent) : Prop :=
  ∀ before pid process after, events = before ++ .fork pid process :: after →
    pid ∉ start.alive ∧ pid ∉ before.filterMap KernelEvent.forked?

/-! ## Pids that were never used -/

/-- An event that does not involve a pid leaves its blank entries blank. -/
theorem PidView.step_blank
    {pid : UInt32}
    {e : KernelEvent}
    (other : ¬ e.Involves pid) :
    PidView.blank.step pid e = PidView.blank := by
  cases e with
  | schedSwitch ctx now cpu =>
      obtain ⟨prev, next⟩ := not_or.mp other
      simp [PidView.step, Ne.symm prev, Ne.symm next]
  | schedWakeup q now =>
      have different : q ≠ pid := fun equal => other equal.symm
      simp [PidView.step, different]
  | fork q process =>
      have different : q ≠ pid := fun equal => other equal.symm
      simp [PidView.step, different]
  | exit q groupDead =>
      have different : q ≠ pid := fun equal => other equal.symm
      simp [PidView.step, different]
  | exec q comm =>
      have different : q ≠ pid := fun equal => other equal.symm
      simp [PidView.step, different]
  | blockRqIssue q rqPtr now =>
      have different : q ≠ pid := fun equal => other equal.symm
      simp [PidView.step, PidView.blank, different]
  | blockRqComplete rqPtr now => simp [PidView.step, PidView.blank]

/-- A pid that no task has used has no entry and no request in flight. -/
theorem view_of_not_mem_known
    {start final : Tasks}
    {events : List KernelEvent}
    (run : runActions Tasks.step events start = some final)
    {pid : UInt32}
    (notIdle : pid ≠ 0)
    (unknown : pid ∉ final.known) :
    (mapsAfter .unlimited events).view pid = PidView.blank := by
  induction events using List.reverseRecOn generalizing final with
  | nil => rfl
  | append_singleton events e inductionHypothesis =>
      obtain ⟨before, earlier, taken⟩ := runActions_snoc.mp run
      rw [mapsAfter_snoc, view_handleEvent, inductionHypothesis earlier]
      · apply PidView.step_blank
        exact fun involved => unknown (Tasks.step_involves taken involved notIdle)
      · exact fun known => unknown ((Tasks.mem_known_step taken).mpr (.inr known))

/-! ## What the last switch-out leaves -/

/-- The id of a task that is switched out while it is not runnable. -/
def KernelEvent.sleeper? : KernelEvent → Option UInt32
  | .schedSwitch ctx _ _ => if ctx.prevState ≠ 0 then some ctx.prevPid else none
  | _ => none

/-- Only a fork, an exit and a voluntary switch of the pid itself touch its
count of voluntary switches. -/
theorem PidView.step_volCtxSwitch
    (v : PidView)
    {pid : UInt32}
    {e : KernelEvent}
    (notForked : e.forked? ≠ some pid)
    (notExited : e.exited? ≠ some pid)
    (notSleeper : e.sleeper? ≠ some pid) :
    (v.step pid e).volCtxSwitch = v.volCtxSwitch := by
  cases e with
  | schedSwitch ctx now cpu =>
      have awake : ¬ (ctx.prevPid = pid ∧ pid ≠ 0 ∧ ctx.prevState ≠ 0) := by
        rintro ⟨rfl, _, sleeping⟩
        exact notSleeper (if_pos sleeping)
      simp only [PidView.step, if_neg awake]
      split
      · exact v.switchIn_volCtxSwitch now
      · rfl
  | fork childPid process =>
      have different : childPid ≠ pid := fun equal => notForked (congrArg some equal)
      simp [PidView.step, different]
  | exit other groupDead =>
      have different : other ≠ pid := fun equal => notExited (congrArg some equal)
      simp [PidView.step, different]
  | schedWakeup other now =>
      simp only [PidView.step]
      split <;> rfl
  | exec other comm =>
      simp only [PidView.step]
      split <;> rfl
  | blockRqIssue other rqPtr now =>
      simp only [PidView.step]
      split <;> rfl
  | blockRqComplete rqPtr now =>
      simp only [PidView.step]
      split
      · rw [PidView.charge_volCtxSwitch]
        rfl
      · rfl

/-- A task that exits has no count of voluntary switches, and one that is gone
has counted its last. -/
structure CountsLastSwitch (t : Tasks) (s : BpfMaps .unlimited) : Prop where
  exiting : ∀ pid ∈ t.exiting, (s.view pid).volCtxSwitch = none
  gone : ∀ pid ∈ t.gone, (s.view pid).volCtxSwitch = some 1

theorem CountsLastSwitch.step
    {t next : Tasks}
    {s : BpfMaps .unlimited}
    {e : KernelEvent}
    (counts : CountsLastSwitch t s)
    (taken : Tasks.step e t = some next)
    (group : ∀ pid groupDead, e = .exit pid groupDead → groupDead = true) :
    CountsLastSwitch next (handleEvent s e) := by
  have effect := Tasks.step_effect taken
  -- a gone task is not switched out again
  have notSleeper : ∀ pid ∈ t.gone, e.sleeper? ≠ some pid := by
    intro pid gone sleeper
    cases e with
    | schedSwitch ctx now cpu =>
        simp only [KernelEvent.sleeper?, Option.ite_none_right_eq_some,
          Option.some.injEq] at sleeper
        simp only [Tasks.step, Option.ite_none_right_eq_some] at taken
        obtain ⟨⟨runs, _⟩, _⟩ := taken
        rw [sleeper.2] at runs
        exact t.not_mem_gone (runs.resolve_left (t.ne_zero_of_gone gone)) gone
    | _ => cases sleeper
  have kept (pid : UInt32) (notForked : e.forked? ≠ some pid)
      (notExited : e.exited? ≠ some pid) (awake : e.sleeper? ≠ some pid) :
      ((handleEvent s e).view pid).volCtxSwitch = (s.view pid).volCtxSwitch := by
    rw [view_handleEvent]
    exact (s.view pid).step_volCtxSwitch notForked notExited awake
  cases effect with
  | same notFork notExit notFinal =>
      constructor
      · intro pid exiting
        rw [kept pid (by simp [notFork]) (by simp [notExit])]
        · exact counts.exiting pid exiting
        · intro sleeper
          cases e with
          | schedSwitch ctx now cpu =>
              simp only [KernelEvent.sleeper?, Option.ite_none_right_eq_some,
                Option.some.injEq] at sleeper
              refine notFinal ctx now cpu rfl ⟨?_, sleeper.1⟩
              rw [sleeper.2]
              exact exiting
          | _ => cases sleeper
      · intro pid gone
        rw [kept pid (by simp [notFork]) (by simp [notExit])
          (notSleeper pid gone)]
        exact counts.gone pid gone
  | birth childPid process event can =>
      subst event
      have silent (pid : UInt32) (other : childPid ≠ pid) :
          ((handleEvent s (.fork childPid process)).view pid).volCtxSwitch =
            (s.view pid).volCtxSwitch :=
        kept pid (fun equal => other (Option.some.inj equal)) (by simp [KernelEvent.exited?])
          (by simp [KernelEvent.sleeper?])
      constructor
      · intro pid exiting
        rw [silent pid]
        · exact counts.exiting pid exiting
        · rintro rfl
          exact can.2.1 (t.exiting_subset exiting)
      · intro pid gone
        obtain ⟨other, old⟩ := Finset.mem_erase.mp gone
        rw [silent pid other.symm]
        exact counts.gone pid old
  | beginExit q groupDead event can =>
      subst event
      have dead := group q groupDead rfl
      have silent (pid : UInt32) (other : q ≠ pid) :
          ((handleEvent s (.exit q groupDead)).view pid).volCtxSwitch =
            (s.view pid).volCtxSwitch :=
        kept pid (by simp [KernelEvent.forked?])
          (fun equal => other (Option.some.inj equal)) (by simp [KernelEvent.sleeper?])
      constructor
      · intro pid exiting
        by_cases own : pid = q
        · rw [own, view_handleEvent]
          simp [PidView.step, can.1, dead, PidView.blank]
        · rw [silent pid (Ne.symm own)]
          exact counts.exiting pid ((Finset.mem_insert.mp exiting).resolve_left own)
      · intro pid gone
        rw [silent pid]
        · exact counts.gone pid gone
        · rintro rfl
          exact t.not_mem_gone can.2.1 gone
  | bury ctx now cpu event final =>
      subst event
      have silent (pid : UInt32) (other : ctx.prevPid ≠ pid) :
          ((handleEvent s (.schedSwitch ctx now cpu)).view pid).volCtxSwitch =
            (s.view pid).volCtxSwitch := by
        refine kept pid (by simp [KernelEvent.forked?]) (by simp [KernelEvent.exited?]) ?_
        simp [KernelEvent.sleeper?, final.2, other]
      constructor
      · intro pid exiting
        obtain ⟨other, old⟩ := Finset.mem_erase.mp exiting
        rw [silent pid other.symm]
        exact counts.exiting pid old
      · intro pid gone
        rcases Finset.mem_insert.mp gone with rfl | old
        · have cleared := counts.exiting ctx.prevPid final.1
          have notIdle := t.ne_zero_of_alive (t.exiting_subset final.1)
          rw [view_handleEvent]
          simp only [PidView.step, notIdle, final.2, ne_eq, not_false_eq_true,
            and_self, if_true, and_true]
          split
          · rw [PidView.switchIn_volCtxSwitch, cleared]
            rfl
          · rw [cleared]
            rfl
        · rw [silent pid]
          · exact counts.gone pid old
          · rintro rfl
            exact t.not_mem_gone (t.exiting_subset final.1) old

theorem countsLastSwitch_of_run
    {start final : Tasks}
    {events : List KernelEvent}
    (fresh : start.gone = ∅)
    (groups : ExitsGroups events)
    (run : runActions Tasks.step events start = some final) :
    CountsLastSwitch final (mapsAfter .unlimited events) := by
  induction events using List.reverseRecOn generalizing final with
  | nil =>
      cases run
      constructor
      · intro pid _
        rfl
      · intro pid gone
        rw [fresh] at gone
        exact absurd gone (Finset.notMem_empty pid)
  | append_singleton events e inductionHypothesis =>
      obtain ⟨before, earlier, taken⟩ := runActions_snoc.mp run
      have counts := inductionHypothesis
        (fun pid groupDead member => groups pid groupDead (List.mem_append_left _ member))
        earlier
      rw [mapsAfter_snoc]
      apply counts.step taken
      rintro pid groupDead rfl
      exact groups pid groupDead (List.mem_append_right _ List.mem_cons_self)

/-! ## Isolation -/

/-- A request that is not in flight and is not issued stays so. -/
theorem PidView.foldl_inflight_of_not_issued
    (pid : UInt32)
    {rqPtr : UInt64}
    {events : List KernelEvent}
    (notIssued : ∀ other time, .blockRqIssue other rqPtr time ∉ events)
    {v : PidView}
    (missing : v.inflight rqPtr = none) :
    (events.foldl (PidView.step pid) v).inflight rqPtr = none := by
  induction events generalizing v with
  | nil => exact missing
  | cons e rest inductionHypothesis =>
      apply inductionHypothesis
        (fun other time member => notIssued other time (List.mem_cons_of_mem e member))
      cases e with
      | schedSwitch ctx now cpu =>
          simp only [PidView.step]
          split
          · rw [PidView.switchIn_inflight]
            split <;> exact missing
          · split <;> exact missing
      | blockRqIssue other ptr time =>
          have different : rqPtr ≠ ptr := by
            rintro rfl
            exact notIssued other time List.mem_cons_self
          simp only [PidView.step]
          split
          · exact (Function.update_of_ne different _ _).trans missing
          · exact missing
      | blockRqComplete ptr now =>
          simp only [PidView.step]
          split
          · rw [PidView.charge_inflight, PidView.drop_inflight]
            by_cases same : rqPtr = ptr
            · rw [same, Function.update_self]
            · rw [Function.update_of_ne same, missing]
          · exact missing
      | _ =>
          simp only [PidView.step]
          split <;> exact missing

theorem countersAfter_eq_foldl (events : List KernelEvent) (pid : UInt32) :
    countersAfter events pid =
      (events.foldl (PidView.step pid) PidView.blank).counters := by
  unfold countersAfter
  rw [view_mapsAfter]

theorem PidView.step_fork_blank
    {pid : UInt32}
    (process : UInt32)
    (ordinary : 1 < pid) :
    (PidView.blank.step pid (.fork pid process)).counters =
      [some 0, some 0, some 0, some 0] := by
  simp [PidView.step, ordinary, PidView.blank, PidView.counters]

/-- In every history of the kernel, the counters of each pid account only for
its latest task exactly if no pid is used again. -/
theorem isolated_iff_noReuse
    (start : Tasks)
    (fresh : start.gone = ∅)
    (events : List KernelEvent)
    (emitted : (runActions Tasks.step events start).isSome)
    (groups : ExitsGroups events) :
    Isolated events ↔ NoReuse start events := by
  obtain ⟨final, run⟩ := Option.isSome_iff_exists.mp emitted
  -- the kernel's state at a fork
  have atFork (before : List KernelEvent) (pid process : UInt32)
      (after : List KernelEvent)
      (split : events = before ++ .fork pid process :: after) :
      ∃ t, runActions Tasks.step before start = some t ∧ t.CanFork pid process := by
    rw [split, runActions_append] at run
    obtain ⟨t, earlier, later⟩ := Option.bind_eq_some_iff.mp run
    obtain ⟨next, taken, _⟩ := Option.bind_eq_some_iff.mp later
    simp only [Tasks.step, Option.dite_none_right_eq_some] at taken
    exact ⟨t, earlier, taken.1⟩
  have known {before : List KernelEvent} {t : Tasks}
      (earlier : runActions Tasks.step before start = some t) (pid : UInt32) :
      pid ∈ t.known ↔
        pid ∈ before.filterMap KernelEvent.forked? ∨ pid ∈ start.alive := by
    rw [Tasks.mem_known_run earlier, Tasks.known, fresh, Finset.union_empty]
  constructor
  · intro isolated before pid process after split
    obtain ⟨t, earlier, ordinary, notAlive, _⟩ := atFork before pid process after split
    rw [← not_or, or_comm, ← known earlier]
    intro used
    have gone : pid ∈ t.gone := (Finset.mem_union.mp used).resolve_left notAlive
    have counts := countsLastSwitch_of_run fresh
      (fun q groupDead member => groups q groupDead
        (split ▸ List.mem_append_left _ member)) earlier
    have left := counts.gone pid gone
    have zero := isolated.zeros before pid process after split
    rw [countersAfter, mapsAfter_snoc, view_handleEvent] at zero
    simp [PidView.step, ordinary, PidView.counters, left] at zero
  · intro noReuse
    have blank (before : List KernelEvent) (pid process : UInt32)
        (after : List KernelEvent)
        (split : events = before ++ .fork pid process :: after) :
        1 < pid ∧ before.foldl (PidView.step pid) PidView.blank = PidView.blank := by
      obtain ⟨t, earlier, ordinary, _⟩ := atFork before pid process after split
      refine ⟨ordinary, ?_⟩
      rw [← view_mapsAfter]
      apply view_of_not_mem_known earlier
      · rintro rfl
        exact absurd ordinary (by decide)
      · rw [known earlier, not_or]
        exact (noReuse before pid process after split).symm
    constructor
    · intro before pid process after split
      obtain ⟨ordinary, unused⟩ := blank before pid process after split
      rw [countersAfter_eq_foldl, List.foldl_append, unused]
      exact PidView.step_fork_blank process ordinary
    · intro before pid process life after split _
      obtain ⟨_, unused⟩ := blank before pid process (life ++ after) split
      rw [countersAfter_eq_foldl, countersAfter_eq_foldl, List.foldl_append, unused]
    · intro before pid process life rqPtr now after split _ notIssued
      obtain ⟨_, unused⟩ := blank before pid process _ split
      rw [countersAfter_eq_foldl, countersAfter_eq_foldl, List.foldl_append,
        List.foldl_append, unused, ← List.cons_append, List.foldl_append]
      have missing : ((.fork pid process :: life).foldl (PidView.step pid)
          PidView.blank).inflight rqPtr = none :=
        PidView.foldl_inflight_of_not_issued pid (by simpa using notIssued) rfl
      rw [List.foldl_cons, List.foldl_nil]
      simp only [PidView.step, missing]

/-- Process 2 exits, is switched out, and its pid is used again. -/
def reusedPid : List KernelEvent :=
  [.fork 2 2, .schedSwitch ⟨1, 0, 2⟩ 1 0, .exit 2 true,
    .schedSwitch ⟨2, 128, 1⟩ 2 0, .fork 2 2]

theorem reusedPid_emitted :
    (runActions Tasks.step reusedPid Tasks.boot).isSome = true := by
  decide

theorem reusedPid_exitsGroups : ExitsGroups reusedPid := by
  intro pid groupDead member
  simp only [reusedPid, List.mem_cons, List.not_mem_nil, reduceCtorEq,
    KernelEvent.exit.injEq, or_false, false_or] at member
  exact member.2

/-- Before its pid is used again the process is isolated, and no longer then. -/
theorem isolated_iff_noReuse_reused :
    Isolated (reusedPid.take 4) ∧ ¬ NoReuse Tasks.boot reusedPid ∧
      ¬ Isolated reusedPid := by
  have once : NoReuse Tasks.boot (reusedPid.take 4) := by
    intro before pid process after split
    cases before with
    | nil =>
        obtain ⟨⟨rfl, _⟩, _⟩ : (2 = pid ∧ 2 = process) ∧ _ := by
          simpa [reusedPid] using split
        decide
    | cons e before =>
        have forked : KernelEvent.fork pid process ∈ (reusedPid.take 4).tail := by
          rw [split]
          simp
        simp [reusedPid] at forked
  have twice : ¬ NoReuse Tasks.boot reusedPid := by
    intro noReuse
    exact (noReuse (reusedPid.take 4) 2 2 [] rfl).2 (by decide)
  have groups : ExitsGroups (reusedPid.take 4) := fun pid groupDead member =>
    reusedPid_exitsGroups pid groupDead (List.mem_of_mem_take member)
  exact ⟨(isolated_iff_noReuse Tasks.boot rfl (reusedPid.take 4) (by decide)
      groups).mpr once,
    twice, fun isolated => twice ((isolated_iff_noReuse Tasks.boot rfl reusedPid
      reusedPid_emitted reusedPid_exitsGroups).mp isolated)⟩

/-- The new process 2 starts with a voluntary switch of the old one. -/
theorem reusedPid_not_isolated :
    (runActions Tasks.step reusedPid Tasks.boot).isSome = true ∧
      ExitsGroups reusedPid ∧ ¬ Isolated reusedPid := by
  refine ⟨reusedPid_emitted, reusedPid_exitsGroups, ?_⟩
  intro isolated
  have zero := isolated.zeros (reusedPid.take 4) 2 2 [] rfl
  exact absurd zero (by decide)

end Schedmon
