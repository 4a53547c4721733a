import Schedmon.Dashboard.Drain
import Schedmon.Library.Argmax

/-!
# One drain after another

The dashboard calls `drain_ring_buffer` at every refresh, each time on what the
calls before left in the segment, while the daemon goes on pushing.
-/

namespace Schedmon

open Library

/-- A call of `drain_ring_buffer` that has returned. -/
structure FinishedDrain where
  /-- The records it copied. -/
  consumed : List Chunk
  result : DrainResult

/-- What a call has returned is the newest record of each process. -/
def FinishedDrain.Exact (call : FinishedDrain) : Prop :=
  ∀ pid, call.result pid = (recordsOf pid call.consumed).argmax Chunk.timestampNs

/-- The segment and both sides, with the calls that have returned. -/
structure DashRefreshes where
  system : DashSystem
  finished : List FinishedDrain
  /-- The records in the ring at the start and those pushed since. -/
  accepted : List Chunk
  /-- How many of them had been pushed when the call under way loaded `head`. -/
  due : Nat

/-- A step of either side, or the next call of the dashboard. -/
inductive RefreshAction
  | push (access : PushAccess)
  | drain
  | again

namespace DashRefreshes

/-- A dashboard about to drain the given ring for the first time. -/
def start (ring : RingBuffer Chunk) : DashRefreshes where
  system := .start ring
  finished := []
  accepted := ring.queued
  due := 0

/-- The records that calls have copied so far. -/
def consumed (s : DashRefreshes) : List Chunk :=
  s.finished.flatMap FinishedDrain.consumed ++ s.system.consumed

/-- One access of `rb_push`, the next one of the dashboard, or its next call. -/
def step : RefreshAction → DashRefreshes → Option DashRefreshes
  | .push access, s =>
      (DashSystem.step (.push access) s.system).map fun next =>
        { s with
          system := next
          accepted := s.accepted ++ next.accepted.drop s.system.accepted.length }
  | .drain, s =>
      (DashSystem.step .drain s.system).map fun next =>
        { s with
          system := next
          due :=
            match s.system.drain with
            | .start => s.accepted.length
            | _ => s.due }
  | .again, s =>
      match s.system.drain with
      | .returned _ result =>
          some { s with
            system :=
              { s.system with
                drain := .start
                accepted := s.system.ring.queued
                consumed := [] }
            finished := s.finished ++ [⟨s.system.consumed, result⟩] }
      | _ => none

/-- The call under way: before its snapshot, or on the way to it. -/
inductive Underway (s : DashRefreshes) : Prop
  | waiting
      (phase : s.system.drain = .start)
      (spsc : SpscInvariant s.system.toSpsc)
      (none : s.system.consumed = [])
  | draining
      (head : Int)
      (taken : List Chunk)
      (snapshot : DashSystem.Snapshot head taken)
      (holds : DashSystem.DrainInvariant head taken s.system)
      (due : s.due =
        (s.finished.flatMap FinishedDrain.consumed).length + taken.length)

/-- The invariant of all calls. -/
structure Invariant (s : DashRefreshes) : Prop where
  underway : s.Underway
  controlled : s.system.Controlled
  results : ∀ call ∈ s.finished, call.Exact
  accepted : s.accepted =
    s.finished.flatMap FinishedDrain.consumed ++ s.system.accepted

variable {s next : DashRefreshes}

theorem Underway.spsc (underway : s.Underway) : SpscInvariant s.system.toSpsc := by
  cases underway with
  | waiting phase spsc none => exact spsc
  | draining head taken snapshot holds due => exact holds.spsc

/-- No record is lost, repeated or reordered on the way. -/
theorem Invariant.history
    (holds : s.Invariant) :
    s.accepted = s.consumed ++ s.system.ring.queued := by
  have history : s.system.accepted = s.system.consumed ++ s.system.ring.queued :=
    holds.underway.spsc.history
  rw [holds.accepted, history, consumed, List.append_assoc]

theorem invariant_start
    {ring : RingBuffer Chunk}
    (bounds : ring.InBounds) :
    (start ring).Invariant where
  underway := .waiting rfl ⟨bounds, rfl, trivial, trivial⟩ rfl
  controlled := DashSystem.controlled_start ring
  results := by
    intro call membership
    cases membership
  accepted := rfl

/-- The producer's steps. -/
theorem Invariant.push
    {access : PushAccess}
    (holds : s.Invariant)
    (taken : step (.push access) s = some next) :
    next.Invariant := by
  obtain ⟨system, stepped, rfl⟩ := Option.map_eq_some_iff.mp taken
  have pushed := DashSystem.pushed_of_step stepped
  refine ⟨?_, (holds.controlled.pushed pushed).1, holds.results, ?_⟩
  · cases holds.underway with
    | waiting phase spsc none =>
        exact .waiting (pushed.drain.trans phase)
          (spscStep_invariant _ _ _ spsc pushed.taken) (pushed.consumed.trans none)
    | draining head records snapshot drains due =>
        exact .draining head records snapshot (drains.pushed pushed) due
  · obtain ⟨more, extended⟩ := pushed.accepted
    dsimp only
    rw [← extended, List.drop_left, holds.accepted, List.append_assoc]

/-- The dashboard's steps inside a call. -/
theorem Invariant.drain
    (holds : s.Invariant)
    (taken : step .drain s = some next) :
    next.Invariant := by
  obtain ⟨system, stepped, rfl⟩ := Option.map_eq_some_iff.mp taken
  have accepted : system.accepted = s.system.accepted :=
    (DashSystem.drained_of_step stepped).accepted
  refine ⟨?_, (holds.controlled.drainStep stepped).1, holds.results, ?_⟩
  · cases holds.underway with
    | waiting phase spsc none =>
        have loaded := DashSystem.drainInvariant_loadHead phase spsc none stepped
        refine .draining _ _ (DashSystem.snapshot_queued spsc.bounds) loaded ?_
        have history := holds.history
        rw [consumed, none, List.append_nil] at history
        dsimp only
        rw [phase, history, List.length_append]
    | draining head records snapshot drains due =>
        refine .draining head records snapshot
          (drains.step snapshot holds.controlled stepped) ?_
        have impossible := drains.draining
        unfold DashSystem.Draining at impossible
        dsimp only
        split
        · next phase =>
            rw [phase] at impossible
            exact impossible.elim
        · exact due
  · dsimp only
    rw [accepted]
    exact holds.accepted

/-- The call under way has returned what is newest among what it copied. -/
theorem Invariant.returned
    (holds : s.Invariant)
    {drained : Nat}
    {result : DrainResult}
    (phase : s.system.drain = .returned drained result) :
    FinishedDrain.Exact ⟨s.system.consumed, result⟩ ∧ s.consumed.length = s.due := by
  cases holds.underway with
  | waiting started spsc none =>
      rw [phase] at started
      cases started
  | draining head taken snapshot drains due =>
      have everything := drains.consumed.2 drained result phase
      have draining := drains.draining
      unfold DashSystem.Draining at draining
      rw [phase] at draining
      refine ⟨?_, ?_⟩
      · intro pid
        have progress := draining.2
        rw [progress.result_eq]
        exact foldl_keepNewest _ pid
      · rw [consumed, List.length_append, everything, due]

/-- The next call starts on what is left in the ring. -/
theorem Invariant.again
    (holds : s.Invariant)
    (taken : step .again s = some next) :
    next.Invariant := by
  have history := holds.history
  have spsc := holds.underway.spsc
  simp only [step] at taken
  split at taken
  · next drained result phase =>
      have newest := (holds.returned phase).1
      cases taken
      refine ⟨.waiting rfl ⟨spsc.bounds, rfl, spsc.producer, trivial⟩ rfl, ?_, ?_, ?_⟩
      · exact ⟨Nat.zero_le _, by simp, fun positive => absurd positive (lt_irrefl 0)⟩
      · intro call membership
        rcases List.mem_append.mp membership with earlier | last
        · exact holds.results call earlier
        · rw [List.mem_singleton.mp last]
          exact newest
      · dsimp only
        rw [history, consumed, List.flatMap_append, List.flatMap_singleton]
  · cases taken

theorem invariant_step
    (action : RefreshAction)
    (s next : DashRefreshes)
    (holds : s.Invariant)
    (taken : step action s = some next) :
    next.Invariant := by
  cases action with
  | push access => exact holds.push taken
  | drain => exact holds.drain taken
  | again => exact holds.again taken

/-! ## Runs -/

/-- An access of either side of one call. -/
def ofDashAction : DashAction → RefreshAction
  | .push access => .push access
  | .drain => .drain

/-- A run inside one call is a run of the calls. -/
theorem run_inside
    {actions : List DashAction}
    {s : DashRefreshes}
    {final : DashSystem}
    (run : Transition.runActions DashSystem.step actions s.system = some final) :
    s.system.accepted <+: final.accepted ∧
      ∃ due, Transition.runActions step (actions.map ofDashAction) s =
        some { s with
          system := final
          accepted := s.accepted ++ final.accepted.drop s.system.accepted.length
          due := due } := by
  induction actions generalizing s with
  | nil =>
      cases run
      exact ⟨List.prefix_rfl, s.due, by simp⟩
  | cons action rest inductionHypothesis =>
      obtain ⟨system, taken, remaining⟩ := Option.bind_eq_some_iff.mp run
      have stepped : s.system.accepted <+: system.accepted ∧
          ∃ due, step (ofDashAction action) s =
            some { s with
              system := system
              accepted := s.accepted ++ system.accepted.drop s.system.accepted.length
              due := due } := by
        cases action with
        | push access =>
            refine ⟨(DashSystem.pushed_of_step taken).accepted, s.due, ?_⟩
            simp only [ofDashAction, step]
            rw [taken]
            rfl
        | drain =>
            have same : system.accepted = s.system.accepted :=
              (DashSystem.drained_of_step taken).accepted
            refine ⟨same ▸ List.prefix_rfl, match s.system.drain with
              | .start => s.accepted.length
              | _ => s.due, ?_⟩
            simp only [ofDashAction, step]
            rw [taken, same, List.drop_length, List.append_nil]
            rfl
      obtain ⟨⟨more, grown⟩, due, first⟩ := stepped
      obtain ⟨⟨later, extended⟩, due', others⟩ := inductionHypothesis
        (s := { s with
          system := system
          accepted := s.accepted ++ system.accepted.drop s.system.accepted.length
          due := due }) remaining
      refine ⟨⟨more ++ later, by rw [← extended, ← grown, List.append_assoc]⟩, due', ?_⟩
      rw [List.map_cons, Transition.runActions_cons, first, Option.bind_some, others]
      dsimp only
      rw [← extended, ← grown, List.drop_left, List.drop_left, List.append_assoc,
        List.append_assoc, List.drop_left]

/-- The accesses of one uninterrupted push. -/
def pushCall (m : Chunk) : List RefreshAction :=
  (DashSystem.pushAccesses m).map .push

/-- An uninterrupted push is accepted as long as few records were. -/
theorem Invariant.exists_push
    (holds : s.Invariant)
    (idle : s.system.producer = .idle)
    (few : s.accepted.length < 32767)
    (m : Chunk) :
    ∃ next, Transition.runActions step (pushCall m) s = some next ∧
      next.system.drain = s.system.drain ∧ next.system.producer = .idle ∧
        next.finished = s.finished ∧ next.accepted = s.accepted ++ [m] := by
  have room : rbNext s.system.ring.head ≠ s.system.ring.tail := by
    have bounds : s.system.ring.InBounds := holds.underway.spsc.bounds
    rw [Ne, RingBuffer.full_iff_length_queued bounds]
    have history := congrArg List.length holds.history
    rw [List.length_append] at history
    unfold rbCapacity
    omega
  obtain ⟨-, due, run⟩ := run_inside (DashSystem.run_pushAccesses s.system m idle room)
  rw [List.map_map] at run
  exact ⟨_, run, rfl, idle, rfl, by simp⟩

theorem step_again
    {drained : Nat}
    {result : DrainResult}
    (returned : s.system.drain = .returned drained result) :
    step .again s =
      some { s with
        system :=
          { s.system with
            drain := .start
            accepted := s.system.ring.queued
            consumed := [] }
        finished := s.finished ++ [⟨s.system.consumed, result⟩] } := by
  simp only [step]
  rw [returned]

/-- Left alone, the call under way returns and the next one begins.  A call that is
left alone from its start leaves nothing behind. -/
theorem Invariant.exists_again
    (holds : s.Invariant) :
    ∃ steps next, Transition.runActions step
        (List.replicate steps .drain ++ [.again]) s = some next ∧
      next.system.drain = .start ∧ next.system.producer = s.system.producer ∧
        next.finished.length = s.finished.length + 1 ∧ next.accepted = s.accepted ∧
        (s.system.drain = .start →
          next.finished.flatMap FinishedDrain.consumed = s.accepted) := by
  obtain ⟨steps, final, drained, result, run, returned, frame⟩ :=
    DashSystem.exists_return holds.controlled
  obtain ⟨-, due, inside⟩ := run_inside run
  have again : Transition.runActions step (List.replicate steps .drain ++ [.again]) s =
      (step .again { s with
        system := final
        accepted := s.accepted ++ final.accepted.drop s.system.accepted.length
        due := due }).bind some := by
    rw [List.map_replicate] at inside
    rw [Transition.runActions_append, show RefreshAction.drain = ofDashAction .drain from rfl,
      inside]
    rfl
  rw [step_again returned] at again
  refine ⟨steps, _, again, rfl, frame.producer, ?_, ?_, ?_⟩
  · simp
  · simp [frame.accepted]
  · intro phase
    cases holds.underway with
    | draining head taken snapshot drains due =>
        have impossible := drains.draining
        unfold DashSystem.Draining at impossible
        rw [phase] at impossible
        exact impossible.elim
    | waiting _ spsc none =>
        cases steps with
        | zero =>
            cases run
            rw [phase] at returned
            cases returned
        | succ steps =>
            obtain ⟨loaded, taken, rest⟩ := Option.bind_eq_some_iff.mp run
            have everything := (DashSystem.drainInvariant_run
              (DashSystem.snapshot_queued spsc.bounds)
              (DashSystem.drainInvariant_loadHead phase spsc none taken)
              (holds.controlled.drainStep taken).1 rest).consumed.2 drained result returned
            have history := holds.history
            rw [consumed, none, List.append_nil] at history
            simp [everything, history]

/-- Two calls, the first of which has loaded `head` when the second record is
pushed. -/
def overtakenRun (first second : ℕ) : List RefreshAction :=
  pushCall (DashSystem.smallRecord 7 1) ++ ([.drain] ++
    (pushCall (DashSystem.smallRecord 7 3) ++
      ((List.replicate first .drain ++ [.again]) ++
        (List.replicate second .drain ++ [.again]))))

theorem run_overtaken :
    ∃ first second s, Transition.runActions step (overtakenRun first second)
        (start DashSystem.emptyRing) = some s ∧
      s.finished.length = 2 ∧ s.finished.flatMap FinishedDrain.consumed = s.accepted ∧
      s.accepted = [DashSystem.smallRecord 7 1, DashSystem.smallRecord 7 3] := by
  have atStart := invariant_start DashSystem.emptyRing_inBounds
  have kept {actions : List RefreshAction} {s next : DashRefreshes} (holds : s.Invariant)
      (run : Transition.runActions step actions s = some next) : next.Invariant :=
    Transition.runActions_invariant Invariant invariant_step holds run
  obtain ⟨pushed, push, phase, idle, noCalls, one⟩ :=
    atStart.exists_push rfl (by decide) (DashSystem.smallRecord 7 1)
  change pushed.accepted = [DashSystem.smallRecord 7 1] at one
  have running : ∀ drained result, pushed.system.drain ≠ .returned drained result := by
    rw [phase]
    intro drained result started
    cases started
  obtain ⟨system, taken⟩ := DashSystem.drainStep_isSome running
  have frame := DashSystem.drained_of_step taken
  obtain ⟨-, due, load⟩ := run_inside (show Transition.runActions DashSystem.step [.drain]
    pushed.system = some system by simp [DashSystem.step, taken])
  change Transition.runActions step [.drain] pushed = some _ at load
  have loaded := kept (kept atStart push) load
  obtain ⟨both, overtake, -, idleStill, noCallsStill, two⟩ := loaded.exists_push
    (frame.producer.trans idle) (by simp [frame.accepted, one])
    (DashSystem.smallRecord 7 3)
  obtain ⟨first, between, firstCall, started, -, counted, same, -⟩ :=
    (kept loaded overtake).exists_again
  obtain ⟨second, s, secondCall, -, -, countedAll, sameStill, all⟩ :=
    (kept (kept loaded overtake) firstCall).exists_again
  refine ⟨first, second, s, ?_, ?_, ?_, ?_⟩
  · unfold overtakenRun
    rw [Transition.runActions_append, push, Option.bind_some,
      Transition.runActions_append, load, Option.bind_some, Transition.runActions_append,
      overtake, Option.bind_some, Transition.runActions_append, firstCall,
      Option.bind_some, secondCall]
  · rw [countedAll, counted, noCallsStill]
    simp [noCalls, start]
  · rw [all started, sameStill]
  · rw [sameStill, same, two]
    simp [frame.accepted, one]

end DashRefreshes

end Schedmon
