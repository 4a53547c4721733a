import Schedmon.Daemon.Batches
import Schedmon.Dashboard.Refreshes

/-!
# How far the dashboard may fall behind

`rb_push` drops a record where the ring is full.  The dashboard's ring is never full
as long as the drains are at most 127 slow ticks behind the daemon.
-/

namespace Schedmon

open Library Transition

/-- The record that an action hands to `rb_push`. -/
def RefreshAction.offer? : RefreshAction → Option Chunk
  | .push (.loadHead m) => some m
  | _ => none

/-- The records handed to `rb_push`, in order. -/
def offered (actions : List RefreshAction) : List Chunk :=
  actions.filterMap RefreshAction.offer?

/-- The record that a call of `rb_push` is at. -/
def ProducerPc.inHand : ProducerPc α → List α
  | .idle => []
  | .loadedHead m _ => [m]
  | .copying m _ _ _ => [m]

namespace DashRefreshes

/-- The records in the ring at the start, and those handed to `rb_push` since that it
has not refused. -/
def handled (s : DashRefreshes) : List Chunk :=
  s.accepted ++ s.system.producer.inHand

variable {s next : DashRefreshes}

/-- Only the producer has a record in hand. -/
theorem handled_of_drain
    (taken : step .drain s = some next) :
    next.handled = s.handled := by
  obtain ⟨system, stepped, rfl⟩ := Option.map_eq_some_iff.mp taken
  have producer : system.producer = s.system.producer :=
    (DashSystem.drained_of_step stepped).producer
  unfold handled
  rw [producer]

theorem handled_of_again
    (taken : step .again s = some next) :
    next.handled = s.handled := by
  simp only [step] at taken
  split at taken
  · cases taken
    rfl
  · cases taken

/-- A step of the producer that is not the load of `tail` keeps the records, with the
one that it starts on. -/
theorem handled_of_push
    {access : PushAccess}
    (taken : step (.push access) s = some next)
    (other : access ≠ .loadTail) :
    next.handled = s.handled ++ (RefreshAction.push access).offer?.toList := by
  obtain ⟨system, stepped, rfl⟩ := Option.map_eq_some_iff.mp taken
  obtain ⟨after, inside, rfl⟩ := Option.map_eq_some_iff.mp stepped
  unfold handled
  cases access with
  | loadHead m =>
      simp only [PushAccess.action, spscStep, DashSystem.toSpsc] at inside
      split at inside <;> cases inside
      next idle =>
        simp [idle, ProducerPc.inHand, RefreshAction.offer?]
  | loadTail => exact absurd rfl other
  | copy =>
      simp only [PushAccess.action, spscStep, DashSystem.toSpsc] at inside
      split at inside
      · next m head nextHead copied copying =>
          split at inside <;> cases inside
          simp [copying, ProducerPc.inHand, RefreshAction.offer?]
      · cases inside
  | storeHead =>
      simp only [PushAccess.action, spscStep, DashSystem.toSpsc] at inside
      split at inside
      · next m head nextHead copied copying =>
          split at inside <;> cases inside
          simp [copying, ProducerPc.inHand, RefreshAction.offer?]
      · cases inside

/-- Where it loads `tail`, `rb_push` refuses its record if the ring is full. -/
theorem handled_of_loadTail
    (agrees : ProducerAgrees s.system.toSpsc)
    (taken : step (.push .loadTail) s = some next) :
    (∃ m, s.handled = s.accepted ++ [m]) ∧
      next.handled =
        if rbNext s.system.ring.head = s.system.ring.tail then s.accepted
        else s.handled := by
  obtain ⟨system, stepped, rfl⟩ := Option.map_eq_some_iff.mp taken
  obtain ⟨after, inside, rfl⟩ := Option.map_eq_some_iff.mp stepped
  unfold handled
  simp only [PushAccess.action, spscStep, DashSystem.toSpsc] at inside
  split at inside
  · next m head loaded =>
      have own : head = s.system.ring.head := by
        unfold ProducerAgrees DashSystem.toSpsc at agrees
        dsimp only at agrees
        rw [loaded] at agrees
        exact agrees
      subst own
      rw [loaded]
      refine ⟨⟨m, rfl⟩, ?_⟩
      split at inside
      · next full =>
          cases inside
          rw [if_pos full]
          simp [ProducerPc.inHand]
      · next room =>
          cases inside
          rw [if_neg room]
          simp [ProducerPc.inHand]
  · cases inside

/-! ## Runs -/

/-- Whenever `rb_push` loads `tail`, at most `RB_CAPACITY - 1` of the records handed
to it are not yet drained. -/
def InStep (ring : RingBuffer Chunk) (actions : List RefreshAction) : Prop :=
  ∀ before after, actions = before ++ .push .loadTail :: after →
    ∀ s, runActions step before (start ring) = some s →
      ring.queued.length + (offered before).length ≤ s.consumed.length + 32767

theorem inStep_snoc
    {ring : RingBuffer Chunk}
    {actions : List RefreshAction}
    (run : runActions step actions (start ring) = some s)
    (action : RefreshAction) :
    InStep ring (actions ++ [action]) ↔
      InStep ring actions ∧ (action = .push .loadTail →
        ring.queued.length + (offered actions).length ≤ s.consumed.length + 32767) := by
  constructor
  · intro inStep
    refine ⟨?_, ?_⟩
    · rintro before after rfl
      exact inStep before (after ++ [action]) (by simp)
    · rintro rfl
      exact inStep actions [] rfl s run
  · rintro ⟨inStep, here⟩ before after split reached runs
    rcases split_snoc split with ⟨rfl, rfl, equal⟩ | ⟨earlier, rfl, old⟩
    · rw [run] at runs
      cases runs
      exact here equal.symm
    · exact inStep before earlier old reached runs

theorem offered_snoc (actions : List RefreshAction) (action : RefreshAction) :
    offered (actions ++ [action]) = offered actions ++ action.offer?.toList := by
  unfold offered
  rw [List.filterMap_append]
  cases offer : action.offer? with
  | none => simp [offer]
  | some m => simp [offer]

/-- `rb_push` refuses none of the records if and only if the drains keep in step. -/
theorem handled_run
    {ring : RingBuffer Chunk}
    (bounds : ring.InBounds)
    {actions : List RefreshAction}
    (run : runActions step actions (start ring) = some s) :
    s.handled.Sublist (ring.queued ++ offered actions) ∧
      (s.handled = ring.queued ++ offered actions ↔ InStep ring actions) := by
  induction actions using List.reverseRecOn generalizing s with
  | nil =>
      cases run
      have handled : (start ring).handled = ring.queued ++ offered [] := rfl
      refine ⟨handled ▸ List.Sublist.refl _, fun _ => ?_, fun _ => handled⟩
      intro before after split
      simp at split
  | append_singleton actions action inductionHypothesis =>
      obtain ⟨before, reached, taken⟩ := runActions_snoc.mp run
      obtain ⟨part, all⟩ := inductionHypothesis reached
      have holds := runActions_invariant Invariant invariant_step
        (invariant_start bounds) reached
      rw [offered_snoc, ← List.append_assoc, inStep_snoc reached action, ← all]
      by_cases loads : action = .push .loadTail
      · subst loads
        obtain ⟨⟨m, inHand⟩, next⟩ := handled_of_loadTail holds.underway.spsc.producer taken
        have inBounds : before.system.ring.InBounds := holds.underway.spsc.bounds
        have full := RingBuffer.full_iff_length_queued inBounds
        have most := RingBuffer.length_queued_lt inBounds
        have history := congrArg List.length holds.history
        have offer : (RefreshAction.push .loadTail).offer?.toList = [] := rfl
        rw [offer, List.append_nil]
        rw [List.length_append] at history
        have shorter : before.accepted.Sublist before.handled :=
          inHand ▸ List.sublist_append_left _ _
        split at next
        · next isFull =>
            rw [next]
            refine ⟨shorter.trans part, ?_, ?_⟩
            · intro everything
              have length := part.length_le
              rw [← everything, inHand, List.length_append] at length
              simp at length
            · rintro ⟨everything, room⟩
              have length := congrArg List.length everything
              have queued := full.mp isFull
              have room := room rfl
              rw [inHand, List.length_append, List.length_append] at length
              rw [List.length_singleton] at length
              unfold rbCapacity at queued
              omega
        · next room =>
            rw [next]
            refine ⟨part, fun everything => ⟨everything, fun _ => ?_⟩, And.left⟩
            have length := congrArg List.length everything
            have queued := mt full.mpr room
            rw [inHand, List.length_append, List.length_append, List.length_singleton]
              at length
            unfold rbCapacity at queued most
            omega
      · have grown : s.handled = before.handled ++ action.offer?.toList := by
          cases action with
          | push access =>
              exact handled_of_push taken fun same => loads (congrArg _ same)
          | drain => exact (handled_of_drain taken).trans (List.append_nil _).symm
          | again => exact (handled_of_again taken).trans (List.append_nil _).symm
        rw [grown]
        refine ⟨part.append (List.Sublist.refl _), ?_, ?_⟩
        · intro everything
          exact ⟨List.append_cancel_right everything, fun same => absurd same loads⟩
        · rintro ⟨everything, -⟩
          rw [everything]

/-! ## The size of the ring -/

/-- The records handed over go at most some slow ticks beyond those whose records
have all been drained. -/
def Behind (batches : List (List SmoothedMetrics)) (ticks : ℕ) (s : DashRefreshes)
    (actions : List RefreshAction) : Prop :=
  ∃ drained, (batches.take drained).flatten.length ≤ s.consumed.length ∧
    (offered actions).length ≤ (batches.take (drained + ticks)).flatten.length

/-- A number of batches has at most so many records. -/
theorem length_flatten_le
    {most : ℕ}
    {batches : List (List SmoothedMetrics)}
    (few : ∀ batch ∈ batches, batch.length ≤ most) :
    batches.flatten.length ≤ batches.length * most := by
  induction batches with
  | nil => exact Nat.zero_le _
  | cons batch batches inductionHypothesis =>
      have rest := inductionHypothesis fun other member =>
        few other (List.mem_cons_of_mem _ member)
      have first := few batch List.mem_cons_self
      rw [List.flatten_cons, List.length_append, List.length_cons, Nat.succ_mul]
      omega

/-- The header is right that `RB_CAPACITY` is far more than needed: as long as the
drains are at most 127 slow ticks behind, `rb_push` refuses none of the daemon's
records, and the drains hand them on without a gap. -/
theorem dashRing_sufficient
    (qsort : Qsort)
    (cfg : DaemonConfig)
    (startNs : UInt64)
    (envs : List TickEnv)
    (encode : SmoothedMetrics → Chunk)
    (ring : RingBuffer Chunk)
    (bounds : ring.InBounds)
    (empty : ring.head = ring.tail)
    (actions : List RefreshAction)
    (s : DashRefreshes)
    (run : runActions step actions (start ring) = some s)
    (feeds : offered actions <+:
      (dashPushes (runSamplingLoop qsort cfg startNs envs).world.log).map encode)
    (inTime : ∀ before, before <+: actions →
      ∀ middle, runActions step before (start ring) = some middle →
        Behind (dashBatches (runSamplingLoop qsort cfg startNs envs).world.log) 127 middle
          before) :
    s.accepted ++ s.system.producer.inHand = offered actions ∧
      s.consumed <+:
        (dashPushes (runSamplingLoop qsort cfg startNs envs).world.log).map encode := by
  have few := length_dashBatch_le qsort cfg startNs envs
  generalize (runSamplingLoop qsort cfg startNs envs).world.log = log at *
  have nothing : ring.queued = [] := by simp [RingBuffer.queued, empty]
  have inStep : InStep ring actions := by
    intro before after split middle reached
    obtain ⟨drained, copied, handed⟩ := inTime before ⟨_, split.symm⟩ middle reached
    have ahead : (((dashBatches log).drop drained).take 127).flatten.length ≤
        (((dashBatches log).drop drained).take 127).length * maxPids :=
      length_flatten_le fun batch member =>
        few batch (List.mem_of_mem_drop (List.mem_of_mem_take member))
    have ticks : (((dashBatches log).drop drained).take 127).length ≤ 127 :=
      List.length_take_le _ _
    rw [List.take_add, List.flatten_append, List.length_append] at handed
    rw [nothing]
    unfold maxPids at ahead
    simp only [List.length_nil]
    omega
  have everything := (handled_run bounds run).2.mpr inStep
  rw [nothing, List.nil_append] at everything
  refine ⟨everything, List.IsPrefix.trans ?_ feeds⟩
  have holds := runActions_invariant Invariant invariant_step (invariant_start bounds) run
  rw [← everything]
  unfold handled
  rw [holds.history, List.append_assoc]
  exact List.prefix_append _ _

/-- A daemon that pushes two records for the dashboard, in its first and in its last
slow tick. -/
def restartedPushes : List SmoothedMetrics :=
  dashPushes (runSamplingLoop insertionQsort defaultConfig 0
    (restartedTicks (plainTick 1 switchedReadings))).world.log

/-- The record of the first slow tick: eight switches in a fifth of a second. -/
def firstPush : SmoothedMetrics :=
  { SmoothedMetrics.zero with
    pid := 1000
    cpuId := -1
    hwPmuAvailable := 1
    timestampNs := 1
    smoothedCtxFreq := 40 }

/-- The record of the last one, after a reset. -/
def lastPush : SmoothedMetrics :=
  { firstPush with
    timestampNs := 400000001
    smoothedCtxFreq := 20 }

theorem restartedPushes_eq : restartedPushes = [firstPush, lastPush] := by
  decide +kernel

/-- The pid and the switches of a record, one byte each. -/
def briefly (m : SmoothedMetrics) : Chunk :=
  DashSystem.smallRecord (UInt8.ofNat m.pid.toNat) (UInt8.ofNat m.smoothedCtxFreq.num.toNat)

theorem briefly_restartedPushes :
    restartedPushes.map briefly =
      [DashSystem.smallRecord 232 40, DashSystem.smallRecord 232 20] := by
  rw [restartedPushes_eq]
  rfl

theorem offered_pushCall (m : Chunk) : offered (pushCall m) = [m] := rfl

theorem offered_again (steps : ℕ) :
    offered (List.replicate steps .drain ++ [.again]) = [] := by
  simp [offered, RefreshAction.offer?]

/-- The first record is drained before the second one is pushed. -/
theorem run_keepingUp (first second : Chunk) :
    ∃ actions s, runActions step actions (start DashSystem.emptyRing) = some s ∧
      offered actions = [first, second] ∧ s.finished.length = 1 ∧
      s.finished.flatMap FinishedDrain.consumed = [first] := by
  have atStart := invariant_start DashSystem.emptyRing_inBounds
  obtain ⟨pushed, push, phase, idle, noCalls, one⟩ :=
    atStart.exists_push rfl (by decide) first
  change pushed.accepted = [first] at one
  have holds := runActions_invariant Invariant invariant_step atStart push
  obtain ⟨steps, drained, call, -, idleStill, counted, same, all⟩ := holds.exists_again
  have kept := runActions_invariant Invariant invariant_step holds call
  obtain ⟨s, pushAgain, -, -, calls, -⟩ := kept.exists_push (idleStill.trans idle)
    (by simp [same, one]) second
  refine ⟨pushCall first ++ ((List.replicate steps .drain ++ [.again]) ++ pushCall second),
    s, ?_, ?_, ?_, ?_⟩
  · rw [runActions_append, push, Option.bind_some, runActions_append, call,
      Option.bind_some, pushAgain]
  · have parts (earlier later : List RefreshAction) :
        offered (earlier ++ later) = offered earlier ++ offered later :=
      List.filterMap_append
    rw [parts, parts, offered_again, offered_pushCall, offered_pushCall]
    rfl
  · rw [calls, counted, noCalls]
    rfl
  · rw [calls, all phase, one]

/-- Neither record is refused, and the first one has been handed on. -/
theorem dashRing_sufficient_keepingUp :
    ∃ actions s, runActions step actions (start DashSystem.emptyRing) = some s ∧
      s.finished.length = 1 ∧
      s.finished.flatMap FinishedDrain.consumed = [DashSystem.smallRecord 232 40] ∧
      s.accepted ++ s.system.producer.inHand =
        [DashSystem.smallRecord 232 40, DashSystem.smallRecord 232 20] ∧
      s.consumed <+: restartedPushes.map briefly := by
  obtain ⟨actions, s, run, offers, calls, handedOn⟩ :=
    run_keepingUp (DashSystem.smallRecord 232 40) (DashSystem.smallRecord 232 20)
  have feeds : offered actions <+: restartedPushes.map briefly := by
    rw [offers, briefly_restartedPushes]
  have inTime (before : List RefreshAction) (earlier : before <+: actions)
      (middle : DashRefreshes)
      (_ : runActions step before (start DashSystem.emptyRing) = some middle) :
      Behind (dashBatches (runSamplingLoop insertionQsort defaultConfig 0
        (restartedTicks (plainTick 1 switchedReadings))).world.log) 127 middle before := by
    refine ⟨0, Nat.zero_le _, ?_⟩
    calc (offered before).length
        ≤ (offered actions).length := (earlier.filterMap RefreshAction.offer?).length_le
      _ = 2 := by rw [offers]; rfl
      _ ≤ _ := by decide +kernel
  obtain ⟨accepted, consumed⟩ := dashRing_sufficient insertionQsort defaultConfig 0
    (restartedTicks (plainTick 1 switchedReadings)) briefly DashSystem.emptyRing
    DashSystem.emptyRing_inBounds rfl actions s run feeds inTime
  rw [offers] at accepted
  exact ⟨actions, s, run, calls, handedOn, accepted, consumed⟩

end DashRefreshes

end Schedmon
