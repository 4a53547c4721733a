import Schedmon.Dashboard.Records
import Schedmon.RingBuffer.Interleaving

/-!
# The dashboard as consumer

`drain_ring_buffer` of `dashboard.py` split into its accesses to the mapped
segment, interleaved with those of a running `rb_push`.  It loads `head` once,
then works through the slots up to that snapshot and stores `tail` after each.
The segment has its full size, so no access raises an exception.
-/

namespace Schedmon

open Library
open Library.PiecewiseCopy

/-- A word of the header as the dashboard reads it, without its sign. -/
def unsignedWord (word : Int) : Nat :=
  (word % 2 ^ 32).toNat

/-- Where `drain_ring_buffer` is. -/
inductive DrainPc
  | start
  | loadedHead (head : Nat)
  /-- Before the test of the loop. -/
  | looping (head tail drained : Nat) (result : DrainResult)
  /-- Inside the loop; `copied` bytes of the slot are in `chunk`. -/
  | copying (head tail drained : Nat) (result : DrainResult) (chunk : Chunk)
      (copied : Nat)
  | returned (drained : Nat) (result : DrainResult)

/-- The segment, the producer inside `rb_push`, the dashboard, and two
histories. -/
structure DashSystem where
  ring : RingBuffer Chunk
  producer : ProducerPc Chunk
  drain : DrainPc
  /-- The records in the ring at the start and those pushed since. -/
  accepted : List Chunk
  /-- The records the dashboard has copied. -/
  consumed : List Chunk

/-- One memory access of `rb_push`. -/
inductive PushAccess
  | loadHead (m : Chunk)
  | loadTail
  | copy
  | storeHead

/-- The access as a step of the two-sided system. -/
def PushAccess.action : PushAccess → SpscAction Chunk
  | .loadHead m => .pushLoadHead m
  | .loadTail => .pushLoadTail
  | .copy => .pushCopy
  | .storeHead => .pushStoreHead

/-- One step of either side. -/
inductive DashAction
  | push (access : PushAccess)
  | drain

namespace DashSystem

/-- A dashboard about to drain the given ring. -/
def start (ring : RingBuffer Chunk) : DashSystem where
  ring := ring
  producer := .idle
  drain := .start
  accepted := ring.queued
  consumed := []

/-- The dashboard seen as a caller of `rb_pop`, inside the call while it copies
a slot. -/
def toSpsc (s : DashSystem) : Spsc Chunk where
  ring := s.ring
  producer := s.producer
  consumer :=
    match s.drain with
    | .copying _ tail _ _ chunk copied => .copying tail chunk copied
    | _ => .idle
  accepted := s.accepted
  returned := s.consumed

/-- The next access of `drain_ring_buffer`. -/
def drainStep (s : DashSystem) : Option DashSystem :=
  match s.drain with
  | .start => some { s with drain := .loadedHead (unsignedWord s.ring.head) }
  | .loadedHead head =>
      some { s with
        drain := .looping head (unsignedWord s.ring.tail) 0 fun _ => none }
  | .looping head tail drained result =>
      if tail ≠ head ∧ drained < dashCap then
        some { s with drain := .copying head tail drained result Chunk.zero 0 }
      else some { s with drain := .returned drained result }
  | .copying head tail drained result chunk copied =>
      if copied < dashSlot then
        let idx := tail % dashCap
        some { s with
          drain := .copying head tail drained result
            (copyPiece copied (s.ring.slots idx) chunk) (copied + 1) }
      else
        let newTail := (tail + 1) % dashCap
        some { s with
          ring := { s.ring with tail := newTail }
          drain := .looping head newTail (drained + 1) (keepNewest result chunk)
          consumed := s.consumed ++ [chunk] }
  | .returned _ _ => none

/-- One access of `rb_push`, or the next one of the dashboard. -/
def step : DashAction → DashSystem → Option DashSystem
  | .push access, s =>
      (spscStep access.action s.toSpsc).map fun after =>
        { s with
          ring := after.ring
          producer := after.producer
          accepted := after.accepted }
  | .drain, s => s.drainStep

/-! ## Steps of the producer -/

/-- A push stays on its side. -/
theorem push_frame
    {access : PushAccess}
    {s next : Spsc Chunk}
    (taken : spscStep access.action s = some next) :
    next.consumer = s.consumer ∧ next.returned = s.returned ∧
      next.ring.tail = s.ring.tail ∧ s.accepted <+: next.accepted := by
  cases access with
  | loadHead m =>
      simp only [PushAccess.action, spscStep] at taken
      split at taken <;> cases taken
      exact ⟨rfl, rfl, rfl, List.prefix_rfl⟩
  | loadTail =>
      simp only [PushAccess.action, spscStep] at taken
      split at taken
      · split at taken <;> cases taken
        · exact ⟨rfl, rfl, rfl, List.prefix_rfl⟩
        · exact ⟨rfl, rfl, rfl, List.prefix_rfl⟩
      · cases taken
  | copy =>
      simp only [PushAccess.action, spscStep] at taken
      split at taken
      · split at taken <;> cases taken
        exact ⟨rfl, rfl, rfl, List.prefix_rfl⟩
      · cases taken
  | storeHead =>
      simp only [PushAccess.action, spscStep] at taken
      split at taken
      · split at taken <;> cases taken
        exact ⟨rfl, rfl, rfl, List.prefix_append _ _⟩
      · cases taken

/-- What a push leaves alone, and what it does to the two-sided system. -/
structure Pushed (access : PushAccess) (s next : DashSystem) : Prop where
  taken : spscStep access.action s.toSpsc = some next.toSpsc
  drain : next.drain = s.drain
  consumed : next.consumed = s.consumed
  tail : next.ring.tail = s.ring.tail
  accepted : s.accepted <+: next.accepted

theorem pushed_of_step
    {access : PushAccess}
    {s next : DashSystem}
    (taken : step (.push access) s = some next) :
    Pushed access s next := by
  obtain ⟨after, access, rfl⟩ := Option.map_eq_some_iff.mp taken
  obtain ⟨consumer, returned, tail, accepted⟩ := push_frame access
  refine ⟨?_, rfl, rfl, tail, accepted⟩
  rw [access]
  cases after
  cases consumer
  cases returned
  rfl

/-- The dashboard writes `tail` and nothing else that the producer reads. -/
structure Drained (s next : DashSystem) : Prop where
  slots : next.ring.slots = s.ring.slots
  head : next.ring.head = s.ring.head
  producer : next.producer = s.producer
  accepted : next.accepted = s.accepted

theorem drained_of_step
    {s next : DashSystem}
    (taken : s.drainStep = some next) :
    Drained s next := by
  unfold drainStep at taken
  split at taken
  · cases taken
    exact ⟨rfl, rfl, rfl, rfl⟩
  · cases taken
    exact ⟨rfl, rfl, rfl, rfl⟩
  · split at taken <;> cases taken <;> exact ⟨rfl, rfl, rfl, rfl⟩
  · split at taken <;> cases taken <;> exact ⟨rfl, rfl, rfl, rfl⟩
  · cases taken

/-! ## Any header

Which slots are visited and when the loop ends depends on the loaded words
alone, whatever the segment holds. -/

/-- The accesses and loop tests the dashboard has left at most. -/
def stepsLeft (s : DashSystem) : Nat :=
  match s.drain with
  | .start => 3 + dashCap * (dashSlot + 2)
  | .loadedHead _ => 2 + dashCap * (dashSlot + 2)
  | .looping _ _ drained _ => 1 + (dashCap - drained) * (dashSlot + 2)
  | .copying _ _ drained _ _ copied => (dashCap - drained) * (dashSlot + 2) - copied
  | .returned _ _ => 0

/-- The byte of the segment that the dashboard reads next from a slot. -/
def readOffset (s : DashSystem) : Option Nat :=
  match s.drain with
  | .copying _ tail _ _ _ copied =>
      if copied < dashSlot then some (tail % dashCap * dashSlot + copied) else none
  | _ => none

/-- The iterations of the loop so far. -/
def iterations (s : DashSystem) : Nat :=
  match s.drain with
  | .start => 0
  | .loadedHead _ => 0
  | .looping _ _ drained _ => drained
  | .copying _ _ drained _ _ _ => drained
  | .returned drained _ => drained

/-- What holds of the dashboard whatever the header says. -/
structure Controlled (s : DashSystem) : Prop where
  most : s.iterations ≤ dashCap
  copying : ∀ head tail drained result chunk copied,
    s.drain = .copying head tail drained result chunk copied →
      drained < dashCap ∧ copied ≤ dashSlot
  /-- Once a slot is consumed, the index in the header is the dashboard's. -/
  tail : 0 < s.iterations → 0 ≤ s.ring.tail ∧ s.ring.tail < dashCap

theorem readOffset_lt
    {s : DashSystem}
    {offset : Nat}
    (reads : s.readOffset = some offset) :
    offset < dashSlot * dashCap := by
  unfold readOffset at reads
  split at reads
  · next head tail drained result chunk copied reading =>
      split at reads
      · next more =>
          cases reads
          have inside : tail % dashCap < dashCap := Nat.mod_lt _ (by decide)
          unfold dashSlot dashCap at *
          omega
      · cases reads
  · cases reads

theorem controlled_start (ring : RingBuffer Chunk) : (start ring).Controlled where
  most := Nat.zero_le _
  copying := by
    intro head tail drained result chunk copied impossible
    cases impossible
  tail := fun positive => absurd positive (lt_irrefl 0)

/-- Each step of the dashboard brings it nearer to its end. -/
theorem Controlled.drainStep
    {s next : DashSystem}
    (controlled : s.Controlled)
    (taken : s.drainStep = some next) :
    next.Controlled ∧ next.stepsLeft < s.stepsLeft := by
  unfold DashSystem.drainStep at taken
  cases phase : s.drain with
  | start =>
      rw [phase] at taken
      cases taken
      refine ⟨⟨Nat.zero_le _, by simp, fun positive => absurd positive (lt_irrefl 0)⟩, ?_⟩
      simp only [stepsLeft, phase]
      omega
  | loadedHead head =>
      rw [phase] at taken
      cases taken
      refine ⟨⟨Nat.zero_le _, by simp, fun positive => absurd positive (lt_irrefl 0)⟩, ?_⟩
      simp only [stepsLeft, phase, Nat.sub_zero]
      omega
  | looping head tail drained result =>
      rw [phase] at taken
      have most : drained ≤ dashCap := by
        simpa only [iterations, phase] using controlled.most
      have stored : 0 < drained → 0 ≤ s.ring.tail ∧ s.ring.tail < dashCap := by
        simpa only [iterations, phase] using controlled.tail
      dsimp only at taken
      split at taken
      · next continues =>
          cases taken
          refine ⟨⟨most, ?_, stored⟩, ?_⟩
          · intro _ _ _ _ _ _ same
            cases same
            exact ⟨continues.2, Nat.zero_le _⟩
          · simp only [stepsLeft, phase]
            omega
      · cases taken
        refine ⟨⟨most, by simp, stored⟩, ?_⟩
        simp only [stepsLeft, phase]
        omega
  | copying head tail drained result chunk copied =>
      rw [phase] at taken
      obtain ⟨below, within⟩ := controlled.copying _ _ _ _ _ _ phase
      have stored : 0 < drained → 0 ≤ s.ring.tail ∧ s.ring.tail < dashCap := by
        simpa only [iterations, phase] using controlled.tail
      have remaining : dashSlot + 2 ≤ (dashCap - drained) * (dashSlot + 2) :=
        Nat.le_mul_of_pos_left _ (by omega)
      dsimp only at taken
      split at taken
      · next more =>
          cases taken
          refine ⟨⟨below.le, ?_, stored⟩, ?_⟩
          · intro _ _ _ _ _ _ same
            cases same
            exact ⟨below, more⟩
          · simp only [stepsLeft, phase]
            omega
      · next finished =>
          cases taken
          have inside : (tail + 1) % dashCap < dashCap := Nat.mod_lt _ (by decide)
          refine ⟨⟨below, by simp, fun _ => ?_⟩, ?_⟩
          · exact ⟨Int.natCast_nonneg _, Int.ofNat_lt.mpr inside⟩
          · have one : (dashCap - drained) * (dashSlot + 2) =
                (dashCap - (drained + 1)) * (dashSlot + 2) + (dashSlot + 2) := by
              have split : dashCap - drained = dashCap - (drained + 1) + 1 := by omega
              rw [split, Nat.succ_mul]
            simp only [stepsLeft, phase]
            omega
  | returned drained result =>
      rw [phase] at taken
      cases taken

/-- A push leaves the dashboard where it is. -/
theorem Controlled.pushed
    {access : PushAccess}
    {s next : DashSystem}
    (controlled : s.Controlled)
    (pushed : Pushed access s next) :
    next.Controlled ∧ next.stepsLeft = s.stepsLeft := by
  have iterations : next.iterations = s.iterations := by
    unfold DashSystem.iterations
    rw [pushed.drain]
  refine ⟨⟨iterations ▸ controlled.most, ?_, ?_⟩, ?_⟩
  · rw [pushed.drain]
    exact controlled.copying
  · rw [iterations, pushed.tail]
    exact controlled.tail
  · unfold stepsLeft
    rw [pushed.drain]

/-- The steps of the dashboard in a run. -/
def drainSteps (actions : List DashAction) : Nat :=
  actions.countP fun action => match action with
    | .drain => true
    | .push _ => false

/-- However long a run goes on, the dashboard takes a bounded number of steps
in it. -/
theorem controlled_run
    {ring : RingBuffer Chunk}
    {actions : List DashAction}
    {s : DashSystem}
    (run : Transition.runActions step actions (start ring) = some s) :
    s.Controlled ∧
      drainSteps actions + s.stepsLeft ≤ 3 + dashCap * (dashSlot + 2) := by
  refine Transition.runActions_history
    (fun actions s => s.Controlled ∧
      drainSteps actions + s.stepsLeft ≤ 3 + dashCap * (dashSlot + 2)) ?_
    ⟨controlled_start ring, ?_⟩ run
  · rintro earlier action state next ⟨controlled, bounded⟩ taken
    unfold drainSteps at bounded ⊢
    rw [List.countP_append]
    cases action with
    | push access =>
        obtain ⟨kept, same⟩ := controlled.pushed (pushed_of_step taken)
        rw [same]
        exact ⟨kept, bounded⟩
    | drain =>
        obtain ⟨kept, fewer⟩ := controlled.drainStep taken
        refine ⟨kept, ?_⟩
        simp only [List.countP_singleton, if_true]
        omega
  · exact (Nat.zero_add _).le

/-- The dashboard never waits: it has a step to take until it returns. -/
theorem drainStep_isSome
    {s : DashSystem}
    (running : ∀ drained result, s.drain ≠ .returned drained result) :
    ∃ next, s.drainStep = some next := by
  unfold drainStep
  split
  · exact ⟨_, rfl⟩
  · exact ⟨_, rfl⟩
  · split
    · exact ⟨_, rfl⟩
    · exact ⟨_, rfl⟩
  · split
    · exact ⟨_, rfl⟩
    · exact ⟨_, rfl⟩
  · next drained result returned => exact absurd returned (running drained result)

/-! ## Uninterrupted calls -/

/-- Left alone, the dashboard returns. -/
theorem exists_return
    {s : DashSystem}
    (controlled : s.Controlled) :
    ∃ steps final drained result,
      Transition.runActions step (List.replicate steps .drain) s = some final ∧
        final.drain = .returned drained result ∧ Drained s final := by
  induction left : s.stepsLeft using Nat.strong_induction_on generalizing s with
  | _ left inductionHypothesis =>
      by_cases running : ∀ drained result, s.drain ≠ .returned drained result
      · obtain ⟨next, taken⟩ := drainStep_isSome running
        obtain ⟨kept, fewer⟩ := controlled.drainStep taken
        obtain ⟨steps, final, drained, result, run, returned, frame⟩ :=
          inductionHypothesis next.stepsLeft (left ▸ fewer) kept rfl
        have first := drained_of_step taken
        refine ⟨steps + 1, final, drained, result, ?_, returned,
          frame.slots.trans first.slots, frame.head.trans first.head,
          frame.producer.trans first.producer, frame.accepted.trans first.accepted⟩
        rw [List.replicate_succ, Transition.runActions_cons]
        change s.drainStep.bind _ = some final
        rw [taken]
        exact run
      · simp only [not_forall, not_not] at running
        obtain ⟨drained, result, returned⟩ := running
        exact ⟨0, s, drained, result, rfl, returned, rfl, rfl, rfl, rfl⟩

/-- The accesses of one `rb_push` call that finds room. -/
def pushAccesses (m : Chunk) : List PushAccess :=
  [.loadHead m, .loadTail] ++ List.replicate dashSlot .copy ++ [.storeHead]

theorem map_action_pushAccesses (m : Chunk) :
    (pushAccesses m).map PushAccess.action = pushActions m := by
  simp only [pushAccesses, pushActions, List.map_append, List.map_cons, List.map_nil,
    List.map_replicate]
  rfl

/-- The producer's accesses do to the segment what they do without a dashboard. -/
theorem run_accesses
    {accesses : List PushAccess}
    {s : DashSystem}
    {after : Spsc Chunk}
    (run : Transition.runActions spscStep (accesses.map PushAccess.action) s.toSpsc =
      some after) :
    Transition.runActions step (accesses.map .push) s =
      some { s with
        ring := after.ring
        producer := after.producer
        accepted := after.accepted } := by
  induction accesses generalizing s with
  | nil =>
      cases run
      rfl
  | cons access rest inductionHypothesis =>
      obtain ⟨middle, taken, remaining⟩ := Option.bind_eq_some_iff.mp run
      have stepped : step (.push access) s =
          some { s with
            ring := middle.ring
            producer := middle.producer
            accepted := middle.accepted } := by
        rw [step, taken, Option.map_some]
      have same := (pushed_of_step stepped).taken
      rw [taken] at same
      rw [Option.some.inj same] at remaining
      rw [List.map_cons, Transition.runActions_cons, stepped, Option.bind_some]
      exact inductionHypothesis remaining

/-- An uninterrupted push that finds room is `rb_push`. -/
theorem run_pushAccesses
    (s : DashSystem)
    (m : Chunk)
    (idle : s.producer = .idle)
    (room : rbNext s.ring.head ≠ s.ring.tail) :
    Transition.runActions step ((pushAccesses m).map .push) s =
      some { s with
        ring := (rbPush s.ring m).2
        accepted := s.accepted ++ [m] } := by
  have pushes := (run_pushActions s.toSpsc m idle room).2
  rw [← map_action_pushAccesses] at pushes
  rw [run_accesses pushes]
  cases s
  cases idle
  rfl

/-! ## Headers inside the array

The dashboard is then a caller of `rb_pop`: every slot it enters still belongs
to the queue, since the producer never passes `tail`. -/

/-- How far the dashboard has come towards the snapshot `head`, where `taken`
are the records that were queued when it loaded it. -/
structure Progress (s : DashSystem) (head : Int) (taken : List Chunk)
    (tail drained : Nat) (result : DrainResult) : Prop where
  tail_eq : s.ring.tail = tail
  drained_eq : drained = s.consumed.length
  left : drained + CyclicRange.distance rbCapacity s.ring.tail head = taken.length
  result_eq : result = s.consumed.foldl keepNewest fun _ => none

/-- Only the stored index and the consumed records count. -/
theorem Progress.congr
    {s next : DashSystem}
    {head : Int}
    {taken : List Chunk}
    {tail drained : Nat}
    {result : DrainResult}
    (progress : s.Progress head taken tail drained result)
    (sameTail : next.ring.tail = s.ring.tail)
    (sameConsumed : next.consumed = s.consumed) :
    next.Progress head taken tail drained result := by
  obtain ⟨tail_eq, drained_eq, left, result_eq⟩ := progress
  exact ⟨sameTail.trans tail_eq, sameConsumed ▸ drained_eq, sameTail ▸ left,
    sameConsumed ▸ result_eq⟩

/-- The dashboard works towards the snapshot `head`. -/
def Draining (head : Int) (taken : List Chunk) (s : DashSystem) : Prop :=
  match s.drain with
  | .start => False
  | .loadedHead loaded =>
      (loaded : Int) = head ∧ s.consumed = [] ∧
        CyclicRange.distance rbCapacity s.ring.tail head = taken.length
  | .looping loaded tail drained result =>
      (loaded : Int) = head ∧ s.Progress head taken tail drained result
  | .copying loaded tail drained result _ _ =>
      (loaded : Int) = head ∧ s.ring.tail ≠ head ∧
        s.Progress head taken tail drained result
  | .returned drained result =>
      s.ring.tail = head ∧ s.Progress head taken head.toNat drained result

/-- The invariant of a drain after it has loaded `head`. -/
structure DrainInvariant (head : Int) (taken : List Chunk) (s : DashSystem) : Prop where
  spsc : SpscInvariant s.toSpsc
  accepted : taken <+: s.accepted
  draining : Draining head taken s

/-- The producer changes nothing that the drain relies on. -/
theorem DrainInvariant.pushed
    {head : Int}
    {taken : List Chunk}
    {access : PushAccess}
    {s next : DashSystem}
    (holds : DrainInvariant head taken s)
    (pushed : Pushed access s next) :
    DrainInvariant head taken next := by
  have progress {tail drained : Nat} {result : DrainResult}
      (before : s.Progress head taken tail drained result) :
      next.Progress head taken tail drained result :=
    before.congr pushed.tail pushed.consumed
  refine ⟨spscStep_invariant _ _ _ holds.spsc pushed.taken,
    holds.accepted.trans pushed.accepted, ?_⟩
  have draining := holds.draining
  unfold Draining at draining ⊢
  rw [pushed.drain]
  cases phase : s.drain with
  | start => rwa [phase] at draining
  | loadedHead loaded =>
      rw [phase] at draining
      obtain ⟨same, none, length⟩ := draining
      exact ⟨same, pushed.consumed.trans none, pushed.tail ▸ length⟩
  | looping loaded tail drained result =>
      rw [phase] at draining
      exact ⟨draining.1, progress draining.2⟩
  | copying loaded tail drained result chunk copied =>
      rw [phase] at draining
      obtain ⟨same, nonempty, before⟩ := draining
      exact ⟨same, pushed.tail ▸ nonempty, progress before⟩
  | returned drained result =>
      rw [phase] at draining
      exact ⟨pushed.tail.trans draining.1, progress draining.2⟩

theorem unsignedWord_eq
    {word : Int}
    (nonneg : 0 ≤ word)
    (below : word < rbCapacity) :
    (unsignedWord word : Int) = word := by
  unfold unsignedWord
  unfold rbCapacity at below
  omega

/-- A snapshot of `head` and the records that were queued under it. -/
structure Snapshot (head : Int) (taken : List Chunk) : Prop where
  nonneg : 0 ≤ head
  below : head < rbCapacity
  few : (taken.length : Int) < rbCapacity

section Drains

variable {head : Int} {taken : List Chunk} {s next : DashSystem}

/-- While the dashboard has not come to the snapshot the ring is not empty. -/
theorem Progress.nonempty
    {tail drained : Nat}
    {result : DrainResult}
    (snapshot : Snapshot head taken)
    (holds : SpscInvariant s.toSpsc)
    (accepted : taken <+: s.accepted)
    (progress : s.Progress head taken tail drained result)
    (behind : s.ring.tail ≠ head) :
    s.ring.tail ≠ s.ring.head := by
  intro empty
  have bounds : s.ring.InBounds := holds.bounds
  have history : s.accepted = s.consumed ++ s.ring.queued := holds.history
  have queued : s.ring.queued = [] := by
    unfold RingBuffer.queued
    rw [empty, CyclicRange.contents_self]
  rw [queued, List.append_nil] at history
  have most := accepted.length_le
  have left := progress.left
  rw [history, ← progress.drained_eq] at most
  have none : CyclicRange.distance rbCapacity s.ring.tail head = 0 := by omega
  exact behind ((CyclicRange.distance_eq_zero_iff bounds.tailNonneg bounds.tailBelow
    snapshot.nonneg snapshot.below).mp none)

/-- The index of the dashboard is that of a slot. -/
theorem Progress.tail_mod
    {tail drained : Nat}
    {result : DrainResult}
    (progress : s.Progress head taken tail drained result)
    (bounds : s.ring.InBounds) :
    tail % dashCap = tail := by
  have below := bounds.tailBelow
  rw [progress.tail_eq] at below
  unfold rbCapacity at below
  exact Nat.mod_eq_of_lt (by unfold dashCap; omega)

/-- Loading `tail` begins the loop. -/
theorem DrainInvariant.loadedHead
    {loaded : Nat}
    (holds : DrainInvariant head taken s)
    (phase : s.drain = .loadedHead loaded)
    (taken' : s.drainStep = some next) :
    DrainInvariant head taken next := by
  have draining := holds.draining
  unfold Draining at draining
  unfold drainStep at taken'
  rw [phase] at draining taken'
  obtain ⟨same, none, length⟩ := draining
  have bounds : s.ring.InBounds := holds.spsc.bounds
  have agrees := holds.spsc
  unfold toSpsc at agrees
  rw [phase] at agrees
  cases taken'
  refine ⟨agrees, holds.accepted, same, ?_, ?_, ?_, ?_⟩
  · exact (unsignedWord_eq bounds.tailNonneg bounds.tailBelow).symm
  · rw [none]
    rfl
  · rw [Nat.zero_add]
    exact length
  · rw [none]
    rfl

/-- The test of the loop either enters the oldest slot of the queue, as
`rb_pop` does, or has come to the snapshot. -/
theorem DrainInvariant.looping
    {loaded tail drained : Nat}
    {result : DrainResult}
    (snapshot : Snapshot head taken)
    (holds : DrainInvariant head taken s)
    (phase : s.drain = .looping loaded tail drained result)
    (taken' : s.drainStep = some next) :
    DrainInvariant head taken next := by
  have draining := holds.draining
  unfold Draining at draining
  unfold drainStep at taken'
  rw [phase] at draining taken'
  obtain ⟨same, progress⟩ := draining
  have bounds : s.ring.InBounds := holds.spsc.bounds
  dsimp only at taken'
  split at taken'
  · next continues =>
      have behind : s.ring.tail ≠ head := by
        rw [progress.tail_eq, ← same]
        exact fun equal => continues.1 (Int.ofNat_inj.mp equal)
      have nonempty := progress.nonempty snapshot holds.spsc holds.accepted behind
      have agrees := holds.spsc
      unfold toSpsc at agrees
      rw [phase] at agrees
      have loads := spscStep_invariant (.popLoadTail Chunk.zero) _ _ agrees rfl
      have enters := spscStep_invariant .popLoadHead _ _ loads
        (by simp only [spscStep]; rw [if_neg nonempty])
      cases taken'
      refine ⟨?_, holds.accepted, same, behind, progress.congr rfl rfl⟩
      simp only [toSpsc]
      rw [← progress.tail_eq]
      exact enters
  · next ends =>
      have reached : s.ring.tail = head := by
        by_contra behind
        have apart : tail ≠ loaded := by
          rintro rfl
          exact behind (progress.tail_eq.trans same)
        have most := progress.left
        have few := snapshot.few
        unfold rbCapacity at few
        have below : drained < dashCap := by
          unfold dashCap
          omega
        exact ends ⟨apart, below⟩
      have agrees := holds.spsc
      unfold toSpsc at agrees
      rw [phase] at agrees
      cases taken'
      refine ⟨agrees, holds.accepted, reached, ?_, progress.drained_eq, progress.left,
        progress.result_eq⟩
      rw [Int.toNat_of_nonneg snapshot.nonneg]
      exact reached

/-- Copying a slot and storing `tail` are the accesses of `rb_pop`. -/
theorem DrainInvariant.copying
    {loaded tail drained copied : Nat}
    {result : DrainResult}
    {chunk : Chunk}
    (snapshot : Snapshot head taken)
    (holds : DrainInvariant head taken s)
    (controlled : s.Controlled)
    (phase : s.drain = .copying loaded tail drained result chunk copied)
    (taken' : s.drainStep = some next) :
    DrainInvariant head taken next := by
  have draining := holds.draining
  unfold Draining at draining
  unfold drainStep at taken'
  rw [phase] at draining taken'
  obtain ⟨same, behind, progress⟩ := draining
  have bounds : s.ring.InBounds := holds.spsc.bounds
  have inside := progress.tail_mod bounds
  have agrees := holds.spsc
  unfold toSpsc at agrees
  rw [phase] at agrees
  dsimp only at taken'
  split at taken'
  · next more =>
      have reads := spscStep_invariant .popCopy _ _ agrees
        (by simp only [spscStep]; rw [if_pos (show copied < pieces Chunk from more)])
      cases taken'
      refine ⟨?_, holds.accepted, same, behind, progress.congr rfl rfl⟩
      simp only [toSpsc]
      rw [inside]
      exact reads
  · next finished =>
      have whole : copied = pieces Chunk :=
        le_antisymm (controlled.copying _ _ _ _ _ _ phase).2 (not_lt.mp finished)
      have pops := spscStep_invariant .popStoreTail _ _ agrees
        (by simp only [spscStep]; rw [if_pos whole])
      have successor : rbNext (tail : Int) = ((tail + 1) % dashCap : Nat) := by
        rw [← progress.tail_eq, rbNext_eq_next bounds.tailNonneg bounds.tailBelow,
          progress.tail_eq]
        unfold CyclicRange.next rbCapacity dashCap
        omega
      cases taken'
      refine ⟨?_, holds.accepted, same, rfl, ?_, ?_, ?_⟩
      · simp only [toSpsc]
        rw [← successor]
        exact pops
      · rw [List.length_append, ← progress.drained_eq]
        rfl
      · have left := progress.left
        rw [CyclicRange.distance_eq_succ bounds.tailNonneg bounds.tailBelow
          snapshot.nonneg snapshot.below behind,
          ← rbNext_eq_next bounds.tailNonneg bounds.tailBelow, progress.tail_eq,
          successor] at left
        dsimp only
        omega
      · rw [List.foldl_append, List.foldl_cons, List.foldl_nil, ← progress.result_eq]

/-- Every step of either side keeps the invariant of a drain. -/
theorem DrainInvariant.step
    {action : DashAction}
    (snapshot : Snapshot head taken)
    (holds : DrainInvariant head taken s)
    (controlled : s.Controlled)
    (taken' : step action s = some next) :
    DrainInvariant head taken next := by
  cases action with
  | push access => exact holds.pushed (pushed_of_step taken')
  | drain =>
      cases phase : s.drain with
      | start =>
          have draining := holds.draining
          unfold Draining at draining
          rw [phase] at draining
          exact draining.elim
      | loadedHead loaded => exact holds.loadedHead phase taken'
      | looping loaded tail drained result => exact holds.looping snapshot phase taken'
      | copying loaded tail drained result chunk copied =>
          exact holds.copying snapshot controlled phase taken'
      | returned drained result =>
          change s.drainStep = some next at taken'
          unfold drainStep at taken'
          rw [phase] at taken'
          cases taken'

end Drains

/-! ## Runs -/

section Runs

variable {ring : RingBuffer Chunk} {s next : DashSystem}

/-- Until the dashboard loads `head` it has consumed nothing. -/
theorem waiting_run
    {actions : List DashAction}
    (bounds : ring.InBounds)
    (run : Transition.runActions step actions (start ring) = some s) :
    s.drain = .start → SpscInvariant s.toSpsc ∧ s.consumed = [] := by
  refine Transition.runActions_invariant
    (fun s : DashSystem => s.drain = .start →
      SpscInvariant s.toSpsc ∧ s.consumed = []) ?_ ?_ run
  · intro action state next waiting taken phase
    cases action with
    | push access =>
        have pushed := pushed_of_step taken
        obtain ⟨spsc, none⟩ := waiting (pushed.drain.symm.trans phase)
        exact ⟨spscStep_invariant _ _ _ spsc pushed.taken, pushed.consumed.trans none⟩
    | drain =>
        change state.drainStep = some next at taken
        unfold drainStep at taken
        split at taken
        · cases taken
          cases phase
        · cases taken
          cases phase
        · split at taken <;> cases taken <;> cases phase
        · split at taken <;> cases taken <;> cases phase
        · cases taken
  · exact fun _ => ⟨⟨bounds, rfl, trivial, trivial⟩, rfl⟩

theorem snapshot_queued
    (bounds : s.ring.InBounds) :
    Snapshot s.ring.head s.ring.queued where
  nonneg := bounds.headNonneg
  below := bounds.headBelow
  few := RingBuffer.length_queued_lt bounds

/-- Loading `head` takes the snapshot. -/
theorem drainInvariant_loadHead
    (phase : s.drain = .start)
    (spsc : SpscInvariant s.toSpsc)
    (none : s.consumed = [])
    (taken : step .drain s = some next) :
    DrainInvariant s.ring.head s.ring.queued next := by
  have bounds : s.ring.InBounds := spsc.bounds
  have history : s.accepted = s.consumed ++ s.ring.queued := spsc.history
  have agrees := spsc
  unfold toSpsc at agrees
  rw [phase] at agrees
  change s.drainStep = some next at taken
  unfold drainStep at taken
  rw [phase] at taken
  cases taken
  refine ⟨agrees, ?_, unsignedWord_eq bounds.headNonneg bounds.headBelow, none, ?_⟩
  · rw [none, List.nil_append] at history
    exact history ▸ List.prefix_rfl
  · exact (CyclicRange.length_contents _ _ _ _).symm

/-- After the snapshot every run keeps the invariant of the drain. -/
theorem drainInvariant_run
    {head : Int}
    {taken : List Chunk}
    {actions : List DashAction}
    (snapshot : Snapshot head taken)
    (holds : DrainInvariant head taken s)
    (controlled : s.Controlled)
    (run : Transition.runActions step actions s = some next) :
    DrainInvariant head taken next := by
  have both := Transition.runActions_invariant
    (fun s : DashSystem => s.Controlled ∧ DrainInvariant head taken s) ?_
    ⟨controlled, holds⟩ run
  · exact both.2
  · rintro action state following ⟨controlled, holds⟩ step
    refine ⟨?_, holds.step snapshot controlled step⟩
    cases action with
    | push access => exact (controlled.pushed (pushed_of_step step)).1
    | drain => exact (controlled.drainStep step).1

/-- What has been consumed is the beginning of what was queued under the
snapshot, and all of it once the dashboard returns. -/
theorem DrainInvariant.consumed
    {head : Int}
    {taken : List Chunk}
    (holds : DrainInvariant head taken s) :
    s.consumed <+: taken ∧
      ∀ drained result, s.drain = .returned drained result → s.consumed = taken := by
  have history : s.accepted = s.consumed ++ s.ring.queued := holds.spsc.history
  have consumed : s.consumed <+: s.accepted := by
    rw [history]
    exact List.prefix_append _ _
  have draining := holds.draining
  have counted : s.consumed.length ≤ taken.length ∧
      ∀ drained result, s.drain = .returned drained result →
        s.consumed.length = taken.length := by
    unfold Draining at draining
    cases phase : s.drain with
    | start =>
        rw [phase] at draining
        exact draining.elim
    | loadedHead loaded =>
        rw [phase] at draining
        exact ⟨by rw [draining.2.1]; exact Nat.zero_le _, by simp⟩
    | looping loaded tail drained result =>
        rw [phase] at draining
        obtain ⟨-, progress⟩ := draining
        exact ⟨by rw [← progress.drained_eq, ← progress.left]; omega, by simp⟩
    | copying loaded tail drained result chunk copied =>
        rw [phase] at draining
        obtain ⟨-, -, progress⟩ := draining
        exact ⟨by rw [← progress.drained_eq, ← progress.left]; omega, by simp⟩
    | returned drained result =>
        rw [phase] at draining
        obtain ⟨reached, progress⟩ := draining
        have left := progress.left
        rw [reached, CyclicRange.distance_self, Nat.add_zero,
          progress.drained_eq] at left
        exact ⟨left.le, fun _ _ _ => left⟩
  have inside := List.prefix_of_prefix_length_le consumed holds.accepted counted.1
  exact ⟨inside, fun drained result phase =>
    inside.eq_of_length (counted.2 drained result phase)⟩

/-- The producer is never inside the slot that the dashboard copies. -/
theorem DrainInvariant.disjoint
    {head : Int}
    {taken : List Chunk}
    (holds : DrainInvariant head taken s)
    {m : Chunk} {slot nextHead : Int} {written : Nat}
    (writing : s.producer = .copying m slot nextHead written)
    {loaded tail drained copied : Nat} {result : DrainResult} {chunk : Chunk}
    (reading : s.drain = .copying loaded tail drained result chunk copied) :
    slot ≠ (tail % dashCap : Nat) := by
  have draining := holds.draining
  unfold Draining at draining
  rw [reading] at draining
  rw [draining.2.2.tail_mod holds.spsc.bounds]
  refine holds.spsc.safe.disjoint m slot nextHead written tail chunk copied writing ?_
  unfold toSpsc
  rw [reading]

end Runs

/-- Whatever the header words are, the dashboard returns after at most `CAP`
iterations, reads only inside the slots, and leaves `tail` inside the array if
it consumed anything.  Where they lie inside the array, every interleaving with
`rb_push` drains exactly the records queued when `head` was loaded. -/
theorem drainRingBuffer_exact
    (ring : RingBuffer Chunk)
    (before after : List DashAction)
    (loading final : DashSystem)
    (reached : Transition.runActions step before (start ring) = some loading)
    (atStart : loading.drain = .start)
    (run : Transition.runActions step (.drain :: after) loading = some final) :
    (drainSteps (before ++ .drain :: after) ≤ 3 + dashCap * (dashSlot + 2) ∧
      ((∀ drained result, final.drain ≠ .returned drained result) →
        ∃ next, step .drain final = some next) ∧
      final.iterations ≤ dashCap ∧
      (∀ offset, final.readOffset = some offset → offset < dashSlot * dashCap) ∧
      (0 < final.iterations → 0 ≤ final.ring.tail ∧ final.ring.tail < dashCap)) ∧
    (ring.InBounds →
      (∀ m slot nextHead written loaded tail drained result chunk copied,
        final.producer = .copying m slot nextHead written →
        final.drain = .copying loaded tail drained result chunk copied →
          slot ≠ (tail % dashCap : Nat)) ∧
      final.consumed <+: loading.ring.queued ∧
      ∀ drained result, final.drain = .returned drained result →
        (drained : Int) = (loading.ring.head - loading.ring.tail) % rbCapacity ∧
        final.ring.tail = loading.ring.head ∧
        final.consumed = loading.ring.queued ∧
        ∀ pid, result pid =
          (recordsOf pid loading.ring.queued).argmax Chunk.timestampNs) := by
  have whole : Transition.runActions step (before ++ .drain :: after) (start ring) =
      some final := by
    rw [Transition.runActions_append, reached]
    exact run
  obtain ⟨controlled, bounded⟩ := controlled_run whole
  refine ⟨⟨(Nat.le_add_right _ _).trans bounded, drainStep_isSome, controlled.most,
    fun offset reads => readOffset_lt reads, controlled.tail⟩, ?_⟩
  intro bounds
  obtain ⟨spsc, none⟩ := waiting_run bounds reached atStart
  have inside : loading.ring.InBounds := spsc.bounds
  obtain ⟨loaded, taken, rest⟩ := Option.bind_eq_some_iff.mp run
  have holds := drainInvariant_run (snapshot_queued inside)
    (drainInvariant_loadHead atStart spsc none taken)
    ((controlled_run reached).1.drainStep taken).1 rest
  obtain ⟨some', all⟩ := holds.consumed
  refine ⟨?_, some', ?_⟩
  · intro m slot nextHead written loaded tail drained result chunk copied writing reading
    exact holds.disjoint writing reading
  · intro drained result returned
    have draining := holds.draining
    unfold Draining at draining
    rw [returned] at draining
    obtain ⟨reached, progress⟩ := draining
    have everything := all drained result returned
    refine ⟨?_, reached, everything, ?_⟩
    · have length := progress.left
      rw [reached, CyclicRange.distance_self, Nat.add_zero] at length
      unfold RingBuffer.queued at length
      rw [CyclicRange.length_contents] at length
      rw [length]
      exact Int.toNat_of_nonneg (Int.emod_nonneg _ (by decide))
    · intro pid
      rw [progress.result_eq, everything]
      exact foldl_keepNewest _ pid

/-- The segment after its creation. -/
def emptyRing : RingBuffer Chunk where
  slots := fun _ => Chunk.zero
  head := 0
  tail := 0
  abiVersion := 5
  slotSize := 88

theorem emptyRing_inBounds : emptyRing.InBounds := by
  constructor <;> decide

/-- A record with a pid and a time below 256, everything else zero. -/
def smallRecord (pid stamp : UInt8) : Chunk := fun offset =>
  if offset.val = 0 then pid else if offset.val = 16 then stamp else 0

/-- The segment after two pushes into the empty ring. -/
def twoRecords : DashSystem :=
  { start emptyRing with
    ring := (rbPush (rbPush emptyRing (smallRecord 7 1)).2 (smallRecord 8 2)).2
    accepted := [smallRecord 7 1, smallRecord 8 2] }

theorem run_twoRecords :
    Transition.runActions step
      ((pushAccesses (smallRecord 7 1)).map .push ++
        (pushAccesses (smallRecord 8 2)).map .push) (start emptyRing) =
        some twoRecords := by
  rw [Transition.runActions_append, run_pushAccesses _ _ rfl (by decide),
    Option.bind_some, run_pushAccesses _ _ rfl (by decide)]
  rfl

/-- The dashboard is in the first slot when a third record is pushed. -/
theorem run_overtaken :
    ∃ actions final drained result,
      Transition.runActions step
          (.drain :: (List.replicate 5 .drain ++
            (pushAccesses (smallRecord 7 3)).map .push ++ actions)) twoRecords =
        some final ∧ final.drain = .returned drained result ∧
        final.accepted = [smallRecord 7 1, smallRecord 8 2, smallRecord 7 3] := by
  have entered : ∃ middle, Transition.runActions step (List.replicate 6 .drain) twoRecords =
      some middle ∧ middle.producer = .idle ∧ middle.ring = twoRecords.ring ∧
        middle.accepted = twoRecords.accepted := ⟨_, rfl, rfl, rfl, rfl⟩
  obtain ⟨middle, enters, idle, ring, accepted⟩ := entered
  have pushed := run_pushAccesses middle (smallRecord 7 3) idle (by rw [ring]; decide)
  have reached : Transition.runActions step
      ((pushAccesses (smallRecord 7 1)).map .push ++
        (pushAccesses (smallRecord 8 2)).map .push ++
          (List.replicate 6 .drain ++ (pushAccesses (smallRecord 7 3)).map .push))
        (start emptyRing) =
          some { middle with
            ring := (rbPush middle.ring (smallRecord 7 3)).2
            accepted := middle.accepted ++ [smallRecord 7 3] } := by
    rw [Transition.runActions_append, run_twoRecords, Option.bind_some,
      Transition.runActions_append, enters, Option.bind_some, pushed]
  obtain ⟨steps, final, drained, result, run, returned, frame⟩ :=
    exists_return (controlled_run reached).1
  refine ⟨List.replicate steps .drain, final, drained, result, ?_, returned, ?_⟩
  · change Transition.runActions step ((List.replicate 6 .drain ++
      (pushAccesses (smallRecord 7 3)).map .push) ++ List.replicate steps .drain)
        twoRecords = some final
    rw [Transition.runActions_append, Transition.runActions_append, enters,
      Option.bind_some, pushed, Option.bind_some, run]
  · rw [frame.accepted, accepted]
    rfl

/-- Two records of two processes are drained; the third one, which is pushed while
the dashboard copies the first, is left for the next call. -/
theorem drainRingBuffer_exact_overtaken :
    ∃ actions final drained result,
      Transition.runActions step (.drain :: actions) twoRecords = some final ∧
        final.accepted = [smallRecord 7 1, smallRecord 8 2, smallRecord 7 3] ∧
        final.drain = .returned drained result ∧ drained = 2 ∧
        final.consumed = [smallRecord 7 1, smallRecord 8 2] ∧
        result 7 = some (smallRecord 7 1) ∧ result 8 = some (smallRecord 8 2) ∧
        result 9 = none := by
  obtain ⟨actions, final, drained, result, run, returned, accepted⟩ := run_overtaken
  have queued : twoRecords.ring.queued = [smallRecord 7 1, smallRecord 8 2] := rfl
  have first : (smallRecord 7 1).acceptable = true ∧ (smallRecord 7 1).pid = 7 := by
    decide +kernel
  have second : (smallRecord 8 2).acceptable = true ∧ (smallRecord 8 2).pid = 8 := by
    decide +kernel
  obtain ⟨-, -, exact⟩ := (drainRingBuffer_exact emptyRing _ _ twoRecords final
    run_twoRecords rfl run).2 emptyRing_inBounds
  obtain ⟨count, -, consumed, newest⟩ := exact drained result returned
  rw [queued] at consumed newest
  refine ⟨_, final, drained, result, run, accepted, returned, ?_, consumed, ?_, ?_, ?_⟩
  · exact_mod_cast count.trans (by decide : (twoRecords.ring.head -
      twoRecords.ring.tail) % rbCapacity = 2)
  · simp [newest, recordsOf, first, second]
  · simp [newest, recordsOf, first, second]
  · simp [newest, recordsOf, first, second]

end DashSystem

end Schedmon
