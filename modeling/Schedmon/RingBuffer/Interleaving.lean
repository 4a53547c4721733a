import Schedmon.Library.Transition
import Schedmon.RingBuffer

/-!
# One producer and one consumer

`rb_push` and `rb_pop` split into their memory accesses and interleaved
sequentially consistently.  A slot copy is not atomic: it falls into the pieces
of the record type, and the other side may run between any two of them.
-/

namespace Schedmon

open Library
open Library.PiecewiseCopy

/-- Where the producer is inside `rb_push`. -/
inductive ProducerPc (α : Type)
  /-- Between two calls. -/
  | idle
  /-- `head` is loaded. -/
  | loadedHead (m : α) (head : Int)
  /-- The ring was not full; `copied` pieces of the slot are written. -/
  | copying (m : α) (head nextHead : Int) (copied : Nat)

/-- Where the consumer is inside `rb_pop`. -/
inductive ConsumerPc (α : Type)
  /-- Between two calls. -/
  | idle
  /-- `tail` is loaded; `out` is the caller's buffer. -/
  | loadedTail (tail : Int) (out : α)
  /-- The ring was not empty; `copied` pieces of `out` are written. -/
  | copying (tail : Int) (out : α) (copied : Nat)

/-- The shared segment, both program counters, and the history of the calls
that have returned true. -/
structure Spsc (α : Type) where
  ring : RingBuffer α
  producer : ProducerPc α
  consumer : ConsumerPc α
  /-- Records whose `rb_push` returned true, oldest first. -/
  accepted : List α
  /-- Records that a successful `rb_pop` returned, oldest first. -/
  returned : List α

/-- One memory access of either side. -/
inductive SpscAction (α : Type)
  | pushLoadHead (m : α)
  | pushLoadTail
  | pushCopy
  | pushStoreHead
  | popLoadTail (out : α)
  | popLoadHead
  | popCopy
  | popStoreTail

/-- The two sides before their first call. -/
def Spsc.start (ring : RingBuffer α) : Spsc α where
  ring := ring
  producer := .idle
  consumer := .idle
  accepted := []
  returned := []

section Steps

variable {α : Type} [PiecewiseCopy α]

/-- One step of the system, where the side's program counter allows it. -/
def spscStep : SpscAction α → Spsc α → Option (Spsc α)
  | .pushLoadHead m, s =>
      match s.producer with
      | .idle => some { s with producer := .loadedHead m s.ring.head }
      | _ => none
  | .pushLoadTail, s =>
      match s.producer with
      | .loadedHead m head =>
          let nextHead := rbNext head
          if nextHead = s.ring.tail then
            some { s with producer := .idle }
          else
            some { s with producer := .copying m head nextHead 0 }
      | _ => none
  | .pushCopy, s =>
      match s.producer with
      | .copying m head nextHead copied =>
          if copied < pieces α then
            some { s with
              ring := { s.ring with
                slots := Function.update s.ring.slots head
                  (copyPiece copied m (s.ring.slots head)) }
              producer := .copying m head nextHead (copied + 1) }
          else none
      | _ => none
  | .pushStoreHead, s =>
      match s.producer with
      | .copying m _ nextHead copied =>
          if copied = pieces α then
            some { s with
              ring := { s.ring with head := nextHead }
              producer := .idle
              accepted := s.accepted ++ [m] }
          else none
      | _ => none
  | .popLoadTail out, s =>
      match s.consumer with
      | .idle => some { s with consumer := .loadedTail s.ring.tail out }
      | _ => none
  | .popLoadHead, s =>
      match s.consumer with
      | .loadedTail tail out =>
          if tail = s.ring.head then
            some { s with consumer := .idle }
          else
            some { s with consumer := .copying tail out 0 }
      | _ => none
  | .popCopy, s =>
      match s.consumer with
      | .copying tail out copied =>
          if copied < pieces α then
            some { s with
              consumer := .copying tail
                (copyPiece copied (s.ring.slots tail) out) (copied + 1) }
          else none
      | _ => none
  | .popStoreTail, s =>
      match s.consumer with
      | .copying tail out copied =>
          if copied = pieces α then
            some { s with
              ring := { s.ring with tail := rbNext tail }
              consumer := .idle
              returned := s.returned ++ [out] }
          else none
      | _ => none

/-- What the producer's program counter says about the segment. -/
def ProducerAgrees (s : Spsc α) : Prop :=
  match s.producer with
  | .idle => True
  | .loadedHead _ head => head = s.ring.head
  | .copying m head nextHead copied =>
      head = s.ring.head ∧ nextHead = rbNext head ∧ nextHead ≠ s.ring.tail ∧
        ∃ old, s.ring.slots head = copyPrefix copied m old

/-- What the consumer's program counter says about the segment. -/
def ConsumerAgrees (s : Spsc α) : Prop :=
  match s.consumer with
  | .idle => True
  | .loadedTail tail _ => tail = s.ring.tail
  | .copying tail out copied =>
      tail = s.ring.tail ∧ tail ≠ s.ring.head ∧
        ∃ old, out = copyPrefix copied (s.ring.slots tail) old

/-- A step of the producer that leaves the slot under the tail alone keeps what
the consumer knows. -/
theorem ConsumerAgrees.kept
    {s next : Spsc α}
    (holds : ConsumerAgrees s)
    (sameConsumer : next.consumer = s.consumer)
    (sameTail : next.ring.tail = s.ring.tail)
    (reading : s.ring.tail ≠ s.ring.head →
      s.ring.tail ≠ next.ring.head ∧
        next.ring.slots s.ring.tail = s.ring.slots s.ring.tail) :
    ConsumerAgrees next := by
  unfold ConsumerAgrees at holds ⊢
  rw [sameConsumer, sameTail]
  cases counter : s.consumer with
  | idle => trivial
  | loadedTail tail out => simpa [counter] using holds
  | copying tail out copied =>
      simp only [counter] at holds ⊢
      obtain ⟨tailOwn, notEmpty, outOld, outRead⟩ := holds
      subst tailOwn
      obtain ⟨stillNotEmpty, sameSlot⟩ := reading notEmpty
      rw [sameSlot]
      exact ⟨rfl, stillNotEmpty, outOld, outRead⟩

/-- The inductive invariant of the two sides. -/
structure SpscInvariant (s : Spsc α) : Prop where
  bounds : s.ring.InBounds
  history : s.accepted = s.returned ++ s.ring.queued
  producer : ProducerAgrees s
  consumer : ConsumerAgrees s

theorem spscInvariant_start
    {ring : RingBuffer α}
    (bounds : ring.InBounds)
    (empty : ring.head = ring.tail) :
    SpscInvariant (Spsc.start ring) where
  bounds := bounds
  history := by simp [Spsc.start, RingBuffer.queued, empty]
  producer := trivial
  consumer := trivial

/-- Loading the own head index starts a push. -/
theorem spscInvariant_pushLoadHead
    {s next : Spsc α} {m : α}
    (holds : SpscInvariant s)
    (taken : spscStep (.pushLoadHead m) s = some next) :
    SpscInvariant next := by
  simp only [spscStep] at taken
  split at taken
  · cases taken
    exact ⟨holds.bounds, holds.history, rfl, holds.consumer⟩
  · cases taken

/-- Loading the other side's tail decides between refusing and copying. -/
theorem spscInvariant_pushLoadTail
    {s next : Spsc α}
    (holds : SpscInvariant s)
    (taken : spscStep .pushLoadTail s = some next) :
    SpscInvariant next := by
  have producer := holds.producer
  simp only [spscStep] at taken
  split at taken
  · next m head loaded =>
      simp only [ProducerAgrees, loaded] at producer
      split at taken
      · cases taken
        exact ⟨holds.bounds, holds.history, trivial, holds.consumer⟩
      · next notFull =>
          cases taken
          exact ⟨holds.bounds, holds.history,
            ⟨producer, rfl, notFull, _, (copyPrefix_zero m _).symm⟩,
            holds.consumer⟩
  · cases taken

/-- The producer only writes the head slot, which the consumer does not read
and the queue does not contain. -/
theorem spscInvariant_pushCopy
    {s next : Spsc α}
    (holds : SpscInvariant s)
    (taken : spscStep .pushCopy s = some next) :
    SpscInvariant next := by
  have producer := holds.producer
  simp only [spscStep] at taken
  split at taken
  · next m head nextHead copied loaded =>
      simp only [ProducerAgrees, loaded] at producer
      obtain ⟨headOwn, nextEqual, notFull, old, written⟩ := producer
      subst headOwn
      split at taken
      · cases taken
        refine ⟨⟨holds.bounds.headNonneg, holds.bounds.headBelow,
          holds.bounds.tailNonneg, holds.bounds.tailBelow⟩, ?_, ?_, ?_⟩
        · exact holds.history.trans
            (congrArg _ (RingBuffer.queued_writeHead holds.bounds _).symm)
        · refine ⟨rfl, nextEqual, notFull, old, ?_⟩
          rw [copyPrefix_succ, ← written]
          exact Function.update_self _ _ _
        · exact holds.consumer.kept rfl rfl fun notEmpty =>
            ⟨notEmpty, Function.update_of_ne notEmpty _ _⟩
      · cases taken
  · cases taken

/-- Storing the head publishes the finished slot. -/
theorem spscInvariant_pushStoreHead
    {s next : Spsc α}
    (holds : SpscInvariant s)
    (taken : spscStep .pushStoreHead s = some next) :
    SpscInvariant next := by
  have producer := holds.producer
  simp only [spscStep] at taken
  split at taken
  · next m head nextHead copied loaded =>
      simp only [ProducerAgrees, loaded] at producer
      obtain ⟨headOwn, nextEqual, notFull, old, written⟩ := producer
      subst headOwn nextEqual
      split at taken
      · next finished =>
          subst finished
          rw [copyPrefix_pieces] at written
          cases taken
          refine ⟨holds.bounds.advanceHead, ?_, trivial, ?_⟩
          · rw [RingBuffer.queued_advanceHead holds.bounds notFull, written,
              holds.history, List.append_assoc]
          · exact holds.consumer.kept rfl rfl fun _ =>
              ⟨fun equal => notFull equal.symm, rfl⟩
      · cases taken
  · cases taken

/-- Loading the own tail index starts a pop. -/
theorem spscInvariant_popLoadTail
    {s next : Spsc α} {out : α}
    (holds : SpscInvariant s)
    (taken : spscStep (.popLoadTail out) s = some next) :
    SpscInvariant next := by
  simp only [spscStep] at taken
  split at taken
  · cases taken
    exact ⟨holds.bounds, holds.history, holds.producer, rfl⟩
  · cases taken

/-- Loading the other side's head decides between empty and copying. -/
theorem spscInvariant_popLoadHead
    {s next : Spsc α}
    (holds : SpscInvariant s)
    (taken : spscStep .popLoadHead s = some next) :
    SpscInvariant next := by
  have consumer := holds.consumer
  simp only [spscStep] at taken
  split at taken
  · next tail out loaded =>
      simp only [ConsumerAgrees, loaded] at consumer
      split at taken
      · cases taken
        exact ⟨holds.bounds, holds.history, holds.producer, trivial⟩
      · next notEmpty =>
          cases taken
          exact ⟨holds.bounds, holds.history, holds.producer,
            ⟨consumer, notEmpty, _, (copyPrefix_zero _ out).symm⟩⟩
  · cases taken

/-- The consumer only writes its own buffer. -/
theorem spscInvariant_popCopy
    {s next : Spsc α}
    (holds : SpscInvariant s)
    (taken : spscStep .popCopy s = some next) :
    SpscInvariant next := by
  have consumer := holds.consumer
  simp only [spscStep] at taken
  split at taken
  · next tail out copied loaded =>
      simp only [ConsumerAgrees, loaded] at consumer
      obtain ⟨tailOwn, notEmpty, old, read⟩ := consumer
      split at taken
      · cases taken
        refine ⟨holds.bounds, holds.history, holds.producer,
          ⟨tailOwn, notEmpty, old, ?_⟩⟩
        rw [copyPrefix_succ, ← read]
      · cases taken
  · cases taken

/-- Storing the tail releases the slot whose copy is finished. -/
theorem spscInvariant_popStoreTail
    {s next : Spsc α}
    (holds : SpscInvariant s)
    (taken : spscStep .popStoreTail s = some next) :
    SpscInvariant next := by
  have consumer := holds.consumer
  simp only [spscStep] at taken
  split at taken
  · next tail out copied loaded =>
      simp only [ConsumerAgrees, loaded] at consumer
      obtain ⟨tailOwn, notEmpty, old, read⟩ := consumer
      subst tailOwn
      split at taken
      · next finished =>
          subst finished
          rw [copyPrefix_pieces] at read
          cases taken
          refine ⟨holds.bounds.advanceTail, ?_, ?_, trivial⟩
          · rw [holds.history, RingBuffer.queued_advanceTail holds.bounds notEmpty,
              read, List.append_assoc]
            rfl
          · have producer := holds.producer
            unfold ProducerAgrees at producer ⊢
            cases writing : s.producer with
            | idle => trivial
            | loadedHead m head => simpa [writing] using producer
            | copying m head nextHead copied =>
                simp only [writing] at producer ⊢
                obtain ⟨headOwn, nextEqual, _, written⟩ := producer
                refine ⟨headOwn, nextEqual, ?_, written⟩
                -- the two indices differ, so their successors differ as well
                intro equal
                rw [nextEqual, headOwn] at equal
                exact notEmpty (RingBuffer.rbNext_injective
                  holds.bounds.headNonneg holds.bounds.headBelow
                  holds.bounds.tailNonneg holds.bounds.tailBelow equal).symm
      · cases taken
  · cases taken

/-- Every step of either side keeps the invariant. -/
theorem spscStep_invariant
    (action : SpscAction α)
    (s next : Spsc α)
    (holds : SpscInvariant s)
    (taken : spscStep action s = some next) :
    SpscInvariant next := by
  cases action with
  | pushLoadHead m => exact spscInvariant_pushLoadHead holds taken
  | pushLoadTail => exact spscInvariant_pushLoadTail holds taken
  | pushCopy => exact spscInvariant_pushCopy holds taken
  | pushStoreHead => exact spscInvariant_pushStoreHead holds taken
  | popLoadTail out => exact spscInvariant_popLoadTail holds taken
  | popLoadHead => exact spscInvariant_popLoadHead holds taken
  | popCopy => exact spscInvariant_popCopy holds taken
  | popStoreTail => exact spscInvariant_popStoreTail holds taken

theorem spscInvariant_reachable
    {ring : RingBuffer α}
    {s : Spsc α}
    (bounds : ring.InBounds)
    (empty : ring.head = ring.tail)
    (reached : Transition.Reachable spscStep (Spsc.start ring) s) :
    SpscInvariant s :=
  reached.invariant (spscInvariant_start bounds empty) spscStep_invariant

/-! ## Uninterrupted calls

A call whose steps run without the other side in between is the sequential
function of the source. -/

/-- The steps of one `rb_push` call that finds room. -/
def pushActions (m : α) : List (SpscAction α) :=
  [.pushLoadHead m, .pushLoadTail] ++
    List.replicate (pieces α) .pushCopy ++ [.pushStoreHead]

/-- The steps of one `rb_pop` call that finds a record. -/
def popActions (out : α) : List (SpscAction α) :=
  [.popLoadTail out, .popLoadHead] ++
    List.replicate (pieces α) .popCopy ++ [.popStoreTail]

private theorem run_pushCopy
    (s : Spsc α)
    (m : α)
    (head nextHead : Int)
    (loaded : s.producer = .copying m head nextHead 0)
    (copied : Nat)
    (within : copied ≤ pieces α) :
    Transition.runActions spscStep (List.replicate copied .pushCopy) s =
      some { s with
        ring := { s.ring with
          slots := Function.update s.ring.slots head
            (copyPrefix copied m (s.ring.slots head)) }
        producer := .copying m head nextHead copied } := by
  induction copied with
  | zero =>
      cases s
      cases loaded
      simp
  | succ copied inductionHypothesis =>
      rw [List.replicate_succ', Transition.runActions_append,
        inductionHypothesis (by omega)]
      have more : copied < pieces α := within
      simp [spscStep, more, copyPrefix_succ]

private theorem run_popCopy
    (s : Spsc α)
    (tail : Int)
    (out : α)
    (loaded : s.consumer = .copying tail out 0)
    (copied : Nat)
    (within : copied ≤ pieces α) :
    Transition.runActions spscStep (List.replicate copied .popCopy) s =
      some { s with
        consumer := .copying tail
          (copyPrefix copied (s.ring.slots tail) out) copied } := by
  induction copied with
  | zero =>
      cases s
      cases loaded
      simp
  | succ copied inductionHypothesis =>
      rw [List.replicate_succ', Transition.runActions_append,
        inductionHypothesis (by omega)]
      have more : copied < pieces α := within
      simp [spscStep, more, copyPrefix_succ]

/-- An uninterrupted push that finds room is `rb_push`. -/
theorem run_pushActions
    (s : Spsc α)
    (m : α)
    (idle : s.producer = .idle)
    (room : rbNext s.ring.head ≠ s.ring.tail) :
    (rbPush s.ring m).1 = true ∧
      Transition.runActions spscStep (pushActions m) s =
        some { s with
          ring := (rbPush s.ring m).2
          accepted := s.accepted ++ [m] } := by
  refine ⟨by simp [rbPush, room], ?_⟩
  unfold pushActions
  rw [Transition.runActions_append, Transition.runActions_append]
  simp only [Transition.runActions_cons, Transition.runActions_nil, spscStep, idle,
    room, if_false, Option.bind_some]
  rw [run_pushCopy _ m s.ring.head (rbNext s.ring.head) rfl _ le_rfl]
  simp [spscStep, rbPush, room]

/-- An uninterrupted pop that finds a record is `rb_pop`. -/
theorem run_popActions
    (s : Spsc α)
    (out : α)
    (idle : s.consumer = .idle)
    (nonempty : s.ring.tail ≠ s.ring.head) :
    (rbPop s.ring).1 = some (s.ring.slots s.ring.tail) ∧
      Transition.runActions spscStep (popActions out) s =
        some { s with
          ring := (rbPop s.ring).2
          returned := s.returned ++ [s.ring.slots s.ring.tail] } := by
  refine ⟨by simp [rbPop, nonempty], ?_⟩
  unfold popActions
  rw [Transition.runActions_append, Transition.runActions_append]
  simp only [Transition.runActions_cons, Transition.runActions_nil, spscStep, idle,
    nonempty, if_false, Option.bind_some]
  rw [run_popCopy _ s.ring.tail out rfl _ le_rfl]
  simp [spscStep, rbPop, nonempty]

/-- What one producer and one consumer rely on, at a point of a run. -/
structure SpscSafe (s : Spsc α) : Prop where
  /-- `head` and `tail` index the slot array. -/
  bounds : s.ring.InBounds
  /-- The popped records are the oldest accepted ones, in order, and the other
  accepted records are those in `slots[tail..head)`. -/
  history : s.accepted = s.returned ++ s.ring.queued
  /-- The two slot copies never meet. -/
  disjoint : ∀ m head nextHead written tail out read,
    s.producer = .copying m head nextHead written →
    s.consumer = .copying tail out read → head ≠ tail
  /-- The first access of a push changes nothing but the program counter. -/
  pushLoads : ∀ m next, spscStep (.pushLoadHead m) s = some next →
    next = { s with producer := .loadedHead m s.ring.head }
  /-- A push that returns false changes nothing, and the ring holds
  `RB_CAPACITY - 1` records when it loads `tail`. -/
  pushRefuses : ∀ next, spscStep .pushLoadTail s = some next →
    next.producer = .idle →
      next = { s with producer := .idle } ∧
        (s.ring.queued.length : Int) = rbCapacity - 1

theorem SpscInvariant.safe
    {s : Spsc α}
    (holds : SpscInvariant s) :
    SpscSafe s where
  bounds := holds.bounds
  history := holds.history
  disjoint := by
    intro m head nextHead written tail out read writing reading equal
    have producer := holds.producer
    have consumer := holds.consumer
    simp only [ProducerAgrees, writing] at producer
    simp only [ConsumerAgrees, reading] at consumer
    exact consumer.2.1 (equal.symm.trans producer.1)
  pushLoads := by
    intro m next taken
    simp only [spscStep] at taken
    split at taken <;> cases taken
    rfl
  pushRefuses := by
    intro next taken returned
    have producer := holds.producer
    simp only [spscStep] at taken
    split at taken
    · next m head loaded =>
        simp only [ProducerAgrees, loaded] at producer
        split at taken
        · next full =>
            cases taken
            subst producer
            exact ⟨rfl, (RingBuffer.full_iff_length_queued holds.bounds).mp full⟩
        · cases taken
          cases returned
    · cases taken

end Steps

/-- On a fresh segment every interleaving of one producer and one consumer, of
any length and over any records, is safe. -/
theorem spscSafe_of_run
    (actions : List (SpscAction SmoothedMetrics))
    (s : Spsc SmoothedMetrics)
    (run : Transition.runActions spscStep actions (Spsc.start rbCreateNamed) =
      some s) :
    SpscSafe s :=
  (spscInvariant_reachable RingBuffer.rbCreateNamed_inBounds rfl
    ⟨actions, run⟩).safe

/-- A push, then a pop that is half way through its copy while a second push
writes the next slot. -/
def overlappingRun : List (SpscAction SmoothedMetrics) :=
  pushActions { SmoothedMetrics.zero with pid := 7 } ++
    [.popLoadTail SmoothedMetrics.zero, .popLoadHead, .popCopy,
      .pushLoadHead { SmoothedMetrics.zero with pid := 8 }, .pushLoadTail, .pushCopy]

theorem spscSafe_of_overlappingRun :
    ∃ s, Transition.runActions spscStep overlappingRun
        (Spsc.start rbCreateNamed) = some s ∧
      SpscSafe s ∧ s.accepted.map SmoothedMetrics.pid = [7] :=
  ⟨_, rfl, spscSafe_of_run overlappingRun _ rfl, rfl⟩

end Schedmon
