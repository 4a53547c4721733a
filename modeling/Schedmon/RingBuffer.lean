import Schedmon.Library.CyclicRange
import Schedmon.SmoothedMetrics

/-!
# The ring buffer

`rb_create_named`, `rb_push` and `rb_pop` of one caller at a time.  The index
arithmetic is that of C's `int`: sums wrap at 32 bits and `%` truncates, so a
negative index stays negative.  The slots are therefore addressed by an
integer, and that the indices stay inside the array is a theorem.
-/

namespace Schedmon

open Library

/-- `RB_CAPACITY`. -/
def rbCapacity : Int := 32768

/-- `RingBuffer`, over any type of slots. -/
structure RingBuffer (α : Type) where
  slots : Int → α
  head : Int
  tail : Int
  abiVersion : Nat
  slotSize : Nat

/-- The segment as `rb_create_named` leaves it. -/
def rbCreateNamed : RingBuffer SmoothedMetrics where
  slots := fun _ => SmoothedMetrics.zero
  head := 0
  tail := 0
  abiVersion := monitorAbiVersion
  slotSize := smoothedMetricsSize

/-- `(index + 1) % RB_CAPACITY` on C's `int`. -/
def rbNext (index : Int) : Int :=
  ((index + 1).bmod (2 ^ 32)).tmod rbCapacity

/-- `rb_push`: false, and nothing changed, when the ring is full. -/
def rbPush (rb : RingBuffer α) (m : α) : Bool × RingBuffer α :=
  let head := rb.head
  let nextHead := rbNext head
  if nextHead = rb.tail then
    (false, rb)
  else
    (true, { rb with slots := Function.update rb.slots head m, head := nextHead })

/-- `rb_pop`: the record read, unless the ring is empty. -/
def rbPop (rb : RingBuffer α) : Option α × RingBuffer α :=
  let tail := rb.tail
  if tail = rb.head then
    (none, rb)
  else
    (some (rb.slots tail), { rb with tail := rbNext tail })

/-- `rb_is_full`. -/
def rbIsFull (rb : RingBuffer α) : Bool :=
  rbNext rb.head = rb.tail

/-- `rb_is_empty`. -/
def rbIsEmpty (rb : RingBuffer α) : Bool :=
  rb.head = rb.tail

/-- `rb_check_abi`. -/
def rbCheckAbi (rb : RingBuffer α) : Bool :=
  rb.abiVersion = monitorAbiVersion && rb.slotSize = smoothedMetricsSize

/-- Inside the array the C expression is the cyclic successor. -/
theorem rbNext_eq_next
    {index : Int}
    (nonnegative : 0 ≤ index)
    (below : index < rbCapacity) :
    rbNext index = CyclicRange.next rbCapacity index := by
  unfold rbNext CyclicRange.next
  unfold rbCapacity at *
  rw [Int.bmod_eq_of_le (by omega) (by omega)]
  exact Int.tmod_eq_emod_of_nonneg (by omega)

/-- The queued records, oldest first. -/
def RingBuffer.queued (rb : RingBuffer α) : List α :=
  CyclicRange.contents rbCapacity rb.slots rb.tail rb.head

/-- Both indices lie inside the array. -/
structure RingBuffer.InBounds (rb : RingBuffer α) : Prop where
  headNonneg : 0 ≤ rb.head
  headBelow : rb.head < rbCapacity
  tailNonneg : 0 ≤ rb.tail
  tailBelow : rb.tail < rbCapacity

namespace RingBuffer

variable {rb : RingBuffer α}

theorem rbCreateNamed_inBounds : rbCreateNamed.InBounds := by
  constructor <;> decide

theorem rbNext_nonneg_of_inBounds
    (index : Int)
    (nonnegative : 0 ≤ index) (below : index < rbCapacity) :
    0 ≤ rbNext index := by
  rw [rbNext_eq_next nonnegative below]
  exact CyclicRange.next_nonneg (by decide)

theorem rbNext_lt_of_inBounds
    (index : Int)
    (nonnegative : 0 ≤ index) (below : index < rbCapacity) :
    rbNext index < rbCapacity := by
  rw [rbNext_eq_next nonnegative below]
  exact CyclicRange.next_lt (by decide)

/-- Different cells have different successors. -/
theorem rbNext_injective
    {left right : Int}
    (leftNonneg : 0 ≤ left) (leftBelow : left < rbCapacity)
    (rightNonneg : 0 ≤ right) (rightBelow : right < rbCapacity)
    (equal : rbNext left = rbNext right) :
    left = right := by
  rw [rbNext_eq_next leftNonneg leftBelow, rbNext_eq_next rightNonneg rightBelow,
    CyclicRange.next_eq leftNonneg leftBelow,
    CyclicRange.next_eq rightNonneg rightBelow] at equal
  split at equal <;> split at equal <;> omega

/-- Storing the advanced head publishes the record in the old head slot. -/
theorem queued_advanceHead
    (bounds : rb.InBounds)
    (notFull : rbNext rb.head ≠ rb.tail) :
    ({ rb with head := rbNext rb.head } : RingBuffer α).queued =
      rb.queued ++ [rb.slots rb.head] := by
  unfold queued CyclicRange.contents
  rw [rbNext_eq_next bounds.headNonneg bounds.headBelow] at notFull ⊢
  rw [CyclicRange.indices_next_last bounds.tailNonneg bounds.tailBelow
    bounds.headNonneg bounds.headBelow notFull]
  simp

/-- Storing the advanced tail drops the oldest queued record. -/
theorem queued_advanceTail
    (bounds : rb.InBounds)
    (notEmpty : rb.tail ≠ rb.head) :
    rb.queued = rb.slots rb.tail ::
      ({ rb with tail := rbNext rb.tail } : RingBuffer α).queued := by
  unfold queued CyclicRange.contents
  rw [CyclicRange.indices_eq_cons bounds.tailNonneg bounds.tailBelow
    bounds.headNonneg bounds.headBelow notEmpty,
    rbNext_eq_next bounds.tailNonneg bounds.tailBelow]
  rfl

/-- The head slot is outside the queue, so writing it changes nothing queued. -/
theorem queued_writeHead
    (bounds : rb.InBounds)
    (value : α) :
    ({ rb with slots := Function.update rb.slots rb.head value } :
      RingBuffer α).queued = rb.queued := by
  apply CyclicRange.contents_congr bounds.tailNonneg bounds.tailBelow
    bounds.headNonneg bounds.headBelow
  intro index different
  exact Function.update_of_ne different value rb.slots

/-- The ring is full exactly with `RB_CAPACITY - 1` queued records. -/
theorem full_iff_length_queued
    (bounds : rb.InBounds) :
    rbNext rb.head = rb.tail ↔ (rb.queued.length : Int) = rbCapacity - 1 := by
  unfold queued
  rw [rbNext_eq_next bounds.headNonneg bounds.headBelow,
    CyclicRange.length_contents]
  exact CyclicRange.next_last_eq_first_iff bounds.tailNonneg bounds.tailBelow
    bounds.headNonneg bounds.headBelow

theorem length_queued_lt (bounds : rb.InBounds) :
    (rb.queued.length : Int) < rbCapacity := by
  unfold queued
  rw [CyclicRange.length_contents]
  exact CyclicRange.distance_lt bounds.tailNonneg bounds.tailBelow
    bounds.headNonneg bounds.headBelow

/-- Advancing an index keeps both inside the array. -/
theorem InBounds.advanceHead (bounds : rb.InBounds) :
    ({ rb with head := rbNext rb.head } : RingBuffer α).InBounds where
  headNonneg := rbNext_nonneg_of_inBounds _ bounds.headNonneg bounds.headBelow
  headBelow := rbNext_lt_of_inBounds _ bounds.headNonneg bounds.headBelow
  tailNonneg := bounds.tailNonneg
  tailBelow := bounds.tailBelow

theorem InBounds.advanceTail (bounds : rb.InBounds) :
    ({ rb with tail := rbNext rb.tail } : RingBuffer α).InBounds where
  headNonneg := bounds.headNonneg
  headBelow := bounds.headBelow
  tailNonneg := rbNext_nonneg_of_inBounds _ bounds.tailNonneg bounds.tailBelow
  tailBelow := rbNext_lt_of_inBounds _ bounds.tailNonneg bounds.tailBelow

/-- `rb_push` appends its record, and refuses only at `RB_CAPACITY - 1`. -/
theorem rbPush_queued
    (bounds : rb.InBounds)
    (m : α) :
    (rbPush rb m).2.queued =
      if (rb.queued.length : Int) = rbCapacity - 1 then rb.queued
      else rb.queued ++ [m] := by
  unfold rbPush
  simp only [← full_iff_length_queued bounds]
  split
  · rfl
  · next notFull =>
      let written : RingBuffer α :=
        { rb with slots := Function.update rb.slots rb.head m }
      have writtenBounds : written.InBounds := ⟨bounds.headNonneg,
        bounds.headBelow, bounds.tailNonneg, bounds.tailBelow⟩
      have advanced := queued_advanceHead writtenBounds notFull
      rw [queued_writeHead bounds m] at advanced
      simpa [written] using advanced

/-- `rb_pop` returns the oldest queued record and drops it. -/
theorem rbPop_queued
    (bounds : rb.InBounds) :
    rb.queued = (rbPop rb).1.toList ++ (rbPop rb).2.queued := by
  by_cases empty : rb.tail = rb.head
  · simp [rbPop, empty]
  · simpa [rbPop, empty] using queued_advanceTail bounds empty

end RingBuffer

end Schedmon
