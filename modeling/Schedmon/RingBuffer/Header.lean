import Schedmon.RingBuffer

/-!
# Headers that another process may have written

The segment is created with mode 0666, so `rb_push` and `rb_pop` may find any
`int` in `head` and `tail`.  They use the word they load as a slot index.
-/

namespace Schedmon

/-- The index lies inside the slot array. -/
def InRange (index : Int) : Prop :=
  0 ≤ index ∧ index < rbCapacity

/-- The slot that `rb_push` writes, if it does not refuse. -/
def rbPushSlot (rb : RingBuffer α) : Option Int :=
  if rbNext rb.head = rb.tail then none else some rb.head

/-- The slot that `rb_pop` reads, if it finds a record. -/
def rbPopSlot (rb : RingBuffer α) : Option Int :=
  if rb.tail = rb.head then none else some rb.tail

/-- A call of either side. -/
inductive RingCall (α : Type)
  | push (m : α)
  | pop

/-- The segment after a call. -/
def RingCall.run (rb : RingBuffer α) : RingCall α → RingBuffer α
  | .push m => (rbPush rb m).2
  | .pop => (rbPop rb).2

/-- The call touches no slot outside the array and stores no index outside it. -/
def CallInRange (rb : RingBuffer α) : RingCall α → Prop
  | .push m => ∀ index ∈ rbPushSlot rb, InRange index ∧ InRange (rbPush rb m).2.head
  | .pop => ∀ index ∈ rbPopSlot rb, InRange index ∧ InRange (rbPop rb).2.tail

/-- So do all calls of a sequence. -/
def CallsInRange (rb : RingBuffer α) : List (RingCall α) → Prop
  | [] => True
  | call :: rest => CallInRange rb call ∧ CallsInRange (call.run rb) rest

theorem rbPush_slots (rb : RingBuffer α) (m : α) :
    (rbPush rb m).2.slots =
      match rbPushSlot rb with
      | some index => Function.update rb.slots index m
      | none => rb.slots := by
  unfold rbPush rbPushSlot
  by_cases full : rbNext rb.head = rb.tail
  · simp [full]
  · simp [full]

theorem rbPop_slot (rb : RingBuffer α) :
    (rbPop rb).1 = (rbPopSlot rb).map rb.slots := by
  unfold rbPop rbPopSlot
  by_cases empty : rb.tail = rb.head
  · simp [empty]
  · simp [empty]

theorem InRange.rbNext
    {index : Int}
    (inside : InRange index) :
    InRange (rbNext index) :=
  ⟨RingBuffer.rbNext_nonneg_of_inBounds index inside.1 inside.2,
    RingBuffer.rbNext_lt_of_inBounds index inside.1 inside.2⟩

/-- No index is its own successor, whatever its sign. -/
theorem rbNext_ne_self (index : Int) : rbNext index ≠ index := by
  intro fixed
  unfold rbNext rbCapacity at fixed
  have above := Int.tmod_lt_of_pos ((index + 1).bmod (2 ^ 32))
    (show (0 : Int) < 32768 by decide)
  have below := Int.lt_tmod_of_pos ((index + 1).bmod (2 ^ 32))
    (show (0 : Int) < 32768 by decide)
  rw [fixed] at above below
  rw [Int.bmod_eq_of_le (by omega) (by omega)] at fixed
  have split := Int.mul_tdiv_add_tmod (index + 1) 32768
  rw [fixed] at split
  omega

section Calls

variable {rb : RingBuffer α}

/-- A push stays inside the array exactly where it refuses or its head word
lies there. -/
theorem push_inRange_iff (m : α) :
    CallInRange rb (.push m) ↔ rbIsFull rb = true ∨ InRange rb.head := by
  unfold CallInRange rbPushSlot rbIsFull rbPush
  by_cases full : rbNext rb.head = rb.tail
  · simp [full]
  · simp only [full, if_false, Option.mem_def, Option.some.injEq, decide_false,
      Bool.false_eq_true, false_or, forall_eq']
    exact ⟨fun both => both.1, fun inside => ⟨inside, inside.rbNext⟩⟩

/-- A pop stays inside the array exactly where it finds nothing or its tail
word lies there. -/
theorem pop_inRange_iff :
    CallInRange rb .pop ↔ rbIsEmpty rb = true ∨ InRange rb.tail := by
  unfold CallInRange rbPopSlot rbIsEmpty rbPop
  by_cases empty : rb.tail = rb.head
  · simp [empty]
  · have differs : ¬ rb.head = rb.tail := fun same => empty same.symm
    simp only [empty, differs, if_false, Option.mem_def, Option.some.injEq,
      decide_false, Bool.false_eq_true, false_or, forall_eq']
    exact ⟨fun both => both.1, fun inside => ⟨inside, inside.rbNext⟩⟩

/-- A call keeps a header that lies inside the array there. -/
theorem RingCall.run_inRange
    (call : RingCall α)
    (head : InRange rb.head)
    (tail : InRange rb.tail) :
    InRange (call.run rb).head ∧ InRange (call.run rb).tail := by
  cases call with
  | push m =>
      simp only [run, rbPush]
      by_cases full : rbNext rb.head = rb.tail
      · rw [if_pos full]
        exact ⟨head, tail⟩
      · rw [if_neg full]
        exact ⟨head.rbNext, tail⟩
  | pop =>
      simp only [run, rbPop]
      by_cases empty : rb.tail = rb.head
      · rw [if_pos empty]
        exact ⟨head, tail⟩
      · rw [if_neg empty]
        exact ⟨head, tail.rbNext⟩

theorem callsInRange_of_inRange
    (calls : List (RingCall α))
    (head : InRange rb.head)
    (tail : InRange rb.tail) :
    CallsInRange rb calls := by
  induction calls generalizing rb with
  | nil => trivial
  | cons call rest inductionHypothesis =>
      obtain ⟨headAfter, tailAfter⟩ := call.run_inRange head tail
      refine ⟨?_, inductionHypothesis headAfter tailAfter⟩
      cases call with
      | push m => exact (push_inRange_iff m).mpr (.inr head)
      | pop => exact pop_inRange_iff.mpr (.inr tail)

/-- A header outside the array is found out by a pop, or by a push after it has
made room. -/
theorem inRange_of_callsInRange
    (m : α)
    (pop : CallsInRange rb [.pop])
    (push : CallsInRange rb [.push m])
    (both : CallsInRange rb [.pop, .push m]) :
    InRange rb.head ∧ InRange rb.tail := by
  have pushOnly := (push_inRange_iff m).mp push.1
  have popOnly := pop_inRange_iff.mp pop.1
  have afterPop := (push_inRange_iff m).mp both.2.1
  have notBoth : rbNext rb.head = rb.tail → rb.tail ≠ rb.head := by
    intro full empty
    exact rbNext_ne_self rb.head (full.trans empty)
  have head : InRange rb.head := by
    rcases pushOnly with full | inside
    · have full : rbNext rb.head = rb.tail := by simpa [rbIsFull] using full
      have nonempty := notBoth full
      -- the pop moves the tail on, so the push that follows finds room
      have moved : (RingCall.run rb .pop).head = rb.head ∧
          (RingCall.run rb .pop).tail = rbNext rb.tail := by
        unfold RingCall.run rbPop
        simp [nonempty]
      rcases afterPop with stillFull | inside
      · unfold rbIsFull at stillFull
        rw [moved.1, moved.2, full] at stillFull
        exact absurd (of_decide_eq_true stillFull).symm (rbNext_ne_self rb.tail)
      · rw [moved.1] at inside
        exact inside
    · exact inside
  refine ⟨head, ?_⟩
  rcases popOnly with empty | inside
  · have empty : rb.head = rb.tail := by simpa [rbIsEmpty] using empty
    exact empty ▸ head
  · exact inside

end Calls

/-- One call stays inside the slot array exactly where it does nothing or the
word it indexes with lies there, and every sequence of calls does exactly where
both words of the header it starts from lie there. -/
theorem ringCalls_inRange_iff (rb : RingBuffer SmoothedMetrics) :
    (∀ m, CallInRange rb (.push m) ↔ rbIsFull rb = true ∨ InRange rb.head) ∧
      (CallInRange rb .pop ↔ rbIsEmpty rb = true ∨ InRange rb.tail) ∧
      ((∀ calls, CallsInRange rb calls) ↔ InRange rb.head ∧ InRange rb.tail) := by
  refine ⟨push_inRange_iff, pop_inRange_iff, ?_, ?_⟩
  · intro always
    exact inRange_of_callsInRange SmoothedMetrics.zero (always _) (always _) (always _)
  · rintro ⟨head, tail⟩ calls
    exact callsInRange_of_inRange calls head tail

/-- A segment whose head word another process has set to -2. -/
def negativeHead : RingBuffer SmoothedMetrics :=
  { rbCreateNamed with head := -2 }

/-- The push writes slot -2 and leaves -1 in the header. -/
theorem ringCalls_negativeHead :
    ¬ ∀ rb : RingBuffer SmoothedMetrics,
      -2 ^ 31 ≤ rb.head → rb.head < 2 ^ 31 → -2 ^ 31 ≤ rb.tail → rb.tail < 2 ^ 31 →
        ∀ calls, CallsInRange rb calls := by
  intro always
  have safe := always negativeHead (by decide) (by decide) (by decide) (by decide)
    [.push SmoothedMetrics.zero]
  have written : rbPushSlot negativeHead = some (-2) := by decide
  exact absurd (safe.1 (-2) written).1.1 (by decide)

end Schedmon
