import Mathlib.Data.List.DropRight
import Schedmon.Bpf.PidView
import Schedmon.Library.EventLog
import Schedmon.Library.Spans

/-!
# Waiting on the run queue

`handle_sched_wakeup` and `handle_sched_switch` put together the time a process
waits to run.  Here the counter is compared with a sum over the history: each
switch-in of the process with the latest wakeup since its previous switch-in.
-/

namespace Schedmon

open Library
open Library.EventLog

/-! ## The waits of a history -/

/-- An event and its position in the history. -/
abbrev Numbered := KernelEvent × Nat

/-- The time an event carries. -/
def KernelEvent.clock : KernelEvent → Option UInt64
  | .schedSwitch _ now _ => some now
  | .schedWakeup _ now => some now
  | .blockRqIssue _ _ now => some now
  | .blockRqComplete _ now => some now
  | .fork _ _ => none
  | .exit _ _ => none
  | .exec _ _ => none

/-- The times of a history. -/
def clocks (events : List KernelEvent) : List UInt64 :=
  events.filterMap KernelEvent.clock

/-- When the process is switched in. -/
def switchedAt (pid : UInt32) (entry : Numbered) : Option UInt64 :=
  match entry.1 with
  | .schedSwitch ctx now _ => if ctx.nextPid = pid then some now else none
  | _ => none

/-- Which wakeup of the process it is, and when. -/
def wokenAt (pid : UInt32) (entry : Numbered) : Option (Nat × UInt64) :=
  match entry.1 with
  | .schedWakeup other now => if other = pid then some (entry.2, now) else none
  | _ => none

/-- The process ends. -/
def endsAt (pid : UInt32) (entry : Numbered) : Bool :=
  match entry.1 with
  | .exit other groupDead => other = pid && groupDead
  | _ => false

/-- The history of a process since its last exit. -/
def sinceExit (pid : UInt32) (events : List KernelEvent) : List Numbered :=
  events.zipIdx.rtakeWhile fun entry => !endsAt pid entry

/-- The latest wakeup since the previous switch-in. -/
def pendingWakeup (pid : UInt32) (earlier : List Numbered) : Option (Nat × UInt64) :=
  latest (wokenAt pid)
    (earlier.rtakeWhile fun entry => (switchedAt pid entry).isNone)

/-- A wait on the run queue: from a wakeup to a switch-in. -/
structure RqWait where
  /-- The position of the wakeup. -/
  wakeup : Nat
  woken : UInt64
  switched : UInt64
  deriving DecidableEq

/-- The time of a wait. -/
def RqWait.span (wait : RqWait) : ℕ × ℕ :=
  (wait.woken.toNat, wait.switched.toNat)

/-- The wait that an event ends. -/
def waitAt (pid : UInt32) (earlier : List Numbered) (entry : Numbered) :
    Option RqWait :=
  match switchedAt pid entry, pendingWakeup pid earlier with
  | some switched, some (wakeup, woken) => some ⟨wakeup, woken, switched⟩
  | _, _ => none

/-- The waits that end after an earlier part of the history. -/
def waitsFrom (pid : UInt32) (earlier : List Numbered) : List Numbered → List RqWait
  | [] => []
  | entry :: rest =>
      (waitAt pid earlier entry).toList ++ waitsFrom pid (earlier ++ [entry]) rest

/-- The waits of a process. -/
def waitsOf (pid : UInt32) (entries : List Numbered) : List RqWait :=
  waitsFrom pid [] entries

/-- The nanoseconds of the waits below 10 s. -/
def chargedNs (waits : List RqWait) : ℕ :=
  (((waits.map RqWait.span).filter fun span =>
    Spans.length span < 10000000000).map Spans.length).sum

theorem waitsFrom_snoc
    (pid : UInt32)
    (earlier entries : List Numbered)
    (entry : Numbered) :
    waitsFrom pid earlier (entries ++ [entry]) =
      waitsFrom pid earlier entries ++
        (waitAt pid (earlier ++ entries) entry).toList := by
  induction entries generalizing earlier with
  | nil =>
      rw [List.nil_append, List.append_nil]
      exact List.append_nil _
  | cons first rest inductionHypothesis =>
      rw [List.cons_append]
      unfold waitsFrom
      rw [inductionHypothesis, List.append_assoc, List.append_assoc]
      rfl

theorem waitsOf_snoc
    (pid : UInt32)
    (entries : List Numbered)
    (entry : Numbered) :
    waitsOf pid (entries ++ [entry]) =
      waitsOf pid entries ++ (waitAt pid entries entry).toList :=
  waitsFrom_snoc pid [] entries entry

theorem pendingWakeup_snoc
    (pid : UInt32)
    (entries : List Numbered)
    (entry : Numbered) :
    pendingWakeup pid (entries ++ [entry]) =
      if (switchedAt pid entry).isNone then
        (wokenAt pid entry).or (pendingWakeup pid entries)
      else none := by
  unfold pendingWakeup
  rw [List.rtakeWhile_concat]
  split
  · exact latest_snoc _ _ _
  · rfl

theorem sinceExit_snoc
    (pid : UInt32)
    (events : List KernelEvent)
    (e : KernelEvent) :
    sinceExit pid (events ++ [e]) =
      if endsAt pid (e, events.length) then []
      else sinceExit pid events ++ [(e, events.length)] := by
  unfold sinceExit
  rw [List.zipIdx_append, Nat.zero_add]
  change (events.zipIdx ++ [(e, events.length)]).rtakeWhile _ = _
  rw [List.rtakeWhile_concat]
  cases endsAt pid (e, events.length) <;> rfl

theorem chargedNs_append (waits later : List RqWait) :
    chargedNs (waits ++ later) = chargedNs waits + chargedNs later := by
  unfold chargedNs
  rw [List.map_append, List.filter_append, List.map_append, List.sum_append]

/-- A wakeup of the process belongs to the history. -/
theorem mem_wokenAt_sinceExit
    {pid : UInt32}
    {events : List KernelEvent}
    {position : Nat}
    {woken : UInt64}
    (member : (position, woken) ∈ (sinceExit pid events).filterMap (wokenAt pid)) :
    position < events.length ∧ woken ∈ clocks events := by
  obtain ⟨⟨e, index⟩, inside, shown⟩ := List.mem_filterMap.mp member
  have listed : (e, index) ∈ events.zipIdx :=
    (List.rtakeWhile_suffix _ _).subset inside
  have present := List.mem_zipIdx' listed
  unfold wokenAt at shown
  dsimp only at shown
  split at shown
  · next other now =>
      split at shown
      · cases shown
        refine ⟨present.1, List.mem_filterMap.mpr ⟨.schedWakeup other woken, ?_, rfl⟩⟩
        rw [present.2]
        exact List.getElem_mem present.1
      · cases shown
  · cases shown

theorem clocks_snoc (events : List KernelEvent) (e : KernelEvent) :
    clocks (events ++ [e]) = clocks events ++ e.clock.toList := by
  unfold clocks
  rw [List.filterMap_append]
  cases shown : e.clock <;> simp [shown]

/-- What the waits of a process since its exit say about each other. -/
structure WaitsInOrder (pid : UInt32) (events : List KernelEvent) : Prop where
  /-- A pending wakeup is one of the process. -/
  pending : ∀ wakeup, pendingWakeup pid (sinceExit pid events) = some wakeup →
    wakeup ∈ (sinceExit pid events).filterMap (wokenAt pid)
  /-- It came after all switch-ins and all charged wakeups. -/
  after : ∀ wakeup, pendingWakeup pid (sinceExit pid events) = some wakeup →
    ∀ wait ∈ waitsOf pid (sinceExit pid events),
      wait.wakeup < wakeup.1 ∧ wait.switched ≤ wakeup.2
  /-- Each wait is from a wakeup of the process to a later switch-in. -/
  waits : ∀ wait ∈ waitsOf pid (sinceExit pid events),
    (wait.wakeup, wait.woken) ∈ (sinceExit pid events).filterMap (wokenAt pid) ∧
      wait.woken ≤ wait.switched ∧ wait.switched ∈ clocks events
  ordered : (waitsOf pid (sinceExit pid events)).Pairwise fun earlier later =>
    earlier.wakeup < later.wakeup ∧ earlier.switched ≤ later.woken

/-- The entries of the maps for a process say what its history says. -/
structure QueueBooks (pid : UInt32) (events : List KernelEvent) (v : PidView) : Prop where
  order : WaitsInOrder pid events
  /-- A stamp of zero stands for none. -/
  queued : v.rqEnqueueTs.filter (fun stamp => 0 < stamp) =
    (pendingWakeup pid (sinceExit pid events)).map Prod.snd
  total : (v.rqWaitNs.getD 0).toNat = chargedNs (waitsOf pid (sinceExit pid events))

section Order

variable {pid : UInt32} {events : List KernelEvent} {e : KernelEvent}

/-- Waits in order are disjoint, and no longer than the time since any moment
before them. -/
theorem WaitsInOrder.chargedNs_le
    (order : WaitsInOrder pid events)
    {first last : ℕ}
    (begins : ∀ wakeup ∈ (sinceExit pid events).filterMap (wokenAt pid),
      first ≤ wakeup.2.toNat)
    (ends : ∀ now ∈ clocks events, now.toNat ≤ last) :
    chargedNs (waitsOf pid (sinceExit pid events)) ≤ last - first := by
  refine (Spans.sum_length_filter_le _ _).trans (Spans.sum_length_le ?_ ?_ ?_ ?_)
  · unfold Spans.Disjoint
    rw [List.pairwise_map]
    exact order.ordered.imp fun both => UInt64.le_iff_toNat_le.mp both.2
  · intro span member
    obtain ⟨wait, inside, rfl⟩ := List.mem_map.mp member
    exact UInt64.le_iff_toNat_le.mp (order.waits wait inside).2.1
  · intro span member
    obtain ⟨wait, inside, rfl⟩ := List.mem_map.mp member
    exact begins _ (order.waits wait inside).1
  · intro span member
    obtain ⟨wait, inside, rfl⟩ := List.mem_map.mp member
    exact ends _ (order.waits wait inside).2.2

/-- An event that does not end a process is added to its history. -/
theorem sinceExit_concat (alive : endsAt pid (e, events.length) = false) :
    sinceExit pid (events ++ [e]) = sinceExit pid events ++ [(e, events.length)] := by
  rw [sinceExit_snoc, alive]
  rfl

/-- The wakeups and times of a history stay in it. -/
theorem WaitsInOrder.grow
    (order : WaitsInOrder pid events)
    (alive : endsAt pid (e, events.length) = false) :
    (∀ wakeup ∈ (sinceExit pid events).filterMap (wokenAt pid),
      wakeup ∈ (sinceExit pid (events ++ [e])).filterMap (wokenAt pid)) ∧
    ∀ wait ∈ waitsOf pid (sinceExit pid events),
      (wait.wakeup, wait.woken) ∈
          (sinceExit pid (events ++ [e])).filterMap (wokenAt pid) ∧
        wait.woken ≤ wait.switched ∧ wait.switched ∈ clocks (events ++ [e]) := by
  have grown : ∀ wakeup ∈ (sinceExit pid events).filterMap (wokenAt pid),
      wakeup ∈ (sinceExit pid (events ++ [e])).filterMap (wokenAt pid) := by
    intro wakeup member
    rw [sinceExit_concat alive, List.filterMap_append]
    exact List.mem_append_left _ member
  refine ⟨grown, fun wait member => ?_⟩
  obtain ⟨woken, forward, switched⟩ := order.waits wait member
  refine ⟨grown _ woken, forward, ?_⟩
  rw [clocks_snoc]
  exact List.mem_append_left _ switched

/-- The books after an event that ends no wait. -/
theorem QueueBooks.of_sameWaits
    {v next : PidView}
    (books : QueueBooks pid events v)
    (alive : endsAt pid (e, events.length) = false)
    (sameWaits : waitsOf pid (sinceExit pid (events ++ [e])) =
      waitsOf pid (sinceExit pid events))
    (sameTotal : next.rqWaitNs.getD 0 = v.rqWaitNs.getD 0)
    (pending : ∀ wakeup, pendingWakeup pid (sinceExit pid (events ++ [e])) =
        some wakeup →
      wakeup ∈ (sinceExit pid (events ++ [e])).filterMap (wokenAt pid) ∧
        ∀ wait ∈ waitsOf pid (sinceExit pid events),
          wait.wakeup < wakeup.1 ∧ wait.switched ≤ wakeup.2)
    (queued : next.rqEnqueueTs.filter (fun stamp => 0 < stamp) =
      (pendingWakeup pid (sinceExit pid (events ++ [e]))).map Prod.snd) :
    QueueBooks pid (events ++ [e]) next where
  order :=
    { pending := fun wakeup waiting => (pending wakeup waiting).1
      after := by
        rw [sameWaits]
        exact fun wakeup waiting => (pending wakeup waiting).2
      waits := by
        rw [sameWaits]
        exact (books.order.grow alive).2
      ordered := by
        rw [sameWaits]
        exact books.order.ordered }
  queued := queued
  total := by
    rw [sameWaits, sameTotal]
    exact books.total

/-- An event that neither wakes the process nor switches it in changes nothing. -/
theorem QueueBooks.quiet
    {v next : PidView}
    (books : QueueBooks pid events v)
    (alive : endsAt pid (e, events.length) = false)
    (notSwitched : switchedAt pid (e, events.length) = none)
    (notWoken : wokenAt pid (e, events.length) = none)
    (sameQueued : next.rqEnqueueTs = v.rqEnqueueTs)
    (sameTotal : next.rqWaitNs.getD 0 = v.rqWaitNs.getD 0) :
    QueueBooks pid (events ++ [e]) next := by
  have samePending : pendingWakeup pid (sinceExit pid (events ++ [e])) =
      pendingWakeup pid (sinceExit pid events) := by
    rw [sinceExit_concat alive, pendingWakeup_snoc, notSwitched, notWoken]
    rfl
  have sameWaits : waitsOf pid (sinceExit pid (events ++ [e])) =
      waitsOf pid (sinceExit pid events) := by
    rw [sinceExit_concat alive, waitsOf_snoc, waitAt, notSwitched]
    exact List.append_nil _
  refine books.of_sameWaits alive sameWaits sameTotal ?_ ?_
  · rw [samePending]
    intro wakeup pending
    exact ⟨(books.order.grow alive).1 wakeup (books.order.pending wakeup pending),
      books.order.after wakeup pending⟩
  · rw [samePending, sameQueued]
    exact books.queued

/-- A wakeup becomes the pending one. -/
theorem QueueBooks.wakeup
    {v next : PidView}
    (books : QueueBooks pid events v)
    {now : UInt64}
    (later : 0 < now ∧ ∀ earlier ∈ clocks events, earlier ≤ now)
    (sameQueued : next.rqEnqueueTs = some now)
    (sameTotal : next.rqWaitNs = v.rqWaitNs) :
    QueueBooks pid (events ++ [.schedWakeup pid now]) next := by
  have alive : endsAt pid (.schedWakeup pid now, events.length) = false := rfl
  have woken : wokenAt pid (.schedWakeup pid now, events.length) =
      some (events.length, now) := if_pos rfl
  have pending : pendingWakeup pid (sinceExit pid (events ++ [.schedWakeup pid now])) =
      some (events.length, now) := by
    rw [sinceExit_concat alive, pendingWakeup_snoc, woken]
    rfl
  have sameWaits : waitsOf pid (sinceExit pid (events ++ [.schedWakeup pid now])) =
      waitsOf pid (sinceExit pid events) := by
    rw [sinceExit_concat alive, waitsOf_snoc]
    exact List.append_nil _
  refine books.of_sameWaits alive sameWaits (by rw [sameTotal]) ?_ ?_
  · rw [pending, sinceExit_concat alive, List.filterMap_append]
    rintro _ ⟨⟩
    refine ⟨List.mem_append_right _
      (List.mem_filterMap.mpr ⟨_, List.mem_cons_self, woken⟩), fun wait member => ?_⟩
    obtain ⟨own, -, switched⟩ := books.order.waits wait member
    exact ⟨(mem_wokenAt_sinceExit own).1, later.2 _ switched⟩
  · rw [pending, sameQueued]
    simp [later.1]

/-- A switch-in leaves no wakeup pending. -/
theorem pendingWakeup_switchIn
    (alive : endsAt pid (e, events.length) = false)
    {now : UInt64}
    (switched : switchedAt pid (e, events.length) = some now) :
    pendingWakeup pid (sinceExit pid (events ++ [e])) = none := by
  rw [sinceExit_concat alive, pendingWakeup_snoc, switched]
  rfl

/-- A switch-in without a pending wakeup ends no wait. -/
theorem QueueBooks.switchIn_idle
    {v next : PidView}
    (books : QueueBooks pid events v)
    (alive : endsAt pid (e, events.length) = false)
    {now : UInt64}
    (switched : switchedAt pid (e, events.length) = some now)
    (idle : pendingWakeup pid (sinceExit pid events) = none)
    (sameQueued : next.rqEnqueueTs = v.rqEnqueueTs)
    (sameTotal : next.rqWaitNs = v.rqWaitNs) :
    QueueBooks pid (events ++ [e]) next := by
  have pending := pendingWakeup_switchIn alive switched
  have sameWaits : waitsOf pid (sinceExit pid (events ++ [e])) =
      waitsOf pid (sinceExit pid events) := by
    rw [sinceExit_concat alive, waitsOf_snoc, waitAt, switched, idle]
    exact List.append_nil _
  refine books.of_sameWaits alive sameWaits (by rw [sameTotal]) ?_ ?_
  · rw [pending]
    rintro _ ⟨⟩
  · rw [pending, sameQueued, books.queued, idle]

/-- A switch-in with a pending wakeup ends a wait that began there. -/
theorem WaitsInOrder.switchIn
    (order : WaitsInOrder pid events)
    (alive : endsAt pid (e, events.length) = false)
    {now woken : UInt64} {position : Nat}
    (clock : e.clock = some now)
    (latest : ∀ earlier ∈ clocks events, earlier ≤ now)
    (switched : switchedAt pid (e, events.length) = some now)
    (waiting : pendingWakeup pid (sinceExit pid events) = some (position, woken)) :
    pendingWakeup pid (sinceExit pid (events ++ [e])) = none ∧
      waitsOf pid (sinceExit pid (events ++ [e])) =
        waitsOf pid (sinceExit pid events) ++ [⟨position, woken, now⟩] ∧
      WaitsInOrder pid (events ++ [e]) := by
  obtain ⟨grown, waits⟩ := order.grow alive
  have pending := pendingWakeup_switchIn alive switched
  have longer : waitsOf pid (sinceExit pid (events ++ [e])) =
      waitsOf pid (sinceExit pid events) ++ [⟨position, woken, now⟩] := by
    rw [sinceExit_concat alive, waitsOf_snoc, waitAt, switched, waiting]
    rfl
  have own := order.pending _ waiting
  refine ⟨pending, longer, ?_, ?_, ?_, ?_⟩
  · rw [pending]
    rintro _ ⟨⟩
  · rw [pending]
    rintro _ ⟨⟩
  · rw [longer]
    intro wait member
    rcases List.mem_append.mp member with old | new
    · exact waits wait old
    · cases List.mem_singleton.mp new
      refine ⟨grown _ own, latest _ (mem_wokenAt_sinceExit own).2, ?_⟩
      rw [clocks_snoc, clock]
      exact List.mem_append_right _ List.mem_cons_self
  · rw [longer]
    refine List.pairwise_append.mpr ⟨order.ordered, List.pairwise_singleton _ _, ?_⟩
    intro wait member later new
    cases List.mem_singleton.mp new
    exact order.after _ waiting wait member

/-- The wait is added to the counter, which stays below the clock. -/
theorem QueueBooks.switchIn
    {v next : PidView}
    (books : QueueBooks pid events v)
    (alive : endsAt pid (e, events.length) = false)
    {now woken : UInt64} {position : Nat}
    (clock : e.clock = some now)
    (latest : ∀ earlier ∈ clocks events, earlier ≤ now)
    (switched : switchedAt pid (e, events.length) = some now)
    (waiting : pendingWakeup pid (sinceExit pid events) = some (position, woken))
    (zeroed : next.rqEnqueueTs = some 0)
    (added : next.rqWaitNs =
      if now - woken < rqWaitLimitNs then plus v.rqWaitNs (now - woken)
      else v.rqWaitNs) :
    QueueBooks pid (events ++ [e]) next := by
  obtain ⟨order, queued, total⟩ := books
  obtain ⟨pending, longer, inOrder⟩ :=
    order.switchIn alive clock latest switched waiting
  have forward : woken ≤ now :=
    latest _ (mem_wokenAt_sinceExit (order.pending _ waiting)).2
  have wait : (now - woken).toNat = now.toNat - woken.toNat :=
    UInt64.toNat_sub_of_le now woken forward
  refine ⟨inOrder, ?_, ?_⟩
  · rw [pending, zeroed]
    rfl
  · have ends : ∀ time ∈ clocks (events ++ [e]), time.toNat ≤ now.toNat := by
      intro time member
      rw [clocks_snoc, clock] at member
      rcases List.mem_append.mp member with old | new
      · exact UInt64.le_iff_toNat_le.mp (latest time old)
      · rw [List.mem_singleton.mp new]
    have below := inOrder.chargedNs_le (fun _ _ => Nat.zero_le _) ends
    have small := now.toNat_lt
    rw [longer, chargedNs_append] at below ⊢
    rw [added]
    have single : chargedNs [⟨position, woken, now⟩] =
        if (now - woken).toNat < 10000000000 then (now - woken).toNat else 0 := by
      rw [wait]
      unfold chargedNs RqWait.span Spans.length
      by_cases short : now.toNat - woken.toNat < 10000000000
      · simp [short]
      · simp [short]
    have limit : now - woken < rqWaitLimitNs ↔ (now - woken).toNat < 10000000000 :=
      UInt64.lt_iff_toNat_lt
    rw [single] at below ⊢
    by_cases short : (now - woken).toNat < 10000000000
    · rw [if_pos short] at below ⊢
      rw [if_pos (limit.mpr short)]
      have sum : ((plus v.rqWaitNs (now - woken)).getD 0) =
          v.rqWaitNs.getD 0 + (now - woken) := by
        cases v.rqWaitNs with
        | none => exact (UInt64.zero_add _).symm
        | some old => rfl
      rw [sum, UInt64.toNat_add, total, Nat.mod_eq_of_lt (by omega)]
    · rw [if_neg short, Nat.add_zero, if_neg fun less => short (limit.mp less)]
      exact total

end Order

/-- A switch keeps the books, whether it brings the process in or not. -/
theorem QueueBooks.schedSwitch
    {pid : UInt32}
    {events : List KernelEvent}
    {v : PidView}
    (books : QueueBooks pid events v)
    (user : pid > 1)
    (ctx : SchedSwitchArgs)
    (now : UInt64)
    (cpu : UInt32)
    (latest : ∀ earlier ∈ clocks events, earlier ≤ now) :
    QueueBooks pid (events ++ [.schedSwitch ctx now cpu])
      (v.step pid (.schedSwitch ctx now cpu)) := by
  have notIdle : pid ≠ 0 := by
    rintro rfl
    exact absurd user (by decide)
  -- the count of voluntary switches does not touch the two entries
  obtain ⟨counted, split⟩ : ∃ counted : PidView,
      (counted.rqEnqueueTs = v.rqEnqueueTs ∧ counted.rqWaitNs = v.rqWaitNs) ∧
        v.step pid (.schedSwitch ctx now cpu) =
          if ctx.nextPid = pid ∧ pid ≠ 0 then counted.switchIn now else counted := by
    refine ⟨if ctx.prevPid = pid ∧ pid ≠ 0 ∧ ctx.prevState ≠ 0 then
      { v with volCtxSwitch := plus v.volCtxSwitch 1 } else v, ?_, rfl⟩
    split <;> exact ⟨rfl, rfl⟩
  obtain ⟨⟨sameQueued, sameTotal⟩, split⟩ := split
  rw [split]
  by_cases own : ctx.nextPid = pid
  · have switched : switchedAt pid (.schedSwitch ctx now cpu, events.length) =
        some now := if_pos own
    rw [if_pos ⟨own, notIdle⟩]
    have queued := books.queued
    rw [← sameQueued] at queued
    unfold PidView.switchIn
    cases waiting : pendingWakeup pid (sinceExit pid events) with
    | none =>
        rw [waiting] at queued
        have unchanged : ∀ stamp, counted.rqEnqueueTs = some stamp → ¬ stamp > 0 := by
          intro stamp found positive
          rw [found, Option.filter_some, if_pos (decide_eq_true positive)] at queued
          cases queued
        cases found : counted.rqEnqueueTs with
        | none => exact books.switchIn_idle rfl switched waiting sameQueued sameTotal
        | some stamp =>
            dsimp only
            rw [if_neg (unchanged stamp found)]
            exact books.switchIn_idle rfl switched waiting sameQueued sameTotal
    | some wakeup =>
        obtain ⟨position, woken⟩ := wakeup
        rw [waiting] at queued
        obtain ⟨found, positive⟩ := Option.filter_eq_some_iff.mp queued
        rw [found]
        dsimp only
        rw [if_pos (of_decide_eq_true positive)]
        exact books.switchIn rfl rfl latest switched waiting rfl (by rw [sameTotal])
  · have notSwitched : switchedAt pid (.schedSwitch ctx now cpu, events.length) =
        none := if_neg own
    rw [if_neg fun both => own both.1]
    exact books.quiet rfl notSwitched rfl sameQueued (by rw [sameTotal])

end Schedmon
