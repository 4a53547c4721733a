import Mathlib.Algebra.BigOperators.Ring.Finset
import Mathlib.Data.UInt
import Schedmon.Bpf.Tracer
import Schedmon.Library.SharedCounter
import Schedmon.Library.Transition

/-!
# Completions on several CPUs

`handle_block_rq_complete` and `ebpf_tracer_register_pid`, one operation on the
maps at a time.  A lookup answers a pointer into the element that holds the
value; an update that overwrites puts the value in another element.
-/

namespace Schedmon

open Library SharedCounter Transition
open scoped UInt64.CommRing

/-! ## The maps -/

/-- A map of counters, and the element that the value of each key lies in. -/
structure CounterMap where
  entries : BoundedMap none UInt32 UInt64
  element : UInt32 → ℕ

namespace CounterMap

variable (m : CounterMap) (pid : UInt32)

/-- `bpf_map_lookup_elem`. -/
def find : Option ℕ := (m.entries.lookup pid).map fun _ => m.element pid

/-- `__atomic_fetch_add` on the value in an element.  In an element that is no
longer the key's it changes nothing here. -/
def add (element : ℕ) (amount : UInt64) : CounterMap :=
  if m.element pid = element then
    match m.entries.lookup pid with
    | some value => { m with entries := m.entries.update pid (value + amount) .any }
    | none => m
  else m

/-- `bpf_map_update_elem` with `BPF_ANY`, which never reuses the element that
is in use. -/
def store (value : UInt64) (choice : ℕ) : CounterMap where
  entries := m.entries.update pid value .any
  element := Function.update m.element pid
    (if choice = m.element pid then choice + 1 else choice)

/-- `bpf_map_update_elem` with `BPF_NOEXIST`, of a zero. -/
def create (choice : ℕ) : CounterMap where
  entries := m.entries.update pid 0 .noExist
  element :=
    if (m.entries.lookup pid).isSome then m.element
    else Function.update m.element pid choice

/-- The entry of one key. -/
def cell : Cell UInt64 := ⟨m.element pid, m.entries.lookup pid⟩

end CounterMap

/-- The maps that the two functions use. -/
structure SharedMaps where
  bioInflight : BoundedMap none UInt64 BioInfo
  activePids : BoundedMap none UInt32 UInt32
  ioCounts : CounterMap
  ioWaitNs : CounterMap
  rqWaitNs : BoundedMap none UInt32 UInt64

/-- The maps as the functions find them. -/
def BpfMaps.shared (s : BpfMaps .unlimited) : SharedMaps where
  bioInflight := s.bioInflight
  activePids := s.activePids
  ioCounts := ⟨s.ioCounts, fun _ => 0⟩
  ioWaitNs := ⟨s.ioWaitNs, fun _ => 0⟩
  rqWaitNs := s.rqWaitNs

/-- The maps as the functions leave them. -/
def BpfMaps.withShared (s : BpfMaps .unlimited) (m : SharedMaps) : BpfMaps .unlimited :=
  { s with
    bioInflight := m.bioInflight
    activePids := m.activePids
    ioCounts := m.ioCounts.entries
    ioWaitNs := m.ioWaitNs.entries
    rqWaitNs := m.rqWaitNs }

/-! ## The functions, one operation at a time -/

/-- The operation that an invocation does next, with the local variables that it
still needs. -/
inductive Invocation
  | lookupInflight (rqPtr now : UInt64)
  | deleteInflight (rqPtr now : UInt64) (info : BioInfo)
  | lookupActive (now : UInt64) (info : BioInfo)
  | lookupCounts (now : UInt64) (info : BioInfo)
  | bumpCounts (now : UInt64) (info : BioInfo) (cnt : Option ℕ)
  | lookupWaits (pid : UInt32) (wait : UInt64)
  | bumpWaits (pid : UInt32) (wait : UInt64) (acc : Option ℕ)
  | registerActive (pid : UInt32)
  | registerCounts (pid : UInt32)
  | registerWaits (pid : UInt32)
  | registerRqWaits (pid : UInt32)
  | finished
  deriving DecidableEq

/-- The wait that is counted for a request, if it is. -/
def countedWait (issueTs now : UInt64) : Option UInt64 :=
  if issueTs > 0 then
    if now - issueTs < ioWaitLimitNs then some (now - issueTs) else none
  else none

/-- A bump through the pointer that was found, or an insertion. -/
def CounterMap.bump (m : CounterMap) (pid : UInt32) (found : Option ℕ)
    (amount : UInt64) (choice : ℕ) : CounterMap :=
  match found with
  | some element => m.add pid element amount
  | none => m.store pid amount choice

/-- One operation, and the choice of an element where it needs one. -/
def Invocation.step (choice : ℕ) (m : SharedMaps) :
    Invocation → Invocation × SharedMaps
  | .lookupInflight rqPtr now =>
      match m.bioInflight.lookup rqPtr with
      | none => (.finished, m)
      | some info => (.deleteInflight rqPtr now info, m)
  | .deleteInflight rqPtr now info =>
      (.lookupActive now info, { m with bioInflight := m.bioInflight.delete rqPtr })
  | .lookupActive now info =>
      match m.activePids.lookup info.pid with
      | none => (.finished, m)
      | some _ => (.lookupCounts now info, m)
  | .lookupCounts now info => (.bumpCounts now info (m.ioCounts.find info.pid), m)
  | .bumpCounts now info cnt =>
      (match countedWait info.issueTs now with
        | some wait => .lookupWaits info.pid wait
        | none => .finished,
        { m with ioCounts := m.ioCounts.bump info.pid cnt 1 choice })
  | .lookupWaits pid wait => (.bumpWaits pid wait (m.ioWaitNs.find pid), m)
  | .bumpWaits pid wait acc =>
      (.finished, { m with ioWaitNs := m.ioWaitNs.bump pid acc wait choice })
  | .registerActive pid =>
      (.registerCounts pid, { m with activePids := m.activePids.update pid 1 .any })
  | .registerCounts pid =>
      (.registerWaits pid, { m with ioCounts := m.ioCounts.create pid choice })
  | .registerWaits pid =>
      (.registerRqWaits pid, { m with ioWaitNs := m.ioWaitNs.create pid choice })
  | .registerRqWaits pid =>
      (.finished, { m with rqWaitNs := m.rqWaitNs.update pid 0 .noExist })
  | .finished => (.finished, m)

/-- Some operations of an invocation that runs by itself. -/
def Invocation.alone (invocation : Invocation) (m : SharedMaps) :
    ℕ → Invocation × SharedMaps
  | 0 => (invocation, m)
  | count + 1 =>
      let result := invocation.step 0 m
      alone result.1 result.2 count

/-- A lookup and a bump without interruption add to the counter. -/
theorem CounterMap.bump_find
    (m : CounterMap)
    (pid : UInt32)
    (amount : UInt64)
    (choice : ℕ) :
    (m.bump pid (m.find pid) amount choice).entries = m.entries.addTo pid amount := by
  unfold bump find BoundedMap.addTo
  cases there : m.entries.lookup pid with
  | none => rfl
  | some value => simp [add, there]

section Alone

variable (s : BpfMaps .unlimited)

theorem chargeRequest_eq_countedWait
    {info : BioInfo}
    {value : UInt32}
    (active : s.activePids.lookup info.pid = some value)
    (now : UInt64) :
    chargeRequest s info now =
      { s with
        ioCounts := s.ioCounts.addTo info.pid 1
        ioWaitNs :=
          match countedWait info.issueTs now with
          | some wait => s.ioWaitNs.addTo info.pid wait
          | none => s.ioWaitNs } := by
  unfold chargeRequest countedWait
  rw [active]
  dsimp only
  by_cases stamped : info.issueTs > 0
  · by_cases short : now - info.issueTs < ioWaitLimitNs
    · simp only [stamped, short, if_true]
    · simp only [stamped, short, if_true, if_false]
  · simp only [stamped, if_false]

/-- Run by itself, the invocation is the handler. -/
theorem alone_handleBlockRqComplete (rqPtr now : UInt64) :
    ∃ m, (Invocation.lookupInflight rqPtr now).alone s.shared 7 = (.finished, m) ∧
      s.withShared m = handleBlockRqComplete s rqPtr now := by
  cases inflight : s.bioInflight.lookup rqPtr with
  | none =>
      refine ⟨s.shared, ?_, ?_⟩
      · simp [Invocation.alone, Invocation.step, BpfMaps.shared, inflight]
      · simp [handleBlockRqComplete, BpfMaps.withShared, BpfMaps.shared, inflight]
  | some info =>
      cases active : s.activePids.lookup info.pid with
      | none =>
          refine ⟨{ s.shared with bioInflight := s.bioInflight.delete rqPtr }, ?_, ?_⟩
          · simp [Invocation.alone, Invocation.step, BpfMaps.shared, inflight, active]
          · simp [handleBlockRqComplete, chargeRequest, BpfMaps.withShared,
              BpfMaps.shared, inflight, active]
      | some value =>
          have charged := chargeRequest_eq_countedWait
            { s with bioInflight := s.bioInflight.delete rqPtr } active now
          simp only [handleBlockRqComplete, inflight, charged]
          cases counted : countedWait info.issueTs now with
          | none =>
              refine ⟨{ s.shared with
                bioInflight := s.bioInflight.delete rqPtr
                ioCounts := s.shared.ioCounts.bump info.pid
                  (s.shared.ioCounts.find info.pid) 1 0 }, ?_, ?_⟩
              · simp [Invocation.alone, Invocation.step, BpfMaps.shared, inflight, active,
                  counted]
              · simp only [BpfMaps.withShared, CounterMap.bump_find]
                rfl
          | some wait =>
              refine ⟨{ s.shared with
                bioInflight := s.bioInflight.delete rqPtr
                ioCounts := s.shared.ioCounts.bump info.pid
                  (s.shared.ioCounts.find info.pid) 1 0
                ioWaitNs := s.shared.ioWaitNs.bump info.pid
                  (s.shared.ioWaitNs.find info.pid) wait 0 }, ?_, ?_⟩
              · simp [Invocation.alone, Invocation.step, BpfMaps.shared, inflight, active,
                  counted]
              · simp only [BpfMaps.withShared, CounterMap.bump_find]
                rfl

/-- Run by itself, the other invocation registers the pid. -/
theorem alone_registerPid (pid : UInt32) :
    ∃ m, (Invocation.registerActive pid).alone s.shared 4 = (.finished, m) ∧
      s.withShared m = registerPid s pid :=
  ⟨_, rfl, rfl⟩

end Alone

/-! ## Any number of invocations -/

/-- What an invocation of one of the two functions is called for. -/
inductive Caller
  /-- `handle_block_rq_complete` for a request that was issued at a time. -/
  | completion (rqPtr now issueTs : UInt64)
  /-- `ebpf_tracer_register_pid`. -/
  | register
  deriving DecidableEq

namespace Caller

/-- The first operation. -/
def start (pid : UInt32) : Caller → Invocation
  | .completion rqPtr now _ => .lookupInflight rqPtr now
  | .register => .registerActive pid

/-- What is to be added to `io_counts`. -/
def count : Caller → UInt64
  | .completion _ _ _ => 1
  | .register => 0

/-- The wait that is to be counted, if one is. -/
def wait? : Caller → Option UInt64
  | .completion _ now issueTs => countedWait issueTs now
  | .register => none

/-- What is to be added to `io_wait_ns`. -/
def wait (caller : Caller) : UInt64 := caller.wait?.getD 0

end Caller

/-- The maps, and where each invocation stands. -/
structure Running (ι : Type) where
  shared : SharedMaps
  invocations : ι → Invocation

section Running

variable {ι : Type}

/-- All invocations are called at once. -/
def Running.start (pid : UInt32) (s : BpfMaps .unlimited) (callers : ι → Caller) :
    Running ι where
  shared := s.shared
  invocations := fun i => (callers i).start pid

/-- The CPU of one invocation does its next operation. -/
def Running.step [DecidableEq ι] : ι × ℕ → Running ι → Option (Running ι)
  | (i, choice), r =>
      if r.invocations i = .finished then none
      else
        let result := (r.invocations i).step choice r.shared
        some ⟨result.2, Function.update r.invocations i result.1⟩

/-- All invocations have returned. -/
def Running.Done (r : Running ι) : Prop := ∀ i, r.invocations i = .finished

/-- The requests are in flight, different, and of an active pid. -/
structure Requests (pid : UInt32) (s : BpfMaps .unlimited) (callers : ι → Caller) :
    Prop where
  active : (s.activePids.lookup pid).isSome
  inflight : ∀ i rqPtr now issueTs, callers i = .completion rqPtr now issueTs →
    s.bioInflight.lookup rqPtr = some ⟨issueTs, pid⟩
  distinct : ∀ i j rqPtr now issueTs later issued,
    callers i = .completion rqPtr now issueTs →
      callers j = .completion rqPtr later issued → i = j

/-- Where an invocation can stand, by what it was called for. -/
def Caller.Stands (pid : UInt32) (m : SharedMaps) (caller : Caller) : Invocation → Prop
  | .lookupInflight rqPtr now => ∃ issueTs, caller = .completion rqPtr now issueTs ∧
      m.bioInflight.lookup rqPtr = some ⟨issueTs, pid⟩
  | .deleteInflight rqPtr now info =>
      caller = .completion rqPtr now info.issueTs ∧ info.pid = pid
  | .lookupActive now info | .lookupCounts now info | .bumpCounts now info _ =>
      ∃ rqPtr, caller = .completion rqPtr now info.issueTs ∧ info.pid = pid
  | .lookupWaits other wait | .bumpWaits other wait _ =>
      other = pid ∧ caller.wait? = some wait
  | .registerActive other | .registerCounts other | .registerWaits other
  | .registerRqWaits other => other = pid ∧ caller = .register
  | .finished => True

/-- Where an invocation stands that has looked its counter up. -/
def foundPhase : Option ℕ → Phase
  | some element => .found element
  | none => .missing

/-- Where an invocation stands with `io_counts`. -/
def countsPhase : Invocation → Phase
  | .lookupInflight _ _ | .deleteInflight _ _ _ | .lookupActive _ _
  | .lookupCounts _ _ => .before
  | .bumpCounts _ _ cnt => foundPhase cnt
  | _ => .after

/-- Where an invocation stands with `io_wait_ns`. -/
def waitsPhase (caller : Caller) (invocation : Invocation) : Phase :=
  if caller.wait?.isSome then
    match invocation with
    | .lookupInflight _ _ | .deleteInflight _ _ _ | .lookupActive _ _
    | .lookupCounts _ _ | .bumpCounts _ _ _ | .lookupWaits _ _ => .before
    | .bumpWaits _ _ acc => foundPhase acc
    | _ => .after
  else .after

/-- The additions to `io_counts` of a pid. -/
def Running.counts (pid : UInt32) (r : Running ι) : Counting ι UInt64 where
  cell := r.shared.ioCounts.cell pid
  phase := fun i => countsPhase (r.invocations i)

/-- The additions to `io_wait_ns` of a pid. -/
def Running.waits (pid : UInt32) (callers : ι → Caller) (r : Running ι) :
    Counting ι UInt64 where
  cell := r.shared.ioWaitNs.cell pid
  phase := fun i => waitsPhase (callers i) (r.invocations i)

end Running

/-! ## Each operation is a move at each counter -/

namespace CounterMap

variable (m : CounterMap) (pid : UInt32)

theorem foundPhase_find : foundPhase (m.find pid) = (m.cell pid).look := by
  unfold find cell Cell.look foundPhase
  cases m.entries.lookup pid <;> rfl

theorem bump_move (found : Option ℕ) (amount : UInt64) (choice : ℕ) :
    Move amount (m.cell pid) (foundPhase found)
      ((m.bump pid found amount choice).cell pid) .after := by
  cases found with
  | some element =>
      have added : (m.bump pid (some element) amount choice).cell pid =
          (m.cell pid).addAt element amount := by
        unfold bump add cell Cell.addAt
        by_cases same : m.element pid = element
        · cases there : m.entries.lookup pid <;> simp [same, there]
        · simp [same]
      rw [added]
      exact .add _ element
  | none =>
      have stored : (m.bump pid none amount choice).cell pid =
          ⟨(m.store pid amount choice).element pid, some amount⟩ := by
        simp [bump, store, cell]
      rw [stored]
      exact .store _ _

theorem create_move (amount : UInt64) (phase : Phase) (choice : ℕ) :
    Move amount (m.cell pid) phase ((m.create pid choice).cell pid) phase := by
  cases there : m.entries.lookup pid with
  | some value =>
      have same : (m.create pid choice).cell pid = m.cell pid := by
        simp [create, cell, there]
      rw [same]
      exact .other _ _
  | none =>
      have created : (m.create pid choice).cell pid = ⟨choice, some 0⟩ := by
        simp [create, cell, there]
      rw [created]
      exact .create _ _ choice there

end CounterMap

/-- Two counters, and an operation that moves at each. -/
structure Moves (pid : UInt32) (caller : Caller) (m : SharedMaps)
    (invocation : Invocation) (result : Invocation × SharedMaps) : Prop where
  stands : caller.Stands pid result.2 result.1
  active : (result.2.activePids.lookup pid).isSome
  counts : Move caller.count (m.ioCounts.cell pid) (countsPhase invocation)
    (result.2.ioCounts.cell pid) (countsPhase result.1)
  waits : Move caller.wait (m.ioWaitNs.cell pid) (waitsPhase caller invocation)
    (result.2.ioWaitNs.cell pid) (waitsPhase caller result.1)

theorem waitsPhase_of_none
    {caller : Caller}
    (uncounted : caller.wait? = none)
    (invocation : Invocation) :
    waitsPhase caller invocation = .after := by
  unfold waitsPhase
  rw [uncounted]
  rfl

theorem waitsPhase_of_some
    {caller : Caller}
    {wait : UInt64}
    (counted : caller.wait? = some wait)
    (invocation : Invocation) :
    waitsPhase caller invocation =
      match invocation with
      | .lookupInflight _ _ | .deleteInflight _ _ _ | .lookupActive _ _
      | .lookupCounts _ _ | .bumpCounts _ _ _ | .lookupWaits _ _ => .before
      | .bumpWaits _ _ acc => foundPhase acc
      | _ => .after := by
  unfold waitsPhase
  rw [counted]
  rfl

theorem Caller.Stands.moves
    {pid : UInt32}
    {caller : Caller}
    {m : SharedMaps}
    {invocation : Invocation}
    (stands : caller.Stands pid m invocation)
    (active : (m.activePids.lookup pid).isSome)
    (choice : ℕ) :
    Moves pid caller m invocation (invocation.step choice m) := by
  cases invocation with
  | lookupInflight rqPtr now =>
      obtain ⟨issueTs, called, found⟩ := stands
      simp only [Invocation.step, found]
      exact ⟨⟨called, rfl⟩, active, .other _ _, .other _ _⟩
  | deleteInflight rqPtr now info =>
      exact ⟨⟨rqPtr, stands⟩, active, .other _ _, .other _ _⟩
  | lookupActive now info =>
      obtain ⟨rqPtr, called, rfl⟩ := stands
      obtain ⟨value, there⟩ := Option.isSome_iff_exists.mp active
      simp only [Invocation.step, there]
      exact ⟨⟨rqPtr, called, rfl⟩, active, .other _ _, .other _ _⟩
  | lookupCounts now info =>
      obtain ⟨rqPtr, called, rfl⟩ := stands
      refine ⟨⟨rqPtr, called, rfl⟩, active, ?_, .other _ _⟩
      change Move _ _ .before _ (foundPhase (m.ioCounts.find info.pid))
      rw [CounterMap.foundPhase_find]
      exact .look _
  | bumpCounts now info cnt =>
      obtain ⟨rqPtr, rfl, rfl⟩ := stands
      have bumped := m.ioCounts.bump_move info.pid cnt 1 choice
      simp only [Invocation.step]
      cases counted : countedWait info.issueTs now with
      | none =>
          have uncounted : (Caller.completion rqPtr now info.issueTs).wait? = none :=
            counted
          refine ⟨trivial, active, bumped, ?_⟩
          rw [waitsPhase_of_none uncounted, waitsPhase_of_none uncounted]
          exact .other _ _
      | some wait => exact ⟨⟨rfl, counted⟩, active, bumped, .other _ _⟩
  | lookupWaits other wait =>
      obtain ⟨rfl, counted⟩ := stands
      refine ⟨⟨rfl, counted⟩, active, .other _ _, ?_⟩
      rw [waitsPhase_of_some counted, waitsPhase_of_some counted]
      change Move _ _ .before _ (foundPhase (m.ioWaitNs.find other))
      rw [CounterMap.foundPhase_find]
      exact .look _
  | bumpWaits other wait acc =>
      obtain ⟨rfl, counted⟩ := stands
      have amount : caller.wait = wait := by
        unfold Caller.wait
        rw [counted]
        rfl
      refine ⟨trivial, active, .other _ _, ?_⟩
      rw [waitsPhase_of_some counted, waitsPhase_of_some counted, amount]
      exact m.ioWaitNs.bump_move other acc wait choice
  | registerActive other =>
      obtain ⟨rfl, rfl⟩ := stands
      exact ⟨⟨rfl, rfl⟩, by simp [Invocation.step], .other _ _, .other _ _⟩
  | registerCounts other =>
      obtain ⟨rfl, rfl⟩ := stands
      exact ⟨⟨rfl, rfl⟩, active, m.ioCounts.create_move other _ _ choice, .other _ _⟩
  | registerWaits other =>
      obtain ⟨rfl, rfl⟩ := stands
      exact ⟨⟨rfl, rfl⟩, active, .other _ _, m.ioWaitNs.create_move other _ _ choice⟩
  | registerRqWaits other => exact ⟨trivial, active, .other _ _, .other _ _⟩
  | finished => exact ⟨trivial, active, .other _ _, .other _ _⟩

/-- An operation takes no request but its own out of flight. -/
theorem Invocation.step_bioInflight
    (choice : ℕ)
    (m : SharedMaps)
    (invocation : Invocation) :
    (invocation.step choice m).2.bioInflight = m.bioInflight ∨
      ∃ rqPtr now info, invocation = .deleteInflight rqPtr now info ∧
        (invocation.step choice m).2.bioInflight = m.bioInflight.delete rqPtr := by
  cases invocation with
  | deleteInflight rqPtr now info => exact .inr ⟨rqPtr, now, info, rfl, rfl⟩
  | lookupInflight rqPtr now =>
      left
      simp only [step]
      split <;> rfl
  | lookupActive now info =>
      left
      simp only [step]
      split <;> rfl
  | _ => exact .inl rfl

section Running

variable {ι : Type} {pid : UInt32} {callers : ι → Caller}

/-- Every invocation stands where it can, and the pid is active. -/
structure Underway (pid : UInt32) (callers : ι → Caller) (r : Running ι) : Prop where
  stands : ∀ i, (callers i).Stands pid r.shared (r.invocations i)
  active : (r.shared.activePids.lookup pid).isSome

theorem Underway.start
    {s : BpfMaps .unlimited}
    (requests : Requests pid s callers) :
    Underway pid callers (.start pid s callers) where
  stands := by
    intro i
    change (callers i).Stands pid s.shared ((callers i).start pid)
    cases called : callers i with
    | completion rqPtr now issueTs =>
        exact ⟨issueTs, rfl, requests.inflight i rqPtr now issueTs called⟩
    | register => exact ⟨rfl, rfl⟩
  active := requests.active

section Update

variable [DecidableEq ι] {r next : Running ι} {i : ι} {invocation : Invocation}

theorem Running.counts_of_update
    (pid : UInt32)
    (moved : next.invocations = Function.update r.invocations i invocation) :
    next.counts pid =
      ⟨next.shared.ioCounts.cell pid,
        Function.update (r.counts pid).phase i (countsPhase invocation)⟩ := by
  unfold counts
  rw [moved]
  congr 1
  exact funext fun j => Function.apply_update (fun _ => countsPhase) _ _ _ j

theorem Running.waits_of_update
    (pid : UInt32)
    (callers : ι → Caller)
    (moved : next.invocations = Function.update r.invocations i invocation) :
    next.waits pid callers =
      ⟨next.shared.ioWaitNs.cell pid,
        Function.update (r.waits pid callers).phase i
          (waitsPhase (callers i) invocation)⟩ := by
  unfold waits
  rw [moved]
  congr 1
  exact funext fun j => Function.apply_update (fun j => waitsPhase (callers j)) _ _ _ j

end Update

/-- One operation of the system is a move at each counter. -/
theorem Underway.step
    [DecidableEq ι]
    {s : BpfMaps .unlimited}
    (requests : Requests pid s callers)
    {r next : Running ι}
    (underway : Underway pid callers r)
    {action : ι × ℕ}
    (taken : Running.step action r = some next) :
    Underway pid callers next ∧
      Step (fun i => (callers i).count) (r.counts pid) (next.counts pid) ∧
      Step (fun i => (callers i).wait) (r.waits pid callers) (next.waits pid callers) := by
  obtain ⟨i, choice⟩ := action
  simp only [Running.step] at taken
  split at taken
  · cases taken
  · cases taken
    have moves := (underway.stands i).moves underway.active choice
    have frame := (r.invocations i).step_bioInflight choice r.shared
    generalize (r.invocations i).step choice r.shared = result at moves frame ⊢
    refine ⟨⟨?_, moves.active⟩, ?_, ?_⟩
    · refine (Function.forall_update_iff r.invocations fun j invocation =>
        (callers j).Stands pid result.2 invocation).mpr ⟨moves.stands, ?_⟩
      intro j different
      have stands := underway.stands j
      cases stood : r.invocations j with
      | lookupInflight rqPtr now =>
          rw [stood] at stands
          obtain ⟨issueTs, called, found⟩ := stands
          refine ⟨issueTs, called, ?_⟩
          rcases frame with same | ⟨deleted, later, info, here, gone⟩
          · rw [same, found]
          · rw [gone, BoundedMap.lookup_delete, if_neg ?_, found]
            rintro rfl
            have mine := underway.stands i
            rw [here] at mine
            exact different (requests.distinct j i _ _ _ _ _ called mine.1)
      | _ =>
          rw [stood] at stands
          exact stands
    · have after : Running.counts pid
          ⟨result.2, Function.update r.invocations i result.1⟩ = _ :=
        Running.counts_of_update pid rfl
      rw [after]
      exact Step.of_move rfl moves.counts
    · have after : Running.waits pid callers
          ⟨result.2, Function.update r.invocations i result.1⟩ = _ :=
        Running.waits_of_update pid callers rfl
      rw [after]
      exact Step.of_move rfl moves.waits

/-- A run of the system is a run at each counter. -/
theorem Underway.run
    [DecidableEq ι]
    {s : BpfMaps .unlimited}
    (requests : Requests pid s callers)
    {r final : Running ι}
    (underway : Underway pid callers r)
    {actions : List (ι × ℕ)}
    (run : runActions Running.step actions r = some final) :
    Underway pid callers final ∧
      Relation.ReflTransGen (Step fun i => (callers i).count) (r.counts pid)
        (final.counts pid) ∧
      Relation.ReflTransGen (Step fun i => (callers i).wait) (r.waits pid callers)
        (final.waits pid callers) := by
  refine runActions_invariant (fun t => Underway pid callers t ∧
      Relation.ReflTransGen (Step fun i => (callers i).count) (r.counts pid)
        (t.counts pid) ∧
      Relation.ReflTransGen (Step fun i => (callers i).wait) (r.waits pid callers)
        (t.waits pid callers)) ?_ ⟨underway, .refl, .refl⟩ run
  rintro action t next ⟨now, counts, waits⟩ taken
  obtain ⟨later, countStep, waitStep⟩ := now.step requests taken
  exact ⟨later, counts.tail countStep, waits.tail waitStep⟩

theorem Running.Done.counts_after
    {r : Running ι}
    (done : r.Done)
    (i : ι) :
    (r.counts pid).phase i = .after := by
  change countsPhase (r.invocations i) = .after
  rw [done i]
  rfl

theorem Running.Done.waits_after
    {r : Running ι}
    (done : r.Done)
    (i : ι) :
    (r.waits pid callers).phase i = .after := by
  change waitsPhase (callers i) (r.invocations i) = .after
  rw [done i]
  unfold waitsPhase
  split <;> rfl

/-! ## Before the first operation -/

section Start

variable (pid : UInt32) (s : BpfMaps .unlimited) (callers : ι → Caller) (i : ι)

theorem start_countsPhase :
    countsPhase ((callers i).start pid) =
      if callers i = .register then .after else .before := by
  cases callers i <;> rfl

theorem start_waitsPhase :
    waitsPhase (callers i) ((callers i).start pid) =
      if (callers i).wait?.isSome then .before else .after := by
  cases callers i <;> rfl

theorem start_counts_idle : Idle ((Running.start pid s callers).counts pid) := by
  intro i
  change countsPhase ((callers i).start pid) = _ ∨ countsPhase ((callers i).start pid) = _
  rw [start_countsPhase]
  split
  · exact .inr rfl
  · exact .inl rfl

theorem start_waits_idle : Idle ((Running.start pid s callers).waits pid callers) := by
  intro i
  change waitsPhase (callers i) ((callers i).start pid) = _ ∨
    waitsPhase (callers i) ((callers i).start pid) = _
  rw [start_waitsPhase]
  split
  · exact .inl rfl
  · exact .inr rfl

variable {pid s callers i} in
theorem start_invocation
    {rqPtr now issueTs : UInt64}
    (called : callers i = .completion rqPtr now issueTs) :
    (Running.start pid s callers).invocations i = .lookupInflight rqPtr now := by
  change (callers i).start pid = _
  rw [called]
  rfl

variable {pid s callers i} in
theorem start_counts_before (completes : callers i ≠ .register) :
    ((Running.start pid s callers).counts pid).phase i = .before := by
  change countsPhase ((callers i).start pid) = _
  rw [start_countsPhase, if_neg completes]

variable {pid s callers i} in
theorem start_waits_before (counted : (callers i).wait?.isSome) :
    ((Running.start pid s callers).waits pid callers).phase i = .before := by
  change waitsPhase (callers i) ((callers i).start pid) = _
  rw [start_waitsPhase, if_pos counted]

theorem start_counts_owed :
    ((Running.start pid s callers).counts pid).owed (fun i => (callers i).count) i =
      (callers i).count := by
  change (countsPhase ((callers i).start pid)).owes (callers i).count = _
  cases callers i <;> rfl

theorem start_waits_owed :
    ((Running.start pid s callers).waits pid callers).owed
        (fun i => (callers i).wait) i = (callers i).wait := by
  change (waitsPhase (callers i) ((callers i).start pid)).owes (callers i).wait = _
  rw [start_waitsPhase]
  unfold Caller.wait
  cases (callers i).wait? <;> rfl

variable [Fintype ι]

theorem start_counts_total :
    ((Running.start pid s callers).counts pid).total (fun i => (callers i).count) =
      (s.ioCounts.lookup pid).getD 0 + ∑ i, (callers i).count := by
  unfold Counting.total
  simp only [start_counts_owed]
  rfl

theorem start_waits_total :
    ((Running.start pid s callers).waits pid callers).total
        (fun i => (callers i).wait) =
      (s.ioWaitNs.lookup pid).getD 0 + ∑ i, (callers i).wait := by
  unfold Counting.total
  simp only [start_waits_owed]
  rfl

/-- The callers that complete a request, as a number. -/
theorem sum_count :
    ∑ i, (callers i).count =
      ((Finset.univ.filter fun i => callers i ≠ .register).card : UInt64) := by
  rw [← Finset.sum_boole]
  apply Finset.sum_congr rfl
  intro i _
  cases callers i <;> rfl

end Start

/-! ## Every invocation returns -/

/-- How many operations an invocation has before it at most. -/
def Invocation.remaining : Invocation → ℕ
  | .lookupInflight _ _ => 7
  | .deleteInflight _ _ _ => 6
  | .lookupActive _ _ => 5
  | .lookupCounts _ _ => 4
  | .bumpCounts _ _ _ => 3
  | .lookupWaits _ _ => 2
  | .bumpWaits _ _ _ => 1
  | .registerActive _ => 4
  | .registerCounts _ => 3
  | .registerWaits _ => 2
  | .registerRqWaits _ => 1
  | .finished => 0

theorem Invocation.remaining_step
    (choice : ℕ)
    (m : SharedMaps)
    {invocation : Invocation}
    (unfinished : invocation ≠ .finished) :
    (invocation.step choice m).1.remaining < invocation.remaining := by
  cases invocation with
  | finished => exact absurd rfl unfinished
  | lookupInflight rqPtr now =>
      simp only [step]
      split <;> simp [remaining]
  | lookupActive now info =>
      simp only [step]
      split <;> simp [remaining]
  | bumpCounts now info cnt =>
      simp only [step]
      split <;> simp [remaining]
  | _ => exact Nat.lt_succ_self _

variable [DecidableEq ι]

/-- Some order of operations brings every invocation to its end. -/
theorem Running.finishes [Fintype ι] (r : Running ι) :
    ∃ actions final, runActions Running.step actions r = some final ∧ final.Done := by
  generalize bound : ∑ i, (r.invocations i).remaining = count
  induction count using Nat.strong_induction_on generalizing r with
  | _ count inductionHypothesis =>
      by_cases done : r.Done
      · exact ⟨[], r, rfl, done⟩
      · obtain ⟨i, unfinished⟩ := not_forall.mp done
        have less := (r.invocations i).remaining_step 0 r.shared unfinished
        have fewer : ∑ j, (Function.update r.invocations i
            ((r.invocations i).step 0 r.shared).1 j).remaining < count := by
          rw [← bound]
          apply Finset.sum_lt_sum
          · intro j _
            by_cases same : j = i
            · subst same
              rw [Function.update_self]
              exact less.le
            · rw [Function.update_of_ne same]
          · refine ⟨i, Finset.mem_univ i, ?_⟩
            rw [Function.update_self]
            exact less
        obtain ⟨actions, final, run, finished⟩ := inductionHypothesis _ fewer
          ⟨((r.invocations i).step 0 r.shared).2, _⟩ rfl
        refine ⟨(i, 0) :: actions, final, ?_, finished⟩
        rw [runActions_cons]
        simp only [Running.step, unfinished, if_false, Option.bind_some]
        exact run

/-! ## Enough -/

section Enough

variable
    [Fintype ι]
    {s : BpfMaps .unlimited}
    (requests : Requests pid s callers)
    {actions : List (ι × ℕ)}
    {final : Running ι}
    (run : runActions Running.step actions (.start pid s callers) = some final)
    (done : final.Done)

include requests run done

/-- No completion is lost where the counter is there, or one request at most
completes. -/
theorem counts_exact
    (safe : (s.ioCounts.lookup pid).isSome ∨
      {i | callers i ≠ .register}.Subsingleton) :
    (final.shared.ioCounts.entries.lookup pid).getD 0 =
      (s.ioCounts.lookup pid).getD 0 + ∑ i, (callers i).count := by
  have counted := ((Underway.start requests).run requests run).2.1
  rw [← start_counts_total]
  refine Idle.exact (start_counts_idle pid s callers) ?_ counted done.counts_after
  refine safe.imp id fun lone => .inl ?_
  have called (i : ι) (before : countsPhase ((callers i).start pid) = .before) :
      callers i ≠ .register := by
    intro register
    rw [register] at before
    cases before
  intro i first j second
  exact lone (called i first) (called j second)

/-- No wait is lost where the counter is there, or one wait at most is counted,
or none is more than nothing. -/
theorem waits_exact
    (safe : (s.ioWaitNs.lookup pid).isSome ∨
      {i | (callers i).wait?.isSome}.Subsingleton ∨ ∀ i, (callers i).wait = 0) :
    (final.shared.ioWaitNs.entries.lookup pid).getD 0 =
      (s.ioWaitNs.lookup pid).getD 0 + ∑ i, (callers i).wait := by
  have waited := ((Underway.start requests).run requests run).2.2
  rw [← start_waits_total]
  refine Idle.exact (start_waits_idle pid s callers) ?_ waited done.waits_after
  refine safe.imp id fun few => few.imp ?_ id
  intro lone
  have called (i : ι)
      (before : waitsPhase (callers i) ((callers i).start pid) = .before) :
      (callers i).wait?.isSome := by
    rw [start_waitsPhase] at before
    split at before
    · next counted => exact counted
    · cases before
  intro i first j second
  exact lone (called i first) (called j second)

end Enough

/-! ## Two lookups that find no counter -/

section Lost

variable {s : BpfMaps .unlimited} {r : Running ι} {i : ι}

/-- A completion can come as far as its first addition. -/
theorem Underway.reaches_bumpCounts
    (underway : Underway pid callers r)
    {rqPtr now issueTs : UInt64}
    (called : callers i = .completion rqPtr now issueTs)
    (waits : r.invocations i = .lookupInflight rqPtr now) :
    ∃ actions next, runActions Running.step actions r = some next ∧
      next.invocations = Function.update r.invocations i
        (.bumpCounts now ⟨issueTs, pid⟩ (r.shared.ioCounts.find pid)) ∧
      next.shared.ioCounts = r.shared.ioCounts ∧
      next.shared.ioWaitNs = r.shared.ioWaitNs := by
  have stands := underway.stands i
  rw [waits] at stands
  obtain ⟨issued, same, found⟩ := stands
  rw [called] at same
  cases same
  obtain ⟨value, active⟩ := Option.isSome_iff_exists.mp underway.active
  refine ⟨[(i, 0), (i, 0), (i, 0), (i, 0)],
    ⟨{ r.shared with bioInflight := r.shared.bioInflight.delete rqPtr },
      Function.update r.invocations i
        (.bumpCounts now ⟨issueTs, pid⟩ (r.shared.ioCounts.find pid))⟩,
    ?_, rfl, rfl, rfl⟩
  simp [Running.step, waits, Invocation.step, found, active]

/-- A completion whose wait is counted can come as far as its second addition. -/
theorem Running.reaches_bumpWaits
    {now issueTs wait : UInt64}
    {cnt : Option ℕ}
    (counted : countedWait issueTs now = some wait)
    (waits : r.invocations i = .bumpCounts now ⟨issueTs, pid⟩ cnt) :
    ∃ actions next, runActions Running.step actions r = some next ∧
      next.invocations = Function.update r.invocations i
        (.bumpWaits pid wait (r.shared.ioWaitNs.find pid)) ∧
      next.shared.ioWaitNs = r.shared.ioWaitNs := by
  refine ⟨[(i, 0), (i, 0)],
    ⟨{ r.shared with ioCounts := r.shared.ioCounts.bump pid cnt 1 0 },
      Function.update r.invocations i
        (.bumpWaits pid wait (r.shared.ioWaitNs.find pid))⟩,
    ?_, rfl, rfl⟩
  simp [Running.step, waits, Invocation.step, counted]

theorem Caller.exists_of_ne_register
    {caller : Caller}
    (completes : caller ≠ .register) :
    ∃ rqPtr now issueTs, caller = .completion rqPtr now issueTs := by
  cases caller with
  | completion rqPtr now issueTs => exact ⟨rqPtr, now, issueTs, rfl⟩
  | register => exact absurd rfl completes

theorem Caller.isSome_of_wait
    {caller : Caller}
    (nonzero : caller.wait ≠ 0) :
    caller.wait?.isSome := by
  unfold wait at nonzero
  cases counted : caller.wait? with
  | some wait => rfl
  | none =>
      rw [counted] at nonzero
      exact absurd rfl nonzero

theorem Caller.exists_of_wait
    {caller : Caller}
    (counted : caller.wait?.isSome) :
    ∃ rqPtr now issueTs wait, caller = .completion rqPtr now issueTs ∧
      countedWait issueTs now = some wait := by
  cases caller with
  | completion rqPtr now issueTs =>
      obtain ⟨wait, counted⟩ := Option.isSome_iff_exists.mp counted
      exact ⟨rqPtr, now, issueTs, wait, rfl, counted⟩
  | register => cases counted

/-- An invocation that has not begun can come as far as its second addition. -/
theorem Underway.reaches_wait
    (underway : Underway pid callers r)
    {rqPtr now issueTs wait : UInt64}
    (called : callers i = .completion rqPtr now issueTs)
    (counted : countedWait issueTs now = some wait)
    (waits : r.invocations i = .lookupInflight rqPtr now)
    (missing : r.shared.ioWaitNs.find pid = none) :
    ∃ actions next, runActions Running.step actions r = some next ∧
      next.invocations = Function.update r.invocations i (.bumpWaits pid wait none) ∧
      next.shared.ioWaitNs = r.shared.ioWaitNs := by
  obtain ⟨looks, t, run, moved, _, same⟩ := underway.reaches_bumpCounts called waits
  have stands : t.invocations i =
      .bumpCounts now ⟨issueTs, pid⟩ (r.shared.ioCounts.find pid) := by
    rw [moved, Function.update_self]
  obtain ⟨bumps, u, rest, movedOn, sameStill⟩ := Running.reaches_bumpWaits counted stands
  refine ⟨looks ++ bumps, u, ?_, ?_, sameStill.trans same⟩
  · rw [runActions_append, run]
    exact rest
  · rw [movedOn, moved, Function.update_idem, same, missing]

theorem CounterMap.store_cell
    (m : CounterMap)
    (pid : UInt32)
    (value : UInt64)
    (choice : ℕ) :
    (m.store pid value choice).cell pid =
      ⟨(m.store pid value choice).element pid, some value⟩ := by
  simp [store, cell]

/-- An invocation that has found no counter stores its completion. -/
theorem Running.stores_count
    {now : UInt64}
    {info : BioInfo}
    (waits : r.invocations i = .bumpCounts now info none) :
    ∃ next element, Running.step (i, 0) r = some next ∧
      next.counts info.pid =
        ⟨⟨element, some 1⟩, Function.update (r.counts info.pid).phase i .after⟩ ∧
      ∀ j, j ≠ i → next.invocations j = r.invocations j := by
  have unfinished : r.invocations i ≠ .finished := by
    rw [waits]
    simp
  have after : countsPhase ((r.invocations i).step 0 r.shared).1 = .after := by
    rw [waits]
    simp only [Invocation.step]
    split <;> rfl
  refine ⟨_, (r.shared.ioCounts.store info.pid 1 0).element info.pid,
    if_neg unfinished, ?_, fun j different => Function.update_of_ne different _ _⟩
  refine (Running.counts_of_update info.pid rfl).trans ?_
  rw [after, waits]
  exact congrArg (fun cell => Counting.mk cell _) (CounterMap.store_cell _ _ 1 0)

/-- An invocation that has found no counter stores its wait. -/
theorem Running.stores_wait
    {wait : UInt64}
    (counted : (callers i).wait? = some wait)
    (waits : r.invocations i = .bumpWaits pid wait none) :
    ∃ next element, Running.step (i, 0) r = some next ∧
      next.waits pid callers =
        ⟨⟨element, some wait⟩, Function.update (r.waits pid callers).phase i .after⟩ ∧
      ∀ j, j ≠ i → next.invocations j = r.invocations j := by
  have unfinished : r.invocations i ≠ .finished := by
    rw [waits]
    simp
  have after : waitsPhase (callers i) ((r.invocations i).step 0 r.shared).1 = .after := by
    rw [waits, waitsPhase_of_some counted]
    rfl
  refine ⟨_, (r.shared.ioWaitNs.store pid wait 0).element pid, if_neg unfinished, ?_,
    fun j different => Function.update_of_ne different _ _⟩
  refine (Running.waits_of_update pid callers rfl).trans ?_
  rw [after, waits]
  exact congrArg (fun cell => Counting.mk cell _) (CounterMap.store_cell _ _ wait 0)

/-- Two invocations that were moved one after the other take a step each. -/
theorem Running.run_both
    {first t u v : Running ι}
    {looksI looksJ : List (ι × ℕ)}
    (run : runActions Running.step looksI first = some r)
    (rest : runActions Running.step looksJ r = some t)
    (stepI : Running.step (i, 0) t = some u)
    (stepJ : Running.step (j, 0) u = some v) :
    runActions Running.step (looksI ++ looksJ ++ [(i, 0)] ++ [(j, 0)]) first =
      some v := by
  refine runActions_snoc.mpr ⟨u, runActions_snoc.mpr ⟨t, ?_, stepI⟩, stepJ⟩
  rw [runActions_append, run]
  exact rest

variable [Fintype ι]

/-- A counter that is there in the end counts all but what was lost before. -/
theorem Running.finishes_from
    (requests : Requests pid s callers)
    {actions : List (ι × ℕ)}
    (run : runActions Running.step actions (.start pid s callers) = some r) :
    ∃ all final, runActions Running.step all (.start pid s callers) = some final ∧
      final.Done ∧
      (Present (r.counts pid) →
        (final.shared.ioCounts.entries.lookup pid).getD 0 =
          (r.counts pid).total fun i => (callers i).count) ∧
      (Present (r.waits pid callers) →
        (final.shared.ioWaitNs.entries.lookup pid).getD 0 =
          (r.waits pid callers).total fun i => (callers i).wait) := by
  obtain ⟨underway, _, _⟩ := (Underway.start requests).run requests run
  obtain ⟨rest, final, finished, done⟩ := r.finishes
  obtain ⟨_, counts, waits⟩ := underway.run requests finished
  refine ⟨actions ++ rest, final, ?_, done, ?_, ?_⟩
  · rw [runActions_append, run]
    exact finished
  · intro present
    exact present.exact counts done.counts_after
  · intro present
    exact present.exact waits done.waits_after

/-- Where the counter is missing, two completions can lose one. -/
theorem counts_lost
    (requests : Requests pid s callers)
    (absent : s.ioCounts.lookup pid = none)
    {i j : ι}
    (different : i ≠ j)
    {rqPtr now issueTs other later issued : UInt64}
    (first : callers i = .completion rqPtr now issueTs)
    (second : callers j = .completion other later issued) :
    ∃ actions final,
      runActions Running.step actions (.start pid s callers) = some final ∧
        final.Done ∧
        (final.shared.ioCounts.entries.lookup pid).getD 0 + 1 =
          (s.ioCounts.lookup pid).getD 0 + ∑ k, (callers k).count := by
  have underway := Underway.start requests
  have missing : (Running.start pid s callers).shared.ioCounts.find pid = none := by
    change (s.ioCounts.lookup pid).map _ = none
    rw [absent]
    rfl
  -- both look the counter up before either adds to it
  obtain ⟨looksI, r, run, movedI, countsI, _⟩ :=
    underway.reaches_bumpCounts first (start_invocation first)
  rw [missing] at movedI
  have underwayR := (underway.run requests run).1
  have startJ : r.invocations j = .lookupInflight other later := by
    rw [movedI, Function.update_of_ne different.symm, start_invocation second]
  obtain ⟨looksJ, t, runT, movedJ, countsJ, _⟩ :=
    underwayR.reaches_bumpCounts second startJ
  rw [countsI, missing] at movedJ
  have waitsI : t.invocations i = .bumpCounts now ⟨issueTs, pid⟩ none := by
    rw [movedJ, Function.update_of_ne different, movedI, Function.update_self]
  obtain ⟨u, _, stepU, countsU, othersU⟩ := Running.stores_count waitsI
  have waitsJ : u.invocations j = .bumpCounts later ⟨issued, pid⟩ none := by
    rw [othersU j different.symm, movedJ, Function.update_self]
  obtain ⟨v, element, stepV, countsV, _⟩ := Running.stores_count waitsJ
  obtain ⟨all, final, whole, done, counted, _⟩ :=
    Running.finishes_from requests (Running.run_both run runT stepU stepV)
  refine ⟨all, final, whole, done, ?_⟩
  have looked : t.counts pid = ⟨((Running.start pid s callers).counts pid).cell,
      Function.update (Function.update ((Running.start pid s callers).counts pid).phase
        i .missing) j .missing⟩ := by
    rw [Running.counts_of_update pid movedJ, Running.counts_of_update pid movedI,
      countsJ, countsI]
    rfl
  have stored : v.counts pid = ⟨⟨element, some (callers j).count⟩,
      overwritten ((Running.start pid s callers).counts pid).phase i j⟩ := by
    refine countsV.trans ?_
    change Counting.mk _ (Function.update (u.counts pid).phase j .after) = _
    rw [show u.counts pid = _ from countsU, looked, second]
    rfl
  obtain ⟨present, total⟩ := (start_counts_idle pid s callers).lost
    (fun k => (callers k).count) absent different
    (start_counts_before (by simp [first])) (start_counts_before (by simp [second]))
    element
  rw [← stored] at present total
  rw [counted present, ← start_counts_total, ← total, first]
  rfl

/-- Where the counter is missing, two completions can lose the wait of one. -/
theorem waits_lost
    (requests : Requests pid s callers)
    (absent : s.ioWaitNs.lookup pid = none)
    {i j : ι}
    (different : i ≠ j)
    (first : (callers i).wait?.isSome)
    (second : (callers j).wait?.isSome) :
    ∃ actions final,
      runActions Running.step actions (.start pid s callers) = some final ∧
        final.Done ∧
        (final.shared.ioWaitNs.entries.lookup pid).getD 0 + (callers i).wait =
          (s.ioWaitNs.lookup pid).getD 0 + ∑ k, (callers k).wait := by
  have underway := Underway.start requests
  have missing : (Running.start pid s callers).shared.ioWaitNs.find pid = none := by
    change (s.ioWaitNs.lookup pid).map _ = none
    rw [absent]
    rfl
  obtain ⟨rqPtr, now, issueTs, wait, calledI, countedI⟩ := Caller.exists_of_wait first
  obtain ⟨other, later, issued, waitJ, calledJ, countedJ⟩ := Caller.exists_of_wait second
  have waitI? : (callers i).wait? = some wait := by
    rw [calledI]
    exact countedI
  have waitJ? : (callers j).wait? = some waitJ := by
    rw [calledJ]
    exact countedJ
  -- both look the counter up before either adds to it
  obtain ⟨looksI, r, run, movedI, sameI⟩ :=
    underway.reaches_wait calledI countedI (start_invocation calledI) missing
  have underwayR := (underway.run requests run).1
  have startJ : r.invocations j = .lookupInflight other later := by
    rw [movedI, Function.update_of_ne different.symm, start_invocation calledJ]
  obtain ⟨looksJ, t, runT, movedJ, sameJ⟩ :=
    underwayR.reaches_wait calledJ countedJ startJ (by rw [sameI, missing])
  have waitsI : t.invocations i = .bumpWaits pid wait none := by
    rw [movedJ, Function.update_of_ne different, movedI, Function.update_self]
  obtain ⟨u, _, stepU, waitsU, othersU⟩ := Running.stores_wait waitI? waitsI
  have waitsJ : u.invocations j = .bumpWaits pid waitJ none := by
    rw [othersU j different.symm, movedJ, Function.update_self]
  obtain ⟨v, element, stepV, waitsV, _⟩ := Running.stores_wait waitJ? waitsJ
  obtain ⟨all, final, whole, done, _, counted⟩ :=
    Running.finishes_from requests (Running.run_both run runT stepU stepV)
  refine ⟨all, final, whole, done, ?_⟩
  have looked : t.waits pid callers =
      ⟨((Running.start pid s callers).waits pid callers).cell,
        Function.update (Function.update
          ((Running.start pid s callers).waits pid callers).phase
            i .missing) j .missing⟩ := by
    rw [Running.waits_of_update pid callers movedJ,
      Running.waits_of_update pid callers movedI, sameJ, sameI,
      waitsPhase_of_some waitI?, waitsPhase_of_some waitJ?]
    rfl
  have amountJ : (callers j).wait = waitJ := by
    unfold Caller.wait
    rw [waitJ?]
    rfl
  have stored : v.waits pid callers = ⟨⟨element, some (callers j).wait⟩,
      overwritten ((Running.start pid s callers).waits pid callers).phase i j⟩ := by
    rw [waitsV, waitsU, looked, amountJ]
    rfl
  obtain ⟨present, total⟩ := (start_waits_idle pid s callers).lost
    (fun k => (callers k).wait) absent different (start_waits_before first)
    (start_waits_before second) element
  rw [← stored] at present total
  rw [counted present, ← start_waits_total, ← total]

end Lost

/-! ## No increment is lost exactly where the counters are there -/

variable [Fintype ι]

/-- `io_counts` has grown by the number of completions, and `io_wait_ns` by their
waits that are counted. -/
def Running.Exact (pid : UInt32) (s : BpfMaps .unlimited) (callers : ι → Caller)
    (r : Running ι) : Prop :=
  (r.shared.ioCounts.entries.lookup pid).getD 0 = (s.ioCounts.lookup pid).getD 0 +
      ((Finset.univ.filter fun i => callers i ≠ .register).card : UInt64) ∧
    (r.shared.ioWaitNs.entries.lookup pid).getD 0 =
      (s.ioWaitNs.lookup pid).getD 0 + ∑ i, (callers i).wait

instance (r : Running ι) : Decidable r.Done := Fintype.decidableForallFintype

/-- However the operations interleave nothing is lost, exactly where each counter
is there or has one addition at most, or the waits add nothing. -/
theorem increments_exact_iff
    (pid : UInt32)
    (s : BpfMaps .unlimited)
    (callers : ι → Caller)
    (requests : Requests pid s callers) :
    (∀ actions final,
        runActions Running.step actions (.start pid s callers) = some final →
          final.Done → final.Exact pid s callers) ↔
      ((s.ioCounts.lookup pid).isSome ∨ {i | callers i ≠ .register}.Subsingleton) ∧
        ((s.ioWaitNs.lookup pid).isSome ∨
          {i | (callers i).wait?.isSome}.Subsingleton ∨
          ∀ i, (callers i).wait = 0) := by
  constructor
  · intro exact
    refine ⟨?_, ?_⟩
    · by_contra lossy
      obtain ⟨absent, several⟩ := not_or.mp lossy
      obtain ⟨i, first, j, second, different⟩ := Set.not_subsingleton_iff.mp several
      obtain ⟨rqPtr, now, issueTs, calledI⟩ := Caller.exists_of_ne_register first
      obtain ⟨other, later, issued, calledJ⟩ := Caller.exists_of_ne_register second
      obtain ⟨actions, final, run, done, lost⟩ := counts_lost requests
        (Option.not_isSome_iff_eq_none.mp absent) different calledI calledJ
      have grown := (exact actions final run done).1
      rw [← sum_count, ← lost] at grown
      exact absurd (left_eq_add.mp grown) (by decide)
    · by_contra lossy
      obtain ⟨absent, others⟩ := not_or.mp lossy
      obtain ⟨several, something⟩ := not_or.mp others
      obtain ⟨i, nonzero⟩ := not_forall.mp something
      have counted : (callers i).wait?.isSome := Caller.isSome_of_wait nonzero
      obtain ⟨j, second, different⟩ :=
        (Set.not_subsingleton_iff.mp several).exists_ne i
      obtain ⟨actions, final, run, done, lost⟩ := waits_lost requests
        (Option.not_isSome_iff_eq_none.mp absent) different.symm counted second
      have grown := (exact actions final run done).2
      rw [← lost] at grown
      exact nonzero (left_eq_add.mp grown)
  · rintro ⟨counts, waits⟩ actions final run done
    refine ⟨?_, waits_exact requests run done waits⟩
    rw [← sum_count]
    exact counts_exact requests run done counts

/-- Two requests of a process that was forked. -/
def forkedRequests : List KernelEvent :=
  [.fork 1000 1000, .blockRqIssue 1000 1 5, .blockRqIssue 1000 2 6]

/-- Two requests of a process whose `exec` made it active, with no counter. -/
def executedRequests : List KernelEvent :=
  [.exec 1000 [97], .blockRqIssue 1000 1 5, .blockRqIssue 1000 2 6]

/-- Both complete at once. -/
def bothComplete : Fin 2 → Caller
  | 0 => .completion 1 10 5
  | 1 => .completion 2 11 6

/-- The requests of a forked process are not lost. -/
theorem increments_exact_iff_forked :
    Requests 1000 (mapsAfter .unlimited forkedRequests) bothComplete ∧
      ∀ actions final,
        runActions Running.step actions (.start 1000
            (mapsAfter .unlimited forkedRequests) bothComplete) = some final →
          final.Done →
            final.Exact 1000 (mapsAfter .unlimited forkedRequests) bothComplete := by
  have requests : Requests 1000 (mapsAfter .unlimited forkedRequests) bothComplete := by
    refine ⟨rfl, ?_, ?_⟩
    · intro i rqPtr now issueTs called
      match i with
      | 0 =>
          cases called
          rfl
      | 1 =>
          cases called
          rfl
    · intro i j rqPtr now issueTs later issued first second
      match i, j with
      | 0, 0 => rfl
      | 1, 1 => rfl
      | 0, 1 =>
          cases first
          cases second
      | 1, 0 =>
          cases first
          cases second
  refine ⟨requests, ?_⟩
  exact (increments_exact_iff 1000 (mapsAfter .unlimited forkedRequests) bothComplete
    requests).mpr ⟨.inl rfl, .inl rfl⟩

/-- Each looks its counter up before the other has stored. -/
def alternately : List (Fin 2 × ℕ) :=
  [(0, 0), (1, 0), (0, 0), (1, 0), (0, 0), (1, 0), (0, 0), (1, 0), (0, 0), (1, 1),
    (0, 0), (1, 0), (0, 0), (1, 1)]

theorem alternately_loses :
    ∃ final, runActions Running.step alternately
        (.start 1000 (mapsAfter .unlimited executedRequests) bothComplete) = some final ∧
      final.Done ∧ final.shared.ioCounts.entries.lookup 1000 = some 1 ∧
      final.shared.ioWaitNs.entries.lookup 1000 = some 5 ∧
      ¬ final.Exact 1000 (mapsAfter .unlimited executedRequests) bothComplete := by
  refine ⟨_, rfl, by decide, by decide, by decide, ?_⟩
  intro exact
  exact absurd exact.1 (by decide)

end Running

end Schedmon
