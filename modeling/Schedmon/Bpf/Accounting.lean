import Schedmon.Bpf.PidView
import Schedmon.Bpf.Tracer

/-!
# Accounting for block requests

The daemon and the handlers write the counters of a pid in turn.  A ledger
keeps the same counters without the width of their words, together with what
the pid issued and what it was charged.
-/

namespace Schedmon

open Library

/-- A handler runs, or the daemon changes what it watches. -/
inductive TracerStep
  | handler (e : KernelEvent)
  | register (pid : UInt32)
  | unregister (pid : UInt32)
  deriving DecidableEq

/-- The maps after a step. -/
def tracerStep {sizes : MapSizes} (s : BpfMaps sizes) : TracerStep → BpfMaps sizes
  | .handler e => handleEvent s e
  | .register pid => registerPid s pid
  | .unregister pid => unregisterPid s pid

/-- A counter without width after an addition. -/
def tally (counter : Option ℕ) (amount : ℕ) : Option ℕ :=
  some (counter.elim amount (· + amount))

/-- What a pid issued and was charged, and its two counters. -/
structure IoLedger where
  issued : ℕ
  charged : ℕ
  ioCounts : Option ℕ
  ioWaitNs : Option ℕ
  deriving DecidableEq

namespace IoLedger

/-- Nothing has happened. -/
def start : IoLedger where
  issued := 0
  charged := 0
  ioCounts := none
  ioWaitNs := none

variable (ledger : IoLedger)

/-- Both counters are there from now on. -/
def create : IoLedger :=
  { ledger with
    ioCounts := some (ledger.ioCounts.getD 0)
    ioWaitNs := some (ledger.ioWaitNs.getD 0) }

/-- Both counters are gone. -/
def forget : IoLedger :=
  { ledger with
    ioCounts := none
    ioWaitNs := none }

/-- A completed request is charged. -/
def charge (issueTs now : UInt64) : IoLedger :=
  { ledger with
    charged := ledger.charged + 1
    ioCounts := tally ledger.ioCounts 1
    ioWaitNs :=
      if issueTs > 0 ∧ now - issueTs < ioWaitLimitNs then
        tally ledger.ioWaitNs (now - issueTs).toNat
      else ledger.ioWaitNs }

/-- What a step does to the ledger of a pid, given its entries before. -/
def step (pid : UInt32) (v : PidView) : TracerStep → IoLedger
  | .handler (.fork childPid _) =>
      if childPid = pid ∧ pid > 1 then ledger.create else ledger
  | .handler (.exit other groupDead) =>
      if other = pid ∧ pid > 1 ∧ groupDead = true then ledger.forget else ledger
  | .handler (.blockRqIssue other _ _) =>
      if other = pid ∧ pid > 1 then { ledger with issued := ledger.issued + 1 }
      else ledger
  | .handler (.blockRqComplete rqPtr now) =>
      match v.inflight rqPtr with
      | some issueTs =>
          if v.activePids.isSome then ledger.charge issueTs now else ledger
      | none => ledger
  | .register other => if other = pid then ledger.create else ledger
  | _ => ledger

end IoLedger

/-- The maps and a pid's ledger. -/
structure IoBooks where
  maps : BpfMaps .unlimited
  ledger : IoLedger

/-- The books after a step. -/
def IoBooks.step (pid : UInt32) (books : IoBooks) (step : TracerStep) : IoBooks where
  maps := tracerStep books.maps step
  ledger := books.ledger.step pid (books.maps.view pid) step

/-- The books after a history, from empty maps. -/
def ioBooksAfter (pid : UInt32) (steps : List TracerStep) : IoBooks :=
  steps.foldl (IoBooks.step pid) ⟨.start .unlimited, .start⟩

/-- The requests in flight that a pid issued. -/
def ownedRequests (pid : UInt32) (s : BpfMaps .unlimited) : Finset UInt64 :=
  s.bioInflight.keys.filter fun rqPtr =>
    (issuedBy pid (s.bioInflight.lookup rqPtr)).isSome

theorem mem_ownedRequests
    {pid : UInt32}
    {s : BpfMaps .unlimited}
    {rqPtr : UInt64} :
    rqPtr ∈ ownedRequests pid s ↔ ((s.view pid).inflight rqPtr).isSome := by
  unfold ownedRequests
  rw [Finset.mem_filter, s.bioInflight.mem_keys]
  change _ ↔ (issuedBy pid (s.bioInflight.lookup rqPtr)).isSome
  cases s.bioInflight.lookup rqPtr with
  | none => simp [issuedBy]
  | some info => simp

theorem ownedRequests_congr
    {pid : UInt32}
    {s t : BpfMaps .unlimited}
    (same : (t.view pid).inflight = (s.view pid).inflight) :
    ownedRequests pid t = ownedRequests pid s := by
  ext rqPtr
  rw [mem_ownedRequests, mem_ownedRequests, same]

/-! ## The daemon's steps seen from one pid -/

section

variable (s : BpfMaps .unlimited) (pid other : UInt32)

theorem view_registerPid :
    (registerPid s other).view pid =
      if other = pid then
        { s.view pid with
          activePids := some 1
          ioCounts := some ((s.view pid).ioCounts.getD 0)
          ioWaitNs := some ((s.view pid).ioWaitNs.getD 0)
          rqWaitNs := some ((s.view pid).rqWaitNs.getD 0) }
      else s.view pid := by
  by_cases own : other = pid
  · subst own
    simp [registerPid, BpfMaps.view]
  · simp [registerPid, BpfMaps.view, own, Ne.symm own]

theorem view_unregisterPid :
    (unregisterPid s other).view pid =
      if other = pid then { s.view pid with activePids := none } else s.view pid := by
  by_cases own : other = pid
  · subst own
    simp [unregisterPid, BpfMaps.view]
  · simp [unregisterPid, BpfMaps.view, own, Ne.symm own]

end

/-! ## What the ledger says about the maps -/

/-- The counters of a pid in the maps are those of its ledger, in words. -/
structure Tallies (v : PidView) (ledger : IoLedger) : Prop where
  ioCounts : v.ioCounts = ledger.ioCounts.map UInt64.ofNat
  ioWaitNs : v.ioWaitNs = ledger.ioWaitNs.map UInt64.ofNat

theorem plus_map_ofNat (counter : Option ℕ) (amount : UInt64) :
    plus (counter.map UInt64.ofNat) amount =
      (tally counter amount.toNat).map UInt64.ofNat := by
  cases counter with
  | none => simp [plus, tally]
  | some value => simp [plus, tally]

theorem getD_map_ofNat (counter : Option ℕ) :
    (counter.map UInt64.ofNat).getD 0 = UInt64.ofNat (counter.getD 0) := by
  cases counter <;> rfl

section

variable {v : PidView} {ledger : IoLedger}

theorem Tallies.create
    (tallies : Tallies v ledger) :
    some (v.ioCounts.getD 0) = ledger.create.ioCounts.map UInt64.ofNat ∧
      some (v.ioWaitNs.getD 0) = ledger.create.ioWaitNs.map UInt64.ofNat := by
  rw [tallies.ioCounts, tallies.ioWaitNs, getD_map_ofNat, getD_map_ofNat]
  exact ⟨rfl, rfl⟩

theorem Tallies.charge
    (tallies : Tallies v ledger)
    (active : v.activePids.isSome)
    (issueTs now : UInt64) :
    Tallies (v.charge issueTs now) (ledger.charge issueTs now) := by
  obtain ⟨value, found⟩ := Option.isSome_iff_exists.mp active
  unfold PidView.charge IoLedger.charge
  rw [found]
  refine ⟨?_, ?_⟩
  · dsimp only
    rw [tallies.ioCounts]
    exact plus_map_ofNat _ 1
  · dsimp only
    rw [tallies.ioWaitNs]
    split
    · exact plus_map_ofNat _ _
    · rfl

end

/-! ## What a step keeps -/

/-- The wait that is counted stays below its limit for each request. -/
structure IoLedger.Bounded (ledger : IoLedger) (owned : ℕ) : Prop where
  charged : ledger.charged + owned ≤ ledger.issued
  waits : ledger.ioWaitNs.getD 0 ≤ 30000000000 * ledger.ioCounts.getD 0

/-- The ledger is bounded, and tells what the maps hold. -/
structure IoBooks.Sound (pid : UInt32) (books : IoBooks) : Prop where
  bounded : books.ledger.Bounded (ownedRequests pid books.maps).card
  tallies : Tallies (books.maps.view pid) books.ledger

theorem IoLedger.Bounded.charge
    {ledger : IoLedger}
    {owned : ℕ}
    (bounded : ledger.Bounded (owned + 1))
    (issueTs now : UInt64) :
    (ledger.charge issueTs now).Bounded owned := by
  obtain ⟨charged, waits⟩ := bounded
  have counted : (tally ledger.ioCounts 1).getD 0 = ledger.ioCounts.getD 0 + 1 := by
    cases ledger.ioCounts with
    | none => rfl
    | some value => rfl
  refine ⟨?_, ?_⟩
  · change ledger.charged + 1 + owned ≤ ledger.issued
    omega
  · unfold IoLedger.charge
    dsimp only
    rw [counted]
    split
    · next short =>
        have below : (now - issueTs).toNat < 30000000000 := short.2
        have added : (tally ledger.ioWaitNs (now - issueTs).toNat).getD 0 =
            ledger.ioWaitNs.getD 0 + (now - issueTs).toNat := by
          cases ledger.ioWaitNs with
          | none => exact (Nat.zero_add _).symm
          | some value => rfl
        rw [added]
        omega
    · omega

theorem IoLedger.Bounded.mono
    {ledger : IoLedger}
    {owned fewer : ℕ}
    (bounded : ledger.Bounded owned)
    (less : fewer ≤ owned) :
    ledger.Bounded fewer :=
  ⟨(Nat.add_le_add_left less _).trans bounded.charged, bounded.waits⟩

namespace IoBooks

variable {pid : UInt32} {books : IoBooks}

/-- A step that touches neither the counters of the pid nor its requests. -/
theorem Sound.quiet
    (sound : books.Sound pid)
    {maps : BpfMaps .unlimited}
    {after : PidView}
    (seen : maps.view pid = after)
    (ioCounts : after.ioCounts = (books.maps.view pid).ioCounts)
    (ioWaitNs : after.ioWaitNs = (books.maps.view pid).ioWaitNs)
    (inflight : after.inflight = (books.maps.view pid).inflight) :
    Sound pid ⟨maps, books.ledger⟩ := by
  subst seen
  refine ⟨?_, ioCounts.trans sound.tallies.ioCounts,
    ioWaitNs.trans sound.tallies.ioWaitNs⟩
  dsimp only
  rw [ownedRequests_congr inflight]
  exact sound.bounded

/-- The counters of the pid are created where they are missing. -/
theorem Sound.create
    (sound : books.Sound pid)
    {maps : BpfMaps .unlimited}
    {after : PidView}
    (seen : maps.view pid = after)
    (ioCounts : after.ioCounts = some ((books.maps.view pid).ioCounts.getD 0))
    (ioWaitNs : after.ioWaitNs = some ((books.maps.view pid).ioWaitNs.getD 0))
    (inflight : after.inflight = (books.maps.view pid).inflight) :
    Sound pid ⟨maps, books.ledger.create⟩ := by
  subst seen
  refine ⟨?_, ioCounts.trans sound.tallies.create.1,
    ioWaitNs.trans sound.tallies.create.2⟩
  dsimp only
  rw [ownedRequests_congr inflight]
  exact ⟨sound.bounded.charged, sound.bounded.waits⟩

/-- A request of the pid is put in flight. -/
theorem Sound.issue
    (sound : books.Sound pid)
    {other : UInt32}
    (rqPtr now : UInt64) :
    Sound pid
      (books.step pid (.handler (.blockRqIssue other rqPtr now))) := by
  have seen := view_handleBlockRqIssue books.maps pid other rqPtr now
  simp only [PidView.step] at seen
  have owned : ownedRequests pid (handleBlockRqIssue books.maps other rqPtr now) ⊆
      if other = pid ∧ pid > 1 then insert rqPtr (ownedRequests pid books.maps)
      else ownedRequests pid books.maps := by
    intro ptr member
    rw [mem_ownedRequests, seen] at member
    split at member
    · next issues =>
        dsimp only at member
        by_cases same : ptr = rqPtr
        · subst same
          rw [Function.update_self] at member
          split at member
          · next own =>
              subst own
              rw [if_pos ⟨rfl, issues⟩]
              exact Finset.mem_insert_self _ _
          · cases member
        · rw [Function.update_of_ne same] at member
          have old := mem_ownedRequests.mpr member
          split
          · exact Finset.mem_insert_of_mem old
          · exact old
    · next kernel =>
        rw [if_neg fun issues : other = pid ∧ pid > 1 => kernel (issues.1 ▸ issues.2)]
        exact mem_ownedRequests.mpr member
  have counters : ((handleBlockRqIssue books.maps other rqPtr now).view pid).ioCounts =
        (books.maps.view pid).ioCounts ∧
      ((handleBlockRqIssue books.maps other rqPtr now).view pid).ioWaitNs =
        (books.maps.view pid).ioWaitNs := by
    rw [seen]
    split <;> exact ⟨rfl, rfl⟩
  have fewer := Finset.card_le_card owned
  refine ⟨?_, ?_⟩
  · change (books.ledger.step pid (books.maps.view pid)
        (.handler (.blockRqIssue other rqPtr now))).Bounded
      (ownedRequests pid (handleBlockRqIssue books.maps other rqPtr now)).card
    simp only [IoLedger.step]
    split
    · next own =>
        rw [if_pos own] at fewer
        have inserted := Finset.card_insert_le rqPtr (ownedRequests pid books.maps)
        refine ⟨?_, sound.bounded.waits⟩
        have before := sound.bounded.charged
        dsimp only
        omega
    · next foreign =>
        rw [if_neg foreign] at fewer
        exact sound.bounded.mono fewer
  · have same : (books.step pid (.handler (.blockRqIssue other rqPtr now))).ledger.ioCounts =
          books.ledger.ioCounts ∧
        (books.step pid (.handler (.blockRqIssue other rqPtr now))).ledger.ioWaitNs =
          books.ledger.ioWaitNs := by
      simp only [IoBooks.step, IoLedger.step]
      split <;> exact ⟨rfl, rfl⟩
    refine ⟨?_, ?_⟩
    · rw [same.1]
      exact counters.1.trans sound.tallies.ioCounts
    · rw [same.2]
      exact counters.2.trans sound.tallies.ioWaitNs

/-- A request of the pid is completed. -/
theorem Sound.complete
    (sound : books.Sound pid)
    (rqPtr now : UInt64) :
    Sound pid (books.step pid (.handler (.blockRqComplete rqPtr now))) := by
  have seen := view_handleBlockRqComplete books.maps pid rqPtr now
  cases found : (books.maps.view pid).inflight rqPtr with
  | none =>
      simp only [PidView.step, found] at seen
      simp only [IoBooks.step, IoLedger.step, found]
      exact sound.quiet seen rfl rfl rfl
  | some issueTs =>
      simp only [PidView.step, found] at seen
      have inflight : ((handleBlockRqComplete books.maps rqPtr now).view pid).inflight =
          Function.update (books.maps.view pid).inflight rqPtr none := by
        rw [seen, PidView.charge_inflight]
        rfl
      have member : rqPtr ∈ ownedRequests pid books.maps := by
        rw [mem_ownedRequests, found]
        rfl
      have erased : ownedRequests pid (handleBlockRqComplete books.maps rqPtr now) =
          (ownedRequests pid books.maps).erase rqPtr := by
        ext ptr
        rw [mem_ownedRequests, inflight, Finset.mem_erase, mem_ownedRequests]
        by_cases same : ptr = rqPtr
        · simp [same]
        · simp [same]
      have card := Finset.card_erase_add_one member
      rw [← erased] at card
      have bounded := sound.bounded
      rw [← card] at bounded
      cases active : (books.maps.view pid).activePids.isSome with
      | true =>
          simp only [IoBooks.step, IoLedger.step, found, active, if_true]
          refine ⟨bounded.charge issueTs now, ?_⟩
          change Tallies ((handleBlockRqComplete books.maps rqPtr now).view pid) _
          rw [seen]
          exact Tallies.charge (v := (books.maps.view pid).drop rqPtr)
            ⟨sound.tallies.ioCounts, sound.tallies.ioWaitNs⟩ active issueTs now
      | false =>
          have absent : ((books.maps.view pid).drop rqPtr).activePids = none :=
            Option.isNone_iff_eq_none.mp (Option.isSome_eq_false_iff.mp active)
          simp only [PidView.charge, absent] at seen
          simp only [IoBooks.step, IoLedger.step, found, active, Bool.false_eq_true,
            if_false]
          refine ⟨bounded.mono (Nat.le_succ _), ?_⟩
          change Tallies ((handleBlockRqComplete books.maps rqPtr now).view pid) _
          rw [seen]
          exact ⟨sound.tallies.ioCounts, sound.tallies.ioWaitNs⟩

/-- The counters of the pid are forgotten. -/
theorem Sound.forget
    (sound : books.Sound pid)
    {maps : BpfMaps .unlimited}
    {after : PidView}
    (seen : maps.view pid = after)
    (ioCounts : after.ioCounts = none)
    (ioWaitNs : after.ioWaitNs = none)
    (inflight : after.inflight = (books.maps.view pid).inflight) :
    Sound pid ⟨maps, books.ledger.forget⟩ := by
  subst seen
  refine ⟨?_, ioCounts, ioWaitNs⟩
  dsimp only
  rw [ownedRequests_congr inflight]
  exact ⟨sound.bounded.charged, Nat.zero_le _⟩

/-- Every step keeps the books. -/
theorem Sound.step
    (sound : books.Sound pid)
    (step : TracerStep) :
    Sound pid (books.step pid step) := by
  cases step with
  | handler e =>
      have seen := view_handleEvent books.maps pid e
      cases e with
      | schedSwitch ctx now cpu =>
          obtain ⟨switches, enqueued, waits, same⟩ := PidView.step_schedSwitch_eq
            (books.maps.view pid) pid ctx now cpu
          rw [same] at seen
          exact sound.quiet seen rfl rfl rfl
      | schedWakeup other now =>
          simp only [PidView.step] at seen
          split at seen <;> exact sound.quiet seen rfl rfl rfl
      | exec other comm =>
          simp only [PidView.step] at seen
          split at seen <;> exact sound.quiet seen rfl rfl rfl
      | fork childPid process =>
          simp only [PidView.step] at seen
          simp only [IoBooks.step, IoLedger.step]
          split at seen
          · next starts =>
              rw [if_pos starts]
              exact sound.create seen rfl rfl rfl
          · next foreign =>
              rw [if_neg foreign]
              exact sound.quiet seen rfl rfl rfl
      | exit other groupDead =>
          simp only [PidView.step] at seen
          simp only [IoBooks.step, IoLedger.step]
          split at seen
          · next ends =>
              rw [if_pos ends]
              exact sound.forget seen rfl rfl rfl
          · next foreign =>
              rw [if_neg foreign]
              exact sound.quiet seen rfl rfl rfl
      | blockRqIssue other rqPtr now => exact sound.issue rqPtr now
      | blockRqComplete rqPtr now => exact sound.complete rqPtr now
  | register other =>
      have seen := view_registerPid books.maps pid other
      simp only [IoBooks.step, IoLedger.step]
      split at seen
      · next own =>
          rw [if_pos own]
          exact sound.create seen rfl rfl rfl
      · next foreign =>
          rw [if_neg foreign]
          exact sound.quiet seen rfl rfl rfl
  | unregister other =>
      have seen := view_unregisterPid books.maps pid other
      split at seen <;> exact sound.quiet seen rfl rfl rfl

theorem Sound.steps
    (sound : books.Sound pid)
    (steps : List TracerStep) :
    Sound pid (steps.foldl (IoBooks.step pid) books) := by
  induction steps generalizing books with
  | nil => exact sound
  | cons first rest inductionHypothesis => exact inductionHypothesis (sound.step first)

theorem Sound.start (pid : UInt32) : Sound pid ⟨.start .unlimited, .start⟩ where
  bounded := ⟨Nat.le_refl 0, Nat.le_refl 0⟩
  tallies := ⟨rfl, rfl⟩

theorem maps_foldl (steps : List TracerStep) :
    (steps.foldl (IoBooks.step pid) books).maps =
      steps.foldl tracerStep books.maps := by
  induction steps generalizing books with
  | nil => rfl
  | cons first rest inductionHypothesis => exact inductionHypothesis

end IoBooks

/-- After any history, a pid was charged for no more requests than it issued and
has not in flight, and its wait is at most 30 s for each request it counts.  The
maps hold the ledger's counters in words. -/
theorem blockIo_accounted (steps : List TracerStep) (pid : UInt32) :
    let maps := steps.foldl tracerStep (BpfMaps.start .unlimited)
    let ledger := (ioBooksAfter pid steps).ledger
    ledger.charged + (ownedRequests pid maps).card ≤ ledger.issued ∧
      ledger.ioWaitNs.getD 0 ≤ 30 * 10 ^ 9 * ledger.ioCounts.getD 0 ∧
      maps.ioCounts.lookup pid = ledger.ioCounts.map UInt64.ofNat ∧
      maps.ioWaitNs.lookup pid = ledger.ioWaitNs.map UInt64.ofNat := by
  have sound : IoBooks.Sound pid (ioBooksAfter pid steps) :=
    (IoBooks.Sound.start pid).steps steps
  have maps : (ioBooksAfter pid steps).maps =
      steps.foldl tracerStep (BpfMaps.start .unlimited) := IoBooks.maps_foldl steps
  obtain ⟨⟨charged, waits⟩, counts, waited⟩ := sound
  rw [maps] at charged counts waited
  exact ⟨charged, waits, counts, waited⟩

end Schedmon
