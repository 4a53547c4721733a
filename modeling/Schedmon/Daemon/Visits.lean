import Schedmon.Daemon.Sync
import Schedmon.Library.SwapScan

/-!
# The loops that remove slots while they run

The slow path and the two removal loops of `sync_pids` walk over the table they
shrink.  Each is taken apart into single rounds, which record the slots they
visit, and mirrors a scan of the list of live slots.
-/

namespace Schedmon

open Library Transition SwapScan

/-- The records of the live slots, in the order of the table. -/
def Daemon.liveSlots (s : Daemon) : List SlotRecord :=
  List.ofFn fun i : Fin s.gNActive => s.slot (s.live i.isLt)

namespace Daemon

variable {s : Daemon}

@[simp] theorem length_liveSlots : s.liveSlots.length = s.gNActive :=
  List.length_ofFn

@[simp] theorem getElem_liveSlots
    {i : Nat}
    (inside : i < s.liveSlots.length) :
    s.liveSlots[i] = s.slot (s.live (length_liveSlots ▸ inside)) := by
  simp [liveSlots]

theorem getLast_liveSlots (occupied : s.liveSlots ≠ []) :
    s.liveSlots.getLast occupied = s.slot s.lastIndex := by
  rw [List.getLast_eq_getElem, getElem_liveSlots]
  congr 1
  exact Fin.ext (by simp [live, lastIndex])

end Daemon

section

variable {w : World} {i : Nat}

theorem putSlot_liveSlots
    (below : i < w.daemon.gNActive)
    (r : SlotRecord)
    (events : List Event) :
    (w.putSlot (w.daemon.live below) r events).daemon.liveSlots =
      w.daemon.liveSlots.set i r := by
  apply List.ext_getElem
  · simp [World.putSlot]
  · intro j inside _
    rw [Daemon.getElem_liveSlots, List.getElem_set]
    unfold World.putSlot
    rw [Daemon.slot_setSlot]
    simp only [Daemon.live, Fin.mk.injEq, Daemon.getElem_liveSlots, eq_comm]

theorem removeSlot_liveSlots (below : i < w.daemon.gNActive) :
    (removeSlot w i below).daemon.liveSlots =
      (w.daemon.liveSlots.set i (w.daemon.slot w.daemon.lastIndex)).dropLast := by
  apply List.ext_getElem
  · simp
  · intro j inside _
    rw [Daemon.length_liveSlots, removeSlot_gNActive] at inside
    rw [Daemon.getElem_liveSlots, removeSlot_slot below _ inside,
      List.getElem_dropLast, List.getElem_set]
    simp only [Daemon.live, Daemon.getElem_liveSlots, eq_comm]

end

/-! ## Loops in single rounds -/

/-- What the body of a loop does with the slot at its index. -/
inductive SlotFate
  | removed
  | kept
  | written (r : SlotRecord) (events : List Event)

/-- What becomes of the slot's record. -/
def SlotFate.record (old : SlotRecord) : SlotFate → Option SlotRecord
  | .removed => none
  | .kept => some old
  | .written r _ => some r

/-- The variables of a loop over the slots, and the slots it has visited. -/
structure SlotScan (σ : Type) where
  world : World
  i : Nat
  extra : σ
  visited : List SlotRecord

/-- One round of a loop; `none` once its condition fails. -/
def slotRound (body : σ → SlotRecord → σ × SlotFate) (scan : SlotScan σ) :
    Option (SlotScan σ) :=
  if below : scan.i < scan.world.daemon.gNActive then
    let here := scan.world.daemon.live below
    let r := scan.world.daemon.slot here
    let result := body scan.extra r
    let visited := scan.visited ++ [r]
    match result.2 with
    | .removed =>
        some ⟨removeSlot scan.world scan.i below, scan.i, result.1, visited⟩
    | .kept => some ⟨scan.world, scan.i + 1, result.1, visited⟩
    | .written after events =>
        some ⟨scan.world.putSlot here after events, scan.i + 1, result.1, visited⟩
  else none

/-- The body of the slow-path loop; the loop's other variable is `displayed`. -/
def slowBody (env : TickEnv) (slowDt : ℚ) (displayLimit : Int) (displayed : Nat)
    (r : SlotRecord) : Nat × SlotFate :=
  let shown : Bool := decide ((displayed : Int) < displayLimit)
  match slowVisit r (env.slow r.pid) env.now slowDt shown with
  | .unreadable => (displayed, .removed)
  | .skipped r events => (displayed, .written r events)
  | .sampled r events =>
      (if shown then displayed + 1 else displayed, .written r events)

/-- The body of a removal loop. -/
def removalBody (gone : PidState → Bool) (_ : Unit) (r : SlotRecord) :
    Unit × SlotFate :=
  ((), if gone r.state then .removed else .kept)

/-- The slow-path loop goes on as its first round says. -/
theorem slowLoop_round
    (env : TickEnv)
    (slowDt : ℚ)
    (displayLimit : Int)
    (fuel : Nat)
    (scan : SlotScan Nat) :
    slowLoop env slowDt displayLimit (fuel + 1) scan.i scan.extra scan.world =
      ((slotRound (slowBody env slowDt displayLimit) scan).map fun next =>
        slowLoop env slowDt displayLimit fuel next.i next.extra next.world).getD
          scan.world := by
  rw [slowLoop]
  unfold slotRound
  split
  · next below =>
      dsimp only [slowBody]
      cases slowVisit _ _ _ _ _ <;> rfl
  · rfl

/-- So does a removal loop. -/
theorem removeWhere_round
    (gone : PidState → Bool)
    (fuel : Nat)
    (scan : SlotScan Unit) :
    removeWhere gone (fuel + 1) scan.i scan.world =
      ((slotRound (removalBody gone) scan).map fun next =>
        removeWhere gone fuel next.i next.world).getD scan.world := by
  rw [removeWhere]
  unfold slotRound
  split
  · next below =>
      dsimp only [removalBody]
      have same : scan.world.daemon.gStates (scan.world.daemon.live below) =
          (scan.world.daemon.slot (scan.world.daemon.live below)).state := rfl
      rw [same]
      split <;> rfl
  · rfl

/-! ## Rounds mirror a scan of the live slots -/

/-- The visits of a loop as visits of list elements. -/
def visitOf (body : σ → SlotRecord → σ × SlotFate) (extra : σ) (r : SlotRecord) :
    σ × Option SlotRecord :=
  ((body extra r).1, (body extra r).2.record r)

/-- The table is the scanned list, split at the loop's index. -/
structure Mirrors (scan : SlotScan σ) (mirror : Scan σ SlotRecord) : Prop where
  slots : scan.world.daemon.liveSlots = mirror.kept ++ mirror.pending
  index : scan.i = mirror.kept.length
  extra : scan.extra = mirror.extra
  visited : scan.visited = mirror.visited

section

variable {σ : Type} {body : σ → SlotRecord → σ × SlotFate}

/-- Every round of the loop is a round of the scan. -/
theorem slotRound_mirrors
    (body : σ → SlotRecord → σ × SlotFate)
    (scan : SlotScan σ)
    (mirror : Scan σ SlotRecord)
    (mirrors : Mirrors scan mirror) :
    Option.Rel Mirrors (slotRound body scan) (visitNext (visitOf body) mirror) := by
  obtain ⟨w, i, extra, visited⟩ := scan
  obtain ⟨kept, pending, visited, extra⟩ := mirror
  obtain ⟨slots, index, sameExtra, sameVisited⟩ := mirrors
  dsimp only at slots index sameExtra sameVisited
  subst index sameExtra sameVisited
  have size := congrArg List.length slots
  rw [Daemon.length_liveSlots, List.length_append] at size
  cases pending with
  | nil =>
      unfold slotRound
      rw [dif_neg (by simpa using size.le)]
      exact .none
  | cons r rest =>
      have below : kept.length < w.daemon.gNActive := by
        rw [size, List.length_cons]
        omega
      have here : w.daemon.slot (w.daemon.live below) = r := by
        have inside : kept.length < w.daemon.liveSlots.length := by
          rwa [Daemon.length_liveSlots]
        have shown := Daemon.getElem_liveSlots inside
        simpa [slots] using shown.symm
      unfold slotRound visitNext visitOf
      dsimp only
      rw [dif_pos below, here]
      rcases body extra r with ⟨next, removed | kept | ⟨after, events⟩⟩
      · refine .some ⟨?_, rfl, rfl, rfl⟩
        dsimp only
        have occupied : w.daemon.liveSlots ≠ [] := by simp [slots]
        have last := Daemon.getLast_liveSlots occupied
        rw [removeSlot_liveSlots below, ← last]
        simp only [slots]
        exact dropLast_set_getLast kept r rest
      · refine .some ⟨?_, ?_, rfl, rfl⟩
        · simpa using slots
        · simp
      · refine .some ⟨?_, ?_, rfl, rfl⟩
        · dsimp only
          rw [putSlot_liveSlots below, slots]
          simp
        · simp

/-- A loop over the slots of `w` ends, after one round for each of them, and has
visited each of them once. -/
structure VisitsOnce (body : σ → SlotRecord → σ × SlotFate) (w : World) (extra : σ)
    (final : SlotScan σ) : Prop where
  run : repeatStep (slotRound body) w.daemon.gNActive ⟨w, 0, extra, []⟩ =
    some final
  ended : slotRound body final = none
  visited : final.visited.Perm w.daemon.liveSlots

/-- Every loop ends so, and leaves the slots that its test does not remove. -/
theorem slotScan_finish
    {gone : SlotRecord → Bool}
    {key : SlotRecord → β}
    (removes : ∀ extra r, gone r = true → (body extra r).2.record r = none)
    (keeps : ∀ extra r, gone r = false →
      ∃ after, (body extra r).2.record r = some after ∧ key after = key r)
    (w : World)
    (extra : σ) :
    ∃ final, VisitsOnce body w extra final ∧
      (final.world.daemon.liveSlots.map key).Perm
        ((w.daemon.liveSlots.filter (!gone ·)).map key) := by
  let mirror : Scan σ SlotRecord := ⟨[], w.daemon.liveSlots, [], extra⟩
  have start : Mirrors ⟨w, 0, extra, []⟩ mirror := ⟨rfl, rfl, rfl, rfl⟩
  obtain ⟨mirrored, scanned, empty, order⟩ := rounds_finish (visitOf body) mirror
  have remaining := rounds_kept (visitOf body) removes keeps scanned
  have length : mirror.pending.length = w.daemon.gNActive :=
    Daemon.length_liveSlots
  rw [length] at scanned
  have related := repeatStep_simulates (slotRound_mirrors body) w.daemon.gNActive start
  rw [scanned] at related
  generalize ran : repeatStep (slotRound body) w.daemon.gNActive ⟨w, 0, extra, []⟩ = result
    at related
  cases related with
  | @some final _ mirrors =>
      refine ⟨final, ⟨ran, ?_, ?_⟩, ?_⟩
      · have last := slotRound_mirrors body final mirrored mirrors
        rw [visitNext_eq_none_iff.mpr empty] at last
        generalize slotRound body final = next at last ⊢
        cases last
        rfl
      · rw [mirrors.visited]
        exact order
      · rw [mirrors.slots]
        simpa [empty, mirror] using remaining

/-- A loop that stops with its fuel and otherwise goes on as its rounds say ends
where they end. -/
theorem loop_eq_of_run
    (loop : Nat → SlotScan σ → World)
    (stops : ∀ scan, loop 0 scan = scan.world)
    (goesOn : ∀ fuel scan, loop (fuel + 1) scan =
      ((slotRound body scan).map (loop fuel)).getD scan.world)
    {count fuel : Nat}
    (enough : count ≤ fuel)
    {scan final : SlotScan σ}
    (run : repeatStep (slotRound body) count scan = some final)
    (ended : slotRound body final = none) :
    loop fuel scan = final.world := by
  induction count generalizing fuel scan with
  | zero =>
      cases run
      cases fuel with
      | zero => exact stops _
      | succ fuel =>
          rw [goesOn, ended]
          rfl
  | succ count inductionHypothesis =>
      obtain ⟨next, taken, remaining⟩ := Option.bind_eq_some_iff.mp run
      cases fuel with
      | zero => exact absurd enough (Nat.not_succ_le_zero count)
      | succ fuel =>
          rw [goesOn, taken]
          exact inductionHypothesis (Nat.le_of_succ_le_succ enough) remaining

end

/-! ## The three loops -/

/-- Whether `perf_counter_read` succeeds for a slot. -/
def readable (env : TickEnv) (r : SlotRecord) : Bool :=
  (perfCounterRead r.perf (env.slow r.pid).hw).isSome

section

variable (env : TickEnv) (slowDt : ℚ) (displayLimit : Int)

theorem slowBody_unreadable
    (displayed : Nat)
    {r : SlotRecord}
    (failed : (!readable env r) = true) :
    (slowBody env slowDt displayLimit displayed r).2.record r = none := by
  have unread : perfCounterRead r.perf (env.slow r.pid).hw = none := by
    simpa [readable] using failed
  unfold slowBody slowVisit
  rw [unread]
  rfl

theorem slowBody_readable
    (displayed : Nat)
    {r : SlotRecord}
    (read : (!readable env r) = false) :
    ∃ after, (slowBody env slowDt displayLimit displayed r).2.record r = some after ∧
      after.pid = r.pid := by
  have reading : perfCounterRead r.perf (env.slow r.pid).hw ≠ none := by
    simpa [readable, Option.isSome_iff_ne_none] using read
  unfold slowBody
  dsimp only
  split
  · next outcome => exact absurd (slowVisit_eq_unreadable outcome) reading
  · next after events outcome => exact ⟨after, rfl, slowVisit_pid (.inl outcome)⟩
  · next after events outcome => exact ⟨after, rfl, slowVisit_pid (.inr outcome)⟩

end

theorem Daemon.Distinct.nodup_pids
    {s : Daemon}
    (distinct : s.Distinct) :
    (s.liveSlots.map SlotRecord.pid).Nodup := by
  unfold Daemon.liveSlots
  rw [List.map_ofFn, List.nodup_ofFn]
  intro i j equal
  have same := distinct (s.live i.isLt) (s.live j.isLt) i.isLt j.isLt equal
  have index := congrArg Fin.val same
  exact Fin.ext index

/-- A removal loop ends after one round for each live slot, and leaves the slots
that fail its condition. -/
theorem removeWhere_finish (gone : PidState → Bool) (w : World) :
    ∃ final, VisitsOnce (removalBody gone) w () final ∧
      (∀ fuel ≥ w.daemon.gNActive, removeWhere gone fuel 0 w = final.world) ∧
      final.world.daemon.liveSlots.Perm
        (w.daemon.liveSlots.filter fun r => !gone r.state) := by
  have removes : ∀ (extra : Unit) (r : SlotRecord), gone r.state = true →
      (removalBody gone extra r).2.record r = none := by
    intro extra r condition
    simp [removalBody, condition, SlotFate.record]
  have keeps : ∀ (extra : Unit) (r : SlotRecord), gone r.state = false →
      ∃ after, (removalBody gone extra r).2.record r = some after ∧
        id after = id r := by
    intro extra r condition
    exact ⟨r, by simp [removalBody, condition, SlotFate.record], rfl⟩
  obtain ⟨final, once, remaining⟩ := slotScan_finish removes keeps w ()
  refine ⟨final, once, ?_, by simpa using remaining⟩
  intro fuel enough
  exact loop_eq_of_run
    (fun fuel scan => removeWhere gone fuel scan.i scan.world)
    (fun _ => rfl) (removeWhere_round gone) enough once.run once.ended

/-- For every table, the slow path ends after as many rounds as there are live
slots, reads the counters of each of these slots once, and leaves the pids whose
counters could be read.  A removal loop ends so too and leaves the slots that
fail its condition. -/
theorem slotLoops_visitOnce (w : World) :
    (∀ env slowDt displayLimit, ∃ final,
      VisitsOnce (slowBody env slowDt displayLimit) w 0 final ∧
      (w.daemon.Distinct → (final.visited.map SlotRecord.pid).Nodup) ∧
      (∀ fuel ≥ w.daemon.gNActive,
        slowLoop env slowDt displayLimit fuel 0 0 w = final.world) ∧
      (final.world.daemon.liveSlots.map SlotRecord.pid).Perm
        ((w.daemon.liveSlots.filter (readable env)).map SlotRecord.pid)) ∧
    ∀ gone, ∃ final,
      VisitsOnce (removalBody gone) w () final ∧
      (∀ fuel ≥ w.daemon.gNActive, removeWhere gone fuel 0 w = final.world) ∧
      final.world.daemon.liveSlots.Perm
        (w.daemon.liveSlots.filter fun r => !gone r.state) := by
  constructor
  · intro env slowDt displayLimit
    obtain ⟨final, once, remaining⟩ := slotScan_finish
      (slowBody_unreadable env slowDt displayLimit)
      (slowBody_readable env slowDt displayLimit) w 0
    refine ⟨final, once, ?_, ?_, by simpa using remaining⟩
    · intro distinct
      exact ((once.visited.map SlotRecord.pid).nodup_iff).mpr distinct.nodup_pids
    · intro fuel enough
      exact loop_eq_of_run
        (fun fuel scan =>
          slowLoop env slowDt displayLimit fuel scan.i scan.extra scan.world)
        (fun _ => rfl) (slowLoop_round env slowDt displayLimit)
        enough once.run once.ended
  · exact fun gone => removeWhere_finish gone w

end Schedmon
