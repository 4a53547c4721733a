import Schedmon.Daemon.Quiet
import Schedmon.Daemon.Publishing
import Schedmon.Daemon.Visits

/-!
# What the dashboard's ring is fed

Only a slow tick pushes to the dashboard's ring, and it pushes at most one record
for each slot.
-/

namespace Schedmon

open Library Transition

/-- The record that an event pushes to the dashboard's ring. -/
def Event.dashPush? : Event → Option SmoothedMetrics
  | .pushed .dashboard m => some m
  | _ => none

/-- The records pushed to the dashboard's ring, in order. -/
def dashPushes (log : List Event) : List SmoothedMetrics :=
  log.filterMap Event.dashPush?

/-- What an event adds to the batches: a slow tick begins one. -/
def Event.batched (batches : List (List SmoothedMetrics)) (e : Event) :
    List (List SmoothedMetrics) :=
  match e with
  | .tick _ true => batches ++ [[]]
  | .pushed .dashboard m =>
      match batches.getLast? with
      | none => [[m]]
      | some batch => batches.dropLast ++ [batch ++ [m]]
  | _ => batches

/-- The records pushed to the dashboard's ring, one batch for each slow tick. -/
def dashBatches (log : List Event) : List (List SmoothedMetrics) :=
  log.foldl Event.batched []

/-- The slow ticks among some ticks, of which the first has the given number. -/
def slowTicks : ℕ → List TickEnv → List TickEnv
  | _, [] => []
  | sampleNum, env :: rest =>
      (if sampleNum % 4 = 0 then [env] else []) ++ slowTicks ((sampleNum + 1) % 4) rest

/-- A batch holds at most one record for each of at most `MAX_PIDS` processes, all
stamped with the time of the tick. -/
structure DashBatch (now : UInt64) (batch : List SmoothedMetrics) : Prop where
  few : batch.length ≤ maxPids
  nodup : (batch.map SmoothedMetrics.pid).Nodup
  stamped : ∀ m ∈ batch, m.timestampNs = now

/-! ## Events that begin no tick -/

theorem dashPushes_append (earlier later : List Event) :
    dashPushes (earlier ++ later) = dashPushes earlier ++ dashPushes later :=
  List.filterMap_append

@[simp] theorem dashPushes_singleton (e : Event) :
    dashPushes [e] = e.dashPush?.toList := by
  unfold dashPushes
  cases pushed : e.dashPush? with
  | none => simp [pushed]
  | some m => simp [pushed]

@[simp] theorem dashBatches_concat (log : List Event) (e : Event) :
    dashBatches (log ++ [e]) = Event.batched (dashBatches log) e :=
  List.foldl_concat _ _ _ _

/-- Quiet events add nothing. -/
theorem dashBatches_append_quiet
    (log : List Event)
    {events : List Event}
    (quiet : ∀ e ∈ events, e.quiet = true) :
    dashBatches (log ++ events) = dashBatches log := by
  induction events using List.reverseRecOn with
  | nil => rw [List.append_nil]
  | append_singleton events e inductionHypothesis =>
      have last := quiet e (List.mem_append_right _ List.mem_cons_self)
      rw [← List.append_assoc, dashBatches_concat, inductionHypothesis fun earlier member =>
        quiet earlier (List.mem_append_left _ member)]
      cases e with
      | pushed ring m =>
          cases ring with
          | classifier => rfl
          | dashboard => cases last
      | tick now slow => cases last
      | _ => rfl

theorem LogsQuiet.dashBatches_eq
    {w next : World}
    (logs : LogsQuiet w next) :
    dashBatches next.log = dashBatches w.log := by
  obtain ⟨events, log, quiet⟩ := logs
  rw [log, dashBatches_append_quiet _ quiet]

/-- Inside a tick what is pushed goes to its batch. -/
theorem dashBatches_append
    {log events : List Event}
    {earlier : List (List SmoothedMetrics)}
    {batch : List SmoothedMetrics}
    (before : dashBatches log = earlier ++ [batch])
    (noTick : ∀ e ∈ events, e.tick? = none) :
    dashBatches (log ++ events) = earlier ++ [batch ++ dashPushes events] := by
  induction events using List.reverseRecOn with
  | nil => simpa [dashPushes] using before
  | append_singleton events e inductionHypothesis =>
      have last := noTick e (List.mem_append_right _ List.mem_cons_self)
      rw [← List.append_assoc, dashBatches_concat, dashPushes_append,
        inductionHypothesis fun other member => noTick other (List.mem_append_left _ member),
        dashPushes_singleton]
      cases e with
      | pushed ring m => cases ring <;> simp [Event.batched, Event.dashPush?]
      | tick now slow => cases last
      | _ => simp [Event.batched, Event.dashPush?]

/-! ## The slow path -/

section

variable {env : TickEnv} {dt : ℚ} {displayLimit : Int}

/-- A pass that writes its slot pushes at most one record, under the slot's pid and
at the time of the tick. -/
theorem slowBody_written
    {displayed : Nat}
    {r after : SlotRecord}
    {events : List Event}
    (body : (slowBody env dt displayLimit displayed r).2 = .written after events) :
    (∀ e ∈ events, e.tick? = none) ∧
      ((dashPushes events).map SmoothedMetrics.pid).Sublist [r.pid] ∧
      ∀ m ∈ dashPushes events, m.timestampNs = env.now := by
  unfold slowBody at body
  dsimp only at body
  rcases slowVisit_cases r (env.slow r.pid) env.now dt
      (decide ((displayed : Int) < displayLimit)) with
    ⟨_, outcome⟩ | ⟨hw, _, ⟨_, outcome⟩ | ⟨_, _, outcome⟩⟩
  · rw [outcome] at body
    cases body
  · rw [outcome] at body
    cases body
    simp [Event.tick?, Event.dashPush?]
  · rw [outcome] at body
    dsimp only at body
    have noPush : dashPushes (sampleEvents r hw (env.slow r.pid) dt) = [] := by
      unfold sampleEvents dashPushes
      simp [Event.dashPush?, List.filterMap_map]
    have noTick : ∀ e ∈ sampleEvents r hw (env.slow r.pid) dt, e.tick? = none :=
      fun e member => Event.tick?_of_pid? (sampleEvents_sampling r hw _ dt e member).1
    rcases takeSample_cases r hw (env.slow r.pid) env.now dt
        (decide ((displayed : Int) < displayLimit)) with
      ⟨_, equal⟩ | ⟨_, equal⟩
    · rw [equal] at body
      cases body
      have pushed (m : SmoothedMetrics) :
          dashPushes [.pushed .classifier m, .pushed .dashboard m] = [m] := rfl
      rw [dashPushes_append, noPush, pushed]
      refine ⟨?_, ?_, ?_⟩
      · intro e member
        rcases List.mem_append.mp member with sampling | pushing
        · exact noTick e sampling
        · simp only [List.mem_cons, List.not_mem_nil, or_false] at pushing
          rcases pushing with rfl | rfl <;> rfl
      · simp
      · simp [SmoothedMetrics.stamp]
    · rw [equal] at body
      cases body
      rw [noPush]
      exact ⟨noTick, List.nil_sublist _, List.forall_mem_nil _⟩

/-- The batch of the tick under way, from the slots visited so far. -/
structure Batching (env : TickEnv) (earlier : List (List SmoothedMetrics))
    (batch : List SmoothedMetrics) (scan : SlotScan ℕ) : Prop where
  batches : dashBatches scan.world.log = earlier ++ [batch]
  visited : (batch.map SmoothedMetrics.pid).Sublist (scan.visited.map SlotRecord.pid)
  stamped : ∀ m ∈ batch, m.timestampNs = env.now

/-- A visit adds at most one record. -/
theorem Batching.round
    {earlier : List (List SmoothedMetrics)}
    {batch : List SmoothedMetrics}
    {scan next : SlotScan ℕ}
    (holds : Batching env earlier batch scan)
    (taken : slotRound (slowBody env dt displayLimit) scan = some next) :
    ∃ batch, Batching env earlier batch next := by
  unfold slotRound at taken
  split at taken
  · next below =>
      dsimp only at taken
      generalize scan.world.daemon.slot (scan.world.daemon.live below) = r at taken
      split at taken
      · cases taken
        refine ⟨batch, ?_, ?_, holds.stamped⟩
        · rw [(removeSlot_logsQuiet below).dashBatches_eq]
          exact holds.batches
        · rw [List.map_append]
          exact holds.visited.trans (List.sublist_append_left _ _)
      · cases taken
        refine ⟨batch, holds.batches, ?_, holds.stamped⟩
        rw [List.map_append]
        exact holds.visited.trans (List.sublist_append_left _ _)
      · next after events written =>
          cases taken
          obtain ⟨noTick, pids, stamped⟩ := slowBody_written written
          refine ⟨batch ++ dashPushes events, dashBatches_append holds.batches noTick, ?_, ?_⟩
          · rw [List.map_append, List.map_append]
            exact holds.visited.append pids
          · intro m member
            rcases List.mem_append.mp member with old | new
            · exact holds.stamped m old
            · exact stamped m new
  · cases taken

/-- The slow path fills the batch of its tick. -/
theorem slowLoop_dashBatches
    (env : TickEnv)
    (dt : ℚ)
    (displayLimit : Int)
    {w : World}
    (distinct : w.daemon.Distinct)
    {earlier : List (List SmoothedMetrics)}
    (begun : dashBatches w.log = earlier ++ [[]]) :
    ∃ batch, dashBatches (slowLoop env dt displayLimit w.daemon.gNActive 0 0 w).log =
      earlier ++ [batch] ∧ DashBatch env.now batch := by
  obtain ⟨final, once, -⟩ := slotScan_finish
    (slowBody_unreadable env dt displayLimit)
    (slowBody_readable env dt displayLimit) w 0
  have ends := loop_eq_of_run
    (fun fuel scan => slowLoop env dt displayLimit fuel scan.i scan.extra scan.world)
    (fun _ => rfl) (slowLoop_round env dt displayLimit)
    (le_refl w.daemon.gNActive) once.run once.ended
  obtain ⟨batch, batching⟩ := repeatStep_invariant
    (fun scan => ∃ batch, Batching env earlier batch scan)
    (fun scan next ⟨batch, holds⟩ taken => holds.round taken)
    ⟨[], begun, List.nil_sublist _, List.forall_mem_nil _⟩ once.run
  have length := batching.visited.length_le
  rw [List.length_map, List.length_map, once.visited.length_eq, Daemon.length_liveSlots]
    at length
  refine ⟨batch, ends ▸ batching.batches, ?_, ?_, batching.stamped⟩
  · exact length.trans w.daemon.gNActive_le
  · exact batching.visited.nodup
      (((once.visited.map SlotRecord.pid).nodup_iff).mpr distinct.nodup_pids)

end

/-! ## Runs -/

section

variable {qsort : Qsort} {cfg : DaemonConfig}

variable (qsort) in
/-- A slow tick adds one batch, any other tick none. -/
theorem tick_dashBatches
    {st : LoopState}
    (env : TickEnv)
    (lawful : Lawful (publishingLaw cfg) st) :
    ∃ batches, dashBatches (tick qsort cfg st env).world.log =
        dashBatches st.world.log ++ batches ∧
      List.Forall₂ (fun env batch => DashBatch env.now batch)
        (if st.sampleNum % 4 = 0 then [env] else []) batches := by
  have ticked (slow : Bool) : dashBatches (st.world.emit (.tick env.now slow)).log =
      Event.batched (dashBatches st.world.log) (.tick env.now slow) :=
    dashBatches_concat _ _
  unfold tick LoopState.slowTick
  by_cases slow : st.sampleNum % 4 = 0
  · simp only [slow, decide_true, if_true]
    have synced := ((lawful.governed.emitTick env.now true).syncPids qsort env.sync
      (inSlowTick_slowTick _ _)).distinct
    have begun := ((syncPids_logsQuiet qsort cfg env.sync
      (st.world.emit (.tick env.now true))).dashBatches_eq).trans (ticked true)
    unfold fastPath slowPath
    dsimp only
    generalize syncPids qsort cfg env.sync _ = w at synced begun ⊢
    obtain ⟨batch, pushed, whole⟩ := slowLoop_dashBatches env (slowDt st env.now)
      (if cfg.topN > 0 then cfg.topN else (w.daemon.gNActive : Int)) synced begun
    refine ⟨[batch], ?_, .cons whole .nil⟩
    rw [(fastLoop_logsQuiet env.now _ 0 _).dashBatches_eq, pushed]
  · simp only [slow, decide_false, if_false, Bool.false_eq_true]
    refine ⟨[], ?_, .nil⟩
    unfold fastPath
    rw [(fastLoop_logsQuiet env.now _ 0 _).dashBatches_eq, ticked, List.append_nil]
    rfl

/-- In every run the dashboard's ring is fed one batch for each slow tick. -/
theorem runSamplingLoop_dashBatches
    (qsort : Qsort)
    (cfg : DaemonConfig)
    (start : UInt64)
    (envs : List TickEnv) :
    List.Forall₂ (fun env batch => DashBatch env.now batch) (slowTicks 0 envs)
      (dashBatches (runSamplingLoop qsort cfg start envs).world.log) := by
  have later (st : LoopState) (lawful : Lawful (publishingLaw cfg) st) :
      ∃ batches, dashBatches (envs.foldl (tick qsort cfg) st).world.log =
          dashBatches st.world.log ++ batches ∧
        List.Forall₂ (fun env batch => DashBatch env.now batch)
          (slowTicks st.sampleNum envs) batches := by
    induction envs generalizing st with
    | nil => exact ⟨[], (List.append_nil _).symm, .nil⟩
    | cons env rest inductionHypothesis =>
        obtain ⟨here, added, whole⟩ := tick_dashBatches qsort env lawful
        have number : (tick qsort cfg st env).sampleNum = (st.sampleNum + 1) % 4 := by
          unfold tick
          split <;> rfl
        obtain ⟨batches, grown, others⟩ :=
          inductionHypothesis (tick qsort cfg st env) (tick_lawful qsort env lawful)
        refine ⟨here ++ batches, ?_, ?_⟩
        · rw [List.foldl_cons, grown, added, List.append_assoc]
        · rw [number] at others
          exact List.rel_append whole others
  obtain ⟨batches, grown, whole⟩ := later _ (start_lawful (publishingLaw cfg) start)
  unfold runSamplingLoop
  rw [grown]
  exact whole

theorem length_dashBatch_le
    (qsort : Qsort)
    (cfg : DaemonConfig)
    (start : UInt64)
    (envs : List TickEnv) :
    ∀ batch ∈ dashBatches (runSamplingLoop qsort cfg start envs).world.log,
      batch.length ≤ maxPids := by
  have whole := runSamplingLoop_dashBatches qsort cfg start envs
  generalize slowTicks 0 envs = ticks, dashBatches _ = batches at whole ⊢
  induction whole with
  | nil => exact List.forall_mem_nil _
  | cons batch _ inductionHypothesis =>
      exact List.forall_mem_cons.mpr ⟨batch.few, inductionHypothesis⟩

end

end Schedmon
