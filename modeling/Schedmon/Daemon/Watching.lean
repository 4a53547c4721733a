import Schedmon.Bpf.PidView
import Schedmon.Bpf.Tracer
import Schedmon.Daemon.Sync

/-!
# Watching the tracked processes

The daemon and the kernel hooks both write `active_pids`.  Whatever the order
of their operations, the pid of a live slot is in the map while its process is
alive.
-/

namespace Schedmon

open Library Transition

/-- `(uint32_t)pid`. -/
def pidKey (pid : Int) : UInt32 := UInt32.ofInt pid

/-- The values of `int`. -/
def IsInt (pid : Int) : Prop := -2147483648 ≤ pid ∧ pid < 2147483648

instance (pid : Int) : Decidable (IsInt pid) := inferInstanceAs (Decidable (_ ∧ _))

theorem pidKey_toNat (pid : Int) :
    ((pidKey pid).toNat : Int) = pid % 4294967296 := by
  have nonneg := Int.emod_nonneg pid (b := 4294967296) (by decide)
  have below := Int.emod_lt_of_pos pid (b := 4294967296) (by decide)
  have unfolded : (pidKey pid).toNat = (pid % 4294967296).toNat % 4294967296 :=
    UInt32.toNat_ofNat'
  omega

theorem pidKey_injective {pid other : Int}
    (isInt : IsInt pid)
    (otherIsInt : IsInt other)
    (same : pidKey pid = pidKey other) :
    pid = other := by
  obtain ⟨_, _⟩ := isInt
  obtain ⟨_, _⟩ := otherIsInt
  have first := pidKey_toNat pid
  have second := pidKey_toNat other
  rw [same] at first
  omega

/-! ## The kernel and the daemon -/

/-- The maps, and the processes that are alive. -/
structure KernelState where
  maps : BpfMaps .unlimited
  processes : Finset UInt32

/-- What happens in the kernel. -/
inductive KernelStep
  /-- A tracepoint runs its handler. -/
  | traced (e : KernelEvent)
  /-- A process ends, and the task that ends it has another id. -/
  | ended (process : UInt32)

/-- The processes after an event.  A fork of a task of an existing process
starts none. -/
def processesAfter (processes : Finset UInt32) : KernelEvent → Finset UInt32
  | .fork childPid process =>
      if childPid = process then insert process processes else processes
  | .exit pid groupDead => if groupDead then processes.erase pid else processes
  | _ => processes

namespace KernelState

/-- One step of the kernel. -/
def step (k : KernelState) : KernelStep → KernelState
  | .traced e => ⟨handleEvent k.maps e, processesAfter k.processes e⟩
  | .ended process => { k with processes := k.processes.erase process }

/-- Several steps of the kernel. -/
def steps (k : KernelState) (between : List KernelStep) : KernelState :=
  between.foldl step k

/-- Block completions are charged to the process with this id while it is alive.
No handler takes the ids 0 and 1 out of the map. -/
def Watches (k : KernelState) (key : UInt32) : Prop :=
  key ∈ k.processes ∨ key ≤ 1 → (k.maps.activePids.lookup key).isSome

end KernelState

/-- What the kernel does before the steps of an `add_pid` that touch the maps:
the lookup and the delete of the popped name, the registration, and the end. -/
structure AddWindows where
  lookup : List KernelStep
  delete : List KernelStep
  register : List KernelStep
  finish : List KernelStep

/-- The daemon, and the kernel. -/
structure WatchState where
  world : World
  kernel : KernelState

/-- No slot is live and the maps are empty, whatever processes there are. -/
def WatchState.start (processes : Finset UInt32) : WatchState :=
  ⟨⟨Daemon.start, []⟩, ⟨.start .unlimited, processes⟩⟩

/-- A step of the kernel, or an operation of the daemon with what the kernel
does meanwhile. -/
inductive WatchAction
  | kernel (step : KernelStep)
  | addPid (pid : Int) (readings : AddReadings) (windows : AddWindows)
  | removeSlot (i : Nat) (finish : List KernelStep)
  /-- A pass over a slot, which may pop a name. -/
  | write (i : Nat) (write : SlotWrite) (pops : Bool)

/-- The kernel after an `add_pid` that opened the counters. -/
def KernelState.enroll (k : KernelState) (key : UInt32) (windows : AddWindows) :
    KernelState :=
  let atLookup := k.steps windows.lookup
  let atDelete := atLookup.steps windows.delete
  let popped :=
    if (lookupExecComm atLookup.maps key).isSome then
      { atDelete with maps := deleteExecComm atDelete.maps key }
    else atDelete
  let atRegister := popped.steps windows.register
  let registered := { atRegister with maps := registerPid atRegister.maps key }
  registered.steps windows.finish

/-- Take an action where it is possible. -/
def watchStep : WatchAction → WatchState → Option WatchState
  | .kernel step, s => some { s with kernel := s.kernel.step step }
  | .addPid pid readings windows, s =>
      if IsInt pid ∧ s.world.daemon.findSlot pid = none then
        let comm := lookupExecComm (s.kernel.steps windows.lookup).maps (pidKey pid)
        let result := Schedmon.addPid s.world pid { readings with execComm := comm }
        some
          ⟨result.2,
            if result.1.isSome then s.kernel.enroll (pidKey pid) windows
            else s.kernel.steps windows.lookup⟩
      else none
  | .removeSlot i finish, s =>
      if below : i < s.world.daemon.gNActive then
        let pid := (s.world.daemon.slot (s.world.daemon.live below)).pid
        let unregistered :=
          { s.kernel with maps := unregisterPid s.kernel.maps (pidKey pid) }
        some ⟨Schedmon.removeSlot s.world i below, unregistered.steps finish⟩
      else none
  | .write i write pops, s =>
      if below : i < s.world.daemon.gNActive then
        let r := s.world.daemon.slot (s.world.daemon.live below)
        (write.apply r).map fun result =>
          ⟨s.world.putSlot (s.world.daemon.live below) result.1 result.2,
            if pops then
              { s.kernel with maps := deleteExecComm s.kernel.maps (pidKey r.pid) }
            else s.kernel⟩
      else none

/-! ## What the steps keep -/

/-- Only the end of a group of tasks takes a pid out of `active_pids`. -/
theorem PidView.step_activePids
    {v : PidView}
    (pid : UInt32)
    (active : v.activePids.isSome)
    (e : KernelEvent) :
    (v.step pid e).activePids.isSome ∨ 1 < pid ∧ e = .exit pid true := by
  cases e with
  | schedSwitch ctx now cpu =>
      left
      simp only [step]
      split
      · rw [switchIn_activePids]
        split <;> exact active
      · split <;> exact active
  | schedWakeup other now =>
      left
      simp only [step]
      split <;> exact active
  | fork childPid process =>
      left
      simp only [step]
      split
      · rfl
      · exact active
  | exit other groupDead =>
      simp only [step]
      split
      · next ends =>
          obtain ⟨rfl, notKernel, rfl⟩ := ends
          exact .inr ⟨notKernel, rfl⟩
      · exact .inl active
  | exec other comm =>
      left
      simp only [step]
      split
      · rfl
      · exact active
  | blockRqIssue other rqPtr now =>
      left
      simp only [step]
      split <;> exact active
  | blockRqComplete rqPtr now =>
      left
      simp only [step]
      split
      · rw [charge_activePids]
        exact active
      · exact active

/-- A fork puts its task into `active_pids`. -/
theorem handleFork_active
    (s : BpfMaps .unlimited)
    {childPid : UInt32}
    (process : UInt32)
    (notKernel : 1 < childPid) :
    ((handleEvent s (.fork childPid process)).activePids.lookup childPid).isSome := by
  change (handleFork s childPid).activePids.lookup childPid |>.isSome
  unfold handleFork
  rw [if_neg (UInt32.not_le.mpr notKernel)]
  simp

namespace KernelState

variable {k : KernelState} {key : UInt32}

theorem watches_of_active
    (active : (k.maps.activePids.lookup key).isSome) :
    k.Watches key := fun _ => active

/-- What the kernel does keeps a watched process watched. -/
theorem Watches.step
    (watches : k.Watches key)
    (between : KernelStep) :
    (k.step between).Watches key := by
  cases between with
  | ended process =>
      rintro (alive | kernel)
      · exact watches (.inl (Finset.mem_of_mem_erase alive))
      · exact watches (.inr kernel)
  | traced e =>
      by_cases active : (k.maps.activePids.lookup key).isSome
      · have kept := PidView.step_activePids (v := k.maps.view key) key active e
        rw [← view_handleEvent] at kept
        rcases kept with still | ⟨notKernel, rfl⟩
        · exact watches_of_active still
        · rintro (alive | kernel)
          · exact absurd alive (Finset.notMem_erase key k.processes)
          · exact absurd notKernel (UInt32.not_lt.mpr kernel)
      · have absent : key ∉ k.processes := fun alive => active (watches (.inl alive))
        have notKernel : 1 < key :=
          UInt32.not_le.mp fun kernel => active (watches (.inr kernel))
        rintro (alive | kernel)
        · cases e with
          | fork childPid process =>
              simp only [KernelState.step, processesAfter] at alive
              split at alive
              · next own =>
                  rcases Finset.mem_insert.mp alive with same | old
                  · have forked : childPid = key := own.trans same.symm
                    subst forked
                    exact handleFork_active k.maps process notKernel
                  · exact absurd old absent
              · exact absurd alive absent
          | exit pid groupDead =>
              simp only [KernelState.step, processesAfter] at alive
              split at alive
              · exact absurd (Finset.mem_of_mem_erase alive) absent
              · exact absurd alive absent
          | schedSwitch ctx now cpu => exact absurd alive absent
          | schedWakeup pid now => exact absurd alive absent
          | exec pid comm => exact absurd alive absent
          | blockRqIssue pid rqPtr now => exact absurd alive absent
          | blockRqComplete rqPtr now => exact absurd alive absent
        · exact absurd notKernel (UInt32.not_lt.mpr kernel)

theorem Watches.steps
    (watches : k.Watches key)
    (between : List KernelStep) :
    (k.steps between).Watches key := by
  unfold KernelState.steps
  induction between generalizing k with
  | nil => exact watches
  | cons first rest inductionHypothesis =>
      exact inductionHypothesis (watches.step first)

/-- Popping a name does not touch `active_pids`. -/
theorem Watches.deleteExecComm
    (watches : k.Watches key)
    (other : UInt32) :
    KernelState.Watches { k with maps := Schedmon.deleteExecComm k.maps other } key :=
  watches

/-- An admitted pid is watched, and every pid that was still is. -/
theorem admit_watches
    (admitted : UInt32)
    (windows : AddWindows)
    (watches : key = admitted ∨ k.Watches key) :
    (k.enroll admitted windows).Watches key := by
  unfold enroll
  dsimp only
  apply Watches.steps
  generalize atRegister : KernelState.steps _ windows.register = registering
  rcases watches with rfl | watches
  · apply watches_of_active
    simp [registerPid]
  · have before : registering.Watches key := by
      rw [← atRegister]
      apply Watches.steps
      split
      · exact ((watches.steps _).steps _).deleteExecComm admitted
      · exact (watches.steps _).steps _
    intro alive
    have active := before alive
    simp only [registerPid, BoundedMap.lookup_update_any]
    split
    · rfl
    · exact active

/-- Taking one pid out leaves the others watched. -/
theorem unregister_watches
    {gone : UInt32}
    (watches : k.Watches key)
    (other : key ≠ gone) :
    KernelState.Watches { k with maps := unregisterPid k.maps gone } key := by
  intro alive
  simpa [unregisterPid, other] using watches alive

end KernelState

/-! ## Runs -/

/-- Every slot's process is watched, and tells its pid by its id. -/
structure Watching (s : WatchState) : Prop where
  distinct : s.world.daemon.Distinct
  isInt : ∀ pid ∈ s.world.daemon.pids, IsInt pid
  watches : ∀ pid ∈ s.world.daemon.pids, s.kernel.Watches (pidKey pid)

theorem Watching.start (processes : Finset UInt32) :
    Watching (.start processes) where
  distinct := Daemon.start_distinct
  isInt := by
    intro pid tracked
    obtain ⟨i, below, _⟩ := Daemon.mem_pids.mp tracked
    exact absurd below (Nat.not_lt_zero _)
  watches := by
    intro pid tracked
    obtain ⟨i, below, _⟩ := Daemon.mem_pids.mp tracked
    exact absurd below (Nat.not_lt_zero _)

/-- The pids of a map with one more record. -/
theorem Daemon.mem_pids_of_insert
    {s t : Daemon}
    {pid other : Int}
    {r : SlotRecord}
    (effect : t.lookup = Function.update s.lookup pid (some r)) :
    other ∈ t.pids ↔ other = pid ∨ other ∈ s.pids := by
  rw [mem_pids_iff_lookup, mem_pids_iff_lookup, effect, Function.update_apply]
  by_cases same : other = pid
  · simp [same]
  · simp [same]

/-- The pids of a map with one record less. -/
theorem Daemon.mem_pids_of_delete
    {s t : Daemon}
    {pid other : Int}
    (effect : t.lookup = Function.update s.lookup pid none) :
    other ∈ t.pids ↔ other ≠ pid ∧ other ∈ s.pids := by
  rw [mem_pids_iff_lookup, mem_pids_iff_lookup, effect, Function.update_apply]
  by_cases same : other = pid
  · simp [same]
  · simp [same]

namespace Watching

variable {s : WatchState}

theorem addPid
    (watching : Watching s)
    {pid : Int}
    (isInt : IsInt pid)
    (untracked : s.world.daemon.findSlot pid = none)
    (readings : AddReadings)
    (windows : AddWindows) :
    Watching
      ⟨(Schedmon.addPid s.world pid readings).2,
        if (Schedmon.addPid s.world pid readings).1.isSome then
          s.kernel.enroll (pidKey pid) windows
        else s.kernel.steps windows.lookup⟩ := by
  obtain ⟨distinct, effect⟩ := addPid_lookup readings watching.distinct
    (Daemon.findSlot_eq_none_iff.mp untracked)
  cases admitted : (Schedmon.addPid s.world pid readings).1.isSome with
  | true =>
      simp only [admitted, if_true] at effect ⊢
      refine ⟨distinct, ?_, ?_⟩
      · intro other tracked
        rcases (Daemon.mem_pids_of_insert effect).mp tracked with rfl | old
        · exact isInt
        · exact watching.isInt other old
      · intro other tracked
        apply KernelState.admit_watches
        rcases (Daemon.mem_pids_of_insert effect).mp tracked with rfl | old
        · exact .inl rfl
        · exact .inr (watching.watches other old)
  | false =>
      simp only [admitted, Bool.false_eq_true, if_false] at effect ⊢
      have samePids (other : Int) :
          other ∈ (Schedmon.addPid s.world pid readings).2.daemon.pids ↔
            other ∈ s.world.daemon.pids := by
        rw [Daemon.mem_pids_iff_lookup, Daemon.mem_pids_iff_lookup, effect]
      exact
        { distinct := distinct
          isInt := fun other tracked => watching.isInt other ((samePids other).mp tracked)
          watches := fun other tracked =>
            (watching.watches other ((samePids other).mp tracked)).steps _ }

theorem removeSlot
    (watching : Watching s)
    {i : Nat}
    (below : i < s.world.daemon.gNActive)
    (finish : List KernelStep) :
    Watching
      ⟨Schedmon.removeSlot s.world i below,
        KernelState.steps
          { s.kernel with
            maps := unregisterPid s.kernel.maps
              (pidKey (s.world.daemon.slot (s.world.daemon.live below)).pid) }
          finish⟩ := by
  obtain ⟨distinct, effect⟩ := removeSlot_lookup watching.distinct below
  have gone := watching.isInt _
    (Daemon.mem_pids.mpr ⟨s.world.daemon.live below, below, rfl⟩)
  refine ⟨distinct, ?_, ?_⟩
  · intro other tracked
    exact watching.isInt other ((Daemon.mem_pids_of_delete effect).mp tracked).2
  · intro other tracked
    obtain ⟨different, old⟩ := (Daemon.mem_pids_of_delete effect).mp tracked
    apply KernelState.Watches.steps
    apply KernelState.unregister_watches (watching.watches other old)
    intro same
    exact different (pidKey_injective (watching.isInt other old) gone same)

theorem write
    (watching : Watching s)
    {i : Nat}
    (below : i < s.world.daemon.gNActive)
    {r : SlotRecord}
    (samePid : r.pid = (s.world.daemon.slot (s.world.daemon.live below)).pid)
    (events : List Event)
    (pops : Bool)
    (popped : UInt32) :
    Watching
      ⟨s.world.putSlot (s.world.daemon.live below) r events,
        if pops then { s.kernel with maps := deleteExecComm s.kernel.maps popped }
        else s.kernel⟩ := by
  obtain ⟨distinct, effect⟩ := putSlot_lookup watching.distinct
    (i := s.world.daemon.live below) below samePid events
  have samePids (other : Int)
      (tracked : other ∈ (s.world.putSlot (s.world.daemon.live below) r
        events).daemon.pids) :
      other ∈ s.world.daemon.pids := by
    rcases (Daemon.mem_pids_of_insert effect).mp tracked with rfl | old
    · rw [samePid]
      exact Daemon.mem_pids.mpr ⟨s.world.daemon.live below, below, rfl⟩
    · exact old
  refine ⟨distinct, fun other tracked => watching.isInt other (samePids other tracked),
    ?_⟩
  intro other tracked
  have watched := watching.watches other (samePids other tracked)
  dsimp only
  split
  · exact watched.deleteExecComm popped
  · exact watched

/-- Every action keeps the live slots watched. -/
theorem next
    (action : WatchAction)
    (s following : WatchState)
    (watching : Watching s)
    (taken : watchStep action s = some following) :
    Watching following := by
  cases action with
  | kernel between =>
      cases taken
      exact
        { distinct := watching.distinct
          isInt := watching.isInt
          watches := fun pid tracked => (watching.watches pid tracked).step between }
  | addPid pid readings windows =>
      simp only [watchStep] at taken
      split at taken
      · next possible =>
          cases taken
          exact watching.addPid possible.1 possible.2 _ windows
      · cases taken
  | removeSlot i finish =>
      simp only [watchStep] at taken
      split at taken
      · next below =>
          cases taken
          exact watching.removeSlot below finish
      · cases taken
  | write i write pops =>
      simp only [watchStep] at taken
      split at taken
      · next below =>
          obtain ⟨⟨after, events⟩, wrote, equal⟩ := Option.map_eq_some_iff.mp taken
          subst equal
          exact watching.write below (SlotWrite.apply_pid wrote) events pops _
      · cases taken

end Watching

/-- A completion of a watched process is counted. -/
theorem handleBlockRqComplete_counted
    {s : BpfMaps .unlimited}
    {key : UInt32}
    (active : (s.activePids.lookup key).isSome)
    {rqPtr : UInt64}
    {info : BioInfo}
    (inflight : s.bioInflight.lookup rqPtr = some info)
    (issuer : info.pid = key)
    (now : UInt64) :
    (handleBlockRqComplete s rqPtr now).ioCounts.lookup key =
      plus (s.ioCounts.lookup key) 1 := by
  obtain ⟨value, found⟩ := Option.isSome_iff_exists.mp active
  have seen := congrArg PidView.ioCounts (view_handleBlockRqComplete s key rqPtr now)
  have issued : (s.view key).inflight rqPtr = some info.issueTs := by
    change issuedBy key (s.bioInflight.lookup rqPtr) = some info.issueTs
    rw [inflight, issuedBy, Option.bind_some, if_pos issuer]
  have tracked : ((s.view key).drop rqPtr).activePids = some value := found
  simp only [PidView.step, issued, PidView.charge, tracked] at seen
  exact seen

/-- In any order of the daemon's operations and the kernel's, a live slot whose
process is alive has its pid in `active_pids`, and no completion of its requests
is dropped. -/
theorem watchStep_watches
    (processes : Finset UInt32)
    (actions : List WatchAction)
    (s : WatchState)
    (run : runActions watchStep actions (.start processes) = some s)
    (i : Fin maxPids)
    (live : i.val < s.world.daemon.gNActive)
    (alive : pidKey (s.world.daemon.slot i).pid ∈ s.kernel.processes) :
    (s.kernel.maps.activePids.lookup (pidKey (s.world.daemon.slot i).pid)).isSome ∧
      ∀ rqPtr info now, s.kernel.maps.bioInflight.lookup rqPtr = some info →
        info.pid = pidKey (s.world.daemon.slot i).pid →
          (handleBlockRqComplete s.kernel.maps rqPtr now).ioCounts.lookup info.pid =
            plus (s.kernel.maps.ioCounts.lookup info.pid) 1 := by
  have watching : Watching s :=
    runActions_invariant Watching Watching.next (Watching.start processes) run
  have active := watching.watches _ (Daemon.mem_pids.mpr ⟨i, live, rfl⟩) (.inl alive)
  refine ⟨active, ?_⟩
  intro rqPtr info now inflight issuer
  rw [issuer]
  exact handleBlockRqComplete_counted active inflight issuer now

/-- A slot that outlives its process, whose pid is then reused. -/
def reusedPidActions : List WatchAction :=
  [.addPid 5 plainAddReadings
      ⟨[], [.traced (.exec 5 [97])], [.traced (.fork 9 5)], [.traced (.exit 5 true)]⟩,
    .kernel (.traced (.fork 5 5)),
    .kernel (.traced (.blockRqIssue 5 1000 70))]

theorem watchStep_watches_reused :
    ∃ s, runActions watchStep reusedPidActions (.start {5}) = some s ∧
      (s.world.daemon.slot ⟨0, by decide⟩).pid = 5 ∧
      (handleBlockRqComplete s.kernel.maps 1000 80).ioCounts.lookup 5 =
        plus (s.kernel.maps.ioCounts.lookup 5) 1 := by
  refine ⟨_, rfl, rfl, ?_⟩
  exact (watchStep_watches {5} reusedPidActions _ rfl ⟨0, by decide⟩ (by decide) (by decide)).2
    1000 ⟨70, 5⟩ 80 rfl rfl

end Schedmon
