import Schedmon.Bpf.Tasks

/-!
# What dead tasks leave in the maps

Every key of the maps is the id of a task.  No key should outlive its task, but
the last switch-out of a task inserts the task's id after `handle_exit` has
deleted it.
-/

namespace Schedmon

open Library Transition BoundedMap

variable {sizes : MapSizes}

/-- The keys of the eight maps that are keyed by a pid. -/
def BpfMaps.heldPids (s : BpfMaps sizes) : Finset UInt32 :=
  s.volCtxSwitch.keys ∪ s.activePids.keys ∪ s.ioCounts.keys ∪ s.ioWaitNs.keys ∪
    s.rqEnqueueTs.keys ∪ s.rqWaitNs.keys ∪ s.execComms.keys ∪ s.pidLastCpu.keys

/-- The pids that one of these maps has refused because it was full. -/
def BpfMaps.refusedPids (s : BpfMaps sizes) : List UInt32 :=
  s.volCtxSwitch.refused ++ s.activePids.refused ++ s.ioCounts.refused ++
    s.ioWaitNs.refused ++ s.rqEnqueueTs.refused ++ s.rqWaitNs.refused ++
      s.execComms.refused ++ s.pidLastCpu.refused

/-- Each of the eight maps is changed by updates of allowed pids and by
deletions. -/
structure BpfMaps.Change (allowed : UInt32 → Prop) (s next : BpfMaps sizes) :
    Prop where
  volCtxSwitch : Changes allowed s.volCtxSwitch next.volCtxSwitch
  activePids : Changes allowed s.activePids next.activePids
  ioCounts : Changes allowed s.ioCounts next.ioCounts
  ioWaitNs : Changes allowed s.ioWaitNs next.ioWaitNs
  rqEnqueueTs : Changes allowed s.rqEnqueueTs next.rqEnqueueTs
  rqWaitNs : Changes allowed s.rqWaitNs next.rqWaitNs
  execComms : Changes allowed s.execComms next.execComms
  pidLastCpu : Changes allowed s.pidLastCpu next.pidLastCpu

namespace BpfMaps.Change

variable {allowed : UInt32 → Prop} {s after : BpfMaps sizes}

theorem refl (s : BpfMaps sizes) : Change allowed s s :=
  ⟨.refl _, .refl _, .refl _, .refl _, .refl _, .refl _, .refl _, .refl _⟩

theorem heldPids_subset
    (change : Change allowed s after)
    {inside : Finset UInt32}
    (start : s.heldPids ⊆ inside)
    (permitted : ∀ pid, allowed pid → pid ∈ inside) :
    after.heldPids ⊆ inside := by
  simp only [heldPids, Finset.union_subset_iff] at start ⊢
  obtain ⟨⟨⟨⟨⟨⟨⟨vol, active⟩, counts⟩, waits⟩, enqueued⟩, queued⟩, comms⟩, cpus⟩ :=
    start
  exact ⟨⟨⟨⟨⟨⟨⟨change.volCtxSwitch.keys_subset vol permitted,
    change.activePids.keys_subset active permitted⟩,
    change.ioCounts.keys_subset counts permitted⟩,
    change.ioWaitNs.keys_subset waits permitted⟩,
    change.rqEnqueueTs.keys_subset enqueued permitted⟩,
    change.rqWaitNs.keys_subset queued permitted⟩,
    change.execComms.keys_subset comms permitted⟩,
    change.pidLastCpu.keys_subset cpus permitted⟩

theorem refusedPids_eq_nil
    (change : Change allowed s after)
    {inside : Finset UInt32}
    (start : s.heldPids ⊆ inside)
    (permitted : ∀ pid, allowed pid → pid ∈ inside)
    (room : ∀ bound, sizes.pids = some bound → inside.card ≤ bound)
    (clean : s.refusedPids = []) :
    after.refusedPids = [] := by
  simp only [heldPids, Finset.union_subset_iff] at start
  simp only [refusedPids, List.append_eq_nil_iff] at clean ⊢
  obtain ⟨⟨⟨⟨⟨⟨⟨vol, active⟩, counts⟩, waits⟩, enqueued⟩, queued⟩, comms⟩, cpus⟩ :=
    start
  obtain ⟨⟨⟨⟨⟨⟨⟨noVol, noActive⟩, noCounts⟩, noWaits⟩, noEnqueued⟩, noQueued⟩,
    noComms⟩, noCpus⟩ := clean
  exact ⟨⟨⟨⟨⟨⟨⟨change.volCtxSwitch.refused_eq_nil vol permitted room noVol,
    change.activePids.refused_eq_nil active permitted room noActive⟩,
    change.ioCounts.refused_eq_nil counts permitted room noCounts⟩,
    change.ioWaitNs.refused_eq_nil waits permitted room noWaits⟩,
    change.rqEnqueueTs.refused_eq_nil enqueued permitted room noEnqueued⟩,
    change.rqWaitNs.refused_eq_nil queued permitted room noQueued⟩,
    change.execComms.refused_eq_nil comms permitted room noComms⟩,
    change.pidLastCpu.refused_eq_nil cpus permitted room noCpus⟩

end BpfMaps.Change

/-! ## The pids that a handler inserts -/

/-- The pids under which the handler of an event inserts. -/
def BpfMaps.Inserts (s : BpfMaps sizes) (e : KernelEvent) (pid : UInt32) : Prop :=
  match e with
  | .blockRqComplete rqPtr _ =>
      ∃ info, s.bioInflight.lookup rqPtr = some info ∧ pid = info.pid
  | _ => e.Involves pid ∧ pid ≠ 0

theorem ne_zero_of_gt_one {pid : UInt32} (ordinary : pid > 1) : pid ≠ 0 := by
  rintro rfl
  exact absurd ordinary (by decide)

section

variable (s : BpfMaps sizes)

theorem change_handleSchedSwitch
    (ctx : SchedSwitchArgs)
    (now : UInt64)
    (cpu : UInt32) :
    BpfMaps.Change (s.Inserts (.schedSwitch ctx now cpu)) s
      (handleSchedSwitch s ctx now cpu) := by
  have prev (notIdle : ctx.prevPid ≠ 0) :
      s.Inserts (.schedSwitch ctx now cpu) ctx.prevPid := ⟨.inl rfl, notIdle⟩
  have next (notIdle : ctx.nextPid ≠ 0) :
      s.Inserts (.schedSwitch ctx now cpu) ctx.nextPid := ⟨.inr rfl, notIdle⟩
  generalize s.Inserts (.schedSwitch ctx now cpu) = allowed at prev next
  have stored : BpfMaps.Change allowed s (storeLastCpu s ctx cpu) := by
    unfold storeLastCpu
    have first : BpfMaps.Change allowed s
        (if ctx.prevPid > 1 then
          { s with pidLastCpu := s.pidLastCpu.update ctx.prevPid cpu .any }
        else s) := by
      split
      · next ordinary =>
          exact { BpfMaps.Change.refl s with
            pidLastCpu := (Changes.refl _).update ctx.prevPid cpu .any
              (prev (ne_zero_of_gt_one ordinary)) }
      · exact .refl s
    dsimp only
    generalize (if ctx.prevPid > 1 then _ else s) = after at first ⊢
    split
    · next ordinary =>
        exact { first with
          pidLastCpu := first.pidLastCpu.update ctx.nextPid cpu .any
            (next (ne_zero_of_gt_one ordinary)) }
    · exact first
  have counted : BpfMaps.Change allowed s
      (countVoluntary (storeLastCpu s ctx cpu) ctx) := by
    unfold countVoluntary
    split
    · next sleeping =>
        exact { stored with
          volCtxSwitch := stored.volCtxSwitch.addTo (prev sleeping.1) 1 }
    · exact stored
  unfold handleSchedSwitch
  generalize countVoluntary (storeLastCpu s ctx cpu) ctx = after at counted ⊢
  unfold accountRqWait
  split
  · exact counted
  · next notIdle =>
      split
      · next enqueueTs _ =>
          split
          · have waited : BpfMaps.Change allowed s
                (if now - enqueueTs < rqWaitLimitNs then
                  { after with
                    rqWaitNs := after.rqWaitNs.addTo ctx.nextPid (now - enqueueTs) }
                else after) := by
              split
              · exact { counted with
                  rqWaitNs := counted.rqWaitNs.addTo (next notIdle) _ }
              · exact counted
            exact { waited with
              rqEnqueueTs := waited.rqEnqueueTs.update ctx.nextPid 0 .any
                (next notIdle) }
          · exact counted
      · exact counted

theorem change_handleBlockRqComplete (rqPtr now : UInt64) :
    BpfMaps.Change (s.Inserts (.blockRqComplete rqPtr now)) s
      (handleBlockRqComplete s rqPtr now) := by
  unfold handleBlockRqComplete
  split
  · exact .refl s
  · next info found =>
      have allow : s.Inserts (.blockRqComplete rqPtr now) info.pid :=
        ⟨info, found, rfl⟩
      generalize s.Inserts (.blockRqComplete rqPtr now) = allowed at allow
      have dropped : BpfMaps.Change allowed s
          { s with bioInflight := s.bioInflight.delete rqPtr } :=
        { BpfMaps.Change.refl s with }
      unfold chargeRequest
      split
      · exact dropped
      · dsimp only
        split
        · split
          · exact { dropped with
              ioCounts := dropped.ioCounts.addTo allow 1
              ioWaitNs := dropped.ioWaitNs.addTo allow _ }
          · exact { dropped with ioCounts := dropped.ioCounts.addTo allow 1 }
        · exact { dropped with ioCounts := dropped.ioCounts.addTo allow 1 }

/-- Every handler inserts only under the pids of its event. -/
theorem change_handleEvent (e : KernelEvent) :
    BpfMaps.Change (s.Inserts e) s (handleEvent s e) := by
  have same : BpfMaps.Change (s.Inserts e) s s := .refl s
  cases e with
  | schedSwitch ctx now cpu => exact change_handleSchedSwitch s ctx now cpu
  | blockRqComplete rqPtr now => exact change_handleBlockRqComplete s rqPtr now
  | schedWakeup pid now =>
      change BpfMaps.Change _ s (handleSchedWakeup s pid now)
      unfold handleSchedWakeup
      split
      · exact same
      · next ordinary =>
          have allow : s.Inserts (.schedWakeup pid now) pid :=
            ⟨rfl, ne_zero_of_gt_one (UInt32.not_le.mp ordinary)⟩
          exact { same with rqEnqueueTs := same.rqEnqueueTs.update pid now .any allow }
  | fork childPid process =>
      change BpfMaps.Change _ s (handleFork s childPid)
      unfold handleFork
      split
      · exact same
      · next ordinary =>
          have allow : s.Inserts (.fork childPid process) childPid :=
            ⟨rfl, ne_zero_of_gt_one (UInt32.not_le.mp ordinary)⟩
          exact { same with
            activePids := same.activePids.update childPid 1 .any allow
            volCtxSwitch := same.volCtxSwitch.update childPid 0 .noExist allow
            ioCounts := same.ioCounts.update childPid 0 .noExist allow
            ioWaitNs := same.ioWaitNs.update childPid 0 .noExist allow
            rqWaitNs := same.rqWaitNs.update childPid 0 .noExist allow }
  | exit pid groupDead =>
      change BpfMaps.Change _ s (handleExit s pid groupDead)
      unfold handleExit
      split
      · exact same
      · exact ⟨same.volCtxSwitch.delete pid, same.activePids.delete pid,
          same.ioCounts.delete pid, same.ioWaitNs.delete pid,
          same.rqEnqueueTs.delete pid, same.rqWaitNs.delete pid,
          same.execComms.delete pid, same.pidLastCpu.delete pid⟩
  | exec pid comm =>
      change BpfMaps.Change _ s (handleExec s pid comm)
      unfold handleExec
      split
      · exact same
      · next ordinary =>
          have allow : s.Inserts (.exec pid comm) pid :=
            ⟨rfl, ne_zero_of_gt_one (UInt32.not_le.mp ordinary)⟩
          exact { same with
            execComms := same.execComms.update pid comm .any allow
            activePids := same.activePids.update pid 1 .noExist allow }
  | blockRqIssue pid rqPtr now =>
      change BpfMaps.Change _ s (handleBlockRqIssue s pid rqPtr now)
      unfold handleBlockRqIssue
      split
      · exact same
      · exact { same with }

end

/-! ## Keys are the ids of tasks -/

/-- Every pid in the maps is known to the kernel. -/
structure HoldsKnown (t : Tasks) (s : BpfMaps sizes) : Prop where
  held : s.heldPids ⊆ t.known
  inflight : ∀ rqPtr info, s.bioInflight.lookup rqPtr = some info →
    info.pid ∈ t.known

theorem Tasks.known_subset_step
    {e : KernelEvent}
    {t next : Tasks}
    (taken : Tasks.step e t = some next) :
    t.known ⊆ next.known :=
  fun _ member => (Tasks.mem_known_step taken).mpr (.inr member)

/-- The pids that a handler inserts are known after its event. -/
theorem HoldsKnown.inserts
    {t next : Tasks}
    {s : BpfMaps sizes}
    {e : KernelEvent}
    (holds : HoldsKnown t s)
    (taken : Tasks.step e t = some next)
    {pid : UInt32}
    (inserts : s.Inserts e pid) :
    pid ∈ next.known := by
  cases e with
  | blockRqComplete rqPtr now =>
      obtain ⟨info, found, rfl⟩ := inserts
      exact Tasks.known_subset_step taken (holds.inflight rqPtr info found)
  | _ => exact Tasks.step_involves taken inserts.1 inserts.2

theorem bioInflight_handleSchedSwitch
    (s : BpfMaps sizes)
    (ctx : SchedSwitchArgs)
    (now : UInt64)
    (cpu : UInt32) :
    (handleSchedSwitch s ctx now cpu).bioInflight = s.bioInflight := by
  obtain ⟨_, _, _, equal⟩ := handleSchedSwitch_eq s ctx now cpu
  rw [equal]
  unfold countVoluntary
  split <;> rfl

theorem lookup_bioInflight_handleBlockRqComplete
    {s : BpfMaps sizes}
    {rqPtr now ptr : UInt64}
    {info : BioInfo}
    (found : (handleBlockRqComplete s rqPtr now).bioInflight.lookup ptr = some info) :
    s.bioInflight.lookup ptr = some info := by
  unfold handleBlockRqComplete at found
  split at found
  · exact found
  · next other _ =>
      obtain ⟨_, _, equal⟩ := chargeRequest_eq
        { s with bioInflight := s.bioInflight.delete rqPtr } other now
      rw [equal] at found
      dsimp only at found
      rw [lookup_delete] at found
      split at found
      · cases found
      · exact found

/-- The requests in flight after an event: those before it, and one that a
known process issues. -/
theorem HoldsKnown.inflight_step
    {t next : Tasks}
    {s : BpfMaps sizes}
    {e : KernelEvent}
    (holds : HoldsKnown t s)
    (taken : Tasks.step e t = some next)
    {rqPtr : UInt64}
    {info : BioInfo}
    (found : (handleEvent s e).bioInflight.lookup rqPtr = some info) :
    info.pid ∈ next.known := by
  have old (earlier : s.bioInflight.lookup rqPtr = some info) :
      info.pid ∈ next.known :=
    Tasks.known_subset_step taken (holds.inflight rqPtr info earlier)
  cases e with
  | blockRqIssue pid ptr now =>
      by_cases kernel : pid ≤ 1
      · simp only [handleEvent, handleBlockRqIssue, if_pos kernel] at found
        exact old found
      · simp only [handleEvent, handleBlockRqIssue, if_neg kernel] at found
        rcases of_lookup_update found with earlier | rfl
        · exact old earlier
        · exact Tasks.step_involves taken rfl
            (ne_zero_of_gt_one (UInt32.not_le.mp kernel))
  | blockRqComplete ptr now =>
      exact old (lookup_bioInflight_handleBlockRqComplete found)
  | schedSwitch ctx now cpu =>
      rw [← bioInflight_handleSchedSwitch s ctx now cpu] at old
      exact old found
  | schedWakeup pid now =>
      apply old
      simp only [handleEvent, handleSchedWakeup] at found
      split at found <;> exact found
  | fork childPid process =>
      apply old
      simp only [handleEvent, handleFork] at found
      split at found <;> exact found
  | exit pid groupDead =>
      apply old
      simp only [handleEvent, handleExit] at found
      split at found <;> exact found
  | exec pid comm =>
      apply old
      simp only [handleEvent, handleExec] at found
      split at found <;> exact found

theorem HoldsKnown.step
    {t next : Tasks}
    {s : BpfMaps sizes}
    {e : KernelEvent}
    (holds : HoldsKnown t s)
    (taken : Tasks.step e t = some next) :
    HoldsKnown next (handleEvent s e) where
  held := (change_handleEvent s e).heldPids_subset
    (holds.held.trans (Tasks.known_subset_step taken))
    fun _ inserts => holds.inserts taken inserts
  inflight := fun _ _ found => holds.inflight_step taken found

theorem holdsKnown_start (sizes : MapSizes) (t : Tasks) :
    HoldsKnown t (BpfMaps.start sizes) where
  held := Finset.empty_subset _
  inflight := by
    intro rqPtr info found
    cases found

theorem holdsKnown_of_run
    {start final : Tasks}
    {events : List KernelEvent}
    (run : runActions Tasks.step events start = some final) :
    HoldsKnown final (mapsAfter sizes events) := by
  induction events using List.reverseRecOn generalizing final with
  | nil => exact holdsKnown_start sizes final
  | append_singleton events e inductionHypothesis =>
      obtain ⟨before, earlier, taken⟩ := runActions_snoc.mp run
      rw [mapsAfter_snoc]
      exact (inductionHypothesis earlier).step taken

/-! ## Residue -/

/-- No map ever holds the id of a task that is gone. -/
def NoResidue (start : Tasks) (events : List KernelEvent) : Prop :=
  ∀ before after t, events = before ++ after →
    runActions Tasks.step before start = some t →
      ∀ pid ∈ t.gone, pid ∉ (mapsAfter .declared before).heldPids

/-- No map ever refuses a pid for lack of room. -/
def NeverRefused (events : List KernelEvent) : Prop :=
  ∀ before after, events = before ++ after →
    (mapsAfter .declared before).refusedPids = []

/-- There are never more tasks alive than a map has entries. -/
def AliveFit (start : Tasks) (events : List KernelEvent) : Prop :=
  ∀ before after t, events = before ++ after →
    runActions Tasks.step before start = some t → t.alive.card ≤ 10240

/-- No task is switched out for the last time. -/
def NoneEnds (start : Tasks) (events : List KernelEvent) : Prop :=
  ∀ before ctx now cpu after t,
    events = before ++ .schedSwitch ctx now cpu :: after →
      runActions Tasks.step before start = some t → ¬ t.Final ctx

/-- As long as no task ends, none is gone. -/
theorem NoneEnds.gone_eq_empty
    {start t : Tasks}
    {before after : List KernelEvent}
    (fresh : start.gone = ∅)
    (noneEnds : NoneEnds start (before ++ after))
    (run : runActions Tasks.step before start = some t) :
    t.gone = ∅ := by
  induction before using List.reverseRecOn generalizing t after with
  | nil =>
      cases run
      exact fresh
  | append_singleton before e inductionHypothesis =>
      obtain ⟨middle, earlier, taken⟩ := runActions_snoc.mp run
      rw [List.append_assoc, List.singleton_append] at noneEnds
      have none := inductionHypothesis noneEnds earlier
      cases Tasks.step_effect taken with
      | same => exact none
      | birth childPid process event can =>
          simp only [Tasks.birth, none, Finset.erase_empty]
      | beginExit pid groupDead event can => exact none
      | bury ctx now cpu event final =>
          exact absurd final (noneEnds before ctx now cpu after middle (event ▸ rfl) earlier)

theorem known_eq_alive {t : Tasks} (none : t.gone = ∅) : t.known = t.alive := by
  unfold Tasks.known
  rw [none, Finset.union_empty]

/-- As long as no task ends and the tasks fit, no pid is refused. -/
theorem NoneEnds.neverRefused
    {start t : Tasks}
    {before after : List KernelEvent}
    (fresh : start.gone = ∅)
    (noneEnds : NoneEnds start (before ++ after))
    (fit : AliveFit start (before ++ after))
    (run : runActions Tasks.step before start = some t) :
    (mapsAfter .declared before).refusedPids = [] := by
  induction before using List.reverseRecOn generalizing t after with
  | nil => rfl
  | append_singleton before e inductionHypothesis =>
      have none := noneEnds.gone_eq_empty fresh run
      have size := fit (before ++ [e]) after t rfl run
      obtain ⟨middle, earlier, taken⟩ := runActions_snoc.mp run
      rw [List.append_assoc, List.singleton_append] at noneEnds fit
      have holds : HoldsKnown middle (mapsAfter .declared before) :=
        holdsKnown_of_run earlier
      rw [mapsAfter_snoc]
      refine (change_handleEvent _ e).refusedPids_eq_nil
        (holds.held.trans (Tasks.known_subset_step taken))
        (fun _ inserts => holds.inserts taken inserts) ?_
        (inductionHypothesis noneEnds fit earlier)
      rintro bound ⟨⟩
      rw [known_eq_alive none]
      exact size

/-- The last switch-out of a task leaves the task's id in `vol_ctx_switch`. -/
theorem prevPid_mem_heldPids
    {t : Tasks}
    {s : BpfMaps .declared}
    {ctx : SchedSwitchArgs}
    (holds : HoldsKnown t s)
    (none : t.gone = ∅)
    (size : t.alive.card ≤ 10240)
    (final : t.Final ctx)
    (now : UInt64)
    (cpu : UInt32) :
    ctx.prevPid ∈ (handleSchedSwitch s ctx now cpu).heldPids := by
  have alive := t.exiting_subset final.1
  have fits : s.volCtxSwitch.Fits ctx.prevPid := by
    have held : s.volCtxSwitch.keys ⊆ t.alive := by
      rw [← known_eq_alive none]
      refine Finset.Subset.trans ?_ holds.held
      simp only [BpfMaps.heldPids, Finset.union_assoc]
      exact Finset.subset_union_left
    refine fits_of_subset held ?_ alive
    rintro bound ⟨⟩
    exact size
  have counted : ctx.prevPid ∈
      (handleSchedSwitch s ctx now cpu).volCtxSwitch.keys := by
    obtain ⟨_, _, _, equal⟩ := handleSchedSwitch_eq s ctx now cpu
    rw [equal]
    unfold countVoluntary
    rw [if_pos ⟨t.ne_zero_of_alive alive, final.2⟩]
    exact mem_keys_addTo_of_fits 1 fits
  simp only [BpfMaps.heldPids, Finset.mem_union]
  tauto

/-- A history without residue, in which the tasks fit, has none that ends. -/
theorem NoResidue.gone_eq_empty
    {start t : Tasks}
    {before after : List KernelEvent}
    (fresh : start.gone = ∅)
    (noResidue : NoResidue start (before ++ after))
    (fit : AliveFit start (before ++ after))
    (run : runActions Tasks.step before start = some t) :
    t.gone = ∅ := by
  induction before using List.reverseRecOn generalizing t after with
  | nil =>
      cases run
      exact fresh
  | append_singleton before e inductionHypothesis =>
      have clean := noResidue (before ++ [e]) after t rfl run
      obtain ⟨middle, earlier, taken⟩ := runActions_snoc.mp run
      rw [List.append_assoc, List.singleton_append] at noResidue fit
      have none := inductionHypothesis noResidue fit earlier
      cases Tasks.step_effect taken with
      | same => exact none
      | birth childPid process event can =>
          simp only [Tasks.birth, none, Finset.erase_empty]
      | beginExit pid groupDead event can => exact none
      | bury ctx now cpu event final =>
          subst event
          have left := prevPid_mem_heldPids (holdsKnown_of_run earlier) none
            (fit before _ middle rfl earlier) final now cpu
          rw [mapsAfter_snoc] at clean
          exact absurd left (clean ctx.prevPid (Finset.mem_insert_self _ _))

/-- A history leaves no residue if no task ends in it; while the tasks fit the
maps, then only. -/
theorem noResidue_iff_noneEnds
    (start : Tasks)
    (fresh : start.gone = ∅)
    (events : List KernelEvent)
    (emitted : (runActions Tasks.step events start).isSome) :
    (NoneEnds start events → NoResidue start events) ∧
      (AliveFit start events →
        (NoResidue start events ∧ NeverRefused events ↔ NoneEnds start events)) := by
  obtain ⟨final, run⟩ := Option.isSome_iff_exists.mp emitted
  have atPrefix {before after : List KernelEvent} (split : events = before ++ after) :
      ∃ t, runActions Tasks.step before start = some t := by
    rw [split, runActions_append] at run
    obtain ⟨t, earlier, _⟩ := Option.bind_eq_some_iff.mp run
    exact ⟨t, earlier⟩
  have clean (noneEnds : NoneEnds start events) : NoResidue start events := by
    intro before after t split earlier pid gone
    rw [split] at noneEnds
    rw [noneEnds.gone_eq_empty fresh earlier] at gone
    exact absurd gone (Finset.notMem_empty pid)
  refine ⟨clean, fun fit => ⟨?_, fun noneEnds => ⟨clean noneEnds, ?_⟩⟩⟩
  · rintro ⟨noResidue, _⟩ before ctx now cpu after t split earlier final
    have whole : events = (before ++ [.schedSwitch ctx now cpu]) ++ after := by
      rw [split, List.append_assoc, List.singleton_append]
    obtain ⟨next, later⟩ := atPrefix whole
    have none : next.gone = ∅ := by
      rw [whole] at noResidue fit
      exact noResidue.gone_eq_empty fresh fit later
    obtain ⟨middle, same, taken⟩ := runActions_snoc.mp later
    rw [earlier] at same
    cases same
    cases Tasks.step_effect taken with
    | same _ _ notFinal => exact notFinal ctx now cpu rfl final
    | bury => exact absurd none (Finset.insert_ne_empty _ _)
    | birth childPid process event => cases event
    | beginExit pid groupDead event => cases event
  · intro before after split
    obtain ⟨t, earlier⟩ := atPrefix split
    rw [split] at noneEnds fit
    exact noneEnds.neverRefused fresh fit earlier

/-- Every task that is alive was there at the start or was forked. -/
theorem Tasks.card_alive_run_le
    {start t : Tasks}
    {events : List KernelEvent}
    (fresh : start.gone = ∅)
    (run : runActions Tasks.step events start = some t) :
    t.alive.card ≤ events.length + start.alive.card := by
  have forkedOrOld : t.alive ⊆
      (events.filterMap KernelEvent.forked?).toFinset ∪ start.alive := by
    intro pid alive
    have known := (Tasks.mem_known_run run).mp (Finset.mem_union_left _ alive)
    rw [Tasks.known, fresh, Finset.union_empty] at known
    rw [Finset.mem_union, List.mem_toFinset]
    exact known
  calc t.alive.card
      ≤ ((events.filterMap KernelEvent.forked?).toFinset ∪ start.alive).card :=
        Finset.card_le_card forkedOrOld
    _ ≤ (events.filterMap KernelEvent.forked?).toFinset.card + start.alive.card :=
        Finset.card_union_le _ _
    _ ≤ events.length + start.alive.card :=
        Nat.add_le_add_right
          ((List.toFinset_card_le _).trans (List.length_filterMap_le _ _)) _

/-- Process 2 runs and ends. -/
def endedProcess : List KernelEvent :=
  [.fork 2 2, .schedSwitch ⟨1, 0, 2⟩ 1 0, .exit 2 true,
    .schedSwitch ⟨2, 128, 1⟩ 2 0]

theorem endedProcess_emitted :
    (runActions Tasks.step endedProcess Tasks.boot).isSome = true := by
  decide

theorem endedProcess_aliveFit : AliveFit Tasks.boot endedProcess := by
  intro before after t split run
  have few := Tasks.card_alive_run_le rfl run
  have shorter : before.length ≤ endedProcess.length := by
    rw [split, List.length_append]
    exact Nat.le_add_right _ _
  have one : Tasks.boot.alive.card = 1 := rfl
  have four : endedProcess.length = 4 := rfl
  omega

/-- The last switch-out of process 2 ends it, in maps with room for all. -/
theorem noResidue_iff_noneEnds_ended :
    AliveFit Tasks.boot endedProcess ∧ ¬ NoneEnds Tasks.boot endedProcess ∧
      ¬ (NoResidue Tasks.boot endedProcess ∧ NeverRefused endedProcess) := by
  have ends : ¬ NoneEnds Tasks.boot endedProcess := by
    intro noneEnds
    have exiting : (runActions Tasks.step (endedProcess.take 3) Tasks.boot).map
        Tasks.exiting = some {2} := by decide
    obtain ⟨t, run, exited⟩ := Option.map_eq_some_iff.mp exiting
    apply noneEnds (endedProcess.take 3) ⟨2, 128, 1⟩ 2 0 [] t rfl run
    unfold Tasks.Final
    rw [exited]
    decide
  exact ⟨endedProcess_aliveFit, ends, fun clean => ends
    (((noResidue_iff_noneEnds Tasks.boot rfl endedProcess endedProcess_emitted).2
      endedProcess_aliveFit).mp clean)⟩

/-- Process 2 is gone, but not its entries. -/
theorem endedProcess_leaves_residue :
    (runActions Tasks.step endedProcess Tasks.boot).isSome = true ∧
      ¬ NoResidue Tasks.boot endedProcess := by
  refine ⟨endedProcess_emitted, ?_⟩
  intro noResidue
  have gone : (runActions Tasks.step endedProcess Tasks.boot).map Tasks.gone =
      some {2} := by decide
  obtain ⟨t, run, buried⟩ := Option.map_eq_some_iff.mp gone
  have left := noResidue endedProcess [] t (List.append_nil _).symm run 2
    (by rw [buried]; decide)
  exact left (by decide)

end Schedmon
