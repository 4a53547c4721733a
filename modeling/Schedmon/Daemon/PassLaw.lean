import Schedmon.Daemon.Runs

/-!
# Laws of the sampling passes

What the passes of a slot have read since it was last added can be summed up in
an observation of the log.  A law that relates the observation to the slot's
baselines and windows holds over every run if each pass keeps it.
-/

namespace Schedmon

open Library EventLog

/-- The eight windows of a slot. -/
def SlotRecord.windows (r : SlotRecord) : List SlidingWindow :=
  [r.winIpc, r.winLlc, r.winCtx, r.winIo, r.winIoWait, r.winRqWait,
    r.winMigration, r.winIoSyscall]

/-- Two records that sample alike: equal windows, and equal states up to the
mark of `sync_pids`. -/
def SlotRecord.Alike (r other : SlotRecord) : Prop :=
  other.windows = r.windows ∧
    ∃ active, other.state = { r.state with active := active }

/-- A law of the passes of a slot. -/
structure PassLaw (σ : Type) where
  /-- The observation of a pid that was never added. -/
  initial : σ
  onAdded : AddReadings → σ
  onReset : SlowReadings → σ → σ
  onSample : PidState → RawCounters → SlowReadings → ℚ → σ → σ
  /-- What holds of the slot. -/
  holds : σ → SlotRecord → Prop
  /-- What holds of a sample, given the observation before it. -/
  law : σ → PidState → RawCounters → SlowReadings → ℚ → SmoothedMetrics → Prop
  alike : ∀ s r other, r.Alike other → holds s r → holds s other
  added : ∀ pid readings, holds (onAdded readings) (freshRecord pid readings)
  reset : ∀ s r hw readings,
    bpfRegressed r.state readings = true ∨ cyclesRegressed r.state hw = true →
      holds s r →
        holds (onReset readings s) { r with state := rebase r.state hw readings }
  sample : ∀ s r hw readings dt, 0 < dt → bpfRegressed r.state readings = false →
    cyclesRegressed r.state hw = false → holds s r →
      law s r.state hw readings dt (resampled r hw readings dt).lastSm ∧
        holds (onSample r.state hw readings dt s) (resampled r hw readings dt)

namespace PassLaw

variable {σ : Type} (P : PassLaw σ)

/-- The observation of a pid after an event. -/
def observe (pid : Int) (s : σ) : Event → σ
  | .added other readings => if other = pid then P.onAdded readings else s
  | .rebased other readings => if other = pid then P.onReset readings s else s
  | .sampled other prior hw readings dt _ =>
      if other = pid then P.onSample prior hw readings dt s else s
  | _ => s

/-- The observation of a pid at a point of the log. -/
def observed (log : List Event) (pid : Int) : σ :=
  log.foldl (P.observe pid) P.initial

/-- The law of an event. -/
def eventLaw (before : List Event) : Event → Prop
  | .sampled pid prior hw readings dt metrics =>
      0 < dt ∧ P.law (P.observed before pid) prior hw readings dt metrics
  | _ => True

theorem observed_snoc (log : List Event) (pid : Int) (e : Event) :
    P.observed (log ++ [e]) pid = P.observe pid (P.observed log pid) e := by
  unfold observed
  rw [List.foldl_append]
  rfl

/-- Events that do not change an observation. -/
def Silent (pid : Int) (e : Event) : Prop :=
  ∀ s, P.observe pid s e = s

theorem observed_append_of_silent
    (log : List Event)
    {events : List Event}
    {pid : Int}
    (silent : ∀ e ∈ events, P.Silent pid e) :
    P.observed (log ++ events) pid = P.observed log pid := by
  induction events using List.reverseRecOn with
  | nil => rw [List.append_nil]
  | append_singleton events e inductionHypothesis =>
      rw [← List.append_assoc, observed_snoc,
        silent e (List.mem_append_right _ List.mem_cons_self),
        inductionHypothesis fun other member =>
          silent other (List.mem_append_left _ member)]

theorem silent_of_other
    {e : Event}
    {pid : Int}
    (other : e.pid? ≠ some pid) :
    P.Silent pid e := by
  intro s
  cases e with
  | added q readings =>
      have different : q ≠ pid := fun equal => other (by rw [equal]; rfl)
      simp [observe, different]
  | rebased q readings =>
      have different : q ≠ pid := fun equal => other (by rw [equal]; rfl)
      simp [observe, different]
  | sampled q prior hw readings dt metrics =>
      have different : q ≠ pid := fun equal => other (by rw [equal]; rfl)
      simp [observe, different]
  | _ => rfl

theorem silent_fdEvents (pid other : Int) (ops : List FdOp) :
    ∀ e ∈ ops.map (Event.fd pid), P.Silent other e :=
  forall_fdEvents (fun _ _ => rfl) ops

/-! ## A pass -/

/-- Publishing a sample leaves the windows and the baselines alone. -/
theorem alike_takeSample
    (r : SlotRecord)
    (hw : RawCounters)
    (readings : SlowReadings)
    (now : UInt64)
    (dt : ℚ)
    (displayed : Bool) :
    (resampled r hw readings dt).Alike
      (takeSample r hw readings now dt displayed).1 := by
  rcases takeSample_cases r hw readings now dt displayed with ⟨_, equal⟩ | ⟨_, equal⟩
  · rw [equal]
    unfold refreshComm
    split <;> exact ⟨rfl, _, rfl⟩
  · rw [equal]
    unfold refreshComm
    split <;> exact ⟨rfl, _, rfl⟩

/-- A pass is observed once, whether or not it is published. -/
theorem observed_takeSample
    (log : List Event)
    (r : SlotRecord)
    (hw : RawCounters)
    (readings : SlowReadings)
    (now : UInt64)
    (dt : ℚ)
    (displayed : Bool) :
    P.observed (log ++ (takeSample r hw readings now dt displayed).2) r.pid =
      P.onSample r.state hw readings dt (P.observed log r.pid) := by
  have sampled : P.observed (log ++ sampleEvents r hw readings dt) r.pid =
      P.onSample r.state hw readings dt (P.observed log r.pid) := by
    unfold sampleEvents
    rw [← List.append_assoc, observed_snoc,
      P.observed_append_of_silent log (P.silent_fdEvents _ _ _)]
    exact if_pos rfl
  rcases takeSample_cases r hw readings now dt displayed with ⟨_, equal⟩ | ⟨_, equal⟩
  · rw [equal, ← List.append_assoc, P.observed_append_of_silent, sampled]
    intro e member s
    simp only [List.mem_cons, List.not_mem_nil, or_false] at member
    rcases member with rfl | rfl
    · rfl
    · rfl
  · rw [equal, sampled]

/-- A law of the passes is a law of the slots. -/
def slotLaw (cfg : DaemonConfig) : SlotLaw cfg where
  holds := fun _ log r => P.holds (P.observed log r.pid) r
  law := P.eventLaw
  frame := by
    intro _ log r e pid about other holds
    rw [observed_snoc, P.silent_of_other]
    · exact holds
    · rw [about]
      exact fun equal => other (Option.some.inj equal)
  tick := fun _ _ _ _ => trivial
  startSlow := by
    intro log r now holds
    rw [observed_snoc]
    exact holds
  startFast := by
    intro log r now holds
    rw [observed_snoc]
    exact holds
  mark := fun log r active holds => P.alike _ r _ ⟨rfl, active, rfl⟩ holds
  refused := fun log pid readings _ _ => ⟨along_fdEvents (fun _ _ => trivial) _, trivial⟩
  added := by
    intro log pid readings _ _ _ _ _
    refine ⟨along_fdEvents_snoc (fun _ _ => trivial) trivial, ?_⟩
    have fresh : P.observed (log ++ ((addOps pid readings).map (Event.fd pid) ++
        [.added pid readings])) pid = P.onAdded readings := by
      rw [← List.append_assoc, observed_snoc]
      exact if_pos rfl
    rw [freshRecord_pid, fresh]
    exact P.added pid readings
  removed := fun log r _ _ => ⟨along_fdEvents_snoc (fun _ _ => trivial) trivial, trivial⟩
  visit := by
    intro log r readings displayed after events live _ holds wrote
    obtain ⟨hw, _, ⟨regressed, rfl, rfl⟩ | ⟨noBpf, noCycles, rfl, rfl⟩⟩ :=
      SlotWrite.slow_cases wrote
    · refine ⟨along_singleton.mpr trivial, ?_⟩
      have taken : P.observed (log ++ [.rebased r.pid readings]) r.pid =
          P.onReset readings (P.observed log r.pid) := by
        rw [observed_snoc]
        exact if_pos rfl
      change P.holds (P.observed _ r.pid) _
      rw [taken]
      exact P.reset _ r hw readings regressed holds
    · have positive := slowInterval_pos (slowTimes log)
      generalize slowInterval (slowTimes log) = dt at positive
      obtain ⟨lawful, sampled⟩ :=
        P.sample _ r hw readings dt positive noBpf noCycles holds
      constructor
      · have own : Along P.eventLaw log (sampleEvents r hw readings dt) := by
          apply along_fdEvents_snoc fun _ _ => trivial
          refine ⟨positive, ?_⟩
          rw [P.observed_append_of_silent log (P.silent_fdEvents _ _ _)]
          exact lawful
        rcases takeSample_cases r hw readings (currentTime log) dt displayed with
          ⟨_, equal⟩ | ⟨_, equal⟩
        · rw [equal, along_append, along_cons, along_singleton]
          exact ⟨own, trivial, trivial⟩
        · rw [equal]
          exact own
      · rw [takeSample_pid, observed_takeSample]
        exact P.alike _ _ _
          (alike_takeSample r hw readings (currentTime log) dt displayed) sampled
  fast := by
    intro log r live holds
    unfold fastVisit
    split
    · refine ⟨along_singleton.mpr trivial, ?_⟩
      rw [observed_snoc]
      exact P.alike _ r _ ⟨rfl, r.state.active, rfl⟩ holds
    · refine ⟨along_nil _ _, ?_⟩
      rw [List.append_nil]
      exact holds

/-- Every run keeps every law of the passes. -/
theorem eventLaw_run
    (P : PassLaw σ)
    (qsort : Qsort)
    (cfg : DaemonConfig)
    (start : UInt64)
    (envs : List TickEnv) :
    EachEvent P.eventLaw (runSamplingLoop qsort cfg start envs).world.log :=
  (runSamplingLoop_lawful (P.slotLaw cfg) qsort start envs).governed.laws

end PassLaw

end Schedmon
