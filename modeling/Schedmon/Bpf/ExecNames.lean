import Schedmon.Bpf.Tracer
import Schedmon.Library.Transition

/-!
# Names popped while a process executes

`ebpf_tracer_pop_exec_comm` looks an entry up and deletes it in two steps.  An
`exec` between the two stores a name that the delete takes away unread.
-/

namespace Schedmon

open Library Transition

/-- The text that the 16 bytes of an entry are copied as. -/
def execName (comm : Comm) : Comm := (comm.take 16).takeWhile (· ≠ 0)

theorem lookupExecComm_eq
    {sizes : MapSizes}
    (s : BpfMaps sizes)
    (pid : UInt32) :
    lookupExecComm s pid = (s.execComms.lookup pid).map execName := rfl

/-- What happens to the name of one pid. -/
inductive PopAction
  /-- `handle_exec`. -/
  | exec (comm : Comm)
  /-- A pop begins: its lookup. -/
  | lookup
  /-- The delete of the pop that has begun. -/
  | delete
  deriving DecidableEq

/-- The maps, `g_comm` of the pid's slot, and what has happened so far. -/
structure PopState where
  maps : BpfMaps .unlimited
  gComm : Comm
  /-- What the pop that has begun has read. -/
  popping : Option Comm
  /-- The name that the last `exec` recorded. -/
  lastExec : Option Comm
  /-- The pop that has begun began after the last `exec`. -/
  current : Bool
  /-- A pop that began after the last `exec` has ended. -/
  settled : Bool
  /-- The names that a pop deleted without having read them. -/
  dropped : List Comm

namespace PopState

/-- No pop has begun and no `exec` was seen. -/
def start (gComm : Comm) : PopState where
  maps := .start .unlimited
  gComm := gComm
  popping := none
  lastExec := none
  current := false
  settled := false
  dropped := []

/-- An `exec` of the pid. -/
def exec (pid : UInt32) (comm : Comm) (s : PopState) : PopState :=
  if pid ≤ 1 then s
  else
    { s with
      maps := handleExec s.maps pid comm
      lastExec := some (execName comm)
      current := false
      settled := false }

/-- The lookup of a pop, which ends a pop that finds no entry. -/
def lookup (pid : UInt32) (s : PopState) : PopState :=
  match lookupExecComm s.maps pid with
  | none => { s with settled := true }
  | some buf =>
      { s with
        gComm := buf
        popping := some buf
        current := true }

/-- The delete that ends a pop that has read a name. -/
def delete (pid : UInt32) (buf : Comm) (s : PopState) : PopState :=
  { s with
    maps := deleteExecComm s.maps pid
    popping := none
    settled := s.settled || s.current
    dropped := s.dropped ++
      (lookupExecComm s.maps pid).toList.filter (· ≠ buf) }

/-- Take an action where it is possible: the daemon has one pop at a time. -/
def step (pid : UInt32) : PopAction → PopState → Option PopState
  | .exec comm, s => some (s.exec pid comm)
  | .lookup, s => if s.popping = none then some (s.lookup pid) else none
  | .delete, s => s.popping.map fun buf => s.delete pid buf

/-- Once a pop that began after the last `exec` has ended, the slot has the
name of that `exec`, and no name was deleted unread. -/
def NamesKept (s : PopState) : Prop :=
  (s.settled = true → ∀ name ∈ s.lastExec, s.gComm = name) ∧ s.dropped = []

instance (s : PopState) : Decidable s.NamesKept :=
  inferInstanceAs (Decidable (_ ∧ _))

end PopState

/-- The name that the last `exec` of a history records. -/
def lastName (actions : List PopAction) : Option Comm :=
  actions.foldl (fun earlier action =>
    match action with
    | .exec comm => some (execName comm)
    | _ => earlier) none

@[simp] theorem lastName_snoc_exec (actions : List PopAction) (comm : Comm) :
    lastName (actions ++ [.exec comm]) = some (execName comm) := by
  simp [lastName]

@[simp] theorem lastName_snoc_lookup (actions : List PopAction) :
    lastName (actions ++ [.lookup]) = lastName actions := by
  simp [lastName]

@[simp] theorem lastName_snoc_delete (actions : List PopAction) :
    lastName (actions ++ [.delete]) = lastName actions := by
  simp [lastName]

/-- Of the `exec`s between the lookup of a pop and its delete, the last records
the very name that the pop has read, if there is one. -/
def UndisturbedPops (actions : List PopAction) : Prop :=
  ∀ before (comms : List Comm) after,
    actions = before ++ .lookup :: (comms.map .exec ++ .delete :: after) →
      ∀ comm ∈ comms.getLast?, lastName before = some (execName comm)

/-! ## What a history determines -/

section Steps

variable {pid : UInt32} {s : PopState}

theorem lookupExecComm_handleExec
    (maps : BpfMaps .unlimited)
    (comm : Comm)
    (process : 1 < pid) :
    lookupExecComm (handleExec maps pid comm) pid = some (execName comm) := by
  unfold handleExec
  rw [if_neg (UInt32.not_le.mpr process), lookupExecComm_eq]
  simp

theorem lookupExecComm_deleteExecComm (maps : BpfMaps .unlimited) :
    lookupExecComm (deleteExecComm maps pid) pid = none := by
  rw [lookupExecComm_eq]
  simp [deleteExecComm]

theorem PopState.exec_of_process
    (comm : Comm)
    (process : 1 < pid) :
    s.exec pid comm =
      { s with
        maps := handleExec s.maps pid comm
        lastExec := some (execName comm)
        current := false
        settled := false } :=
  if_neg (UInt32.not_le.mpr process)

/-- Without an `exec` between its two steps a pop is `popExecComm`. -/
theorem PopState.pop_alone (idle : s.popping = none) :
    ∃ t, runActions (step pid) (.lookup ::
        (lookupExecComm s.maps pid).toList.map fun _ => .delete) s = some t ∧
      t.popping = none ∧ t.maps = (popExecComm s.maps pid).2 ∧
        t.gComm = (popExecComm s.maps pid).1.getD s.gComm := by
  unfold popExecComm
  cases found : lookupExecComm s.maps pid with
  | none =>
      refine ⟨{ s with settled := true }, ?_, idle, rfl, rfl⟩
      simp [step, idle, lookup, found]
  | some buf =>
      refine ⟨({ s with gComm := buf, popping := some buf, current := true } :
        PopState).delete pid buf, ?_, rfl, rfl, rfl⟩
      simp [step, idle, lookup, found]

end Steps

/-- A history ends with a lookup and some `exec`s in one way only. -/
theorem eq_of_append_lookup
    {before other : List PopAction}
    {comms more : List Comm}
    (same : before ++ .lookup :: comms.map .exec = other ++ .lookup :: more.map .exec) :
    before = other ∧ comms = more := by
  induction comms using List.reverseRecOn generalizing more with
  | nil =>
      cases more using List.reverseRecOn with
      | nil => exact ⟨List.append_cancel_right same, rfl⟩
      | append_singleton rest comm =>
          rw [List.map_append, ← List.cons_append, ← List.append_assoc] at same
          cases (List.append_inj' same rfl).2
  | append_singleton earlier comm inductionHypothesis =>
      rw [List.map_append, ← List.cons_append, ← List.append_assoc] at same
      cases more using List.reverseRecOn with
      | nil => cases (List.append_inj' same rfl).2
      | append_singleton rest last =>
          rw [List.map_append, ← List.cons_append, ← List.append_assoc] at same
          obtain ⟨front, back⟩ := List.append_inj' same rfl
          obtain ⟨rfl, rfl⟩ := inductionHypothesis front
          cases back
          exact ⟨rfl, rfl⟩

/-- What the entry of the pid and a pop that has begun hold, by the history. -/
structure Traced (pid : UInt32) (actions : List PopAction) (s : PopState) : Prop where
  recorded : ∀ name ∈ lookupExecComm s.maps pid, s.lastExec = some name
  last : 1 < pid → s.lastExec = lastName actions
  kernel : pid ≤ 1 → lookupExecComm s.maps pid = none
  popping : ∀ buf ∈ s.popping, ∃ before, ∃ comms : List Comm,
    actions = before ++ .lookup :: comms.map .exec ∧ lastName before = some buf ∧
      lookupExecComm s.maps pid = some ((comms.getLast?.map execName).getD buf)

theorem Traced.start (pid : UInt32) (gComm : Comm) :
    Traced pid [] (.start gComm) where
  recorded := by
    intro name found
    cases found
  last := fun _ => rfl
  kernel := fun _ => rfl
  popping := by
    intro buf begun
    cases begun

theorem Traced.exec
    {pid : UInt32}
    {actions : List PopAction}
    {s : PopState}
    (traced : Traced pid actions s)
    (comm : Comm) :
    Traced pid (actions ++ [.exec comm]) (s.exec pid comm) := by
  by_cases process : 1 < pid
  · have entry := lookupExecComm_handleExec s.maps comm process
    rw [PopState.exec_of_process comm process]
    refine ⟨?_, ?_, ?_, ?_⟩
    · intro name found
      rw [entry] at found
      exact found
    · intro _
      rw [lastName_snoc_exec]
    · intro kernel
      exact absurd process (UInt32.not_lt.mpr kernel)
    · intro buf begun
      obtain ⟨before, comms, split, read, _⟩ := traced.popping buf begun
      refine ⟨before, comms ++ [comm], ?_, read, ?_⟩
      · rw [split, List.map_append, ← List.cons_append, ← List.append_assoc]
        rfl
      · rw [List.getLast?_append_of_ne_nil _ (List.cons_ne_nil _ _)]
        exact entry
  · have kernel := UInt32.not_lt.mp process
    have same : s.exec pid comm = s := if_pos kernel
    have entry := traced.kernel kernel
    rw [same]
    refine ⟨traced.recorded, fun isProcess => absurd isProcess process,
      fun _ => entry, ?_⟩
    intro buf begun
    obtain ⟨_, _, _, _, found⟩ := traced.popping buf begun
    rw [entry] at found
    cases found

theorem Traced.lookup
    {pid : UInt32}
    {actions : List PopAction}
    {s : PopState}
    (traced : Traced pid actions s)
    (idle : s.popping = none) :
    Traced pid (actions ++ [.lookup]) (s.lookup pid) := by
  unfold PopState.lookup
  split
  · next missing =>
      refine ⟨traced.recorded, ?_, traced.kernel, ?_⟩
      · rw [lastName_snoc_lookup]
        exact traced.last
      · intro buf begun
        rw [idle] at begun
        cases begun
  · next buf found =>
      refine ⟨traced.recorded, ?_, traced.kernel, ?_⟩
      · rw [lastName_snoc_lookup]
        exact traced.last
      · intro read begun
        cases begun
        have process : 1 < pid := by
          by_contra kernel
          rw [traced.kernel (UInt32.not_lt.mp kernel)] at found
          cases found
        refine ⟨actions, [], rfl, ?_, found⟩
        rw [← traced.last process]
        exact traced.recorded buf found

theorem Traced.delete
    {pid : UInt32}
    {actions : List PopAction}
    {s : PopState}
    (traced : Traced pid actions s)
    (buf : Comm) :
    Traced pid (actions ++ [.delete]) (s.delete pid buf) := by
  have entry : lookupExecComm (deleteExecComm s.maps pid) pid = none :=
    lookupExecComm_deleteExecComm s.maps
  refine ⟨?_, ?_, fun _ => entry, ?_⟩
  · intro name found
    rw [show lookupExecComm (s.delete pid buf).maps pid = none from entry] at found
    cases found
  · rw [lastName_snoc_delete]
    exact traced.last
  · intro read begun
    cases begun

theorem Traced.next
    (pid : UInt32)
    (earlier : List PopAction)
    (action : PopAction)
    (s following : PopState)
    (traced : Traced pid earlier s)
    (taken : PopState.step pid action s = some following) :
    Traced pid (earlier ++ [action]) following := by
  cases action with
  | exec comm =>
      cases taken
      exact traced.exec comm
  | lookup =>
      simp only [PopState.step] at taken
      split at taken
      · next idle =>
          cases taken
          exact traced.lookup idle
      · cases taken
  | delete =>
      obtain ⟨buf, _, rfl⟩ := Option.map_eq_some_iff.mp taken
      exact traced.delete buf

/-! ## Names are kept exactly where no pop is disturbed -/

/-- The state of an undisturbed history. -/
structure Settled (pid : UInt32) (s : PopState) : Prop where
  names : s.NamesKept
  /-- An entry that is gone has been copied. -/
  copied : lookupExecComm s.maps pid = none → ∀ name ∈ s.lastExec, s.gComm = name
  reading : ∀ buf ∈ s.popping, s.gComm = buf

theorem Settled.start (pid : UInt32) (gComm : Comm) :
    Settled pid (.start gComm) where
  names := by
    refine ⟨?_, rfl⟩
    intro settled
    cases settled
  copied := by
    intro _ name last
    cases last
  reading := by
    intro buf begun
    cases begun

theorem Settled.exec
    {pid : UInt32}
    {s : PopState}
    (settled : Settled pid s)
    (comm : Comm) :
    Settled pid (s.exec pid comm) := by
  by_cases process : 1 < pid
  · have entry := lookupExecComm_handleExec s.maps comm process
    rw [PopState.exec_of_process comm process]
    refine ⟨⟨?_, settled.names.2⟩, ?_, settled.reading⟩
    · intro ended
      cases ended
    · intro missing
      rw [entry] at missing
      cases missing
  · have same : s.exec pid comm = s := if_pos (UInt32.not_lt.mp process)
    rw [same]
    exact settled

theorem Settled.lookup
    {pid : UInt32}
    {actions : List PopAction}
    {s : PopState}
    (settled : Settled pid s)
    (traced : Traced pid actions s) :
    Settled pid (s.lookup pid) := by
  unfold PopState.lookup
  split
  · next missing =>
      exact ⟨⟨fun _ => settled.copied missing, settled.names.2⟩, settled.copied,
        settled.reading⟩
  · next buf found =>
      have last := traced.recorded buf found
      have copied : ∀ name ∈ s.lastExec, buf = name := by
        intro name recorded
        rw [last] at recorded
        exact Option.some.inj recorded
      refine ⟨⟨fun _ => copied, settled.names.2⟩, fun _ => copied, ?_⟩
      intro read begun
      exact Option.some.inj begun

theorem Settled.delete
    {pid : UInt32}
    {actions : List PopAction}
    {s : PopState}
    (settled : Settled pid s)
    (traced : Traced pid actions s)
    {buf : Comm}
    (begun : s.popping = some buf)
    (unchanged : lookupExecComm s.maps pid = some buf) :
    Settled pid (s.delete pid buf) := by
  have copied : ∀ name ∈ s.lastExec, s.gComm = name := by
    intro name recorded
    have last := traced.recorded buf unchanged
    rw [last] at recorded
    rw [settled.reading buf begun]
    exact Option.some.inj recorded
  refine ⟨⟨fun _ => copied, ?_⟩, fun _ => copied, ?_⟩
  · change s.dropped ++ (lookupExecComm s.maps pid).toList.filter (· ≠ buf) = []
    rw [settled.names.2, unchanged]
    simp
  · intro read again
    cases again

/-- A pop that no `exec` disturbed deletes what it has read. -/
theorem Traced.unchanged
    {pid : UInt32}
    {actions : List PopAction}
    {s : PopState}
    (traced : Traced pid actions s)
    {buf : Comm}
    (begun : s.popping = some buf)
    (undisturbed : UndisturbedPops (actions ++ [.delete])) :
    lookupExecComm s.maps pid = some buf := by
  obtain ⟨before, comms, split, read, entry⟩ := traced.popping buf begun
  rw [entry]
  cases last : comms.getLast? with
  | none => rfl
  | some comm =>
      have same := undisturbed before comms [] (by rw [split]; simp) comm last
      rw [read] at same
      exact same.symm

/-- A pop that some `exec` disturbed drops the name of the last. -/
theorem Traced.dropped
    {pid : UInt32}
    {s : PopState}
    {before : List PopAction}
    {comms : List Comm}
    (traced : Traced pid (before ++ .lookup :: comms.map .exec) s)
    {buf : Comm}
    (begun : s.popping = some buf)
    {comm : Comm}
    (last : comm ∈ comms.getLast?)
    (kept : (s.delete pid buf).NamesKept) :
    lastName before = some (execName comm) := by
  obtain ⟨other, more, split, read, entry⟩ := traced.popping buf begun
  obtain ⟨rfl, rfl⟩ := eq_of_append_lookup split
  have nothing : (lookupExecComm s.maps pid).toList.filter (· ≠ buf) = [] :=
    (List.append_eq_nil_iff.mp kept.2).2
  rw [entry, last, Option.map_some, Option.getD_some] at nothing
  have same : execName comm = buf := by simpa using nothing
  rw [read, same]

/-- In every history of `exec`s and pops, the names are kept in every state
exactly where each pop deletes the name that it has read. -/
theorem namesKept_iff
    (pid : UInt32)
    (gComm : Comm)
    (actions : List PopAction)
    (s : PopState)
    (run : runActions (PopState.step pid) actions (.start gComm) = some s) :
    (∀ earlier later t, actions = earlier ++ later →
        runActions (PopState.step pid) earlier (.start gComm) = some t → t.NamesKept) ↔
      UndisturbedPops actions := by
  constructor
  · intro kept before comms after split comm last
    have whole : actions =
        (before ++ .lookup :: comms.map .exec) ++ .delete :: after := by
      rw [split]
      simp
    rw [whole, runActions_append] at run
    obtain ⟨t, reached, rest⟩ := Option.bind_eq_some_iff.mp run
    obtain ⟨u, deleted, _⟩ := Option.bind_eq_some_iff.mp rest
    obtain ⟨buf, begun, rfl⟩ := Option.map_eq_some_iff.mp deleted
    have traced := runActions_history (Traced pid) (Traced.next pid)
      (Traced.start pid gComm) reached
    apply traced.dropped begun last
    apply kept (before ++ .lookup :: comms.map .exec ++ [.delete]) after
    · rw [whole, List.append_assoc _ [_] _]
      rfl
    · exact runActions_snoc.mpr ⟨t, reached, deleted⟩
  · intro undisturbed earlier later t split reached
    have prefixed : UndisturbedPops earlier := by
      intro before comms after shorter
      apply undisturbed before comms (after ++ later)
      rw [split, shorter]
      simp
    have settled : UndisturbedPops earlier → Traced pid earlier t ∧ Settled pid t := by
      refine runActions_history
        (fun actions s => UndisturbedPops actions → Traced pid actions s ∧ Settled pid s)
        ?_ (fun _ => ⟨Traced.start pid gComm, Settled.start pid gComm⟩) reached
      intro before action s following holds taken whole
      have shorter : UndisturbedPops before := by
        intro first comms after split
        apply whole first comms (after ++ [action])
        rw [split]
        simp
      obtain ⟨traced, settled⟩ := holds shorter
      refine ⟨Traced.next pid before action s following traced taken, ?_⟩
      cases action with
      | exec comm =>
          cases taken
          exact settled.exec comm
      | lookup =>
          simp only [PopState.step] at taken
          split at taken
          · cases taken
            exact settled.lookup traced
          · cases taken
      | delete =>
          obtain ⟨buf, begun, rfl⟩ := Option.map_eq_some_iff.mp taken
          exact settled.delete traced begun (traced.unchanged begun whole)
    exact (settled prefixed).2.names

/-- The second `exec` comes between the lookup and the delete of a pop, and the
next pop finds nothing. -/
def overtakenPop : List PopAction :=
  [.exec [97], .lookup, .exec [98], .delete, .lookup]

theorem namesKept_iff_overtaken : ¬ UndisturbedPops overtakenPop := by
  intro undisturbed
  have kept := (namesKept_iff 1000 [] overtakenPop _ rfl).mpr undisturbed
    overtakenPop [] _ rfl rfl
  exact absurd kept (by decide)

theorem overtakenPop_not_kept :
    ∃ s, runActions (PopState.step 1000) overtakenPop (.start []) = some s ∧
      s.settled = true ∧ s.lastExec = some [98] ∧ s.gComm = [97] ∧
      s.dropped = [[98]] ∧ ¬ s.NamesKept :=
  ⟨_, rfl, rfl, rfl, rfl, rfl, by decide⟩

end Schedmon
