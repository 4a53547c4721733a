import Schedmon.Daemon.Refinement
import Schedmon.Library.Admission

/-!
# What `sync_pids` tracks

The add loops insert, the removal loops delete, and the table is full for the
add loops as long as the removal loops have not run.
-/

namespace Schedmon

open Library Admission

/-- A pid is tracked when the table has a record for it. -/
theorem Daemon.mem_pids_iff_lookup {s : Daemon} {pid : Int} :
    pid ∈ s.pids ↔ s.lookup pid ≠ none := by
  rw [Ne, Daemon.lookup_eq_none_iff, not_not]

/-! ## Marks -/

/-- `g_states[i].active` of one record. -/
def SlotRecord.setActive (r : SlotRecord) (active : Bool) : SlotRecord :=
  { r with state := { r.state with active := active } }

@[simp] theorem SlotRecord.setActive_pid (r : SlotRecord) (active : Bool) :
    (r.setActive active).pid = r.pid := rfl

theorem clearMarks_slot
    (w : World)
    {i : Fin maxPids}
    (below : i.val < w.daemon.gNActive) :
    (clearMarks w).daemon.slot i = (w.daemon.slot i).setActive false := by
  unfold clearMarks Daemon.slot SlotRecord.setActive
  simp [below]

@[simp] theorem clearMarks_gNActive (w : World) :
    (clearMarks w).daemon.gNActive = w.daemon.gNActive := rfl

@[simp] theorem clearMarks_log (w : World) : (clearMarks w).log = w.log := rfl

theorem markActive_slot (w : World) (i j : Fin maxPids) :
    (markActive w i).daemon.slot j =
      if j = i then (w.daemon.slot i).setActive true else w.daemon.slot j := by
  unfold markActive Daemon.slot SlotRecord.setActive
  by_cases same : j = i
  · subst same
    simp
  · simp [same]

@[simp] theorem markActive_gNActive (w : World) (i : Fin maxPids) :
    (markActive w i).daemon.gNActive = w.daemon.gNActive := rfl

@[simp] theorem markActive_log (w : World) (i : Fin maxPids) :
    (markActive w i).log = w.log := rfl

theorem markActive_lookup
    {w : World}
    (distinct : w.daemon.Distinct)
    {i : Fin maxPids}
    (below : i.val < w.daemon.gNActive) :
    (markActive w i).daemon.Distinct ∧
      (markActive w i).daemon.lookup =
        Function.update w.daemon.lookup (w.daemon.slot i).pid
          (some ((w.daemon.slot i).setActive true)) :=
  distinct.write (r := (w.daemon.slot i).setActive true) below rfl
    (markActive_slot w i) rfl

theorem clearMarks_lookup
    {w : World}
    (distinct : w.daemon.Distinct) :
    (clearMarks w).daemon.Distinct ∧
      ∀ pid, (clearMarks w).daemon.lookup pid =
        (w.daemon.lookup pid).map fun r => r.setActive false := by
  have cleared : (clearMarks w).daemon.Distinct := by
    intro i j iBelow jBelow equal
    rw [clearMarks_slot w iBelow, clearMarks_slot w jBelow] at equal
    exact distinct i j iBelow jBelow equal
  refine ⟨cleared, ?_⟩
  intro pid
  apply Option.ext
  intro r
  rw [cleared.lookup_eq_some_iff, Option.map_eq_some_iff]
  constructor
  · rintro ⟨i, below, equal, named⟩
    rw [clearMarks_slot w below] at equal
    subst equal
    exact ⟨w.daemon.slot i, distinct.lookup_eq_some_iff.mpr ⟨i, below, rfl, named⟩, rfl⟩
  · rintro ⟨old, found, rfl⟩
    obtain ⟨i, below, rfl, named⟩ := distinct.lookup_eq_some_iff.mp found
    exact ⟨i, below, clearMarks_slot w below, named⟩

/-! ## The removal loops -/

/-- A condition that holds of no live slot filters nothing out. -/
theorem Daemon.Distinct.filter_lookup_eq
    {s : Daemon}
    (distinct : s.Distinct)
    {gone : PidState → Bool}
    (stay : ∀ j : Fin maxPids, j.val < s.gNActive →
      gone (s.slot j).state = false)
    (pid : Int) :
    s.lookup pid = (s.lookup pid).filter fun r => !gone r.state := by
  cases found : s.lookup pid with
  | none => rfl
  | some r =>
      obtain ⟨j, below, rfl, _⟩ := distinct.lookup_eq_some_iff.mp found
      rw [Option.filter_some, stay j below]
      rfl

/-- A removal loop deletes exactly the records its condition marks as gone. -/
theorem removeWhere_lookup
    (gone : PidState → Bool)
    (fuel i : Nat)
    (w : World)
    (distinct : w.daemon.Distinct)
    (enough : w.daemon.gNActive ≤ i + fuel)
    (visited : ∀ j : Fin maxPids, j.val < w.daemon.gNActive → j.val < i →
      gone (w.daemon.slot j).state = false) :
    (removeWhere gone fuel i w).daemon.Distinct ∧
      ∀ pid, (removeWhere gone fuel i w).daemon.lookup pid =
        (w.daemon.lookup pid).filter fun r => !gone r.state := by
  induction fuel generalizing i w with
  | zero =>
      exact ⟨distinct, distinct.filter_lookup_eq fun j below =>
        visited j below (by omega)⟩
  | succ fuel inductionHypothesis =>
      unfold removeWhere
      split
      · next below =>
          cases decision : gone (w.daemon.gStates (w.daemon.live below)) with
          | true =>
              obtain ⟨kept, effect⟩ := removeSlot_lookup distinct below
              have nActive := removeSlot_gNActive below
              simp only [if_true]
              obtain ⟨final, result⟩ := inductionHypothesis i (removeSlot w i below)
                kept (by omega) (by
                  intro j jBelow earlier
                  rw [nActive] at jBelow
                  rw [removeSlot_slot below j jBelow, if_neg (by omega)]
                  exact visited j (by omega) earlier)
              refine ⟨final, ?_⟩
              intro pid
              rw [result, effect, Function.update_apply]
              split
              · next named =>
                  subst named
                  rw [distinct.lookup_slot (i := w.daemon.live below) below]
                  have removed :
                      gone (w.daemon.slot (w.daemon.live below)).state = true := decision
                  rw [Option.filter_some, removed]
                  rfl
              · rfl
          | false =>
              simp only [Bool.false_eq_true, if_false]
              apply inductionHypothesis (i + 1) w distinct (by omega)
              intro j jBelow earlier
              rcases Nat.lt_succ_iff_lt_or_eq.mp earlier with old | here
              · exact visited j jBelow old
              · have same : j = w.daemon.live below := Fin.ext here
                subst same
                exact decision
      · exact ⟨distinct, distinct.filter_lookup_eq fun j below =>
          visited j below (by omega)⟩

/-! ## The add loops -/

/-- `add_pid` admits an untracked pid whose counters open. -/
theorem addPid_pids
    {w : World}
    {pid : Int}
    (readings : AddReadings)
    (distinct : w.daemon.Distinct)
    (absent : pid ∉ w.daemon.pids) :
    (addPid w pid readings).2.daemon.pids =
      if perfOpens readings then admitOne maxPids pid w.daemon.pids
      else w.daemon.pids := by
  have effect := (addPid_lookup readings distinct absent).2
  have outcome := addPid_outcome w pid readings
  have count := distinct.card_pids
  generalize addPid w pid readings = result at outcome effect ⊢
  cases outcome with
  | success room opens daemon nActive slots statics =>
      simp only [Option.isSome_some, if_true] at effect
      have roomLeft : w.daemon.pids.card < maxPids := count ▸ room
      rw [if_pos opens, admitOne, if_pos roomLeft]
      ext other
      rw [Daemon.mem_pids_iff_lookup, effect, Finset.mem_insert,
        Daemon.mem_pids_iff_lookup]
      by_cases same : other = pid
      · simp [same]
      · simp [same]
  | failure refused daemon ops traced nActive slots statics =>
      simp only [Option.isSome_none, Bool.false_eq_true, if_false] at effect
      have unchanged : (if perfOpens readings then admitOne maxPids pid w.daemon.pids
          else w.daemon.pids) = w.daemon.pids := by
        rcases refused with full | fails
        · have noRoom : ¬ w.daemon.pids.card < maxPids := by omega
          unfold admitOne
          rw [if_neg noRoom, ite_self]
        · rw [if_neg (by simp [fails])]
      rw [unchanged]
      ext other
      rw [Daemon.mem_pids_iff_lookup, effect, Daemon.mem_pids_iff_lookup]

/-- The loop of explicit mode admits its pids in turn. -/
theorem addMissing_pids
    {env : SyncEnv}
    {opens : Int → Bool}
    (oracle : ∀ position pid, perfOpens (env.add position pid) = opens pid)
    (position : Nat)
    (pids : List Int)
    (w : World)
    (distinct : w.daemon.Distinct) :
    (addMissing env position pids w).daemon.Distinct ∧
      (addMissing env position pids w).daemon.pids =
        admitAll maxPids opens pids w.daemon.pids := by
  induction pids generalizing position w with
  | nil => exact ⟨distinct, rfl⟩
  | cons pid rest inductionHypothesis =>
      unfold addMissing admitAll
      dsimp only
      split
      · next untracked =>
          have absent := Daemon.findSlot_eq_none_iff.mp untracked
          rw [← oracle position pid,
            ← addPid_pids (env.add position pid) distinct absent]
          exact inductionHypothesis (position + 1) _
            (addPid_lookup _ distinct absent).1
      · next tracked =>
          have member : pid ∈ w.daemon.pids := by
            rw [Daemon.findSlot_eq_none_iff] at tracked
            exact not_not.mp tracked
          rw [admitOne_of_mem member, ite_self]
          exact inductionHypothesis (position + 1) w distinct

/-- A pid's slot carries the mark. -/
def Daemon.Marked (s : Daemon) (pid : Int) : Prop :=
  ∃ r, s.lookup pid = some r ∧ r.state.active = true

/-- Marking a live slot marks its pid and no other. -/
theorem markActive_marked
    {w : World}
    (distinct : w.daemon.Distinct)
    {i : Fin maxPids}
    (below : i.val < w.daemon.gNActive)
    (pid : Int) :
    (markActive w i).daemon.Marked pid ↔
      w.daemon.Marked pid ∨ pid = (w.daemon.slot i).pid := by
  unfold Daemon.Marked
  rw [(markActive_lookup distinct below).2]
  by_cases same : pid = (w.daemon.slot i).pid
  · simp [same, SlotRecord.setActive]
  · simp [same]

theorem markActive_pids
    {w : World}
    (distinct : w.daemon.Distinct)
    {i : Fin maxPids}
    (below : i.val < w.daemon.gNActive) :
    (markActive w i).daemon.pids = w.daemon.pids := by
  ext pid
  rw [Daemon.mem_pids_iff_lookup, Daemon.mem_pids_iff_lookup,
    (markActive_lookup distinct below).2]
  by_cases same : pid = (w.daemon.slot i).pid
  · simp [same, distinct.lookup_slot below]
  · rw [Function.update_of_ne same]

/-- One round of top-N mode: find or add the pid, and mark its slot. -/
def topRound (env : SyncEnv) (position : Nat) (pid : Int) (w : World) : World :=
  let found :=
    match w.daemon.findSlot pid with
    | some slot => (some slot, w)
    | none => addPid w pid (env.add position pid)
  match found.1 with
  | some slot => markActive found.2 slot
  | none => found.2

theorem addTop_cons
    (env : SyncEnv)
    (position : Nat)
    (pid : Int)
    (rest : List Int)
    (w : World) :
    addTop env position (pid :: rest) w =
      addTop env (position + 1) rest (topRound env position pid w) := rfl

/-- A round admits its pid if the counters open, and marks it if it is tracked. -/
theorem topRound_spec
    (env : SyncEnv)
    (position : Nat)
    (pid : Int)
    {w : World}
    (distinct : w.daemon.Distinct) :
    (topRound env position pid w).daemon.Distinct ∧
      (topRound env position pid w).daemon.pids =
        (if perfOpens (env.add position pid) then admitOne maxPids pid w.daemon.pids
          else w.daemon.pids) ∧
      ∀ other, (topRound env position pid w).daemon.Marked other ↔
        w.daemon.Marked other ∨
          (other = pid ∧ pid ∈ (topRound env position pid w).daemon.pids) := by
  unfold topRound
  cases found : w.daemon.findSlot pid with
  | some slot =>
      obtain ⟨below, named⟩ := Daemon.findSlot_eq_some found
      have member : pid ∈ w.daemon.pids := Daemon.mem_pids.mpr ⟨slot, below, named⟩
      dsimp only
      refine ⟨(markActive_lookup distinct below).1, ?_, ?_⟩
      · rw [markActive_pids distinct below, admitOne_of_mem member, ite_self]
      · intro other
        rw [markActive_marked distinct below, markActive_pids distinct below, named]
        simp [member]
  | none =>
      have absent := Daemon.findSlot_eq_none_iff.mp found
      obtain ⟨kept, effect⟩ := addPid_lookup (env.add position pid) distinct absent
      have pids := addPid_pids (env.add position pid) distinct absent
      have outcome := addPid_outcome w pid (env.add position pid)
      dsimp only
      generalize addPid w pid (env.add position pid) = result at *
      cases outcome with
      | success room opens daemon nActive slots statics =>
          dsimp only at *
          have below : w.daemon.gNActive < daemon.gNActive := by omega
          have named : (daemon.slot ⟨w.daemon.gNActive, room⟩).pid = pid := by
            rw [slots, if_pos rfl, freshRecord_pid]
          refine ⟨(markActive_lookup kept below).1, ?_, ?_⟩
          · rw [markActive_pids kept below]
            exact pids
          · intro other
            rw [markActive_marked kept below, markActive_pids kept below, named, pids,
              if_pos opens]
            have entered : pid ∈ admitOne maxPids pid w.daemon.pids := by
              rw [admitOne, if_pos (distinct.card_pids ▸ room)]
              exact Finset.mem_insert_self pid _
            have others (different : other ≠ pid) :
                daemon.Marked other ↔ w.daemon.Marked other := by
              unfold Daemon.Marked
              rw [effect]
              simp [Function.update_of_ne different]
            by_cases same : other = pid
            · simp [same, entered]
            · simp [same, others same]
      | failure refused daemon ops traced nActive slots statics =>
          dsimp only at *
          have unchanged : daemon.lookup = w.daemon.lookup := by
            simpa using effect
          refine ⟨kept, pids, ?_⟩
          intro other
          have refusedPid : pid ∉ daemon.pids := by
            rw [Daemon.mem_pids_iff_lookup, unchanged, ← Daemon.mem_pids_iff_lookup]
            exact absent
          simp [Daemon.Marked, unchanged, refusedPid]

/-- The loop of top-N mode admits its pids in turn and marks those that are
tracked in the end. -/
theorem addTop_spec
    {env : SyncEnv}
    {opens : Int → Bool}
    (oracle : ∀ position pid, perfOpens (env.add position pid) = opens pid)
    (position : Nat)
    (top : List Int)
    (w : World)
    (distinct : w.daemon.Distinct) :
    (addTop env position top w).daemon.Distinct ∧
      (addTop env position top w).daemon.pids =
        admitAll maxPids opens top w.daemon.pids ∧
      ∀ pid, (addTop env position top w).daemon.Marked pid ↔
        w.daemon.Marked pid ∨
          (pid ∈ top ∧ pid ∈ (addTop env position top w).daemon.pids) := by
  induction top generalizing position w with
  | nil => exact ⟨distinct, rfl, by simp [addTop]⟩
  | cons first rest inductionHypothesis =>
      obtain ⟨kept, pids, marked⟩ := topRound_spec env position first distinct
      obtain ⟨final, finalPids, finalMarked⟩ :=
        inductionHypothesis (position + 1) _ kept
      rw [addTop_cons]
      refine ⟨final, ?_, ?_⟩
      · rw [finalPids, pids, oracle]
        rfl
      · intro pid
        rw [finalMarked pid, marked pid]
        -- a pid refused in its round is tracked only if it is listed again
        have again (tracked : first ∈ (addTop env (position + 1) rest
            (topRound env position first w)).daemon.pids) :
            first ∈ (topRound env position first w).daemon.pids ∨ first ∈ rest := by
          rw [finalPids] at tracked
          rcases Finset.mem_union.mp (admitAll_subset tracked) with here | later
          · exact .inl here
          · exact .inr (mem_wanted.mp later).1
        have grows : (topRound env position first w).daemon.pids ⊆
            (addTop env (position + 1) rest
              (topRound env position first w)).daemon.pids := by
          rw [finalPids]
          exact subset_admitAll
        constructor
        · rintro ((old | ⟨rfl, member⟩) | ⟨listed, member⟩)
          · exact .inl old
          · exact .inr ⟨List.mem_cons_self, grows member⟩
          · exact .inr ⟨List.mem_cons_of_mem first listed, member⟩
        · rintro (old | ⟨listed, member⟩)
          · exact .inl (.inl old)
          · rcases List.mem_cons.mp listed with rfl | later
            · rcases again member with here | later
              · exact .inl (.inr ⟨rfl, here⟩)
              · exact .inr ⟨later, member⟩
            · exact .inr ⟨later, member⟩

/-! ## The variables outside the slots -/

@[simp] theorem markActive_statics (w : World) (i : Fin maxPids) :
    (markActive w i).daemon.statics = w.daemon.statics := rfl

@[simp] theorem clearMarks_statics (w : World) :
    (clearMarks w).daemon.statics = w.daemon.statics := rfl

theorem removeWhere_statics (gone : PidState → Bool) (fuel i : Nat) (w : World) :
    (removeWhere gone fuel i w).daemon.statics = w.daemon.statics := by
  induction fuel generalizing i w with
  | zero => rfl
  | succ fuel inductionHypothesis =>
      unfold removeWhere
      split
      · split
        · rw [inductionHypothesis, removeSlot_statics]
        · rw [inductionHypothesis]
      · rfl

theorem addMissing_statics
    (env : SyncEnv)
    (position : Nat)
    (pids : List Int)
    (w : World) :
    (addMissing env position pids w).daemon.statics = w.daemon.statics := by
  induction pids generalizing position w with
  | nil => rfl
  | cons pid rest inductionHypothesis =>
      unfold addMissing
      dsimp only
      rw [inductionHypothesis]
      split
      · exact addPid_statics w pid _
      · rfl

theorem addTop_statics
    (env : SyncEnv)
    (position : Nat)
    (top : List Int)
    (w : World) :
    (addTop env position top w).daemon.statics = w.daemon.statics := by
  induction top generalizing position w with
  | nil => rfl
  | cons pid rest inductionHypothesis =>
      rw [addTop_cons, inductionHypothesis]
      unfold topRound
      dsimp only
      cases w.daemon.findSlot pid with
      | some slot => rfl
      | none =>
          dsimp only
          split
          · exact addPid_statics w pid _
          · exact addPid_statics w pid _

/-- After the gate, `sync_pids` changes the scanner by its scan only. -/
theorem syncNow_statics
    (qsort : Qsort)
    (cfg : DaemonConfig)
    (env : SyncEnv)
    (w : World) :
    (syncNow qsort cfg env w).daemon.statics =
      (scanProcs cfg env w).daemon.statics := by
  unfold syncNow
  dsimp only
  split
  · rw [removeWhere_statics, addMissing_statics]
  · rw [removeWhere_statics, addTop_statics, clearMarks_statics]

theorem slowLoop_statics
    (env : TickEnv)
    (dt : ℚ)
    (displayLimit : Int)
    (fuel i displayed : Nat)
    (w : World) :
    (slowLoop env dt displayLimit fuel i displayed w).daemon.statics =
      w.daemon.statics := by
  induction fuel generalizing i displayed w with
  | zero => rfl
  | succ fuel inductionHypothesis =>
      unfold slowLoop
      split
      · dsimp only
        split
        · rw [inductionHypothesis, removeSlot_statics]
        · rw [inductionHypothesis]
          rfl
        · rw [inductionHypothesis]
          rfl
      · rfl

theorem fastLoop_statics (now : UInt64) (fuel i : Nat) (w : World) :
    (fastLoop now fuel i w).daemon.statics = w.daemon.statics := by
  induction fuel generalizing i w with
  | zero => rfl
  | succ fuel inductionHypothesis =>
      unfold fastLoop
      split
      · dsimp only
        rw [inductionHypothesis]
        rfl
      · rfl

end Schedmon
