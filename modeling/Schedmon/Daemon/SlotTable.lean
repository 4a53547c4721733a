import Mathlib.Data.Finset.Image
import Mathlib.Data.Finset.Card
import Mathlib.Data.Fintype.Fin
import Mathlib.Logic.Relation
import Schedmon.Daemon.Loop
import Schedmon.Daemon.Slots
import Schedmon.Library.Transition

/-!
# The slot table as a finite map

The live slots hold pairwise different pids, so the table is a finite map from
a pid to the record of its slot.  Each operation on the arrays is one operation
on that map: where in the table a record lies can never be seen.
-/

namespace Schedmon

open Library

namespace Daemon

/-- No two live slots track the same pid. -/
def Distinct (s : Daemon) : Prop :=
  ∀ i j : Fin maxPids, i.val < s.gNActive → j.val < s.gNActive →
    (s.slot i).pid = (s.slot j).pid → i = j

/-- The pids of the live slots. -/
def pids (s : Daemon) : Finset Int :=
  (Finset.univ.filter fun i : Fin maxPids => i.val < s.gNActive).image
    fun i => (s.slot i).pid

/-- The record of the slot that tracks a pid. -/
def lookup (s : Daemon) (pid : Int) : Option SlotRecord :=
  (s.findSlot pid).map s.slot

variable {s : Daemon} {pid : Int}

theorem mem_pids :
    pid ∈ s.pids ↔
      ∃ i : Fin maxPids, i.val < s.gNActive ∧ (s.slot i).pid = pid := by
  simp [pids]

theorem card_filter_live (s : Daemon) :
    (Finset.univ.filter fun i : Fin maxPids => i.val < s.gNActive).card =
      s.gNActive := by
  rw [Fin.card_filter_val_lt]
  exact Nat.min_eq_right s.gNActive_le

/-- A table with distinct pids tracks one pid for each live slot. -/
theorem Distinct.card_pids (distinct : s.Distinct) :
    s.pids.card = s.gNActive := by
  unfold pids
  rw [Finset.card_image_of_injOn, card_filter_live]
  intro i iLive j jLive equal
  simp only [Finset.coe_filter, Finset.mem_univ, true_and, Set.mem_ofPred_eq]
    at iLive jLive
  exact distinct i j iLive jLive equal

/-- The search finds a slot below the bound, if there is one. -/
theorem findBelow_cases (s : Daemon) (pid : Int) (bound : Nat) :
    (s.findBelow pid bound = none ∧
      ∀ i : Fin maxPids, i.val < bound → (s.slot i).pid ≠ pid) ∨
    ∃ i : Fin maxPids, s.findBelow pid bound = some i ∧ i.val < bound ∧
      (s.slot i).pid = pid := by
  induction bound with
  | zero => exact .inl ⟨rfl, fun i below => absurd below (Nat.not_lt_zero _)⟩
  | succ bound inductionHypothesis =>
      rcases inductionHypothesis with ⟨nothing, others⟩ | ⟨i, found, below, equal⟩
      · simp only [findBelow, nothing]
        split
        · next inside =>
            split
            · next equal =>
                exact .inr ⟨⟨bound, inside⟩, rfl, Nat.lt_succ_self bound, equal⟩
            · next different =>
                refine .inl ⟨rfl, ?_⟩
                intro i below
                rcases Nat.lt_succ_iff_lt_or_eq.mp below with earlier | last
                · exact others i earlier
                · have same : i = ⟨bound, inside⟩ := Fin.ext last
                  subst same
                  exact different
        · next outside =>
            refine .inl ⟨rfl, ?_⟩
            intro i below
            exact others i (by have := i.isLt; omega)
      · exact .inr ⟨i, by simp [findBelow, found], by omega, equal⟩

/-- `find_slot` answers -1 exactly for a pid that no live slot tracks. -/
theorem findSlot_eq_none_iff : s.findSlot pid = none ↔ pid ∉ s.pids := by
  rw [mem_pids]
  unfold findSlot
  rcases s.findBelow_cases pid s.gNActive with ⟨nothing, others⟩ | ⟨i, found, below, equal⟩
  · simp only [nothing, true_iff]
    rintro ⟨i, below, equal⟩
    exact others i below equal
  · simp only [found, reduceCtorEq, false_iff, not_not]
    exact ⟨i, below, equal⟩

/-- `find_slot` finds a live slot that tracks the pid. -/
theorem findSlot_eq_some
    {i : Fin maxPids}
    (found : s.findSlot pid = some i) :
    i.val < s.gNActive ∧ (s.slot i).pid = pid := by
  unfold findSlot at found
  rcases s.findBelow_cases pid s.gNActive with ⟨nothing, _⟩ | ⟨j, other, below, equal⟩
  · rw [nothing] at found
    cases found
  · rw [other] at found
    cases found
    exact ⟨below, equal⟩

theorem lookup_eq_none_iff : s.lookup pid = none ↔ pid ∉ s.pids := by
  rw [← findSlot_eq_none_iff, lookup, Option.map_eq_none_iff]

/-- With distinct pids, a pid's record is that of any live slot tracking it. -/
theorem Distinct.lookup_eq_some_iff
    (distinct : s.Distinct)
    {r : SlotRecord} :
    s.lookup pid = some r ↔
      ∃ i : Fin maxPids, i.val < s.gNActive ∧ s.slot i = r ∧ r.pid = pid := by
  unfold lookup
  rw [Option.map_eq_some_iff]
  constructor
  · rintro ⟨i, found, rfl⟩
    obtain ⟨below, equal⟩ := findSlot_eq_some found
    exact ⟨i, below, rfl, equal⟩
  · rintro ⟨i, below, rfl, equal⟩
    cases found : s.findSlot pid with
    | none => exact absurd (mem_pids.mpr ⟨i, below, equal⟩) (findSlot_eq_none_iff.mp found)
    | some j =>
        obtain ⟨jBelow, jEqual⟩ := findSlot_eq_some found
        have same : i = j := distinct i j below jBelow (equal.trans jEqual.symm)
        subst same
        exact ⟨i, rfl, rfl⟩

/-- The record that a map holds for a live slot's pid is that slot. -/
theorem Distinct.lookup_slot
    (distinct : s.Distinct)
    {i : Fin maxPids}
    (below : i.val < s.gNActive) :
    s.lookup (s.slot i).pid = some (s.slot i) :=
  distinct.lookup_eq_some_iff.mpr ⟨i, below, rfl, rfl⟩

theorem start_distinct : Daemon.start.Distinct := by
  intro i j below
  exact absurd below (Nat.not_lt_zero _)

/-- Two distinct tables agree as maps when they have the same live records. -/
theorem Distinct.lookup_eq_of_slots
    {t : Daemon}
    (distinct : s.Distinct)
    (nActive : t.gNActive = s.gNActive)
    (slots : ∀ i : Fin maxPids, i.val < s.gNActive → t.slot i = s.slot i) :
    t.Distinct ∧ t.lookup = s.lookup := by
  have tDistinct : t.Distinct := by
    intro i j iBelow jBelow equal
    rw [nActive] at iBelow jBelow
    rw [slots i iBelow, slots j jBelow] at equal
    exact distinct i j iBelow jBelow equal
  refine ⟨tDistinct, ?_⟩
  funext pid
  apply Option.ext
  intro r
  rw [distinct.lookup_eq_some_iff, tDistinct.lookup_eq_some_iff]
  simp only [nActive]
  constructor
  · rintro ⟨i, below, equal, named⟩
    exact ⟨i, below, (slots i below).symm.trans equal, named⟩
  · rintro ⟨i, below, equal, named⟩
    exact ⟨i, below, (slots i below).trans equal, named⟩

section Operations

variable {t : Daemon}

/-- Filling the slot after the last live one inserts its record. -/
theorem Distinct.append
    (distinct : s.Distinct)
    {r : SlotRecord}
    (nActive : t.gNActive = s.gNActive + 1)
    (slots : ∀ j, t.slot j = if j.val = s.gNActive then r else s.slot j)
    (absent : r.pid ∉ s.pids) :
    t.Distinct ∧ t.lookup = Function.update s.lookup r.pid (some r) := by
  have old (j : Fin maxPids) (below : j.val < s.gNActive) : t.slot j = s.slot j := by
    rw [slots, if_neg (Nat.ne_of_lt below)]
  have new (j : Fin maxPids) (last : j.val = s.gNActive) : t.slot j = r := by
    rw [slots, if_pos last]
  have differs (j : Fin maxPids) (below : j.val < s.gNActive) :
      (s.slot j).pid ≠ r.pid := fun equal => absent (mem_pids.mpr ⟨j, below, equal⟩)
  have tDistinct : t.Distinct := by
    intro i j iBelow jBelow equal
    rw [nActive] at iBelow jBelow
    rcases Nat.lt_succ_iff_lt_or_eq.mp iBelow with iOld | iNew <;>
      rcases Nat.lt_succ_iff_lt_or_eq.mp jBelow with jOld | jNew
    · rw [old i iOld, old j jOld] at equal
      exact distinct i j iOld jOld equal
    · rw [old i iOld, new j jNew] at equal
      exact absurd equal (differs i iOld)
    · rw [new i iNew, old j jOld] at equal
      exact absurd equal.symm (differs j jOld)
    · exact Fin.ext (iNew.trans jNew.symm)
  refine ⟨tDistinct, ?_⟩
  funext pid
  by_cases named : pid = r.pid
  · subst named
    rw [Function.update_self, tDistinct.lookup_eq_some_iff]
    have inside : s.gNActive < maxPids := by
      have bounded := t.gNActive_le
      omega
    exact ⟨⟨s.gNActive, inside⟩, by rw [nActive]; exact Nat.lt_succ_self _,
      new _ rfl, rfl⟩
  · rw [Function.update_of_ne named]
    apply Option.ext
    intro other
    rw [distinct.lookup_eq_some_iff, tDistinct.lookup_eq_some_iff]
    constructor
    · rintro ⟨j, below, equal, otherPid⟩
      rw [nActive] at below
      rcases Nat.lt_succ_iff_lt_or_eq.mp below with isOld | isNew
      · exact ⟨j, isOld, (old j isOld).symm.trans equal, otherPid⟩
      · rw [new j isNew] at equal
        subst equal
        exact absurd otherPid.symm named
    · rintro ⟨j, below, equal, otherPid⟩
      exact ⟨j, by omega, (old j below).trans equal, otherPid⟩

/-- Writing one live slot without changing its pid changes its record. -/
theorem Distinct.write
    (distinct : s.Distinct)
    {i : Fin maxPids}
    {r : SlotRecord}
    (below : i.val < s.gNActive)
    (nActive : t.gNActive = s.gNActive)
    (slots : ∀ j, t.slot j = if j = i then r else s.slot j)
    (samePid : r.pid = (s.slot i).pid) :
    t.Distinct ∧ t.lookup = Function.update s.lookup r.pid (some r) := by
  have pids (j : Fin maxPids) : (t.slot j).pid = (s.slot j).pid := by
    rw [slots]
    split
    · next equal => rw [equal, samePid]
    · rfl
  have tDistinct : t.Distinct := by
    intro j k jBelow kBelow equal
    rw [nActive] at jBelow kBelow
    rw [pids, pids] at equal
    exact distinct j k jBelow kBelow equal
  refine ⟨tDistinct, ?_⟩
  funext pid
  by_cases named : pid = r.pid
  · subst named
    rw [Function.update_self, tDistinct.lookup_eq_some_iff]
    exact ⟨i, by omega, by rw [slots, if_pos rfl], rfl⟩
  · rw [Function.update_of_ne named]
    apply Option.ext
    intro other
    rw [distinct.lookup_eq_some_iff, tDistinct.lookup_eq_some_iff, nActive]
    have elsewhere (j : Fin maxPids) (jPid : (s.slot j).pid = pid) :
        t.slot j = s.slot j := by
      rw [slots, if_neg]
      intro equal
      rw [equal, ← samePid] at jPid
      exact named jPid.symm
    constructor
    · rintro ⟨j, jBelow, equal, otherPid⟩
      have jPid : (s.slot j).pid = pid := by rw [← pids, equal, otherPid]
      exact ⟨j, jBelow, (elsewhere j jPid).symm.trans equal, otherPid⟩
    · rintro ⟨j, jBelow, equal, otherPid⟩
      have jPid : (s.slot j).pid = pid := by rw [equal, otherPid]
      exact ⟨j, jBelow, (elsewhere j jPid).trans equal, otherPid⟩

/-- Moving the last record into a freed slot deletes the freed record only. -/
theorem Distinct.swapRemove
    (distinct : s.Distinct)
    {i : Fin maxPids}
    (below : i.val < s.gNActive)
    (nActive : t.gNActive = s.gNActive - 1)
    (slots : ∀ j : Fin maxPids, j.val < s.gNActive - 1 →
      t.slot j = if j.val = i.val then s.slot s.lastIndex else s.slot j) :
    t.Distinct ∧ t.lookup = Function.update s.lookup (s.slot i).pid none := by
  have lastVal : s.lastIndex.val = s.gNActive - 1 := rfl
  -- the old index of the record at a remaining index
  let origin (j : Fin maxPids) : Fin maxPids :=
    if j.val = i.val then s.lastIndex else j
  have moved (j : Fin maxPids) (remains : j.val < s.gNActive - 1) :
      t.slot j = s.slot (origin j) := by
    rw [slots j remains]
    simp only [origin]
    split <;> rfl
  have originLive (j : Fin maxPids) (remains : j.val < s.gNActive - 1) :
      (origin j).val < s.gNActive ∧ origin j ≠ i := by
    simp only [origin]
    split
    · next here =>
        refine ⟨by omega, fun equal => ?_⟩
        have := congrArg Fin.val equal
        omega
    · next elsewhere =>
        exact ⟨by omega, fun equal => elsewhere (congrArg Fin.val equal)⟩
  have originInjective (j k : Fin maxPids)
      (jRemains : j.val < s.gNActive - 1) (kRemains : k.val < s.gNActive - 1)
      (equal : origin j = origin k) : j = k := by
    apply Fin.ext
    have values := congrArg Fin.val equal
    simp only [origin] at values
    split at values <;> split at values <;> omega
  have originSurjective (k : Fin maxPids) (kLive : k.val < s.gNActive)
      (other : k ≠ i) : ∃ j : Fin maxPids, j.val < s.gNActive - 1 ∧ origin j = k := by
    have otherVal : k.val ≠ i.val := fun equal => other (Fin.ext equal)
    by_cases last : k.val = s.gNActive - 1
    · refine ⟨i, by omega, ?_⟩
      simp only [origin, if_true]
      exact Fin.ext (by omega)
    · refine ⟨k, by omega, ?_⟩
      simp only [origin, otherVal, if_false]
  have tDistinct : t.Distinct := by
    intro j k jBelow kBelow equal
    rw [nActive] at jBelow kBelow
    rw [moved j jBelow, moved k kBelow] at equal
    exact originInjective j k jBelow kBelow (distinct _ _
      (originLive j jBelow).1 (originLive k kBelow).1 equal)
  refine ⟨tDistinct, ?_⟩
  funext pid
  apply Option.ext
  intro r
  rw [tDistinct.lookup_eq_some_iff, nActive]
  by_cases named : pid = (s.slot i).pid
  · subst named
    rw [Function.update_self]
    simp only [reduceCtorEq, iff_false]
    rintro ⟨j, remains, rfl, equal⟩
    rw [moved j remains] at equal
    exact (originLive j remains).2
      (distinct _ _ (originLive j remains).1 below equal)
  · rw [Function.update_of_ne named, distinct.lookup_eq_some_iff]
    constructor
    · rintro ⟨j, remains, equal, rPid⟩
      exact ⟨origin j, (originLive j remains).1,
        (moved j remains).symm.trans equal, rPid⟩
    · rintro ⟨k, kLive, equal, rPid⟩
      have other : k ≠ i := by
        intro same
        subst same
        exact named (by rw [equal, rPid])
      obtain ⟨j, remains, origin_eq⟩ := originSurjective k kLive other
      exact ⟨j, remains, by rw [moved j remains, origin_eq, equal], rPid⟩

end Operations

end Daemon

end Schedmon
