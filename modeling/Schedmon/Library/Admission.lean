import Mathlib.Data.Finset.Card
import Mathlib.Data.Finset.Union

/-!
# Admission into a set of bounded size

Candidates are admitted one after the other while there is room.  All of them
get in exactly when the set with all of them fits.
-/

namespace Library
namespace Admission

variable [DecidableEq α]

/-- Admit one element if the set has room. -/
def admitOne (capacity : Nat) (a : α) (s : Finset α) : Finset α :=
  if s.card < capacity then insert a s else s

/-- Admit the accepted elements of a list in turn. -/
def admitAll (capacity : Nat) (accepted : α → Bool) : List α → Finset α → Finset α
  | [], s => s
  | a :: rest, s =>
      admitAll capacity accepted rest (if accepted a then admitOne capacity a s else s)

/-- The elements of a list that are accepted. -/
def wanted (accepted : α → Bool) (candidates : List α) : Finset α :=
  (candidates.filter accepted).toFinset

variable {capacity : Nat} {accepted : α → Bool} {candidates : List α}
variable {a : α} {s : Finset α}

theorem mem_wanted : a ∈ wanted accepted candidates ↔
    a ∈ candidates ∧ accepted a = true := by
  simp [wanted]

theorem subset_admitOne : s ⊆ admitOne capacity a s := by
  unfold admitOne
  split
  · exact Finset.subset_insert a s
  · exact Finset.Subset.refl s

theorem admitOne_subset : admitOne capacity a s ⊆ insert a s := by
  unfold admitOne
  split
  · exact Finset.Subset.refl _
  · exact Finset.subset_insert a s

theorem admitOne_of_mem (member : a ∈ s) : admitOne capacity a s = s := by
  unfold admitOne
  split
  · exact Finset.insert_eq_self.mpr member
  · rfl

theorem card_admit_le (bounded : s.card ≤ capacity) :
    (admitOne capacity a s).card ≤ capacity := by
  unfold admitOne
  split
  · next room => exact (Finset.card_insert_le a s).trans room
  · exact bounded

theorem subset_admitAll : s ⊆ admitAll capacity accepted candidates s := by
  induction candidates generalizing s with
  | nil => exact Finset.Subset.refl s
  | cons first rest inductionHypothesis =>
      unfold admitAll
      refine Finset.Subset.trans ?_ inductionHypothesis
      split
      · exact subset_admitOne
      · exact Finset.Subset.refl s

/-- One candidate adds nothing but itself, if it is accepted. -/
theorem step_subset (first : α) (rest : List α) :
    (if accepted first then admitOne capacity first s else s) ∪ wanted accepted rest ⊆
      s ∪ wanted accepted (first :: rest) := by
  intro element member
  rcases Finset.mem_union.mp member with here | later
  · split at here
    · next takes =>
        rcases Finset.mem_insert.mp (admitOne_subset here) with equal | old
        · rw [equal]
          exact Finset.mem_union_right _
            (mem_wanted.mpr ⟨List.mem_cons_self, takes⟩)
        · exact Finset.mem_union_left _ old
    · exact Finset.mem_union_left _ here
  · obtain ⟨listed, takes⟩ := mem_wanted.mp later
    exact Finset.mem_union_right _
      (mem_wanted.mpr ⟨List.mem_cons_of_mem first listed, takes⟩)

theorem admitAll_subset :
    admitAll capacity accepted candidates s ⊆ s ∪ wanted accepted candidates := by
  induction candidates generalizing s with
  | nil => exact Finset.subset_union_left
  | cons first rest inductionHypothesis =>
      exact inductionHypothesis.trans (step_subset first rest)

theorem card_admitAll_le (bounded : s.card ≤ capacity) :
    (admitAll capacity accepted candidates s).card ≤ capacity := by
  induction candidates generalizing s with
  | nil => exact bounded
  | cons first rest inductionHypothesis =>
      apply inductionHypothesis
      split
      · exact card_admit_le bounded
      · exact bounded

/-- Where everything fits, every accepted candidate gets in. -/
theorem wanted_subset_admitAll
    (fits : (s ∪ wanted accepted candidates).card ≤ capacity) :
    wanted accepted candidates ⊆ admitAll capacity accepted candidates s := by
  induction candidates generalizing s with
  | nil =>
      intro element member
      simp [wanted] at member
  | cons first rest inductionHypothesis =>
      have first_enters (takes : accepted first = true) :
          first ∈ admitOne capacity first s := by
        by_cases member : first ∈ s
        · exact subset_admitOne member
        · have larger : insert first s ⊆ s ∪ wanted accepted (first :: rest) := by
            apply Finset.insert_subset
            · exact Finset.mem_union_right _
                (mem_wanted.mpr ⟨List.mem_cons_self, takes⟩)
            · exact Finset.subset_union_left
          have room := (Finset.card_le_card larger).trans fits
          rw [Finset.card_insert_of_notMem member] at room
          unfold admitOne
          rw [if_pos (Nat.lt_of_succ_le room)]
          exact Finset.mem_insert_self first s
      have others : wanted accepted rest ⊆ admitAll capacity accepted rest
          (if accepted first then admitOne capacity first s else s) :=
        inductionHypothesis
          ((Finset.card_le_card (step_subset first rest)).trans fits)
      intro element member
      obtain ⟨listed, takes⟩ := mem_wanted.mp member
      unfold admitAll
      rcases List.mem_cons.mp listed with equal | later
      · rw [equal] at takes ⊢
        apply subset_admitAll
        rw [if_pos takes]
        exact first_enters takes
      · exact others (mem_wanted.mpr ⟨later, takes⟩)

/-- All accepted candidates get in exactly when there is room for all. -/
theorem admitAll_eq_union_iff (bounded : s.card ≤ capacity) :
    admitAll capacity accepted candidates s = s ∪ wanted accepted candidates ↔
      (s ∪ wanted accepted candidates).card ≤ capacity := by
  constructor
  · intro equal
    rw [← equal]
    exact card_admitAll_le bounded
  · intro fits
    apply Finset.Subset.antisymm admitAll_subset
    exact Finset.union_subset subset_admitAll (wanted_subset_admitAll fits)

/-! ## Who gets in -/

theorem admitAll_append (first second : List α) :
    admitAll capacity accepted (first ++ second) s =
      admitAll capacity accepted second (admitAll capacity accepted first s) := by
  induction first generalizing s with
  | nil => rfl
  | cons candidate rest inductionHypothesis => exact inductionHypothesis

/-- A full set admits nobody. -/
theorem admitAll_of_full (full : capacity ≤ s.card) :
    admitAll capacity accepted candidates s = s := by
  have refused (candidate : α) : admitOne capacity candidate s = s :=
    if_neg (not_lt.mpr full)
  induction candidates with
  | nil => rfl
  | cons candidate rest inductionHypothesis =>
      unfold admitAll
      rw [refused, ite_self]
      exact inductionHypothesis

/-- A set with room at the end has refused nobody. -/
theorem wanted_subset_of_room
    (room : (admitAll capacity accepted candidates s).card < capacity) :
    wanted accepted candidates ⊆ admitAll capacity accepted candidates s := by
  induction candidates generalizing s with
  | nil => simp [wanted]
  | cons first rest inductionHypothesis =>
      have others := inductionHypothesis room
      have roomBefore : s.card < capacity := by
        by_contra full
        rw [admitAll_of_full (not_lt.mp full)] at room
        exact full room
      intro element member
      obtain ⟨listed, takes⟩ := mem_wanted.mp member
      rcases List.mem_cons.mp listed with rfl | later
      · unfold admitAll
        apply subset_admitAll
        rw [if_pos takes]
        unfold admitOne
        rw [if_pos roomBefore]
        exact Finset.mem_insert_self element s
      · exact others (mem_wanted.mpr ⟨later, takes⟩)

/-- A newcomer gets in exactly when those who asked before it leave room. -/
theorem mem_admitAll_iff
    {before after : List α}
    (bounded : s.card ≤ capacity)
    (takes : accepted a = true)
    (new : a ∉ s)
    (first : a ∉ before) :
    a ∈ admitAll capacity accepted (before ++ a :: after) s ↔
      (s ∪ wanted accepted before).card < capacity := by
  have absent : a ∉ admitAll capacity accepted before s := by
    intro member
    rcases Finset.mem_union.mp (admitAll_subset member) with old | asked
    · exact new old
    · exact first (mem_wanted.mp asked).1
  rw [admitAll_append]
  unfold admitAll
  rw [if_pos takes]
  constructor
  · intro member
    have room : (admitAll capacity accepted before s).card < capacity := by
      by_contra full
      have refused : admitOne capacity a (admitAll capacity accepted before s) =
          admitAll capacity accepted before s := if_neg full
      rw [refused, admitAll_of_full (not_lt.mp full)] at member
      exact absent member
    have whole := Finset.union_subset subset_admitAll (wanted_subset_of_room room)
    exact (Finset.card_le_card whole).trans_lt room
  · intro fits
    have whole := (admitAll_eq_union_iff bounded).mpr fits.le
    apply subset_admitAll
    unfold admitOne
    rw [whole, if_pos fits]
    exact Finset.mem_insert_self a _

end Admission
end Library
