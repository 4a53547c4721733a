import Mathlib.Data.List.Destutter

/-!
# Lists up to repetition

A list that grows at its end, with runs of equal elements collapsed into one,
and how often it changes.  Who looks at it only now and then sees fewer changes.
-/

namespace Library
namespace Stutter

variable [DecidableEq α]

/-- Collapse each run of equal elements. -/
def collapse (list : List α) : List α :=
  list.destutter (· ≠ ·)

@[simp] theorem collapse_nil : collapse ([] : List α) = [] := rfl

theorem destutter'_append_singleton (first : α) (list : List α) (a : α) :
    (list ++ [a]).destutter' (· ≠ ·) first =
      if (first :: list).getLast? = some a then list.destutter' (· ≠ ·) first
      else list.destutter' (· ≠ ·) first ++ [a] := by
  induction list generalizing first with
  | nil =>
      by_cases same : first = a
      · simp [same]
      · simp [same]
  | cons second rest inductionHypothesis =>
      rw [List.cons_append, List.getLast?_cons_cons]
      by_cases same : first = second
      · rw [List.destutter'_cons_neg _ (not_not.mpr same),
          List.destutter'_cons_neg _ (not_not.mpr same), inductionHypothesis first,
          same]
      · rw [List.destutter'_cons_pos _ same, List.destutter'_cons_pos _ same,
          inductionHypothesis second]
        split
        · rfl
        · rfl

/-- An element is kept exactly where it differs from the one before it. -/
theorem collapse_append_singleton (list : List α) (a : α) :
    collapse (list ++ [a]) =
      if list.getLast? = some a then collapse list else collapse list ++ [a] := by
  cases list with
  | nil => simp [collapse]
  | cons first rest =>
      unfold collapse
      rw [List.cons_append, List.destutter_cons', List.destutter_cons',
        destutter'_append_singleton]

/-- Repeating the last element changes nothing. -/
theorem collapse_append_last
    {list : List α}
    {a : α}
    (last : list.getLast? = some a) :
    collapse (list ++ [a]) = collapse list := by
  rw [collapse_append_singleton, if_pos last]

/-- Collapsing keeps the last element. -/
theorem getLast?_collapse (list : List α) :
    (collapse list).getLast? = list.getLast? := by
  induction list using List.reverseRecOn with
  | nil => rfl
  | append_singleton list a inductionHypothesis =>
      rw [collapse_append_singleton]
      split
      · next last => rw [inductionHypothesis, last, List.getLast?_concat]
      · rw [List.getLast?_concat, List.getLast?_concat]

/-- Lists that are equal up to repetition stay so when both grow alike. -/
theorem collapse_append_congr
    {list other : List α}
    (equal : collapse list = collapse other)
    (a : α) :
    collapse (list ++ [a]) = collapse (other ++ [a]) := by
  have last : list.getLast? = other.getLast? := by
    rw [← getLast?_collapse, equal, getLast?_collapse]
  rw [collapse_append_singleton, collapse_append_singleton, equal, last]

/-! ## Changes -/

/-- How often two consecutive elements differ. -/
def changes (list : List α) : Nat :=
  (collapse list).length - 1

theorem collapse_length_pos
    {list : List α}
    {last : α}
    (ends : list.getLast? = some last) :
    0 < (collapse list).length := by
  rw [← getLast?_collapse] at ends
  exact List.length_pos_of_mem (List.mem_of_getLast? ends)

theorem changes_append_same
    {list : List α}
    {a : α}
    (last : list.getLast? = some a) :
    changes (list ++ [a]) = changes list := by
  unfold changes
  rw [collapse_append_last last]

theorem changes_append_other
    {list : List α}
    {a last : α}
    (ends : list.getLast? = some last)
    (other : a ≠ last) :
    changes (list ++ [a]) = changes list + 1 := by
  have positive := collapse_length_pos ends
  have different : list.getLast? ≠ some a := by
    rw [ends]
    exact fun equal => other (Option.some.inj equal).symm
  unfold changes
  rw [collapse_append_singleton, if_neg different, List.length_append,
    List.length_singleton]
  omega

theorem changes_append_le (list more : List α) :
    changes list ≤ changes (list ++ more) := by
  induction more using List.reverseRecOn with
  | nil => rw [List.append_nil]
  | append_singleton more a inductionHypothesis =>
      rw [← List.append_assoc]
      apply inductionHypothesis.trans
      unfold changes
      rw [collapse_append_singleton]
      split
      · exact Nat.le_refl _
      · rw [List.length_append]
        omega

/-- Whoever knows the last element before and after a list has grown knows
whether it changed, as long as it changed at most once. -/
theorem changes_append_cases
    {list : List α}
    {last : α}
    (ends : list.getLast? = some last)
    (more : List α) :
    (changes (list ++ more) = changes list ∧
      (list ++ more).getLast? = some last) ∨
    (changes (list ++ more) = changes list + 1 ∧
      ∃ other, (list ++ more).getLast? = some other ∧ other ≠ last) ∨
    changes list + 2 ≤ changes (list ++ more) := by
  induction more using List.reverseRecOn with
  | nil =>
      rw [List.append_nil]
      exact .inl ⟨rfl, ends⟩
  | append_singleton more a inductionHypothesis =>
      rw [← List.append_assoc]
      have final : ((list ++ more) ++ [a]).getLast? = some a := List.getLast?_concat
      rcases inductionHypothesis with
        ⟨count, same⟩ | ⟨count, other, moved, different⟩ | more_than_once
      · by_cases here : a = last
        · subst here
          rw [changes_append_same same]
          exact .inl ⟨count, final⟩
        · rw [changes_append_other same here, count]
          exact .inr (.inl ⟨rfl, a, final, here⟩)
      · by_cases here : a = other
        · subst here
          rw [changes_append_same moved]
          exact .inr (.inl ⟨count, a, final, different⟩)
        · rw [changes_append_other moved here, count]
          exact .inr (.inr (Nat.le_refl _))
      · exact .inr (.inr (more_than_once.trans (changes_append_le _ _)))

end Stutter
end Library
