import Mathlib.Data.List.Chain

/-!
# Sums over consecutive elements

A sum over the pairs of consecutive elements of a list that grows at its end.
-/

namespace Library
namespace Consecutive

/-- The sum over the pairs of consecutive elements. -/
def overPairs (f : α → α → Nat) : List α → Nat
  | first :: second :: rest => f first second + overPairs f (second :: rest)
  | _ => 0

theorem overPairs_cons_cons (f : α → α → Nat) (first second : α) (rest : List α) :
    overPairs f (first :: second :: rest) =
      f first second + overPairs f (second :: rest) := rfl

/-- One more element adds one more pair. -/
theorem overPairs_concat (f : α → α → Nat) (list : List α) (last a : α) :
    overPairs f (list ++ [last] ++ [a]) =
      overPairs f (list ++ [last]) + f last a := by
  induction list with
  | nil => simp [overPairs]
  | cons first rest inductionHypothesis =>
      cases rest with
      | nil => simp [overPairs]
      | cons second rest =>
          simp only [List.cons_append, overPairs_cons_cons] at inductionHypothesis ⊢
          rw [inductionHypothesis, Nat.add_assoc]

variable {f g : α → α → Nat} {list : List α}

theorem overPairs_le (below : list.IsChain fun a b => f a b ≤ g a b) :
    overPairs f list ≤ overPairs g list := by
  induction below with
  | nil => exact Nat.le_refl _
  | singleton => exact Nat.le_refl _
  | cons_cons first _ inductionHypothesis =>
      exact Nat.add_le_add first inductionHypothesis

/-- The smaller sum is equal to the larger one only pair by pair. -/
theorem overPairs_eq_iff (below : list.IsChain fun a b => f a b ≤ g a b) :
    overPairs f list = overPairs g list ↔ list.IsChain fun a b => f a b = g a b := by
  induction below with
  | nil => simp [overPairs]
  | singleton => simp [overPairs]
  | cons_cons first rest inductionHypothesis =>
      have smaller := overPairs_le rest
      rw [List.isChain_cons_cons, ← inductionHypothesis, overPairs_cons_cons,
        overPairs_cons_cons]
      omega

/-- A sum of increments is the increment of the whole. -/
theorem overPairs_sub
    (size : α → Nat)
    {first : α}
    {rest : List α}
    (grows : (first :: rest).IsChain fun a b => size a ≤ size b) :
    overPairs (fun a b => size b - size a) (first :: rest) =
      size ((first :: rest).getLast (List.cons_ne_nil _ _)) - size first ∧
    size first ≤ size ((first :: rest).getLast (List.cons_ne_nil _ _)) := by
  induction rest generalizing first with
  | nil => simp [overPairs]
  | cons second rest inductionHypothesis =>
      obtain ⟨here, later⟩ := List.isChain_cons_cons.mp grows
      obtain ⟨sum, above⟩ := inductionHypothesis later
      rw [List.getLast_cons_cons, overPairs_cons_cons]
      omega

/-- Relations that agree on the consecutive pairs of a chain. -/
theorem isChain_congr
    {P Q R : α → α → Prop}
    (chain : list.IsChain P)
    (agree : ∀ a b, P a b → (Q a b ↔ R a b)) :
    list.IsChain Q ↔ list.IsChain R := by
  induction chain with
  | nil => simp
  | singleton => simp
  | cons_cons first _ inductionHypothesis =>
      rw [List.isChain_cons_cons, List.isChain_cons_cons, agree _ _ first,
        inductionHypothesis]

end Consecutive
end Library
