import Mathlib.Algebra.Order.BigOperators.Group.List
import Mathlib.Algebra.Order.Ring.Nat

/-!
# Disjoint spans of time

Spans that follow one another without overlapping are together no longer than
the time from where the first may begin to where the last may end.
-/

namespace Library
namespace Spans

/-- The length of a span. -/
def length (span : ℕ × ℕ) : ℕ :=
  span.2 - span.1

/-- Each span ends before the next ones begin. -/
def Disjoint (spans : List (ℕ × ℕ)) : Prop :=
  spans.Pairwise fun earlier later => earlier.2 ≤ later.1

variable {spans : List (ℕ × ℕ)} {first last : ℕ}

/-- The total length of disjoint spans. -/
theorem sum_length_le
    (disjoint : Disjoint spans)
    (proper : ∀ span ∈ spans, span.1 ≤ span.2)
    (begins : ∀ span ∈ spans, first ≤ span.1)
    (ends : ∀ span ∈ spans, span.2 ≤ last) :
    (spans.map length).sum ≤ last - first := by
  induction spans generalizing first with
  | nil => exact Nat.zero_le _
  | cons span rest inductionHypothesis =>
      obtain ⟨follows, restDisjoint⟩ := List.pairwise_cons.mp disjoint
      have restBound := inductionHypothesis restDisjoint
        (fun later member => proper later (List.mem_cons_of_mem span member))
        follows
        (fun later member => ends later (List.mem_cons_of_mem span member))
      have own := proper span List.mem_cons_self
      have begin' := begins span List.mem_cons_self
      have end' := ends span List.mem_cons_self
      rw [List.map_cons, List.sum_cons]
      unfold length at restBound ⊢
      omega

/-- Leaving spans out makes the total no longer. -/
theorem sum_length_filter_le (keep : ℕ × ℕ → Bool) (spans : List (ℕ × ℕ)) :
    ((spans.filter keep).map length).sum ≤ (spans.map length).sum :=
  (List.filter_sublist.map length).sum_le_sum fun _ _ => Nat.zero_le _

end Spans
end Library
