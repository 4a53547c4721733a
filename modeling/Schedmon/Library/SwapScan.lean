import Mathlib.Data.List.Perm.Basic
import Schedmon.Library.Transition

/-!
# Scanning a list that loses elements

A loop walks over an array from left to right.  Its body either keeps the
element at the index, possibly changed, and goes on to the next index, or
removes it by moving the last element into its place and looks at the same
index again.  The list is split at the index: the elements before it are kept,
those from it on are pending.
-/

namespace Library
namespace SwapScan

open Transition

/-- A loop in progress, with the elements it has visited and the loop's other
variables. -/
structure Scan (σ α : Type*) where
  kept : List α
  pending : List α
  visited : List α
  extra : σ

/-- The list with its last element moved to the front. -/
def refill (rest : List α) : List α :=
  match rest.getLast? with
  | none => []
  | some last => last :: rest.dropLast

theorem refill_perm (rest : List α) : (refill rest).Perm rest := by
  unfold refill
  cases found : rest.getLast? with
  | none => rw [List.getLast?_eq_none_iff.mp found]
  | some last =>
      obtain ⟨front, rfl⟩ := List.getLast?_eq_some_iff.mp found
      rw [List.dropLast_concat]
      exact (List.perm_append_singleton last front).symm

/-- Copying the last element over the one at the index and dropping the last
position leaves the elements before the index alone. -/
theorem dropLast_set_getLast (front : List α) (x : α) (rest : List α) :
    ((front ++ x :: rest).set front.length
        ((front ++ x :: rest).getLast (by simp))).dropLast =
      front ++ refill rest := by
  unfold refill
  cases found : rest.getLast? with
  | none =>
      rw [List.getLast?_eq_none_iff.mp found]
      simp
  | some last =>
      obtain ⟨middle, rfl⟩ := List.getLast?_eq_some_iff.mp found
      have dropped : (last :: (middle ++ [last])).dropLast = last :: middle := by
        rw [← List.cons_append, List.dropLast_concat]
      simp [dropped]

/-- One round of the loop; `none` where the loop is over. -/
def visitNext (visit : σ → α → σ × Option α) (scan : Scan σ α) :
    Option (Scan σ α) :=
  match scan.pending with
  | [] => none
  | x :: rest =>
      match visit scan.extra x with
      | (extra, some y) =>
          some ⟨scan.kept ++ [y], rest, scan.visited ++ [x], extra⟩
      | (extra, none) =>
          some ⟨scan.kept, refill rest, scan.visited ++ [x], extra⟩

variable {σ α β : Type*} {visit : σ → α → σ × Option α}

/-- The loop is over when nothing is pending. -/
theorem visitNext_eq_none_iff {scan : Scan σ α} :
    visitNext visit scan = none ↔ scan.pending = [] := by
  unfold visitNext
  cases scan.pending with
  | nil => simp
  | cons x rest =>
      simp only [reduceCtorEq, iff_false]
      split <;> simp

/-- A round visits one pending element and leaves the others pending. -/
theorem visitNext_cases
    {scan next : Scan σ α}
    (step : visitNext visit scan = some next) :
    ∃ x rest, scan.pending = x :: rest ∧ next.visited = scan.visited ++ [x] ∧
      next.pending.Perm rest ∧
      next.kept = scan.kept ++ (visit scan.extra x).2.toList := by
  unfold visitNext at step
  cases waiting : scan.pending with
  | nil =>
      rw [waiting] at step
      cases step
  | cons x rest =>
      simp only [waiting] at step
      refine ⟨x, rest, rfl, ?_⟩
      rcases result : visit scan.extra x with ⟨extra, _ | y⟩
      · rw [result] at step
        cases step
        exact ⟨rfl, refill_perm rest, by simp⟩
      · rw [result] at step
        cases step
        exact ⟨rfl, .refl _, rfl⟩

/-- A loop ends after one round for each pending element, and has then visited
each of them once. -/
theorem rounds_finish
    (visit : σ → α → σ × Option α)
    (scan : Scan σ α) :
    ∃ final, repeatStep (visitNext visit) scan.pending.length scan = some final ∧
      final.pending = [] ∧
      final.visited.Perm (scan.visited ++ scan.pending) := by
  generalize count : scan.pending.length = n
  induction n generalizing scan with
  | zero =>
      have empty : scan.pending = [] := List.length_eq_zero_iff.mp count
      exact ⟨scan, rfl, empty, by rw [empty, List.append_nil]⟩
  | succ n inductionHypothesis =>
      have goesOn : visitNext visit scan ≠ none := by
        intro ended
        rw [visitNext_eq_none_iff.mp ended] at count
        cases count
      obtain ⟨next, step⟩ := Option.ne_none_iff_exists'.mp goesOn
      obtain ⟨x, rest, waiting, visited, pending, -⟩ := visitNext_cases step
      have shorter : next.pending.length = n := by
        rw [pending.length_eq]
        rw [waiting, List.length_cons] at count
        exact Nat.succ.inj count
      obtain ⟨final, run, empty, order⟩ := inductionHypothesis next shorter
      refine ⟨final, by rw [repeatStep_succ, step]; exact run, empty, ?_⟩
      have moved : (next.visited ++ next.pending).Perm
          (scan.visited ++ scan.pending) := by
        rw [visited, waiting, List.append_assoc]
        exact (pending.cons x).append_left scan.visited
      exact order.trans moved

/-- Where a visit removes an element just when a test says so, and otherwise
keeps its key, the elements that remain are those that fail the test. -/
theorem rounds_kept
    (visit : σ → α → σ × Option α)
    {gone : α → Bool}
    {key : α → β}
    (removes : ∀ extra x, gone x = true → (visit extra x).2 = none)
    (keeps : ∀ extra x, gone x = false →
      ∃ y, (visit extra x).2 = some y ∧ key y = key x)
    {n : Nat}
    {scan final : Scan σ α}
    (run : repeatStep (visitNext visit) n scan = some final) :
    ((final.kept.map key) ++ (final.pending.filter (!gone ·)).map key).Perm
      (scan.kept.map key ++ (scan.pending.filter (!gone ·)).map key) := by
  refine repeatStep_invariant
    (fun current => (current.kept.map key ++
        (current.pending.filter (!gone ·)).map key).Perm
      (scan.kept.map key ++ (scan.pending.filter (!gone ·)).map key))
    ?_ (.refl _) run
  intro current next holds step
  obtain ⟨x, rest, waiting, -, pending, kept⟩ := visitNext_cases step
  refine List.Perm.trans ?_ holds
  have others : ((next.pending.filter (!gone ·)).map key).Perm
      ((rest.filter (!gone ·)).map key) :=
    (pending.filter _).map key
  rw [kept, waiting]
  cases decided : gone x with
  | true =>
      rw [removes current.extra x decided, List.filter_cons_of_neg (by simp [decided])]
      simpa using others.append_left (current.kept.map key)
  | false =>
      obtain ⟨y, result, sameKey⟩ := keeps current.extra x decided
      rw [result, List.filter_cons_of_pos (by simp [decided])]
      simpa [sameKey] using
        (others.cons (key x)).append_left (current.kept.map key)

end SwapScan
end Library
