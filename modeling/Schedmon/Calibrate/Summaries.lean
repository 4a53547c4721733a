import Mathlib.Data.List.MinMax
import Mathlib.Data.List.Sort
import Mathlib.Algebra.Order.Ring.Rat
import Schedmon.Library.SampleVariance

/-!
# Summaries of the measured samples

Calibration drops the outliers of every metric of a workload and reads the
percentiles off the rest.  A summary holds the square of the standard deviation,
which is rational, and reading a list out of range gives no summary.
-/

namespace Schedmon

open Library.SampleVariance

/-- The keys of the rows collected for one workload. -/
inductive Metric where
  | ipc
  | llc
  | ctx
  | ioFreq
  | ioWait
  | rqWait
  deriving DecidableEq, Repr

/-- The entry of one metric in the result of `summarise`. -/
structure MetricSummary where
  mean : ℚ
  variance : ℚ
  p10 : ℚ
  p90 : ℚ
  n : ℕ
  deriving DecidableEq, Repr

/-- `remove_outliers`. -/
def removeOutliers (values : List ℚ) (k : ℚ) : List ℚ :=
  if values.length < 4 then values
  else if variance values = 0 then values
  else near k values

/-- The body of the loop of `summarise`, for the samples of one metric. -/
def summariseMetric (values : List ℚ) : Option MetricSummary :=
  if values = [] then
    some { mean := 0, variance := 0, p10 := 0, p90 := 0, n := 0 }
  else do
    let clean := removeOutliers values 2
    let clean := if clean = [] then values else clean
    let s := clean.mergeSort (· ≤ ·)
    let n := s.length
    let p10 ← s[max 0 (n * 10 / 100)]?
    let p90 ← s[min (n - 1) (n * 90 / 100)]?
    return {
      mean := mean clean
      variance := if n > 1 then variance clean else 0
      p10 := p10
      p90 := p90
      n := n }

/-- `summarise`. -/
def summarise (rows : List (Metric × List ℚ)) :
    Option (List (Metric × MetricSummary)) :=
  rows.mapM fun (metric, values) => do
    let result ← summariseMetric values
    return (metric, result)

/-! ## What is left without the outliers -/

theorem removeOutliers_sublist (values : List ℚ) (k : ℚ) :
    (removeOutliers values k).Sublist values := by
  unfold removeOutliers
  split
  · exact List.Sublist.refl values
  · split
    · exact List.Sublist.refl values
    · exact List.filter_sublist

/-- More than three quarters of the values are at most two deviations from the
mean. -/
theorem removeOutliers_two_length
    {values : List ℚ}
    (nonempty : values ≠ []) :
    3 * values.length < 4 * (removeOutliers values 2).length := by
  have length_pos := List.length_pos_iff.mpr nonempty
  unfold removeOutliers
  split
  · omega
  · next four =>
    split
    · omega
    · next spread =>
      have few := length_far_lt 2 (by omega) spread
      have parts := length_near_add_length_far 2 values
      have fewInNat : (far 2 values).length * 2 ^ 2 < values.length := by
        exact_mod_cast few
      omega

theorem removeOutliers_two_ne_nil
    {values : List ℚ}
    (nonempty : values ≠ []) :
    removeOutliers values 2 ≠ [] := by
  intro empty
  have most := removeOutliers_two_length nonempty
  rw [empty] at most
  exact absurd most (Nat.not_lt_zero _)

/-! ## The percentiles -/

/-- The summary of nonempty samples: most of them are kept, in their order, and
the percentiles are two of them, in order. -/
structure Summarises (values : List ℚ) (summary : MetricSummary) : Prop where
  kept : (removeOutliers values 2).Sublist values
  most : 3 * values.length < 4 * (removeOutliers values 2).length
  clean_ne_nil : removeOutliers values 2 ≠ []
  n_eq : summary.n = (removeOutliers values 2).length
  p10_mem : summary.p10 ∈ values
  p90_mem : summary.p90 ∈ values
  min_le : values.minimum ≤ summary.p10
  ordered : summary.p10 ≤ summary.p90
  le_max : summary.p90 ≤ values.maximum

/-- Reading a sorted list at two of its indices. -/
theorem get_mergeSort_le
    {values : List ℚ}
    {i j : Fin (values.mergeSort (· ≤ ·)).length}
    (i_le_j : i ≤ j) :
    (values.mergeSort (· ≤ ·)).get i ≤ (values.mergeSort (· ≤ ·)).get j :=
  (List.pairwise_mergeSort' (· ≤ ·) values).rel_get_of_le i_le_j

/-- Both percentile indices are in range, and the first is not after the
second. -/
theorem percentiles_sorted
    {clean : List ℚ}
    (nonempty : clean ≠ []) :
    let s := clean.mergeSort (· ≤ ·)
    ∃ p10 p90, s[max 0 (s.length * 10 / 100)]? = some p10 ∧
      s[min (s.length - 1) (s.length * 90 / 100)]? = some p90 ∧
      p10 ∈ clean ∧ p90 ∈ clean ∧ p10 ≤ p90 := by
  intro s
  have length_pos : 0 < s.length := by
    rw [List.length_mergeSort]
    exact List.length_pos_iff.mpr nonempty
  let low : Fin s.length := ⟨max 0 (s.length * 10 / 100), by omega⟩
  let high : Fin s.length :=
    ⟨min (s.length - 1) (s.length * 90 / 100), by omega⟩
  have low_le_high : low ≤ high := by
    rw [Fin.le_def]
    simp only [low, high]
    omega
  exact ⟨s.get low, s.get high, List.getElem?_eq_getElem low.isLt,
    List.getElem?_eq_getElem high.isLt,
    List.mem_mergeSort.mp (List.get_mem s low),
    List.mem_mergeSort.mp (List.get_mem s high), get_mergeSort_le low_le_high⟩

/-- The summary made from two percentiles of what is left. -/
theorem summariseMetric_eq
    {values : List ℚ}
    (nonempty : values ≠ [])
    {p10 p90 : ℚ} :
    let clean := removeOutliers values 2
    let s := clean.mergeSort (· ≤ ·)
    s[max 0 (s.length * 10 / 100)]? = some p10 →
      s[min (s.length - 1) (s.length * 90 / 100)]? = some p90 →
      summariseMetric values = some {
        mean := mean clean
        variance := if s.length > 1 then variance clean else 0
        p10 := p10
        p90 := p90
        n := s.length } := by
  intro clean s p10_read p90_read
  have clean_ne_nil : removeOutliers values 2 ≠ [] :=
    removeOutliers_two_ne_nil nonempty
  rw [summariseMetric, if_neg nonempty]
  simp only [if_neg clean_ne_nil]
  change (s[max 0 (s.length * 10 / 100)]?.bind fun _ =>
    s[min (s.length - 1) (s.length * 90 / 100)]?.bind fun _ => some _) = _
  rw [p10_read, p90_read]
  rfl

theorem summariseMetric_summarises
    {values : List ℚ}
    (nonempty : values ≠ []) :
    ∃ summary, summariseMetric values = some summary ∧
      Summarises values summary := by
  have kept := removeOutliers_sublist values 2
  obtain ⟨p10, p90, p10_read, p90_read, p10_mem, p90_mem, ordered⟩ :=
    percentiles_sorted (removeOutliers_two_ne_nil nonempty)
  refine ⟨_, summariseMetric_eq nonempty p10_read p90_read, ?_⟩
  exact {
    kept := kept
    most := removeOutliers_two_length nonempty
    clean_ne_nil := removeOutliers_two_ne_nil nonempty
    n_eq := List.length_mergeSort _
    p10_mem := kept.mem p10_mem
    p90_mem := kept.mem p90_mem
    min_le := List.minimum_le_of_mem' (kept.mem p10_mem)
    ordered := ordered
    le_max := List.le_maximum_of_mem' (kept.mem p90_mem) }

/-- Every metric gets its summary, in the order of the rows, and the one of
nonempty samples is made of more than three quarters of them. -/
theorem summarise_percentiles (rows : List (Metric × List ℚ)) :
    ∃ result, summarise rows = some result ∧
      List.Forall₂ (fun row entry => entry.1 = row.1 ∧
        (row.2 ≠ [] → Summarises row.2 entry.2)) rows result := by
  induction rows with
  | nil => exact ⟨[], rfl, .nil⟩
  | cons row rows inductionHypothesis =>
    obtain ⟨result, rest, related⟩ := inductionHypothesis
    obtain ⟨metric, values⟩ := row
    have first : ∃ summary, summariseMetric values = some summary ∧
        (values ≠ [] → Summarises values summary) := by
      by_cases empty : values = []
      · exact ⟨_, if_pos empty, fun nonempty => absurd empty nonempty⟩
      · obtain ⟨summary, made, sound⟩ := summariseMetric_summarises empty
        exact ⟨summary, made, fun _ => sound⟩
    obtain ⟨summary, made, sound⟩ := first
    refine ⟨(metric, summary) :: result, ?_, .cons ⟨rfl, sound⟩ related⟩
    unfold summarise at rest ⊢
    rw [List.mapM_cons, rest]
    simp only [made]
    rfl

end Schedmon
