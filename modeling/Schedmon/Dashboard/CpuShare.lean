import Mathlib.Algebra.Order.Field.Basic
import Mathlib.Data.Rat.Cast.Order
import Mathlib.Tactic.FieldSimp
import Mathlib.Tactic.Linarith
import Mathlib.Tactic.Positivity
import Mathlib.Tactic.Ring
import Schedmon.Dashboard.Update

/-!
# The processor share over the refreshes

The refreshes of a dashboard, one interval apart, and the processes that hold
the pids.  An entry keeps the ticks of the last reading for up to ten seconds,
also when the pid has passed to another process, while the share is taken of one
interval.
-/

namespace Schedmon

/-- Refreshes one interval apart, in an environment where no process uses more
than all processors. -/
structure DashRun where
  settings : DashSettings
  start : ℚ
  refreshes : ℕ → Refresh
  /-- Which of the processes that held the pid holds it at the refresh. -/
  owner : ℕ → Int → ℕ
  interval_pos : 0 < settings.interval
  hz_pos : 0 < settings.hz
  ncores_pos : 0 < settings.ncores
  nodup : ∀ i, ((refreshes i).rbData.map Prod.fst).Nodup
  spaced : ∀ i, (refreshes i).now = start + i * settings.interval
  /-- The ticks of one process grow, and by at most `hz * ncores` a second. -/
  growth : ∀ i j pid t u, i ≤ j → (refreshes i).ticks pid = some t →
    (refreshes j).ticks pid = some u → owner i pid = owner j pid →
    t ≤ u ∧ (u - t : ℚ) ≤
      settings.hz * settings.ncores * ((j - i) * settings.interval)
  /-- A process that took the pid after a reading starts without ticks. -/
  birth : ∀ i j pid t u, i < j → (refreshes i).ticks pid = some t →
    (refreshes j).ticks pid = some u → owner i pid ≠ owner j pid →
    0 ≤ u ∧ (u : ℚ) ≤
      settings.hz * settings.ncores * ((j - i) * settings.interval)

namespace DashRun

/-- The entries after the given number of refreshes. -/
def stateAfter (run : DashRun) : ℕ → DashState
  | 0 => fun _ => none
  | i + 1 => Dashboard.update run.settings (stateAfter run i) (run.refreshes i)

variable (run : DashRun)

/-- The ticks read of a process, if it is read. -/
def ticks (i : ℕ) (pid : Int) : Option Int :=
  (run.refreshes i).ticks pid

/-- The last reading of the pid before a refresh, and its ticks. -/
structure PreviousReading (i : ℕ) (pid : Int) (j : ℕ) (t : Int) : Prop where
  before : j < i
  read : run.ticks j pid = some t
  none_between : ∀ k, j < k → k < i → run.ticks k pid = none

/-- The ticks that the process holding the pid used since an earlier reading. -/
def usedSince (j i : ℕ) (pid t u : Int) : Int :=
  if run.owner j pid = run.owner i pid then u - t else u

/-- What the share stored for ticks `u` should be: a percentage, and the ticks
used since the previous reading over those of the elapsed time. -/
structure LawfulPct (i : ℕ) (pid u : Int) (pct : ℚ) : Prop where
  nonneg : 0 ≤ pct
  le_hundred : pct ≤ 100
  eq_used : ∀ j t, run.PreviousReading i pid j t →
    pct = run.usedSince j i pid t u /
      (run.settings.hz * run.settings.ncores *
        ((i - j) * run.settings.interval)) * 100

/-- The entry of a reading is still there at a later refresh. -/
def Kept (j i : ℕ) : Prop :=
  ((i : ℚ) - 1 - j) * run.settings.interval ≤ 10

/-- A first reading; or one whose entry was kept, of the same process one
interval after the last or without new ticks, or of another process of which
`n - 1` times the ticks are `n` times those of the old one, `n` intervals apart;
or one whose entry was dropped, without new ticks. -/
def Fresh (i : ℕ) (pid u : Int) : Prop :=
  ∀ j t, run.PreviousReading i pid j t →
    (run.Kept j i → if run.owner j pid = run.owner i pid
      then i = j + 1 ∨ u = t
      else ((i : Int) - j - 1) * u = (i - j) * t) ∧
    (¬ run.Kept j i → run.usedSince j i pid t u = 0)

/-! ## The previous reading -/

section PreviousReading

variable {run} {i : ℕ} {pid : Int}

theorem PreviousReading.unique
    {j k : ℕ}
    {t u : Int}
    (first : run.PreviousReading i pid j t)
    (second : run.PreviousReading i pid k u) :
    j = k ∧ t = u := by
  rcases lt_trichotomy j k with earlier | rfl | later
  · have absent := first.none_between k earlier second.before
    rw [second.read] at absent
    cases absent
  · exact ⟨rfl, Option.some.inj (first.read.symm.trans second.read)⟩
  · have absent := second.none_between j later first.before
    rw [first.read] at absent
    cases absent

theorem previousReading_of_read
    {u : Int}
    (read : run.ticks i pid = some u) :
    run.PreviousReading (i + 1) pid i u where
  before := Nat.lt_succ_self i
  read := read
  none_between := fun _ after before =>
    absurd (Nat.lt_succ_iff.mp before) (Nat.not_le_of_lt after)

theorem previousReading_succ_iff
    (notRead : run.ticks i pid = none)
    {j : ℕ}
    {t : Int} :
    run.PreviousReading (i + 1) pid j t ↔ run.PreviousReading i pid j t := by
  constructor
  · intro previous
    have before : j < i := by
      refine lt_of_le_of_ne (Nat.lt_succ_iff.mp previous.before) ?_
      rintro rfl
      rw [previous.read] at notRead
      cases notRead
    exact ⟨before, previous.read, fun k after below =>
      previous.none_between k after (Nat.lt_succ_of_lt below)⟩
  · intro previous
    refine ⟨Nat.lt_succ_of_lt previous.before, previous.read, ?_⟩
    intro k after below
    rcases Nat.lt_succ_iff_lt_or_eq.mp below with earlier | rfl
    · exact previous.none_between k after earlier
    · exact notRead

end PreviousReading

/-! ## What the entries hold -/

/-- There is no entry unless a reading was kept, and an entry holds the ticks,
the time and the share of the last reading. -/
def EntryLaw (i : ℕ) (pid : Int) : Option PidInfo → Prop
  | none => ∀ j t, run.PreviousReading i pid j t → ¬ run.Kept j i
  | some info => ∃ j, run.PreviousReading i pid j info.prevTicks ∧
      run.Kept j i ∧ info.lastSeen = (run.refreshes j).now ∧
      (run.stateAfter (j + 1) pid).map PidInfo.cpuPct = some info.cpuPct

theorem kept_succ (i : ℕ) : run.Kept i (i + 1) := by
  unfold Kept
  push_cast
  rw [add_sub_cancel_right, sub_self, zero_mul]
  norm_num

theorem kept_of_succ
    {j i : ℕ}
    (kept : run.Kept j (i + 1)) :
    run.Kept j i := by
  have positive := run.interval_pos
  unfold Kept at kept ⊢
  push_cast at kept
  linarith

/-- An entry is dropped when its reading is more than ten seconds old. -/
theorem not_kept_succ_iff
    (j i : ℕ) :
    ¬ run.Kept j (i + 1) ↔
      (run.refreshes i).now - (run.refreshes j).now > 10 := by
  have elapsed : (run.refreshes i).now - (run.refreshes j).now =
      (((i + 1 : ℕ) : ℚ) - 1 - j) * run.settings.interval := by
    rw [run.spaced, run.spaced]
    push_cast
    ring
  rw [elapsed, Kept, not_le]

/-- One refresh keeps the law of each entry. -/
theorem entryLaw_step
    {i : ℕ}
    {pid : Int}
    (law : run.EntryLaw i pid (run.stateAfter i pid)) :
    run.EntryLaw (i + 1) pid (run.stateAfter (i + 1) pid) := by
  cases read : run.ticks i pid with
  | some u =>
    obtain ⟨info, updated, -, prevTicks, lastSeen⟩ :=
      Dashboard.update_of_reading run.settings (run.stateAfter i) (run.nodup i)
        read
    have entry : run.stateAfter (i + 1) pid = some info := updated
    rw [entry]
    refine ⟨i, ?_, run.kept_succ i, lastSeen, ?_⟩
    · rw [prevTicks]
      exact previousReading_of_read read
    · rw [entry]
      rfl
  | none =>
    have updated := Dashboard.update_of_no_reading run.settings
      (run.stateAfter i) (run.nodup i) read
    cases before : run.stateAfter i pid with
    | none =>
      have entry : run.stateAfter (i + 1) pid = none := by
        rw [stateAfter, updated, before]
        rfl
      rw [before] at law
      rw [entry]
      intro j t previous kept
      exact law j t ((previousReading_succ_iff read).mp previous)
        (run.kept_of_succ kept)
    | some info =>
      rw [before] at law
      obtain ⟨j, previous, -, lastSeen, share⟩ := law
      have previousNow := (previousReading_succ_iff read).mpr previous
      have dropped := run.not_kept_succ_iff j i
      rw [← lastSeen] at dropped
      by_cases old : (run.refreshes i).now - info.lastSeen > 10
      · have entry : run.stateAfter (i + 1) pid = none := by
          rw [stateAfter, updated, before]
          simp [Option.filter, old]
        rw [entry]
        intro k t other
        rw [(other.unique previousNow).1]
        exact dropped.mpr old
      · have entry : run.stateAfter (i + 1) pid =
            some { info with seen := false } := by
          rw [stateAfter, updated, before]
          simp [Option.filter, old]
        rw [entry]
        exact ⟨j, previousNow, not_not.mp fun gone => old (dropped.mp gone),
          lastSeen, share⟩

theorem stateAfter_entryLaw
    (i : ℕ)
    (pid : Int) :
    run.EntryLaw i pid (run.stateAfter i pid) := by
  induction i with
  | zero =>
    intro j t previous
    exact absurd previous.before (Nat.not_lt_zero j)
  | succ i inductionHypothesis => exact run.entryLaw_step inductionHypothesis

/-! ## The share stored by a reading -/

/-- All ticks the processors can account for in the given intervals. -/
def capacity (intervals : ℚ) : ℚ :=
  run.settings.hz * run.settings.ncores * (intervals * run.settings.interval)

theorem capacity_pos
    {intervals : ℚ}
    (positive : 0 < intervals) :
    0 < run.capacity intervals := by
  have hz : (0 : ℚ) < run.settings.hz := by exact_mod_cast run.hz_pos
  have ncores : (0 : ℚ) < run.settings.ncores := by exact_mod_cast run.ncores_pos
  exact mul_pos (mul_pos hz ncores) (mul_pos positive run.interval_pos)

/-- The code takes its share of one interval. -/
theorem percent_eq (ticks : ℚ) :
    run.settings.percent ticks = ticks / run.capacity 1 * 100 := by
  have interval := run.interval_pos.ne'
  have hz : (run.settings.hz : ℚ) ≠ 0 := by exact_mod_cast run.hz_pos.ne'
  have ncores : (run.settings.ncores : ℚ) ≠ 0 := by
    exact_mod_cast run.ncores_pos.ne'
  unfold DashSettings.percent capacity
  field_simp

/-- It is the share of several intervals when the ticks taken for one interval
are that many times fewer. -/
theorem percent_eq_iff
    {intervals : ℚ}
    (positive : 0 < intervals)
    (ticks used : ℚ) :
    run.settings.percent ticks = used / run.capacity intervals * 100 ↔
      intervals * ticks = used := by
  have one := run.capacity_pos one_pos
  have scaled : run.capacity intervals = intervals * run.capacity 1 := by
    unfold capacity
    ring
  rw [percent_eq, scaled, mul_left_inj' (by norm_num : (100 : ℚ) ≠ 0),
    div_eq_div_iff one.ne' (mul_pos positive one).ne']
  constructor
  · intro equal
    have cancelled : run.capacity 1 * (intervals * ticks) =
        run.capacity 1 * used := by linarith
    exact mul_left_cancel₀ one.ne' cancelled
  · rintro rfl
    ring

/-- Ticks that the processors can account for are a percentage. -/
theorem share_mem
    {intervals used : ℚ}
    (positive : 0 < intervals)
    (nonneg : 0 ≤ used)
    (le_capacity : used ≤ run.capacity intervals) :
    0 ≤ used / run.capacity intervals * 100 ∧
      used / run.capacity intervals * 100 ≤ 100 := by
  have capacity := run.capacity_pos positive
  have share_le : used / run.capacity intervals ≤ 1 :=
    (div_le_one capacity).mpr le_capacity
  have share_nonneg : 0 ≤ used / run.capacity intervals :=
    div_nonneg nonneg capacity.le
  constructor <;> linarith

section Reading

variable {run} {i : ℕ} {pid u : Int}

/-- The processors can account for the ticks used since a reading. -/
theorem usedSince_mem
    (read : run.ticks i pid = some u)
    {j : ℕ}
    {t : Int}
    (previous : run.PreviousReading i pid j t) :
    (0 : ℚ) ≤ run.usedSince j i pid t u ∧
      (run.usedSince j i pid t u : ℚ) ≤ run.capacity (i - j) := by
  unfold usedSince capacity
  split
  · next same =>
    obtain ⟨grown, bounded⟩ :=
      run.growth j i pid t u previous.before.le previous.read read same
    push_cast
    have grownInField : (t : ℚ) ≤ u := by exact_mod_cast grown
    exact ⟨sub_nonneg.mpr grownInField, bounded⟩
  · next other =>
    obtain ⟨nonneg, bounded⟩ :=
      run.birth j i pid t u previous.before previous.read read other
    exact ⟨by exact_mod_cast nonneg, bounded⟩

/-- The two kinds of readings whose entry was kept, in one equation. -/
theorem kept_fresh_iff
    {j : ℕ}
    {t : Int} :
    (if run.owner j pid = run.owner i pid then i = j + 1 ∨ u = t
      else ((i : Int) - j - 1) * u = (i - j) * t) ↔
      ((i : Int) - j) * (u - t) = run.usedSince j i pid t u := by
  unfold usedSince
  split
  · have factored : ((i : Int) - j) * (u - t) = u - t ↔
        ((i : Int) - j - 1) * (u - t) = 0 := by
      rw [sub_mul _ 1, one_mul, sub_eq_zero]
    rw [factored, mul_eq_zero]
    constructor
    · rintro (next | same)
      · left
        omega
      · right
        omega
    · rintro (next | same)
      · left
        omega
      · right
        omega
  · have moved : ((i : Int) - j) * (u - t) - u =
        ((i : Int) - j - 1) * u - (i - j) * t := by ring
    rw [← sub_eq_zero, ← moved, sub_eq_zero]

/-- The time since the previous reading, in intervals. -/
theorem PreviousReading.elapsed_pos
    {j : ℕ}
    {t : Int}
    (previous : run.PreviousReading i pid j t) :
    (0 : ℚ) < i - j := by
  have earlier : (j : ℚ) < i := by exact_mod_cast previous.before
  linarith

/-- Without an entry nothing is stored, which is right when nothing was used. -/
theorem lawfulPct_zero_iff
    (dropped : ∀ j t, run.PreviousReading i pid j t → ¬ run.Kept j i) :
    run.LawfulPct i pid u 0 ↔ run.Fresh i pid u := by
  have nothing {j : ℕ} {t : Int} (previous : run.PreviousReading i pid j t) :
      (0 : ℚ) = run.usedSince j i pid t u / run.capacity (i - j) * 100 ↔
        run.usedSince j i pid t u = 0 := by
    have capacity := (run.capacity_pos previous.elapsed_pos).ne'
    rw [eq_comm, mul_eq_zero_iff_right (by norm_num), div_eq_zero_iff,
      or_iff_left capacity, Int.cast_eq_zero]
  constructor
  · intro lawful j t previous
    exact ⟨fun kept => absurd kept (dropped j t previous), fun _ =>
      (nothing previous).mp (lawful.eq_used j t previous)⟩
  · intro fresh
    refine ⟨le_rfl, by norm_num, fun j t previous => ?_⟩
    exact (nothing previous).mpr
      ((fresh j t previous).2 (dropped j t previous))

/-- With an entry the share is right when the ticks of one interval are those of
the elapsed time. -/
theorem lawfulPct_percent_iff
    (read : run.ticks i pid = some u)
    {j : ℕ}
    {t : Int}
    (previous : run.PreviousReading i pid j t)
    (kept : run.Kept j i) :
    run.LawfulPct i pid u (run.settings.percent (u - t)) ↔
      run.Fresh i pid u := by
  have right := run.percent_eq_iff previous.elapsed_pos (u - t)
    (run.usedSince j i pid t u)
  have castEquation : ((i : ℚ) - j) * (u - t) = run.usedSince j i pid t u ↔
      ((i : Int) - j) * (u - t) = run.usedSince j i pid t u := by
    exact_mod_cast Iff.rfl
  constructor
  · intro lawful k t' other
    obtain ⟨rfl, rfl⟩ := other.unique previous
    refine ⟨fun _ => kept_fresh_iff.mpr (castEquation.mp (right.mp ?_)),
      fun gone => absurd kept gone⟩
    exact lawful.eq_used _ _ other
  · intro fresh
    have equation := right.mpr
      (castEquation.mpr (kept_fresh_iff.mp ((fresh j t previous).1 kept)))
    obtain ⟨nonneg, bounded⟩ := usedSince_mem read previous
    obtain ⟨low, high⟩ := run.share_mem previous.elapsed_pos nonneg bounded
    rw [← equation] at low high
    refine ⟨low, high, fun k t' other => ?_⟩
    obtain ⟨rfl, rfl⟩ := other.unique previous
    exact equation

/-- A reading stores a lawful share exactly when it is fresh. -/
theorem lawfulPct_iff_fresh
    (read : run.ticks i pid = some u) :
    ∃ info, run.stateAfter (i + 1) pid = some info ∧
      (run.LawfulPct i pid u info.cpuPct ↔ run.Fresh i pid u) := by
  obtain ⟨info, entry, pct, -, -⟩ :=
    Dashboard.update_of_reading run.settings (run.stateAfter i) (run.nodup i)
      read
  refine ⟨info, entry, ?_⟩
  have law := run.stateAfter_entryLaw i pid
  cases before : run.stateAfter i pid with
  | none =>
    rw [before] at law pct
    have zero : info.cpuPct = 0 := by
      rw [pct]
      simp [DashSettings.percent]
    rw [zero]
    exact lawfulPct_zero_iff law
  | some old =>
    rw [before] at law pct
    obtain ⟨j, previous, kept, -, -⟩ := law
    rw [pct]
    exact lawfulPct_percent_iff read previous kept

end Reading

/-- Every share shown after a number of refreshes was stored by the last reading
of the pid. -/
theorem exists_reading_of_entry
    {i : ℕ}
    {pid : Int}
    {info : PidInfo}
    (entry : run.stateAfter i pid = some info) :
    ∃ j u, run.PreviousReading i pid j u ∧
      (run.stateAfter (j + 1) pid).map PidInfo.cpuPct = some info.cpuPct := by
  have law := run.stateAfter_entryLaw i pid
  rw [entry] at law
  obtain ⟨j, previous, -, -, share⟩ := law
  exact ⟨j, _, previous, share⟩

/-- The shares of a whole run are lawful exactly when all its readings are
fresh, and of each reading the share is lawful exactly when it is fresh. -/
theorem shares_lawful_iff :
    (∀ i pid u, run.ticks i pid = some u →
      ∃ info, run.stateAfter (i + 1) pid = some info ∧
        (run.LawfulPct i pid u info.cpuPct ↔ run.Fresh i pid u)) ∧
    ((∀ i pid info, run.stateAfter i pid = some info →
        ∃ j u, run.PreviousReading i pid j u ∧
          run.LawfulPct j pid u info.cpuPct) ↔
      ∀ i pid u, run.ticks i pid = some u → run.Fresh i pid u) := by
  refine ⟨fun i pid u read => lawfulPct_iff_fresh read, ?_, ?_⟩
  · intro lawful i pid u read
    obtain ⟨info, entry, iff⟩ := lawfulPct_iff_fresh read
    obtain ⟨j, t, previous, isLawful⟩ := lawful (i + 1) pid info entry
    obtain ⟨rfl, rfl⟩ := previous.unique (previousReading_of_read read)
    exact iff.mp isLawful
  · intro fresh i pid info entry
    obtain ⟨j, u, previous, share⟩ := run.exists_reading_of_entry entry
    obtain ⟨stored, storedEntry, iff⟩ := lawfulPct_iff_fresh previous.read
    rw [storedEntry] at share
    have same : stored.cpuPct = info.cpuPct := Option.some.inj share
    rw [same] at iff
    exact ⟨j, u, previous, iff.mpr (fresh j pid u previous.read)⟩

end DashRun

/-- A process that uses three quarters of the only processor and is missing from
the second refresh. -/
def missedOnce : DashRun where
  settings := { interval := 2, hz := 100, ncores := 1 }
  start := 0
  refreshes := fun i => {
    rbData := if i = 1 then [] else [(1, SmoothedMetrics.zero)]
    now := i * 2
    stat := fun _ => some ([], 150 * i)
    status := fun _ => (0, 0) }
  owner := fun _ _ => 0
  interval_pos := by norm_num
  hz_pos := by decide
  ncores_pos := by decide
  nodup := by
    intro i
    dsimp only
    split <;> decide
  spaced := fun i => (zero_add _).symm
  growth := by
    intro i j pid t u i_le_j first second _
    have first_eq := Refresh.ticks_of_stat (fun _ => rfl) first
    have second_eq := Refresh.ticks_of_stat (fun _ => rfl) second
    have elapsed : (i : ℚ) ≤ j := by exact_mod_cast i_le_j
    rw [first_eq, second_eq]
    push_cast
    constructor
    · omega
    · linarith
  birth := by
    intro i j pid t u _ _ _ other
    exact absurd rfl other

/-- The third refresh takes the ticks of two intervals for those of one: the
share is said to be one and a half of all processors. -/
theorem missedOnce_not_lawful :
    ¬ ∀ run : DashRun, ∀ i pid info, run.stateAfter i pid = some info →
      ∃ j u, run.PreviousReading i pid j u ∧
        run.LawfulPct j pid u info.cpuPct := by
  intro lawful
  have share : (missedOnce.stateAfter 3 1).map PidInfo.cpuPct = some 150 := by
    decide +kernel
  obtain ⟨info, entry, pct⟩ := Option.map_eq_some_iff.mp share
  obtain ⟨j, u, -, isLawful⟩ := lawful missedOnce 3 1 info entry
  have most := isLawful.le_hundred
  rw [pct] at most
  norm_num at most

end Schedmon
