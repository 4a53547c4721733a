import Mathlib.Algebra.BigOperators.Group.Finset.Basic
import Mathlib.Logic.Relation

/-!
# A counter in a shared map

Threads add to the counter under one key of a map.  Each looks the entry up
first.  Where it finds one, it adds to the element that it found; where it finds
none, it stores an element of its own over whatever is there by then.
-/

namespace Library
namespace SharedCounter

/-- The entry of the counter: the element that it lies in, and its value. -/
structure Cell (ν : Type) where
  element : ℕ
  value : Option ν

/-- Where a thread stands with its one addition. -/
inductive Phase
  | before
  /-- It has found an element. -/
  | found (element : ℕ)
  /-- It has found none. -/
  | missing
  | after
  deriving DecidableEq

/-- The entry, and where each thread stands. -/
structure Counting (ι ν : Type) where
  cell : Cell ν
  phase : ι → Phase

/-- What is left of an addition. -/
def Phase.owes {ν : Type} [Zero ν] (phase : Phase) (amount : ν) : ν :=
  match phase with
  | .after => 0
  | _ => amount

theorem Phase.owes_of_ne
    {ν : Type}
    [Zero ν]
    {phase : Phase}
    (waits : phase ≠ .after)
    (amount : ν) :
    phase.owes amount = amount := by
  cases phase with
  | after => exact absurd rfl waits
  | _ => rfl

theorem Phase.owes_zero
    {ν : Type}
    [Zero ν]
    (phase : Phase) :
    phase.owes (0 : ν) = 0 := by
  cases phase <;> rfl

variable {ι ν : Type} [AddCommMonoid ν]

/-- The entry after an addition to an element, which may have been replaced. -/
def Cell.addAt (cell : Cell ν) (element : ℕ) (amount : ν) : Cell ν :=
  if cell.element = element then
    { cell with value := cell.value.map (· + amount) }
  else cell

/-- What a thread finds. -/
def Cell.look (cell : Cell ν) : Phase :=
  match cell.value with
  | some _ => .found cell.element
  | none => .missing

/-- One step of a thread, or of whoever creates the entry where it is missing. -/
inductive Step [DecidableEq ι] (amount : ι → ν) : Counting ι ν → Counting ι ν → Prop
  | other (s : Counting ι ν) : Step amount s s
  | look (s : Counting ι ν) (i : ι) (waits : s.phase i = .before) :
      Step amount s { s with phase := Function.update s.phase i s.cell.look }
  | add (s : Counting ι ν) (i : ι) (element : ℕ) (waits : s.phase i = .found element) :
      Step amount s
        { cell := s.cell.addAt element (amount i)
          phase := Function.update s.phase i .after }
  | store (s : Counting ι ν) (i : ι) (element : ℕ) (waits : s.phase i = .missing) :
      Step amount s
        { cell := ⟨element, some (amount i)⟩
          phase := Function.update s.phase i .after }
  | create (s : Counting ι ν) (element : ℕ) (absent : s.cell.value = none) :
      Step amount s { s with cell := ⟨element, some 0⟩ }

/-- The step of one thread, seen from the entry and the thread alone. -/
inductive Move (amount : ν) : Cell ν → Phase → Cell ν → Phase → Prop
  | other (cell : Cell ν) (phase : Phase) : Move amount cell phase cell phase
  | look (cell : Cell ν) : Move amount cell .before cell cell.look
  | add (cell : Cell ν) (element : ℕ) :
      Move amount cell (.found element) (cell.addAt element amount) .after
  | store (cell : Cell ν) (element : ℕ) :
      Move amount cell .missing ⟨element, some amount⟩ .after
  | create (cell : Cell ν) (phase : Phase) (element : ℕ) (absent : cell.value = none) :
      Move amount cell phase ⟨element, some 0⟩ phase

/-- A thread's move is a step of the system. -/
theorem Step.of_move
    [DecidableEq ι]
    {amount : ι → ν}
    {s : Counting ι ν}
    {i : ι}
    {cell : Cell ν}
    {origin target : Phase}
    (stands : s.phase i = origin)
    (move : Move (amount i) s.cell origin cell target) :
    Step amount s ⟨cell, Function.update s.phase i target⟩ := by
  cases move with
  | other =>
      rw [← stands, Function.update_eq_self]
      exact .other s
  | look => exact .look s i stands
  | add element => exact .add s i element stands
  | store element => exact .store s i element stands
  | create _ element absent =>
      rw [← stands, Function.update_eq_self]
      exact .create s element absent

namespace Counting

variable [Fintype ι] (amount : ι → ν) (s : Counting ι ν)

/-- What a thread still has to add. -/
def owed (i : ι) : ν := (s.phase i).owes (amount i)

/-- The counter, and what the threads still have to add. -/
def total : ν := s.cell.value.getD 0 + ∑ i, s.owed amount i

variable {amount s}

/-- Where all threads are done the total is the counter. -/
theorem total_of_after (done : ∀ i, s.phase i = .after) :
    s.total amount = s.cell.value.getD 0 := by
  have nothing : ∑ i, s.owed amount i = 0 := by
    apply Finset.sum_eq_zero
    intro i _
    rw [owed, done]
    rfl
  rw [total, nothing, add_zero]

variable [DecidableEq ι]

/-- A thread that does not finish owes what it owed. -/
theorem total_of_look
    {i : ι}
    {phase : Phase}
    (waits : s.phase i ≠ .after)
    (still : phase ≠ .after) :
    total amount { s with phase := Function.update s.phase i phase } =
      s.total amount := by
  unfold total
  congr 1
  apply Finset.sum_congr rfl
  intro j _
  unfold owed
  dsimp only
  by_cases same : j = i
  · subst same
    rw [Function.update_self, Phase.owes_of_ne still, Phase.owes_of_ne waits]
  · rw [Function.update_of_ne same]

/-- A thread that finishes with its addition made keeps the total. -/
theorem total_of_finish
    {i : ι}
    {cell : Cell ν}
    (waits : s.phase i ≠ .after)
    (added : cell.value.getD 0 = s.cell.value.getD 0 + amount i) :
    total amount ⟨cell, Function.update s.phase i .after⟩ = s.total amount := by
  have finished : owed amount ⟨cell, Function.update s.phase i .after⟩ i = 0 := by
    unfold owed
    dsimp only
    rw [Function.update_self]
    rfl
  have owes : s.owed amount i = amount i := Phase.owes_of_ne waits _
  have others : ∑ j ∈ Finset.univ.erase i,
        owed amount ⟨cell, Function.update s.phase i .after⟩ j =
      ∑ j ∈ Finset.univ.erase i, s.owed amount j := by
    apply Finset.sum_congr rfl
    intro j other
    unfold owed
    dsimp only
    rw [Function.update_of_ne (Finset.ne_of_mem_erase other)]
  unfold total
  rw [← Finset.add_sum_erase _ _ (Finset.mem_univ i),
    ← Finset.add_sum_erase _ (s.owed amount) (Finset.mem_univ i)]
  rw [finished, owes, others, zero_add, added, add_assoc]

end Counting

variable [DecidableEq ι]

/-! ## Steps that lose nothing -/

/-- An element that was found is still the entry's, and where none was found
nothing has been counted since. -/
def Phase.Holds (cell : Cell ν) : Phase → Prop
  | .found element => cell.element = element ∧ cell.value.isSome
  | .missing => cell.value.getD 0 = 0
  | _ => True

theorem Cell.look_ne_after {ν : Type} (cell : Cell ν) : cell.look ≠ .after := by
  unfold look
  split <;> simp

theorem Cell.look_holds (cell : Cell ν) : cell.look.Holds cell := by
  unfold look
  split
  · next value there => exact ⟨rfl, by rw [there]; rfl⟩
  · next absent =>
      change cell.value.getD 0 = 0
      rw [absent]
      rfl

theorem Cell.addAt_of_holds
    {cell : Cell ν}
    {element : ℕ}
    (holds : (Phase.found element).Holds cell)
    (amount : ν) :
    cell.addAt element amount =
        { cell with value := some (cell.value.getD 0 + amount) } := by
  obtain ⟨same, there⟩ := holds
  obtain ⟨value, there⟩ := Option.isSome_iff_exists.mp there
  unfold addAt
  rw [if_pos same, there]
  rfl

/-- Where every thread holds the entry, a step keeps the total. -/
theorem Step.total_eq
    [Fintype ι]
    {amount : ι → ν}
    {s t : Counting ι ν}
    (step : Step amount s t)
    (holds : ∀ i, (s.phase i).Holds s.cell) :
    t.total amount = s.total amount := by
  cases step with
  | other => rfl
  | look i waits => exact Counting.total_of_look (by simp [waits]) (Cell.look_ne_after _)
  | add i element waits =>
      have held := holds i
      rw [waits] at held
      apply Counting.total_of_finish (by simp [waits])
      rw [Cell.addAt_of_holds held]
      rfl
  | store i element waits =>
      have held := holds i
      rw [waits] at held
      apply Counting.total_of_finish (by simp [waits])
      rw [show s.cell.value.getD 0 = 0 from held, zero_add]
      rfl
  | create element absent =>
      change (0 : ν) + _ = s.cell.value.getD 0 + _
      rw [absent]
      rfl

/-- The entry is there and every thread that has looked holds it. -/
structure Present (s : Counting ι ν) : Prop where
  there : s.cell.value.isSome
  holds : ∀ i, (s.phase i).Holds s.cell ∧ s.phase i ≠ .missing

theorem Present.step
    {amount : ι → ν}
    {s t : Counting ι ν}
    (present : Present s)
    (step : Step amount s t) :
    Present t := by
  cases step with
  | other => exact present
  | look i waits =>
      have found : s.cell.look ≠ .missing := by
        obtain ⟨value, there⟩ := Option.isSome_iff_exists.mp present.there
        simp [Cell.look, there]
      refine ⟨present.there, ?_⟩
      exact (Function.forall_update_iff s.phase fun _ phase =>
        phase.Holds s.cell ∧ phase ≠ .missing).mpr
        ⟨⟨s.cell.look_holds, found⟩, fun j _ => present.holds j⟩
  | add i element waits =>
      have held := (present.holds i).1
      rw [waits] at held
      rw [Cell.addAt_of_holds held]
      refine ⟨rfl, ?_⟩
      refine (Function.forall_update_iff s.phase fun _ phase =>
        phase.Holds _ ∧ phase ≠ .missing).mpr ⟨⟨trivial, by simp⟩, ?_⟩
      intro j _
      obtain ⟨others, found⟩ := present.holds j
      refine ⟨?_, found⟩
      cases phase : s.phase j with
      | found other =>
          rw [phase] at others
          exact ⟨others.1, rfl⟩
      | missing => exact absurd phase found
      | before => trivial
      | after => trivial
  | store i element waits => exact absurd waits (present.holds i).2
  | create element absent =>
      have there := present.there
      rw [absent] at there
      cases there

/-- One thread at most has still something to add, and holds the entry. -/
structure Lone (s : Counting ι ν) : Prop where
  lone : {i | s.phase i ≠ .after}.Subsingleton
  holds : ∀ i, (s.phase i).Holds s.cell

theorem Lone.step
    {amount : ι → ν}
    {s t : Counting ι ν}
    (lone : Lone s)
    (step : Step amount s t) :
    Lone t := by
  have updated {i : ι} (waits : s.phase i ≠ .after) (phase : Phase) (cell : Cell ν)
      (fits : phase.Holds cell) : Lone ⟨cell, Function.update s.phase i phase⟩ := by
    have others (j : ι) (different : j ≠ i) : s.phase j = .after := by
      by_contra waiting
      exact different (lone.lone waiting waits)
    refine ⟨?_, ?_⟩
    · have alone (j : ι) (waiting : Function.update s.phase i phase j ≠ .after) :
          j = i := by
        by_contra different
        rw [Function.update_of_ne different] at waiting
        exact waiting (others j different)
      intro j first k second
      rw [alone j first, alone k second]
    · refine (Function.forall_update_iff s.phase fun _ phase => phase.Holds cell).mpr
        ⟨fits, ?_⟩
      intro j different
      rw [others j different]
      trivial
  cases step with
  | other => exact lone
  | look i waits => exact updated (by simp [waits]) _ _ s.cell.look_holds
  | add i element waits => exact updated (by simp [waits]) .after _ trivial
  | store i element waits => exact updated (by simp [waits]) .after _ trivial
  | create element absent =>
      refine ⟨lone.lone, ?_⟩
      intro i
      have held := lone.holds i
      cases phase : s.phase i with
      | found other =>
          rw [phase] at held
          have there := held.2
          rw [absent] at there
          cases there
      | missing => rfl
      | before => trivial
      | after => trivial

/-! ## Runs -/

open Relation

variable {amount : ι → ν} {s t : Counting ι ν}

/-- An invariant under which no thread holds a lost entry loses nothing. -/
theorem Counting.exact_of_invariant
    [Fintype ι]
    {Inv : Counting ι ν → Prop}
    (holds : ∀ u, Inv u → ∀ i, (u.phase i).Holds u.cell)
    (kept : ∀ u v, Inv u → Step amount u v → Inv v)
    (start : Inv s)
    (run : ReflTransGen (Step amount) s t)
    (done : ∀ i, t.phase i = .after) :
    t.cell.value.getD 0 = s.total amount := by
  have both : Inv t ∧ t.total amount = s.total amount := by
    clear done
    induction run with
    | refl => exact ⟨start, rfl⟩
    | @tail u v _ step inductionHypothesis =>
        obtain ⟨now, same⟩ := inductionHypothesis
        exact ⟨kept u v now step, (step.total_eq (holds u now)).trans same⟩
  rw [← Counting.total_of_after done]
  exact both.2

/-- Where the entry is there from the start, nothing is lost. -/
theorem Present.exact
    [Fintype ι]
    (present : Present s)
    (run : ReflTransGen (Step amount) s t)
    (done : ∀ i, t.phase i = .after) :
    t.cell.value.getD 0 = s.total amount :=
  Counting.exact_of_invariant (fun _ now i => (now.holds i).1)
    (fun _ _ now step => now.step step) present run done

/-- Where one thread at most adds, nothing is lost. -/
theorem Lone.exact
    [Fintype ι]
    (lone : Lone s)
    (run : ReflTransGen (Step amount) s t)
    (done : ∀ i, t.phase i = .after) :
    t.cell.value.getD 0 = s.total amount :=
  Counting.exact_of_invariant (fun _ now => now.holds)
    (fun _ _ now step => now.step step) lone run done

/-- Where all add nothing, an absent counter stays at nothing. -/
theorem zero_of_amounts_zero
    (none : ∀ i, amount i = 0)
    (start : s.cell.value.getD 0 = 0)
    (run : ReflTransGen (Step amount) s t) :
    t.cell.value.getD 0 = 0 := by
  induction run with
  | refl => exact start
  | @tail u v _ step inductionHypothesis =>
      cases step with
      | other => exact inductionHypothesis
      | look i waits => exact inductionHypothesis
      | add i element waits =>
          unfold Cell.addAt
          dsimp only
          split
          · rw [none i]
            cases value : u.cell.value with
            | none => rfl
            | some old =>
                rw [value] at inductionHypothesis
                simpa using inductionHypothesis
          · exact inductionHypothesis
      | store i element waits => exact none i
      | create element absent => rfl

/-- No thread has looked the entry up. -/
def Idle (s : Counting ι ν) : Prop :=
  ∀ i, s.phase i = .before ∨ s.phase i = .after

theorem Idle.holds
    {ι ν : Type}
    [AddCommMonoid ν]
    {s : Counting ι ν}
    (idle : Idle s)
    (i : ι) :
    (s.phase i).Holds s.cell ∧ s.phase i ≠ .missing := by
  rcases idle i with phase | phase
  · rw [phase]
    exact ⟨trivial, by simp⟩
  · rw [phase]
    exact ⟨trivial, by simp⟩

/-- Nothing is lost where the entry is there, or one thread at most adds, or
none adds more than nothing. -/
theorem Idle.exact
    [Fintype ι]
    (idle : Idle s)
    (safe : s.cell.value.isSome ∨ {i | s.phase i = .before}.Subsingleton ∨
      ∀ i, amount i = 0)
    (run : ReflTransGen (Step amount) s t)
    (done : ∀ i, t.phase i = .after) :
    t.cell.value.getD 0 = s.total amount := by
  rcases safe with there | sole | none
  · exact Present.exact ⟨there, idle.holds⟩ run done
  · refine Lone.exact ⟨?_, fun i => (idle.holds i).1⟩ run done
    intro i first j second
    exact sole ((idle i).resolve_right first) ((idle j).resolve_right second)
  · by_cases there : s.cell.value.isSome
    · exact Present.exact ⟨there, idle.holds⟩ run done
    · have absent : s.cell.value.getD 0 = 0 := by
        rw [Option.not_isSome_iff_eq_none.mp there]
        rfl
      have owed : ∑ i, s.owed amount i = 0 := by
        apply Finset.sum_eq_zero
        intro i _
        unfold Counting.owed
        rw [none i]
        exact Phase.owes_zero _
      rw [zero_of_amounts_zero none absent run, Counting.total, absent, owed, add_zero]

/-! ## Steps that lose an addition -/

/-- What a thread stores over the entry replaces what was counted there. -/
theorem Counting.total_of_store
    [Fintype ι]
    {i : ι}
    (waits : s.phase i = .missing)
    (element : ℕ) :
    total amount ⟨⟨element, some (amount i)⟩, Function.update s.phase i .after⟩ +
        s.cell.value.getD 0 = s.total amount := by
  have emptied : total amount ⟨⟨s.cell.element, none⟩, s.phase⟩ = total amount
      ⟨⟨element, some (amount i)⟩, Function.update s.phase i .after⟩ := by
    symm
    exact Counting.total_of_finish (s := ⟨⟨s.cell.element, none⟩, s.phase⟩)
      (by simp [waits]) (zero_add _).symm
  rw [← emptied]
  unfold total
  rw [add_comm]
  congr 1
  exact zero_add _

/-- Where two threads have found none, the second to store loses what the first
has added. -/
theorem Counting.total_of_two_stores
    [Fintype ι]
    (absent : s.cell.value = none)
    {i j : ι}
    (different : i ≠ j)
    (first : s.phase i = .missing)
    (second : s.phase j = .missing)
    (element other : ℕ) :
    total amount ⟨⟨element, some (amount j)⟩,
        Function.update (Function.update s.phase i .after) j .after⟩ + amount i =
      s.total amount := by
  have earlier : total amount ⟨⟨other, some (amount i)⟩,
      Function.update s.phase i .after⟩ + s.cell.value.getD 0 = s.total amount :=
    Counting.total_of_store first other
  rw [absent, Option.getD_none, add_zero] at earlier
  have still : Function.update s.phase i .after j = .missing := by
    rw [Function.update_of_ne different.symm, second]
  rw [← earlier]
  exact Counting.total_of_store
    (s := ⟨⟨other, some (amount i)⟩, Function.update s.phase i .after⟩) still element

/-- Where two threads stand that have both looked up and then stored. -/
def overwritten (phase : ι → Phase) (i j : ι) : ι → Phase :=
  Function.update (Function.update
    (Function.update (Function.update phase i .missing) j .missing) i .after) j .after

/-- Two threads that look up before either stores lose the addition of one. -/
theorem Idle.lost
    [Fintype ι]
    (amount : ι → ν)
    (idle : Idle s)
    (absent : s.cell.value = none)
    {i j : ι}
    (different : i ≠ j)
    (first : s.phase i = .before)
    (second : s.phase j = .before)
    (element : ℕ) :
    Present (Counting.mk ⟨element, some (amount j)⟩ (overwritten s.phase i j)) ∧
      Counting.total amount ⟨⟨element, some (amount j)⟩, overwritten s.phase i j⟩ +
          amount i = s.total amount := by
  refine ⟨⟨rfl, ?_⟩, ?_⟩
  · intro k
    unfold overwritten
    dsimp only
    by_cases last : k = j
    · subst last
      rw [Function.update_self]
      exact ⟨trivial, by simp⟩
    · rw [Function.update_of_ne last]
      by_cases earlier : k = i
      · subst earlier
        rw [Function.update_self]
        exact ⟨trivial, by simp⟩
      · rw [Function.update_of_ne earlier, Function.update_of_ne last,
          Function.update_of_ne earlier]
        rcases idle k with before | after
        · rw [before]
          exact ⟨trivial, by simp⟩
        · rw [after]
          exact ⟨trivial, by simp⟩
  · have still : Function.update s.phase i .missing j = .before := by
      rw [Function.update_of_ne different.symm, second]
    have looked : Counting.total amount ⟨s.cell,
        Function.update (Function.update s.phase i .missing) j .missing⟩ =
          s.total amount :=
      (Counting.total_of_look (s := ⟨s.cell, Function.update s.phase i .missing⟩)
        (by simp [still]) (by simp)).trans
          (Counting.total_of_look (by simp [first]) (by simp))
    rw [← looked]
    exact Counting.total_of_two_stores
      (s := ⟨s.cell, Function.update (Function.update s.phase i .missing) j .missing⟩)
      absent different (by simp [Function.update_of_ne different])
      (Function.update_self _ _ _) element 0

end SharedCounter
end Library
