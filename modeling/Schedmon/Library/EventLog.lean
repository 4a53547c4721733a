import Mathlib.Data.List.Basic

/-!
# Laws of an event log

A log grows at its end.  A law says of each event what must hold of the log
before it; an observation of the log is the latest event that it selects.
-/

namespace Library
namespace EventLog

/-- Every event satisfies the law, given the events before it. -/
def EachEvent (law : List ε → ε → Prop) (log : List ε) : Prop :=
  ∀ before e after, log = before ++ e :: after → law before e

/-- Events that satisfy the law when they are appended to a log in turn. -/
def Along (law : List ε → ε → Prop) (log events : List ε) : Prop :=
  EachEvent (fun before e => law (log ++ before) e) events

theorem eachEvent_nil (law : List ε → ε → Prop) : EachEvent law [] := by
  intro before e after split
  exact absurd split (by simp)

/-- A log with an event that violates the law. -/
theorem not_eachEvent
    {law : List ε → ε → Prop}
    {log : List ε}
    (i : Nat)
    (violated : ∃ e ∈ log[i]?, ¬ law (log.take i) e) :
    ¬ EachEvent law log := by
  obtain ⟨e, found, fails⟩ := violated
  obtain ⟨inside, rfl⟩ := List.getElem?_eq_some_iff.mp found
  intro each
  exact fails (each (log.take i) log[i] (log.drop (i + 1)) (by simp))

theorem eachEvent_append
    {law : List ε → ε → Prop}
    {log events : List ε} :
    EachEvent law (log ++ events) ↔ EachEvent law log ∧ Along law log events := by
  constructor
  · intro each
    constructor
    · intro before e after split
      exact each before e (after ++ events) (by simp [split])
    · intro before e after split
      exact each (log ++ before) e after (by simp [split])
  · rintro ⟨earlier, later⟩ before e after split
    rcases List.append_eq_append_iff.mp split with
      ⟨between, rfl, rest⟩ | ⟨between, rfl, rest⟩
    · exact later between e after rest
    · cases between with
      | nil =>
          have first := later [] e after (by simpa using rest.symm)
          simpa using first
      | cons first others =>
          simp only [List.cons_append, List.cons.injEq] at rest
          obtain ⟨rfl, _⟩ := rest
          exact earlier before e others rfl

theorem along_nil (law : List ε → ε → Prop) (log : List ε) : Along law log [] :=
  eachEvent_nil _

theorem along_append
    {law : List ε → ε → Prop}
    {log first second : List ε} :
    Along law log (first ++ second) ↔
      Along law log first ∧ Along law (log ++ first) second := by
  unfold Along
  rw [eachEvent_append]
  unfold Along
  simp only [List.append_assoc]

theorem along_singleton
    {law : List ε → ε → Prop}
    {log : List ε}
    {e : ε} :
    Along law log [e] ↔ law log e := by
  constructor
  · intro each
    simpa using each [] e [] rfl
  · intro satisfied before other after split
    cases before with
    | nil =>
        simp only [List.nil_append, List.cons.injEq] at split
        obtain ⟨rfl, _⟩ := split
        simpa using satisfied
    | cons first others => simp at split

theorem along_cons
    {law : List ε → ε → Prop}
    {log events : List ε}
    {e : ε} :
    Along law log (e :: events) ↔ law log e ∧ Along law (log ++ [e]) events := by
  rw [← List.singleton_append, along_append, along_singleton]

/-- Events that satisfy the law wherever they are appended. -/
theorem along_of_forall
    {law : List ε → ε → Prop}
    {log events : List ε}
    (satisfied : ∀ before, ∀ e ∈ events, law before e) :
    Along law log events := by
  intro before e after split
  exact satisfied _ e (by simp [split])

/-! ## The latest event that an observation selects -/

/-- What the latest selected event shows. -/
def latest (select : ε → Option α) (log : List ε) : Option α :=
  (log.filterMap select).getLast?

@[simp] theorem latest_nil (select : ε → Option α) : latest select [] = none := rfl

theorem latest_append
    (select : ε → Option α)
    (log events : List ε) :
    latest select (log ++ events) =
      (latest select events).or (latest select log) := by
  unfold latest
  rw [List.filterMap_append, List.getLast?_append]

theorem latest_snoc
    (select : ε → Option α)
    (log : List ε)
    (e : ε) :
    latest select (log ++ [e]) = (select e).or (latest select log) := by
  rw [latest_append]
  cases shown : select e <;> simp [latest, shown]

/-- The latest selected event is in the log. -/
theorem exists_of_latest
    {select : ε → Option α}
    {log : List ε}
    {shown : α}
    (found : latest select log = some shown) :
    ∃ e ∈ log, select e = some shown := by
  have member := List.mem_of_getLast? found
  exact List.mem_filterMap.mp member

/-- Events that are not selected leave the latest one alone. -/
theorem latest_append_of_none
    {select : ε → Option α}
    {events : List ε}
    (log : List ε)
    (none_selected : ∀ e ∈ events, select e = none) :
    latest select (log ++ events) = latest select log := by
  have nothing : latest select events = none := by
    unfold latest
    rw [List.filterMap_eq_nil_iff.mpr none_selected]
    rfl
  rw [latest_append, nothing]
  rfl

end EventLog
end Library
