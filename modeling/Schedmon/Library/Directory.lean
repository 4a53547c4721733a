import Mathlib.Logic.Function.Basic
import Schedmon.Library.Transition

/-!
# Names of objects

Clients open objects under names, where an object that does not exist is created,
and remove names.  The objects stay what they are when their names are gone; the next
client to open the name gets a new one.
-/

namespace Library

/-- A client got an object under a name, or removed the name. -/
inductive NameEvent (κ : Type)
  | opened (name : κ) (object : ℕ)
  | unlinked (name : κ)

/-- The names, the number of objects so far, and what the clients did. -/
structure Directory (δ κ : Type) where
  names : κ → Option ℕ
  count : ℕ
  log : List (δ × NameEvent κ)

namespace Directory

variable {δ κ : Type}

/-- No names and no objects. -/
def empty : Directory δ κ where
  names := fun _ => none
  count := 0
  log := []

variable [DecidableEq κ]

/-- Remove a name. -/
def unlink (dir : Directory δ κ) (client : δ) (name : κ) : Directory δ κ where
  names := Function.update dir.names name none
  count := dir.count
  log := dir.log ++ [(client, .unlinked name)]

/-- Open the object of a name, or create one. -/
def openOrCreate (dir : Directory δ κ) (client : δ) (name : κ) : ℕ × Directory δ κ :=
  match dir.names name with
  | some object =>
      (object, { dir with log := dir.log ++ [(client, .opened name object)] })
  | none =>
      (dir.count,
        { names := Function.update dir.names name (some dir.count)
          count := dir.count + 1
          log := dir.log ++ [(client, .opened name dir.count)] })

omit [DecidableEq κ] in
/-- What holds of the names after any sequence of operations. -/
structure Consistent (dir : Directory δ κ) : Prop where
  /-- An object has its name until somebody removes the name. -/
  visible : ∀ before client name object after,
    dir.log = before ++ (client, .opened name object) :: after →
      (dir.names name = some object ↔ ∀ e ∈ after, e.2 ≠ .unlinked name)
  bounded : ∀ client name object, (client, .opened name object) ∈ dir.log →
    object < dir.count
  named : ∀ name object, dir.names name = some object →
    ∃ client, (client, .opened name object) ∈ dir.log
  /-- No object has two names. -/
  injective : ∀ client name object other otherName,
    (client, .opened name object) ∈ dir.log →
      (other, .opened otherName object) ∈ dir.log → name = otherName

variable {dir : Directory δ κ}

omit [DecidableEq κ] in
theorem consistent_empty : (empty : Directory δ κ).Consistent where
  visible := by
    intro before client name object after split
    simp [empty] at split
  bounded := fun _ _ _ member => absurd member List.not_mem_nil
  named := by
    intro name object found
    cases found
  injective := fun _ _ _ _ _ member => absurd member List.not_mem_nil

omit [DecidableEq κ] in
/-- Only its removal touches a name. -/
theorem forall_ne_unlinked_snoc
    {events : List (δ × NameEvent κ)}
    {last : δ × NameEvent κ}
    {name : κ}
    (other : last.2 ≠ .unlinked name) :
    (∀ e ∈ events ++ [last], e.2 ≠ .unlinked name) ↔
      ∀ e ∈ events, e.2 ≠ .unlinked name := by
  rw [List.forall_mem_append]
  exact and_iff_left (List.forall_mem_singleton.mpr other)

theorem Consistent.unlink
    (holds : dir.Consistent)
    (client : δ)
    (name : κ) :
    (dir.unlink client name).Consistent where
  visible := by
    intro before other otherName object after split
    rcases Transition.split_snoc split with ⟨-, -, equal⟩ | ⟨earlier, rfl, old⟩
    · cases equal
    · have before := holds.visible _ _ _ _ _ old
      unfold Directory.unlink
      by_cases same : otherName = name
      · subst same
        simp
      · have different : (NameEvent.unlinked name : NameEvent κ) ≠ .unlinked otherName := by
          intro equal
          cases equal
          exact same rfl
        dsimp only
        rw [Function.update_of_ne same, before, forall_ne_unlinked_snoc different]
  bounded := by
    intro other otherName object member
    rcases List.mem_append.mp member with old | new
    · exact holds.bounded _ _ _ old
    · cases List.mem_singleton.mp new
  named := by
    intro otherName object found
    unfold Directory.unlink at found
    dsimp only at found
    by_cases same : otherName = name
    · rw [same, Function.update_self] at found
      cases found
    · rw [Function.update_of_ne same] at found
      obtain ⟨opener, member⟩ := holds.named _ _ found
      exact ⟨opener, List.mem_append_left _ member⟩
  injective := by
    intro first firstName object second secondName left right
    rcases List.mem_append.mp left with old | new
    · rcases List.mem_append.mp right with older | newer
      · exact holds.injective _ _ _ _ _ old older
      · cases List.mem_singleton.mp newer
    · cases List.mem_singleton.mp new

/-- The object that a client gets has the name, and is a new one where there was
none. -/
theorem openOrCreate_spec
    (holds : dir.Consistent)
    (client : δ)
    (name : κ) :
    (dir.openOrCreate client name).2.names name =
        some (dir.openOrCreate client name).1 ∧
      (∀ other ≠ name, (dir.openOrCreate client name).2.names other = dir.names other) ∧
      (dir.openOrCreate client name).2.log =
        dir.log ++ [(client, .opened name (dir.openOrCreate client name).1)] ∧
      (dir.names name = none → ∀ other otherName,
        (other, .opened otherName (dir.openOrCreate client name).1) ∉ dir.log) := by
  unfold openOrCreate
  split
  · next object found =>
      exact ⟨found, fun _ _ => rfl, rfl, fun none => absurd (found.symm.trans none) (by simp)⟩
  · next missing =>
      refine ⟨Function.update_self _ _ _, fun other different =>
        Function.update_of_ne different _ _, rfl, ?_⟩
      intro _ other otherName member
      exact absurd (holds.bounded _ _ _ member) (Nat.lt_irrefl _)

theorem Consistent.openOrCreate
    (holds : dir.Consistent)
    (client : δ)
    (name : κ) :
    (dir.openOrCreate client name).2.Consistent := by
  obtain ⟨here, elsewhere, log, fresh⟩ := openOrCreate_spec holds client name
  have more : (dir.openOrCreate client name).1 < (dir.openOrCreate client name).2.count ∧
      dir.count ≤ (dir.openOrCreate client name).2.count := by
    unfold Directory.openOrCreate
    split
    · next object found =>
        obtain ⟨opener, member⟩ := holds.named _ _ found
        exact ⟨holds.bounded _ _ _ member, Nat.le_refl _⟩
    · exact ⟨Nat.lt_succ_self _, Nat.le_succ _⟩
  have found : dir.names name = none ∨
      dir.names name = some (dir.openOrCreate client name).1 := by
    unfold Directory.openOrCreate
    split
    · next object found => exact .inr found
    · next missing => exact .inl missing
  generalize dir.openOrCreate client name = result at *
  obtain ⟨opened, next⟩ := result
  dsimp only at *
  refine ⟨?_, ?_, ?_, ?_⟩
  · intro before other otherName object after split
    rw [log] at split
    rcases Transition.split_snoc split with ⟨rfl, -, equal⟩ | ⟨earlier, rfl, old⟩
    · cases equal
      exact ⟨fun _ => List.forall_mem_nil _, fun _ => here⟩
    · have different : (NameEvent.opened name opened : NameEvent κ) ≠
          .unlinked otherName := nofun
      rw [forall_ne_unlinked_snoc different, ← holds.visible _ _ _ _ _ old]
      by_cases same : otherName = name
      · subst same
        rw [here]
        rcases found with missing | known
        · -- the name was gone, and stays gone for the object it had
          rw [missing]
          refine ⟨fun equal => ?_, nofun⟩
          cases equal
          exact absurd (old ▸ List.mem_append_right _ List.mem_cons_self)
            (fresh missing other otherName)
        · rw [known]
      · rw [elsewhere _ same]
  · intro other otherName object member
    rw [log] at member
    rcases List.mem_append.mp member with old | new
    · exact Nat.lt_of_lt_of_le (holds.bounded _ _ _ old) more.2
    · cases List.mem_singleton.mp new
      exact more.1
  · intro otherName object isNamed
    rw [log]
    by_cases same : otherName = name
    · subst same
      rw [here] at isNamed
      cases isNamed
      exact ⟨client, List.mem_append_right _ List.mem_cons_self⟩
    · rw [elsewhere _ same] at isNamed
      obtain ⟨opener, member⟩ := holds.named _ _ isNamed
      exact ⟨opener, List.mem_append_left _ member⟩
  · -- a name that was there is the only one of its object, and a new object had none
    have only (other : δ) (otherName : κ) (member : (other, .opened otherName opened) ∈ dir.log) :
        otherName = name := by
      rcases found with missing | known
      · exact absurd member (fresh missing other otherName)
      · obtain ⟨opener, first⟩ := holds.named _ _ known
        exact holds.injective _ _ _ _ _ member first
    intro first firstName object second secondName left right
    rw [log] at left right
    rcases List.mem_append.mp left with old | new
    · rcases List.mem_append.mp right with older | newer
      · exact holds.injective _ _ _ _ _ old older
      · cases List.mem_singleton.mp newer
        exact only _ _ old
    · cases List.mem_singleton.mp new
      rcases List.mem_append.mp right with older | newer
      · exact (only _ _ older).symm
      · cases List.mem_singleton.mp newer
        rfl

end Directory
end Library
