import Mathlib.Algebra.BigOperators.Group.Finset.Basic
import Mathlib.Data.Finset.Card
import Mathlib.Data.Multiset.Bind
import Mathlib.Data.Multiset.Pairwise

/-!
# Handles that are acquired and released

A trace of acquisitions and releases, and the set of handles held after it.
The environment hands out only handles that are not held; the program releases
only handles that are.
-/

namespace Library

/-- A handle is handed out, or given back. -/
inductive HandleOp (α : Type)
  | acquire (handle : α)
  | release (handle : α)
  deriving DecidableEq

namespace Handles

variable {α : Type}

/-- How many handles a trace acquires. -/
def acquireCount (ops : List (HandleOp α)) : Nat :=
  ops.countP fun
    | .acquire _ => true
    | .release _ => false

@[simp] theorem acquireCount_append (ops later : List (HandleOp α)) :
    acquireCount (ops ++ later) = acquireCount ops + acquireCount later :=
  List.countP_append

@[simp] theorem acquireCount_acquires (handles : List α) :
    acquireCount (handles.map .acquire) = handles.length := by
  unfold acquireCount
  rw [List.countP_map]
  exact List.countP_eq_length.mpr fun _ _ => rfl

@[simp] theorem acquireCount_releases (handles : List α) :
    acquireCount (handles.map .release) = 0 := by
  unfold acquireCount
  rw [List.countP_map]
  exact List.countP_eq_zero.mpr fun _ _ => Bool.false_ne_true

variable [DecidableEq α]

/-- The handles held after an operation. -/
def step (held : Finset α) : HandleOp α → Finset α
  | .acquire handle => insert handle held
  | .release handle => held.erase handle

/-- The handles held after a trace. -/
def heldAfter (held : Finset α) (ops : List (HandleOp α)) : Finset α :=
  ops.foldl step held

/-- No handle is handed out while it is held. -/
def AcquiresFresh (held : Finset α) : List (HandleOp α) → Prop
  | [] => True
  | .acquire handle :: rest => handle ∉ held ∧ AcquiresFresh (insert handle held) rest
  | .release handle :: rest => AcquiresFresh (held.erase handle) rest

/-- No handle is given back while it is not held. -/
def ReleasesHeld (held : Finset α) : List (HandleOp α) → Prop
  | [] => True
  | .acquire handle :: rest => ReleasesHeld (insert handle held) rest
  | .release handle :: rest => handle ∈ held ∧ ReleasesHeld (held.erase handle) rest

instance AcquiresFresh.decidable (held : Finset α) (ops : List (HandleOp α)) :
    Decidable (AcquiresFresh held ops) :=
  match ops with
  | [] => .isTrue trivial
  | .acquire handle :: rest =>
      have := decidable (insert handle held) rest
      inferInstanceAs (Decidable (_ ∧ _))
  | .release handle :: rest => decidable (held.erase handle) rest

section Append

variable (held : Finset α) (ops later : List (HandleOp α))

@[simp] theorem heldAfter_append :
    heldAfter held (ops ++ later) = heldAfter (heldAfter held ops) later :=
  List.foldl_append

@[simp] theorem acquiresFresh_append :
    AcquiresFresh held (ops ++ later) ↔
      AcquiresFresh held ops ∧ AcquiresFresh (heldAfter held ops) later := by
  induction ops generalizing held with
  | nil => simp [AcquiresFresh, heldAfter]
  | cons op rest inductionHypothesis =>
      cases op with
      | acquire handle =>
          simp only [List.cons_append, AcquiresFresh, inductionHypothesis, and_assoc]
          rfl
      | release handle =>
          simp only [List.cons_append, AcquiresFresh, inductionHypothesis]
          rfl

@[simp] theorem releasesHeld_append :
    ReleasesHeld held (ops ++ later) ↔
      ReleasesHeld held ops ∧ ReleasesHeld (heldAfter held ops) later := by
  induction ops generalizing held with
  | nil => simp [ReleasesHeld, heldAfter]
  | cons op rest inductionHypothesis =>
      cases op with
      | acquire handle =>
          simp only [List.cons_append, ReleasesHeld, inductionHypothesis]
          rfl
      | release handle =>
          simp only [List.cons_append, ReleasesHeld, inductionHypothesis, and_assoc]
          rfl

end Append

/-! ## What an owner holds -/

/-- A trace that releases only held handles, and what is held after it. -/
structure Keeps (held : Finset α) (ops : List (HandleOp α)) (owned : Multiset α) :
    Prop where
  releases : ReleasesHeld held ops
  /-- Each handle is held once, by one owner. -/
  owns : (heldAfter held ops).val = owned

variable {held : Finset α} {ops later : List (HandleOp α)} {owned : Multiset α}

theorem Keeps.nil : Keeps ∅ ([] : List (HandleOp α)) 0 := ⟨trivial, rfl⟩

/-- Fresh handles come on top of what is owned. -/
theorem Keeps.acquire
    (keeps : Keeps held ops owned)
    (handles : List α)
    (fresh : AcquiresFresh (heldAfter held ops) (handles.map .acquire)) :
    Keeps held (ops ++ handles.map .acquire) (owned + handles) := by
  induction handles generalizing ops owned with
  | nil => simpa using keeps
  | cons handle rest inductionHypothesis =>
      obtain ⟨unheld, others⟩ := fresh
      have one : Keeps held (ops ++ [.acquire handle]) (handle ::ₘ owned) := by
        refine ⟨?_, ?_⟩
        · rw [releasesHeld_append]
          exact ⟨keeps.releases, trivial⟩
        · rw [heldAfter_append, ← keeps.owns]
          exact Finset.insert_val_of_notMem unheld
      have all := inductionHypothesis one (by rwa [heldAfter_append])
      rw [List.append_assoc] at all
      rw [← Multiset.cons_coe, ← Multiset.singleton_add, add_left_comm,
        Multiset.singleton_add, ← Multiset.cons_add]
      exact all

/-- What is owned can be released. -/
theorem Keeps.release
    (handles : List α)
    (keeps : Keeps held ops (owned + handles)) :
    Keeps held (ops ++ handles.map .release) owned := by
  induction handles generalizing ops owned with
  | nil => simpa using keeps
  | cons handle rest inductionHypothesis =>
      have split : owned + ((handle :: rest : List α) : Multiset α) =
          handle ::ₘ (owned + (rest : Multiset α)) := by
        rw [← Multiset.cons_coe, Multiset.add_cons]
      have one : Keeps held (ops ++ [.release handle]) (owned + (rest : Multiset α)) := by
        have owns := keeps.owns.trans split
        refine ⟨?_, ?_⟩
        · rw [releasesHeld_append]
          refine ⟨keeps.releases, ?_, trivial⟩
          rw [← Finset.mem_val, owns]
          exact Multiset.mem_cons_self handle _
        · rw [heldAfter_append]
          change ((heldAfter held ops).erase handle).val = _
          rw [Finset.erase_val, owns, Multiset.erase_cons_head]
      have all := inductionHypothesis one
      rwa [List.append_assoc] at all

/-- Nothing is owned twice. -/
theorem Keeps.nodup (keeps : Keeps held ops owned) : owned.Nodup :=
  keeps.owns ▸ (heldAfter held ops).nodup

theorem Keeps.mem_iff
    (keeps : Keeps held ops owned)
    (handle : α) :
    handle ∈ heldAfter held ops ↔ handle ∈ owned := by
  rw [← keeps.owns, Finset.mem_val]

/-! ## How many handles are held at once -/

/-- At no point of a trace are more handles held than a limit. -/
def HeldWithin (limit : Nat) (held : Finset α) (ops : List (HandleOp α)) : Prop :=
  ∀ earlier, earlier <+: ops → (heldAfter held earlier).card ≤ limit

theorem card_heldAfter_le (held : Finset α) (ops : List (HandleOp α)) :
    (heldAfter held ops).card ≤ held.card + acquireCount ops := by
  induction ops generalizing held with
  | nil => exact le_rfl
  | cons op rest inductionHypothesis =>
      cases op with
      | acquire handle =>
          have one := Finset.card_insert_le handle held
          have others := inductionHypothesis (insert handle held)
          have count : acquireCount (.acquire handle :: rest) = acquireCount rest + 1 :=
            List.countP_cons_of_pos rfl
          change (heldAfter (insert handle held) rest).card ≤ _
          omega
      | release handle =>
          have one := Finset.card_erase_le (s := held) (a := handle)
          have others := inductionHypothesis (held.erase handle)
          have count : acquireCount (.release handle :: rest) = acquireCount rest :=
            List.countP_cons_of_neg Bool.false_ne_true
          change (heldAfter (held.erase handle) rest).card ≤ _
          omega

namespace HeldWithin

variable {limit : Nat}

theorem nil (within : held.card ≤ limit) : HeldWithin limit held [] := by
  intro earlier before
  rw [List.prefix_nil.mp before]
  exact within

/-- What is held, and as much more as is acquired, has to fit. -/
theorem append
    (within : HeldWithin limit held ops)
    (fits : (heldAfter held ops).card + acquireCount later ≤ limit) :
    HeldWithin limit held (ops ++ later) := by
  intro earlier before
  rcases List.prefix_or_prefix_of_prefix before (List.prefix_append ops later) with
    inside | ⟨rest, rfl⟩
  · exact within earlier inside
  · have after := (List.prefix_append_right_inj ops).mp before
    have fewer : acquireCount rest ≤ acquireCount later := after.sublist.countP_le
    have grown := card_heldAfter_le (heldAfter held ops) rest
    rw [heldAfter_append]
    omega

end HeldWithin

/-- There are as many handles held as owned. -/
theorem Keeps.card_eq (keeps : Keeps held ops owned) :
    (heldAfter held ops).card = Multiset.card owned :=
  congrArg Multiset.card keeps.owns

end Handles

/-! ## Owners in a table -/

/-- The entry of a table is filled from its last one, which is dropped. -/
theorem sum_range_swapRemove
    {M : Type}
    [AddCommMonoid M]
    (entries : Nat → M)
    {count index : Nat}
    (below : index < count) :
    ∑ j ∈ Finset.range count, entries j =
      (∑ j ∈ Finset.range (count - 1),
        if j = index then entries (count - 1) else entries j) + entries index := by
  obtain ⟨rest, rfl⟩ : ∃ rest, count = rest + 1 := ⟨count - 1, by omega⟩
  rw [Nat.add_sub_cancel, Finset.sum_range_succ]
  by_cases last : index = rest
  · subst last
    congr 1
    apply Finset.sum_congr rfl
    intro j inside
    rw [if_neg (Finset.mem_range.mp inside).ne]
  · have inside : index ∈ Finset.range rest := Finset.mem_range.mpr (by omega)
    rw [← Finset.sum_erase_add _ _ inside, ← Finset.sum_erase_add _ _ inside,
      if_pos rfl, add_right_comm]
    congr 2
    apply Finset.sum_congr rfl
    intro j other
    rw [if_neg (Finset.ne_of_mem_erase other)]

/-- Where no element occurs twice among the entries, none occurs in two. -/
theorem nodup_sum_range
    {α : Type}
    {entries : Nat → Multiset α}
    {count : Nat}
    (nodup : (∑ j ∈ Finset.range count, entries j).Nodup) :
    (∀ j < count, (entries j).Nodup) ∧
      ∀ i j, i < count → j < count → i ≠ j → Disjoint (entries i) (entries j) := by
  have split := (Multiset.nodup_bind (s := (Finset.range count).val)
    (f := entries)).mp nodup
  refine ⟨fun j below => split.1 j (Multiset.mem_range.mpr below), ?_⟩
  intro i j iBelow jBelow different
  have _ : Std.Symm (Function.onFun Disjoint entries) := ⟨fun _ _ apart => apart.symm⟩
  exact Multiset.Pairwise.forall split.2 (Multiset.mem_range.mpr iBelow)
    (Multiset.mem_range.mpr jBelow) different

end Library
