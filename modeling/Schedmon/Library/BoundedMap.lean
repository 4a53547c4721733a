import Mathlib.Data.Finset.Card

/-!
# Hash maps of bounded size

A map that holds at most a given number of keys refuses another one once it is
full.  A map without a bound never does.
-/

namespace Library

/-- How an update treats a key that is present. -/
inductive UpdateFlag
  /-- Overwrite it. -/
  | any
  /-- Leave it alone. -/
  | noExist
  deriving DecidableEq

/-- A map with at most `capacity` keys, where that is given. -/
structure BoundedMap (capacity : Option Nat) (κ : Type u) (ν : Type v)
    [DecidableEq κ] where
  keys : Finset κ
  lookup : κ → Option ν
  mem_keys : ∀ k, k ∈ keys ↔ (lookup k).isSome
  card_le : ∀ bound, capacity = some bound → keys.card ≤ bound
  /-- The keys that were refused for lack of room, latest first. -/
  refused : List κ

namespace BoundedMap

variable {capacity : Option Nat} {κ : Type u} {ν : Type v} [DecidableEq κ]

/-- The map without keys. -/
def empty : BoundedMap capacity κ ν where
  keys := ∅
  lookup := fun _ => none
  mem_keys := by simp
  card_le := by simp
  refused := []

/-- A key that is present or that there is room for. -/
def Fits (m : BoundedMap capacity κ ν) (k : κ) : Prop :=
  k ∈ m.keys ∨ ∀ bound ∈ capacity, m.keys.card < bound

instance (m : BoundedMap capacity κ ν) (k : κ) : Decidable (m.Fits k) :=
  match capacity with
  | none => isTrue (.inr (by simp))
  | some bound =>
      decidable_of_iff (k ∈ m.keys ∨ m.keys.card < bound) (by simp [Fits])

/-- Store a value under a key that fits. -/
def put (m : BoundedMap capacity κ ν) (k : κ) (v : ν) (fits : m.Fits k) :
    BoundedMap capacity κ ν where
  keys := insert k m.keys
  lookup := Function.update m.lookup k (some v)
  mem_keys := by
    intro other
    by_cases same : other = k
    · simp [same]
    · simp [same, m.mem_keys]
  card_le := by
    intro bound bounded
    rcases fits with present | room
    · rw [Finset.insert_eq_of_mem present]
      exact m.card_le bound bounded
    · exact (Finset.card_insert_le k m.keys).trans (room bound bounded)
  refused := m.refused

/-- The map after an update, which may be refused. -/
def update (m : BoundedMap capacity κ ν) (k : κ) (v : ν) (flag : UpdateFlag) :
    BoundedMap capacity κ ν :=
  if flag = .noExist ∧ k ∈ m.keys then m
  else if fits : m.Fits k then m.put k v fits
  else { m with refused := k :: m.refused }

/-- The map without a key. -/
def delete (m : BoundedMap capacity κ ν) (k : κ) : BoundedMap capacity κ ν where
  keys := m.keys.erase k
  lookup := Function.update m.lookup k none
  mem_keys := by
    intro other
    by_cases same : other = k
    · simp [same]
    · simp [same, m.mem_keys]
  card_le := by
    intro bound bounded
    exact (Finset.card_erase_le).trans (m.card_le bound bounded)
  refused := m.refused

@[simp] theorem lookup_empty (k : κ) :
    (empty : BoundedMap capacity κ ν).lookup k = none := rfl

@[simp] theorem keys_empty :
    (empty : BoundedMap capacity κ ν).keys = ∅ := rfl

@[simp] theorem refused_empty :
    (empty : BoundedMap capacity κ ν).refused = [] := rfl

theorem not_mem_keys {m : BoundedMap capacity κ ν} {k : κ} :
    k ∉ m.keys ↔ m.lookup k = none := by
  rw [m.mem_keys, Option.not_isSome_iff_eq_none]

@[simp] theorem lookup_put
    (m : BoundedMap capacity κ ν)
    {k : κ}
    (v : ν)
    (fits : m.Fits k)
    (other : κ) :
    (m.put k v fits).lookup other = if other = k then some v else m.lookup other :=
  Function.update_apply _ _ _ _

@[simp] theorem lookup_delete
    (m : BoundedMap capacity κ ν)
    (k other : κ) :
    (m.delete k).lookup other = if other = k then none else m.lookup other :=
  Function.update_apply _ _ _ _

/-- An update that fits stores its value. -/
theorem lookup_update_of_fits
    {m : BoundedMap capacity κ ν}
    {k : κ}
    (v : ν)
    (fits : m.Fits k)
    (other : κ) :
    (m.update k v .any).lookup other =
      if other = k then some v else m.lookup other := by
  unfold update
  rw [if_neg (by simp), dif_pos fits, lookup_put]

/-- An update of another key changes nothing here. -/
theorem lookup_update_of_ne
    (m : BoundedMap capacity κ ν)
    {k other : κ}
    (v : ν)
    (flag : UpdateFlag)
    (different : other ≠ k) :
    (m.update k v flag).lookup other = m.lookup other := by
  unfold update
  split
  · rfl
  · split
    · rw [lookup_put, if_neg different]
    · rfl

/-- What an updated map holds was there before or is the new value. -/
theorem of_lookup_update
    {m : BoundedMap capacity κ ν}
    {k other : κ}
    {v value : ν}
    {flag : UpdateFlag}
    (found : (m.update k v flag).lookup other = some value) :
    m.lookup other = some value ∨ value = v := by
  unfold update at found
  split at found
  · exact .inl found
  · split at found
    · rw [lookup_put] at found
      split at found
      · exact .inr (Option.some.inj found).symm
      · exact .inl found
    · exact .inl found

/-- A plain update leaves its own value or, where it is refused, none. -/
theorem eq_of_lookup_update_any
    {m : BoundedMap capacity κ ν}
    {k : κ}
    {v value : ν}
    (found : (m.update k v .any).lookup k = some value) :
    value = v := by
  by_cases fits : m.Fits k
  · rw [lookup_update_of_fits v fits, if_pos rfl] at found
    exact (Option.some.inj found).symm
  · have missing : m.lookup k = none :=
      not_mem_keys.mp fun present => fits (.inl present)
    unfold update at found
    rw [if_neg (by simp), dif_neg fits, missing] at found
    cases found

/-- While the keys stay inside a set no larger than the map, all of it fits. -/
theorem fits_of_subset
    {m : BoundedMap capacity κ ν}
    {inside : Finset κ}
    (within : m.keys ⊆ inside)
    (room : ∀ bound, capacity = some bound → inside.card ≤ bound)
    {k : κ}
    (member : k ∈ inside) :
    m.Fits k := by
  by_cases present : k ∈ m.keys
  · exact .inl present
  · refine .inr ?_
    intro bound bounded
    have strict : m.keys ⊂ inside :=
      (Finset.ssubset_iff_of_subset within).mpr ⟨k, member, present⟩
    exact (Finset.card_lt_card strict).trans_le (room bound bounded)

theorem mem_keys_update_of_fits
    {m : BoundedMap capacity κ ν}
    {k : κ}
    (v : ν)
    (fits : m.Fits k) :
    k ∈ (m.update k v .any).keys := by
  rw [mem_keys, lookup_update_of_fits v fits, if_pos rfl, Option.isSome_some]

/-! ## Maps of counters -/

/-- Add to the counter under a key, or start it. -/
def addTo [Add ν] (m : BoundedMap capacity κ ν) (k : κ) (amount : ν) :
    BoundedMap capacity κ ν :=
  match m.lookup k with
  | some value => m.update k (value + amount) .any
  | none => m.update k amount .any

theorem mem_keys_addTo_of_fits
    [Add ν]
    {m : BoundedMap capacity κ ν}
    {k : κ}
    (amount : ν)
    (fits : m.Fits k) :
    k ∈ (m.addTo k amount).keys := by
  unfold addTo
  split
  · exact mem_keys_update_of_fits _ fits
  · exact mem_keys_update_of_fits _ fits

/-! ## Maps without a bound -/

section Unlimited

variable (m : BoundedMap none κ ν) (k other : κ)

theorem fits_of_unlimited : m.Fits k :=
  .inr (by simp)

@[simp] theorem lookup_update_any (v : ν) :
    (m.update k v .any).lookup other =
      if other = k then some v else m.lookup other :=
  lookup_update_of_fits v (m.fits_of_unlimited k) other

@[simp] theorem lookup_update_noExist (v : ν) :
    (m.update k v .noExist).lookup other =
      if other = k then some ((m.lookup k).getD v) else m.lookup other := by
  unfold update
  split
  · next present =>
      obtain ⟨value, found⟩ := Option.isSome_iff_exists.mp
        ((m.mem_keys k).mp present.2)
      split
      · next same => rw [same, found, Option.getD_some]
      · rfl
  · next absent =>
      have missing : m.lookup k = none :=
        not_mem_keys.mp fun present => absent ⟨rfl, present⟩
      rw [dif_pos (m.fits_of_unlimited k), lookup_put, missing, Option.getD_none]

@[simp] theorem lookup_addTo [Add ν] (amount : ν) :
    (m.addTo k amount).lookup other =
      if other = k then some ((m.lookup k).elim amount (· + amount))
      else m.lookup other := by
  unfold addTo
  split
  · next value found => rw [lookup_update_any, found, Option.elim_some]
  · next missing => rw [lookup_update_any, missing, Option.elim_none]

end Unlimited

/-! ## Sequences of updates and deletions -/

/-- A map is changed by updates of allowed keys and by deletions. -/
inductive Changes (allowed : κ → Prop) :
    BoundedMap capacity κ ν → BoundedMap capacity κ ν → Prop
  | refl (m : BoundedMap capacity κ ν) : Changes allowed m m
  | update {m after : BoundedMap capacity κ ν} (k : κ) (v : ν) (flag : UpdateFlag)
      (earlier : Changes allowed m after) (permitted : allowed k) :
      Changes allowed m (after.update k v flag)
  | delete {m after : BoundedMap capacity κ ν} (k : κ)
      (earlier : Changes allowed m after) :
      Changes allowed m (after.delete k)

namespace Changes

variable {allowed : κ → Prop} {m after : BoundedMap capacity κ ν}

theorem addTo
    [Add ν]
    (earlier : Changes allowed m after)
    {k : κ}
    (permitted : allowed k)
    (amount : ν) :
    Changes allowed m (after.addTo k amount) := by
  unfold BoundedMap.addTo
  split
  · exact earlier.update k _ .any permitted
  · exact earlier.update k _ .any permitted

/-- The keys stay inside a set that contains them and the allowed ones. -/
theorem keys_subset
    (changes : Changes allowed m after)
    {inside : Finset κ}
    (start : m.keys ⊆ inside)
    (permitted : ∀ k, allowed k → k ∈ inside) :
    after.keys ⊆ inside := by
  induction changes with
  | refl => exact start
  | @update current k v flag _ allow inductionHypothesis =>
      unfold BoundedMap.update
      split
      · exact inductionHypothesis
      · split
        · exact Finset.insert_subset (permitted k allow) inductionHypothesis
        · exact inductionHypothesis
  | delete k _ inductionHypothesis =>
      exact (Finset.erase_subset _ _).trans inductionHypothesis

/-- While the keys stay inside a set no larger than the map, none is refused. -/
theorem refused_eq_nil
    (changes : Changes allowed m after)
    {inside : Finset κ}
    (start : m.keys ⊆ inside)
    (permitted : ∀ k, allowed k → k ∈ inside)
    (room : ∀ bound, capacity = some bound → inside.card ≤ bound)
    (clean : m.refused = []) :
    after.refused = [] := by
  induction changes with
  | refl => exact clean
  | @update current k v flag earlier allow inductionHypothesis =>
      have fits : current.Fits k :=
        fits_of_subset (earlier.keys_subset start permitted) room (permitted k allow)
      unfold BoundedMap.update
      split
      · exact inductionHypothesis
      · exact inductionHypothesis
  | delete k _ inductionHypothesis => exact inductionHypothesis

end Changes

end BoundedMap
end Library
