import Mathlib.Algebra.Group.Nat.Defs
import Mathlib.Data.List.Forall2
import Mathlib.Data.List.Range

/-!
# Structures in memory

Members of a structure lie one after another, each at the next multiple of its
alignment, and numbers have their lowest byte first.  What lies between the members
is not written.
-/

namespace Library
namespace StructLayout

/-- The size and the alignment of a member, in bytes. -/
structure Member where
  size : ℕ
  align : ℕ
  deriving DecidableEq

/-- A number, which is aligned to its width. -/
def Member.scalar (width : ℕ) : Member := ⟨width, width⟩

/-- An array of structures. -/
def Member.array (count : ℕ) (element : Member) : Member :=
  ⟨count * element.size, element.align⟩

/-- The next multiple of an alignment. -/
def alignUp (offset align : ℕ) : ℕ := (offset + align - 1) / align * align

/-- The offsets of members from an offset on. -/
def offsetsFrom : ℕ → List Member → List ℕ
  | _, [] => []
  | start, member :: rest =>
      alignUp start member.align ::
        offsetsFrom (alignUp start member.align + member.size) rest

/-- The offset behind members. -/
def endFrom : ℕ → List Member → ℕ
  | start, [] => start
  | start, member :: rest => endFrom (alignUp start member.align + member.size) rest

/-- A structure of members as a member. -/
def structOf (members : List Member) : Member where
  size := alignUp (endFrom 0 members) ((members.map Member.align).foldr max 1)
  align := (members.map Member.align).foldr max 1

/-! ## Bytes -/

/-- A byte for every address. -/
abbrev Memory := ℕ → UInt8

/-- Write bytes at an address. -/
def store (memory : Memory) (address : ℕ) (bytes : List UInt8) : Memory :=
  fun a => if address ≤ a then bytes[a - address]?.getD (memory a) else memory a

/-- Read bytes at an address. -/
def load (memory : Memory) (address size : ℕ) : List UInt8 :=
  (List.range size).map fun index => memory (address + index)

/-- A number in bytes, the lowest one first. -/
def leBytes : ℕ → ℕ → List UInt8
  | 0, _ => []
  | width + 1, n => UInt8.ofNat n :: leBytes width (n / 256)

/-- The number in bytes. -/
def leValue (bytes : List UInt8) : ℕ :=
  bytes.foldr (fun byte higher => byte.toNat + 256 * higher) 0

@[simp] theorem length_leBytes (width n : ℕ) : (leBytes width n).length = width := by
  induction width generalizing n with
  | zero => rfl
  | succ width inductionHypothesis =>
      rw [leBytes, List.length_cons, inductionHypothesis]

theorem leValue_leBytes (width n : ℕ) : leValue (leBytes width n) = n % 256 ^ width := by
  induction width generalizing n with
  | zero => rw [Nat.pow_zero, Nat.mod_one]; rfl
  | succ width inductionHypothesis =>
      have rest := inductionHypothesis (n / 256)
      have parts : n % 256 ^ (width + 1) = n % 256 + 256 * (n / 256 % 256 ^ width) := by
        rw [Nat.pow_succ', Nat.mod_mul]
      unfold leValue at rest ⊢
      rw [leBytes, List.foldr_cons, rest, UInt8.toNat_ofNat', parts]

theorem store_of_lt
    (memory : Memory)
    (bytes : List UInt8)
    {address a : ℕ}
    (below : a < address) :
    store memory address bytes a = memory a :=
  if_neg (Nat.not_le.mpr below)

theorem store_of_ge
    (memory : Memory)
    {bytes : List UInt8}
    {address a : ℕ}
    (behind : address + bytes.length ≤ a) :
    store memory address bytes a = memory a := by
  unfold store
  rw [if_pos (by omega), List.getElem?_eq_none (by omega), Option.getD_none]

theorem load_store_self (memory : Memory) (address : ℕ) (bytes : List UInt8) :
    load (store memory address bytes) address bytes.length = bytes := by
  unfold load
  apply List.ext_getElem
  · rw [List.length_map, List.length_range]
  · intro index inRange inBytes
    rw [List.getElem_map, List.getElem_range, store,
      if_pos (Nat.le_add_right address index), Nat.add_sub_cancel_left,
      List.getElem?_eq_getElem inBytes, Option.getD_some]

/-- Bytes written twice. -/
theorem store_store_self
    (memory : Memory)
    (address : ℕ)
    {first second : List UInt8}
    (same : first.length = second.length) :
    store (store memory address first) address second = store memory address second := by
  funext a
  unfold store
  by_cases inside : address ≤ a
  · simp only [if_pos inside]
    cases written : second[a - address]? with
    | some byte => rfl
    | none =>
        have behind : first[a - address]? = none :=
          List.getElem?_eq_none (same ▸ List.getElem?_eq_none_iff.mp written)
        rw [behind]
        rfl
  · simp only [if_neg inside]

/-- Bytes written in two places. -/
theorem store_store_comm
    (memory : Memory)
    {address other : ℕ}
    {bytes others : List UInt8}
    (before : address + bytes.length ≤ other) :
    store (store memory other others) address bytes =
      store (store memory address bytes) other others := by
  funext a
  by_cases here : a < address + bytes.length
  · rw [store_of_lt _ others (by omega)]
    unfold store
    rw [if_neg (show ¬other ≤ a by omega)]
  · rw [store_of_ge _ (by omega)]
    unfold store
    rw [List.getElem?_eq_none (show bytes.length ≤ a - address by omega), Option.getD_none,
      ite_self]

/-- One of the bytes that are read. -/
theorem getElem?_load
    (memory : Memory)
    (address : ℕ)
    {size index : ℕ}
    (inside : index < size) :
    (load memory address size)[index]? = some (memory (address + index)) := by
  unfold load
  rw [List.getElem?_map, List.getElem?_range inside]
  rfl

/-- Bytes that two memories have in common. -/
theorem load_congr
    {memory other : Memory}
    {address size : ℕ}
    (same : ∀ a, address ≤ a → a < address + size → memory a = other a) :
    load memory address size = load other address size := by
  apply List.map_congr_left
  intro index member
  have below := List.mem_range.mp member
  exact same _ (Nat.le_add_right _ _) (by omega)

/-! ## Structures -/

/-- Write the members of a structure from an offset on. -/
def storeFrom (memory : Memory) : ℕ → List Member → List (List UInt8) → Memory
  | start, member :: members, bytes :: values =>
      storeFrom (store memory (alignUp start member.align) bytes)
        (alignUp start member.align + member.size) members values
  | _, _, _ => memory

/-- Read the members of a structure from an offset on. -/
def loadFrom (memory : Memory) : ℕ → List Member → List (List UInt8)
  | _, [] => []
  | start, member :: members =>
      load memory (alignUp start member.align) member.size ::
        loadFrom memory (alignUp start member.align + member.size) members

/-- Values with the sizes of the members. -/
def Fits (members : List Member) (values : List (List UInt8)) : Prop :=
  List.Forall₂ (fun member bytes => bytes.length = member.size) members values

theorem le_alignUp
    {align : ℕ}
    (positive : 0 < align)
    (offset : ℕ) :
    offset ≤ alignUp offset align := by
  have parts := Nat.div_add_mod' (offset + align - 1) align
  have small := Nat.mod_lt (offset + align - 1) positive
  unfold alignUp
  omega

/-- Writing the members leaves what lies before them. -/
theorem storeFrom_of_lt
    {members : List Member}
    (aligned : ∀ member ∈ members, 0 < member.align)
    (values : List (List UInt8))
    {memory : Memory}
    {start a : ℕ}
    (below : a < start) :
    storeFrom memory start members values a = memory a := by
  fun_induction storeFrom memory start members values with
  | case1 memory start member members bytes values inductionHypothesis =>
      have first := le_alignUp (aligned member List.mem_cons_self) start
      rw [inductionHypothesis (fun other later =>
        aligned other (List.mem_cons_of_mem member later)) (by omega),
        store_of_lt memory bytes (by omega)]
  | case2 => rfl

/-- The members are read as they were written, whatever lies between them. -/
theorem loadFrom_storeFrom
    {members : List Member}
    (aligned : ∀ member ∈ members, 0 < member.align)
    {values : List (List UInt8)}
    (fits : Fits members values)
    (memory : Memory)
    (start : ℕ) :
    loadFrom (storeFrom memory start members values) start members = values := by
  induction fits generalizing memory start with
  | nil => rfl
  | @cons member bytes members values size rest inductionHypothesis =>
      have later : ∀ other ∈ members, 0 < other.align := fun other listed =>
        aligned other (List.mem_cons_of_mem member listed)
      rw [storeFrom, loadFrom, inductionHypothesis later]
      congr 1
      have kept : load (storeFrom (store memory (alignUp start member.align) bytes)
          (alignUp start member.align + member.size) members values)
            (alignUp start member.align) member.size =
          load (store memory (alignUp start member.align) bytes)
            (alignUp start member.align) member.size :=
        load_congr fun a _ below => storeFrom_of_lt later values below
      rw [kept, ← size, load_store_self]

theorem loadFrom_eq_offsets (memory : Memory) (start : ℕ) (members : List Member) :
    loadFrom memory start members =
      List.zipWith (load memory) (offsetsFrom start members)
        (members.map Member.size) := by
  induction members generalizing start with
  | nil => rfl
  | cons member members inductionHypothesis =>
      rw [loadFrom, inductionHypothesis, offsetsFrom, List.map_cons, List.zipWith_cons_cons]

end StructLayout
end Library
