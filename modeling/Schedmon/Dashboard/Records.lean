import Mathlib.Algebra.Order.Field.Rat
import Mathlib.Data.List.MinMax
import Schedmon.Library.PiecewiseCopy

/-!
# Records as the dashboard reads them

`drain_ring_buffer` copies 88 bytes out of a slot, decodes three fields from
them, and keeps one record for each pid.
-/

namespace Schedmon

/-- `SLOT`. -/
def dashSlot : Nat := 88

/-- `CAP`. -/
def dashCap : Nat := 32768

/-- The bytes of one slot. -/
abbrev Chunk := Fin dashSlot → UInt8

namespace Chunk

/-- A buffer of zeros. -/
def zero : Chunk := fun _ => 0

/-- Copy one byte. -/
def copyByte (piece : Nat) (source destination : Chunk) : Chunk :=
  fun offset => if offset.val = piece then source offset else destination offset

theorem foldl_copyByte
    (source destination : Chunk)
    (copied : Nat) :
    (List.range copied).foldl
        (fun partly piece => copyByte piece source partly) destination =
      fun offset => if offset.val < copied then source offset else destination offset := by
  induction copied with
  | zero => simp
  | succ copied inductionHypothesis =>
      rw [List.range_succ, List.foldl_append, inductionHypothesis]
      funext offset
      simp only [List.foldl_cons, List.foldl_nil, copyByte]
      split_ifs <;> first | rfl | omega

/-- A slot is copied byte by byte. -/
instance : Library.PiecewiseCopy Chunk where
  pieces := dashSlot
  copyPiece := copyByte
  copy_all := by
    intro source destination
    rw [foldl_copyByte]
    funext offset
    rw [if_pos offset.isLt]

/-- The byte at an offset. -/
def byteAt (chunk : Chunk) (offset : Nat) : Nat :=
  if inside : offset < dashSlot then (chunk ⟨offset, inside⟩).toNat else 0

/-- `int.from_bytes(chunk[start:start + length], 'little')`. -/
def fromBytes (chunk : Chunk) (start length : Nat) : Nat :=
  (List.range length).foldr
    (fun index higher => chunk.byteAt (start + index) + 256 * higher) 0

/-- `int.from_bytes(chunk[0:4], 'little', signed=True)`. -/
def pid (chunk : Chunk) : Int :=
  (chunk.fromBytes 0 4 : Int).bmod (2 ^ 32)

/-- `int.from_bytes(chunk[16:24], 'little')`, which is also the field
`timestamp_ns` of the copied structure. -/
def timestampNs (chunk : Chunk) : Nat :=
  chunk.fromBytes 16 8

end Chunk

/-- The number that the 64 bits of a `double` stand for; none for infinities
and NaNs. -/
def unpackDouble (bits : Nat) : Option ℚ :=
  let fraction : Nat := bits % 2 ^ 52
  let exponent : Nat := bits / 2 ^ 52 % 2 ^ 11
  let sign : ℚ := if bits / 2 ^ 63 % 2 = 1 then -1 else 1
  if exponent = 2 ^ 11 - 1 then none
  else if exponent = 0 then some (sign * fraction / 2 ^ 1074)
  else some (sign * (2 ^ 52 + fraction) * 2 ^ exponent / 2 ^ 1075)

/-- `struct.unpack_from('d', chunk, 24)`. -/
def Chunk.ipc (chunk : Chunk) : Option ℚ :=
  unpackDouble (chunk.fromBytes 24 8)

/-- `0.0 <= ipc <= 20.0`, false for NaN and both infinities. -/
def ipcInRange (ipc : Option ℚ) : Bool :=
  match ipc with
  | some ipc => 0 ≤ ipc && ipc ≤ 20
  | none => false

/-- The dictionary under construction. -/
abbrev DrainResult := Int → Option Chunk

/-- What the loop body does with the record it has copied. -/
def keepNewest (result : DrainResult) (chunk : Chunk) : DrainResult :=
  if 0 < chunk.pid ∧ chunk.pid < 4194304 ∧ chunk.timestampNs > 0 then
    if ipcInRange chunk.ipc then
      match result chunk.pid with
      | none => Function.update result chunk.pid (some chunk)
      | some kept =>
          if chunk.timestampNs > kept.timestampNs then
            Function.update result chunk.pid (some chunk)
          else result
    else result
  else result

/-- The record passes the filters. -/
def Chunk.acceptable (chunk : Chunk) : Bool :=
  0 < chunk.pid && chunk.pid < 4194304 && chunk.timestampNs > 0 && ipcInRange chunk.ipc

/-- The acceptable records of one process. -/
def recordsOf (pid : Int) (chunks : List Chunk) : List Chunk :=
  chunks.filter fun chunk => chunk.acceptable && chunk.pid = pid

/-- The loop body touches the entry of an acceptable record's process alone,
and replaces it where the record is newer. -/
theorem keepNewest_apply
    (result : DrainResult)
    (chunk : Chunk)
    (pid : Int) :
    keepNewest result chunk pid =
      if chunk.acceptable && chunk.pid = pid then
        match result pid with
        | none => some chunk
        | some kept =>
            if kept.timestampNs < chunk.timestampNs then some chunk else some kept
      else result pid := by
  have filters : chunk.acceptable = true ↔
      (0 < chunk.pid ∧ chunk.pid < 4194304 ∧ chunk.timestampNs > 0) ∧
        ipcInRange chunk.ipc = true := by
    unfold Chunk.acceptable
    simp only [Bool.and_eq_true, decide_eq_true_eq]
    exact ⟨fun ⟨⟨⟨low, high⟩, stamped⟩, ipc⟩ => ⟨⟨low, high, stamped⟩, ipc⟩,
      fun ⟨⟨low, high, stamped⟩, ipc⟩ => ⟨⟨⟨low, high⟩, stamped⟩, ipc⟩⟩
  unfold keepNewest
  by_cases accepted : chunk.acceptable = true
  · obtain ⟨inRange, ipc⟩ := filters.mp accepted
    rw [if_pos inRange, if_pos ipc]
    by_cases own : chunk.pid = pid
    · subst own
      simp only [accepted, decide_true, Bool.and_self, if_true]
      cases known : result chunk.pid with
      | none => simp
      | some kept =>
          by_cases newer : kept.timestampNs < chunk.timestampNs
          · simp [newer]
          · simp [newer, known]
    · have other : pid ≠ chunk.pid := fun same => own same.symm
      simp only [own, decide_false, Bool.and_false, Bool.false_eq_true, if_false]
      cases result chunk.pid with
      | none => exact Function.update_of_ne other _ _
      | some kept =>
          by_cases newer : chunk.timestampNs > kept.timestampNs
          · simp only [if_pos newer]
            exact Function.update_of_ne other _ _
          · simp only [if_neg newer]
  · have refused : ¬ (chunk.acceptable && chunk.pid = pid) = true := by
      simp [accepted]
    rw [if_neg refused]
    split
    · next inRange =>
        rw [if_neg fun ipc => accepted (filters.mpr ⟨inRange, ipc⟩)]
    · rfl

/-- Going through the records leaves, for each process, the first of its
acceptable records with the greatest timestamp. -/
theorem foldl_keepNewest (chunks : List Chunk) (pid : Int) :
    chunks.foldl keepNewest (fun _ => none) pid =
      (recordsOf pid chunks).argmax Chunk.timestampNs := by
  induction chunks using List.reverseRecOn with
  | nil => rfl
  | append_singleton chunks chunk inductionHypothesis =>
      rw [List.foldl_append, List.foldl_cons, List.foldl_nil, keepNewest_apply,
        inductionHypothesis]
      unfold recordsOf
      rw [List.filter_append]
      split
      · next own =>
          have single : [chunk].filter
              (fun chunk => chunk.acceptable && chunk.pid = pid) = [chunk] := by
            simpa using own
          rw [single, List.argmax_concat]
          cases (chunks.filter fun chunk => chunk.acceptable && chunk.pid = pid).argmax
            Chunk.timestampNs <;> rfl
      · next other =>
          have none : [chunk].filter
              (fun chunk => chunk.acceptable && chunk.pid = pid) = [] := by
            simpa using other
          rw [none, List.append_nil]

end Schedmon
