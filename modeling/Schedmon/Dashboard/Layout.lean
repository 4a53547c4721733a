import Schedmon.Dashboard.Records
import Schedmon.Library.StructLayout
import Schedmon.RingBuffer

/-!
# The bytes of a segment

How the C compiler lays out `SmoothedMetrics` and `RingBuffer`, and what the
dashboard reads from these bytes at the offsets it counts itself.
-/

namespace Schedmon

open Library StructLayout

/-! ## The C side -/

/-- `SmoothedMetrics` as machine words, a `double` as its 64 bits. -/
structure RecordBits where
  pid : Int32
  cpuId : Int32
  hwPmuAvailable : Int32
  timestampNs : UInt64
  smoothedIpc : UInt64
  smoothedLlcMiss : UInt64
  smoothedCtxFreq : UInt64
  smoothedIoFreq : UInt64
  smoothedIoWaitMs : UInt64
  smoothedRqWaitMs : UInt64
  smoothedMigrationFreq : UInt64
  smoothedIoSyscallFreq : UInt64

/-- The members of `SmoothedMetrics`. -/
def smoothedMetricsMembers : List Member :=
  let int := Member.scalar 4
  let uint64 := Member.scalar 8
  let double := Member.scalar 8
  [int, int, int, uint64, double, double, double, double, double, double, double, double]

namespace RecordBits

/-- The bytes of the members. -/
def values (r : RecordBits) : List (List UInt8) :=
  [leBytes 4 r.pid.toUInt32.toNat, leBytes 4 r.cpuId.toUInt32.toNat,
    leBytes 4 r.hwPmuAvailable.toUInt32.toNat, leBytes 8 r.timestampNs.toNat,
    leBytes 8 r.smoothedIpc.toNat, leBytes 8 r.smoothedLlcMiss.toNat,
    leBytes 8 r.smoothedCtxFreq.toNat, leBytes 8 r.smoothedIoFreq.toNat,
    leBytes 8 r.smoothedIoWaitMs.toNat, leBytes 8 r.smoothedRqWaitMs.toNat,
    leBytes 8 r.smoothedMigrationFreq.toNat, leBytes 8 r.smoothedIoSyscallFreq.toNat]

/-- The record in memory, over what was there. -/
def memory (r : RecordBits) (padding : Memory) : Memory :=
  storeFrom padding 0 smoothedMetricsMembers r.values

end RecordBits

/-- The members of `RingBuffer`. -/
def ringBufferMembers : List Member :=
  [.array 32768 (structOf smoothedMetricsMembers), .scalar 4, .scalar 4, .scalar 4,
    .scalar 4]

/-- A `RingBuffer` as machine words. -/
structure RingBits where
  slots : ℕ → RecordBits
  head : Int32
  tail : Int32
  abiVersion : UInt32
  slotSize : UInt32

namespace RingBits

/-- The bytes of the slots, one after another. -/
def slotBytes (ring : RingBits) (padding : Memory) : List UInt8 :=
  (List.range (32768 * 88)).map fun a =>
    (ring.slots (a / 88)).memory (fun offset => padding (a / 88 * 88 + offset)) (a % 88)

/-- The bytes of the members. -/
def values (ring : RingBits) (padding : Memory) : List (List UInt8) :=
  [ring.slotBytes padding, leBytes 4 ring.head.toUInt32.toNat,
    leBytes 4 ring.tail.toUInt32.toNat, leBytes 4 ring.abiVersion.toNat,
    leBytes 4 ring.slotSize.toNat]

/-- The segment, with anything between the members. -/
def memory (ring : RingBits) (padding : Memory) : Memory :=
  storeFrom padding 0 ringBufferMembers (ring.values padding)

end RingBits

/-! ## The dashboard's side -/

/-- `_fields_` of the structure in `dashboard.py`. -/
def ctypesFields : List Member :=
  let cInt := Member.scalar 4
  let cUint64 := Member.scalar 8
  let cDouble := Member.scalar 8
  [cInt, cInt, cInt, cUint64, cDouble, cDouble, cDouble, cDouble, cDouble, cDouble,
    cDouble, cDouble]

/-- A field of the copied structure, as the number that its bytes are. -/
def Chunk.field (chunk : Chunk) (k : ℕ) : ℕ :=
  chunk.fromBytes ((offsetsFrom 0 ctypesFields).getD k 0)
    ((ctypesFields.map Member.size).getD k 0)

/-- `SmoothedMetrics.from_buffer_copy(chunk)`. -/
def fromBufferCopy (chunk : Chunk) : RecordBits where
  pid := (UInt32.ofNat (chunk.field 0)).toInt32
  cpuId := (UInt32.ofNat (chunk.field 1)).toInt32
  hwPmuAvailable := (UInt32.ofNat (chunk.field 2)).toInt32
  timestampNs := UInt64.ofNat (chunk.field 3)
  smoothedIpc := UInt64.ofNat (chunk.field 4)
  smoothedLlcMiss := UInt64.ofNat (chunk.field 5)
  smoothedCtxFreq := UInt64.ofNat (chunk.field 6)
  smoothedIoFreq := UInt64.ofNat (chunk.field 7)
  smoothedIoWaitMs := UInt64.ofNat (chunk.field 8)
  smoothedRqWaitMs := UInt64.ofNat (chunk.field 9)
  smoothedMigrationFreq := UInt64.ofNat (chunk.field 10)
  smoothedIoSyscallFreq := UInt64.ofNat (chunk.field 11)

/-- `_SLOTS_SZ`. -/
def slotsSz : ℕ := dashSlot * dashCap

/-- `_ABI_OFF`. -/
def abiOff : ℕ := slotsSz + 8

/-- `_SLOT_SIZE_OFF`. -/
def slotSizeOff : ℕ := slotsSz + 12

/-- `int.from_bytes(mm[start:start + length], 'little')`. -/
def mmInt (mm : Memory) (start length : ℕ) : ℕ := leValue (load mm start length)

/-- `bytes(mm[offset:offset+SLOT])` of a slot. -/
def mmChunk (mm : Memory) (idx : ℕ) : Chunk := fun offset => mm (idx * dashSlot + offset.val)

/-- The verdict of `check_shm_abi` on a segment that is not too small. -/
def checkShmAbi (mm : Memory) : Bool :=
  mmInt mm abiOff 4 = monitorAbiVersion && mmInt mm slotSizeOff 4 = dashSlot

/-! ## The offsets -/

theorem structOf_smoothedMetricsMembers :
    structOf smoothedMetricsMembers = ⟨88, 8⟩ := by
  decide

theorem smoothedMetrics_offsets :
    offsetsFrom 0 smoothedMetricsMembers =
      [0, 4, 8, 16, 24, 32, 40, 48, 56, 64, 72, 80] := by
  decide

theorem ringBuffer_offsets :
    offsetsFrom 0 ringBufferMembers = [0, slotsSz, slotsSz + 4, abiOff, slotSizeOff] := by
  decide

theorem RecordBits.fits (r : RecordBits) : Fits smoothedMetricsMembers r.values := by
  simp [Fits, smoothedMetricsMembers, Member.scalar, RecordBits.values]

theorem RingBits.fits (ring : RingBits) (padding : Memory) :
    Fits ringBufferMembers (ring.values padding) := by
  simp [Fits, ringBufferMembers, Member.scalar, Member.array, RingBits.values,
    structOf_smoothedMetricsMembers, RingBits.slotBytes]

/-! ## Reading a record -/

/-- The members of a record are read back. -/
theorem RecordBits.load_memory (r : RecordBits) (padding : Memory) :
    List.zipWith (load (r.memory padding)) [0, 4, 8, 16, 24, 32, 40, 48, 56, 64, 72, 80]
        [4, 4, 4, 8, 8, 8, 8, 8, 8, 8, 8, 8] = r.values := by
  have aligned : ∀ member ∈ smoothedMetricsMembers, 0 < member.align := by
    simp [smoothedMetricsMembers, Member.scalar]
  have read := loadFrom_storeFrom aligned r.fits padding 0
  rw [loadFrom_eq_offsets, smoothedMetrics_offsets] at read
  exact read

/-- A chunk of memory decodes bytes as memory does. -/
theorem fromBytes_eq_leValue
    (mm : Memory)
    {start length : ℕ}
    (inside : start + length ≤ dashSlot) :
    Chunk.fromBytes (fun offset => mm offset.val) start length =
      leValue (load mm start length) := by
  unfold Chunk.fromBytes leValue load
  rw [List.foldr_map]
  apply List.foldr_ext
  intro index member higher
  have below := List.mem_range.mp member
  have here : start + index < dashSlot := by omega
  unfold Chunk.byteAt
  rw [dif_pos here]

/-- The bytes of a record as the dashboard copies them. -/
def RecordBits.chunk (r : RecordBits) (padding : Memory) : Chunk :=
  fun offset => r.memory padding offset.val

/-- The fields lie within the record. -/
theorem field_inside :
    ∀ k < 12, (offsetsFrom 0 ctypesFields).getD k 0 +
      (ctypesFields.map Member.size).getD k 0 ≤ dashSlot := by
  decide

theorem word_lt (n : Int32) : n.toUInt32.toNat < 256 ^ 4 := n.toUInt32.toNat_lt

theorem long_lt (n : UInt64) : n.toNat < 256 ^ 8 := n.toNat_lt

/-- A field has the number that was written for the member at its place. -/
theorem RecordBits.field_chunk
    (r : RecordBits)
    (padding : Memory)
    {k width n : ℕ}
    (value : r.values[k]? = some (leBytes width n))
    (small : n < 256 ^ width) :
    (r.chunk padding).field k = n := by
  have below : k < 12 := (List.getElem?_eq_some_iff.mp value).1
  have read : List.zipWith (load (r.memory padding)) (offsetsFrom 0 ctypesFields)
      (ctypesFields.map Member.size) = r.values := r.load_memory padding
  have inOffsets : k < (offsetsFrom 0 ctypesFields).length := below
  have inSizes : k < (ctypesFields.map Member.size).length := below
  have bytes : load (r.memory padding) ((offsetsFrom 0 ctypesFields).getD k 0)
      ((ctypesFields.map Member.size).getD k 0) = leBytes width n := by
    rw [← read, List.getElem?_zipWith, List.getElem?_eq_getElem inOffsets,
      List.getElem?_eq_getElem inSizes] at value
    rw [List.getD_eq_getElem?_getD, List.getD_eq_getElem?_getD,
      List.getElem?_eq_getElem inOffsets, List.getElem?_eq_getElem inSizes]
    exact Option.some.inj value
  unfold Chunk.field
  rw [show r.chunk padding = fun offset => r.memory padding offset.val from rfl,
    fromBytes_eq_leValue _ (field_inside k below), bytes, leValue_leBytes,
    Nat.mod_eq_of_lt small]

/-- The fields that the dashboard also reads from the bytes. -/
theorem Chunk.field_eq_fromBytes
    {k start length : ℕ}
    (offset : (offsetsFrom 0 ctypesFields).getD k 0 = start)
    (size : (ctypesFields.map Member.size).getD k 0 = length)
    (chunk : Chunk) :
    chunk.field k = chunk.fromBytes start length := by
  rw [field, offset, size]

theorem toInt32_ofNat_toNat (n : Int32) :
    (UInt32.ofNat n.toUInt32.toNat).toInt32 = n :=
  congrArg UInt32.toInt32 UInt32.ofNat_toNat

/-- `from_buffer_copy` gives the record back, whatever lies between the members. -/
theorem RecordBits.fromBufferCopy_chunk (r : RecordBits) (padding : Memory) :
    fromBufferCopy (r.chunk padding) = r := by
  unfold fromBufferCopy
  have word {k : ℕ} {n : Int32} (value : r.values[k]? = some (leBytes 4 n.toUInt32.toNat)) :
      (r.chunk padding).field k = n.toUInt32.toNat := r.field_chunk padding value (word_lt n)
  have long {k : ℕ} {n : UInt64} (value : r.values[k]? = some (leBytes 8 n.toNat)) :
      (r.chunk padding).field k = n.toNat := r.field_chunk padding value (long_lt n)
  rw [word (k := 0) rfl, word (k := 1) rfl, word (k := 2) rfl, long (k := 3) rfl,
    long (k := 4) rfl, long (k := 5) rfl, long (k := 6) rfl, long (k := 7) rfl,
    long (k := 8) rfl, long (k := 9) rfl, long (k := 10) rfl, long (k := 11) rfl]
  simp only [UInt64.ofNat_toNat, toInt32_ofNat_toNat]

/-! ## Reading a segment -/

/-- The members of a segment are read back. -/
theorem RingBits.load_memory (ring : RingBits) (padding : Memory) :
    List.zipWith (load (ring.memory padding))
        [0, slotsSz, slotsSz + 4, abiOff, slotSizeOff] [32768 * 88, 4, 4, 4, 4] =
      ring.values padding := by
  have aligned : ∀ member ∈ ringBufferMembers, 0 < member.align := by
    simp [ringBufferMembers, Member.scalar, Member.array, structOf_smoothedMetricsMembers]
  have read := loadFrom_storeFrom aligned (ring.fits padding) padding 0
  rw [loadFrom_eq_offsets, ringBuffer_offsets] at read
  exact read

/-- A slot is where the dashboard looks for it. -/
theorem RingBits.mmChunk_memory
    (ring : RingBits)
    (padding : Memory)
    {idx : ℕ}
    (below : idx < dashCap) :
    mmChunk (ring.memory padding) idx =
      (ring.slots idx).chunk fun offset => padding (idx * 88 + offset) := by
  have slots : load (ring.memory padding) 0 (32768 * 88) = ring.slotBytes padding :=
    (List.cons.inj (ring.load_memory padding)).1
  funext offset
  have small : offset.val < 88 := offset.isLt
  have capacity : idx < 32768 := below
  have inside : idx * 88 + offset.val < 32768 * 88 := by omega
  have byte := getElem?_load (ring.memory padding) 0 inside
  have index : (idx * 88 + offset.val) / 88 = idx := by omega
  have place : (idx * 88 + offset.val) % 88 = offset.val := by omega
  rw [slots, Nat.zero_add] at byte
  unfold RingBits.slotBytes at byte
  rw [List.getElem?_map, List.getElem?_range inside, Option.map_some, index, place] at byte
  exact (Option.some.inj byte).symm

/-- The memory of a segment, one write after another. -/
theorem RingBits.memory_eq (ring : RingBits) (padding : Memory) :
    ring.memory padding =
      store (store (store (store (store padding 0 (ring.slotBytes padding))
        slotsSz (leBytes 4 ring.head.toUInt32.toNat))
        (slotsSz + 4) (leBytes 4 ring.tail.toUInt32.toNat))
        abiOff (leBytes 4 ring.abiVersion.toNat))
        slotSizeOff (leBytes 4 ring.slotSize.toNat) := rfl

/-- A word of the header is the number that was written. -/
theorem mmInt_word
    {mm : Memory}
    {offset n : ℕ}
    (small : n < 256 ^ 4)
    (bytes : load mm offset 4 = leBytes 4 n) :
    mmInt mm offset 4 = n := by
  rw [mmInt, bytes, leValue_leBytes, Nat.mod_eq_of_lt small]

theorem toInt_eq_bmod (n : Int32) : n.toInt = (n.toUInt32.toNat : Int).bmod (2 ^ 32) :=
  BitVec.toInt_eq_toNat_bmod n.toBitVec

theorem toNat_toUInt32_of_nonneg
    {n : Int32}
    (nonnegative : 0 ≤ n.toInt) :
    (n.toUInt32.toNat : Int) = n.toInt := by
  have signed := toInt_eq_bmod n
  have below := n.toUInt32.toNat_lt
  rw [signed] at nonnegative ⊢
  rw [Int.bmod_def] at nonnegative ⊢
  split
  · omega
  · next large =>
      rw [if_neg large] at nonnegative
      omega

/-- The pid read from the bytes is the signed one. -/
theorem RecordBits.pid_chunk (r : RecordBits) (padding : Memory) :
    (r.chunk padding).pid = r.pid.toInt := by
  have place : (r.chunk padding).field 0 = (r.chunk padding).fromBytes 0 4 :=
    Chunk.field_eq_fromBytes (by decide) (by decide) _
  have written : (r.chunk padding).fromBytes 0 4 = r.pid.toUInt32.toNat :=
    place.symm.trans (r.field_chunk padding (k := 0) rfl (word_lt _))
  unfold Chunk.pid
  rw [written, toInt_eq_bmod]

theorem RecordBits.timestampNs_chunk (r : RecordBits) (padding : Memory) :
    (r.chunk padding).timestampNs = r.timestampNs.toNat := by
  have place : (r.chunk padding).field 3 = (r.chunk padding).fromBytes 16 8 :=
    Chunk.field_eq_fromBytes (by decide) (by decide) _
  exact place.symm.trans (r.field_chunk padding (k := 3) rfl (long_lt _))

theorem RecordBits.ipc_chunk (r : RecordBits) (padding : Memory) :
    (r.chunk padding).ipc = unpackDouble r.smoothedIpc.toNat := by
  have place : (r.chunk padding).field 4 = (r.chunk padding).fromBytes 24 8 :=
    Chunk.field_eq_fromBytes (by decide) (by decide) _
  have ipc := r.field_chunk padding (k := 4) rfl (long_lt _)
  rw [Chunk.ipc, ← place, ipc]

/-- The tail that the dashboard stores is the tail of the segment. -/
theorem RingBits.store_tail
    (ring : RingBits)
    (padding : Memory)
    {newTail : ℕ}
    (small : newTail < 2 ^ 32) :
    store (ring.memory padding) (slotsSz + 4) (leBytes 4 newTail) =
      { ring with tail := (UInt32.ofNat newTail).toInt32 }.memory padding := by
  have word : (UInt32.ofNat newTail).toInt32.toUInt32.toNat = newTail := by
    rw [UInt32.toUInt32_toInt32, UInt32.toNat_ofNat', Nat.mod_eq_of_lt small]
  have apart (other : ℕ) (behind : slotsSz + 8 ≤ other) :
      slotsSz + 4 + (leBytes 4 newTail).length ≤ other := by
    rw [length_leBytes]
    exact behind
  rw [memory_eq, memory_eq, word, store_store_comm _ (apart slotSizeOff (by decide)),
    store_store_comm _ (apart abiOff (by decide)),
    store_store_self _ _ (by rw [length_leBytes, length_leBytes])]
  rfl

/-- The segment as the ring buffer of its records. -/
def RingBits.ring (bits : RingBits) : RingBuffer RecordBits where
  slots := fun index => bits.slots index.toNat
  head := bits.head.toInt
  tail := bits.tail.toInt
  abiVersion := bits.abiVersion.toNat
  slotSize := bits.slotSize.toNat

/-- Whatever the members of a segment hold and whatever lies between them, the
dashboard reads every slot as the record that it is, in its own fields as in those of
the copied structure, reads `head` and `tail` where they are, comes to the verdict of
`rb_check_abi`, and stores a tail as the tail. -/
theorem segment_read (bits : RingBits) (padding : Memory) :
    (∀ idx < dashCap,
      fromBufferCopy (mmChunk (bits.memory padding) idx) = bits.ring.slots idx ∧
      (mmChunk (bits.memory padding) idx).pid = (bits.ring.slots idx).pid.toInt ∧
      (mmChunk (bits.memory padding) idx).timestampNs =
        (bits.ring.slots idx).timestampNs.toNat ∧
      (mmChunk (bits.memory padding) idx).ipc =
        unpackDouble (bits.ring.slots idx).smoothedIpc.toNat) ∧
    (0 ≤ bits.ring.head → (mmInt (bits.memory padding) slotsSz 4 : Int) = bits.ring.head) ∧
    (0 ≤ bits.ring.tail →
      (mmInt (bits.memory padding) (slotsSz + 4) 4 : Int) = bits.ring.tail) ∧
    checkShmAbi (bits.memory padding) = rbCheckAbi bits.ring ∧
    ∀ newTail < dashCap,
      store (bits.memory padding) (slotsSz + 4) (leBytes 4 newTail) =
        { bits with tail := (UInt32.ofNat newTail).toInt32 }.memory padding := by
  have loaded := bits.load_memory padding
  simp only [List.zipWith_cons_cons, RingBits.values, List.cons.injEq] at loaded
  obtain ⟨-, head, tail, abi, slotSize, -⟩ := loaded
  refine ⟨?_, ?_, ?_, ?_, ?_⟩
  · intro idx below
    rw [bits.mmChunk_memory padding below]
    generalize (fun offset => padding (idx * 88 + offset)) = gap
    have record : bits.ring.slots idx = bits.slots idx := rfl
    rw [record]
    generalize bits.slots idx = r
    refine ⟨r.fromBufferCopy_chunk gap, ?_, ?_, ?_⟩
    · exact r.pid_chunk gap
    · exact r.timestampNs_chunk gap
    · exact r.ipc_chunk gap
  · intro nonnegative
    rw [mmInt_word bits.head.toUInt32.toNat_lt head]
    exact toNat_toUInt32_of_nonneg nonnegative
  · intro nonnegative
    rw [mmInt_word bits.tail.toUInt32.toNat_lt tail]
    exact toNat_toUInt32_of_nonneg nonnegative
  · unfold checkShmAbi
    rw [mmInt_word bits.abiVersion.toNat_lt abi, mmInt_word bits.slotSize.toNat_lt slotSize]
    rfl
  · intro newTail below
    exact bits.store_tail padding (below.trans (by decide))

end Schedmon
