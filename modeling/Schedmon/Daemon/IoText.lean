import Schedmon.Library.CString
import Schedmon.Daemon.State

/-!
# Reading `/proc/PID/io`

`read_proc_io_fd` on the text of the file.  The buffer is read through a pointer,
so an outcome says that no cell beyond its terminating zero was read, and the
line loop is given a number of rounds, so an outcome says that it ended.
-/

namespace Schedmon

open Library.Decimal Library.CString

/-- The counters the line loop collects. -/
structure IoCounters where
  rchar : UInt64
  wchar : UInt64
  readBytes : UInt64
  writeBytes : UInt64
  cancelled : UInt64
  deriving DecidableEq

def IoCounters.zero : IoCounters where
  rchar := 0
  wchar := 0
  readBytes := 0
  writeBytes := 0
  cancelled := 0

/-- One arm of the line's tests: `strncmp` with all of the key, and `strtoull`
behind it. -/
def keyedNumber
    (key : String)
    (p : List UInt8)
    (store : UInt64 → IoCounters)
    (otherwise : Option IoCounters) : Option IoCounters := do
  if ← hasKey (ascii key) p then
    let (number, _) ← strtoull (p.drop (ascii key).length)
    return store number
  else otherwise

/-- The tests of one line, which the pointer is at the start of. -/
def readIoLine (p : List UInt8) (counters : IoCounters) : Option IoCounters :=
  keyedNumber "rchar:" p (fun number => { counters with rchar := number }) <|
  keyedNumber "wchar:" p (fun number => { counters with wchar := number }) <|
  keyedNumber "read_bytes:" p
    (fun number => { counters with readBytes := number }) <|
  keyedNumber "write_bytes:" p
    (fun number => { counters with writeBytes := number }) <|
  keyedNumber "cancelled_write_bytes:" p
    (fun number => { counters with cancelled := number }) <|
  some counters

/-- The test under which the pointer advances within a line. -/
def inLine (c : UInt8) : Bool :=
  c ≠ 0 && c ≠ 10

/-- Advance to the next line. -/
def nextLine (p : List UInt8) : Option (List UInt8) := do
  let (_, p) ← spanWhile inLine p
  let c ← p.head?
  return if c = 10 then p.tail else p

/-- The line loop, for at most the given number of rounds. -/
def readIoLines : ℕ → List UInt8 → IoCounters → Option IoCounters
  | 0, _, _ => none
  | rounds + 1, p, counters => do
      let c ← p.head?
      if c = 0 then return counters
      else
        let counters ← readIoLine p counters
        let p ← nextLine p
        readIoLines rounds p counters

/-- `read_proc_io_fd`, given whether `lseek` succeeds and the file, if it can be
read.  The loop is given as many rounds as the buffer has cells. -/
def readProcIoFd
    (fd : Int)
    (lseek : Bool)
    (file : Option (List UInt8)) : Option ProcIoRead :=
  let failed : ProcIoRead := { result := procIoReadFail, syscallBytes := none }
  if fd < 0 then some failed
  else if !lseek then some failed
  else
    match file.map (List.take 511) with
    | none => some failed
    | some [] => some failed
    | some buf => do
        let counters ← readIoLines 512 (buf ++ [0]) IoCounters.zero
        let total := counters.readBytes + counters.writeBytes
        return {
          result :=
            if total ≥ counters.cancelled then total - counters.cancelled else 0
          syscallBytes := some (counters.rchar + counters.wchar) }

/-! ## The loop ends within the buffer -/

theorem keyedNumber_within
    {key : String}
    (nonzero : 0 ∉ ascii key)
    (text : List UInt8)
    (store : UInt64 → IoCounters)
    {otherwise : List UInt8 → Option IoCounters}
    (within : ∃ result, ∀ beyond, otherwise beyond = some result) :
    ∃ result, ∀ beyond, keyedNumber key (text ++ 0 :: beyond) store
      (otherwise beyond) = some result := by
  obtain ⟨found, fits, compares⟩ := hasKey_within nonzero text
  cases found with
  | false =>
    obtain ⟨result, reads⟩ := within
    exact ⟨result, fun beyond => by simp [keyedNumber, compares, reads]⟩
  | true =>
    obtain ⟨number, left, -, reads⟩ :=
      strtoull_within (text.drop (ascii key).length)
    refine ⟨store number, fun beyond => ?_⟩
    have behind : (text ++ 0 :: beyond).drop (ascii key).length =
        text.drop (ascii key).length ++ 0 :: beyond :=
      List.drop_append_of_le_length (fits rfl)
    simp [keyedNumber, compares, behind, reads]

theorem readIoLine_within
    (text : List UInt8)
    (counters : IoCounters) :
    ∃ result, ∀ beyond,
      readIoLine (text ++ 0 :: beyond) counters = some result := by
  unfold readIoLine
  apply keyedNumber_within (by decide)
  apply keyedNumber_within (by decide)
  apply keyedNumber_within (by decide)
  apply keyedNumber_within (by decide)
  apply keyedNumber_within (by decide)
  exact ⟨counters, fun beyond => rfl⟩

/-- The next line is nearer to the end of the string. -/
theorem nextLine_within
    {c : UInt8}
    (c_ne_zero : c ≠ 0)
    (text : List UInt8) :
    ∃ left, left.length ≤ text.length ∧ ∀ beyond,
      nextLine (c :: (text ++ 0 :: beyond)) = some (left ++ 0 :: beyond) := by
  obtain ⟨passed, reached, suffix, reads⟩ :=
    spanWhile_within inLine rfl text
  by_cases newline : c = 10
  · refine ⟨text, le_rfl, fun beyond => ?_⟩
    simp [nextLine, spanWhile, newline, inLine]
  · have passes : inLine c = true := by simp [inLine, c_ne_zero, newline]
    have skips (beyond : List UInt8) :
        spanWhile inLine (c :: (text ++ 0 :: beyond)) =
          some (c :: passed, reached ++ 0 :: beyond) := by
      rw [spanWhile, if_pos passes, reads beyond]
      rfl
    cases reached with
    | nil => exact ⟨[], Nat.zero_le _, fun beyond => by simp [nextLine, skips]⟩
    | cons d reached =>
      have shorter := suffix.length_le
      by_cases ends : d = 10
      · refine ⟨reached, (Nat.le_succ _).trans shorter, fun beyond => ?_⟩
        simp [nextLine, skips, ends]
      · refine ⟨d :: reached, shorter, fun beyond => ?_⟩
        simp [nextLine, skips, ends]

/-- The loop ends after at most one round for each byte of the string and one
more, whatever the bytes are. -/
theorem readIoLines_within
    (rounds : ℕ)
    (text : List UInt8)
    (enough : text.length < rounds)
    (counters : IoCounters) :
    ∃ result, ∀ beyond,
      readIoLines rounds (text ++ 0 :: beyond) counters = some result := by
  induction rounds generalizing text counters with
  | zero => exact absurd enough (Nat.not_lt_zero _)
  | succ rounds inductionHypothesis =>
    cases text with
    | nil => exact ⟨counters, fun beyond => by simp [readIoLines]⟩
    | cons c text =>
      by_cases terminated : c = 0
      · exact ⟨counters, fun beyond => by simp [readIoLines, terminated]⟩
      · obtain ⟨after, readsLine⟩ := readIoLine_within (c :: text) counters
        obtain ⟨left, shorter, advances⟩ := nextLine_within terminated text
        have enoughLeft : left.length < rounds :=
          shorter.trans_lt (Nat.lt_of_succ_lt_succ enough)
        obtain ⟨result, reads⟩ := inductionHypothesis left enoughLeft after
        refine ⟨result, fun beyond => ?_⟩
        have line := readsLine beyond
        rw [List.cons_append] at line
        simp [readIoLines, terminated, line, advances, reads]

/-! ## The text the kernel prints -/

/-- The counters of `/proc/PID/io`. -/
inductive IoKey where
  | rchar
  | wchar
  | syscr
  | syscw
  | readBytes
  | writeBytes
  | cancelledWriteBytes
  deriving DecidableEq

namespace IoKey

/-- All of them, in the order the kernel prints them in. -/
def all : List IoKey :=
  [rchar, wchar, syscr, syscw, readBytes, writeBytes, cancelledWriteBytes]

/-- The name at the start of the line, up to the number. -/
def label : IoKey → String
  | rchar => "rchar: "
  | wchar => "wchar: "
  | syscr => "syscr: "
  | syscw => "syscw: "
  | readBytes => "read_bytes: "
  | writeBytes => "write_bytes: "
  | cancelledWriteBytes => "cancelled_write_bytes: "

/-- The line of one counter. -/
def line (values : IoKey → UInt64) (key : IoKey) : List UInt8 :=
  ascii key.label ++ (decimal (values key).toNat ++ [10])

theorem mem_all (key : IoKey) : key ∈ all := by
  cases key <;> decide

end IoKey

/-- The text of the file, its lines in the given order. -/
def ioText (values : IoKey → UInt64) (order : List IoKey) : List UInt8 :=
  order.flatMap (IoKey.line values)

namespace IoCounters

/-- What a line stores. -/
def store (values : IoKey → UInt64) (t : IoCounters) : IoKey → IoCounters
  | .rchar => { t with rchar := values .rchar }
  | .wchar => { t with wchar := values .wchar }
  | .syscr => t
  | .syscw => t
  | .readBytes => { t with readBytes := values .readBytes }
  | .writeBytes => { t with writeBytes := values .writeBytes }
  | .cancelledWriteBytes =>
      { t with cancelled := values .cancelledWriteBytes }

/-- A counter whose line occurs is the printed one, wherever the line stands. -/
theorem foldl_store
    (values : IoKey → UInt64)
    (order : List IoKey)
    (t : IoCounters) :
    order.foldl (store values) t =
      { rchar := if .rchar ∈ order then values .rchar else t.rchar
        wchar := if .wchar ∈ order then values .wchar else t.wchar
        readBytes :=
          if .readBytes ∈ order then values .readBytes else t.readBytes
        writeBytes :=
          if .writeBytes ∈ order then values .writeBytes else t.writeBytes
        cancelled :=
          if .cancelledWriteBytes ∈ order then values .cancelledWriteBytes
          else t.cancelled } := by
  induction order generalizing t with
  | nil => rfl
  | cons key order inductionHypothesis =>
    rw [List.foldl_cons, inductionHypothesis]
    cases key <;> simp [store]

end IoCounters

theorem inLine_of_isdigit
    {c : UInt8}
    (isDigit : isdigit c = true) :
    inLine c = true := by
  simp only [isdigit, Bool.and_eq_true, decide_eq_true_eq,
    UInt8.le_iff_toNat_le, UInt8.reduceToNat] at isDigit
  simp only [inLine, Bool.and_eq_true, decide_eq_true_eq, ne_eq,
    ← UInt8.toNat_inj, UInt8.reduceToNat]
  omega

/-- A line under another key is left to the other arms. -/
theorem keyedNumber_other
    {key : String}
    {label : List UInt8}
    (differs : hasKey (ascii key) label = some false)
    (cells : List UInt8)
    (store : UInt64 → IoCounters)
    (otherwise : Option IoCounters) :
    keyedNumber key (label ++ cells) store otherwise = otherwise := by
  have compares := hasKey_append differs cells
  simp [keyedNumber, compares]

/-- The number behind the key, one blank between them, is stored. -/
theorem keyedNumber_found
    {key : String}
    {label : List UInt8}
    (label_eq : label = ascii key ++ [32])
    (number : UInt64)
    (cells : List UInt8)
    (store : UInt64 → IoCounters)
    (otherwise : Option IoCounters) :
    keyedNumber key (label ++ (decimal number.toNat ++ 10 :: cells)) store
      otherwise = some (store number) := by
  have text : label ++ (decimal number.toNat ++ 10 :: cells) =
      ascii key ++ ([32] ++ (decimal number.toNat ++ 10 :: cells)) := by
    rw [label_eq, List.append_assoc]
  have compares := hasKey_append (hasKey_self (ascii key))
    ([32] ++ (decimal number.toNat ++ 10 :: cells))
  have reads := strtoull_decimal [32] (List.forall_mem_singleton.mpr rfl) number
    (c := 10) (by decide) cells
  rw [text]
  simp only [keyedNumber, compares, Option.pure_def, Option.bind_eq_bind,
    Option.bind_some, if_true, List.drop_left, reads]

section Line

variable (values : IoKey → UInt64) (key : IoKey) (cells : List UInt8)

theorem line_append :
    key.line values ++ cells =
      ascii key.label ++ (decimal (values key).toNat ++ 10 :: cells) := by
  rw [IoKey.line, List.append_assoc, List.append_assoc]
  rfl

/-- One line stores its number under its key. -/
theorem readIoLine_line (t : IoCounters) :
    readIoLine (key.line values ++ cells) t = some (t.store values key) := by
  rw [line_append]
  unfold readIoLine
  cases key with
  | rchar => exact keyedNumber_found (by decide) _ _ _ _
  | wchar =>
    rw [keyedNumber_other (by decide)]
    exact keyedNumber_found (by decide) _ _ _ _
  | syscr =>
    iterate 5 rw [keyedNumber_other (by decide)]
    rfl
  | syscw =>
    iterate 5 rw [keyedNumber_other (by decide)]
    rfl
  | readBytes =>
    iterate 2 rw [keyedNumber_other (by decide)]
    exact keyedNumber_found (by decide) _ _ _ _
  | writeBytes =>
    iterate 3 rw [keyedNumber_other (by decide)]
    exact keyedNumber_found (by decide) _ _ _ _
  | cancelledWriteBytes =>
    iterate 4 rw [keyedNumber_other (by decide)]
    exact keyedNumber_found (by decide) _ _ _ _

theorem nextLine_line : nextLine (key.line values ++ cells) = some cells := by
  have label_inLine : (ascii key.label).all inLine = true := by
    cases key <;> decide
  have passes : ∀ c ∈ ascii key.label ++ decimal (values key).toNat,
      inLine c = true := by
    intro c membership
    rcases List.mem_append.mp membership with inLabel | inNumber
    · exact List.all_eq_true.mp label_inLine c inLabel
    · exact inLine_of_isdigit (isdigit_of_mem_decimal inNumber)
  have skips := spanWhile_append passes (c := 10) (by decide) cells
  rw [line_append, ← List.append_assoc, nextLine, skips]
  rfl

theorem line_head :
    ∃ c rest, key.line values ++ cells = c :: rest ∧ c ≠ 0 := by
  rw [line_append]
  cases key <;> exact ⟨_, _, rfl, by decide⟩

end Line

/-- One round for each line and one at the end collect every number. -/
theorem readIoLines_ioText
    (values : IoKey → UInt64)
    {order : List IoKey}
    {rounds : ℕ}
    (enough : order.length < rounds)
    (t : IoCounters) :
    readIoLines rounds (ioText values order ++ [0]) t =
      some (order.foldl (IoCounters.store values) t) := by
  induction order generalizing rounds t with
  | nil =>
    cases rounds with
    | zero => exact absurd enough (Nat.not_lt_zero _)
    | succ rounds => rfl
  | cons key order inductionHypothesis =>
    cases rounds with
    | zero => exact absurd enough (Nat.not_lt_zero _)
    | succ rounds =>
      have rest := inductionHypothesis (Nat.lt_of_succ_lt_succ enough)
        (t.store values key)
      have text : ioText values (key :: order) ++ [0] =
          key.line values ++ (ioText values order ++ [0]) := by
        rw [ioText, List.flatMap_cons, List.append_assoc]
        rfl
      have reads := readIoLine_line values key (ioText values order ++ [0]) t
      have advances := nextLine_line values key (ioText values order ++ [0])
      obtain ⟨c, cells, starts, c_ne_zero⟩ :=
        line_head values key (ioText values order ++ [0])
      rw [starts] at text reads advances
      rw [text, readIoLines]
      simp [c_ne_zero, reads, advances, rest]

/-- A line is its label, at most twenty digits and the newline. -/
theorem length_line_le
    (values : IoKey → UInt64)
    (key : IoKey) :
    (key.line values).length ≤ (ascii key.label).length + 21 := by
  have digits : (decimal (values key).toNat).length ≤ 20 :=
    length_decimal_le (by decide) ((values key).toNat_lt.trans (by decide))
  rw [IoKey.line, List.length_append, List.length_append]
  exact Nat.add_le_add_left (Nat.add_le_add_right digits 1) _

/-- The widest text has 223 bytes. -/
theorem length_ioText_le
    (values : IoKey → UInt64)
    {order : List IoKey}
    (complete : order.Perm IoKey.all) :
    (ioText values order).length ≤ 223 := by
  have inOrder : (ioText values order).length =
      (ioText values IoKey.all).length :=
    (complete.flatMap_right _).length_eq
  calc (ioText values order).length
      = (IoKey.all.map fun key => (key.line values).length).sum := by
        rw [inOrder, ioText, List.length_flatMap]
    _ ≤ (IoKey.all.map fun key => (ascii key.label).length + 21).sum :=
        List.sum_le_sum fun key _ => length_line_le values key
    _ = 223 := by decide

/-! ## What is returned for it -/

/-- The counters are those of the text, for any order of its lines. -/
theorem readProcIoFd_ioText
    {fd : Int}
    (opened : 0 ≤ fd)
    (values : IoKey → UInt64)
    {order : List IoKey}
    (complete : order.Perm IoKey.all) :
    let total := values .readBytes + values .writeBytes
    readProcIoFd fd true (some (ioText values order)) = some {
      result :=
        if total ≥ values .cancelledWriteBytes
        then total - values .cancelledWriteBytes else 0
      syscallBytes := some (values .rchar + values .wchar) } := by
  intro total
  have fits : (ioText values order).take 511 = ioText values order :=
    List.take_of_length_le
      ((length_ioText_le values complete).trans (by decide))
  have occurs (key : IoKey) : key ∈ order :=
    complete.mem_iff.mpr key.mem_all
  have enough : order.length < 512 := by
    rw [complete.length_eq]
    decide
  have reads := readIoLines_ioText values enough IoCounters.zero
  rw [IoCounters.foldl_store] at reads
  simp only [occurs, if_true] at reads
  have nonempty : ioText values order ≠ [] := by
    intro empty
    have noLine : IoKey.line values .rchar = [] :=
      List.flatMap_eq_nil_iff.mp empty _ (occurs .rchar)
    exact absurd noLine (List.append_ne_nil_of_left_ne_nil (by decide) _)
  obtain ⟨c, cells, text⟩ := List.exists_cons_of_ne_nil nonempty
  rw [text] at fits reads ⊢
  simp only [readProcIoFd, if_neg (not_lt.mpr opened), Option.map_some, fits,
    reads]
  rfl

/-- The result is the number of bytes that reached the disk, where the sum of
the bytes read and written does not wrap. -/
theorem diskBytes_toNat
    {readBytes writeBytes : UInt64}
    (bound : readBytes.toNat + writeBytes.toNat < 2 ^ 64 - 1)
    (cancelled : UInt64) :
    let total := readBytes + writeBytes
    let result := if total ≥ cancelled then total - cancelled else 0
    result.toNat = readBytes.toNat + writeBytes.toNat - cancelled.toNat ∧
      result ≠ procIoReadFail := by
  intro total result
  have total_toNat : total.toNat = readBytes.toNat + writeBytes.toNat := by
    rw [UInt64.toNat_add, Nat.mod_eq_of_lt (bound.trans_le (Nat.sub_le _ _))]
  have value : result.toNat =
      readBytes.toNat + writeBytes.toNat - cancelled.toNat := by
    by_cases enough : total ≥ cancelled
    · simp only [result, if_pos enough]
      rw [UInt64.toNat_sub_of_le _ _ enough, total_toNat]
    · have less := UInt64.lt_iff_toNat_lt.mp (UInt64.not_le.mp enough)
      simp only [result, if_neg enough, UInt64.toNat_zero]
      omega
  refine ⟨value, fun isFail => ?_⟩
  rw [isFail] at value
  have failValue : procIoReadFail.toNat = 2 ^ 64 - 1 := by decide
  omega

/-- The text of the seven counters, in any order, fits into one read and gives
their sums; and on any content of the buffer the line loop ends without reading
behind the terminating zero. -/
theorem readProcIoFd_undoes_ioText :
    (∀ (values : IoKey → UInt64) (order : List IoKey) (fd : Int),
      order.Perm IoKey.all →
      0 ≤ fd →
      (values .rchar).toNat + (values .wchar).toNat < 2 ^ 64 →
      (values .readBytes).toNat + (values .writeBytes).toNat < 2 ^ 64 - 1 →
      (ioText values order).length ≤ 511 ∧
        ∃ read syscallBytes,
          readProcIoFd fd true (some (ioText values order)) = some read ∧
          read.result.toNat = (values .readBytes).toNat +
            (values .writeBytes).toNat - (values .cancelledWriteBytes).toNat ∧
          read.result ≠ procIoReadFail ∧
          read.syscallBytes = some syscallBytes ∧
          syscallBytes.toNat =
            (values .rchar).toNat + (values .wchar).toNat) ∧
      ∀ (content : List UInt8) (rounds : ℕ) (t : IoCounters),
        content.length < rounds →
        ∃ result, ∀ beyond,
          readIoLines rounds (content ++ 0 :: beyond) t = some result := by
  refine ⟨?_, fun content rounds t enough =>
    readIoLines_within rounds content enough t⟩
  intro values order fd complete opened syscallBound diskBound
  have short := (length_ioText_le values complete).trans (by decide : 223 ≤ 511)
  obtain ⟨disk, notFail⟩ :=
    diskBytes_toNat diskBound (values .cancelledWriteBytes)
  refine ⟨short, _, _, readProcIoFd_ioText opened values complete, disk, notFail,
    rfl, ?_⟩
  rw [UInt64.toNat_add, Nat.mod_eq_of_lt syscallBound]

/-- A process that read and wrote ten bytes each. -/
theorem readProcIoFd_undoes_ioText_ten :
    (ioText (fun _ => 10) IoKey.all).length ≤ 511 ∧
      ∃ read syscallBytes,
        readProcIoFd 3 true (some (ioText (fun _ => 10) IoKey.all)) =
          some read ∧
        read.result.toNat = 10 + 10 - 10 ∧
        read.result ≠ procIoReadFail ∧
        read.syscallBytes = some syscallBytes ∧
        syscallBytes.toNat = 10 + 10 :=
  readProcIoFd_undoes_ioText.1 (fun _ => 10) IoKey.all 3 (List.Perm.refl _)
    (by decide) (by decide) (by decide)

end Schedmon
