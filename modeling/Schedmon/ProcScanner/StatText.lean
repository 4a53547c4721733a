import Mathlib.Algebra.Order.BigOperators.Group.List
import Mathlib.Data.List.TakeWhile
import Schedmon.Library.CString
import Schedmon.ProcScanner

/-!
# Reading `/proc/PID/stat`

`read_proc_stat` of the scanner on the text of the file, and the text the kernel
prints: the name stands between parentheses as it is, before the numbers that
the scanner looks for.
-/

namespace Schedmon

open Library.Decimal Library.CString

/-- The test under which a word is skipped. -/
def inWord (c : UInt8) : Bool :=
  c ≠ 0 && c ≠ 32

/-- The test under which the blanks behind it are skipped. -/
def inBlanks (c : UInt8) : Bool :=
  c ≠ 0 && c = 32

/-- `skip_fields`. -/
def skipFields : ℕ → List UInt8 → Option (List UInt8)
  | 0, p => some p
  | count + 1, p => do
      let (_, p) ← spanWhile inWord p
      let (_, p) ← spanWhile inBlanks p
      skipFields count p

/-- The name `read_proc_stat` stores, given the pointers to the first opening
and the last closing parenthesis.  With a negative length the terminating zero
would be written before the array. -/
def statComm (commStart commEnd : List UInt8) : Option Comm :=
  let commLen : Int := commStart.length - commEnd.length - 1
  let commLen := if commLen > 15 then 15 else commLen
  if commLen < 0 then none
  else some ((commStart.tail.take commLen.toNat).takeWhile (· ≠ 0))

/-- The two times `read_proc_stat` reads behind the name. -/
def readTicks (commEnd : List UInt8) : Option (UInt64 × UInt64) := do
  let rest ← skipFields 11 (commEnd.drop 2)
  let (utime, next) ← strtoull rest
  let (stime, _) ← strtoull next
  return (utime, stime)

/-- `read_proc_stat` from the line on: the entry it fills, or nothing where it
returns -1. -/
def parseStat
    (pid : Int)
    (out : ProcEntry)
    (fetchComm : Bool)
    (line : List UInt8) : Option (Option ProcEntry) := do
  match ← strchr 40 line, ← strrchr 41 line with
  | some commStart, some commEnd =>
      let comm ← if fetchComm then statComm commStart commEnd else some out.comm
      let (utime, stime) ← readTicks commEnd
      return some { out with
        comm := comm
        utime := utime
        stime := stime
        pid := pid
        totalTicks := utime + stime }
  | _, _ => return none

/-- `read_proc_stat`, given the file, if it can be opened. -/
def readProcStat
    (pid : Int)
    (out : ProcEntry)
    (fetchComm : Bool)
    (file : Option (List UInt8)) : Option (Option ProcEntry) :=
  match file with
  | none => some none
  | some [] => some none
  | some stream => parseStat pid out fetchComm (fgets 512 stream ++ [0])

/-! ## The line the kernel prints -/

/-- A number in decimal, with a minus where it is negative. -/
def integer (number : Int) : List UInt8 :=
  if number < 0 then 45 :: decimal number.natAbs else decimal number.natAbs

/-- The numbers of 64 bits, signed or not. -/
def Is64Bit (number : Int) : Prop :=
  -2 ^ 63 ≤ number ∧ number < 2 ^ 64

/-- What the kernel prints for one process.  The fields are those between the
state and `utime`, and those behind `stime`. -/
structure StatLine where
  pid : ℕ
  comm : Comm
  state : UInt8
  fields : List Int
  utime : UInt64
  stime : UInt64
  more : List Int
  pid_lt : pid < 2 ^ 31
  comm_length : comm.length ≤ 15
  comm_nonzero : 0 ∉ comm
  state_letter : 65 ≤ state ∧ state ≤ 90 ∨ 97 ≤ state ∧ state ≤ 122
  fields_length : fields.length = 10
  fields_64Bit : ∀ number ∈ fields, Is64Bit number
  more_64Bit : ∀ number ∈ more, Is64Bit number

namespace StatLine

/-- The state and the fields up to `utime`. -/
def skipped (line : StatLine) : List (List UInt8) :=
  [line.state] :: line.fields.map integer

/-- What stands behind the name, up to the end of `stime`. -/
def counted (line : StatLine) : List UInt8 :=
  line.skipped.flatMap (· ++ [32]) ++
    (decimal line.utime.toNat ++ 32 :: decimal line.stime.toNat)

/-- The fields behind `stime`, and the newline. -/
def rest (line : StatLine) : List UInt8 :=
  line.more.flatMap (fun number => 32 :: integer number) ++ [10]

/-- `pid (comm) state f4 f5 ... utime stime ...`. -/
def text (line : StatLine) : List UInt8 :=
  decimal line.pid ++ 32 :: 40 ::
    (line.comm ++ 41 :: 32 :: (line.counted ++ line.rest))

end StatLine

/-! ## The bytes of the numbers -/

/-- From the minus to the last letter: no blank, parenthesis or newline. -/
def Printed (c : UInt8) : Prop :=
  45 ≤ c ∧ c ≤ 122

instance (c : UInt8) : Decidable (Printed c) :=
  inferInstanceAs (Decidable (_ ∧ _))

theorem printed_of_isdigit
    {c : UInt8}
    (isDigit : isdigit c = true) :
    Printed c := by
  simp only [isdigit, Bool.and_eq_true, decide_eq_true_eq] at isDigit
  exact ⟨UInt8.le_trans (by decide) isDigit.1,
    UInt8.le_trans isDigit.2 (by decide)⟩

theorem printed_of_mem_integer
    {number : Int}
    {c : UInt8}
    (membership : c ∈ integer number) :
    Printed c := by
  unfold integer at membership
  split at membership
  · rcases List.mem_cons.mp membership with rfl | inDigits
    · decide
    · exact printed_of_isdigit (isdigit_of_mem_decimal inDigits)
  · exact printed_of_isdigit (isdigit_of_mem_decimal membership)

theorem printed_of_mem_decimal
    {n : ℕ}
    {c : UInt8}
    (membership : c ∈ decimal n) :
    Printed c :=
  printed_of_isdigit (isdigit_of_mem_decimal membership)

/-- No other byte occurs. -/
theorem notMem_of_printed
    {bytes : List UInt8}
    (printed : ∀ c ∈ bytes, Printed c)
    {sought : UInt8}
    (other : ¬ Printed sought) :
    sought ∉ bytes :=
  fun membership => other (printed sought membership)

theorem integer_ne_nil (number : Int) : integer number ≠ [] := by
  unfold integer
  split
  · exact List.cons_ne_nil _ _
  · exact decimal_ne_nil _

theorem length_integer_le
    {number : Int}
    (is64Bit : Is64Bit number) :
    (integer number).length ≤ 20 := by
  obtain ⟨least, most⟩ := is64Bit
  unfold integer
  split
  · have small : number.natAbs < 10 ^ 19 := by omega
    exact Nat.succ_le_succ (length_decimal_le (by decide) small)
  · have small : number.natAbs < 10 ^ 20 := by omega
    exact length_decimal_le (by decide) small

namespace StatLine

variable (line : StatLine)

/-- The bytes before the opening parenthesis. -/
theorem notMem_head
    {sought : UInt8}
    (other : ¬ (sought = 32 ∨ Printed sought)) :
    sought ∉ decimal line.pid ++ [32] := by
  intro membership
  rcases List.mem_append.mp membership with inPid | isBlank
  · exact other (.inr (printed_of_mem_decimal inPid))
  · exact other (.inl (List.mem_singleton.mp isBlank))

theorem printed_of_mem_skipped
    {word : List UInt8}
    (isSkipped : word ∈ line.skipped)
    {c : UInt8}
    (membership : c ∈ word) :
    Printed c := by
  rcases List.mem_cons.mp isSkipped with rfl | isField
  · rw [List.mem_singleton.mp membership]
    rcases line.state_letter with ⟨first, last⟩ | ⟨first, last⟩
    · exact ⟨UInt8.le_trans (by decide) first, UInt8.le_trans last (by decide)⟩
    · exact ⟨UInt8.le_trans (by decide) first, last⟩
  · obtain ⟨number, -, rfl⟩ := List.mem_map.mp isField
    exact printed_of_mem_integer membership

theorem skipped_ne_nil
    {word : List UInt8}
    (isSkipped : word ∈ line.skipped) :
    word ≠ [] := by
  rcases List.mem_cons.mp isSkipped with rfl | isField
  · exact List.cons_ne_nil _ _
  · obtain ⟨number, -, rfl⟩ := List.mem_map.mp isField
    exact integer_ne_nil number

theorem length_skipped : line.skipped.length = 11 := by
  rw [skipped, List.length_cons, List.length_map, line.fields_length]

theorem mem_counted
    {c : UInt8}
    (membership : c ∈ line.counted) :
    c = 32 ∨ Printed c := by
  rcases List.mem_append.mp membership with isSkipped | isTicks
  · obtain ⟨word, word_mem, inField⟩ := List.mem_flatMap.mp isSkipped
    rcases List.mem_append.mp inField with inWord | isBlank
    · exact .inr (line.printed_of_mem_skipped word_mem inWord)
    · exact .inl (List.mem_singleton.mp isBlank)
  · rcases List.mem_append.mp isTicks with inUtime | others
    · exact .inr (printed_of_isdigit (isdigit_of_mem_decimal inUtime))
    · rcases List.mem_cons.mp others with isBlank | inStime
      · exact .inl isBlank
      · exact .inr (printed_of_isdigit (isdigit_of_mem_decimal inStime))

theorem notMem_counted
    {sought : UInt8}
    (other : ¬ (sought = 32 ∨ Printed sought)) :
    sought ∉ line.counted :=
  fun membership => other (line.mem_counted membership)

theorem mem_rest
    {c : UInt8}
    (membership : c ∈ line.rest) :
    c = 10 ∨ c = 32 ∨ Printed c := by
  rcases List.mem_append.mp membership with inFields | isNewline
  · obtain ⟨number, -, inField⟩ := List.mem_flatMap.mp inFields
    rcases List.mem_cons.mp inField with isBlank | inNumber
    · exact .inr (.inl isBlank)
    · exact .inr (.inr (printed_of_mem_integer inNumber))
  · exact .inl (List.mem_singleton.mp isNewline)

/-- The line goes on with a blank or ends. -/
theorem rest_eq : ∃ cells, line.rest = 32 :: cells ∨ line.rest = 10 :: cells := by
  unfold rest
  cases line.more with
  | nil => exact ⟨[], .inr rfl⟩
  | cons number more => exact ⟨_, .inl rfl⟩

theorem length_le_of_mem_skipped
    {word : List UInt8}
    (isSkipped : word ∈ line.skipped) :
    word.length ≤ 20 := by
  rcases List.mem_cons.mp isSkipped with rfl | isField
  · exact Nat.one_le_ofNat
  · obtain ⟨number, number_mem, rfl⟩ := List.mem_map.mp isField
    exact length_integer_le (line.fields_64Bit number number_mem)

/-- Eleven words and two times, of at most twenty bytes each. -/
theorem length_counted_le : line.counted.length ≤ 272 := by
  have words : ((line.skipped.map fun word => (word ++ [32]).length)).sum ≤
      231 := by
    have each : ∀ n ∈ line.skipped.map fun word => (word ++ [32]).length,
        n ≤ 21 := by
      intro n membership
      obtain ⟨word, word_mem, rfl⟩ := List.mem_map.mp membership
      rw [List.length_append]
      exact Nat.succ_le_succ (line.length_le_of_mem_skipped word_mem)
    have bound := List.sum_le_card_nsmul _ 21 each
    rw [List.length_map, line.length_skipped] at bound
    exact bound
  have utime : (decimal line.utime.toNat).length ≤ 20 :=
    length_decimal_le (by decide) (line.utime.toNat_lt.trans (by decide))
  have stime : (decimal line.stime.toNat).length ≤ 20 :=
    length_decimal_le (by decide) (line.stime.toNat_lt.trans (by decide))
  rw [counted, List.length_append, List.length_flatMap, List.length_append,
    List.length_cons]
  omega

end StatLine

/-! ## Skipping the fields -/

theorem inWord_of_printed
    {c : UInt8}
    (printed : Printed c) :
    inWord c = true := by
  simp only [inWord, Bool.and_eq_true, decide_eq_true_eq, ne_eq,
    ← UInt8.toNat_inj, UInt8.reduceToNat]
  have code : 45 ≤ c.toNat := UInt8.le_iff_toNat_le.mp printed.1
  omega

theorem inBlanks_of_ne
    {c : UInt8}
    (c_ne_blank : c ≠ 32) :
    inBlanks c = false := by
  simp [inBlanks, c_ne_blank]

theorem ne_blank_of_printed
    {c : UInt8}
    (printed : Printed c) :
    c ≠ 32 := by
  rintro rfl
  exact absurd printed (by decide)

/-- As many words are skipped as stand before the cells reached. -/
theorem skipFields_words
    {words : List (List UInt8)}
    (nonempty : ∀ word ∈ words, word ≠ [])
    (printed : ∀ word ∈ words, ∀ c ∈ word, Printed c)
    {c : UInt8}
    (c_ne_blank : c ≠ 32)
    (cells : List UInt8) :
    skipFields words.length (words.flatMap (· ++ [32]) ++ c :: cells) =
      some (c :: cells) := by
  induction words with
  | nil => rfl
  | cons word words inductionHypothesis =>
    have nonemptyRest := (List.forall_mem_cons.mp nonempty).2
    have printedRest := (List.forall_mem_cons.mp printed).2
    have rest := inductionHypothesis nonemptyRest printedRest
    have next : ∃ d others, words.flatMap (· ++ [32]) ++ c :: cells =
        d :: others ∧ d ≠ 32 := by
      cases words with
      | nil => exact ⟨c, cells, rfl, c_ne_blank⟩
      | cons other words =>
        obtain ⟨d, ds, rfl⟩ := List.exists_cons_of_ne_nil
          (nonemptyRest other List.mem_cons_self)
        exact ⟨d, _, rfl, ne_blank_of_printed
          (printedRest _ List.mem_cons_self d List.mem_cons_self)⟩
    obtain ⟨d, others, next_eq, d_ne_blank⟩ := next
    have readWord := spanWhile_append
      (fun e e_mem => inWord_of_printed (printed word List.mem_cons_self e e_mem))
      (c := 32) (by decide) (d :: others)
    have blank : ∀ e ∈ [32], inBlanks e = true :=
      List.forall_mem_singleton.mpr rfl
    have readBlank := spanWhile_append blank (inBlanks_of_ne d_ne_blank) others
    rw [List.singleton_append] at readBlank
    rw [List.flatMap_cons, List.append_assoc, List.append_assoc, next_eq,
      List.singleton_append]
    rw [next_eq] at rest
    simp [skipFields, readWord, readBlank, rest]

/-! ## The line without a newline in the name -/

namespace StatLine

variable (line : StatLine)

/-- What `fgets` stores of the line: everything up to `stime` and a part of the
rest that is not empty. -/
theorem fgets_text
    (oneLine : 10 ∉ line.comm) :
    ∃ c cut, isdigit c = false ∧ c :: cut ⊆ line.rest ∧
      fgets 512 line.text = decimal line.pid ++ 32 :: 40 ::
        (line.comm ++ 41 :: 32 :: (line.counted ++ c :: cut)) := by
  let front := decimal line.pid ++ 32 :: 40 ::
    (line.comm ++ 41 :: 32 :: line.counted)
  have text : line.text = front ++ line.rest := by
    simp [front, StatLine.text]
  have front_length : front.length ≤ 301 := by
    have pid : (decimal line.pid).length ≤ 10 :=
      length_decimal_le (by decide) (line.pid_lt.trans (by decide))
    have comm := line.comm_length
    have counted := line.length_counted_le
    simp only [front, List.length_append, List.length_cons]
    omega
  have front_inLine : 10 ∉ front := by
    simp only [front, List.mem_append, List.mem_cons, not_or]
    exact ⟨notMem_of_printed (fun c => printed_of_mem_decimal) (by decide), by decide,
      by decide, oneLine, by decide, by decide, line.notMem_counted (by decide)⟩
  have stored := fgets_append front_inLine (by omega : front.length ≤ 512 - 1)
    line.rest
  have room : 2 ≤ 512 - front.length := by omega
  obtain ⟨cells, blank | newline⟩ := line.rest_eq
  · refine ⟨32, fgets (512 - front.length - 1) cells, by decide, ?_, ?_⟩
    · rw [blank]
      exact List.cons_subset_cons 32 (fgets_subset _ cells)
    · rw [text, stored, blank, fgets_cons room (by decide)]
      simp [front]
  · refine ⟨10, [], by decide, ?_, ?_⟩
    · rw [newline]
      exact List.cons_subset_cons 10 (List.nil_subset cells)
    · rw [text, stored, newline, fgets_newline room]
      simp [front]

/-- What a call fills in. -/
def filled (line : StatLine) (out : ProcEntry) (fetchComm : Bool) : ProcEntry :=
  { out with
    comm := if fetchComm then line.comm else out.comm
    utime := line.utime
    stime := line.stime
    pid := line.pid
    totalTicks := line.utime + line.stime }

/-- The name between its parentheses. -/
theorem statComm_stored (behind : List UInt8) :
    statComm (40 :: (line.comm ++ 41 :: behind)) (41 :: behind) =
      some line.comm := by
  have length := line.comm_length
  have commLen : ((40 :: (line.comm ++ 41 :: behind)).length : Int) -
      (41 :: behind).length - 1 = line.comm.length := by
    simp only [List.length_cons, List.length_append]
    omega
  have whole : line.comm.takeWhile (· ≠ 0) = line.comm :=
    List.takeWhile_eq_self_iff.mpr fun c membership =>
      decide_eq_true fun zero => line.comm_nonzero (zero ▸ membership)
  have notCut : ¬ (line.comm.length : Int) > 15 := by omega
  have notNegative : ¬ (line.comm.length : Int) < 0 := by omega
  simp only [statComm, commLen, if_neg notCut, if_neg notNegative,
    Int.toNat_natCast, List.tail_cons, List.take_left, whole]

/-- Both times are read where the eleven skipped words end. -/
theorem readTicks_stored
    {c : UInt8}
    (stop : isdigit c = false)
    (cells : List UInt8) :
    readTicks (41 :: 32 :: (line.counted ++ c :: cells)) =
      some (line.utime, line.stime) := by
  obtain ⟨d, ds, printed⟩ :=
    List.exists_cons_of_ne_nil (decimal_ne_nil line.utime.toNat)
  have d_ne_blank : d ≠ 32 := by
    apply ne_blank_of_printed
    apply printed_of_mem_decimal (n := line.utime.toNat)
    rw [printed]
    exact List.mem_cons_self
  have skips := skipFields_words (fun word => line.skipped_ne_nil)
    (fun word isSkipped c => line.printed_of_mem_skipped isSkipped) d_ne_blank
    (ds ++ 32 :: (decimal line.stime.toNat ++ c :: cells))
  rw [line.length_skipped, ← List.cons_append, ← printed] at skips
  have text : (41 :: 32 :: (line.counted ++ c :: cells)).drop 2 =
      line.skipped.flatMap (· ++ [32]) ++ (decimal line.utime.toNat ++
        32 :: (decimal line.stime.toNat ++ c :: cells)) := by
    simp [counted]
  have readUtime := strtoull_decimal [] (List.forall_mem_nil _) line.utime
    (c := 32) (by decide) (decimal line.stime.toNat ++ c :: cells)
  have readStime := strtoull_decimal [32] (List.forall_mem_singleton.mpr rfl)
    line.stime stop cells
  rw [List.nil_append] at readUtime
  rw [List.singleton_append] at readStime
  simp only [readTicks, text, skips, readUtime, readStime, Option.pure_def,
    Option.bind_eq_bind, Option.bind_some]

/-- The name is found between its parentheses, and the two times behind it. -/
theorem parseStat_stored
    {c : UInt8}
    (stop : isdigit c = false)
    {cut : List UInt8}
    (inRest : c :: cut ⊆ line.rest)
    (out : ProcEntry)
    (fetchComm : Bool) :
    parseStat line.pid out fetchComm (decimal line.pid ++ 32 :: 40 ::
        (line.comm ++ 41 :: 32 :: (line.counted ++ c :: cut)) ++ [0]) =
      some (some (line.filled out fetchComm)) := by
  have behind_absent : ∀ sought, ¬ Printed sought → sought ≠ 32 → sought ≠ 10 →
      sought ∉ 32 :: (line.counted ++ c :: cut) := by
    intro sought below other notNewline
    rw [List.mem_cons, List.mem_append, not_or, not_or]
    refine ⟨other, line.notMem_counted (not_or.mpr ⟨other, below⟩), ?_⟩
    intro inCut
    rcases line.mem_rest (inRest inCut) with newline | blank | printed
    · exact notNewline newline
    · exact other blank
    · exact below printed
  have named_nonzero : 0 ∉ decimal line.pid ++ [32] ++ 40 :: line.comm := by
    rw [List.mem_append, List.mem_cons, not_or, not_or]
    exact ⟨line.notMem_head (by decide), by decide, line.comm_nonzero⟩
  have head_absent : 40 ∉ decimal line.pid ++ [32] :=
    line.notMem_head (by decide)
  have start := strchr_first head_absent
    (line.notMem_head (by decide))
    (line.comm ++ 41 :: 32 :: (line.counted ++ c :: (cut ++ [0])))
  have finish := strrchr_last (by decide : (41 : UInt8) ≠ 0) named_nonzero
    (behind_absent 41 (by decide) (by decide) (by decide))
    (behind_absent 0 (by decide) (by decide) (by decide)) []
  have ticks := line.readTicks_stored stop (cut ++ [0])
  have name := line.statComm_stored (32 :: (line.counted ++ c :: (cut ++ [0])))
  simp only [List.append_assoc, List.cons_append, List.nil_append] at start finish
  have text : decimal line.pid ++ 32 :: 40 ::
        (line.comm ++ 41 :: 32 :: (line.counted ++ c :: cut)) ++ [0] =
      decimal line.pid ++ 32 :: 40 ::
        (line.comm ++ 41 :: 32 :: (line.counted ++ c :: (cut ++ [0]))) := by
    simp
  rw [text, parseStat, start, finish]
  cases fetchComm with
  | false => simp [ticks, filled]
  | true => simp [ticks, name, filled]

/-- A name without a newline is read as it is, and so are both times. -/
theorem readProcStat_text
    (oneLine : 10 ∉ line.comm)
    (out : ProcEntry)
    (fetchComm : Bool) :
    readProcStat line.pid out fetchComm (some line.text) =
      some (some (line.filled out fetchComm)) := by
  obtain ⟨c, cut, stop, inRest, stored⟩ := line.fgets_text oneLine
  obtain ⟨d, ds, starts⟩ : ∃ d ds, line.text = d :: ds := by
    apply List.exists_cons_of_ne_nil
    exact List.append_ne_nil_of_left_ne_nil (decimal_ne_nil _) _
  rw [← line.parseStat_stored stop inRest out fetchComm, ← stored, starts]
  rfl

/-! ## A newline in the name -/

theorem length_of_statComm
    {commStart commEnd : List UInt8}
    {comm : Comm}
    (stored : statComm commStart commEnd = some comm) :
    comm.length + commEnd.length < commStart.length := by
  simp only [statComm] at stored
  generalize length :
    (commStart.length : Int) - commEnd.length - 1 = commLen at stored
  have cut : (if commLen > 15 then 15 else commLen) ≤ commLen := by
    split <;> omega
  generalize (if commLen > 15 then 15 else commLen) = taken at stored cut
  split at stored
  · cases stored
  · next notNegative =>
    have most : comm.length ≤ taken.toNat := by
      rw [← Option.some.inj stored]
      exact (List.takeWhile_sublist _).length_le.trans (List.length_take_le _ _)
    omega

/-- A name that was stored stood between the two parentheses found. -/
theorem statComm_of_parseStat
    {pid : Int}
    {out entry : ProcEntry}
    {cells commStart : List UInt8}
    (start : strchr 40 cells = some (some commStart))
    (parsed : parseStat pid out true cells = some (some entry)) :
    ∃ commEnd, strrchr 41 cells = some (some commEnd) ∧
      statComm commStart commEnd = some entry.comm := by
  simp only [parseStat, start, if_true, Option.pure_def, Option.bind_eq_bind,
    Option.bind_some] at parsed
  obtain ⟨found, finish, parsed⟩ := Option.bind_eq_some_iff.mp parsed
  cases found with
  | none => cases Option.some.inj parsed
  | some commEnd =>
    obtain ⟨comm, stored, parsed⟩ := Option.bind_eq_some_iff.mp parsed
    obtain ⟨ticks, -, filled⟩ := Option.bind_eq_some_iff.mp parsed
    have entry_eq := Option.some.inj (Option.some.inj filled)
    refine ⟨commEnd, finish, ?_⟩
    rw [← entry_eq]
    exact stored

/-- What `fgets` stores of a line that ends within the name. -/
theorem fgets_text_newline
    {shown hidden : List UInt8}
    (comm_eq : line.comm = shown ++ 10 :: hidden)
    (oneLine : 10 ∉ shown) :
    fgets 512 line.text = decimal line.pid ++ [32] ++ 40 :: (shown ++ [10]) := by
  let front := decimal line.pid ++ [32] ++ 40 :: shown
  have text : line.text = front ++
      10 :: (hidden ++ 41 :: 32 :: (line.counted ++ line.rest)) := by
    simp [front, StatLine.text, comm_eq]
  have front_length : front.length ≤ 27 := by
    have pid : (decimal line.pid).length ≤ 10 :=
      length_decimal_le (by decide) (line.pid_lt.trans (by decide))
    have comm := line.comm_length
    rw [comm_eq, List.length_append] at comm
    simp only [front, List.length_append, List.length_cons, List.length_nil]
    omega
  have front_inLine : 10 ∉ front := by
    rw [List.mem_append, List.mem_cons, not_or, not_or]
    exact ⟨line.notMem_head (by decide), by decide, oneLine⟩
  rw [text, fgets_append front_inLine (by omega), fgets_newline (by omega)]
  simp [front]

/-- The line ends within the name, and the name read is a shorter one. -/
theorem readProcStat_newline
    (newline : 10 ∈ line.comm)
    (out : ProcEntry)
    {entry : ProcEntry}
    (succeeds : readProcStat line.pid out true (some line.text) =
      some (some entry)) :
    entry.comm.length < line.comm.length := by
  obtain ⟨shown, hidden, comm_eq, oneLine⟩ := List.eq_append_cons_of_mem newline
  have stored := line.fgets_text_newline comm_eq oneLine
  have nonzero : 0 ∉ decimal line.pid ++ [32] ++ 40 :: shown := by
    rw [List.mem_append, List.mem_cons, not_or, not_or]
    refine ⟨line.notMem_head (by decide), by decide, fun inShown => ?_⟩
    apply line.comm_nonzero
    rw [comm_eq]
    exact List.mem_append_left _ inShown
  obtain ⟨d, ds, starts⟩ : ∃ d ds, line.text = d :: ds := by
    apply List.exists_cons_of_ne_nil
    exact List.append_ne_nil_of_left_ne_nil (decimal_ne_nil _) _
  have parsed : parseStat line.pid out true
      (decimal line.pid ++ [32] ++ 40 :: (shown ++ [10]) ++ [0]) =
      some (some entry) := by
    rw [← succeeds, ← stored, starts]
    rfl
  have head_absent : 40 ∉ decimal line.pid ++ [32] :=
    line.notMem_head (by decide)
  have start := strchr_first head_absent
    (line.notMem_head (by decide)) (shown ++ [10, 0])
  have text : decimal line.pid ++ [32] ++ 40 :: (shown ++ [10]) ++ [0] =
      decimal line.pid ++ [32] ++ 40 :: (shown ++ [10, 0]) := by
    simp
  rw [text] at parsed
  obtain ⟨commEnd, finish, name_stored⟩ := statComm_of_parseStat start parsed
  have shorter := length_of_statComm name_stored
  obtain ⟨suffix, closing⟩ := strrchr_found finish
  have behind : 2 < commEnd.length := by
    by_contra short
    have ending : [10, 0] <:+
        decimal line.pid ++ [32] ++ 40 :: (shown ++ [10, 0]) :=
      ⟨decimal line.pid ++ [32] ++ 40 :: shown, by simp⟩
    have inEnding := List.suffix_of_suffix_length_le suffix ending
      (not_lt.mp short)
    have closing_mem : 41 ∈ commEnd := List.mem_of_head? closing
    exact absurd (inEnding.mem closing_mem) (by decide)
  rw [comm_eq]
  simp only [List.length_append, List.length_cons, List.length_nil] at shorter ⊢
  omega

end StatLine

end Schedmon
