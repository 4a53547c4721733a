import Schedmon.Library.PythonText
import Schedmon.ProcScanner.StatText

/-!
# The dashboard's reading of `/proc/PID/stat`

`read_proc_stat` of the dashboard, which reads the whole file as UTF-8 text where
the scanner reads one line of bytes, and when both get from a line what the
kernel printed.
-/

namespace Schedmon

open Library.Decimal Library.Utf8

namespace Dashboard

open Library.PythonText

/-- `read_proc_stat`, given the file, if it can be opened. -/
def readProcStat (file : Option (List UInt8)) : Option (List Char × Int) := do
  let line := universalNewlines (← decode (← file))
  let commS := (← index '(' line) + 1
  let commE ← rindex ')' line
  let comm := slice line commS commE
  let rest := split (line.drop (commE + 2))
  return (comm, (← int (← rest[11]?)) + (← int (← rest[12]?)))

end Dashboard

namespace StatLine

variable (line : StatLine)

open Library.PythonText

/-- The characters of the bytes behind the name. -/
def behind : List UInt8 :=
  41 :: 32 :: (line.counted ++ line.rest)

theorem lt_of_printed
    {c : UInt8}
    (printed : Printed c) :
    c < 128 :=
  UInt8.lt_of_le_of_lt printed.2 (by decide)

theorem behind_ascii : ∀ c ∈ line.behind, c < 128 := by
  intro c membership
  simp only [behind, List.mem_cons, List.mem_append] at membership
  rcases membership with rfl | rfl | inCounted | inRest
  · decide
  · decide
  · rcases line.mem_counted inCounted with rfl | printed
    · decide
    · exact lt_of_printed printed
  · rcases line.mem_rest inRest with rfl | rfl | printed
    · decide
    · decide
    · exact lt_of_printed printed

theorem head_ascii : ∀ c ∈ decimal line.pid ++ [32, 40], c < 128 := by
  intro c membership
  simp only [List.mem_append, List.mem_cons, List.not_mem_nil, or_false]
    at membership
  rcases membership with inPid | rfl | rfl
  · exact lt_of_printed (printed_of_mem_decimal inPid)
  · decide
  · decide

/-- The line is valid exactly when the name is. -/
theorem decode_text :
    decode line.text = (decode line.comm).map fun comm =>
      asciiChars (decimal line.pid ++ [32, 40]) ++
        (comm ++ asciiChars line.behind) := by
  have text : line.text =
      decimal line.pid ++ [32, 40] ++ (line.comm ++ line.behind) := by
    simp [StatLine.text, behind]
  rw [text]
  exact decode_between line.head_ascii line.behind_ascii line.comm

/-- A word of printed bytes has no blanks in it. -/
theorem isspace_eq_false_of_printed
    {word : List UInt8}
    (printed : ∀ b ∈ word, Printed b) :
    ∀ c ∈ asciiChars word, isspace c = false := by
  intro c membership
  obtain ⟨b, b_mem, rfl⟩ := List.mem_map.mp membership
  obtain ⟨low, high⟩ := printed b b_mem
  have low' : 45 ≤ b.toNat := UInt8.le_iff_toNat_le.mp low
  have high' : b.toNat ≤ 122 := UInt8.le_iff_toNat_le.mp high
  rw [← toNat_ofNat_toNat b] at low' high'
  exact isspace_eq_false (by omega) (by omega)

theorem asciiChars_ne_nil
    {word : List UInt8}
    (nonempty : word ≠ []) :
    asciiChars word ≠ [] := by
  simpa [asciiChars] using nonempty

theorem asciiChars_append (first second : List UInt8) :
    asciiChars (first ++ second) = asciiChars first ++ asciiChars second :=
  List.map_append

/-- A number with a blank behind it is a word. -/
theorem split_decimal
    (n : ℕ)
    {c : Char}
    (blank : isspace c = true)
    (text : List Char) :
    split (asciiChars (decimal n) ++ c :: text) =
      asciiChars (decimal n) :: split text :=
  split_word (asciiChars_ne_nil (decimal_ne_nil n))
    (isspace_eq_false_of_printed fun _ => printed_of_mem_decimal) blank text

/-- The eleven skipped words, the two times and the rest come apart. -/
theorem split_counted :
    ∃ others, split (asciiChars (line.counted ++ line.rest)) =
      line.skipped.map asciiChars ++
        asciiChars (decimal line.utime.toNat) ::
          asciiChars (decimal line.stime.toNat) :: others := by
  have behindTimes : ∃ c text, asciiChars line.rest = c :: text ∧
      isspace c = true := by
    obtain ⟨cells, blank | newline⟩ := line.rest_eq
    · exact ⟨' ', asciiChars cells, by rw [blank]; rfl, by decide⟩
    · exact ⟨'\n', asciiChars cells, by rw [newline]; rfl, by decide⟩
  obtain ⟨c, text, rest_eq, blank⟩ := behindTimes
  have words : asciiChars (line.skipped.flatMap (· ++ [32])) =
      (line.skipped.map asciiChars).flatMap (· ++ [' ']) := by
    rw [asciiChars, List.map_flatMap, List.flatMap_map]
    simp only [List.map_append]
    rfl
  have chars : asciiChars (line.counted ++ line.rest) =
      (line.skipped.map asciiChars).flatMap (· ++ [' ']) ++
        (asciiChars (decimal line.utime.toNat) ++
          ' ' :: (asciiChars (decimal line.stime.toNat) ++ c :: text)) := by
    rw [asciiChars_append, rest_eq, counted, asciiChars_append, words,
      asciiChars_append, List.append_assoc, List.append_assoc]
    rfl
  have nonempty : ∀ word ∈ line.skipped.map asciiChars, word ≠ [] := by
    intro word membership
    obtain ⟨bytes, bytes_mem, rfl⟩ := List.mem_map.mp membership
    exact asciiChars_ne_nil (line.skipped_ne_nil bytes_mem)
  have printed : ∀ word ∈ line.skipped.map asciiChars, ∀ c ∈ word,
      isspace c = false := by
    intro word membership
    obtain ⟨bytes, bytes_mem, rfl⟩ := List.mem_map.mp membership
    exact isspace_eq_false_of_printed fun _ =>
      line.printed_of_mem_skipped bytes_mem
  refine ⟨split text, ?_⟩
  rw [chars, split_words nonempty printed, split_decimal _ (by decide),
    split_decimal _ blank]

theorem notMem_asciiChars
    {bytes : List UInt8}
    {c : Char}
    (absent : UInt8.ofNat c.toNat ∉ bytes) :
    c ∉ asciiChars bytes := by
  intro membership
  obtain ⟨b, b_mem, rfl⟩ := List.mem_map.mp membership
  rw [toNat_ofNat_toNat, UInt8.ofNat_toNat] at absent
  exact absent b_mem

/-- Only the name can hold characters that are translated. -/
theorem universalNewlines_text (comm : List Char) :
    universalNewlines (asciiChars (decimal line.pid ++ [32, 40]) ++
        (comm ++ asciiChars line.behind)) =
      asciiChars (decimal line.pid ++ [32, 40]) ++
        (universalNewlines comm ++ asciiChars line.behind) := by
  have head_absent : '\r' ∉ asciiChars (decimal line.pid ++ [32, 40]) := by
    apply notMem_asciiChars
    rw [List.mem_append, not_or]
    exact ⟨notMem_of_printed (fun _ => printed_of_mem_decimal) (by decide),
      by decide⟩
  have behind_absent : '\r' ∉ asciiChars line.behind := by
    apply notMem_asciiChars
    simp only [behind, List.mem_cons, List.mem_append, not_or]
    exact ⟨by decide, by decide, line.notMem_counted (by decide), fun inRest =>
      absurd (line.mem_rest inRest) (by decide)⟩
  have behind_same := universalNewlines_append behind_absent []
  rw [List.append_nil, universalNewlines, universalNewlines, translateNewlines,
    List.append_nil, ← universalNewlines] at behind_same
  have behind_eq : asciiChars line.behind =
      ')' :: asciiChars (32 :: (line.counted ++ line.rest)) := rfl
  rw [universalNewlines_append head_absent, behind_eq, universalNewlines,
    translateNewlines_append_cons false comm (by decide), ← behind_eq,
    behind_same]
  rfl

/-- The twelfth and the thirteenth word behind the name are the tick counters. -/
theorem ticks_words :
    let words := Library.PythonText.split (asciiChars (line.counted ++ line.rest))
    words[11]? = some (asciiChars (decimal line.utime.toNat)) ∧
      words[12]? = some (asciiChars (decimal line.stime.toNat)) := by
  obtain ⟨others, split_eq⟩ := line.split_counted
  have skipped_length : (line.skipped.map asciiChars).length = 11 := by
    rw [List.length_map, line.length_skipped]
  intro words
  have words_eq : words = _ := split_eq
  constructor
  · rw [words_eq, List.getElem?_append_right skipped_length.le, skipped_length]
    rfl
  · rw [words_eq, List.getElem?_append_right
      (skipped_length.le.trans (by decide)), skipped_length]
    rfl

/-- The tick total is read from every line that is valid. -/
theorem dashboard_readProcStat
    {comm : List Char}
    (valid : decode line.comm = some comm) :
    Dashboard.readProcStat (some line.text) =
      some (universalNewlines comm,
        (line.utime.toNat : Int) + line.stime.toNat) := by
  have decoded : decode line.text = some
      (asciiChars (decimal line.pid ++ [32, 40]) ++
        (comm ++ asciiChars line.behind)) := by
    rw [line.decode_text, valid]
    rfl
  have translated := line.universalNewlines_text comm
  generalize universalNewlines comm = name at translated ⊢
  -- the text before the name, and the words behind it
  generalize head_eq : asciiChars (decimal line.pid ++ [32]) = head
  generalize words_eq : asciiChars (line.counted ++ line.rest) = words
  have head_absent : '(' ∉ head := by
    rw [← head_eq]
    exact notMem_asciiChars (line.notMem_head (by decide))
  have words_absent : ')' ∉ ' ' :: words := by
    rw [← words_eq, List.mem_cons, not_or]
    refine ⟨by decide, notMem_asciiChars ?_⟩
    rw [List.mem_append, not_or]
    exact ⟨line.notMem_counted (by decide), fun inRest =>
      absurd (line.mem_rest inRest) (by decide)⟩
  have text : asciiChars (decimal line.pid ++ [32, 40]) ++
      (name ++ asciiChars line.behind) =
      head ++ '(' :: (name ++ ')' :: ' ' :: words) := by
    rw [← head_eq, ← words_eq]
    simp [asciiChars, behind]
  have start := index_append_cons head_absent (name ++ ')' :: ' ' :: words)
  have finish := rindex_append_cons words_absent (head ++ '(' :: name)
  have between := slice_append (head ++ ['(']) name (')' :: ' ' :: words)
  have after : (head ++ '(' :: name ++ [')', ' '] ++ words).drop
      (head ++ '(' :: name ++ [')', ' ']).length = words := List.drop_left
  have finish_length : (head ++ '(' :: name).length =
      head.length + 1 + name.length := by
    simp only [List.length_append, List.length_cons]
    omega
  have after_length : (head ++ '(' :: name ++ [')', ' ']).length =
      head.length + 1 + name.length + 2 := by
    rw [List.length_append, finish_length]
    rfl
  have start_length : (head ++ ['(']).length = head.length + 1 :=
    List.length_append
  rw [finish_length] at finish
  rw [after_length] at after
  rw [start_length] at between
  simp only [List.append_assoc, List.cons_append, List.nil_append]
    at finish between after
  obtain ⟨utime, stime⟩ := line.ticks_words
  rw [words_eq] at utime stime
  simp only [Dashboard.readProcStat, Option.pure_def, Option.bind_eq_bind,
    Option.bind_some, decoded, translated, text, start, finish, between, after,
    utime, stime, int_decimal]

theorem dashboard_readProcStat_invalid
    (invalid : decode line.comm = none) :
    Dashboard.readProcStat (some line.text) = none := by
  have undecoded : decode line.text = none := by
    rw [line.decode_text, invalid]
    rfl
  simp [Dashboard.readProcStat, undecoded]

/-- What the scanner and the dashboard should read from a line. -/
structure Undone (line : StatLine) : Prop where
  scanner : ∀ out fetchComm, ∃ entry,
    readProcStat line.pid out fetchComm (some line.text) = some (some entry) ∧
      entry.totalTicks.toNat = line.utime.toNat + line.stime.toNat ∧
      (fetchComm = true → entry.comm = line.comm)
  dashboard : ∃ comm,
    Dashboard.readProcStat (some line.text) =
      some (comm, (line.utime.toNat : Int) + line.stime.toNat)

/-- Both read back what was printed exactly when the name has no newline and is
valid UTF-8 and the sum of the times does not wrap. -/
theorem undone_iff :
    line.Undone ↔
      10 ∉ line.comm ∧ (decode line.comm).isSome ∧
        line.utime.toNat + line.stime.toNat < 2 ^ 64 := by
  constructor
  · rintro ⟨scanner, comm, read⟩
    have oneLine : 10 ∉ line.comm := by
      intro newline
      obtain ⟨entry, succeeds, -, named⟩ := scanner (newProcEntry line.pid) true
      have shorter := line.readProcStat_newline newline _ succeeds
      rw [named rfl] at shorter
      exact lt_irrefl _ shorter
    have valid : (decode line.comm).isSome := by
      cases decoded : decode line.comm with
      | some text => rfl
      | none =>
        rw [line.dashboard_readProcStat_invalid decoded] at read
        cases read
    refine ⟨oneLine, valid, ?_⟩
    obtain ⟨entry, succeeds, total, -⟩ := scanner (newProcEntry line.pid) true
    rw [← total]
    exact entry.totalTicks.toNat_lt
  · rintro ⟨oneLine, valid, small⟩
    obtain ⟨comm, decoded⟩ := Option.isSome_iff_exists.mp valid
    refine ⟨fun out fetchComm => ?_, _, line.dashboard_readProcStat decoded⟩
    refine ⟨_, line.readProcStat_text oneLine out fetchComm, ?_, ?_⟩
    · simp only [filled]
      rw [UInt64.toNat_add, Nat.mod_eq_of_lt small]
    · intro fetched
      rw [filled, if_pos fetched]

end StatLine

/-- A process that is called by two lines. -/
def twoLineName : StatLine where
  pid := 7
  comm := ascii "a\nb"
  state := 83
  fields := List.replicate 10 0
  utime := 1
  stime := 2
  more := []
  pid_lt := by decide
  comm_length := by decide
  comm_nonzero := by decide
  state_letter := by decide
  fields_length := by decide
  fields_64Bit := by
    intro number membership
    rw [List.eq_of_mem_replicate membership]
    exact ⟨by decide, by decide⟩
  more_64Bit := by
    intro number membership
    cases membership

/-- The scanner stops at the newline and returns -1. -/
theorem twoLineName_not_undone : ¬ ∀ line : StatLine, line.Undone := by
  intro undone
  obtain ⟨entry, succeeds, -⟩ :=
    (undone twoLineName).scanner (newProcEntry 7) true
  have failed : readProcStat 7 (newProcEntry 7) true (some twoLineName.text) =
      some none := by
    decide +kernel
  have differs := failed.symm.trans succeeds
  cases Option.some.inj differs

end Schedmon
