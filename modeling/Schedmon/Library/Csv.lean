import Mathlib.Data.List.Basic
import Mathlib.Data.List.Flatten

/-!
# Comma-separated values

Python's `csv.reader` in its default dialect, and `csv.DictReader` over it.  The
reader is a state machine over the characters of each line and the line's end.
An exception is the absence of an outcome.
-/

namespace Library
namespace Csv

/-- `csv.field_size_limit()`. -/
def fieldSizeLimit : ℕ := 131072

/-- The states of the reader. -/
inductive State
  | startRecord
  | startField
  | inField
  | inQuotedField
  | quoteInQuotedField
  | eatCrnl
  deriving DecidableEq

/-- A reader in the middle of a record. -/
structure Reader where
  state : State
  /-- The fields saved so far. -/
  fields : List (List Char)
  /-- The characters of the field under way. -/
  field : List Char
  deriving DecidableEq

namespace Reader

/-- A reader about to read a record. -/
def fresh : Reader := ⟨.startRecord, [], []⟩

/-- Append a character to the field under way, unless it is as long as it may
be. -/
def addChar (r : Reader) (c : Char) : Option Reader :=
  if r.field.length ≥ fieldSizeLimit then none
  else some { r with field := r.field ++ [c] }

/-- Finish the field under way. -/
def saveField (r : Reader) (state : State) : Reader :=
  ⟨state, r.fields ++ [r.field], []⟩

/-- Where the end of a record leads: a newline character may follow. -/
def afterRecord : Option Char → State
  | none => .startRecord
  | some _ => .eatCrnl

/-- Whether a character ends a line; the line's end is the absence of one. -/
def endsLine : Option Char → Bool
  | none => true
  | some c => c = '\n' || c = '\r'

/-- A character at the start of a field. -/
def startField (r : Reader) (input : Option Char) : Option Reader :=
  if endsLine input then some (r.saveField (afterRecord input))
  else
    match input with
    | none => none
    | some c =>
        if c = '"' then some { r with state := .inQuotedField }
        else if c = ',' then some (r.saveField .startField)
        else { r with state := .inField }.addChar c

/-- One character, or the line's end. -/
def process (r : Reader) (input : Option Char) : Option Reader :=
  match r.state with
  | .startRecord =>
      match input with
      | none => some r
      | some c =>
          if c = '\n' ∨ c = '\r' then some { r with state := .eatCrnl }
          else r.startField input
  | .startField => r.startField input
  | .inField =>
      if endsLine input then some (r.saveField (afterRecord input))
      else
        match input with
        | none => none
        | some c =>
            if c = ',' then some (r.saveField .startField) else r.addChar c
  | .inQuotedField =>
      match input with
      | none => some r
      | some c =>
          if c = '"' then some { r with state := .quoteInQuotedField }
          else r.addChar c
  | .quoteInQuotedField =>
      if endsLine input then some (r.saveField (afterRecord input))
      else
        match input with
        | none => none
        | some c =>
            if c = '"' then { r with state := .inQuotedField }.addChar c
            else if c = ',' then some (r.saveField .startField)
            else { r with state := .inField }.addChar c
  | .eatCrnl =>
      match input with
      | none => some { r with state := .startRecord }
      | some c => if c = '\n' ∨ c = '\r' then some r else none

/-- The characters of a line, without its end. -/
def processChars (r : Reader) (line : List Char) : Option Reader :=
  line.foldlM (fun r c => r.process (some c)) r

/-- A whole line. -/
def processLine (r : Reader) (line : List Char) : Option Reader := do
  let r ← r.processChars line
  r.process none

/-- The records in the lines that are left.  A record goes on in the next line
as long as a quoted field is open; one that is still open at the end counts. -/
def records (r : Reader) : List (List Char) → Option (List (List (List Char)))
  | [] =>
      if r.field ≠ [] ∨ r.state = .inQuotedField then
        some [(r.saveField .startRecord).fields]
      else some []
  | line :: rest => do
      let r ← r.processLine line
      if r.state = .startRecord then
        let later ← fresh.records rest
        return r.fields :: later
      else r.records rest

end Reader

/-- `list(csv.reader(lines))`. -/
def reader (lines : List (List Char)) : Option (List (List (List Char))) :=
  Reader.fresh.records lines

/-- A row of `csv.DictReader`: keys with their values, later ones first.  A key
without a field has `None`. -/
abbrev DictRow := List (List Char × Option (List Char))

/-- `dict(zip(fieldnames, row))`, with `None` for the names that are left.  Fields
without a name stand under no text. -/
def dictRow : List (List Char) → List (List Char) → DictRow
  | [], _ => []
  | name :: names, [] => dictRow names [] ++ [(name, none)]
  | name :: names, field :: fields => dictRow names fields ++ [(name, some field)]

/-- `row.get(key)`, where a key may be there with `None`. -/
def DictRow.get? (row : DictRow) (key : List Char) : Option (Option (List Char)) :=
  (row.find? fun entry => entry.1 = key).map Prod.snd

/-- `list(csv.DictReader(lines))`: the first record names the fields, and empty
records are skipped. -/
def dictReader (lines : List (List Char)) : Option (List DictRow) := do
  let rows ← reader lines
  match rows with
  | [] => return []
  | names :: rows => return (rows.filter (· ≠ [])).map (dictRow names)

/-! ## Plain fields -/

/-- A field that needs no quotes and is not too long. -/
structure Plain (field : List Char) : Prop where
  noComma : ',' ∉ field
  noQuote : '"' ∉ field
  noNewline : '\n' ∉ field
  noReturn : '\r' ∉ field
  short : field.length ≤ fieldSizeLimit

/-- A record as a line of fields with commas between them. -/
def line (fields : List (List Char)) : List Char :=
  List.intercalate [','] fields ++ ['\n']

theorem intercalate_cons_cons
    {α : Type*}
    (comma : α)
    (first second : List α)
    (others : List (List α)) :
    List.intercalate [comma] (first :: second :: others) =
      first ++ comma :: List.intercalate [comma] (second :: others) := by
  simp [List.intercalate]

theorem mem_intercalate
    {α : Type*}
    {comma c : α}
    {fields : List (List α)}
    (member : c ∈ List.intercalate [comma] fields) :
    c = comma ∨ ∃ field ∈ fields, c ∈ field := by
  induction fields with
  | nil => cases member
  | cons first others inductionHypothesis =>
      cases others with
      | nil => exact .inr ⟨first, List.mem_cons_self, by simpa [List.intercalate] using member⟩
      | cons second others =>
          rw [intercalate_cons_cons] at member
          rcases List.mem_append.mp member with here | behind
          · exact .inr ⟨first, List.mem_cons_self, here⟩
          · rcases List.mem_cons.mp behind with comma | rest
            · exact .inl comma
            · obtain comma | ⟨field, listed, inside⟩ := inductionHypothesis rest
              · exact .inl comma
              · exact .inr ⟨field, List.mem_cons_of_mem first listed, inside⟩

theorem process_newline
    {r : Reader}
    (inside : r.state = .startField ∨ r.state = .inField) :
    r.process (some '\n') = some (r.saveField .eatCrnl) := by
  rcases inside with state | state
  · rw [Reader.process, state]
    rfl
  · rw [Reader.process, state]
    rfl

theorem process_comma
    {r : Reader}
    (inside : r.state = .startField ∨ r.state = .inField) :
    r.process (some ',') = some (r.saveField .startField) := by
  rcases inside with state | state
  · rw [Reader.process, state]
    rfl
  · rw [Reader.process, state]
    rfl

theorem process_plain
    {r : Reader}
    (inside : r.state = .startField ∨ r.state = .inField)
    {c : Char}
    (plain : c ≠ ',' ∧ c ≠ '"' ∧ c ≠ '\n' ∧ c ≠ '\r')
    (room : r.field.length < fieldSizeLimit) :
    r.process (some c) = some ⟨.inField, r.fields, r.field ++ [c]⟩ := by
  obtain ⟨noComma, noQuote, noNewline, noReturn⟩ := plain
  have within : ¬ r.field.length ≥ fieldSizeLimit := Nat.not_le.mpr room
  rcases inside with state | state
  · simp [Reader.process, state, Reader.startField, Reader.endsLine, noComma, noQuote,
      noNewline, noReturn, Reader.addChar, within]
  · simp [Reader.process, state, Reader.endsLine, noComma, noNewline, noReturn,
      Reader.addChar, within]

theorem processChars_append (r : Reader) (text more : List Char) :
    r.processChars (text ++ more) = (r.processChars text).bind (·.processChars more) :=
  List.foldlM_append

/-- The characters of a plain field are collected. -/
theorem processChars_plain
    {r : Reader}
    (inside : r.state = .startField ∨ r.state = .inField)
    {field : List Char}
    (plain : Plain field)
    (room : r.field.length + field.length ≤ fieldSizeLimit) :
    ∃ state, (state = .startField ∨ state = .inField) ∧
      r.processChars field = some ⟨state, r.fields, r.field ++ field⟩ := by
  induction field generalizing r with
  | nil => exact ⟨r.state, inside, by simp [Reader.processChars]⟩
  | cons c field inductionHypothesis =>
      have rest : Plain field :=
        { noComma := fun member => plain.noComma (List.mem_cons_of_mem c member)
          noQuote := fun member => plain.noQuote (List.mem_cons_of_mem c member)
          noNewline := fun member => plain.noNewline (List.mem_cons_of_mem c member)
          noReturn := fun member => plain.noReturn (List.mem_cons_of_mem c member)
          short := Nat.le_of_succ_le plain.short }
      rw [List.length_cons] at room
      have step := process_plain inside (c := c)
        ⟨(List.ne_of_not_mem_cons plain.noComma).symm,
          (List.ne_of_not_mem_cons plain.noQuote).symm,
          (List.ne_of_not_mem_cons plain.noNewline).symm,
          (List.ne_of_not_mem_cons plain.noReturn).symm⟩ (by omega)
      obtain ⟨state, settled, reads⟩ := inductionHypothesis
        (r := ⟨.inField, r.fields, r.field ++ [c]⟩) (.inr rfl) rest
        (by simp only [List.length_append, List.length_singleton]; omega)
      refine ⟨state, settled, ?_⟩
      rw [Reader.processChars, List.foldlM_cons, step]
      refine reads.trans ?_
      simp

/-- Between commas each plain field is saved, and the last one is under way. -/
theorem processChars_fields
    (done : List (List Char))
    {first : List Char}
    {others : List (List Char)}
    (plain : ∀ field ∈ first :: others, Plain field) :
    ∃ state earlier last, (state = .startField ∨ state = .inField) ∧
      earlier ++ [last] = done ++ first :: others ∧
      (⟨.startField, done, []⟩ : Reader).processChars
        (List.intercalate [','] (first :: others)) = some ⟨state, earlier, last⟩ := by
  induction others generalizing done first with
  | nil =>
      have here := plain first List.mem_cons_self
      obtain ⟨state, settled, reads⟩ := processChars_plain
        (r := ⟨.startField, done, []⟩) (.inl rfl) here
        (by simpa using here.short)
      exact ⟨state, done, first, settled, rfl, by simpa [List.intercalate] using reads⟩
  | cons second others inductionHypothesis =>
      have here := plain first List.mem_cons_self
      obtain ⟨between, settled, reads⟩ := processChars_plain
        (r := ⟨.startField, done, []⟩) (.inl rfl) here
        (by simpa using here.short)
      obtain ⟨state, earlier, last, ends, fields, rest⟩ :=
        inductionHypothesis (done ++ [first])
          fun field member => plain field (List.mem_cons_of_mem first member)
      refine ⟨state, earlier, last, ends, by simpa using fields, ?_⟩
      rw [intercalate_cons_cons, processChars_append, reads, Option.bind_some, Reader.processChars,
        List.foldlM_cons, process_comma settled]
      exact rest

/-- At the start of a record a character is read as at the start of a field. -/
theorem processChars_startRecord
    {text : List Char}
    (nonempty : text ≠ [])
    (starts : ∀ c ∈ text.head?, c ≠ '\n' ∧ c ≠ '\r') :
    Reader.fresh.processChars text =
      (⟨.startField, [], []⟩ : Reader).processChars text := by
  obtain ⟨c, rest, rfl⟩ := List.exists_cons_of_ne_nil nonempty
  obtain ⟨noNewline, noReturn⟩ := starts c rfl
  have same : Reader.fresh.process (some c) =
      (⟨.startField, [], []⟩ : Reader).process (some c) := by
    simp only [Reader.process, Reader.fresh, noNewline, noReturn, or_self, if_false]
    rfl
  rw [Reader.processChars, List.foldlM_cons, same]
  rfl

/-- A record that can be told from an empty one, with plain fields. -/
structure PlainRecord (fields : List (List Char)) : Prop where
  nonempty : fields ≠ []
  notBlank : fields ≠ [[]]
  plain : ∀ field ∈ fields, Plain field

/-- A plain record has one line. -/
theorem PlainRecord.oneLine
    {fields : List (List Char)}
    (record : PlainRecord fields) :
    '\n' ∉ List.intercalate [','] fields ∧ '\r' ∉ List.intercalate [','] fields := by
  constructor
  · intro member
    obtain comma | ⟨field, listed, here⟩ := mem_intercalate member
    · exact absurd comma (by decide)
    · exact (record.plain field listed).noNewline here
  · intro member
    obtain comma | ⟨field, listed, here⟩ := mem_intercalate member
    · exact absurd comma (by decide)
    · exact (record.plain field listed).noReturn here

theorem PlainRecord.intercalate_head
    {fields : List (List Char)}
    (record : PlainRecord fields) :
    List.intercalate [','] fields ≠ [] ∧
      ∀ c ∈ (List.intercalate [','] fields).head?, c ≠ '\n' ∧ c ≠ '\r' := by
  obtain ⟨first, others, rfl⟩ := List.exists_cons_of_ne_nil record.nonempty
  have here := record.plain first List.mem_cons_self
  cases first with
  | nil =>
      cases others with
      | nil => exact absurd rfl record.notBlank
      | cons second others => simp
  | cons d first =>
      have starts : ∃ rest, List.intercalate [','] ((d :: first) :: others) =
          d :: rest := by
        cases others with
        | nil => exact ⟨first, by simp [List.intercalate]⟩
        | cons second others =>
            exact ⟨first ++ ',' :: List.intercalate [','] (second :: others),
              intercalate_cons_cons _ _ _ _⟩
      obtain ⟨rest, text⟩ := starts
      rw [text]
      refine ⟨List.cons_ne_nil _ _, ?_⟩
      intro c head
      cases head
      exact ⟨(List.ne_of_not_mem_cons here.noNewline).symm,
        (List.ne_of_not_mem_cons here.noReturn).symm⟩

/-- The line of a record is read back as the record. -/
theorem processLine_line
    {fields : List (List Char)}
    (record : PlainRecord fields) :
    Reader.fresh.processLine (line fields) = some ⟨.startRecord, fields, []⟩ := by
  obtain ⟨nonempty, starts⟩ := record.intercalate_head
  obtain ⟨first, others, rfl⟩ := List.exists_cons_of_ne_nil record.nonempty
  obtain ⟨state, earlier, last, ends, all, reads⟩ :=
    processChars_fields [] record.plain
  rw [List.nil_append] at all
  have chars : Reader.fresh.processChars (line (first :: others)) =
      some ⟨.eatCrnl, first :: others, []⟩ := by
    rw [line, processChars_append, processChars_startRecord nonempty starts, reads,
      Option.bind_some, Reader.processChars, List.foldlM_cons, process_newline ends,
      Reader.saveField, all]
    rfl
  rw [Reader.processLine, chars]
  rfl

/-- Written records are read back. -/
theorem reader_lines
    {rows : List (List (List Char))}
    (records : ∀ row ∈ rows, PlainRecord row) :
    reader (rows.map line) = some rows := by
  unfold reader
  induction rows with
  | nil => rfl
  | cons row rows inductionHypothesis =>
      have first := processLine_line (records row List.mem_cons_self)
      have rest := inductionHypothesis fun other member =>
        records other (List.mem_cons_of_mem row member)
      rw [List.map_cons, Reader.records, first]
      simp [rest]

/-- With a record of names before them, written records are read back as
dictionaries. -/
theorem dictReader_lines
    {names : List (List Char)}
    {rows : List (List (List Char))}
    (header : PlainRecord names)
    (records : ∀ row ∈ rows, PlainRecord row) :
    dictReader (line names :: rows.map line) = some (rows.map (dictRow names)) := by
  have read : reader ((names :: rows).map line) = some (names :: rows) :=
    reader_lines (List.forall_mem_cons.mpr ⟨header, records⟩)
  rw [List.map_cons] at read
  have kept : rows.filter (· ≠ []) = rows := by
    rw [List.filter_eq_self]
    intro row member
    exact decide_eq_true (records row member).nonempty
  rw [dictReader, read]
  simp only [Option.bind_eq_bind, Option.bind_some, kept]
  rfl

theorem DictRow.get?_append_singleton
    (row : DictRow)
    (entry : List Char × Option (List Char))
    (key : List Char) :
    DictRow.get? (row ++ [entry]) key =
      (row.get? key).or (if entry.1 = key then some entry.2 else none) := by
  unfold DictRow.get?
  rw [List.find?_append, List.find?_singleton, Option.map_or]
  congr 1
  by_cases same : entry.1 = key
  · rw [if_pos (decide_eq_true same), if_pos same, Option.map_some]
  · rw [if_neg (by simpa using same), if_neg same, Option.map_none]

theorem get?_dictRow_of_not_mem
    {names : List (List Char)}
    {key : List Char}
    (absent : key ∉ names)
    (fields : List (List Char)) :
    (dictRow names fields).get? key = none := by
  fun_induction dictRow names fields with
  | case1 => rfl
  | case2 name names inductionHypothesis =>
      rw [List.mem_cons, not_or] at absent
      rw [DictRow.get?_append_singleton, inductionHypothesis absent.2,
        if_neg (Ne.symm absent.1), Option.none_or]
  | case3 name names field fields inductionHypothesis =>
      rw [List.mem_cons, not_or] at absent
      rw [DictRow.get?_append_singleton, inductionHypothesis absent.2,
        if_neg (Ne.symm absent.1), Option.none_or]

/-- The last column of a name has the value. -/
theorem get?_dictRow
    {names fields : List (List Char)}
    {key field : List Char}
    (k : ℕ)
    (named : names[k]? = some key)
    (last : key ∉ names.drop (k + 1))
    (there : fields[k]? = some field) :
    (dictRow names fields).get? key = some (some field) := by
  cases names with
  | nil => cases named
  | cons name names =>
      cases fields with
      | nil => cases there
      | cons first fields =>
          rw [dictRow, DictRow.get?_append_singleton]
          cases k with
          | zero =>
              have absent : key ∉ names := last
              rw [get?_dictRow_of_not_mem absent, if_pos (Option.some.inj named),
                Option.none_or, Option.some.inj there]
          | succ k => rw [get?_dictRow k named last there, Option.some_or]

end Csv
end Library
