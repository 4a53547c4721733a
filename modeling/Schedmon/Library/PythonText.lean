import Mathlib.Data.List.DropRight
import Schedmon.Library.Decimal
import Schedmon.Library.Utf8

/-!
# Python texts

The methods of Python strings that a parser of small files uses, on lists of
characters.  An exception is the absence of an outcome.
-/

namespace Library
namespace PythonText

/-- `str.isspace` for one character. -/
def isspace (c : Char) : Bool :=
  let n := c.toNat
  (9 ≤ n && n ≤ 13) || (28 ≤ n && n ≤ 32) || n = 0x85 || n = 0xA0 ||
    n = 0x1680 || (0x2000 ≤ n && n ≤ 0x200A) || n = 0x2028 || n = 0x2029 ||
    n = 0x202F || n = 0x205F || n = 0x3000

/-- Newline translation, given whether a carriage return was the last character:
a line feed behind it belongs to the same newline. -/
def translateNewlines (pending : Bool) : List Char → List Char
  | [] => []
  | c :: text =>
      if pending && c = '\n' then translateNewlines false text
      else if c = '\r' then '\n' :: translateNewlines true text
      else c :: translateNewlines false text

/-- The text of a file opened in text mode, where every newline is a line
feed. -/
def universalNewlines (text : List Char) : List Char :=
  translateNewlines false text

/-- `text.index(sought)`. -/
def index (sought : Char) (text : List Char) : Option ℕ :=
  text.idxOf? sought

/-- `text.rindex(sought)`. -/
def rindex (sought : Char) (text : List Char) : Option ℕ := do
  let behind ← text.reverse.idxOf? sought
  return text.length - 1 - behind

/-- `text[start:stop]`, for positions that are not negative. -/
def slice (text : List Char) (start stop : ℕ) : List Char :=
  (text.take stop).drop start

/-- `text.split()`. -/
def split (text : List Char) : List (List Char) :=
  (text.splitOnP isspace).filter (· ≠ [])

/-- `text.strip()`. -/
def strip (text : List Char) : List Char :=
  (text.dropWhile isspace).rdropWhile isspace

/-- `text.partition(separator)`, without the separator: what stands before the
first one, and what behind it. -/
def partition (separator : Char) (text : List Char) : List Char × List Char :=
  (text.takeWhile (· ≠ separator), (text.dropWhile (· ≠ separator)).tail)

/-- The lines of a file in text mode, each with its newline. -/
def lines : List Char → List (List Char)
  | [] => []
  | c :: text =>
      if c = '\n' then ['\n'] :: lines text
      else
        match lines text with
        | [] => [[c]]
        | line :: others => (c :: line) :: others

/-- The value of ASCII digits. -/
def digitsValue (digits : List Char) : ℕ :=
  digits.foldl (fun n c => n * 10 + (c.toNat - 48)) 0

/-- Digits, with single underscores between them. -/
def naturalNumber (text : List Char) : Option ℕ :=
  let groups := text.splitOn '_'
  if groups.all fun group => group ≠ [] && group.all Char.isDigit then
    some (digitsValue groups.flatten)
  else none

/-- `int(text)` of an ASCII text. -/
def int (text : List Char) : Option Int :=
  match strip text with
  | '-' :: digits => (naturalNumber digits).map fun n => -(n : Int)
  | '+' :: digits => (naturalNumber digits).map fun n => (n : Int)
  | digits => (naturalNumber digits).map fun n => (n : Int)

/-- The printed ASCII characters are not blank. -/
theorem isspace_eq_false
    {c : Char}
    (low : 33 ≤ c.toNat)
    (high : c.toNat ≤ 126) :
    isspace c = false := by
  simp only [isspace, Bool.or_eq_false_iff, Bool.and_eq_false_imp,
    decide_eq_true_eq, decide_eq_false_iff_not]
  omega

/-! ## Searching -/

theorem index_append_cons
    {sought : Char}
    {before : List Char}
    (absent : sought ∉ before)
    (behind : List Char) :
    index sought (before ++ sought :: behind) = some before.length := by
  induction before with
  | nil => simp [index, List.idxOf?_cons]
  | cons c before inductionHypothesis =>
    have found := inductionHypothesis (List.not_mem_of_not_mem_cons absent)
    have differs : c ≠ sought := (List.ne_of_not_mem_cons absent).symm
    unfold index at found ⊢
    simp [List.idxOf?_cons, differs, found]

theorem rindex_append_cons
    {sought : Char}
    {behind : List Char}
    (absent : sought ∉ behind)
    (before : List Char) :
    rindex sought (before ++ sought :: behind) = some before.length := by
  have reversed : (before ++ sought :: behind).reverse =
      behind.reverse ++ sought :: before.reverse := by simp
  have found := index_append_cons
    (fun membership => absent (List.mem_reverse.mp membership)) before.reverse
  rw [index, ← reversed, List.length_reverse] at found
  rw [rindex, found]
  simp

/-- The text between two positions. -/
theorem slice_append
    (before middle behind : List Char) :
    slice (before ++ (middle ++ behind)) before.length
      (before.length + middle.length) = middle := by
  rw [slice, ← List.append_assoc, ← List.length_append, List.take_left,
    List.drop_left]

/-! ## Words -/

theorem split_word
    {word : List Char}
    (nonempty : word ≠ [])
    (printed : ∀ c ∈ word, isspace c = false)
    {c : Char}
    (blank : isspace c = true)
    (behind : List Char) :
    split (word ++ c :: behind) = word :: split behind := by
  rw [split, List.splitOnP_append_cons _ _ blank,
    List.splitOnP_eq_singleton printed]
  simp [split, nonempty]

/-- Words with a blank behind each come apart again. -/
theorem split_words
    {words : List (List Char)}
    (nonempty : ∀ word ∈ words, word ≠ [])
    (printed : ∀ word ∈ words, ∀ c ∈ word, isspace c = false)
    (behind : List Char) :
    split (words.flatMap (· ++ [' ']) ++ behind) = words ++ split behind := by
  induction words with
  | nil => rfl
  | cons word words inductionHypothesis =>
    obtain ⟨word_nonempty, rest_nonempty⟩ := List.forall_mem_cons.mp nonempty
    obtain ⟨word_printed, rest_printed⟩ := List.forall_mem_cons.mp printed
    have rest := inductionHypothesis rest_nonempty rest_printed
    rw [List.flatMap_cons, List.append_assoc, List.append_assoc,
      List.singleton_append,
      split_word word_nonempty word_printed (by decide), rest]
    rfl

/-! ## Newlines -/

theorem translateNewlines_append_cons
    (pending : Bool)
    (text : List Char)
    {c : Char}
    (notNewline : c ≠ '\n')
    (behind : List Char) :
    translateNewlines pending (text ++ c :: behind) =
      translateNewlines pending text ++ universalNewlines (c :: behind) := by
  induction text generalizing pending with
  | nil => simp [universalNewlines, translateNewlines, notNewline]
  | cons d text inductionHypothesis =>
    rw [List.cons_append, translateNewlines, translateNewlines]
    split
    · exact inductionHypothesis false
    · split
      · rw [inductionHypothesis true, List.cons_append]
      · rw [inductionHypothesis false, List.cons_append]

/-- A text without carriage returns stays as it is. -/
theorem universalNewlines_append
    {text : List Char}
    (absent : '\r' ∉ text)
    (behind : List Char) :
    universalNewlines (text ++ behind) = text ++ universalNewlines behind := by
  unfold universalNewlines
  induction text with
  | nil => rfl
  | cons c text inductionHypothesis =>
    have rest := inductionHypothesis (List.not_mem_of_not_mem_cons absent)
    have notReturn : c ≠ '\r' := (List.ne_of_not_mem_cons absent).symm
    simp [translateNewlines, notReturn, rest]

/-- Newline translation leaves no carriage return. -/
theorem return_notMem_universalNewlines (text : List Char) :
    '\r' ∉ universalNewlines text := by
  suffices absent : ∀ pending, '\r' ∉ translateNewlines pending text from
    absent false
  induction text with
  | nil => intro pending; exact List.not_mem_nil
  | cons c text inductionHypothesis =>
    intro pending
    rw [translateNewlines]
    split
    · exact inductionHypothesis false
    · split
      · exact List.not_mem_cons_of_ne_of_not_mem (by decide)
          (inductionHypothesis true)
      · next notReturn =>
        exact List.not_mem_cons_of_ne_of_not_mem (Ne.symm notReturn)
          (inductionHypothesis false)

/-! ## Printed numbers -/

open Decimal Utf8

theorem digitsValue_asciiChars (digits : List UInt8) :
    digitsValue (asciiChars digits) = value digits := by
  unfold digitsValue asciiChars value
  rw [List.foldl_map]
  simp only [toNat_ofNat_toNat]

/-! ## Stripping blanks -/

/-- Nothing is stripped before a character that is no blank. -/
theorem strip_cons_of_printed
    {c : Char}
    (printed : isspace c = false)
    (text : List Char) :
    strip (c :: text) = (c :: text).rdropWhile isspace := by
  rw [strip, List.dropWhile_cons_of_neg (by simp [printed])]

/-- A blank at the end is stripped. -/
theorem strip_concat
    (text : List Char)
    {c : Char}
    (blank : isspace c = true) :
    strip (text ++ [c]) = strip text := by
  unfold strip
  rw [List.dropWhile_append]
  split
  · next allBlank =>
    rw [List.isEmpty_iff] at allBlank
    rw [allBlank, List.dropWhile_cons_of_pos blank]
    rfl
  · exact List.rdropWhile_concat_pos _ _ _ blank

/-- A text that starts and ends with characters that are no blanks stays as it
is. -/
theorem strip_of_ends
    {text : List Char}
    (starts : ∀ c ∈ text.head?, isspace c = false)
    (ends : ∀ c ∈ text.getLast?, isspace c = false) :
    strip text = text := by
  cases text with
  | nil => rfl
  | cons c text =>
    rw [strip_cons_of_printed (starts c rfl), List.rdropWhile_eq_self_iff]
    intro nonempty blank
    have last := ends _ (List.getLast?_eq_some_getLast nonempty)
    rw [last] at blank
    cases blank

theorem strip_cons
    {c : Char}
    (blank : isspace c = true)
    (text : List Char) :
    strip (c :: text) = strip text := by
  rw [strip, List.dropWhile_cons_of_pos blank]
  rfl

theorem mem_of_mem_strip
    {text : List Char}
    {c : Char}
    (membership : c ∈ strip text) :
    c ∈ text :=
  (List.dropWhile_suffix _).subset
    ((List.rdropWhile_prefix _ _).subset membership)

theorem strip_of_printed
    {text : List Char}
    (printed : ∀ c ∈ text, isspace c = false) :
    strip text = text :=
  strip_of_ends (fun c first => printed c (List.mem_of_head? first))
    (fun c last => printed c (List.mem_of_getLast? last))

theorem head?_rdropWhile_cons
    {c : Char}
    (printed : isspace c = false)
    (text : List Char) :
    ((c :: text).rdropWhile isspace).head? = some c := by
  induction text using List.reverseRecOn with
  | nil => simp [List.rdropWhile_singleton, printed]
  | append_singleton text d inductionHypothesis =>
    rw [← List.cons_append]
    by_cases blank : isspace d = true
    · rw [List.rdropWhile_concat_pos _ _ _ blank]
      exact inductionHypothesis
    · rw [List.rdropWhile_concat_neg _ _ _ blank]
      rfl

/-- A line that starts with a printed character still does when stripped. -/
theorem head?_strip_cons
    {c : Char}
    (printed : isspace c = false)
    (text : List Char) :
    (strip (c :: text)).head? = some c := by
  rw [strip_cons_of_printed printed]
  exact head?_rdropWhile_cons printed text

/-! ## Lines and parts -/

theorem lines_line
    {line : List Char}
    (oneLine : '\n' ∉ line)
    (text : List Char) :
    lines (line ++ '\n' :: text) = (line ++ ['\n']) :: lines text := by
  induction line with
  | nil => rfl
  | cons c line inductionHypothesis =>
    have rest := inductionHypothesis (List.not_mem_of_not_mem_cons oneLine)
    have notNewline : c ≠ '\n' := (List.ne_of_not_mem_cons oneLine).symm
    rw [List.cons_append, lines, if_neg notNewline, rest]
    rfl

/-- Written lines come apart again. -/
theorem lines_flatMap
    {written : List (List Char)}
    (oneLine : ∀ line ∈ written, '\n' ∉ line)
    (text : List Char) :
    lines (written.flatMap (· ++ ['\n']) ++ text) =
      written.map (· ++ ['\n']) ++ lines text := by
  induction written with
  | nil => rfl
  | cons line written inductionHypothesis =>
    obtain ⟨first, others⟩ := List.forall_mem_cons.mp oneLine
    have rest := inductionHypothesis others
    rw [List.flatMap_cons, List.append_assoc, List.append_assoc,
      List.singleton_append, lines_line first, rest]
    rfl

/-- The lines are the whole text. -/
theorem flatten_lines (text : List Char) : (lines text).flatten = text := by
  induction text with
  | nil => rfl
  | cons c text inductionHypothesis =>
    rw [lines]
    split
    · next newline => simp [inductionHypothesis, newline]
    · cases rest : lines text with
      | nil =>
        rw [rest] at inductionHypothesis
        simp [← inductionHypothesis]
      | cons line others =>
        rw [rest] at inductionHypothesis
        simp [← inductionHypothesis]

/-- A line has its newline at the end only. -/
theorem newline_notMem_dropLast
    {text line : List Char}
    (membership : line ∈ lines text) :
    '\n' ∉ line.dropLast := by
  induction text generalizing line with
  | nil => cases membership
  | cons c text inductionHypothesis =>
    rw [lines] at membership
    split at membership
    · rcases List.mem_cons.mp membership with rfl | later
      · decide
      · exact inductionHypothesis later
    · next notNewline =>
      cases rest : lines text with
      | nil =>
        rw [rest, List.mem_singleton] at membership
        rw [membership]
        exact List.not_mem_nil
      | cons first others =>
        rw [rest] at membership inductionHypothesis
        rcases List.mem_cons.mp membership with rfl | later
        · have tail := inductionHypothesis List.mem_cons_self
          cases first with
          | nil => exact List.not_mem_nil
          | cons d first =>
            exact List.not_mem_cons_of_ne_of_not_mem (Ne.symm notNewline) tail
        · exact inductionHypothesis (List.mem_cons_of_mem _ later)

/-- A newline at the end is stripped. -/
theorem newline_notMem_strip
    {line : List Char}
    (atEnd : '\n' ∉ line.dropLast) :
    '\n' ∉ strip line := by
  rcases List.eq_nil_or_concat' line with rfl | ⟨content, c, rfl⟩
  · exact List.not_mem_nil
  · rw [List.dropLast_concat] at atEnd
    by_cases newline : c = '\n'
    · rw [newline, strip_concat _ (by decide)]
      exact fun membership => atEnd (mem_of_mem_strip membership)
    · intro membership
      rcases List.mem_append.mp (mem_of_mem_strip membership) with within | last
      · exact atEnd within
      · exact newline (List.mem_singleton.mp last).symm

theorem partition_append_cons
    {separator : Char}
    {before : List Char}
    (absent : separator ∉ before)
    (behind : List Char) :
    partition separator (before ++ separator :: behind) = (before, behind) := by
  have pass : ∀ c ∈ before, decide (c ≠ separator) = true := by
    intro c membership
    exact decide_eq_true fun same => absent (same ▸ membership)
  rw [partition, List.takeWhile_append_of_pos pass,
    List.dropWhile_append_of_pos pass]
  simp

/-- The characters of a printed number. -/
theorem code_of_mem_decimal
    {n : ℕ}
    {c : Char}
    (membership : c ∈ asciiChars (decimal n)) :
    48 ≤ c.toNat ∧ c.toNat ≤ 57 := by
  obtain ⟨b, b_mem, rfl⟩ := List.mem_map.mp membership
  have digit := isdigit_of_mem_decimal b_mem
  simp only [isdigit, Bool.and_eq_true, decide_eq_true_eq,
    UInt8.le_iff_toNat_le, UInt8.reduceToNat] at digit
  rw [toNat_ofNat_toNat]
  exact digit

theorem naturalNumber_decimal (n : ℕ) :
    naturalNumber (asciiChars (decimal n)) = some n := by
  have noUnderscore : ∀ c ∈ asciiChars (decimal n), (c == '_') = false := by
    intro c membership
    rw [beq_eq_false_iff_ne]
    rintro rfl
    exact absurd (code_of_mem_decimal membership) (by decide)
  have digits : (asciiChars (decimal n)).all Char.isDigit = true := by
    rw [List.all_eq_true]
    intro c membership
    have code := code_of_mem_decimal membership
    simp only [Char.isDigit, Bool.and_eq_true, decide_eq_true_eq,
      UInt32.le_iff_toNat_le, ge_iff_le]
    exact code
  have nonempty : asciiChars (decimal n) ≠ [] := by
    simpa [asciiChars] using decimal_ne_nil n
  have single : (asciiChars (decimal n)).splitOn '_' =
      [asciiChars (decimal n)] := List.splitOnP_eq_singleton noUnderscore
  simp [naturalNumber, single, nonempty, digits, digitsValue_asciiChars,
    value_decimal]

/-- `int` reads what was printed. -/
theorem int_decimal (n : ℕ) : int (asciiChars (decimal n)) = some (n : Int) := by
  have printed : ∀ c ∈ asciiChars (decimal n), isspace c = false := by
    intro c membership
    have code := code_of_mem_decimal membership
    exact isspace_eq_false (by omega) (by omega)
  obtain ⟨d, ds, chars⟩ : ∃ d ds, asciiChars (decimal n) = d :: ds := by
    apply List.exists_cons_of_ne_nil
    simpa [asciiChars] using decimal_ne_nil n
  have first := code_of_mem_decimal (n := n) (c := d)
    (chars ▸ List.mem_cons_self)
  have number := naturalNumber_decimal n
  rw [int, strip_of_printed printed]
  rw [chars] at number ⊢
  split
  · next minus =>
    rw [(List.cons.inj minus).1] at first
    exact absurd first (by decide)
  · next plus =>
    rw [(List.cons.inj plus).1] at first
    exact absurd first (by decide)
  · rw [number]
    rfl

end PythonText
end Library
