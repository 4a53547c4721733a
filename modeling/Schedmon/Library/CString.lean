import Schedmon.Library.Decimal

/-!
# C strings read through pointers

A pointer into a buffer is the list of the cells from it on.  Reading a cell
beyond the buffer has no outcome, so an outcome says that every cell read was
there.  A string ends at its first zero.
-/

namespace Library
namespace CString

open Decimal

/-- `isspace`. -/
def isspace (c : UInt8) : Bool :=
  c = 32 || (9 ≤ c && c ≤ 13)

/-- Advance a pointer as long as the cell it points to passes the test: the
cells passed, and the pointer reached. -/
def spanWhile (test : UInt8 → Bool) :
    List UInt8 → Option (List UInt8 × List UInt8)
  | [] => none
  | c :: cells =>
      if test c then do
        let (passed, reached) ← spanWhile test cells
        return (c :: passed, reached)
      else some ([], c :: cells)

/-- `strncmp(p, key, strlen(key)) == 0`. -/
def hasKey : List UInt8 → List UInt8 → Option Bool
  | [], _ => some true
  | _ :: _, [] => none
  | k :: key, c :: cells =>
      if c = k then hasKey key cells else some false

/-- `strchr`. -/
def strchr (sought : UInt8) (p : List UInt8) :
    Option (Option (List UInt8)) := do
  let (_, reached) ← spanWhile (fun c => c ≠ sought && c ≠ 0) p
  return if reached.head? = some sought then some reached else none

/-- `strrchr`. -/
def strrchr (sought : UInt8) : List UInt8 → Option (Option (List UInt8))
  | [] => none
  | c :: cells =>
      if c = 0 then some (if sought = 0 then some (c :: cells) else none)
      else do
        let later ← strrchr sought cells
        return later.or (if c = sought then some (c :: cells) else none)

/-- Read an optional sign, and whether it was a minus. -/
def readSign : List UInt8 → Option (Bool × List UInt8)
  | [] => none
  | c :: cells =>
      if c = 45 then some (true, cells)
      else if c = 43 then some (false, cells)
      else some (false, c :: cells)

/-- The value `strtoull` gives a run of digits: the greatest one where they are
too many, and the negated one after a minus. -/
def unsignedValue (minus : Bool) (digits : List UInt8) : UInt64 :=
  if value digits ≥ 2 ^ 64 then 18446744073709551615
  else if minus then 0 - UInt64.ofNat (value digits)
  else UInt64.ofNat (value digits)

/-- `strtoull(p, &end, 10)`: its value, and `end`. -/
def strtoull (p : List UInt8) : Option (UInt64 × List UInt8) := do
  let (_, signed) ← spanWhile isspace p
  let (minus, number) ← readSign signed
  let (digits, rest) ← spanWhile isdigit number
  if digits = [] then return (0, p)
  else return (unsignedValue minus digits, rest)

/-- `fgets` into a buffer of the given size, at the start of what is left of the
stream: the bytes it stores before the zero. -/
def fgets (size : ℕ) (stream : List UInt8) : List UInt8 :=
  let chunk := stream.take (size - 1)
  chunk.takeWhile (· ≠ 10) ++ (chunk.dropWhile (· ≠ 10)).take 1

/-! ## Reading stays within a terminated string -/

/-- Whatever lies behind the zero that ends the text, the function has an
outcome, and the pointer it returns is still in the text. -/
def Within
    {α : Type*}
    (read : List UInt8 → Option (α × List UInt8)) : Prop :=
  ∀ text, ∃ outcome left, left <:+ text ∧
    ∀ beyond, read (text ++ 0 :: beyond) = some (outcome, left ++ 0 :: beyond)

theorem spanWhile_within
    (test : UInt8 → Bool)
    (stops : test 0 = false) :
    Within (spanWhile test) := by
  intro text
  induction text with
  | nil =>
    exact ⟨[], [], List.suffix_rfl, fun beyond => by simp [spanWhile, stops]⟩
  | cons c text inductionHypothesis =>
    obtain ⟨passed, left, suffix, reads⟩ := inductionHypothesis
    by_cases passes : test c = true
    · refine ⟨c :: passed, left, suffix.trans (List.suffix_cons c text), ?_⟩
      intro beyond
      rw [List.cons_append, spanWhile, if_pos passes, reads beyond]
      rfl
    · refine ⟨[], c :: text, List.suffix_rfl, fun beyond => ?_⟩
      rw [List.cons_append, spanWhile, if_neg passes]

theorem hasKey_within
    {key : List UInt8}
    (nonzero : 0 ∉ key)
    (text : List UInt8) :
    ∃ found, (found = true → key.length ≤ text.length) ∧
      ∀ beyond, hasKey key (text ++ 0 :: beyond) = some found := by
  induction key generalizing text with
  | nil =>
    exact ⟨true, fun _ => Nat.zero_le _, fun beyond => by simp [hasKey]⟩
  | cons k key inductionHypothesis =>
    have k_ne_zero : 0 ≠ k := List.ne_of_not_mem_cons nonzero
    have key_nonzero : 0 ∉ key := List.not_mem_of_not_mem_cons nonzero
    cases text with
    | nil =>
      exact ⟨false, fun isFound => (Bool.false_ne_true isFound).elim,
        fun beyond => by simp [hasKey, k_ne_zero]⟩
    | cons c text =>
      by_cases same : c = k
      · obtain ⟨found, fits, compares⟩ := inductionHypothesis key_nonzero text
        refine ⟨found, fun isFound => Nat.succ_le_succ (fits isFound), ?_⟩
        intro beyond
        rw [List.cons_append, hasKey, if_pos same, compares beyond]
      · refine ⟨false, fun isFound => (Bool.false_ne_true isFound).elim, ?_⟩
        intro beyond
        rw [List.cons_append, hasKey, if_neg same]

theorem readSign_within : Within readSign := by
  intro text
  cases text with
  | nil => exact ⟨false, [], List.suffix_rfl, fun beyond => rfl⟩
  | cons c text =>
    by_cases isMinus : c = 45
    · exact ⟨true, text, List.suffix_cons c text, fun beyond => if_pos isMinus⟩
    · by_cases isPlus : c = 43
      · exact ⟨false, text, List.suffix_cons c text, fun beyond =>
          (if_neg isMinus).trans (if_pos isPlus)⟩
      · exact ⟨false, c :: text, List.suffix_rfl, fun beyond =>
          (if_neg isMinus).trans (if_neg isPlus)⟩

theorem strtoull_within : Within strtoull := by
  intro text
  obtain ⟨spaces, signed, signed_suffix, readSpaces⟩ :=
    spanWhile_within isspace rfl text
  obtain ⟨minus, number, number_suffix, readMinus⟩ := readSign_within signed
  obtain ⟨digits, rest, rest_suffix, readDigits⟩ :=
    spanWhile_within isdigit rfl number
  by_cases empty : digits = []
  · refine ⟨0, text, List.suffix_rfl, fun beyond => ?_⟩
    simp [strtoull, readSpaces, readMinus, readDigits, empty]
  · refine ⟨unsignedValue minus digits, rest,
      (rest_suffix.trans number_suffix).trans signed_suffix, fun beyond => ?_⟩
    simp [strtoull, readSpaces, readMinus, readDigits, empty]

/-! ## Reading what was printed -/

theorem spanWhile_append
    {test : UInt8 → Bool}
    {passed : List UInt8}
    (pass : ∀ c ∈ passed, test c = true)
    {c : UInt8}
    (stop : test c = false)
    (cells : List UInt8) :
    spanWhile test (passed ++ c :: cells) = some (passed, c :: cells) := by
  induction passed with
  | nil => simp [spanWhile, stop]
  | cons d passed inductionHypothesis =>
    have rest := inductionHypothesis fun e e_mem =>
      pass e (List.mem_cons_of_mem d e_mem)
    rw [List.cons_append, spanWhile, if_pos (pass d List.mem_cons_self), rest]
    rfl

theorem isspace_eq_false
    {c : UInt8}
    (isDigit : isdigit c = true) :
    isspace c = false := by
  simp only [isdigit, Bool.and_eq_true, decide_eq_true_eq,
    UInt8.le_iff_toNat_le, UInt8.reduceToNat] at isDigit
  simp only [isspace, Bool.or_eq_false_iff, Bool.and_eq_false_imp,
    decide_eq_true_eq, decide_eq_false_iff_not, ← UInt8.toNat_inj,
    UInt8.le_iff_toNat_le, UInt8.reduceToNat]
  omega

theorem readSign_digit
    {c : UInt8}
    (isDigit : isdigit c = true)
    (cells : List UInt8) :
    readSign (c :: cells) = some (false, c :: cells) := by
  simp only [isdigit, Bool.and_eq_true, decide_eq_true_eq,
    UInt8.le_iff_toNat_le, UInt8.reduceToNat] at isDigit
  have notMinus : c ≠ 45 := by
    rintro rfl
    simp at isDigit
  have notPlus : c ≠ 43 := by
    rintro rfl
    simp at isDigit
  rw [readSign, if_neg notMinus, if_neg notPlus]

/-- A printed number is read after blanks, up to the next cell that holds no
digit. -/
theorem strtoull_decimal
    (spaces : List UInt8)
    (blank : ∀ c ∈ spaces, isspace c = true)
    (n : UInt64)
    {c : UInt8}
    (stop : isdigit c = false)
    (cells : List UInt8) :
    strtoull (spaces ++ (decimal n.toNat ++ c :: cells)) =
      some (n, c :: cells) := by
  obtain ⟨d, ds, printed⟩ := List.exists_cons_of_ne_nil (decimal_ne_nil n.toNat)
  have d_digit : isdigit d = true := by
    apply isdigit_of_mem_decimal (n := n.toNat)
    rw [printed]
    exact List.mem_cons_self
  have readSpaces := spanWhile_append blank (isspace_eq_false d_digit)
    (ds ++ c :: cells)
  have readDigits := spanWhile_append
    (fun e e_mem => isdigit_of_mem_decimal (n := n.toNat) e_mem) stop cells
  have noSign := readSign_digit d_digit (ds ++ c :: cells)
  have small : ¬ n.toNat ≥ 2 ^ 64 := not_le.mpr n.toNat_lt
  have number : unsignedValue false (decimal n.toNat) = n := by
    rw [unsignedValue, value_decimal, if_neg small]
    exact UInt64.ofNat_toNat
  have split : decimal n.toNat ++ c :: cells = d :: (ds ++ c :: cells) := by
    rw [printed, List.cons_append]
  rw [split] at readDigits ⊢
  simp [strtoull, readSpaces, noSign, readDigits, decimal_ne_nil, number]

theorem hasKey_self (key : List UInt8) : hasKey key key = some true := by
  induction key with
  | nil => rfl
  | cons k key inductionHypothesis =>
    rw [hasKey, if_pos rfl, inductionHypothesis]

/-- A comparison that ends within the first cells does not read the others. -/
theorem hasKey_append
    {key cells : List UInt8}
    {found : Bool}
    (compares : hasKey key cells = some found)
    (others : List UInt8) :
    hasKey key (cells ++ others) = some found := by
  induction key generalizing cells with
  | nil => exact compares
  | cons k key inductionHypothesis =>
    cases cells with
    | nil => cases compares
    | cons c cells =>
      rw [hasKey] at compares
      rw [List.cons_append, hasKey]
      split at compares
      · next same =>
        rw [if_pos same]
        exact inductionHypothesis compares
      · next differs =>
        rw [if_neg differs]
        exact compares

/-! ## Searching a string -/

/-- `strchr` finds the first occurrence. -/
theorem strchr_first
    {sought : UInt8}
    {passed : List UInt8}
    (absent : sought ∉ passed)
    (nonzero : 0 ∉ passed)
    (cells : List UInt8) :
    strchr sought (passed ++ sought :: cells) = some (some (sought :: cells)) := by
  have pass : ∀ c ∈ passed, (decide (c ≠ sought) && decide (c ≠ 0)) = true := by
    intro c membership
    have notSought : c ≠ sought := fun same => absent (same ▸ membership)
    have notZero : c ≠ 0 := fun same => nonzero (same ▸ membership)
    simp [notSought, notZero]
  have reads := spanWhile_append (c := sought) pass (by simp) cells
  unfold strchr
  rw [reads]
  simp

/-- `strrchr` finds nothing in a string without the byte. -/
theorem strrchr_absent
    {sought : UInt8}
    (sought_ne_zero : sought ≠ 0)
    {text : List UInt8}
    (absent : sought ∉ text)
    (nonzero : 0 ∉ text)
    (beyond : List UInt8) :
    strrchr sought (text ++ 0 :: beyond) = some none := by
  induction text with
  | nil => simp [strrchr, sought_ne_zero]
  | cons c text inductionHypothesis =>
    have later := inductionHypothesis (List.not_mem_of_not_mem_cons absent)
      (List.not_mem_of_not_mem_cons nonzero)
    have notSought : c ≠ sought := (List.ne_of_not_mem_cons absent).symm
    have notZero : c ≠ 0 := (List.ne_of_not_mem_cons nonzero).symm
    simp [strrchr, notZero, notSought, later]

/-- `strrchr` finds the last occurrence. -/
theorem strrchr_last
    {sought : UInt8}
    (sought_ne_zero : sought ≠ 0)
    {passed text : List UInt8}
    (passed_nonzero : 0 ∉ passed)
    (absent : sought ∉ text)
    (nonzero : 0 ∉ text)
    (beyond : List UInt8) :
    strrchr sought (passed ++ sought :: (text ++ 0 :: beyond)) =
      some (some (sought :: (text ++ 0 :: beyond))) := by
  induction passed with
  | nil =>
    have later := strrchr_absent sought_ne_zero absent nonzero beyond
    simp [strrchr, sought_ne_zero, later]
  | cons c passed inductionHypothesis =>
    have later := inductionHypothesis
      (List.not_mem_of_not_mem_cons passed_nonzero)
    have notZero : c ≠ 0 := (List.ne_of_not_mem_cons passed_nonzero).symm
    simp [strrchr, notZero, later]

/-- What `strrchr` finds is a place in the string where the byte stands. -/
theorem strrchr_found
    {sought : UInt8}
    {cells found : List UInt8}
    (searched : strrchr sought cells = some (some found)) :
    found <:+ cells ∧ found.head? = some sought := by
  induction cells with
  | nil => cases searched
  | cons c cells inductionHypothesis =>
    rw [strrchr] at searched
    split at searched
    · next terminated =>
      split at searched
      · next zero =>
        cases searched
        exact ⟨List.suffix_rfl, by rw [List.head?_cons, terminated, zero]⟩
      · cases searched
    · obtain ⟨later, searchedLater, chosen⟩ := Option.bind_eq_some_iff.mp searched
      cases later with
      | some other =>
        cases chosen
        obtain ⟨suffix, head⟩ := inductionHypothesis searchedLater
        exact ⟨suffix.trans (List.suffix_cons c cells), head⟩
      | none =>
        rw [Option.none_or] at chosen
        split at chosen
        · next same =>
          cases chosen
          exact ⟨List.suffix_rfl, by rw [List.head?_cons, same]⟩
        · cases chosen

/-! ## Reading a line -/

/-- A line that does not end in the first cells goes on behind them. -/
theorem fgets_append
    {size : ℕ}
    {front : List UInt8}
    (inLine : 10 ∉ front)
    (fits : front.length ≤ size - 1)
    (stream : List UInt8) :
    fgets size (front ++ stream) =
      front ++ fgets (size - front.length) stream := by
  have pass : ∀ c ∈ front, decide (c ≠ 10) = true := by
    intro c membership
    exact decide_eq_true fun same => inLine (same ▸ membership)
  have left : size - 1 - front.length = size - front.length - 1 := by omega
  simp only [fgets, List.take_append, List.take_of_length_le fits, left]
  rw [List.takeWhile_append_of_pos pass, List.dropWhile_append_of_pos pass,
    List.append_assoc]

/-- The newline ends the line and is stored. -/
theorem fgets_newline
    {size : ℕ}
    (room : 2 ≤ size)
    (stream : List UInt8) :
    fgets size (10 :: stream) = [10] := by
  obtain ⟨left, rfl⟩ : ∃ left, size = left + 2 := Nat.exists_eq_add_of_le' room
  simp [fgets]

/-- Only bytes of the stream are stored. -/
theorem fgets_subset (size : ℕ) (stream : List UInt8) :
    fgets size stream ⊆ stream := by
  intro c stored
  unfold fgets at stored
  apply List.mem_of_mem_take (i := size - 1)
  rcases List.mem_append.mp stored with inLine | isNewline
  · exact (List.takeWhile_sublist _).mem inLine
  · exact (List.dropWhile_sublist _).mem (List.mem_of_mem_take isNewline)

/-- A stream that starts with another byte than the newline. -/
theorem fgets_cons
    {size : ℕ}
    (room : 2 ≤ size)
    {c : UInt8}
    (inLine : c ≠ 10)
    (stream : List UInt8) :
    fgets size (c :: stream) = c :: fgets (size - 1) stream := by
  have fits : [c].length ≤ size - 1 := Nat.le_sub_one_of_lt room
  exact fgets_append (by simpa using inLine.symm) fits stream

end CString
end Library
