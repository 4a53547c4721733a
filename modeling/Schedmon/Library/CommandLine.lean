import Mathlib.Data.List.TakeWhile
import Mathlib.Data.Int.Order.Lemmas
import Schedmon.Library.CString

/-!
# Words and signed numbers in C strings

`strtok_r` with one delimiter, `strtol` and `atoi`, and what they make of a text
that a zero ends.
-/

namespace Library
namespace CString

open Decimal

/-- `strtok_r` on what is left of a text: the next token, and what it leaves. -/
def strtok (delimiter : UInt8) (text : List UInt8) : Option (List UInt8 × List UInt8) :=
  let start := text.dropWhile (· == delimiter)
  if start = [] then none
  else some (start.takeWhile (· != delimiter), (start.dropWhile (· != delimiter)).drop 1)

/-- The tokens that a number of calls find. -/
def tokensFrom (delimiter : UInt8) : ℕ → List UInt8 → List (List UInt8)
  | 0, _ => []
  | fuel + 1, text =>
      match strtok delimiter text with
      | none => []
      | some (token, rest) => token :: tokensFrom delimiter fuel rest

/-- The tokens up to the call that finds none. -/
def tokens (delimiter : UInt8) (text : List UInt8) : List (List UInt8) :=
  tokensFrom delimiter text.length text

/-- The nearest `long`. -/
def clampLong (n : Int) : Int := max (-(2 ^ 63)) (min n (2 ^ 63 - 1))

/-- The number of a sign and digits. -/
def signedValue (minus : Bool) (digits : List UInt8) : Int :=
  if minus then -(value digits : Int) else value digits

/-- `strtol(p, &end, 10)`: its value, and `end`. -/
def strtol (p : List UInt8) : Option (Int × List UInt8) := do
  let (_, signed) ← spanWhile isspace p
  let (minus, number) ← readSign signed
  let (digits, rest) ← spanWhile isdigit number
  if digits = [] then return (0, p)
  else return (clampLong (signedValue minus digits), rest)

/-- `atoi`, which keeps the low half of the `long`. -/
def atoi (p : List UInt8) : Option Int32 := do
  let (n, _) ← strtol p
  return Int32.ofInt n

/-! ## Tokens -/

theorem strtok_length
    {delimiter : UInt8}
    {text token rest : List UInt8}
    (found : strtok delimiter text = some (token, rest)) :
    rest.length < text.length := by
  unfold strtok at found
  dsimp only at found
  split at found
  · cases found
  · next nonempty =>
      obtain ⟨-, rfl⟩ := Prod.mk.inj (Option.some.inj found)
      have start := (List.dropWhile_sublist (· == delimiter) (l := text)).length_le
      have positive := List.length_pos_iff.mpr nonempty
      have left := (List.dropWhile_sublist (· != delimiter)
        (l := text.dropWhile (· == delimiter))).length_le
      rw [List.length_drop]
      omega

/-- Splitting a text that starts with delimiters leaves empty parts. -/
theorem filter_splitOn_dropWhile
    (delimiter : UInt8)
    (text : List UInt8) :
    (text.splitOn delimiter).filter (· ≠ []) =
      ((text.dropWhile (· == delimiter)).splitOn delimiter).filter (· ≠ []) := by
  induction text with
  | nil => rfl
  | cons c text inductionHypothesis =>
      rw [List.dropWhile_cons, List.splitOn_cons_eq_if_modifyHead]
      split
      · rw [List.filter_cons_of_neg (by simp), inductionHypothesis]
      · next other =>
          rw [List.splitOn_cons_eq_if_modifyHead, if_neg other]

/-- Splitting a text that does not start with a delimiter. -/
theorem filter_splitOn_of_head
    {delimiter : UInt8}
    {start : List UInt8}
    (nonempty : start ≠ [])
    (other : start.head nonempty ≠ delimiter) :
    (start.splitOn delimiter).filter (· ≠ []) =
      start.takeWhile (· != delimiter) ::
        ((((start.dropWhile (· != delimiter)).drop 1).splitOn delimiter).filter
          (· ≠ [])) := by
  have parts := List.takeWhile_append_dropWhile (p := (· != delimiter)) (l := start)
  have token : delimiter ∉ start.takeWhile (· != delimiter) := by
    intro member
    simpa using List.mem_takeWhile_imp member
  have tokenSome : start.takeWhile (· != delimiter) ≠ [] := by
    obtain ⟨c, rest, rfl⟩ := List.exists_cons_of_ne_nil nonempty
    have keeps : (c != delimiter) = true := bne_iff_ne.mpr other
    rw [List.takeWhile_cons, if_pos keeps]
    exact List.cons_ne_nil _ _
  cases tail : start.dropWhile (· != delimiter) with
  | nil =>
      rw [tail, List.append_nil] at parts
      rw [parts] at token ⊢
      rw [List.splitOn_eq_singleton token,
        List.filter_cons, if_pos (decide_eq_true nonempty)]
      rfl
  | cons c after =>
      have stop : c = delimiter := by
        have head := List.head_dropWhile_not (· != delimiter) (l := start)
          (by rw [tail]; exact List.cons_ne_nil _ _)
        simpa [tail] using head
      rw [tail, stop] at parts
      generalize start.takeWhile (· != delimiter) = word at *
      rw [← parts, List.splitOn_append_cons_self_of_not_mem token,
        List.filter_cons, if_pos (decide_eq_true tokenSome)]
      rfl

/-- The tokens are the parts between the delimiters that are not empty. -/
theorem tokens_eq_splitOn
    (delimiter : UInt8)
    (text : List UInt8) :
    tokens delimiter text = (text.splitOn delimiter).filter (· ≠ []) := by
  have fueled (fuel : ℕ) (text : List UInt8) (enough : text.length ≤ fuel) :
      tokensFrom delimiter fuel text = (text.splitOn delimiter).filter (· ≠ []) := by
    induction fuel generalizing text with
    | zero =>
        rw [List.length_eq_zero_iff.mp (Nat.le_zero.mp enough)]
        rfl
    | succ fuel inductionHypothesis =>
        rw [filter_splitOn_dropWhile]
        unfold tokensFrom
        cases found : strtok delimiter text with
        | none =>
            unfold strtok at found
            dsimp only at found
            split at found
            · next empty =>
                rw [empty]
                rfl
            · cases found
        | some result =>
            obtain ⟨token, rest⟩ := result
            have shorter := strtok_length found
            dsimp only
            rw [inductionHypothesis rest (by omega)]
            unfold strtok at found
            dsimp only at found
            split at found
            · cases found
            · next nonempty =>
                obtain ⟨rfl, rfl⟩ := Prod.mk.inj (Option.some.inj found)
                have head := List.head_dropWhile_not (· == delimiter) nonempty
                exact (filter_splitOn_of_head nonempty (by simpa using head)).symm
  exact fueled text.length text le_rfl

/-- Words with a delimiter between them are the tokens. -/
theorem tokens_intercalate
    {delimiter : UInt8}
    {words : List (List UInt8)}
    (plain : ∀ word ∈ words, word ≠ [] ∧ delimiter ∉ word) :
    tokens delimiter ([delimiter].intercalate words) = words := by
  rw [tokens_eq_splitOn]
  cases words with
  | nil => rfl
  | cons word words =>
      rw [List.splitOn_intercalate _ (fun part member => (plain part member).2)
        (List.cons_ne_nil _ _), List.filter_eq_self]
      exact fun part member => decide_eq_true (plain part member).1

/-- No byte comes into the tokens. -/
theorem mem_of_mem_tokens
    {delimiter c : UInt8}
    {text token : List UInt8}
    (listed : token ∈ tokens delimiter text)
    (member : c ∈ token) :
    c ∈ text := by
  have fueled (fuel : ℕ) (text : List UInt8)
      (listed : token ∈ tokensFrom delimiter fuel text) : c ∈ text := by
    induction fuel generalizing text with
    | zero => cases listed
    | succ fuel inductionHypothesis =>
        unfold tokensFrom strtok at listed
        dsimp only at listed
        split at listed
        · cases listed
        · next first rest found =>
            split at found
            · cases found
            · obtain ⟨rfl, rfl⟩ := Prod.mk.inj (Option.some.inj found)
              apply (List.dropWhile_sublist (· == delimiter)).subset
              rcases List.mem_cons.mp listed with rfl | later
              · exact (List.takeWhile_sublist _).subset member
              · exact (List.dropWhile_sublist _).subset
                  (List.mem_of_mem_drop (inductionHypothesis _ later))
  exact fueled text.length text listed

/-! ## Numbers -/

/-- A sign, which is a minus or not, and what follows. -/
def splitSign (text : List UInt8) : Bool × List UInt8 :=
  match text with
  | [] => (false, [])
  | c :: rest =>
      if c = 45 then (true, rest)
      else if c = 43 then (false, rest)
      else (false, c :: rest)

/-- The number at the start of a text, after blanks and a sign, and what follows. -/
def scanInt (text : List UInt8) : Option (Int × List UInt8) :=
  let (minus, number) := splitSign (text.dropWhile isspace)
  if number.takeWhile isdigit = [] then none
  else some (signedValue minus (number.takeWhile isdigit), number.dropWhile isdigit)

theorem splitSign_suffix (text : List UInt8) : (splitSign text).2 <:+ text := by
  cases text with
  | nil => exact List.suffix_rfl
  | cons c rest =>
      unfold splitSign
      dsimp only
      split
      · exact List.suffix_cons c rest
      · split
        · exact List.suffix_cons c rest
        · exact List.suffix_rfl

/-- What follows a number is shorter than the text. -/
theorem scanInt_rest
    {text rest : List UInt8}
    {n : Int}
    (found : scanInt text = some (n, rest)) :
    rest <:+ text ∧ rest ≠ text := by
  have number := (splitSign_suffix (text.dropWhile isspace)).trans
    (List.dropWhile_suffix isspace)
  unfold scanInt at found
  dsimp only at found
  generalize (splitSign (text.dropWhile isspace)).2 = digits at found number
  split at found
  · cases found
  · next some =>
      obtain ⟨-, rfl⟩ := Prod.mk.inj (Option.some.inj found)
      refine ⟨(List.dropWhile_suffix isdigit).trans number, fun same => ?_⟩
      have parts := congrArg List.length
        (List.takeWhile_append_dropWhile (p := isdigit) (l := digits))
      have positive := List.length_pos_iff.mpr some
      have within := number.length_le
      rw [List.length_append, same] at parts
      omega

theorem clampLong_of_mem
    {n : Int}
    (low : -(2 ^ 63) ≤ n)
    (high : n < 2 ^ 63) :
    clampLong n = n := by
  unfold clampLong
  omega

theorem spanWhile_terminated
    (test : UInt8 → Bool)
    (stops : test 0 = false)
    (text beyond : List UInt8) :
    spanWhile test (text ++ 0 :: beyond) =
      some (text.takeWhile test, text.dropWhile test ++ 0 :: beyond) := by
  induction text with
  | nil => simp [spanWhile, stops]
  | cons c text inductionHypothesis =>
      rw [List.cons_append, spanWhile]
      by_cases passes : test c = true
      · rw [if_pos passes, inductionHypothesis, List.takeWhile_cons_of_pos passes,
          List.dropWhile_cons_of_pos passes]
        rfl
      · rw [if_neg passes, List.takeWhile_cons_of_neg passes,
          List.dropWhile_cons_of_neg passes]
        rfl

theorem readSign_terminated (text beyond : List UInt8) :
    readSign (text ++ 0 :: beyond) =
      some ((splitSign text).1, (splitSign text).2 ++ 0 :: beyond) := by
  cases text with
  | nil => rfl
  | cons c rest =>
      rw [List.cons_append, readSign, splitSign]
      split
      · rfl
      · split
        · rfl
        · rfl

/-- `strtol` of a text that a zero ends stays in it, whatever lies behind. -/
theorem strtol_terminated (text beyond : List UInt8) :
    strtol (text ++ 0 :: beyond) =
      some (match scanInt text with
        | none => (0, text ++ 0 :: beyond)
        | some (n, rest) => (clampLong n, rest ++ 0 :: beyond)) := by
  have blanks := spanWhile_terminated isspace rfl text beyond
  have sign := readSign_terminated (text.dropWhile isspace) beyond
  have digits := spanWhile_terminated isdigit rfl
    (splitSign (text.dropWhile isspace)).2 beyond
  unfold strtol scanInt
  rw [blanks, Option.bind_eq_bind, Option.bind_some]
  dsimp only
  rw [sign, Option.bind_eq_bind, Option.bind_some]
  dsimp only
  rw [digits, Option.bind_some]
  dsimp only
  split
  · rfl
  · rfl

/-- What `atoi` makes of a text, which is zero without a number. -/
def atoiText (text : List UInt8) : Int32 :=
  match scanInt text with
  | none => 0
  | some (n, _) => Int32.ofInt (clampLong n)

theorem atoi_terminated (text beyond : List UInt8) :
    atoi (text ++ 0 :: beyond) = some (atoiText text) := by
  unfold atoi atoiText
  rw [strtol_terminated, Option.bind_eq_bind, Option.bind_some]
  cases scanInt text with
  | none => rfl
  | some result => rfl

/-- A number in decimal is all of the text. -/
theorem scanInt_decimal (n : ℕ) : scanInt (decimal n) = some ((n : Int), []) := by
  obtain ⟨d, ds, printed⟩ := List.exists_cons_of_ne_nil (decimal_ne_nil n)
  have digits : ∀ c ∈ decimal n, isdigit c = true := fun _ => isdigit_of_mem_decimal
  have first : isdigit d = true := digits d (printed ▸ List.mem_cons_self)
  have noBlank : (decimal n).dropWhile isspace = decimal n := by
    rw [printed, List.dropWhile_cons, isspace_eq_false first]
    rfl
  have noSign : splitSign (decimal n) = (false, decimal n) := by
    have reads := readSign_digit first (ds ++ [0])
    rw [← List.cons_append, ← printed, readSign_terminated] at reads
    obtain ⟨minus, number⟩ := Prod.mk.inj (Option.some.inj reads)
    exact Prod.ext minus (List.append_cancel_right number)
  unfold scanInt
  rw [noBlank, noSign]
  dsimp only
  rw [List.takeWhile_eq_self_iff.mpr digits, List.dropWhile_eq_nil_iff.mpr digits,
    if_neg (decimal_ne_nil n), signedValue, value_decimal]
  rfl

end CString
end Library
