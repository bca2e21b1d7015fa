import Mathlib.Data.List.Chain
import Mathlib.Data.List.TakeWhile
import Hermeneutic.Book.PriceBands
import Hermeneutic.Core.DecimalString

/-!
# The band flags of the client

`--volume-thresholds=` and `--price-bps=` take a comma-separated list of integers
(`apps/aggregator/band_config.hpp`). Both parsers share one shape, `parseAscendingList`: split
at the commas, read each token, and require the values to be strictly increasing and in range.
They differ in the number reader, `from_decimal_string` with the point filtered out before it
and `std::from_chars` with the sign left to the range check after it.

`IsNumberList` is the grammar both are meant to share: one or more tokens of decimal digits.
`parseAscendingList_eq_some_iff` reads the shape once, from what one token and its range check
accept.

What a token means is said by its digits: `parseVolumeToken_iff` takes it to be a number in units
of the notional, `parseBpsToken_iff` one in basis points or a zero behind a minus sign
(`IsSignedZero`), and neither accepts a blank, a plus sign or an empty token. The order of the
tokens is checked on the values by the search for two neighbours out of order, of which a strictly
increasing list has none.
-/

namespace Hermeneutic

open BasicFixedPoint

/-- One more token than there are commas. -/
def splitCsv (csv : List Char) : List (List Char) := csv.splitOn ','

/-- Whether two adjacent elements satisfy `p`, as `std::ranges::adjacent_find` finds them. -/
def adjacentFind {α : Type*} (p : α → α → Bool) : List α → Bool
  | a :: b :: xs => p a b || adjacentFind p (b :: xs)
  | _ => false

/-- The shape of both parsers. -/
def parseAscendingList {α : Type} [LE α] [DecidableLE α] (csv : List Char)
    (parseToken : List Char → Option α) (extraValid : α → Bool) : Option (List α) := do
  let result ← (splitCsv csv).mapM fun token => if token.isEmpty then none else parseToken token
  if result.isEmpty then none
  else if adjacentFind (fun a b => a ≥ b) result then none
  else if !result.all extraValid then none
  else some result

/-- A token of `--volume-thresholds=`: no point, and then whatever the decimal parser takes. -/
def parseVolumeToken (token : List Char) : Option Notional :=
  if '.' ∈ token then none else (fromDecimalString 9 token).toOption

/-- Parses a `--volume-thresholds=` value. -/
def parseVolumeThresholds (csv : List Char) : Option (List Notional) :=
  parseAscendingList csv parseVolumeToken fun n => n.val > 0

/-- What `std::from_chars` reports: the value, which it leaves alone on an error, the
characters it did not consume, and the error. -/
structure FromCharsResult where
  value : Int32
  rest : List Char
  ec : Option Errc
  deriving DecidableEq, Repr

/-- `std::from_chars` for an `int`: an optional `-`, then as many digits as there are. -/
def fromChars (text : List Char) (value : Int32) : FromCharsResult :=
  let (negative, digits) := stripSign text
  let pattern := digits.takeWhile Char.isDigit
  if pattern.isEmpty then ⟨value, text, some .invalidArgument⟩
  else
    let rest := digits.dropWhile Char.isDigit
    let parsed : ℤ := if negative then -digitsValue pattern else digitsValue pattern
    if parsed < -2 ^ 31 || parsed > 2 ^ 31 - 1 then ⟨value, rest, some .resultOutOfRange⟩
    else ⟨Int32.ofInt parsed, rest, none⟩

/-- A token of `--price-bps=`: an `int`, consumed to its end. -/
def parseBpsToken (token : List Char) : Option Int32 :=
  let r := fromChars token 0
  if r.ec.isSome || !r.rest.isEmpty then none else some r.value

/-- Parses a `--price-bps=` value. -/
def parsePriceBps (csv : List Char) : Option (List Int32) :=
  parseAscendingList csv parseBpsToken fun bps => 0 ≤ bps && bps < kBpsDenominator

/-! ### The shared grammar -/

/-- A token of decimal digits and nothing else. -/
def IsNumber (token : List Char) : Prop := token ≠ [] ∧ AllDigits token

/-- One or more numbers, separated by commas. -/
def IsNumberList (csv : List Char) (numbers : List ℕ) : Prop :=
  ∃ tokens : List (List Char), tokens ≠ [] ∧ (∀ token ∈ tokens, IsNumber token) ∧
    [','].intercalate tokens = csv ∧ tokens.map digitsValue = numbers

private theorem comma_notMem_of_isNumber {token : List Char} (h : IsNumber token) : ',' ∉ token :=
  fun hmem => absurd (h.2 _ hmem) (by decide)

/-- A list of numbers is one whose tokens are numbers. -/
theorem isNumberList_iff {csv : List Char} {numbers : List ℕ} : IsNumberList csv numbers ↔
    (∀ token ∈ splitCsv csv, IsNumber token) ∧ (splitCsv csv).map digitsValue = numbers := by
  constructor
  · rintro ⟨tokens, hne, htokens, rfl, rfl⟩
    have hsplit : splitCsv ([','].intercalate tokens) = tokens :=
      List.splitOn_intercalate ',' (fun token h => comma_notMem_of_isNumber (htokens token h)) hne
    rw [hsplit]
    exact ⟨htokens, rfl⟩
  · rintro ⟨htokens, hvalues⟩
    exact ⟨splitCsv csv, List.splitOn_ne_nil ',' csv, htokens, List.intercalate_splitOn ',',
      hvalues⟩

/-! ### The shared shape -/

private theorem adjacentFind_eq_false_iff {α : Type*} {p : α → α → Bool} {xs : List α} :
    adjacentFind p xs = false ↔ xs.IsChain fun a b => p a b = false := by
  induction xs with
  | nil => simp [adjacentFind]
  | cons a xs ih =>
    cases xs with
    | nil => simp [adjacentFind]
    | cons b xs => rw [adjacentFind, Bool.or_eq_false_iff, ih, List.isChain_cons_cons]

section Shape

variable {α : Type} [LE α] [DecidableLE α] {csv : List Char} {parseToken : List Char → Option α}
  {extraValid : α → Bool} {result : List α}

/-- The loop, the order and the range. -/
private theorem parseAscendingList_eq_some :
    parseAscendingList csv parseToken extraValid = some result ↔
    List.Forall₂ (fun token value => (token ≠ [] ∧ parseToken token = some value) ∧
      extraValid value) (splitCsv csv) result ∧ result.IsChain fun a b => ¬b ≤ a := by
  have htoken : ∀ token value, (if token.isEmpty then none else parseToken token) = some value ↔
      token ≠ [] ∧ parseToken token = some value := by
    intro token value
    cases token <;> simp
  have hchain : adjacentFind (fun a b => decide (a ≥ b)) result = false ↔
      result.IsChain fun a b => ¬b ≤ a := by
    rw [adjacentFind_eq_false_iff]
    simp only [decide_eq_false_iff_not, ge_iff_le]
  simp only [parseAscendingList, Option.bind_eq_bind, Option.bind_eq_some_iff, mapM_eq_some_iff,
    htoken, forall₂_and_right]
  constructor
  · rintro ⟨values, hvalues, hchecks⟩
    split_ifs at hchecks with hempty hadjacent hextra
    obtain rfl := Option.some.inj hchecks
    rw [Bool.not_eq_true] at hadjacent
    rw [Bool.not_eq_true', Bool.not_eq_false, List.all_eq_true] at hextra
    exact ⟨⟨hvalues, hextra⟩, hchain.mp hadjacent⟩
  · rintro ⟨⟨hvalues, hextra⟩, hascending⟩
    -- a string always splits into at least one token
    have hne : result.isEmpty = false := by
      rw [List.isEmpty_eq_false_iff]
      rintro rfl
      exact List.splitOn_ne_nil ',' csv (List.forall₂_nil_right_iff.mp hvalues)
    refine ⟨result, hvalues, ?_⟩
    rw [hne, hchain.mpr hascending, List.all_eq_true.mpr hextra]
    rfl

/-- What the parsers accept, from what one token and its range check accept: every token is
good, and the numbers the tokens stand for are strictly increasing. -/
theorem parseAscendingList_eq_some_iff (toInt : α → ℤ) {Good : List Char → Prop}
    (number : List Char → ℤ) (hle : ∀ a b, b ≤ a ↔ toInt b ≤ toInt a)
    (htoken : ∀ token value, (token ≠ [] ∧ parseToken token = some value) ∧ extraValid value ↔
      Good token ∧ toInt value = number token) :
    parseAscendingList csv parseToken extraValid = some result ↔
      (∀ token ∈ splitCsv csv, Good token) ∧ result.map toInt = (splitCsv csv).map number ∧
        ((splitCsv csv).map number).Pairwise (· < ·) := by
  simp only [parseAscendingList_eq_some, htoken, forall₂_and_eq_iff, and_assoc]
  refine and_congr_right fun _ => and_congr_right fun hvalues => ?_
  rw [← hvalues, ← List.isChain_iff_pairwise, List.isChain_map]
  simp only [hle, not_le]

end Shape

/-! ### The tokens -/

private theorem IsNumber.point_notMem {token : List Char} (h : IsNumber token) : '.' ∉ token :=
  fun hmem => absurd (h.2 _ hmem) (by decide)

/-- A volume token that passes the range check is a number, read at nine decimals. -/
theorem parseVolumeToken_iff {token : List Char} {value : Notional} :
    (token ≠ [] ∧ parseVolumeToken token = some value) ∧ decide (value.val > 0) ↔
      (IsNumber token ∧ 0 < digitsValue token ∧ digitsValue token ≤ (2 ^ 63 - 1) / 10 ^ 9) ∧
        value.val = digitsValue token * 10 ^ 9 := by
  have hbound : ∀ k : ℕ, (k : ℤ) * 10 ^ 9 ≤ int64Max ↔ k ≤ (2 ^ 63 - 1) / 10 ^ 9 := by
    intro k
    rw [int64Max]
    omega
  have htoken : parseVolumeToken token = some value ↔
      '.' ∉ token ∧ fromDecimalString 9 token = .ok value := by
    rw [parseVolumeToken]
    split_ifs with hpoint
    · simp [hpoint]
    · cases fromDecimalString 9 token <;> simp [hpoint, Except.toOption]
  rw [htoken, decide_eq_true_eq]
  constructor
  · rintro ⟨⟨hne, hpoint, hok⟩, hpos⟩
    obtain ⟨n, rfl⟩ := exists_spelling_of_ok hok
    have hfraction := n.fraction_eq_none hpoint
    obtain ⟨hfits, hvalue⟩ := (fromDecimalString_ok_iff n).mp hok
    rw [n.roundHalfAway_value, n.roundHalfAway_magnitude_of_fraction 9 hfraction] at hvalue
    rw [n.roundHalfAway_magnitude_of_fraction 9 hfraction] at hfits
    -- a value above zero has no sign, so the token is its digits
    have hsign : n.negative = false := by
      by_contra hneg
      rw [Bool.not_eq_false] at hneg
      rw [if_pos hneg] at hvalue
      omega
    have hspelling : n.spelling = n.whole := by
      simp [DecimalNumeral.spelling, DecimalNumeral.unsignedSpelling, hsign, hfraction]
    rw [hsign, if_neg (by decide)] at hvalue
    rw [hspelling] at hne ⊢
    exact ⟨⟨⟨hne, n.whole_digits⟩, by omega, (hbound _).mp hfits⟩, hvalue⟩
  · rintro ⟨⟨hnumber, hpos, hle⟩, hvalue⟩
    have hok := fromDecimalString_ok_iff (x := value)
      (DecimalNumeral.ofDigits token hnumber.2 hnumber.1)
    rw [DecimalNumeral.roundHalfAway_value,
      DecimalNumeral.roundHalfAway_magnitude_of_fraction _ 9 rfl,
      DecimalNumeral.spelling_ofDigits] at hok
    exact ⟨⟨hnumber.1, hnumber.point_notMem, hok.mpr ⟨(hbound _).mpr hle, hvalue⟩⟩, by omega⟩

/-- A minus sign and zeros: the one negative spelling of a value that is not negative. -/
def IsSignedZero (token : List Char) : Prop :=
  ∃ ds, token = '-' :: ds ∧ IsNumber ds ∧ digitsValue ds = 0

/-- The integer `std::from_chars` reads from a text that is digits behind an optional minus. -/
def signedValue (text : List Char) : ℤ :=
  if (stripSign text).1 then -digitsValue (stripSign text).2 else digitsValue (stripSign text).2

/-- Digits behind an optional minus are consumed to the end. -/
private theorem fromChars_of_isNumber {text : List Char} (h : IsNumber (stripSign text).2)
    (value : Int32) : fromChars text value =
      if signedValue text < -2 ^ 31 || signedValue text > 2 ^ 31 - 1 then
        ⟨value, [], some .resultOutOfRange⟩
      else ⟨Int32.ofInt (signedValue text), [], none⟩ := by
  have htake : (stripSign text).2.takeWhile Char.isDigit = (stripSign text).2 :=
    List.takeWhile_eq_self_iff.mpr h.2
  have hdrop : (stripSign text).2.dropWhile Char.isDigit = [] :=
    List.dropWhile_eq_nil_iff.mpr h.2
  have hne : (stripSign text).2.isEmpty = false := List.isEmpty_eq_false_iff.mpr h.1
  simp only [fromChars, htake, hdrop, hne, Bool.false_eq_true, if_false]
  rfl

/-- What is consumed to the end without an error is digits behind an optional minus. -/
private theorem isNumber_of_fromChars {text : List Char} {value : Int32}
    (hec : (fromChars text value).ec = none) (hrest : (fromChars text value).rest = []) :
    IsNumber (stripSign text).2 := by
  simp only [fromChars] at hec hrest
  by_cases hempty : ((stripSign text).2.takeWhile Char.isDigit).isEmpty
  · rw [if_pos hempty] at hec
    cases hec
  · rw [if_neg hempty] at hrest
    have hdrop : (stripSign text).2.dropWhile Char.isDigit = [] := by
      split_ifs at hrest <;> exact hrest
    have hdigits : AllDigits (stripSign text).2 := List.dropWhile_eq_nil_iff.mp hdrop
    rw [List.takeWhile_eq_self_iff.mpr hdigits, List.isEmpty_iff] at hempty
    exact ⟨hempty, hdigits⟩

/-- A token is read exactly when it is digits behind an optional minus, in range. -/
private theorem parseBpsToken_eq_some {token : List Char} {value : Int32} :
    parseBpsToken token = some value ↔ IsNumber (stripSign token).2 ∧
      (-2 ^ 31 ≤ signedValue token ∧ signedValue token ≤ 2 ^ 31 - 1) ∧
      value.toInt = signedValue token := by
  by_cases hnumber : IsNumber (stripSign token).2
  · simp only [parseBpsToken, fromChars_of_isNumber hnumber, hnumber, true_and]
    by_cases hrange : -2 ^ 31 ≤ signedValue token ∧ signedValue token ≤ 2 ^ 31 - 1
    · have hvalue : (Int32.ofInt (signedValue token)).toInt = signedValue token :=
        Int32.toInt_ofInt_of_le hrange.1 (by omega)
      have hin : (decide (signedValue token < -2 ^ 31) ||
          decide (signedValue token > 2 ^ 31 - 1)) = false := by
        rw [Bool.or_eq_false_iff, decide_eq_false_iff_not, decide_eq_false_iff_not]
        omega
      rw [and_iff_right hrange, ← hvalue, Int32.toInt_inj, hvalue, hin]
      simp [eq_comm]
    · have hout : (decide (signedValue token < -2 ^ 31) ||
          decide (signedValue token > 2 ^ 31 - 1)) = true := by
        rw [Bool.or_eq_true, decide_eq_true_eq, decide_eq_true_eq]
        omega
      rw [hout]
      exact iff_of_false (by simp) fun h => hrange h.1
  · refine iff_of_false (fun h => hnumber ?_) fun h => hnumber h.1
    simp only [parseBpsToken, Bool.or_eq_true, Bool.not_eq_true'] at h
    split_ifs at h with hbad
    rw [not_or, Option.not_isSome_iff_eq_none, Bool.not_eq_false, List.isEmpty_iff] at hbad
    exact isNumber_of_fromChars hbad.1 hbad.2

/-- A basis-point token that passes the range check is a number below ten thousand, or zero
with a minus sign. -/
theorem parseBpsToken_iff {token : List Char} {value : Int32} :
    (token ≠ [] ∧ parseBpsToken token = some value) ∧
        (decide (0 ≤ value) && decide (value < kBpsDenominator)) ↔
      ((IsNumber token ∧ digitsValue token < 10000) ∨ IsSignedZero token) ∧
        value.toInt = digitsValue (stripSign token).2 := by
  have hrange : (decide (0 ≤ value) && decide (value < kBpsDenominator)) = true ↔
      0 ≤ value.toInt ∧ value.toInt < 10000 := by
    rw [Bool.and_eq_true, decide_eq_true_eq, decide_eq_true_eq, Int32.le_iff_toInt_le,
      Int32.lt_iff_toInt_lt]
    rfl
  have hne : IsNumber (stripSign token).2 → token ≠ [] := by
    rintro h rfl
    exact h.1 rfl
  rw [hrange, parseBpsToken_eq_some, signedValue]
  by_cases hminus : ∃ ds, token = '-' :: ds
  · obtain ⟨ds, rfl⟩ := hminus
    have hnot : ¬IsNumber ('-' :: ds) := fun h => absurd (h.2 '-' List.mem_cons_self) (by decide)
    have hzero : IsSignedZero ('-' :: ds) ↔ IsNumber ds ∧ digitsValue ds = 0 := by
      refine ⟨?_, fun h => ⟨ds, rfl, h⟩⟩
      rintro ⟨ds', heq, h⟩
      obtain rfl := (List.cons.inj heq).2
      exact h
    simp only [stripSign, if_true, hzero, hnot, false_and, false_or]
    constructor
    · rintro ⟨⟨-, hnumber, -, hvalue⟩, hlow, -⟩
      exact ⟨⟨hnumber, by omega⟩, by omega⟩
    · rintro ⟨⟨hnumber, hvalue⟩, heq⟩
      exact ⟨⟨by simp, hnumber, by omega, by omega⟩, by omega⟩
  · have hstrip : stripSign token = (false, token) :=
      stripSign_of_ne fun ds heq => hminus ⟨ds, heq⟩
    have hzero : ¬IsSignedZero token := by
      rintro ⟨ds, heq, -⟩
      exact hminus ⟨ds, heq⟩
    simp only [hstrip, Bool.false_eq_true, if_false, hzero, or_false]
    constructor
    · rintro ⟨⟨-, hnumber, -, hvalue⟩, -, hhigh⟩
      exact ⟨⟨hnumber, by omega⟩, hvalue⟩
    · rintro ⟨⟨hnumber, hlt⟩, hvalue⟩
      exact ⟨⟨hnumber.1, hnumber, by omega, hvalue⟩, by omega, by omega⟩

end Hermeneutic
