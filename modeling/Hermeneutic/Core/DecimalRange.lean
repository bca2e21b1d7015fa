import Hermeneutic.Core.DecimalString
import Hermeneutic.Core.WideArithmetic

/-!
# The range of the decimal parser

The integer part is accumulated in an `unsigned __int128`, everything after it in an
`__int128`. `unsignedIntermediates` and `signedIntermediates` list what the parser computes on
a text, in order and up to the point where it fails. Both stay in range for up to eighteen
decimals, whatever the length of the text: the integer loop bails out at the first value above
`int64_t`, and the fraction accumulates a fixed number of digits only.

The lists follow the parser step by step, so a bound on them is proved where the parser makes the
value: a digit of the integer part is appended to a value that had not yet left the range of an
`int64_t`, a digit of the fraction to one that has no more digits yet than there are decimals, and
the rounding adds one. The result of the rescaling is the only place where both parts meet, and
there the parser has checked the integer part already. `fromDecimalString_exact` puts the bounds
beside what is accepted and what it means.
-/

namespace Hermeneutic

open BasicFixedPoint

/-- The products and sums of the integer loop. -/
def intIntermediates (intPart : List Char) : List ℤ :=
  observed intStep (fun intValue c => if nonDigit c then []
    else [(intValue * 10 : ℤ), intValue * 10 + digitValue c]) intPart 0

/-- The products and sums of the fraction loop, which skips the digits past `take`. -/
def fracIntermediates (decimals : ℕ) (fracPart : List Char) : List ℤ :=
  observed (fracStep (takeOf decimals fracPart)) (fun s c =>
    if nonDigit c || takeOf decimals fracPart ≤ s.1 then []
    else [s.2 * 10, s.2 * 10 + digitValue c]) fracPart (0, 0)

/-- The rescaling of the fraction: the division by ten, or one product for each zero. -/
def padOrRoundIntermediates (decimals : ℕ) (fracPart : List Char) (fracNumerator : ℤ) : List ℤ :=
  if fracPart.length > decimals then roundDivIntermediates fracNumerator 10
  else (List.range (decimals - takeOf decimals fracPart)).map fun k =>
    (· * 10)^[k + 1] fracNumerator

/-- The widened integer part, the magnitude and its negation. -/
def assembleIntermediates (decimals intValue : ℕ) (fracValue : ℤ) : List ℤ :=
  let (intValue, fracValue) := carry decimals intValue fracValue
  if intValue > int64Max then []
  else [(intValue : ℤ), intValue * scale decimals, intValue * scale decimals + fracValue,
    -(intValue * scale decimals + fracValue)]

/-- What the parser computes in `unsigned __int128`, the carry last. -/
def unsignedIntermediates (decimals : ℕ) (text : List Char) : List ℤ :=
  let parts := splitDecimal text
  intIntermediates parts.intPart ++
    match parts.intPart.foldlM intStep 0, fracValueOf decimals parts.fracPart with
    | .ok intValue, .ok fracValue => [((carry decimals intValue fracValue).1 : ℤ)]
    | _, _ => []

/-- What the parser computes in `__int128`. -/
def signedIntermediates (decimals : ℕ) (text : List Char) : List ℤ :=
  let parts := splitDecimal text
  match parts.intPart.foldlM intStep 0 with
  | .error _ => []
  | .ok intValue =>
    fracIntermediates decimals parts.fracPart ++
      match parts.fracPart.foldlM (fracStep (takeOf decimals parts.fracPart)) (0, 0) with
      | .error _ => []
      | .ok (_, fracNumerator) =>
        padOrRoundIntermediates decimals parts.fracPart fracNumerator ++
          assembleIntermediates decimals intValue
            (padOrRound decimals parts.fracPart fracNumerator)

/-! ### The loops -/

/-- The integer loop has accumulated a value that fits. -/
private theorem le_of_intLoop_ok {ds : List Char} {v : ℕ} (h : ds.foldlM intStep 0 = .ok v) :
    (v : ℤ) ≤ int64Max := by
  have hdigits : AllDigits ds := allDigits_of_foldlM_ok (fun _ _ _ => isDigit_of_intStep_ok) h
  rw [intLoop_eq hdigits] at h
  split_ifs at h with hfits
  obtain rfl := Except.ok.inj h
  exact not_lt.mp hfits

/-- The fraction loop has accumulated the first digits. -/
private theorem eq_of_fracLoop_ok {take : ℕ} {ds : List Char} {s : ℕ × ℤ}
    (h : ds.foldlM (fracStep take) (0, 0) = .ok s) :
    AllDigits ds ∧ s = (ds.length, (digitsValue (ds.take take) : ℤ)) := by
  have hdigits : AllDigits ds := allDigits_of_foldlM_ok (fun _ _ _ => isDigit_of_fracStep_ok) h
  rw [fracLoop_eq hdigits] at h
  exact ⟨hdigits, (Except.ok.inj h).symm⟩

private theorem isDigit_of_not_nonDigit {c : Char} (h : ¬nonDigit c) : c.isDigit := by
  rwa [nonDigit_eq, Bool.not_eq_true', Bool.not_eq_false] at h

private theorem fits_intIntermediates (intPart : List Char) :
    ∀ v ∈ intIntermediates intPart, FitsUInt128 v := by
  intro v hv
  obtain ⟨pre, c, t, -, hloop, hmem⟩ := (mem_observed_iff _ _ _ _ _).mp hv
  have hle := le_of_intLoop_ok hloop
  rw [int64Max] at hle
  split_ifs at hmem with hc
  · cases hmem
  · have hdigit := digitValue_le (isDigit_of_not_nonDigit hc)
    rcases List.mem_pair.mp hmem with rfl | rfl <;> constructor <;> omega

/-- Fewer digits than the cut stay below the power of ten of the cut. -/
private theorem digitsValue_take_lt {ds : List Char} (h : AllDigits ds) (n : ℕ) :
    (digitsValue (ds.take n) : ℤ) < 10 ^ n := by
  have hlt := digitsValue_lt (h.take n)
  have hlen : (ds.take n).length ≤ n := by
    rw [List.length_take]
    exact min_le_left n _
  exact_mod_cast hlt.trans_le (Nat.pow_le_pow_right (by norm_num) hlen)

variable {decimals : ℕ}

private theorem pow_le_of_le_eighteen (hdecimals : decimals ≤ 18) : (10 : ℤ) ^ decimals ≤ 10 ^ 18 :=
  pow_le_pow_right₀ (by norm_num) hdecimals

private theorem fits_fracIntermediates (hdecimals : decimals ≤ 18) (fracPart : List Char) :
    ∀ v ∈ fracIntermediates decimals fracPart, FitsInt128 v := by
  intro v hv
  obtain ⟨pre, c, t, -, hloop, hmem⟩ := (mem_observed_iff _ _ _ _ _).mp hv
  obtain ⟨hdigits, rfl⟩ := eq_of_fracLoop_ok hloop
  split_ifs at hmem with hskip
  · cases hmem
  · rw [Bool.or_eq_true, not_or, decide_eq_true_eq, not_le] at hskip
    obtain ⟨hc, htake⟩ := hskip
    have hdigit := digitValue_le (isDigit_of_not_nonDigit hc)
    -- fewer than `decimals + 1` digits so far
    have hlen : pre.length ≤ decimals :=
      Nat.le_of_lt_succ (htake.trans_le (min_le_right _ _))
    have hvalue : (digitsValue (pre.take (takeOf decimals fracPart)) : ℤ) < 10 ^ 18 := by
      rw [List.take_of_length_le htake.le]
      have hlt : (digitsValue pre : ℤ) < 10 ^ pre.length := by exact_mod_cast digitsValue_lt hdigits
      exact hlt.trans_le ((pow_le_pow_right₀ (by norm_num) hlen).trans
        (pow_le_of_le_eighteen hdecimals))
    rcases List.mem_pair.mp hmem with rfl | rfl <;> constructor <;> omega

/-! ### The rescaling and the result -/

private theorem fits_padOrRoundIntermediates (hdecimals : decimals ≤ 18) {ds : List Char}
    (h : AllDigits ds) : ∀ v ∈ padOrRoundIntermediates decimals ds
      (digitsValue (ds.take (takeOf decimals ds))), FitsInt128 v := by
  have hpow := pow_le_of_le_eighteen hdecimals
  intro v hv
  rw [padOrRoundIntermediates] at hv
  split_ifs at hv with hlen
  · have htake : takeOf decimals ds = decimals + 1 := min_eq_right hlen
    have hvalue := digitsValue_take_lt h (decimals + 1)
    rw [htake] at hv
    rw [pow_succ] at hvalue
    exact fits_roundDiv (Int.natCast_nonneg _) (by norm_num) (by omega) (by norm_num) v hv
  · have htake : takeOf decimals ds = ds.length := min_eq_left (by omega)
    rw [htake, List.take_length] at hv
    obtain ⟨k, hk, rfl⟩ := List.mem_map.mp hv
    have hvalue : (digitsValue ds : ℤ) < 10 ^ ds.length := by exact_mod_cast digitsValue_lt h
    -- at most the zeros that are missing have been appended
    have hlen' : ds.length + (k + 1) ≤ decimals := by
      have := List.mem_range.mp hk
      omega
    have hle : (digitsValue ds : ℤ) * 10 ^ (k + 1) ≤ 10 ^ 18 := by
      calc (digitsValue ds : ℤ) * 10 ^ (k + 1) ≤ 10 ^ ds.length * 10 ^ (k + 1) := by gcongr
        _ = 10 ^ (ds.length + (k + 1)) := (pow_add _ _ _).symm
        _ ≤ 10 ^ decimals := pow_le_pow_right₀ (by norm_num) hlen'
        _ ≤ 10 ^ 18 := hpow
    rw [mul_right_iterate]
    exact fitsInt128_of_nonneg (by positivity) hle (by norm_num)

/-- The fraction is at most one whole unit. -/
private theorem padOrRound_le {ds : List Char} (h : AllDigits ds) :
    padOrRound decimals ds (digitsValue (ds.take (takeOf decimals ds))) ≤ scale decimals := by
  have hvalue : (digitsValue ds : ℚ) < 10 ^ ds.length := by exact_mod_cast digitsValue_lt h
  have hfrac : (digitsValue ds / 10 ^ ds.length : ℚ) ≤ 1 :=
    (div_le_one (by positivity)).mpr hvalue.le
  rw [padOrRound_eq h, scale]
  refine roundHalfAway_le ?_
  push_cast
  exact mul_le_of_le_one_left (by positivity) hfrac

private theorem padOrRound_nonneg {ds : List Char} (h : AllDigits ds) :
    0 ≤ padOrRound decimals ds (digitsValue (ds.take (takeOf decimals ds))) := by
  rw [padOrRound_eq h]
  exact roundHalfAway_nonneg (by positivity)

private theorem fits_assembleIntermediates (hdecimals : decimals ≤ 18) (intValue : ℕ)
    {fracValue : ℤ}
    (hfrac : 0 ≤ fracValue) (hfrac' : fracValue ≤ scale decimals) :
    ∀ v ∈ assembleIntermediates decimals intValue fracValue, FitsInt128 v := by
  have hpow : scale decimals ≤ 10 ^ 18 := pow_le_of_le_eighteen hdecimals
  have hscale := scale_pos decimals
  have hcarried : 0 ≤ (carry decimals intValue fracValue).2 ∧
      (carry decimals intValue fracValue).2 ≤ 10 ^ 18 := by
    rw [carry]
    split_ifs
    · exact ⟨le_rfl, by norm_num⟩
    · exact ⟨hfrac, hfrac'.trans hpow⟩
  intro v hv
  simp only [assembleIntermediates] at hv
  generalize carry decimals intValue fracValue = carried at hcarried hv
  obtain ⟨intValue, fracValue⟩ := carried
  obtain ⟨hlow, hhigh⟩ := hcarried
  split_ifs at hv with hbound
  · cases hv
  · rw [int64Max, not_lt] at hbound
    have hint : (0 : ℤ) ≤ intValue := Int.natCast_nonneg intValue
    have hmul : (intValue : ℤ) * scale decimals ≤ (2 ^ 63 - 1) * 10 ^ 18 := by gcongr
    have hmul' : 0 ≤ (intValue : ℤ) * scale decimals := by positivity
    simp only [List.mem_cons, List.not_mem_nil, or_false] at hv
    rcases hv with rfl | rfl | rfl | rfl <;> constructor <;> omega

/-- The unsigned intermediates stay in range, at any number of decimals. -/
private theorem fits_unsignedIntermediates (decimals : ℕ) (text : List Char) :
    ∀ v ∈ unsignedIntermediates decimals text, FitsUInt128 v := by
  intro v hv
  rw [unsignedIntermediates, List.mem_append] at hv
  rcases hv with hloop | hcarry
  · exact fits_intIntermediates _ v hloop
  · split at hcarry
    next intValue fracValue hint _ =>
      have hle := le_of_intLoop_ok hint
      rw [int64Max] at hle
      rw [List.mem_singleton.mp hcarry, carry]
      split_ifs <;> constructor <;> push_cast <;> omega
    next => cases hcarry

private theorem fits_signedIntermediates (hdecimals : decimals ≤ 18) (text : List Char) :
    ∀ v ∈ signedIntermediates decimals text, FitsInt128 v := by
  intro v hv
  rw [signedIntermediates] at hv
  cases hint : (splitDecimal text).intPart.foldlM intStep 0 with
  | error e => simp [hint] at hv
  | ok intValue =>
    simp only [hint, List.mem_append] at hv
    rcases hv with hloop | hrest
    · exact fits_fracIntermediates hdecimals _ v hloop
    · split at hrest
      next => cases hrest
      next i fracNumerator hfrac =>
        obtain ⟨hdigits, heq⟩ := eq_of_fracLoop_ok hfrac
        obtain ⟨rfl, rfl⟩ := Prod.mk.inj heq
        rcases List.mem_append.mp hrest with hpad | hassemble
        · exact fits_padOrRoundIntermediates hdecimals hdigits v hpad
        · exact fits_assembleIntermediates hdecimals intValue (padOrRound_nonneg hdigits)
            (padOrRound_le hdigits) v hassemble

/-- **The parser is exact.** It accepts the spellings of the numerals whose magnitude, scaled
and rounded, fits, and returns the rounded value; no intermediate leaves the wide types. -/
theorem fromDecimalString_exact (hdecimals : decimals ≤ 18) (text : List Char) :
    ((∃ x, fromDecimalString decimals text = .ok x) ↔
      ∃ n : DecimalNumeral, n.spelling = text ∧
        roundHalfAway (n.magnitude * 10 ^ decimals) ≤ int64Max) ∧
    (∀ n : DecimalNumeral, n.spelling = text → ∀ x, fromDecimalString decimals text = .ok x →
      x.val = roundHalfAway (n.value * 10 ^ decimals)) ∧
    (∀ v ∈ unsignedIntermediates decimals text, FitsUInt128 v) ∧
    ∀ v ∈ signedIntermediates decimals text, FitsInt128 v := by
  refine ⟨⟨?_, ?_⟩, ?_, fits_unsignedIntermediates decimals text,
    fits_signedIntermediates hdecimals text⟩
  · rintro ⟨x, hx⟩
    obtain ⟨n, rfl⟩ := exists_spelling_of_ok hx
    exact ⟨n, rfl, ((fromDecimalString_ok_iff n).mp hx).1⟩
  · rintro ⟨n, rfl, hfits⟩
    exact ⟨_, (fromDecimalString_spelling decimals n).trans (if_neg hfits.not_gt)⟩
  · rintro n rfl x hx
    exact ((fromDecimalString_ok_iff n).mp hx).2

/-- `"-.995"` at two decimals is rounded up to one whole unit, and the sign is kept. -/
theorem fromDecimalString_exact_carry :
    fromDecimalString 2 ['-', '.', '9', '9', '5'] = .ok ⟨-100⟩ ∧
      ∀ v ∈ signedIntermediates 2 ['-', '.', '9', '9', '5'], FitsInt128 v :=
  ⟨by rfl, (fromDecimalString_exact (by norm_num) _).2.2.2⟩

end Hermeneutic
