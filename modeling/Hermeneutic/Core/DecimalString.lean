import Hermeneutic.Core.FixedPoint
import Hermeneutic.ForMathlib.DecimalNumeral
import Hermeneutic.ForMathlib.ListTraversal

/-!
# Parsing a decimal string

`BasicFixedPoint::from_decimal_string` (`core/fixed_point.hpp`) reads a decimal string straight
into the raw scale, in integers only. A `std::string_view` is the list of its characters here.
The sign is stripped first and applied last; the digits before the point are accumulated until
they exceed an `int64_t`, of those after it the first `decimals + 1` at most.

`fromDecimalString_spelling` says what the parser computes on the spelling of a numeral: its
value times `10 ^ decimals`, rounded once, if that fits. `exists_spelling_of_ok` says that it
accepts nothing else. The two loops are read from their last digit, and the carry from the
fraction into the integer part is one equation (`assemble_eq`).

A `DecimalNumeral` is the grammar: a sign, digits, and perhaps a point with digits behind it, with
a rational number as its value. The results compare the parser with that number and with its
rounding, half away from zero, and with nothing else; how many digits of the fraction are read is
a fact about the code that rounding makes irrelevant, since the digits behind the first one
dropped cannot move the result. Both directions of `fromDecimalString_ok_iff` are for every number
of decimals.
-/

namespace Hermeneutic

open BasicFixedPoint

/-- What the text splits into before any digit is read. -/
structure DecimalParts where
  negative : Bool
  intPart : List Char
  fracPart : List Char

/-- Strips a leading `-`, and no other sign. -/
def stripSign : List Char → Bool × List Char
  | '-' :: rest => (true, rest)
  | text => (false, text)

/-- The sign, what stands before the first `.`, and what follows it. -/
def splitDecimal (text : List Char) : DecimalParts :=
  let (negative, rest) := stripSign text
  ⟨negative, rest.takeWhile (· ≠ '.'), (rest.dropWhile (· ≠ '.')).tail⟩

/-- The character test of both loops. -/
def nonDigit (c : Char) : Bool := c < '0' || c > '9'

/-- One character of the integer part: it bails out as soon as the value exceeds `int64_t`. -/
def intStep (intValue : ℕ) (c : Char) : Except Errc ℕ :=
  if nonDigit c then .error .invalidArgument
  else
    let intValue := intValue * 10 + digitValue c
    if intValue > int64Max then .error .resultOutOfRange else .ok intValue

/-- One character of the fraction: every one is validated, only the first `take` accumulated. -/
def fracStep (take : ℕ) (s : ℕ × ℤ) (c : Char) : Except Errc (ℕ × ℤ) :=
  let (i, fracNumerator) := s
  if nonDigit c then .error .invalidArgument
  else .ok (i + 1, if i < take then fracNumerator * 10 + digitValue c else fracNumerator)

/-- The number of fractional characters that are accumulated. -/
def takeOf (decimals : ℕ) (fracPart : List Char) : ℕ := min fracPart.length (decimals + 1)

/-- The digits at `decimals` places: the extra one is rounded away, missing ones are zeros. -/
def padOrRound (decimals : ℕ) (fracPart : List Char) (fracNumerator : ℤ) : ℤ :=
  if fracPart.length > decimals then roundDivNearestAway fracNumerator 10
  else (· * 10)^[decimals - takeOf decimals fracPart] fracNumerator

/-- The fraction in raw units. -/
def fracValueOf (decimals : ℕ) (fracPart : List Char) : Except Errc ℤ := do
  let (_, fracNumerator) ← fracPart.foldlM (fracStep (takeOf decimals fracPart)) (0, 0)
  pure (padOrRound decimals fracPart fracNumerator)

/-- The carry of a fraction that was rounded up to one whole unit. -/
def carry (decimals : ℕ) (intValue : ℕ) (fracValue : ℤ) : ℕ × ℤ :=
  if fracValue = scale decimals then (intValue + 1, 0) else (intValue, fracValue)

/-- The two bounds on the magnitude, and the sign. -/
def assemble (decimals : ℕ) (negative : Bool) (intValue : ℕ) (fracValue : ℤ) :
    Except Errc (BasicFixedPoint decimals) :=
  let (intValue, fracValue) := carry decimals intValue fracValue
  if intValue > int64Max then .error .resultOutOfRange
  else
    let magnitude := intValue * scale decimals + fracValue
    if magnitude > int64Max then .error .resultOutOfRange
    else .ok (fromRaw (Int64.ofInt (if negative then -magnitude else magnitude)))

/-- Parses a decimal string straight into the raw scale. -/
def fromDecimalString (decimals : ℕ) (text : List Char) :
    Except Errc (BasicFixedPoint decimals) := do
  let parts := splitDecimal text
  if parts.intPart.isEmpty && parts.fracPart.isEmpty then .error .invalidArgument
  else
    let intValue ← parts.intPart.foldlM intStep 0
    let fracValue ← fracValueOf decimals parts.fracPart
    assemble decimals parts.negative intValue fracValue

/-! ### The two loops -/

theorem nonDigit_eq (c : Char) : nonDigit c = !c.isDigit := by
  have hlow : c < '0' ↔ c.toNat < '0'.toNat := Char.lt_def.trans UInt32.lt_iff_toNat_lt
  have hhigh : '9' < c ↔ '9'.toNat < c.toNat := Char.lt_def.trans UInt32.lt_iff_toNat_lt
  rw [Bool.eq_iff_iff]
  simp only [nonDigit, Bool.or_eq_true, decide_eq_true_eq, gt_iff_lt, hlow, hhigh,
    Bool.not_eq_true', ← Bool.not_eq_true, Char.isDigit_iff_toNat]
  omega

private theorem intStep_of_isDigit {c : Char} (h : c.isDigit) (v : ℕ) :
    intStep v c = if (v * 10 + digitValue c : ℕ) > int64Max then .error .resultOutOfRange
      else .ok (v * 10 + digitValue c) := by
  rw [intStep, nonDigit_eq, h]
  rfl

theorem isDigit_of_intStep_ok {v w : ℕ} {c : Char} (h : intStep v c = .ok w) : c.isDigit := by
  by_contra hc
  rw [intStep, nonDigit_eq, Bool.not_eq_true _ |>.mp hc] at h
  cases h

private theorem fracStep_of_isDigit {c : Char} (h : c.isDigit) (take : ℕ) (s : ℕ × ℤ) :
    fracStep take s c =
      .ok (s.1 + 1, if s.1 < take then s.2 * 10 + digitValue c else s.2) := by
  rw [fracStep, nonDigit_eq, h]
  rfl

theorem isDigit_of_fracStep_ok {take : ℕ} {s t : ℕ × ℤ} {c : Char}
    (h : fracStep take s c = .ok t) : c.isDigit := by
  by_contra hc
  rw [fracStep, nonDigit_eq, Bool.not_eq_true _ |>.mp hc] at h
  cases h

/-- A loop whose step accepts digits only accepts digits only. -/
theorem allDigits_of_foldlM_ok {σ : Type} {step : σ → Char → Except Errc σ}
    (hstep : ∀ s t c, step s c = .ok t → c.isDigit) {ds : List Char} {s t : σ}
    (h : ds.foldlM step s = .ok t) : AllDigits ds := by
  induction ds generalizing s with
  | nil => exact allDigits_nil
  | cons c ds ih =>
    rw [List.foldlM_cons] at h
    obtain ⟨s', hc, hrest⟩ := exists_of_bind_ok h
    exact List.forall_mem_cons.mpr ⟨hstep s s' c hc, ih hrest⟩

/-- The integer part is accumulated as long as it fits. -/
theorem intLoop_eq {ds : List Char} (h : AllDigits ds) :
    ds.foldlM intStep 0 = if (digitsValue ds : ℤ) > int64Max then .error .resultOutOfRange
      else .ok (digitsValue ds) := by
  induction ds using List.reverseRecOn with
  | nil => rfl
  | append_singleton ds c ih =>
    obtain ⟨hds, hc⟩ := allDigits_concat.mp h
    rw [foldlM_concat, ih hds, digitsValue_concat]
    by_cases hprev : (digitsValue ds : ℤ) > int64Max
    · -- a value already out of range does not come back into it
      have hall : ((digitsValue ds * 10 + digitValue c : ℕ) : ℤ) > int64Max := by
        push_cast
        omega
      rw [if_pos hprev, if_pos hall]
      rfl
    · rw [if_neg hprev, ← intStep_of_isDigit hc]
      rfl

/-- Of the fraction the first `take` digits are accumulated. -/
theorem fracLoop_eq {ds : List Char} (h : AllDigits ds) (take : ℕ) :
    ds.foldlM (fracStep take) (0, 0) = .ok (ds.length, (digitsValue (ds.take take) : ℤ)) := by
  induction ds using List.reverseRecOn with
  | nil => simp; rfl
  | append_singleton ds c ih =>
    obtain ⟨hds, hc⟩ := allDigits_concat.mp h
    rw [foldlM_concat, ih hds]
    refine (fracStep_of_isDigit hc take (ds.length, _)).trans ?_
    rw [List.length_append, List.length_singleton]
    by_cases hlen : ds.length < take
    · have hall : (ds ++ [c]).take take = ds ++ [c] := by
        refine List.take_of_length_le ?_
        rw [List.length_append, List.length_singleton]
        exact hlen
      rw [if_pos hlen, hall, List.take_of_length_le hlen.le, digitsValue_concat]
      push_cast
      rfl
    · rw [if_neg hlen, List.take_append_of_le_length (not_lt.mp hlen)]

/-- Padding or rounding the digits accumulated gives the exact fraction, rounded once. -/
theorem padOrRound_eq {ds : List Char} (h : AllDigits ds) (decimals : ℕ) :
    padOrRound decimals ds (digitsValue (ds.take (takeOf decimals ds))) =
      roundHalfAway ((digitsValue ds / 10 ^ ds.length : ℚ) * 10 ^ decimals) := by
  rw [padOrRound, roundHalfAway_scaled h]
  by_cases hlen : decimals < ds.length
  · have htake : takeOf decimals ds = decimals + 1 := min_eq_right hlen
    rw [if_pos hlen, if_pos hlen, htake, roundDivNearestAway_eq _ (by norm_num), roundedQuotient]
    push_cast
    rfl
  · have htake : takeOf decimals ds = ds.length := min_eq_left (by omega)
    rw [if_neg hlen, if_neg hlen, htake, List.take_length, mul_right_iterate]

/-- The fraction in raw units is the exact one, rounded once. -/
private theorem fracValueOf_eq {ds : List Char} (h : AllDigits ds) (decimals : ℕ) :
    fracValueOf decimals ds =
      .ok (roundHalfAway ((digitsValue ds / 10 ^ ds.length : ℚ) * 10 ^ decimals)) := by
  rw [fracValueOf, fracLoop_eq h, ← padOrRound_eq h]
  rfl

/-! ### The result -/

theorem scale_pos (decimals : ℕ) : 0 < scale decimals := by
  rw [scale]
  positivity

/-- The carry moves one whole unit over; it does not change the magnitude. -/
private theorem carry_magnitude (decimals intValue : ℕ) (fracValue : ℤ) :
    (carry decimals intValue fracValue).1 * scale decimals + (carry decimals intValue fracValue).2 =
      intValue * scale decimals + fracValue := by
  rw [carry]
  split_ifs with h
  · rw [h]
    push_cast
    ring
  · rfl

/-- The first bound is implied by the second one. -/
private theorem carry_le (decimals intValue : ℕ) {fracValue : ℤ} (hfrac : 0 ≤ fracValue) :
    ((carry decimals intValue fracValue).1 : ℤ) ≤ intValue * scale decimals + fracValue := by
  have hscale := scale_pos decimals
  have hfrac' : 0 ≤ (carry decimals intValue fracValue).2 := by
    rw [carry]
    split_ifs
    · exact le_rfl
    · exact hfrac
  rw [← carry_magnitude]
  nlinarith [Int.natCast_nonneg (carry decimals intValue fracValue).1]

/-- The magnitude is checked as a whole, and the sign applied to it. -/
theorem assemble_eq {decimals : ℕ} (negative : Bool) (intValue : ℕ) {fracValue : ℤ}
    (hfrac : 0 ≤ fracValue) :
    assemble decimals negative intValue fracValue =
      if intValue * scale decimals + fracValue > int64Max then .error .resultOutOfRange
      else .ok (fromRawChecked (if negative then -(intValue * scale decimals + fracValue)
        else intValue * scale decimals + fracValue)) := by
  have hcarry := carry_magnitude decimals intValue fracValue
  have hle := carry_le decimals intValue hfrac
  simp only [assemble, hcarry]
  by_cases hmag : intValue * scale decimals + fracValue > int64Max
  · simp only [if_pos hmag, ite_self]
  · rw [if_neg hmag, if_neg hmag, if_neg (by omega)]
    rfl

/-! ### The grammar -/

theorem stripSign_of_ne {text : List Char} (h : ∀ rest, text ≠ '-' :: rest) :
    stripSign text = (false, text) := by
  rw [stripSign]
  exact h

private theorem stripSign_spelling (n : DecimalNumeral) :
    stripSign n.spelling = (n.negative, n.unsignedSpelling) := by
  rw [DecimalNumeral.spelling]
  cases n.negative with
  | true => rfl
  | false =>
    refine stripSign_of_ne fun rest heq => n.minus_notMem ?_
    have hspelling : n.unsignedSpelling = '-' :: rest := heq
    rw [hspelling]
    exact List.mem_cons_self

/-- The spelling of a numeral splits into its own parts. -/
private theorem splitDecimal_spelling (n : DecimalNumeral) :
    splitDecimal n.spelling = ⟨n.negative, n.whole, n.fractionDigits⟩ := by
  have hwhole : ∀ c ∈ n.whole, decide (c ≠ '.') := by
    intro c hc
    exact decide_eq_true fun heq => n.point_notMem_whole (heq ▸ hc)
  simp only [splitDecimal, stripSign_spelling, DecimalNumeral.unsignedSpelling,
    DecimalNumeral.fractionDigits, List.takeWhile_append_of_pos hwhole,
    List.dropWhile_append_of_pos hwhole]
  cases n.fraction <;> simp

/-- What the sign is stripped from. -/
private theorem eq_of_stripSign (text : List Char) :
    (if (stripSign text).1 then '-' :: (stripSign text).2
    else (stripSign text).2) = text := by
  cases text with
  | nil => rfl
  | cons c cs =>
    by_cases hc : c = '-'
    · rw [hc]
      rfl
    · simp [stripSign, hc]

/-- Parts that are digits, not both empty, are those of a numeral spelt as the text. -/
private theorem exists_spelling_of_split {text : List Char}
    (hint : AllDigits (splitDecimal text).intPart)
    (hfrac : AllDigits (splitDecimal text).fracPart)
    (hsome : (splitDecimal text).intPart ≠ [] ∨ (splitDecimal text).fracPart ≠ []) :
    ∃ n : DecimalNumeral, n.spelling = text := by
  have htext := eq_of_stripSign text
  simp only [splitDecimal] at hint hfrac hsome
  generalize stripSign text = stripped at htext hint hfrac hsome
  obtain ⟨negative, rest⟩ := stripped
  have hrest : rest.takeWhile (· ≠ '.') ++ rest.dropWhile (· ≠ '.') = rest :=
    List.takeWhile_append_dropWhile
  cases hdrop : rest.dropWhile (· ≠ '.') with
  | nil =>
    -- no point: the fraction is absent
    rw [hdrop] at hfrac hsome hrest
    refine ⟨⟨negative, rest.takeWhile (· ≠ '.'), none, hint, hfrac, hsome⟩, ?_⟩
    rw [← htext, DecimalNumeral.spelling, DecimalNumeral.unsignedSpelling]
    simp only [Option.elim, hrest]
  | cons c ds =>
    have hpoint : c = '.' := by
      have hhead := List.head?_dropWhile_not (fun c => decide (c ≠ '.')) rest
      rw [hdrop] at hhead
      simpa using hhead
    rw [hdrop] at hfrac hsome hrest
    subst hpoint
    refine ⟨⟨negative, rest.takeWhile (· ≠ '.'), some ds, hint, hfrac, hsome⟩, ?_⟩
    rw [← htext, DecimalNumeral.spelling, DecimalNumeral.unsignedSpelling]
    simp only [Option.elim, hrest]

/-- **Completeness.** The spelling of a numeral is rejected for its size only, and otherwise
read as its value, rounded once. -/
theorem fromDecimalString_spelling (decimals : ℕ) (n : DecimalNumeral) :
    fromDecimalString decimals n.spelling =
      if roundHalfAway (n.magnitude * 10 ^ decimals) > int64Max then .error .resultOutOfRange
      else .ok (fromRawChecked (roundHalfAway (n.value * 10 ^ decimals))) := by
  have hfrac : 0 ≤ roundHalfAway ((digitsValue n.fractionDigits /
      10 ^ n.fractionDigits.length : ℚ) * 10 ^ decimals) := roundHalfAway_nonneg (by positivity)
  have hsome : (n.whole.isEmpty && n.fractionDigits.isEmpty) = false := by
    rw [Bool.and_eq_false_iff, List.isEmpty_eq_false_iff, List.isEmpty_eq_false_iff]
    exact n.some_digit
  rw [fromDecimalString, splitDecimal_spelling]
  simp only [hsome, Bool.false_eq_true, if_false, intLoop_eq n.whole_digits,
    fracValueOf_eq n.allDigits_fractionDigits, n.roundHalfAway_value, n.roundHalfAway_magnitude]
  by_cases hint : (digitsValue n.whole : ℤ) > int64Max
  · -- the loop bails out, and the magnitude is at least the integer part
    have hscale : (1 : ℤ) ≤ 10 ^ decimals := one_le_pow₀ (by norm_num)
    have hmag : digitsValue n.whole * 10 ^ decimals + roundHalfAway ((digitsValue n.fractionDigits /
        10 ^ n.fractionDigits.length : ℚ) * 10 ^ decimals) > int64Max := by
      nlinarith [Int.natCast_nonneg (digitsValue n.whole)]
    rw [if_pos hint, if_pos hmag]
    rfl
  · rw [if_neg hint]
    exact assemble_eq n.negative (digitsValue n.whole) hfrac

/-- The value read from the spelling of a numeral, if it fits: one bound serves both signs. -/
theorem fromDecimalString_ok_iff {decimals : ℕ} (n : DecimalNumeral)
    {x : BasicFixedPoint decimals} : fromDecimalString decimals n.spelling = .ok x ↔
      roundHalfAway (n.magnitude * 10 ^ decimals) ≤ int64Max ∧
        x.val = roundHalfAway (n.value * 10 ^ decimals) := by
  have hnonneg : 0 ≤ roundHalfAway (n.magnitude * 10 ^ decimals) :=
    roundHalfAway_nonneg (mul_nonneg n.magnitude_nonneg (by positivity))
  rw [fromDecimalString_spelling]
  by_cases hfits : roundHalfAway (n.magnitude * 10 ^ decimals) > int64Max
  · rw [if_pos hfits]
    exact iff_of_false (fun h => nomatch h) fun h => h.1.not_gt hfits
  · have hvalue : (fromRawChecked (roundHalfAway (n.value * 10 ^ decimals)) :
        BasicFixedPoint decimals).val = roundHalfAway (n.value * 10 ^ decimals) := by
      rw [n.roundHalfAway_value, val_fromRawChecked] <;> rw [int64Max] at * <;> split_ifs <;> omega
    rw [if_neg hfits, Except.ok.injEq, ← val_inj, hvalue, eq_comm]
    exact (and_iff_right (not_lt.mp hfits)).symm

/-- **Soundness.** What is accepted is the spelling of a numeral. -/
theorem exists_spelling_of_ok {decimals : ℕ} {text : List Char} {x : BasicFixedPoint decimals}
    (h : fromDecimalString decimals text = .ok x) : ∃ n : DecimalNumeral, n.spelling = text := by
  rw [fromDecimalString] at h
  generalize hparts : splitDecimal text = parts at h
  obtain ⟨negative, intPart, fracPart⟩ := parts
  simp only at h
  split_ifs at h with hempty
  have hsome : intPart ≠ [] ∨ fracPart ≠ [] := by
    rw [Bool.and_eq_true, List.isEmpty_iff, List.isEmpty_iff] at hempty
    exact not_and_or.mp hempty
  obtain ⟨intValue, hint, hrest⟩ := exists_of_bind_ok h
  obtain ⟨fracValue, hfrac, -⟩ := exists_of_bind_ok hrest
  obtain ⟨digits, hloop, -⟩ := exists_of_bind_ok hfrac
  refine exists_spelling_of_split ?_ ?_ ?_ <;> rw [hparts]
  · exact allDigits_of_foldlM_ok (fun _ _ _ => isDigit_of_intStep_ok) hint
  · exact allDigits_of_foldlM_ok (fun _ _ _ => isDigit_of_fracStep_ok) hloop
  · exact hsome

end Hermeneutic
