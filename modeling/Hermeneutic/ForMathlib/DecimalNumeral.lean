import Mathlib.Data.List.Induction
import Mathlib.Data.Rat.Floor
import Mathlib.Tactic.FieldSimp
import Mathlib.Tactic.Positivity
import Mathlib.Tactic.Ring
import Hermeneutic.ForMathlib.RoundHalfAway

/-!
# Decimal numerals and their values

`digitsValue` is the number a string of decimal digits denotes, Mathlib-side
`Nat.ofDigitChars` at base ten. A `DecimalNumeral` is an optional minus sign, digits and an
optional point followed by more digits, with at least one digit in all; `spelling` writes it
out and `value` is the rational it denotes.

Two facts serve a parser that keeps a fixed number of decimals. A digit string is below the
power of ten of its length (`digitsValue_lt`), so a prefix of it is accumulated without
growing. And one digit past the cut decides the rounding (`roundHalfAway_scaled`): under
rounding to the nearest integer, ties away from zero, the digits further right never matter.
-/

namespace Hermeneutic

/-- The number a string of decimal digits denotes. -/
def digitsValue (ds : List Char) : ℕ := Nat.ofDigitChars 10 ds 0

/-- The value of one digit. -/
def digitValue (c : Char) : ℕ := c.toNat - '0'.toNat

/-- Every character is a decimal digit. -/
def AllDigits (ds : List Char) : Prop := ∀ c ∈ ds, c.isDigit

instance (ds : List Char) : Decidable (AllDigits ds) :=
  inferInstanceAs (Decidable (∀ c ∈ ds, c.isDigit = true))

@[simp] theorem digitsValue_nil : digitsValue [] = 0 := Nat.ofDigitChars_nil

private theorem digitsValue_append (ds es : List Char) :
    digitsValue (ds ++ es) = digitsValue ds * 10 ^ es.length + digitsValue es := by
  rw [digitsValue, Nat.ofDigitChars_append, Nat.ofDigitChars_eq_ofDigitChars_zero, mul_comm]
  rfl

/-- One more digit. -/
theorem digitsValue_concat (ds : List Char) (c : Char) :
    digitsValue (ds ++ [c]) = digitsValue ds * 10 + digitValue c := by
  rw [digitsValue_append, List.length_singleton, pow_one]
  simp only [digitsValue, digitValue, Nat.ofDigitChars_cons, Nat.ofDigitChars_nil, mul_zero,
    zero_add]

theorem digitValue_le {c : Char} (h : c.isDigit) : digitValue c ≤ 9 := by
  have hhigh : c.toNat ≤ '9'.toNat := (Char.isDigit_iff_toNat.mp h).2
  exact Nat.sub_le_sub_right hhigh '0'.toNat

@[simp] theorem allDigits_nil : AllDigits [] := by simp [AllDigits]

theorem allDigits_concat {ds : List Char} {c : Char} :
    AllDigits (ds ++ [c]) ↔ AllDigits ds ∧ c.isDigit := by
  simp only [AllDigits, List.forall_mem_append, List.forall_mem_singleton]

theorem AllDigits.take {ds : List Char} (h : AllDigits ds) (n : ℕ) : AllDigits (ds.take n) :=
  fun c hc => h c (List.mem_of_mem_take hc)

/-- A digit string is below the power of ten of its length. -/
theorem digitsValue_lt {ds : List Char} (h : AllDigits ds) : digitsValue ds < 10 ^ ds.length := by
  induction ds using List.reverseRecOn with
  | nil => simp
  | append_singleton ds c ih =>
    obtain ⟨hds, hc⟩ := allDigits_concat.mp h
    have hprev := ih hds
    have hdigit := digitValue_le hc
    rw [digitsValue_concat, List.length_append, List.length_singleton, pow_succ]
    omega

/-- An optional `-`, digits, and optionally `.` and more digits; at least one digit in all. -/
structure DecimalNumeral where
  negative : Bool
  whole : List Char
  fraction : Option (List Char)
  whole_digits : AllDigits whole
  fraction_digits : AllDigits (fraction.getD [])
  some_digit : whole ≠ [] ∨ fraction.getD [] ≠ []

namespace DecimalNumeral

variable (n : DecimalNumeral)

/-- The digits after the point, none without one. -/
def fractionDigits : List Char := n.fraction.getD []

theorem allDigits_fractionDigits : AllDigits n.fractionDigits := n.fraction_digits

/-- A numeral without its sign, written out. -/
def unsignedSpelling : List Char :=
  n.whole ++ n.fraction.elim [] fun ds => '.' :: ds

/-- The numeral written out. -/
def spelling : List Char :=
  if n.negative then '-' :: n.unsignedSpelling else n.unsignedSpelling

/-- The number denoted, without its sign. -/
def magnitude : ℚ :=
  digitsValue n.whole + digitsValue n.fractionDigits / 10 ^ n.fractionDigits.length

/-- The number denoted. -/
def value : ℚ := if n.negative then -n.magnitude else n.magnitude

theorem magnitude_nonneg : 0 ≤ n.magnitude := by
  rw [magnitude]
  positivity

private theorem eq_point_or_isDigit_of_mem {c : Char} (h : c ∈ n.unsignedSpelling) :
    c = '.' ∨ c.isDigit := by
  rcases List.mem_append.mp h with hwhole | hfraction
  · exact .inr (n.whole_digits c hwhole)
  · have hdigits := n.fraction_digits
    cases hf : n.fraction with
    | none => simp [hf] at hfraction
    | some ds =>
      rw [hf] at hfraction hdigits
      exact (List.mem_cons.mp hfraction).imp_right (hdigits c)

/-- The sign is the only minus of a spelling. -/
theorem minus_notMem : '-' ∉ n.unsignedSpelling := by
  intro h
  rcases n.eq_point_or_isDigit_of_mem h with heq | hdigit
  · exact absurd heq (by decide)
  · exact absurd hdigit (by decide)

/-- A spelling without a point has no fraction. -/
theorem fraction_eq_none (h : '.' ∉ n.spelling) : n.fraction = none := by
  cases hf : n.fraction with
  | none => rfl
  | some ds =>
    refine absurd ?_ h
    rw [spelling]
    split_ifs <;> simp [unsignedSpelling, hf]

/-- A digit string as a numeral. -/
def ofDigits (ds : List Char) (hdigits : AllDigits ds) (hne : ds ≠ []) : DecimalNumeral :=
  ⟨false, ds, none, hdigits, allDigits_nil, .inl hne⟩

theorem spelling_ofDigits {ds : List Char} (hdigits : AllDigits ds) (hne : ds ≠ []) :
    (ofDigits ds hdigits hne).spelling = ds :=
  List.append_nil ds

theorem point_notMem_whole : '.' ∉ n.whole :=
  fun h => absurd (n.whole_digits _ h) (by decide)

end DecimalNumeral

/-! ### One digit past the cut decides -/

section Cut

variable {α : Type*} [Field α] [LinearOrder α] [IsStrictOrderedRing α] [FloorRing α]

/-- What follows the digit after the cut is too small to change the rounded value. -/
private theorem roundHalfAway_tenth_add {n : ℕ} {ε : α} (hε : 0 ≤ ε) (hε' : ε < 1) :
    roundHalfAway ((n + ε) / 10) = roundHalfAway (n / 10 : α) := by
  obtain ⟨q, r, hr, rfl⟩ : ∃ q r, r < 10 ∧ n = 10 * q + r :=
    ⟨n / 10, n % 10, Nat.mod_lt n (by norm_num), (Nat.div_add_mod n 10).symm⟩
  have hq : (0 : α) ≤ q := Nat.cast_nonneg q
  have hr₀ : (0 : α) ≤ r := Nat.cast_nonneg r
  -- whatever follows, the digit `r` alone says on which side of the half the number lies
  obtain ⟨v, hround⟩ : ∃ v : ℤ, ∀ ε : α, 0 ≤ ε → ε < 1 →
      roundHalfAway (((10 * q + r : ℕ) + ε) / 10) = v := by
    rcases lt_or_ge r 5 with hlow | hhigh
    · have hdigit : (r : α) ≤ 4 := by exact_mod_cast Nat.le_of_lt_succ hlow
      refine ⟨(q : ℤ), fun ε hε hε' => roundHalfAway_eq_of_mem (by positivity) ?_ ?_⟩ <;>
        push_cast <;> linarith
    · have hdigit : (5 : α) ≤ r := by exact_mod_cast hhigh
      have hlt : (r : α) ≤ 9 := by exact_mod_cast Nat.le_of_lt_succ hr
      refine ⟨(q : ℤ) + 1, fun ε hε hε' => roundHalfAway_eq_of_mem (by positivity) ?_ ?_⟩ <;>
        push_cast <;> linarith
  rw [hround ε hε hε', ← hround 0 le_rfl one_pos, add_zero]

/-- A fraction scaled by a power of ten, rounded: the digits past the first one after the cut
do not matter, and a fraction that ends before the cut is not rounded. -/
theorem roundHalfAway_scaled {ds : List Char} (h : AllDigits ds) (d : ℕ) :
    roundHalfAway ((digitsValue ds / 10 ^ ds.length : α) * 10 ^ d) =
      if d < ds.length then roundHalfAway (digitsValue (ds.take (d + 1)) / 10 : α)
      else digitsValue ds * 10 ^ (d - ds.length) := by
  split_ifs with hlen
  · -- the digits dropped weigh less than one unit of the last digit kept
    have hlength : (ds.drop (d + 1)).length + (d + 1) = ds.length := by
      rw [List.length_drop]
      omega
    have hvalue : digitsValue ds = digitsValue (ds.take (d + 1)) *
        10 ^ (ds.drop (d + 1)).length + digitsValue (ds.drop (d + 1)) := by
      rw [← digitsValue_append, List.take_append_drop]
    have hdrop : AllDigits (ds.drop (d + 1)) := fun c hc => h c (List.mem_of_mem_drop hc)
    have hsmall : (digitsValue (ds.drop (d + 1)) : α) < 10 ^ (ds.drop (d + 1)).length := by
      exact_mod_cast digitsValue_lt hdrop
    have hscaled : (digitsValue ds / 10 ^ ds.length : α) * 10 ^ d =
        (digitsValue (ds.take (d + 1)) + digitsValue (ds.drop (d + 1)) /
          10 ^ (ds.drop (d + 1)).length) / 10 := by
      rw [hvalue, ← hlength, pow_add, pow_succ]
      push_cast
      field_simp
    rw [hscaled, roundHalfAway_tenth_add (by positivity) ((div_lt_one (by positivity)).mpr hsmall)]
  · have hscaled : (digitsValue ds / 10 ^ ds.length : α) * 10 ^ d =
        ((digitsValue ds * 10 ^ (d - ds.length) : ℤ) : α) := by
      obtain ⟨k, rfl⟩ := Nat.exists_eq_add_of_le (not_lt.mp hlen)
      rw [pow_add, Nat.add_sub_cancel_left]
      push_cast
      field_simp
    rw [hscaled, roundHalfAway_intCast]

end Cut

namespace DecimalNumeral

variable (n : DecimalNumeral) (d : ℕ)

/-- The digits before the point are scaled exactly: only the fraction is rounded. -/
theorem roundHalfAway_magnitude : roundHalfAway (n.magnitude * 10 ^ d) =
    digitsValue n.whole * 10 ^ d + roundHalfAway
      ((digitsValue n.fractionDigits / 10 ^ n.fractionDigits.length : ℚ) * 10 ^ d) := by
  have hsplit : n.magnitude * 10 ^ d = ((digitsValue n.whole * 10 ^ d : ℤ) : ℚ) +
      (digitsValue n.fractionDigits / 10 ^ n.fractionDigits.length : ℚ) * 10 ^ d := by
    rw [magnitude]
    push_cast
    ring
  rw [hsplit, roundHalfAway_intCast_add (by positivity) (by positivity)]

/-- Rounding ties away from zero commutes with the sign. -/
theorem roundHalfAway_value : roundHalfAway (n.value * 10 ^ d) =
    if n.negative then -roundHalfAway (n.magnitude * 10 ^ d)
    else roundHalfAway (n.magnitude * 10 ^ d) := by
  rw [value]
  split_ifs
  · rw [neg_mul, roundHalfAway_neg]
  · rfl

/-- Without a fraction nothing is rounded. -/
theorem roundHalfAway_magnitude_of_fraction (h : n.fraction = none) :
    roundHalfAway (n.magnitude * 10 ^ d) = digitsValue n.whole * 10 ^ d := by
  rw [roundHalfAway_magnitude, fractionDigits, h]
  simp [roundHalfAway_of_nonneg]

end DecimalNumeral

end Hermeneutic
