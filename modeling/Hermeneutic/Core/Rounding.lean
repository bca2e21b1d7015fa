import Mathlib.Data.Rat.Floor
import Mathlib.Tactic.FieldSimp
import Mathlib.Tactic.Positivity
import Hermeneutic.ForMathlib.RoundHalfAway

/-!
# The integer division every rescaling shares

`roundDivNearestAway` is `detail::round_div_nearest_away` (`core/rounding.hpp`): a truncating
division corrected by one when the remainder reaches half the denominator. On a positive
denominator it computes `roundedQuotient`, the rational quotient rounded with `roundHalfAway`
(`roundDivNearestAway_eq`), which is how the rest of the development reads it. The rules of
`roundHalfAway` are restated for a quotient with the denominator cleared.
-/

namespace Hermeneutic

/-- `numerator / denominator` rounded to the nearest integer, ties away from zero. -/
def roundDivNearestAway (numerator denominator : ℤ) : ℤ :=
  let quotient := numerator.tdiv denominator
  let remainder := numerator.tmod denominator
  let absRemainder := if remainder ≥ 0 then remainder else -remainder
  -- the remainder is compared with half the denominator, rounded up: nothing is doubled
  let half := denominator.tdiv 2 + denominator.tmod 2
  if absRemainder ≥ half then quotient + (if numerator ≥ 0 then 1 else -1) else quotient

/-- The rational quotient, rounded to the nearest integer with ties away from zero. -/
def roundedQuotient (numerator denominator : ℤ) : ℤ :=
  roundHalfAway (numerator / denominator : ℚ)

/-- Twice the numerator is within one denominator of twice the rounded quotient. -/
private theorem roundDivNearestAway_bounds {n d : ℤ} (hn : 0 ≤ n) (hd : 0 < d) :
    (2 * roundDivNearestAway n d - 1) * d ≤ 2 * n ∧
      2 * n < (2 * roundDivNearestAway n d + 1) * d := by
  have hrem : 0 ≤ n % d := Int.emod_nonneg n hd.ne'
  have hlt : n % d < d := Int.emod_lt_of_pos n hd
  have hdiv : d * (n / d) + n % d = n := Int.mul_ediv_add_emod n d
  simp only [roundDivNearestAway, Int.tdiv_eq_ediv_of_nonneg hn, Int.tmod_eq_emod_of_nonneg hn,
    Int.tdiv_eq_ediv_of_nonneg hd.le, Int.tmod_eq_emod_of_nonneg hd.le, ge_iff_le, if_pos hrem,
    if_pos hn]
  split_ifs with h
  · have hhalf : d ≤ 2 * (n % d) := by omega
    constructor <;> linarith
  · have hhalf : 2 * (n % d) < d := by omega
    constructor <;> linarith

/-- Below zero the algorithm is reflected. -/
private theorem roundDivNearestAway_neg {n : ℤ} (hn : 0 < n) (d : ℤ) :
    roundDivNearestAway (-n) d = -roundDivNearestAway n d := by
  have habs : (if 0 ≤ -n.tmod d then -n.tmod d else n.tmod d) =
      if 0 ≤ n.tmod d then n.tmod d else -n.tmod d := by
    split_ifs <;> omega
  simp only [roundDivNearestAway, Int.neg_tdiv, Int.neg_tmod, ge_iff_le, neg_neg, habs,
    if_pos hn.le, if_neg (show ¬0 ≤ -n by omega)]
  split_ifs <;> omega

/-- The algorithm computes the nearest integer to the rational quotient. -/
theorem roundDivNearestAway_eq (n : ℤ) {d : ℤ} (hd : 0 < d) :
    roundDivNearestAway n d = roundedQuotient n d := by
  have hd' : (0 : ℚ) < d := by exact_mod_cast hd
  have hnonneg : ∀ n : ℤ, 0 ≤ n → roundDivNearestAway n d = roundedQuotient n d := by
    intro n hn
    obtain ⟨hlow, hhigh⟩ := roundDivNearestAway_bounds hn hd
    have hn' : (0 : ℚ) ≤ n := by exact_mod_cast hn
    refine (roundHalfAway_eq_of_mem (by positivity) ?_ ?_).symm
    · have hlow' : (2 * roundDivNearestAway n d - 1) * (d : ℚ) ≤ 2 * n := by exact_mod_cast hlow
      rw [le_div_iff₀ hd']
      linarith
    · have hhigh' : 2 * (n : ℚ) < (2 * roundDivNearestAway n d + 1) * d := by exact_mod_cast hhigh
      rw [div_lt_iff₀ hd']
      linarith
  rcases le_or_gt 0 n with hn | hn
  · exact hnonneg n hn
  · -- a negative numerator is the reflection of a positive one
    have hpos : (0 : ℚ) < ((-n : ℤ) : ℚ) / d := div_pos (by exact_mod_cast neg_pos.mpr hn) hd'
    rw [← neg_neg n, roundDivNearestAway_neg (neg_pos.mpr hn), hnonneg _ (neg_pos.mpr hn).le,
      roundedQuotient, roundedQuotient, Int.cast_neg (-n), neg_div, roundHalfAway_neg_of_pos hpos]

example : roundDivNearestAway 15 10 = 2 ∧ roundDivNearestAway (-15) 10 = -2 := by decide

/-! ### The rounded quotient with its denominator cleared -/

section Cleared

variable {n d v : ℤ}

theorem roundedQuotient_nonneg (hn : 0 ≤ n) (hd : 0 < d) : 0 ≤ roundedQuotient n d :=
  roundHalfAway_nonneg (div_nonneg (by exact_mod_cast hn) (by exact_mod_cast hd.le))

private theorem le_roundedQuotient (hd : 0 < d) (h : v * d ≤ n) : v ≤ roundedQuotient n d := by
  refine le_roundHalfAway ?_
  rw [le_div_iff₀ (by exact_mod_cast hd)]
  exact_mod_cast h

theorem roundedQuotient_le (hd : 0 < d) (h : n ≤ v * d) : roundedQuotient n d ≤ v := by
  refine roundHalfAway_le ?_
  rw [div_le_iff₀ (by exact_mod_cast hd)]
  exact_mod_cast h

/-- A quotient that is an integer is not rounded. -/
theorem roundedQuotient_mul_self (v : ℤ) (hd : 0 < d) : roundedQuotient (v * d) d = v :=
  le_antisymm (roundedQuotient_le hd le_rfl) (le_roundedQuotient hd le_rfl)

theorem roundedQuotient_zero (d : ℤ) : roundedQuotient 0 d = 0 := by
  rw [roundedQuotient, Int.cast_zero, zero_div, roundHalfAway_of_nonneg le_rfl, round_zero]

theorem roundedQuotient_le_iff (hn : 0 ≤ n) (hd : 0 < d) :
    roundedQuotient n d ≤ v ↔ 2 * n < (2 * v + 1) * d := by
  have hd' : (0 : ℚ) < d := by exact_mod_cast hd
  have hn' : (0 : ℚ) ≤ n := by exact_mod_cast hn
  have hclear : (2 * n < (2 * v + 1) * d) ↔ 2 * (n : ℚ) < (2 * v + 1) * d := by
    exact_mod_cast Iff.rfl
  rw [roundedQuotient, roundHalfAway_le_iff (by positivity), hclear, div_lt_iff₀ hd']
  constructor <;> intro h <;> linarith

/-- The rounding error, scaled by twice the denominator, is at most the denominator. -/
theorem abs_two_mul_sub_roundedQuotient (n : ℤ) (hd : 0 < d) :
    |2 * (n - d * roundedQuotient n d)| ≤ d := by
  have hd' : (0 : ℚ) < d := by exact_mod_cast hd
  have herr : |(n / d : ℚ) - roundedQuotient n d| ≤ 1 / 2 := abs_sub_roundHalfAway _
  have hscale : (2 : ℚ) * (n - d * roundedQuotient n d) =
      2 * d * (n / d - roundedQuotient n d) := by
    field_simp
  have hcast : |(2 : ℚ) * (n - d * roundedQuotient n d)| ≤ d := by
    rw [hscale, abs_mul, abs_of_pos (by positivity)]
    nlinarith
  exact_mod_cast hcast

end Cleared

end Hermeneutic
