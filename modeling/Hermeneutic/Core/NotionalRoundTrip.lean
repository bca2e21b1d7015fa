import Hermeneutic.Core.Notional

/-!
# Multiplying and dividing back

A price times a size, divided by either factor again, rounds twice: the product is rescaled by
`10 ^ 6` and rounded, then scaled up by `10 ^ 6` and divided. `roundTrip a d` is what comes
back of `a` through a product with `d`. The first rounding is off by at most half a unit, which
the rescaling turns into `10 ^ 6 / (2 * d)` units of the result: below one half once the
divisor is one whole unit or more, so the second rounding undoes it.
-/

namespace Hermeneutic

open BasicFixedPoint

/-- Dividing by a positive price rounds once and narrows once. -/
private theorem div_price_eq (notional : Notional) {price : Price} (hprice : 0 < price.val) :
    (notional / price : Except Errc Size) =
      .ok (fromRawChecked (roundedQuotient (notional.val * 10 ^ 6) price.val)) := by
  rw [← roundDivNearestAway_eq _ hprice]
  exact if_neg hprice.not_ge

/-- What a raw factor `a` is recovered as from its rounded product with `d`. -/
def roundTrip (a d : ℤ) : ℤ :=
  roundedQuotient (roundedQuotient (a * d) (10 ^ 6) * 10 ^ 6) d

section RoundTrip

variable {a d : ℤ}

private theorem roundTrip_nonneg (ha : 0 < a) (hd : 0 < d) : 0 ≤ roundTrip a d :=
  roundedQuotient_nonneg (mul_nonneg (roundedQuotient_nonneg (mul_pos ha hd).le (by norm_num))
    (by norm_num)) hd

/-- The two rounding errors together. -/
private theorem abs_roundTrip_le (a : ℤ) (hd : 0 < d) : |2 *
    (d * (a - roundTrip a d))| ≤ 10 ^ 6 + d := by
  have hproduct := abs_two_mul_sub_roundedQuotient (a * d) (show (0 : ℤ) < 10 ^ 6 by norm_num)
  have hquotient := abs_two_mul_sub_roundedQuotient
    (roundedQuotient (a * d) (10 ^ 6) * 10 ^ 6) hd
  rw [abs_le] at hproduct hquotient ⊢
  rw [roundTrip]
  constructor <;> linarith [hproduct.1, hproduct.2, hquotient.1, hquotient.2]

/-- The factor comes back to within the first rounding error, rescaled and rounded up. -/
private theorem abs_roundTrip_sub_le (a : ℤ) (hd : 0 < d) :
    |roundTrip a d - a| ≤ ⌈(10 ^ 6 / (2 * d) : ℚ)⌉ := by
  have hd' : (0 : ℚ) < d := by exact_mod_cast hd
  have herror : (|2 * (d * (a - roundTrip a d))| : ℚ) ≤ 10 ^ 6 + d := by
    exact_mod_cast abs_roundTrip_le a hd
  have hceil : (10 ^ 6 / (2 * d) : ℚ) ≤ ⌈(10 ^ 6 / (2 * d) : ℚ)⌉ := Int.le_ceil _
  rw [div_le_iff₀ (by positivity)] at hceil
  rw [abs_mul, abs_mul, abs_two, abs_of_pos hd', abs_sub_comm] at herror
  -- at most half a unit more than an integer, so at most that integer
  refine Int.lt_add_one_iff.mp ?_
  have hlt : (|roundTrip a d - a| : ℚ) < ⌈(10 ^ 6 / (2 * d) : ℚ)⌉ + 1 := by
    by_contra hge
    rw [not_lt] at hge
    nlinarith [mul_le_mul_of_nonneg_left hge hd'.le]
  exact_mod_cast hlt

/-- Through a divisor of at least one whole unit, the factor comes back exactly. -/
private theorem roundTrip_eq (hd : 10 ^ 6 ≤ d) : roundTrip a d = a := by
  have hpos : 0 < d := lt_of_lt_of_le (by norm_num) hd
  rcases eq_or_lt_of_le hd with rfl | hlt
  · -- at exactly one unit neither division rounds
    rw [roundTrip, roundedQuotient_mul_self a (by norm_num),
      roundedQuotient_mul_self a (by norm_num)]
  · have herror := abs_roundTrip_le a hpos
    rw [abs_le] at herror
    refine (sub_eq_zero.mp (Int.abs_lt_one_iff.mp ?_)).symm
    rw [abs_lt]
    constructor <;> nlinarith [herror.1, herror.2]

end RoundTrip

/-- **Round trips through a notional.** Dividing a product that fits by a factor of at least one
whole unit recovers the other exactly; by any other factor, to within its rescaled error. -/
theorem mul_div_round_trip {price : Price} {size : Size} (hprice : 0 < price.val)
    (hsize : 0 < size.val) (hfits : notionalOf price size ≤ int64Max) :
    (10 ^ 6 ≤ size.val → ((price * size : Notional) / size : Except Errc Price) = .ok price) ∧
    (10 ^ 6 ≤ price.val → ((price * size : Notional) / price : Except Errc Size) = .ok size) ∧
    (roundedQuotient ((price * size : Notional).val * 10 ^ 6) size.val ≤ int64Max →
      ∃ recovered : Price, ((price * size : Notional) / size : Except Errc Price) = .ok recovered ∧
        |recovered.val - price.val| ≤ ⌈(10 ^ 6 / (2 * size.val) : ℚ)⌉) ∧
    (roundedQuotient ((price * size : Notional).val * 10 ^ 6) price.val ≤ int64Max →
      ∃ recovered : Size, ((price * size : Notional) / price : Except Errc Size) = .ok recovered ∧
        |recovered.val - size.val| ≤ ⌈(10 ^ 6 / (2 * price.val) : ℚ)⌉) := by
  have hvalue : (price * size : Notional).val = notionalOf price size :=
    val_mul hprice.le hsize.le hfits
  have hbySize : roundedQuotient ((price * size : Notional).val * 10 ^ 6) size.val =
      roundTrip price.val size.val := by
    rw [hvalue]
    rfl
  have hbyPrice : roundedQuotient ((price * size : Notional).val * 10 ^ 6) price.val =
      roundTrip size.val price.val := by
    rw [hvalue, notionalOf, mul_comm price.val]
    rfl
  rw [div_size_eq _ hsize, div_price_eq _ hprice, hbySize, hbyPrice]
  refine ⟨fun hunit => ?_, fun hunit => ?_, fun hquotient => ⟨_, rfl, ?_⟩,
    fun hquotient => ⟨_, rfl, ?_⟩⟩
  · rw [roundTrip_eq hunit, fromRawChecked_val]
  · rw [roundTrip_eq hunit, fromRawChecked_val]
  · have hnonneg := roundTrip_nonneg hprice hsize
    rw [val_fromRawChecked (by omega) hquotient]
    exact abs_roundTrip_sub_le price.val hsize
  · have hnonneg := roundTrip_nonneg hsize hprice
    rw [val_fromRawChecked (by omega) hquotient]
    exact abs_roundTrip_sub_le size.val hprice

/-- Three raw units of price at a size of one and a half: the product is a tie, rounded up. -/
theorem mul_div_round_trip_tie :
    (((⟨3⟩ : Price) * (⟨1500000⟩ : Size) : Notional) / (⟨1500000⟩ : Size) : Except Errc Price) =
      .ok ⟨3⟩ :=
  (@mul_div_round_trip ⟨3⟩ ⟨1500000⟩ (by decide) (by decide)
    (roundedQuotient_le (by norm_num) (by decide))).1 (by decide)

end Hermeneutic
