import Hermeneutic.Core.FixedPoint

/-!
# Notional values

`Notional` is a value in quote-currency terms, kept at the precision of `Price`
(`core/notional.hpp`): a price times a size, rounded to nine decimals. Dividing it by a size
gives back a price, and by a price a size.

`notionalOf` is the product in exact arithmetic, and `val_mul` says that the operator computes
it as long as it fits an `int64_t`.
-/

namespace Hermeneutic

open BasicFixedPoint

/-- Notional values have nine decimals, like prices. -/
abbrev Notional := BasicFixedPoint 9

/-- `Price * Size -> Notional`. -/
instance : HMul Price Size Notional := ⟨fixedMultiply 9⟩

/-- `Notional / Price -> Size`. -/
instance : HDiv Notional Price (Except Errc Size) := ⟨fixedDivide 6⟩

/-- `Notional / Size -> Price`. -/
instance : HDiv Notional Size (Except Errc Price) := ⟨fixedDivide 9⟩

/-- The rounded product of a price and a size, in raw units of `Notional`. -/
def notionalOf (price : Price) (size : Size) : ℤ :=
  roundedQuotient (price.val * size.val) (10 ^ 6)

private theorem mul_eq (price : Price) (size : Size) :
    price * size = (fromRawChecked (notionalOf price size) : Notional) := by
  rw [notionalOf, ← roundDivNearestAway_eq _ (by norm_num)]
  rfl

theorem notionalOf_nonneg {price : Price} {size : Size} (hprice : 0 ≤ price.val)
    (hsize : 0 ≤ size.val) : 0 ≤ notionalOf price size :=
  roundedQuotient_nonneg (mul_nonneg hprice hsize) (by norm_num)

/-- A product that fits is not wrapped. -/
theorem val_mul {price : Price} {size : Size} (hprice : 0 ≤ price.val) (hsize : 0 ≤ size.val)
    (hfits : notionalOf price size ≤ int64Max) :
    (price * size : Notional).val = notionalOf price size := by
  have hnonneg := notionalOf_nonneg hprice hsize
  rw [mul_eq, val_fromRawChecked (by omega) hfits]

/-- Dividing by a positive size rounds once and narrows once. -/
theorem div_size_eq (notional : Notional) {size : Size} (hsize : 0 < size.val) :
    (notional / size : Except Errc Price) =
      .ok (fromRawChecked (roundedQuotient (notional.val * 10 ^ 6) size.val)) := by
  rw [← roundDivNearestAway_eq _ hsize]
  exact if_neg hsize.not_ge

end Hermeneutic
