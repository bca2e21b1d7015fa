import Mathlib.Order.Defs.LinearOrder
import Mathlib.Order.Lattice
import Mathlib.Algebra.Order.Ring.Int
import Hermeneutic.Core.Rounding

/-!
# Fixed-point values over `int64_t`

`BasicFixedPoint decimals` is a decimal value stored as an `int64_t` scaled by
`10 ^ decimals` (`core/fixed_point.hpp`). The arithmetic widens to `__int128`, which is
exact here (`ℤ`), and narrows back with `from_raw_checked`. Its range checks are `assert`s,
so a release build narrows with `static_cast<int64_t>` alone: an out-of-range result wraps
modulo `2 ^ 64`. `fromRawChecked` keeps that behaviour, and `val_fromRawChecked` says when
it is the identity. `fromRawSafe` is the sibling that reports an out-of-range value instead.

`fixedMultiply` and `fixedDivide` rescale between widths: they round once, with
`roundDivNearestAway`, and narrow once, with `fromRawChecked`.
-/

namespace Hermeneutic

/-- The error codes the book operations and the band functions return. -/
inductive Errc
  | invalidArgument
  | notEnoughMemory
  | resultOutOfRange
  | argumentOutOfDomain
  deriving DecidableEq, Repr

/-- A decimal value with `decimals` digits after the point, scaled into an `int64_t`. -/
structure BasicFixedPoint (decimals : ℕ) where
  /-- The scaled integer, `raw_`. -/
  raw : Int64
  deriving DecidableEq, Repr

/-- The largest `int64_t`. -/
def int64Max : ℤ := 2 ^ 63 - 1

/-- What `fromRawChecked` asserts of the value it narrows. -/
def InRange (value : ℤ) : Prop := -2 ^ 63 ≤ value ∧ value ≤ int64Max

instance (value : ℤ) : Decidable (InRange value) := inferInstanceAs (Decidable (_ ∧ _))

theorem inRange_of_nonneg {value : ℤ} (h : 0 ≤ value) : InRange value ↔ value ≤ int64Max :=
  and_iff_right (by omega)

namespace BasicFixedPoint

variable {decimals : ℕ}

/-- The number of raw units in one whole unit. -/
def scale (decimals : ℕ) : ℤ := 10 ^ decimals

/-- The value a raw integer stores. -/
def fromRaw (raw : Int64) : BasicFixedPoint decimals := ⟨raw⟩

/-- Narrowing of a widened intermediate, `static_cast<raw_type>`: it wraps out of range. -/
def fromRawChecked (value : ℤ) : BasicFixedPoint decimals := ⟨Int64.ofInt value⟩

/-- Narrowing that reports an out-of-range intermediate, also in a release build. -/
def fromRawSafe (value : ℤ) : Except Errc (BasicFixedPoint decimals) :=
  if value > int64Max || value < -2 ^ 63 then .error .resultOutOfRange
  else .ok (fromRaw (Int64.ofInt value))

/-- The raw integer as a mathematical one. -/
def val (x : BasicFixedPoint decimals) : ℤ := x.raw.toInt

private theorem val_injective : Function.Injective (val : BasicFixedPoint decimals → ℤ) := by
  rintro ⟨x⟩ ⟨y⟩ h
  exact congrArg mk (Int64.toInt_inj.mp h)

theorem val_inj {x y : BasicFixedPoint decimals} : x.val = y.val ↔ x = y :=
  val_injective.eq_iff

theorem le_val (x : BasicFixedPoint decimals) : -2 ^ 63 ≤ x.val := x.raw.le_toInt

theorem val_le (x : BasicFixedPoint decimals) : x.val ≤ int64Max := by
  have := x.raw.toInt_lt
  rw [int64Max, val]
  omega

theorem int64Max_pos : 0 < int64Max := by decide

/-- In range, narrowing keeps the value. -/
theorem val_fromRawChecked {value : ℤ} (hlow : -2 ^ 63 ≤ value) (hhigh : value ≤ int64Max) :
    (fromRawChecked value : BasicFixedPoint decimals).val = value := by
  rw [int64Max] at hhigh
  exact Int64.toInt_ofInt_of_le hlow (by omega)

theorem fromRawSafe_of_le {value : ℤ} (hlow : -2 ^ 63 ≤ value) (hhigh : value ≤ int64Max) :
    fromRawSafe value = .ok (fromRawChecked value : BasicFixedPoint decimals) :=
  if_neg (by simpa using ⟨hhigh, hlow⟩)

theorem fromRawSafe_of_gt {value : ℤ} (h : int64Max < value) :
    (fromRawSafe value : Except Errc (BasicFixedPoint decimals)) = .error .resultOutOfRange :=
  if_pos (by simp [h])

@[simp] theorem fromRawChecked_val (x : BasicFixedPoint decimals) : fromRawChecked x.val = x :=
  val_inj.mp (val_fromRawChecked x.le_val x.val_le)

@[simp] theorem fromRawSafe_val (x : BasicFixedPoint decimals) : fromRawSafe x.val = .ok x := by
  rw [fromRawSafe_of_le x.le_val x.val_le, fromRawChecked_val]

/-- The checked narrowing keeps the value whenever it succeeds. -/
theorem val_of_fromRawSafe {value : ℤ} {x : BasicFixedPoint decimals}
    (h : fromRawSafe value = .ok x) : x.val = value := by
  rw [fromRawSafe] at h
  split_ifs at h with hout
  · simp only [Bool.or_eq_true, decide_eq_true_eq, not_or, not_lt, gt_iff_lt] at hout
    rw [← Except.ok.inj h]
    exact val_fromRawChecked hout.2 hout.1

/-- A value-initialised `BasicFixedPoint{}`. -/
instance : Zero (BasicFixedPoint decimals) := ⟨⟨0⟩⟩

/-- `operator+`. -/
instance : Add (BasicFixedPoint decimals) := ⟨fun x y => fromRawChecked (x.val + y.val)⟩

/-- Binary `operator-`. -/
instance : Sub (BasicFixedPoint decimals) := ⟨fun x y => fromRawChecked (x.val - y.val)⟩

@[simp] theorem val_zero : (0 : BasicFixedPoint decimals).val = 0 := rfl

theorem add_def (x y : BasicFixedPoint decimals) : x + y = fromRawChecked (x.val + y.val) := rfl

private theorem sub_def (x y : BasicFixedPoint decimals) : x - y = fromRawChecked
    (x.val - y.val) := rfl

/-- The defaulted `operator<=>`: the order of the raw integers. -/
instance : LinearOrder (BasicFixedPoint decimals) := LinearOrder.lift' val val_injective

theorem le_iff_val_le {x y : BasicFixedPoint decimals} : x ≤ y ↔ x.val ≤ y.val := Iff.rfl

theorem lt_iff_val_lt {x y : BasicFixedPoint decimals} : x < y ↔ x.val < y.val := Iff.rfl

theorem val_eq_zero_iff {x : BasicFixedPoint decimals} : x.val = 0 ↔ x = 0 :=
  val_inj (y := 0)

/-- The difference of two non-negative values is in range. -/
theorem val_sub_of_nonneg {x y : BasicFixedPoint decimals} (hx : 0 ≤ x.val) (hy : 0 ≤ y.val) :
    (x - y).val = x.val - y.val := by
  have hxmax := x.val_le
  have hymax := y.val_le
  rw [int64Max] at hxmax hymax
  rw [sub_def, val_fromRawChecked (by omega) (by rw [int64Max]; omega)]

/-- `10 ^ exponent`, the factor between two widths. -/
def pow10 (exponent : ℕ) : ℤ := 10 ^ exponent

variable {dividend divisor factor factor' : ℕ}

/-- Cross-width multiplication: the product, rounded to the precision of the result. -/
def fixedMultiply (result : ℕ) (x : BasicFixedPoint factor) (y : BasicFixedPoint factor') :
    BasicFixedPoint result :=
  let shift := factor + factor' - result
  let rawProduct := x.val * y.val
  if shift = 0 then fromRawChecked rawProduct
  else fromRawChecked (roundDivNearestAway rawProduct (pow10 shift))

/-- Cross-width division, which rejects a divisor that is not positive. -/
def fixedDivide (result : ℕ) (x : BasicFixedPoint dividend) (y : BasicFixedPoint divisor) :
    Except Errc (BasicFixedPoint result) :=
  if y.val ≤ 0 then .error .argumentOutOfDomain
  else
    let shift := result + divisor - dividend
    let numerator := if shift > 0 then x.val * pow10 shift else x.val
    .ok (fromRawChecked (roundDivNearestAway numerator y.val))

end BasicFixedPoint

/-- Prices have nine decimals. -/
abbrev Price := BasicFixedPoint 9

/-- Sizes have six decimals. -/
abbrev Size := BasicFixedPoint 6

end Hermeneutic
