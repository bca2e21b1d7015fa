import Mathlib.Algebra.Order.Round
import Mathlib.Algebra.Order.Field.Basic
import Mathlib.Tactic.Linarith

/-!
# Rounding to the nearest integer, ties away from zero

Mathlib's `round` breaks ties towards positive infinity. `roundHalfAway` is its odd
companion, the commercial rounding of fixed-point arithmetic: it agrees with `round` on
non-negative numbers and is reflected below zero.

The rules are those an error analysis needs: the rounding error is at most one half
(`abs_sub_roundHalfAway`), rounding is monotone and fixes the integers, so that an integer
bound on a number passes to the rounded one (`le_roundHalfAway`, `roundHalfAway_le`), and a
non-negative number rounds to at most `v` exactly when it is below `v + 1 / 2`
(`roundHalfAway_le_iff`).
-/

namespace Hermeneutic

variable {α : Type*} [Field α] [LinearOrder α] [IsStrictOrderedRing α] [FloorRing α]

/-- The nearest integer, ties away from zero. -/
def roundHalfAway (x : α) : ℤ :=
  if 0 ≤ x then round x else -round (-x)

omit [IsStrictOrderedRing α] in
theorem roundHalfAway_of_nonneg {x : α} (hx : 0 ≤ x) : roundHalfAway x = round x :=
  if_pos hx

omit [IsStrictOrderedRing α] in
private theorem roundHalfAway_of_neg {x : α} (hx : x < 0) : roundHalfAway x = -round (-x) :=
  if_neg hx.not_ge

theorem roundHalfAway_neg_of_pos {x : α} (hx : 0 < x) :
    roundHalfAway (-x) = -roundHalfAway x := by
  rw [roundHalfAway_of_neg (neg_neg_of_pos hx), neg_neg, roundHalfAway_of_nonneg hx.le]

@[simp] theorem roundHalfAway_intCast (v : ℤ) : roundHalfAway (v : α) = v := by
  rw [roundHalfAway]
  split_ifs
  · exact round_intCast v
  · rw [← Int.cast_neg, round_intCast, neg_neg]

theorem roundHalfAway_neg (x : α) : roundHalfAway (-x) = -roundHalfAway x := by
  rcases lt_trichotomy x 0 with hx | rfl | hx
  · rw [← neg_neg x, roundHalfAway_neg_of_pos (neg_pos.mpr hx), neg_neg, neg_neg]
  · rw [neg_zero, roundHalfAway_of_nonneg le_rfl, round_zero, neg_zero]
  · exact roundHalfAway_neg_of_pos hx

/-- The rounding error is at most one half. -/
theorem abs_sub_roundHalfAway (x : α) : |x - roundHalfAway x| ≤ 1 / 2 := by
  rcases le_or_gt 0 x with hx | hx
  · rw [roundHalfAway_of_nonneg hx]
    exact abs_sub_round x
  · rw [roundHalfAway_of_neg hx, Int.cast_neg, sub_neg_eq_add, ← abs_neg, neg_add']
    exact abs_sub_round (-x)

/-- A non-negative number rounds to at most `v` exactly when it is below `v + 1 / 2`. -/
theorem roundHalfAway_le_iff {x : α} (hx : 0 ≤ x) {v : ℤ} :
    roundHalfAway x ≤ v ↔ x < v + 1 / 2 := by
  rw [roundHalfAway_of_nonneg hx, round_eq, ← Int.lt_add_one_iff, Int.floor_lt]
  push_cast
  constructor <;> intro h <;> linarith

theorem roundHalfAway_nonneg {x : α} (hx : 0 ≤ x) : 0 ≤ roundHalfAway x := by
  rw [roundHalfAway_of_nonneg hx, round_eq, Int.floor_nonneg]
  linarith

theorem roundHalfAway_mono {x y : α} (h : x ≤ y) : roundHalfAway x ≤ roundHalfAway y := by
  have hround : ∀ {x y : α}, x ≤ y → round x ≤ round y := fun h => by
    simp only [round_eq]
    exact Int.floor_mono (by linarith)
  rcases le_or_gt 0 x with hx | hx
  · rw [roundHalfAway_of_nonneg hx, roundHalfAway_of_nonneg (hx.trans h)]
    exact hround h
  · rcases le_or_gt 0 y with hy | hy
    · -- a negative number rounds to at most zero, a non-negative one to at least zero
      refine le_trans ?_ (roundHalfAway_nonneg hy)
      rw [roundHalfAway_of_neg hx, neg_nonpos, ← roundHalfAway_of_nonneg (by linarith)]
      exact roundHalfAway_nonneg (by linarith)
    · rw [roundHalfAway_of_neg hx, roundHalfAway_of_neg hy]
      exact neg_le_neg (hround (neg_le_neg h))

theorem le_roundHalfAway {x : α} {v : ℤ} (h : (v : α) ≤ x) : v ≤ roundHalfAway x := by
  simpa using roundHalfAway_mono h

theorem roundHalfAway_le {x : α} {v : ℤ} (h : x ≤ v) : roundHalfAway x ≤ v := by
  simpa using roundHalfAway_mono h

theorem roundHalfAway_intCast_add {x : α} {v : ℤ} (hv : 0 ≤ v) (hx : 0 ≤ x) :
    roundHalfAway (v + x) = v + roundHalfAway x := by
  have hv' : (0 : α) ≤ v := by exact_mod_cast hv
  rw [roundHalfAway_of_nonneg (add_nonneg hv' hx), roundHalfAway_of_nonneg hx,
    round_intCast_add]

/-- The integer a non-negative number is within one half of, the upper half excluded. -/
theorem roundHalfAway_eq_of_mem {x : α} (hx : 0 ≤ x) {v : ℤ} (hlow : v - 1 / 2 ≤ x)
    (hhigh : x < v + 1 / 2) : roundHalfAway x = v := by
  rw [roundHalfAway_of_nonneg hx]
  exact round_eq_iff.mpr ⟨hlow, hhigh⟩

end Hermeneutic
