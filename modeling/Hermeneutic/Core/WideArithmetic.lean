import Hermeneutic.Core.Rounding

/-!
# The 128-bit intermediates

The source widens to `__int128` before it multiplies or rescales, and the model computes in
`ℤ` instead. That is faithful only as long as no intermediate leaves the range of the wide
type. The intermediates of a computation are listed next to it, and `FitsInt128` is what has
to hold of each of them; `roundDivIntermediates` are those of the division every rescaling
shares, and a numerator and a denominator that fit keep them in range (`fits_roundDiv`).
-/

namespace Hermeneutic

/-- The range of `__int128`. -/
def FitsInt128 (value : ℤ) : Prop := -2 ^ 127 ≤ value ∧ value < 2 ^ 127

/-- The range of `unsigned __int128`. -/
def FitsUInt128 (value : ℤ) : Prop := 0 ≤ value ∧ value < 2 ^ 128

instance (value : ℤ) : Decidable (FitsInt128 value) :=
  inferInstanceAs (Decidable (_ ∧ _))

instance (value : ℤ) : Decidable (FitsUInt128 value) :=
  inferInstanceAs (Decidable (_ ∧ _))

theorem fitsInt128_of_nonneg {value bound : ℤ} (hvalue : 0 ≤ value) (hbound : value ≤ bound)
    (hfits : bound < 2 ^ 127) : FitsInt128 value :=
  ⟨by linarith, by omega⟩

/-- What `roundDivNearestAway` computes on the way, its result last. -/
def roundDivIntermediates (numerator denominator : ℤ) : List ℤ :=
  let remainder := numerator.tmod denominator
  [numerator.tdiv denominator, remainder, if remainder ≥ 0 then remainder else -remainder,
    denominator.tdiv 2, denominator.tmod 2, denominator.tdiv 2 + denominator.tmod 2,
    roundDivNearestAway numerator denominator]

/-- On a numerator and a denominator in range, so is everything the division computes. -/
theorem fits_roundDiv {n d : ℤ} (hn : 0 ≤ n) (hd : 0 < d) (hnfits : n < 2 ^ 127)
    (hdfits : d < 2 ^ 127) : ∀ value ∈ roundDivIntermediates n d, FitsInt128 value := by
  have hrem : 0 ≤ n % d := Int.emod_nonneg n hd.ne'
  have hlt : n % d < d := Int.emod_lt_of_pos n hd
  have hquot : 0 ≤ n / d := Int.ediv_nonneg hn hd.le
  have hquot' : n / d ≤ n := Int.ediv_le_self d hn
  -- rounding up to more than the numerator would need a denominator below one
  have hround : roundDivNearestAway n d ≤ n := by
    rw [roundDivNearestAway_eq n hd]
    exact roundedQuotient_le hd (le_mul_of_one_le_right hn hd)
  have hround' : 0 ≤ roundDivNearestAway n d := by
    rw [roundDivNearestAway_eq n hd]
    exact roundedQuotient_nonneg hn hd
  simp only [roundDivIntermediates, Int.tdiv_eq_ediv_of_nonneg hn, Int.tmod_eq_emod_of_nonneg hn,
    Int.tdiv_eq_ediv_of_nonneg hd.le, Int.tmod_eq_emod_of_nonneg hd.le, ge_iff_le, if_pos hrem,
    List.forall_mem_cons, FitsInt128]
  refine ⟨?_, ?_, ?_, ?_, ?_, ?_, ?_, by simp⟩ <;> constructor <;> omega

end Hermeneutic
