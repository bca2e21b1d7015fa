import Hermeneutic.Book.VolumeBandWalk
import Hermeneutic.Core.WideArithmetic

/-!
# The calls the volume bands make

Every threshold reached in a level is priced by one call, the full-level division at the far
edge of the level and `vwapAtPartialFill` inside it. The preconditions of the partial fill are
asserted only, and its first product is formed before its guard.
`volumeBandCalls` lists the calls with the values they are made with, and `VwapCall.Safe` is
what has to hold at each of them.

`RunningTotals` is the invariant of the walk that makes them safe: the totals are exact and the
thresholds left lie past the running notional. Unlike `WalkedTo` it says nothing about the
prices reported, so it needs no bound on them (`RunningTotals.walkLevel`).

The list of calls is a model of the walk in its own right, with the same loops and the same
guards; that these are the calls of the walk shows in `VwapCall.result`, which is what the walk
reports at each of them. A call inside a level has something left to buy and a level that is
enough for it, which is what the callee asserts; at the far edge the divisor is the size of
everything taken, which is positive. What the callee forms on the way (`intermediates`) fits its
wide type for every argument that satisfies the assertions.
-/

namespace Hermeneutic

open BasicFixedPoint VolumeBandWalk

/-- The values one threshold is priced with. -/
structure VwapCall where
  cumNotional : Notional
  cumSize : Size
  level : Level
  remaining : Notional
  deriving DecidableEq, Repr

/-- What `vwapAtPartialFill` computes in `__int128`, in the order of the source. -/
def partialFillIntermediates (cumNotional : Notional) (cumSize : Size) (remaining : Notional)
    (price : Price) : List ℤ :=
  if price.val ≤ 0 then []
  else
    let vwapNotionalRaw := cumNotional.val + remaining.val
    let notionalPriceProduct := vwapNotionalRaw * price.val
    [vwapNotionalRaw, notionalPriceProduct] ++
      if notionalPriceProduct > kInt128Max.tdiv kScale ||
          notionalPriceProduct < -kInt128Max.tdiv kScale then []
      else
        let numerator := notionalPriceProduct * kScale
        let denominator := cumSize.val * price.val + remaining.val * kScale
        [numerator, cumSize.val * price.val, remaining.val * kScale, denominator] ++
          if denominator ≤ 0 then [] else roundDivIntermediates numerator denominator

namespace VwapCall

/-- The notional of the level the threshold is reached in. -/
def levelNotional (call : VwapCall) : Notional := call.level.1 * call.level.2

/-- What the call returns. -/
def result (call : VwapCall) : Except Errc Price :=
  if call.remaining = call.levelNotional then
    (call.cumNotional + call.remaining) / (call.cumSize + call.level.2)
  else vwapAtPartialFill call.cumNotional call.cumSize call.remaining call.level.1

/-- The intermediates of the partial fill. -/
def intermediates (call : VwapCall) : List ℤ :=
  partialFillIntermediates call.cumNotional call.cumSize call.remaining call.level.1

/-- A partial fill meets its preconditions and stays in range. -/
structure FillSafe (call : VwapCall) : Prop where
  remaining_lt : call.remaining < call.levelNotional
  price_pos : 0 < call.level.1.val
  cumSize_nonneg : 0 ≤ call.cumSize.val
  intermediates_fit : ∀ value ∈ call.intermediates, FitsInt128 value
  denominator_pos : 0 < call.cumSize.val * call.level.1.val + call.remaining.val * kScale

/-- What the walk promises at every call. -/
structure Safe (call : VwapCall) : Prop where
  remaining_pos : 0 < call.remaining.val
  remaining_le : call.remaining ≤ call.levelNotional
  inside : call.remaining ≠ call.levelNotional → call.FillSafe
  edge : call.remaining = call.levelNotional → call.result ≠ .error .argumentOutOfDomain

end VwapCall

namespace VolumeBandWalk

/-- The call a threshold is priced by. -/
def callAt (w : VolumeBandWalk) (level : Level) (threshold : Notional) : VwapCall :=
  ⟨w.cumNotional, w.cumSize, level, threshold - w.cumNotional⟩

/-- The calls of the loop over the thresholds reached in one level. -/
def crossCalls (w : VolumeBandWalk) (level : Level) (nextCumNotional : Notional) :
    List Notional → List VwapCall
  | [] => []
  | threshold :: next =>
    if nextCumNotional ≥ threshold then
      w.callAt level threshold ::
        match w.vwapAt level threshold with
        | .error _ => []
        | .ok _ => crossCalls w level nextCumNotional next
    else []

/-- The calls made in one level. -/
def levelCalls (w : VolumeBandWalk) (level : Level) : List VwapCall :=
  if !isValidLevel level then []
  else
    match (fromRawSafe (w.cumNotional.val + (level.1 * level.2 : Notional).val) :
      Except Errc Notional) with
    | .error _ => []
    | .ok nextCumNotional => w.crossCalls level nextCumNotional w.next

end VolumeBandWalk

/-- The calls `volumeBandPrices` makes. -/
def volumeBandCalls (levels : List Level) (thresholds : List Notional) : List VwapCall :=
  if !volumeThresholdsValid thresholds then []
  else observed walkLevel levelCalls levels ⟨0, 0, thresholds, []⟩

/-- Every product and every running size fits. -/
structure RunningFits (levels : List Level) : Prop where
  product : ∀ level ∈ levels, notionalOf level.1 level.2 ≤ int64Max
  size : ∀ whole, whole <+: levels → sizeTotal whole ≤ int64Max

theorem RunningFits.initial {levels levels' : List Level} (h : RunningFits levels')
    (hinit : levels <+: levels') : RunningFits levels :=
  ⟨fun level hlevel => h.product level (hinit.subset hlevel),
    fun whole hwhole => h.size whole (hwhole.trans hinit)⟩

/-- The walk has taken the levels `whole`: its totals are exact and the thresholds left lie
past the running notional. -/
structure RunningTotals (whole : List Level) (w : VolumeBandWalk) : Prop where
  notional : w.cumNotional.val = notionalTotal whole
  size : w.cumSize.val = sizeTotal whole
  sorted : w.next.Pairwise (· ≤ ·)
  ahead : ∀ threshold ∈ w.next, notionalTotal whole < threshold.val

section Walk

variable {levels whole : List Level} {level : Level} {thresholds : List Notional}
  {w w' : VolumeBandWalk}

private theorem runningTotals_start (hthresholds : volumeThresholdsValid thresholds) :
    RunningTotals [] ⟨0, 0, thresholds, []⟩ where
  notional := rfl
  size := rfl
  sorted := sorted_of_volumeThresholdsValid hthresholds
  ahead := pos_of_volumeThresholdsValid hthresholds

/-- The running notional with the level taken, when it passes the check. -/
private theorem RunningTotals.val_next (h : RunningTotals whole w)
    (hvalid : ValidLevels (whole ++ [level])) (hfits : RunningFits (whole ++ [level]))
    {nextCumNotional : Notional}
    (hnext : fromRawSafe (w.cumNotional.val + (level.1 * level.2 : Notional).val) =
      .ok nextCumNotional) : nextCumNotional.val = notionalTotal (whole ++ [level]) := by
  have hlevel := isValidLevel_iff.mp (hvalid level (by simp))
  rw [val_of_fromRawSafe hnext, h.notional,
    val_mul hlevel.1.le hlevel.2 (hfits.product level (by simp))]
  simp

/-- One level keeps the totals exact, whatever prices it reports. -/
theorem RunningTotals.walkLevel (h : RunningTotals whole w)
    (hvalid : ValidLevels (whole ++ [level])) (hfits : RunningFits (whole ++ [level]))
    (hok : w.walkLevel level = .ok w') : RunningTotals (whole ++ [level]) w' := by
  rw [VolumeBandWalk.walkLevel, if_neg (by simp [hvalid level (by simp)])] at hok
  obtain ⟨nextCumNotional, hnext, hrest⟩ := exists_of_bind_ok hok
  obtain ⟨crossed, hcross, hstate⟩ := exists_of_bind_ok hrest
  rw [crossWhile_eq] at hcross
  obtain ⟨bands, -, hcrossed⟩ := exists_of_bind_ok hcross
  obtain rfl := Except.ok.inj hcrossed
  obtain rfl := Except.ok.inj hstate
  have hval := h.val_next hvalid hfits hnext
  refine ⟨hval, val_cumSize_add hvalid h.size (hfits.size _ List.prefix_rfl),
    h.sorted.sublist (List.dropWhile_sublist _), fun threshold hmem => ?_⟩
  rw [← hval]
  exact lt_iff_val_lt.mp (lt_of_mem_dropWhile h.sorted hmem)

/-- The totals are exact at every level the walk gets to. -/
private theorem runningTotals_of_fold (hthresholds : volumeThresholdsValid thresholds)
    (hvalid : ValidLevels levels) (hfits : RunningFits levels)
    (hok : levels.foldlM VolumeBandWalk.walkLevel ⟨0, 0, thresholds, []⟩ = .ok w) :
    RunningTotals levels w := by
  induction levels using List.reverseRecOn generalizing w with
  | nil =>
    obtain rfl := Except.ok.inj hok
    exact runningTotals_start hthresholds
  | append_singleton whole level ih =>
    have hinit := List.prefix_append whole [level]
    rw [foldlM_concat] at hok
    obtain ⟨w', hwhole, hlevel⟩ := exists_of_bind_ok hok
    exact (ih (hvalid.initial hinit) (hfits.initial hinit) hwhole).walkLevel hvalid hfits hlevel

/-- The product is formed from a sum of two notionals and a price, so it fits unguarded; behind
the guard the scaled numerator fits as well. -/
private theorem forall_partialFillIntermediates {cumNotional remaining : Notional} {cumSize : Size}
    {price : Price} (hnotional : 0 ≤ cumNotional.val) (hsize : 0 ≤ cumSize.val)
    (hremaining : 0 < remaining.val) (hprice : 0 < price.val) :
    ∀ value ∈ partialFillIntermediates cumNotional cumSize remaining price, FitsInt128 value := by
  have hsum : cumNotional.val + remaining.val ≤ 2 * int64Max := by
    linarith [cumNotional.val_le, remaining.val_le]
  have hsum' : 0 < cumNotional.val + remaining.val := add_pos_of_nonneg_of_pos hnotional hremaining
  have hproduct := mul_pos hsum' hprice
  have hproduct' : (cumNotional.val + remaining.val) * price.val ≤ 2 * int64Max * int64Max :=
    mul_le_mul hsum price.val_le hprice.le (by decide)
  have htaken := mul_nonneg hsize hprice.le
  have htaken' : cumSize.val * price.val ≤ int64Max * int64Max :=
    mul_le_mul cumSize.val_le price.val_le hprice.le (by decide)
  have hscaled' : remaining.val * 10 ^ 6 ≤ int64Max * 10 ^ 6 :=
    mul_le_mul_of_nonneg_right remaining.val_le (by norm_num)
  have hscale : kScale = 10 ^ 6 := rfl
  rw [int64Max] at hsum hproduct' htaken' hscaled'
  simp only [partialFillIntermediates, if_neg hprice.not_ge, partialFill_guard hproduct.le,
    decide_eq_true_eq]
  rw [hscale]
  generalize (cumNotional.val + remaining.val) * price.val = product at hproduct hproduct' ⊢
  generalize cumSize.val * price.val = taken at htaken htaken' ⊢
  simp only [List.forall_mem_append, List.forall_mem_cons]
  refine ⟨⟨fitsInt128_of_nonneg hsum'.le hsum (by norm_num),
    fitsInt128_of_nonneg hproduct.le hproduct' (by norm_num), by simp⟩, ?_⟩
  by_cases hguard : kInt128Max / 10 ^ 6 < product
  · rw [if_pos hguard]
    simp
  · rw [if_neg hguard, if_neg (by omega)]
    have hnumerator : product * 10 ^ 6 ≤ kInt128Max := by omega
    rw [kInt128Max] at hnumerator
    simp only [List.forall_mem_append, List.forall_mem_cons]
    refine ⟨⟨fitsInt128_of_nonneg (by omega) hnumerator (by norm_num),
      fitsInt128_of_nonneg htaken htaken' (by norm_num),
      fitsInt128_of_nonneg (by omega) hscaled' (by norm_num),
      fitsInt128_of_nonneg (by omega) (add_le_add htaken' hscaled') (by norm_num), by simp⟩, ?_⟩
    exact fits_roundDiv (by omega) (by omega) (by omega) (by omega)

/-- A threshold reached in a level is priced by a safe call. -/
theorem RunningTotals.safe (h : RunningTotals whole w) (hvalid : ValidLevels (whole ++ [level]))
    (hfits : RunningFits (whole ++ [level])) {threshold : Notional} (hmem : threshold ∈ w.next)
    (hreached : threshold.val ≤ notionalTotal (whole ++ [level])) :
    (w.callAt level threshold).Safe := by
  have hlevel := isValidLevel_iff.mp (hvalid level (by simp))
  have hvalid' := hvalid.initial (List.prefix_append whole [level])
  have hproduct := hfits.product level (by simp)
  have hbefore := h.ahead threshold hmem
  have hremaining := remaining_val hvalid' h.notional hbefore
  have hpos : 0 < (threshold - w.cumNotional).val := by omega
  have hnotional := val_mul hlevel.1.le hlevel.2 hproduct
  have hle : (threshold - w.cumNotional).val ≤ (level.1 * level.2 : Notional).val := by
    rw [hremaining, hnotional]
    simp only [notionalTotal_append, notionalTotal_cons, notionalTotal_nil] at hreached
    omega
  have hsize : 0 ≤ w.cumSize.val := h.size ▸ sizeTotal_nonneg hvalid'
  have hcumNotional : 0 ≤ w.cumNotional.val := h.notional ▸ notionalTotal_nonneg hvalid'
  refine ⟨hpos, hle, fun hne => ?_, fun hedge => ?_⟩
  · refine ⟨lt_of_le_of_ne hle hne, hlevel.1, hsize,
      forall_partialFillIntermediates hcumNotional hsize hpos hlevel.1, ?_⟩
    exact add_pos_of_nonneg_of_pos (mul_nonneg hsize hlevel.1.le) (mul_pos hpos (by decide))
  · -- at the far edge the level holds something, so the size divided by is positive
    have hfar := (remaining_eq_iff hvalid h.notional hproduct hbefore).mp hedge
    have hsum := val_cumSize_add hvalid h.size (hfits.size _ List.prefix_rfl)
    have hdivisor := reachedSize_pos hvalid hbefore hfar
    rw [VwapCall.result, if_pos hedge]
    rw [div_size_eq _ (by rw [← hsum] at hdivisor; exact hdivisor)]
    nofun

private theorem mem_crossCalls {nextCumNotional : Notional} {next : List Notional} {call : VwapCall}
    (h : call ∈ w.crossCalls level nextCumNotional next) :
    ∃ threshold ∈ next, threshold ≤ nextCumNotional ∧ call = w.callAt level threshold := by
  induction next with
  | nil => simp [crossCalls] at h
  | cons threshold next ih =>
    rw [crossCalls] at h
    split_ifs at h with hle
    · rcases List.mem_cons.mp h with rfl | h
      · exact ⟨threshold, List.mem_cons_self, hle, rfl⟩
      · split at h
        · cases h
        · obtain ⟨threshold', hmem, hcall⟩ := ih h
          exact ⟨threshold', List.mem_cons_of_mem threshold hmem, hcall⟩
    · cases h

/-- The calls made in one level are safe. -/
private theorem RunningTotals.levelCalls_safe (h : RunningTotals whole w)
    (hvalid : ValidLevels (whole ++ [level])) (hfits : RunningFits (whole ++ [level]))
    {call : VwapCall} (hcall : call ∈ w.levelCalls level) : call.Safe := by
  rw [levelCalls, if_neg (by simp [hvalid level (by simp)])] at hcall
  split at hcall
  · cases hcall
  · next nextCumNotional hnext =>
    obtain ⟨threshold, hmem, hle, rfl⟩ := mem_crossCalls hcall
    exact h.safe hvalid hfits hmem ((le_iff_val_le.mp hle).trans_eq (h.val_next hvalid hfits hnext))

end Walk

/-- Every call the walk makes meets the preconditions of its callee, and no wide intermediate
of a partial fill leaves its range. -/
theorem volumeBandCalls_safe (levels : List Level) (thresholds : List Notional)
    (hvalid : ValidLevels levels) (hthresholds : volumeThresholdsValid thresholds)
    (hfits : RunningFits levels) : ∀ call ∈ volumeBandCalls levels thresholds, call.Safe := by
  intro call hcall
  rw [volumeBandCalls, if_neg (by simp [hthresholds]), mem_observed_iff] at hcall
  obtain ⟨whole, level, w, hinit, hok, hcall⟩ := hcall
  have hinit' := (List.prefix_append whole [level]).trans hinit
  have htotals :=
    runningTotals_of_fold hthresholds (hvalid.initial hinit') (hfits.initial hinit') hok
  exact htotals.levelCalls_safe (hvalid.initial hinit) (hfits.initial hinit) hcall

/-- Three units asked at 100 and one at 101, filled inside both and at the far edge of one. -/
theorem volumeBandCalls_safe_sample :
    volumeBandCalls [(⟨100000000000⟩, ⟨3000000⟩), (⟨101000000000⟩, ⟨1000000⟩)]
        [⟨50000000000⟩, ⟨300000000000⟩, ⟨350000000000⟩] =
      [⟨0, 0, (⟨100000000000⟩, ⟨3000000⟩), ⟨50000000000⟩⟩,
        ⟨0, 0, (⟨100000000000⟩, ⟨3000000⟩), ⟨300000000000⟩⟩,
        ⟨⟨300000000000⟩, ⟨3000000⟩, (⟨101000000000⟩, ⟨1000000⟩), ⟨50000000000⟩⟩] ∧
    ∀ call ∈ volumeBandCalls [(⟨100000000000⟩, ⟨3000000⟩), (⟨101000000000⟩, ⟨1000000⟩)]
        [⟨50000000000⟩, ⟨300000000000⟩, ⟨350000000000⟩], call.Safe := by
  have hvalid : ValidLevels [(⟨100000000000⟩, ⟨3000000⟩), (⟨101000000000⟩, ⟨1000000⟩)] := by
    unfold ValidLevels
    decide +kernel
  refine ⟨by decide +kernel, volumeBandCalls_safe _ _ hvalid (by decide +kernel)
    ⟨by decide +kernel, fun whole hwhole => ?_⟩⟩
  exact (sizeTotal_mono hvalid hwhole).trans (by decide +kernel)

end Hermeneutic
