import Hermeneutic.Book.PriceBandDepth
import Hermeneutic.Book.VolumeBandPrices

/-!
# What the band functions narrow without a check

A walk narrows its running notional with `fromRawSafe`, which reports a value out of range,
and everything else with `fromRawChecked`, whose range is an assertion only. The values the
second kind receives are listed here in the order in which the source computes them
(`priceBandNarrowings`, `volumeBandNarrowings`). They are all in range exactly when the exact
products, sizes and quotients of the levels the walk gets to are (`CountsFit`,
`NarrowingsFit`), and then a walk is exact or stops with a checked error.

The condition for a price band and the one for a volume band are each proved by induction on the
levels still to walk, along the walk's own invariant: `Walkable` where a level is inside a
threshold or closes it, `WalkedTo` where a level reaches one. Either way a level adds the
narrowings it makes to those of the walk behind it, and a walk that has stopped with an error
makes no more. Only then is a side looked at as a whole: `PriceBandsExact` and `VolumeBandsExact`
say what its bands should be, and `bands_exact_iff` that they are exactly when every narrowing is
in range.
-/

namespace Hermeneutic

open BasicFixedPoint

/-- What `Price * Size` narrows. -/
def productNarrowing (level : Level) : ℤ :=
  roundDivNearestAway (level.1.val * level.2.val) (pow10 6)

private theorem productNarrowing_eq (level : Level) :
    productNarrowing level = notionalOf level.1 level.2 :=
  roundDivNearestAway_eq _ (by norm_num [pow10])

private theorem inRange_productNarrowing {level : Level} (hvalid : isValidLevel level) :
    InRange (productNarrowing level) ↔ notionalOf level.1 level.2 ≤ int64Max := by
  rw [productNarrowing_eq, inRange_of_nonneg (notionalOf_nonneg_of_valid hvalid)]

/-! ### Price bands -/

section PriceBands

open PriceBandWalk

variable (side : SidePolicy) (reference : Price)

/-- What adding a level to the running totals narrows: the running size and the product. -/
def PriceBandWalk.addNarrowings (w : PriceBandWalk) (level : Level) : List ℤ :=
  [w.cumSize.val + level.2.val, productNarrowing level]

/-- What the loop over the levels narrows until it stops. -/
def PriceBandWalk.narrowings : List Level → PriceBandWalk → List ℤ
  | [], _ => []
  | level :: levels, w =>
    if !isValidLevel level then []
    else
      match reportWhile side reference (fun bps => !side.within level.1 reference bps)
        w.cumSize w.cumNotional w.next w.result with
      | .error _ => []
      | .ok w =>
        if w.next.isEmpty then []
        else
          w.addNarrowings level ++
            match w.addLevel level with
            | .error _ => []
            | .ok w => narrowings levels w

/-- What `priceBandDepth` narrows; the boundaries it reports are checked. -/
def priceBandNarrowings (levels : List Level) (bpsThresholds : List Int32) : List ℤ :=
  if !bpsThresholdsValid side bpsThresholds then []
  else if reference.val ≤ 0 then []
  else PriceBandWalk.narrowings side reference levels ⟨0, 0, bpsThresholds, []⟩

variable {side reference} {levels : List Level} {level : Level} {w : PriceBandWalk} {bps : Int32}

/-- The boundary of a threshold some level is outside of fits, like the price of the level. -/
private theorem SidePolicy.boundary_le_of_outside (href : 0 < reference.val)
    (hbps : side.Accepts bps)
    {p : Price} (hout : ¬side.within p reference bps) :
    side.boundary reference bps ≤ int64Max := by
  have hprice := p.val_le
  have hreference := reference.val_le
  cases side with
  | ask =>
    rw [within_ask, not_le] at hout
    rw [boundary, Rat.floor_intCast_div_natCast]
    omega
  | bid =>
    have hlow : reference.val * (10000 - bps.toInt) ≤ reference.val * 10000 :=
      mul_le_mul_of_nonneg_left (by linarith [hbps.1]) href.le
    rw [boundary, Rat.ceil_intCast_div_natCast]
    omega

/-- The inner loop of a level never stops the walk. -/
private theorem Walkable.reportWhile_ok (h : Walkable side reference (level :: levels) w) :
    ∃ bands, reportWhile side reference (fun bps => !side.within level.1 reference bps)
        w.cumSize w.cumNotional w.next w.result =
      .ok ⟨w.cumSize, w.cumNotional,
        w.next.dropWhile fun bps => !side.within level.1 reference bps, w.result ++ bands⟩ := by
  rw [reportWhile_eq]
  rcases mapM_ok_or_error (bandAt side reference w.cumSize w.cumNotional)
      (w.next.takeWhile fun bps => !side.within level.1 reference bps) with
    ⟨bands, hbands, -⟩ | ⟨pre, bps, post, e, hsplit, -, he, -⟩
  · exact ⟨bands, by rw [hbands]; rfl⟩
  · have hmem : bps ∈ w.next.takeWhile fun bps => !side.within level.1 reference bps := by
      simp [hsplit]
    have hbps := h.accepted bps ((List.takeWhile_sublist _).subset hmem)
    have hout : ¬side.within level.1 reference bps := by simpa using List.mem_takeWhile_imp hmem
    have hnonneg := SidePolicy.boundary_nonneg h.reference_pos hbps
    rw [bandAt, SidePolicy.roundInner_eq h.reference_pos hbps, fromRawSafe_of_le (by omega)
      (SidePolicy.boundary_le_of_outside h.reference_pos hbps hout)] at he
    cases he

/-- The thresholds the best level is outside of count nothing more. -/
private theorem Walkable.countsFit_dropWhile (h : Walkable side reference (level :: levels) w)
    {size notional : ℤ} :
    CountsFit side reference (w.next.dropWhile fun bps => !side.within level.1 reference bps)
        size notional (level :: levels) ↔
      CountsFit side reference w.next size notional (level :: levels) := by
  refine ⟨?_, fun hfits => hfits.close (List.dropWhile_sublist _)⟩
  rintro hfits whole level' hinit ⟨bps, hbps, hwithin⟩
  refine hfits whole level' hinit ⟨bps, ?_, hwithin⟩
  rw [← List.takeWhile_append_dropWhile (p := fun bps => !side.within level.1 reference bps)
    (l := w.next), List.mem_append] at hbps
  -- a threshold this level is outside of has no later level inside
  refine hbps.resolve_left fun hmem => ?_
  have hout : ¬side.within level.1 reference bps := by simpa using List.mem_takeWhile_imp hmem
  have hnil := levelsWithin_eq_nil (h.accepted bps ((List.takeWhile_sublist _).subset hmem))
    h.sorted hout
  exact List.filter_eq_nil_iff.mp hnil level' (hinit.subset (by simp)) hwithin

private theorem Walkable.forall_addNarrowings (h : Walkable side reference (level :: levels) w) :
    (∀ value ∈ w.addNarrowings level, InRange value) ↔
      notionalOf level.1 level.2 ≤ int64Max ∧ w.cumSize.val + level.2.val ≤ int64Max := by
  have hlevel := h.valid level List.mem_cons_self
  have hsize := add_nonneg h.size_nonneg (isValidLevel_iff.mp hlevel).2
  rw [addNarrowings, List.forall_mem_cons, List.forall_mem_singleton,
    inRange_productNarrowing hlevel, inRange_of_nonneg hsize, and_comm]

/-- Past the range of the running notional nothing is counted any more. -/
private theorem countsFit_of_gt {next : List Int32} {size notional : ℤ}
    (hvalid : ValidLevels levels)
    (hover : int64Max < notional) : CountsFit side reference next size notional levels := by
  intro whole level hinit _ hfits
  have hwhole : 0 ≤ notionalTotal whole :=
    notionalTotal_nonneg (hvalid.initial ((List.prefix_append whole [level]).trans hinit))
  omega

/-- The values the walk narrows are in range exactly when the exact ones it counts fit. -/
private theorem Walkable.forall_narrowings (h : Walkable side reference levels w) :
    (∀ value ∈ PriceBandWalk.narrowings side reference levels w, InRange value) ↔
      CountsFit side reference w.next w.cumSize.val w.cumNotional.val levels := by
  induction levels generalizing w with
  | nil =>
    refine iff_of_true (by simp [PriceBandWalk.narrowings]) fun whole level hinit => ?_
    simp at hinit
  | cons level levels ih =>
    have hlevel := h.valid level List.mem_cons_self
    have hvalid := isValidLevel_iff.mp hlevel
    obtain ⟨bands, hreport⟩ := h.reportWhile_ok
    rw [← h.countsFit_dropWhile, PriceBandWalk.narrowings, if_neg (by simp [hlevel])]
    simp only [hreport]
    have hclose := h.close (List.dropWhile_sublist
      fun bps => !side.within level.1 reference bps) (w.result ++ bands)
    have hwithin : ∀ bps ∈ w.next.dropWhile fun bps => !side.within level.1 reference bps,
        side.within level.1 reference bps := fun _ => h.within_of_mem_dropWhile
    generalize (w.next.dropWhile fun bps => !side.within level.1 reference bps) = next
      at hclose hwithin ⊢
    cases next with
    | nil =>
      -- no threshold is left, and the loop breaks
      refine iff_of_true (by simp) ?_
      rintro whole level' - ⟨bps, hbps, -⟩
      cases hbps
    | cons first next =>
      rw [if_neg (by simp), List.forall_mem_append, hclose.forall_addNarrowings,
        countsFit_cons_iff ⟨first, List.mem_cons_self, hwithin first List.mem_cons_self⟩
          w.cumNotional.val_le]
      refine and_congr_right fun hcount => ?_
      obtain ⟨hsize, hadd⟩ := hclose.addLevel_eq hcount.1 hcount.2
      rw [hadd]
      have hnonneg := notionalOf_nonneg hvalid.1.le hvalid.2
      have hlow := h.notional_nonneg
      rcases le_or_gt (w.cumNotional.val + notionalOf level.1 level.2) int64Max with hle | hover
      · have hnotional : (fromRawChecked (w.cumNotional.val + notionalOf level.1 level.2) :
            Notional).val = w.cumNotional.val + notionalOf level.1 level.2 :=
          val_fromRawChecked (by omega) hle
        rw [fromRawSafe_of_le (by omega) hle]
        refine (ih (hclose.count hsize hnotional)).trans ?_
        rw [hsize, hnotional]
      · -- the checked notional stops the walk
        rw [fromRawSafe_of_gt hover]
        refine iff_of_true (by simp [bind, Except.bind]) ?_
        exact countsFit_of_gt (fun l hl => h.valid l (List.mem_cons_of_mem level hl)) hover

/-- The narrowings of a whole call. -/
private theorem forall_priceBandNarrowings {bpsThresholds : List Int32}
    (hvalid : ValidLevels levels)
    (hsorted : levels.Pairwise fun level level' => side.Before level.1 level'.1)
    (href : 0 < reference.val) (hthresholds : bpsThresholdsValid side bpsThresholds) :
    (∀ value ∈ priceBandNarrowings side reference levels bpsThresholds, InRange value) ↔
      CountsFit side reference bpsThresholds 0 0 levels := by
  rw [priceBandNarrowings, if_neg (by simp [hthresholds]), if_neg href.not_ge,
    (walkable_start hvalid hsorted href hthresholds).forall_narrowings]
  rfl

end PriceBands

/-! ### Volume bands -/

section VolumeBands

open VolumeBandWalk

/-- What `Notional / Size` narrows. -/
def quotientNarrowings (notional : Notional) (size : Size) : List ℤ :=
  if size.val ≤ 0 then [] else [roundDivNearestAway (notional.val * pow10 6) size.val]

/-- What `vwapAtPartialFill` narrows. -/
def partialFillNarrowings (cumNotional : Notional) (cumSize : Size) (remaining : Notional)
    (price : Price) : List ℤ :=
  if price.val ≤ 0 then []
  else
    let notionalPriceProduct := (cumNotional.val + remaining.val) * price.val
    if notionalPriceProduct > kInt128Max.tdiv kScale ||
        notionalPriceProduct < -kInt128Max.tdiv kScale then []
    else
      let denominator := cumSize.val * price.val + remaining.val * kScale
      if denominator ≤ 0 then []
      else [roundDivNearestAway (notionalPriceProduct * kScale) denominator]

namespace VolumeBandWalk

/-- What pricing one threshold narrows: the notional left to fill, then at the far edge both
sums and the quotient, and inside the level the partial fill. -/
def vwapNarrowings (w : VolumeBandWalk) (level : Level) (threshold : Notional) : List ℤ :=
  let levelNotional : Notional := level.1 * level.2
  let remaining := threshold - w.cumNotional
  (threshold.val - w.cumNotional.val) ::
    if remaining = levelNotional then
      (w.cumNotional.val + remaining.val) :: (w.cumSize.val + level.2.val) ::
        quotientNarrowings (w.cumNotional + remaining) (w.cumSize + level.2)
    else partialFillNarrowings w.cumNotional w.cumSize remaining level.1

/-- What the loop over the thresholds reached in one level narrows. -/
def crossNarrowings (w : VolumeBandWalk) (level : Level) (nextCumNotional : Notional) :
    List Notional → List ℤ
  | [] => []
  | threshold :: next =>
    if nextCumNotional ≥ threshold then
      w.vwapNarrowings level threshold ++
        match w.vwapAt level threshold with
        | .error _ => []
        | .ok _ => crossNarrowings w level nextCumNotional next
    else []

/-- What one level of the walk narrows: the product, the thresholds it reaches, and the running
size when none of them stops the walk. -/
def levelNarrowings (w : VolumeBandWalk) (level : Level) : List ℤ :=
  if !isValidLevel level then []
  else
    productNarrowing level ::
      match (fromRawSafe (w.cumNotional.val + (level.1 * level.2 : Notional).val) :
        Except Errc Notional) with
      | .error _ => []
      | .ok nextCumNotional =>
        w.crossNarrowings level nextCumNotional w.next ++
          match w.crossWhile level nextCumNotional w.next w.result with
          | .error _ => []
          | .ok _ => [w.cumSize.val + level.2.val]

end VolumeBandWalk

/-- What `volumeBandPrices` narrows. -/
def volumeBandNarrowings (levels : List Level) (thresholds : List Notional) : List ℤ :=
  if !volumeThresholdsValid thresholds then []
  else observed walkLevel levelNarrowings levels ⟨0, 0, thresholds, []⟩

variable {w : VolumeBandWalk} {whole : List Level} {level : Level} {threshold : Notional}

/-- A threshold strictly inside a level narrows its quotient, behind the check. -/
private theorem forall_vwapNarrowings_inside (hvalid : ValidLevels (whole ++ [level]))
    (hnotional : w.cumNotional.val = notionalTotal whole)
    (hsize : w.cumSize.val = sizeTotal whole)
    (hproduct : notionalOf level.1 level.2 ≤ int64Max)
    (hbefore : notionalTotal whole < threshold.val)
    (hinside : threshold.val < notionalTotal (whole ++ [level])) :
    (∀ value ∈ w.vwapNarrowings level threshold, InRange value) ↔
      (threshold.val * level.1.val ≤ kInt128Max / kScale →
        2 * (threshold.val * level.1.val * 10 ^ 6) < (2 * int64Max + 1) *
          (sizeTotal whole * level.1.val + (threshold.val - notionalTotal whole) * 10 ^ 6)) := by
  have hlevel := isValidLevel_iff.mp (hvalid level (by simp))
  have hvalid' := hvalid.initial (List.prefix_append whole [level])
  have hwhole := notionalTotal_nonneg hvalid'
  have hthreshold := threshold.val_le
  have hden := partialFill_pos hvalid hbefore
  have hprod : 0 ≤ threshold.val * level.1.val := mul_nonneg (hwhole.trans hbefore.le) hlevel.1.le
  have hnum : 0 ≤ threshold.val * level.1.val * 10 ^ 6 := mul_nonneg hprod (by norm_num)
  have hremaining : InRange (threshold.val - notionalTotal whole) := ⟨by omega, by omega⟩
  have hne : threshold - w.cumNotional ≠ (level.1 * level.2 : Notional) := fun heq =>
    hinside.ne ((remaining_eq_iff hvalid hnotional hproduct hbefore).mp heq)
  simp only [vwapNarrowings, if_neg hne, partialFillNarrowings, if_neg hlevel.1.not_ge,
    remaining_val hvalid' hnotional hbefore, hnotional, hsize, add_sub_cancel,
    partialFill_guard hprod, decide_eq_true_eq, List.forall_mem_cons, hremaining, true_and]
  have hscale : kScale = 10 ^ 6 := rfl
  rw [hscale, if_neg hden.not_ge]
  by_cases hguard : kInt128Max / 10 ^ 6 < threshold.val * level.1.val
  · rw [if_pos hguard]
    exact iff_of_true (by simp) fun hle => absurd hle hguard.not_ge
  · rw [if_neg hguard, List.forall_mem_singleton, roundDivNearestAway_eq _ hden,
      inRange_of_nonneg (roundedQuotient_nonneg hnum hden), roundedQuotient_le_iff hnum hden]
    exact (imp_iff_right (not_lt.mp hguard)).symm

/-- A threshold at the far edge of a level narrows the running size and its quotient. -/
private theorem forall_vwapNarrowings_edge (hvalid : ValidLevels (whole ++ [level]))
    (hnotional : w.cumNotional.val = notionalTotal whole)
    (hsize : w.cumSize.val = sizeTotal whole)
    (hproduct : notionalOf level.1 level.2 ≤ int64Max)
    (hbefore : notionalTotal whole < threshold.val)
    (hedge : threshold.val = notionalTotal (whole ++ [level])) :
    (∀ value ∈ w.vwapNarrowings level threshold, InRange value) ↔
      sizeTotal (whole ++ [level]) ≤ int64Max ∧
        2 * (threshold.val * 10 ^ 6) < (2 * int64Max + 1) * sizeTotal (whole ++ [level]) := by
  have hvalid' := hvalid.initial (List.prefix_append whole [level])
  have hwhole := notionalTotal_nonneg hvalid'
  have hthreshold := threshold.val_le
  have hden := reachedSize_pos hvalid hbefore hedge
  have hnum : 0 ≤ threshold.val * 10 ^ 6 := by omega
  have hremaining : InRange (threshold.val - notionalTotal whole) := ⟨by omega, by omega⟩
  have hback := add_remaining hvalid' hnotional hbefore
  have hsum : w.cumSize.val + level.2.val = sizeTotal (whole ++ [level]) := by
    simp [hsize]
  have hfilled : InRange threshold.val := ⟨threshold.le_val, threshold.val_le⟩
  simp only [vwapNarrowings, hback,
    if_pos ((remaining_eq_iff hvalid hnotional hproduct hbefore).mpr hedge),
    remaining_val hvalid' hnotional hbefore, hnotional, add_sub_cancel, hsum,
    List.forall_mem_cons, hremaining, hfilled, true_and, inRange_of_nonneg hden.le]
  refine and_congr_right fun hfits => ?_
  rw [quotientNarrowings, val_cumSize_add hvalid hsize hfits, if_neg hden.not_ge,
    List.forall_mem_singleton]
  have hpow : pow10 6 = 10 ^ 6 := rfl
  rw [hpow, roundDivNearestAway_eq _ hden, inRange_of_nonneg (roundedQuotient_nonneg hnum hden),
    roundedQuotient_le_iff hnum hden]

/-- A partial fill succeeds behind its check. -/
private theorem vwapAt_inside_ok_iff (hvalid : ValidLevels (whole ++ [level]))
    (hnotional : w.cumNotional.val = notionalTotal whole)
    (hsize : w.cumSize.val = sizeTotal whole)
    (hproduct : notionalOf level.1 level.2 ≤ int64Max)
    (hbefore : notionalTotal whole < threshold.val)
    (hinside : threshold.val < notionalTotal (whole ++ [level])) :
    (∃ vwap, w.vwapAt level threshold = .ok vwap) ↔
      threshold.val * level.1.val ≤ kInt128Max / kScale := by
  rw [vwapAt_inside hvalid hnotional hsize hproduct hbefore hinside, ← not_lt]
  split_ifs with hguard
  · exact iff_of_false (by simp) (not_not_intro hguard)
  · exact iff_of_true ⟨_, rfl⟩ hguard

/-- In sorted thresholds, a value is narrowed for one that is reached, when every smaller one
has its price. -/
private theorem mem_crossNarrowings_iff {nextCumNotional : Notional} {next : List Notional}
    (hsorted : next.Pairwise (· ≤ ·)) {value : ℤ} :
    value ∈ w.crossNarrowings level nextCumNotional next ↔
      ∃ threshold ∈ next, threshold ≤ nextCumNotional ∧
        (∀ smaller ∈ next, smaller < threshold → ∃ vwap, w.vwapAt level smaller = .ok vwap) ∧
        value ∈ w.vwapNarrowings level threshold := by
  induction next with
  | nil => simp [crossNarrowings]
  | cons first next ih =>
    obtain ⟨hfirst, hnext⟩ := List.pairwise_cons.mp hsorted
    rw [crossNarrowings]
    constructor
    · -- the first threshold is the smallest: the ones behind it are got to past it
      intro hvalue
      split_ifs at hvalue with hreached
      · rcases List.mem_append.mp hvalue with hvalue | hvalue
        · refine ⟨first, List.mem_cons_self, hreached, fun smaller hsmaller hlt => ?_, hvalue⟩
          rcases List.mem_cons.mp hsmaller with rfl | hsmaller
          · exact absurd hlt (lt_irrefl _)
          · exact absurd hlt (hfirst smaller hsmaller).not_gt
        · cases hok : w.vwapAt level first with
          | error e => simp [hok] at hvalue
          | ok vwap =>
            rw [hok] at hvalue
            obtain ⟨threshold, hmem, hle, hsmall, hvalue⟩ := (ih hnext).mp hvalue
            refine ⟨threshold, List.mem_cons_of_mem first hmem, hle, fun smaller hsmaller => ?_,
              hvalue⟩
            rcases List.mem_cons.mp hsmaller with rfl | hsmaller
            · exact fun _ => ⟨vwap, hok⟩
            · exact hsmall smaller hsmaller
      · cases hvalue
    · rintro ⟨threshold, hmem, hle, hsmall, hvalue⟩
      have hreached : nextCumNotional ≥ first := by
        rcases List.mem_cons.mp hmem with rfl | hmem
        · exact hle
        · exact (hfirst threshold hmem).trans hle
      rw [if_pos hreached, List.mem_append]
      rcases List.mem_cons.mp hmem with rfl | hmem
      · exact .inl hvalue
      · rcases (hfirst threshold hmem).lt_or_eq with hlt | rfl
        · obtain ⟨vwap, hok⟩ := hsmall first List.mem_cons_self hlt
          rw [hok]
          exact .inr ((ih hnext).mpr ⟨threshold, hmem, hle,
            fun smaller hsmaller => hsmall smaller (List.mem_cons_of_mem first hsmaller), hvalue⟩)
        · -- an equal threshold narrows what the first one does
          exact .inl hvalue

/-- The loop gets to its end exactly when every threshold reached has its price. -/
private theorem crossWhile_ok_iff {nextCumNotional : Notional} {next : List Notional}
    {result : List VolumeBand} (hsorted : next.Pairwise (· ≤ ·)) :
    (∃ after, w.crossWhile level nextCumNotional next result = .ok after) ↔
      ∀ threshold ∈ next, threshold ≤ nextCumNotional →
        ∃ vwap, w.vwapAt level threshold = .ok vwap := by
  induction next generalizing result with
  | nil => simp [crossWhile]
  | cons first next ih =>
    obtain ⟨hfirst, hnext⟩ := List.pairwise_cons.mp hsorted
    rw [crossWhile]
    by_cases hreached : nextCumNotional ≥ first
    · rw [if_pos hreached, List.forall_mem_cons]
      cases hok : w.vwapAt level first with
      | error e => exact iff_of_false (by rintro ⟨after, ⟨⟩⟩) fun h => by simpa using h.1 hreached
      | ok vwap => exact (ih hnext).trans (and_iff_right fun _ => ⟨vwap, rfl⟩).symm
    · rw [if_neg hreached]
      refine iff_of_true ⟨_, rfl⟩ fun threshold hmem hle => absurd ?_ hreached
      rcases List.mem_cons.mp hmem with rfl | hmem
      · exact hle
      · exact (hfirst threshold hmem).trans hle

variable {thresholds done : List Notional} {levels : List Level}

/-- Past its two checks a level narrows what its thresholds do and the running size. -/
private theorem WalkedTo.forall_levelNarrowings_iff (h : WalkedTo thresholds whole w done)
    (hvalid : ValidLevels (whole ++ [level])) (hproduct : notionalOf level.1 level.2 ≤ int64Max)
    (hnotional : notionalTotal (whole ++ [level]) ≤ int64Max) :
    ∃ nextCumNotional : Notional, nextCumNotional.val = notionalTotal (whole ++ [level]) ∧
      ((∀ value ∈ w.levelNarrowings level, InRange value) ↔
        (∀ value ∈ w.crossNarrowings level nextCumNotional w.next, InRange value) ∧
          ((∃ after, w.crossWhile level nextCumNotional w.next w.result = .ok after) →
            sizeTotal (whole ++ [level]) ≤ int64Max)) := by
  have hlevel := hvalid level (by simp)
  have hnonneg := notionalTotal_nonneg hvalid
  have hsum : w.cumNotional.val + (level.1 * level.2 : Notional).val =
      notionalTotal (whole ++ [level]) := by
    rw [h.notional, val_mul (isValidLevel_iff.mp hlevel).1.le (isValidLevel_iff.mp hlevel).2
      hproduct]
    simp
  have hsize : w.cumSize.val + level.2.val = sizeTotal (whole ++ [level]) := by simp [h.size]
  refine ⟨fromRawChecked (notionalTotal (whole ++ [level])),
    val_fromRawChecked (by omega) hnotional, ?_⟩
  rw [levelNarrowings, if_neg (by simp [hlevel]), List.forall_mem_cons,
    inRange_productNarrowing hlevel, and_iff_right hproduct, hsum,
    fromRawSafe_of_le (by omega) hnotional, List.forall_mem_append]
  refine and_congr_right fun _ => ?_
  cases w.crossWhile level (fromRawChecked (notionalTotal (whole ++ [level]))) w.next w.result with
  | error e => exact iff_of_true (by simp) (by rintro ⟨after, ⟨⟩⟩)
  | ok after =>
    rw [List.forall_mem_singleton, hsize, inRange_of_nonneg (sizeTotal_nonneg hvalid)]
    exact (imp_iff_right ⟨after, rfl⟩).symm

/-- A threshold reached narrows its values once every smaller one gets past the check. -/
private theorem WalkedTo.vwapNarrowings_inRange (h : WalkedTo thresholds whole w done)
    (hsorted : thresholds.Pairwise (· ≤ ·)) (hvalid : ValidLevels (whole ++ [level]))
    (hproduct : notionalOf level.1 level.2 ≤ int64Max) {nextCumNotional : Notional}
    (hnext : nextCumNotional.val = notionalTotal (whole ++ [level]))
    (hcross : ∀ value ∈ w.crossNarrowings level nextCumNotional w.next, InRange value)
    (hmem : threshold ∈ thresholds) (hbefore : notionalTotal whole < threshold.val)
    (hreached : threshold.val ≤ notionalTotal (whole ++ [level]))
    (hsmall : ∀ smaller ∈ thresholds, notionalTotal whole < smaller.val →
      smaller.val < threshold.val → smaller.val * level.1.val ≤ kInt128Max / kScale) :
    ∀ value ∈ w.vwapNarrowings level threshold, InRange value := by
  intro value hvalue
  have hle : threshold ≤ nextCumNotional := by rwa [le_iff_val_le, hnext]
  refine hcross value ((mem_crossNarrowings_iff (h.next_ascending hsorted)).mpr ⟨threshold,
    h.mem_next_iff.mpr ⟨hmem, hbefore⟩, hle, fun smaller hsmaller hlt => ?_, hvalue⟩)
  obtain ⟨hmem', hbefore'⟩ := h.mem_next_iff.mp hsmaller
  rw [lt_iff_val_lt] at hlt
  exact (vwapAt_inside_ok_iff hvalid h.notional h.size hproduct hbefore'
    (hlt.trans_le hreached)).mpr (hsmall smaller hmem' hbefore' hlt)

private theorem WalkedTo.levelFits_of_narrowings (h : WalkedTo thresholds whole w done)
    (hsorted : thresholds.Pairwise (· ≤ ·)) (hvalid : ValidLevels (whole ++ [level]))
    (hproduct : notionalOf level.1 level.2 ≤ int64Max) {nextCumNotional : Notional}
    (hnext : nextCumNotional.val = notionalTotal (whole ++ [level]))
    (hcross : ∀ value ∈ w.crossNarrowings level nextCumNotional w.next, InRange value)
    (hlast : (∃ after, w.crossWhile level nextCumNotional w.next w.result = .ok after) →
      sizeTotal (whole ++ [level]) ≤ int64Max) :
    LevelFits thresholds whole level := by
  have hprice := (isValidLevel_iff.mp (hvalid level (by simp))).1
  have hedges : StepsThrough thresholds whole level → ∀ threshold ∈ thresholds,
      notionalTotal whole < threshold.val → threshold.val = notionalTotal (whole ++ [level]) →
      sizeTotal (whole ++ [level]) ≤ int64Max ∧
        2 * (threshold.val * 10 ^ 6) < (2 * int64Max + 1) * sizeTotal (whole ++ [level]) := by
    intro hsteps threshold hmem hbefore hedge
    refine (forall_vwapNarrowings_edge hvalid h.notional h.size hproduct hbefore hedge).mp
      (h.vwapNarrowings_inRange hsorted hvalid hproduct hnext hcross hmem hbefore hedge.le ?_)
    intro smaller hsmaller hbefore' hlt
    exact hsteps.guard smaller hsmaller hbefore' (hedge ▸ hlt)
  exact {
    product := hproduct
    inside := fun _ threshold hmem hbefore hinside hguard => by
      refine (forall_vwapNarrowings_inside hvalid h.notional h.size hproduct hbefore hinside).mp
        (h.vwapNarrowings_inRange hsorted hvalid hproduct hnext hcross hmem hbefore hinside.le ?_)
        hguard
      intro smaller _ _ hlt
      exact (mul_le_mul_of_nonneg_right hlt.le hprice.le).trans hguard
    size := fun hsteps => by
      by_cases hedge : ∃ threshold ∈ thresholds, notionalTotal whole < threshold.val ∧
          threshold.val = notionalTotal (whole ++ [level])
      · obtain ⟨threshold, hmem, hbefore, hedge⟩ := hedge
        exact (hedges hsteps threshold hmem hbefore hedge).1
      · -- every threshold reached is inside the level, so the loop gets to its end
        refine hlast ((crossWhile_ok_iff (h.next_ascending hsorted)).mpr
          fun threshold hthreshold hle => ?_)
        rw [le_iff_val_le, hnext] at hle
        obtain ⟨hmem, hbefore⟩ := h.mem_next_iff.mp hthreshold
        have hinside := lt_of_le_of_ne hle fun heq => hedge ⟨threshold, hmem, hbefore, heq⟩
        exact (vwapAt_inside_ok_iff hvalid h.notional h.size hproduct hbefore hinside).mpr
          (hsteps.guard threshold hmem hbefore hinside)
    edge := fun hsteps threshold hmem hbefore hedge =>
      (hedges hsteps threshold hmem hbefore hedge).2 }

private theorem WalkedTo.narrowings_of_levelFits (h : WalkedTo thresholds whole w done)
    (hsorted : thresholds.Pairwise (· ≤ ·)) (hvalid : ValidLevels (whole ++ [level]))
    (hnotional : notionalTotal (whole ++ [level]) ≤ int64Max) {nextCumNotional : Notional}
    (hnext : nextCumNotional.val = notionalTotal (whole ++ [level]))
    (hfits : LevelFits thresholds whole level) :
    (∀ value ∈ w.crossNarrowings level nextCumNotional w.next, InRange value) ∧
      ((∃ after, w.crossWhile level nextCumNotional w.next w.result = .ok after) →
        sizeTotal (whole ++ [level]) ≤ int64Max) := by
  have hascending := h.next_ascending hsorted
  have hguard : ∀ threshold : Notional, notionalTotal whole < threshold.val →
      threshold.val < notionalTotal (whole ++ [level]) →
      (∃ vwap, w.vwapAt level threshold = .ok vwap) →
        threshold.val * level.1.val ≤ kInt128Max / kScale := fun threshold hbefore hinside =>
    (vwapAt_inside_ok_iff hvalid h.notional h.size hfits.product hbefore hinside).mp
  refine ⟨fun value hvalue => ?_, fun hafter => hfits.size ⟨hnotional, ?_⟩⟩
  · obtain ⟨threshold, hthreshold, hle, hsmall, hvalue⟩ :=
      (mem_crossNarrowings_iff hascending).mp hvalue
    rw [le_iff_val_le, hnext] at hle
    obtain ⟨hmem, hbefore⟩ := h.mem_next_iff.mp hthreshold
    rcases hle.lt_or_eq with hinside | hedge
    · exact (forall_vwapNarrowings_inside hvalid h.notional h.size hfits.product hbefore
        hinside).mpr (hfits.inside hnotional threshold hmem hbefore hinside) value hvalue
    · -- every threshold inside the level comes before the one at its edge
      have hsteps : StepsThrough thresholds whole level := ⟨hnotional,
        fun smaller hsmaller hbefore' hinside => hguard smaller hbefore' hinside
          (hsmall smaller (h.mem_next_iff.mpr ⟨hsmaller, hbefore'⟩) (hinside.trans_eq hedge.symm))⟩
      exact (forall_vwapNarrowings_edge hvalid h.notional h.size hfits.product hbefore hedge).mpr
        ⟨hfits.size hsteps, hfits.edge hsteps threshold hmem hbefore hedge⟩ value hvalue
  · intro threshold hmem hbefore hinside
    have hle : threshold ≤ nextCumNotional := by
      rw [le_iff_val_le, hnext]
      exact hinside.le
    exact hguard threshold hbefore hinside ((crossWhile_ok_iff hascending).mp hafter threshold
      (h.mem_next_iff.mpr ⟨hmem, hbefore⟩) hle)

/-- The values one level narrows are in range exactly when the exact ones fit. -/
private theorem WalkedTo.forall_levelNarrowings (h : WalkedTo thresholds whole w done)
    (hsorted : thresholds.Pairwise (· ≤ ·)) (hvalid : ValidLevels (whole ++ [level])) :
    (∀ value ∈ w.levelNarrowings level, InRange value) ↔ LevelFits thresholds whole level := by
  have hlevel := hvalid level (by simp)
  by_cases hproduct : notionalOf level.1 level.2 ≤ int64Max
  · by_cases hnotional : notionalTotal (whole ++ [level]) ≤ int64Max
    · obtain ⟨nextCumNotional, hnext, hiff⟩ :=
        h.forall_levelNarrowings_iff hvalid hproduct hnotional
      rw [hiff]
      constructor
      · rintro ⟨hcross, hlast⟩
        exact h.levelFits_of_narrowings hsorted hvalid hproduct hnext hcross hlast
      · exact h.narrowings_of_levelFits hsorted hvalid hnotional hnext
    · -- the checked notional stops the walk before anything else is narrowed
      have hover : int64Max < w.cumNotional.val + (level.1 * level.2 : Notional).val := by
        rw [h.notional, val_mul (isValidLevel_iff.mp hlevel).1.le (isValidLevel_iff.mp hlevel).2
          hproduct]
        simpa using hnotional
      rw [levelNarrowings, if_neg (by simp [hlevel]), fromRawSafe_of_gt hover,
        List.forall_mem_singleton, inRange_productNarrowing hlevel]
      exact iff_of_true hproduct ⟨hproduct, fun hle => absurd hle hnotional,
        fun hsteps => absurd hsteps.notional hnotional,
        fun hsteps => absurd hsteps.notional hnotional⟩
  · refine iff_of_false (fun hall => hproduct ?_) fun hfits => hproduct hfits.product
    rw [levelNarrowings, if_neg (by simp [hlevel]), List.forall_mem_cons,
      inRange_productNarrowing hlevel] at hall
    exact hall.1

/-- The narrowings of a whole call. -/
private theorem forall_volumeBandNarrowings (hvalid : ValidLevels levels)
    (hthresholds : volumeThresholdsValid thresholds) :
    (∀ value ∈ volumeBandNarrowings levels thresholds, InRange value) ↔
      NarrowingsFit thresholds levels := by
  have hsorted := sorted_of_volumeThresholdsValid hthresholds
  have hpos := pos_of_volumeThresholdsValid hthresholds
  rw [volumeBandNarrowings, if_neg (by simp [hthresholds])]
  simp only [mem_observed_iff]
  constructor
  · intro hall
    induction levels using List.reverseRecOn with
    | nil =>
      intro whole level hinit
      simp at hinit
    | append_singleton whole level ih =>
      have hinit := List.prefix_append whole [level]
      have hwhole := hvalid.initial hinit
      have hfits : NarrowingsFit thresholds whole := ih hwhole fun value hvalue => by
        obtain ⟨pre, last, t, hpre, hfold, hvalue⟩ := hvalue
        exact hall value ⟨pre, last, t, hpre.trans hinit, hfold, hvalue⟩
      refine forall_step_concat_iff.mpr ⟨hfits, fun hwalked => ?_⟩
      -- the walk gets to its last level, where everything it narrows is seen
      rcases foldlM_walkLevel hsorted hpos hwhole hfits with ⟨-, w, done, hok, hw⟩ | ⟨hnot, -⟩
      · refine (hw.forall_levelNarrowings hsorted hvalid).mp fun value hvalue => ?_
        exact hall value ⟨whole, level, w, List.prefix_rfl, hok, hvalue⟩
      · exact absurd hwalked hnot
  · rintro hfits value ⟨whole, level, w, hinit, hok, hvalue⟩
    have hinit' : whole <+: levels := (List.prefix_append whole [level]).trans hinit
    rcases foldlM_walkLevel hsorted hpos (hvalid.initial hinit')
        fun whole' level' h => hfits whole' level' (h.trans hinit') with
      ⟨hwalked, w', done, hok', hw⟩ | ⟨-, herror⟩
    · obtain rfl : w' = w := Except.ok.inj (hok'.symm.trans hok)
      exact (hw.forall_levelNarrowings hsorted (hvalid.initial hinit)).mpr
        (hfits whole level hinit hwalked) value hvalue
    · cases herror.symm.trans hok

end VolumeBands

/-! ### When a side is banded exactly -/

/-- The levels of one side of a book, best first. -/
def SidePolicy.levels : SidePolicy → L2OrderBook → List Level
  | .ask, book => book.asks.toList
  | .bid, book => book.bids.toList

private theorem SidePolicy.pairwise_levels (side : SidePolicy) (book : L2OrderBook) :
    (side.levels book).Pairwise fun level level' => side.Before level.1 level'.1 := by
  cases side with
  | ask =>
    have hkeys := Std.ExtTreeMap.ordered_keys_toList (t := book.asks)
    exact hkeys
  | bid =>
    have hkeys := Std.ExtTreeMap.ordered_keys_toList (t := book.bids)
    exact hkeys

/-- No price band wraps: every unchecked narrowing is in range, a success carries the exact
totals, and the only error is the checked one. -/
structure PriceBandsExact (side : SidePolicy) (levels : List Level) (reference : Price)
    (bpsThresholds : List Int32) : Prop where
  narrowings : ∀ value ∈ priceBandNarrowings side reference levels bpsThresholds, InRange value
  bands : ∀ bands, priceBandDepth side levels reference bpsThresholds = .ok bands →
    List.Forall₂ (IsPriceBand side levels reference) bpsThresholds bands
  overflow : ∀ e, priceBandDepth side levels reference bpsThresholds = .error e →
    e = .resultOutOfRange

/-- No volume band wraps: every unchecked narrowing is in range, a success carries the exact
sums and rounded quotients, and the only error is the checked one. -/
structure VolumeBandsExact (levels : List Level) (thresholds : List Notional) : Prop where
  narrowings : ∀ value ∈ volumeBandNarrowings levels thresholds, InRange value
  bands : ∀ bands, volumeBandPrices levels thresholds = .ok bands →
    List.Forall₂ (IsVolumeBand levels) thresholds bands
  overflow : ∀ e, volumeBandPrices levels thresholds = .error e → e = .resultOutOfRange

section Exact

variable {side : SidePolicy} {levels : List Level} {reference : Price}
  {bpsThresholds : List Int32} {thresholds : List Notional}

private theorem priceBandsExact_iff (hvalid : ValidLevels levels)
    (hsorted : levels.Pairwise fun level level' => side.Before level.1 level'.1)
    (href : 0 < reference.val) (hthresholds : bpsThresholdsValid side bpsThresholds) :
    PriceBandsExact side levels reference bpsThresholds ↔
      CountsFit side reference bpsThresholds 0 0 levels := by
  rw [← forall_priceBandNarrowings hvalid hsorted href hthresholds]
  refine ⟨fun h => h.narrowings, fun hnarrowings => ?_⟩
  have hfits := (forall_priceBandNarrowings hvalid hsorted href hthresholds).mp hnarrowings
  rcases priceBandDepth_cases hvalid hsorted href hthresholds hfits with
    ⟨bands, hok, hbands⟩ | ⟨herror, -⟩
  · refine ⟨hnarrowings, fun bands' hok' => ?_, fun e he => ?_⟩
    · rwa [Except.ok.inj (hok'.symm.trans hok)]
    · cases he.symm.trans hok
  · refine ⟨hnarrowings, fun bands hok => ?_, fun e he => ?_⟩
    · cases hok.symm.trans herror
    · exact Except.error.inj (he.symm.trans herror)

private theorem volumeBandsExact_iff (hvalid : ValidLevels levels)
    (hthresholds : volumeThresholdsValid thresholds) :
    VolumeBandsExact levels thresholds ↔ NarrowingsFit thresholds levels := by
  rw [← forall_volumeBandNarrowings hvalid hthresholds]
  refine ⟨fun h => h.narrowings, fun hnarrowings => ?_⟩
  have hfits := (forall_volumeBandNarrowings hvalid hthresholds).mp hnarrowings
  refine ⟨hnarrowings, fun bands hok => bands_of_ok hvalid hok hfits, fun e he => ?_⟩
  rcases volumeBandPrices_cases hvalid hthresholds hfits with ⟨bands, hok, -⟩ | herror
  · cases he.symm.trans hok
  · exact Except.error.inj (he.symm.trans herror)

end Exact

/-- The bands of a side of a book never wrap exactly when the products, the running sizes and
the quotients of the levels the walk gets to fit. -/
theorem bands_exact_iff (side : SidePolicy) (book : L2OrderBook) (reference : Price)
    (bpsThresholds : List Int32) (thresholds : List Notional)
    (hvalid : ValidLevels (side.levels book)) (href : 0 < reference.val)
    (hbps : bpsThresholdsValid side bpsThresholds)
    (hthresholds : volumeThresholdsValid thresholds) :
    (PriceBandsExact side (side.levels book) reference bpsThresholds ↔
      CountsFit side reference bpsThresholds 0 0 (side.levels book)) ∧
    (VolumeBandsExact (side.levels book) thresholds ↔
      NarrowingsFit thresholds (side.levels book)) :=
  ⟨priceBandsExact_iff hvalid (side.pairwise_levels book) href hbps,
    volumeBandsExact_iff hvalid hthresholds⟩

/-- A hundred thousand units asked at 100000. -/
def deepAsk : L2OrderBook := { asks := (∅ : SideMap less).insert ⟨100000000000000⟩ ⟨100000000000⟩ }

/-- The least size at the largest price. -/
def dearAsk : L2OrderBook := { asks := (∅ : SideMap less).insert ⟨9223372036854775807⟩ ⟨1⟩ }

theorem bands_exact_iff_sample :
    (PriceBandsExact .ask (SidePolicy.ask.levels deepAsk) ⟨100000000000000⟩ [0, 50] ↔
      CountsFit .ask ⟨100000000000000⟩ [0, 50] 0 0 (SidePolicy.ask.levels deepAsk)) ∧
    (VolumeBandsExact (SidePolicy.ask.levels deepAsk) [⟨1000000000000⟩] ↔
      NarrowingsFit [⟨1000000000000⟩] (SidePolicy.ask.levels deepAsk)) :=
  bands_exact_iff .ask deepAsk ⟨100000000000000⟩ [0, 50] [⟨1000000000000⟩]
    (by unfold ValidLevels; decide +kernel) (by decide +kernel) (by decide +kernel)
    (by decide +kernel)

/-- Both kinds of bands wrap. The product of the one level is past the range and comes back
negative as the depth; the average price of a threshold at the far edge, more than the price
itself because the notional was rounded up, comes back negative as a price. -/
theorem bands_exact_counterexample :
    (ValidLevels (SidePolicy.ask.levels deepAsk) ∧
      ¬PriceBandsExact .ask (SidePolicy.ask.levels deepAsk) ⟨100000000000000⟩ [0] ∧
      priceBandDepth .ask (SidePolicy.ask.levels deepAsk) ⟨100000000000000⟩ [0] =
        .ok [⟨0, ⟨100000000000000⟩, ⟨100000000000⟩, ⟨-8446744073709551616⟩⟩]) ∧
    (ValidLevels (SidePolicy.ask.levels dearAsk) ∧
      ¬VolumeBandsExact (SidePolicy.ask.levels dearAsk) [⟨9223372036855⟩] ∧
      volumeBandPrices (SidePolicy.ask.levels dearAsk) [⟨9223372036855⟩] =
        .ok [⟨⟨9223372036855⟩, some ⟨-9223372036854551616⟩, ⟨9223372036855⟩⟩]) := by
  refine ⟨⟨by unfold ValidLevels; decide +kernel, fun h => ?_, by decide +kernel⟩,
    ⟨by unfold ValidLevels; decide +kernel, fun h => ?_, by decide +kernel⟩⟩
  · exact absurd (h.narrowings 10000000000000000000 (by decide +kernel)) (by decide +kernel)
  · exact absurd (h.narrowings 9223372036855000000 (by decide +kernel)) (by decide +kernel)

end Hermeneutic
