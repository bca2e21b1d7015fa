import Mathlib.Data.List.TakeWhile
import Hermeneutic.Book.LevelTotals
import Hermeneutic.Book.VolumeBands
import Hermeneutic.ForMathlib.ListTraversal

/-!
# The walk of the volume bands in exact arithmetic

A threshold is reached in the first level that lifts the running notional to it
(`ReachedIn`). What its band says depends on that level, on the totals of the levels taken
whole before it and on nothing else (`reachedVwap`), in particular not on the other
thresholds (`IsVolumeBand`).

`WalkedTo` is the invariant of the walk: the totals are exact, the thresholds reached have
their bands and the others are ahead. One level keeps it as long as what the level narrows
without a check fits (`LevelFits`), and otherwise the walk stops with a checked error, which
`StepsThrough` tells from the inputs (`WalkedTo.walkLevel`). The result for a whole side is
`volumeBandPrices_eq`.

The thresholds reached in one level are priced one by one, from the same totals, so the loop over
them is compared with a list of bands by induction on the thresholds (`crossWhile_eq`). Behind the
last level the thresholds that are left are unreached, and their band says so with what there is.
-/

namespace Hermeneutic

open BasicFixedPoint VolumeBandWalk

/-- The threshold is reached in `level`, after the levels `whole`: the running notional gets
to it there and not before. -/
structure ReachedIn (levels : List Level) (threshold : Notional) (whole : List Level)
    (level : Level) : Prop where
  initial : whole ++ [level] <+: levels
  before : ∀ levels', levels' <+: whole → notionalTotal levels' < threshold.val
  reached : threshold.val ≤ notionalTotal (whole ++ [level])

/-- The average price of a threshold reached in `level` after the levels `whole`: the whole
amount over the whole size at the far edge, one fraction with the size taken from the level
cleared out of its denominator inside. -/
def reachedVwap (threshold : Notional) (whole : List Level) (level : Level) : ℤ :=
  if threshold.val = notionalTotal (whole ++ [level]) then
    roundedQuotient (threshold.val * 10 ^ 6) (sizeTotal (whole ++ [level]))
  else
    roundedQuotient (threshold.val * level.1.val * 10 ^ 6)
      (sizeTotal whole * level.1.val + (threshold.val - notionalTotal whole) * 10 ^ 6)

/-- The band of a threshold the side reaches. -/
def IsReachedBand (levels : List Level) (threshold : Notional) (band : VolumeBand) : Prop :=
  ∃ whole level vwap, ReachedIn levels threshold whole level ∧
    vwap.val = reachedVwap threshold whole level ∧
    band = ⟨threshold, some vwap, threshold⟩

/-- The band of a threshold the side is not deep enough for. -/
def IsUnreachedBand (levels : List Level) (threshold : Notional) (band : VolumeBand) : Prop :=
  ∃ filled, (∀ levels', levels' <+: levels → notionalTotal levels' < threshold.val) ∧
    filled.val = notionalTotal levels ∧ band = ⟨threshold, none, filled⟩

/-- The band of a threshold, from the levels and the threshold alone. -/
def IsVolumeBand (levels : List Level) (threshold : Notional) (band : VolumeBand) : Prop :=
  IsReachedBand levels threshold band ∨ IsUnreachedBand levels threshold band

/-- No checked error stops the walk in `level`: the running notional fits, and so does the
product the partial fill checks for each threshold strictly inside the level. -/
structure StepsThrough (thresholds : List Notional) (whole : List Level) (level : Level) :
    Prop where
  notional : notionalTotal (whole ++ [level]) ≤ int64Max
  guard : ∀ threshold ∈ thresholds, notionalTotal whole < threshold.val →
    threshold.val < notionalTotal (whole ++ [level]) →
    threshold.val * level.1.val ≤ kInt128Max / kScale

/-- The walk gets through all of `levels`. -/
def Walked (thresholds : List Notional) (levels : List Level) : Prop :=
  ∀ whole level, whole ++ [level] <+: levels → StepsThrough thresholds whole level

/-- What the walk narrows in `level` without a check fits: the product, the quotient of every
threshold inside that gets past the checks, and, when all do, the running size and the
quotient of a threshold at the far edge. -/
structure LevelFits (thresholds : List Notional) (whole : List Level) (level : Level) :
    Prop where
  product : notionalOf level.1 level.2 ≤ int64Max
  inside : notionalTotal (whole ++ [level]) ≤ int64Max → ∀ threshold ∈ thresholds,
    notionalTotal whole < threshold.val → threshold.val < notionalTotal (whole ++ [level]) →
    threshold.val * level.1.val ≤ kInt128Max / kScale →
    2 * (threshold.val * level.1.val * 10 ^ 6) < (2 * int64Max + 1) *
      (sizeTotal whole * level.1.val + (threshold.val - notionalTotal whole) * 10 ^ 6)
  size : StepsThrough thresholds whole level → sizeTotal (whole ++ [level]) ≤ int64Max
  edge : StepsThrough thresholds whole level → ∀ threshold ∈ thresholds,
    notionalTotal whole < threshold.val → threshold.val = notionalTotal (whole ++ [level]) →
    2 * (threshold.val * 10 ^ 6) < (2 * int64Max + 1) * sizeTotal (whole ++ [level])

section Reached

variable {levels whole : List Level} {level : Level} {threshold : Notional}

theorem reachedIn_of_lt (hvalid : ValidLevels levels) (hinitial : whole ++ [level] <+: levels)
    (hbefore : notionalTotal whole < threshold.val)
    (hreached : threshold.val ≤ notionalTotal (whole ++ [level])) :
    ReachedIn levels threshold whole level where
  initial := hinitial
  before levels' hlevels' := by
    have hwhole := hvalid.initial ((List.prefix_append whole [level]).trans hinitial)
    exact (notionalTotal_mono hwhole hlevels').trans_lt hbefore
  reached := hreached

theorem ReachedIn.before_whole (h : ReachedIn levels threshold whole level) :
    notionalTotal whole < threshold.val :=
  h.before whole List.prefix_rfl

theorem ReachedIn.extend (h : ReachedIn levels threshold whole level) {levels' : List Level}
    (hinit : levels <+: levels') : ReachedIn levels' threshold whole level :=
  ⟨h.initial.trans hinit, h.before, h.reached⟩

theorem IsReachedBand.extend {band : VolumeBand} (h : IsReachedBand levels threshold band)
    {levels' : List Level} (hinit : levels <+: levels') :
    IsReachedBand levels' threshold band := by
  obtain ⟨whole, level, vwap, hreached, hvwap, hband⟩ := h
  exact ⟨whole, level, vwap, hreached.extend hinit, hvwap, hband⟩

/-- Of two thresholds the smaller one is reached in the same level or in an earlier one. -/
theorem ReachedIn.eq_or_initial (h : ReachedIn levels threshold whole level)
    {threshold' : Notional} {whole' : List Level} {level' : Level}
    (h' : ReachedIn levels threshold' whole' level') (hle : threshold ≤ threshold') :
    (whole = whole' ∧ level = level') ∨ whole ++ [level] <+: whole' := by
  rcases List.prefix_or_prefix_of_prefix h.initial h'.initial with hinit | hinit
  · exact concat_initial_concat_iff.mp hinit
  · rcases concat_initial_concat_iff.mp hinit with ⟨rfl, rfl⟩ | hinit
    · exact .inl ⟨rfl, rfl⟩
    · -- the larger threshold would be reached before the smaller one
      have hbefore := h.before (whole' ++ [level']) hinit
      have hreached := h'.reached
      have hval : threshold.val ≤ threshold'.val := hle
      omega

/-- A level that lifts the running notional has a positive size. -/
private theorem size_pos_of_notionalOf_pos (hvalid : isValidLevel level)
    (hpos : 0 < notionalOf level.1 level.2) : 0 < level.2.val := by
  refine lt_of_le_of_ne (isValidLevel_iff.mp hvalid).2 fun hzero => ?_
  rw [notionalOf, ← hzero, mul_zero, roundedQuotient_zero] at hpos
  exact hpos.false

end Reached

section Fill

variable {w : VolumeBandWalk} {whole : List Level} {level : Level} {threshold : Notional}

/-- The denominator of a partial fill is positive. -/
theorem partialFill_pos (hvalid : ValidLevels (whole ++ [level]))
    (hbefore : notionalTotal whole < threshold.val) :
    0 < sizeTotal whole * level.1.val + (threshold.val - notionalTotal whole) * 10 ^ 6 := by
  have hlevel := isValidLevel_iff.mp (hvalid level (by simp))
  have hsize := sizeTotal_nonneg (hvalid.initial (List.prefix_append whole [level]))
  have hproduct := mul_nonneg hsize hlevel.1.le
  omega

/-- The size taken up to the far edge of a level that is reached is positive. -/
theorem reachedSize_pos (hvalid : ValidLevels (whole ++ [level]))
    (hbefore : notionalTotal whole < threshold.val)
    (hedge : threshold.val = notionalTotal (whole ++ [level])) :
    0 < sizeTotal (whole ++ [level]) := by
  have hsize := sizeTotal_nonneg (hvalid.initial (List.prefix_append whole [level]))
  -- the level lifts the running notional, so it is not empty
  simp only [notionalTotal_append, notionalTotal_cons, notionalTotal_nil] at hedge
  have hpos := size_pos_of_notionalOf_pos (hvalid level (by simp)) (by omega)
  simp only [sizeTotal_append, sizeTotal_cons, sizeTotal_nil]
  omega

/-- What is left to fill when the level is reached. -/
theorem remaining_val (hvalid : ValidLevels whole)
    (hnotional : w.cumNotional.val = notionalTotal whole)
    (hbefore : notionalTotal whole < threshold.val) :
    (threshold - w.cumNotional).val = threshold.val - notionalTotal whole := by
  have hwhole := notionalTotal_nonneg hvalid
  rw [val_sub_of_nonneg (by omega) (by omega), hnotional]

/-- The comparison of the source tells the far edge of a level from its inside. -/
theorem remaining_eq_iff (hvalid : ValidLevels (whole ++ [level]))
    (hnotional : w.cumNotional.val = notionalTotal whole)
    (hproduct : notionalOf level.1 level.2 ≤ int64Max)
    (hbefore : notionalTotal whole < threshold.val) :
    threshold - w.cumNotional = (level.1 * level.2 : Notional) ↔
      threshold.val = notionalTotal (whole ++ [level]) := by
  have hlevel := isValidLevel_iff.mp (hvalid level (by simp))
  have hvalid' := hvalid.initial (List.prefix_append whole [level])
  rw [← val_inj, remaining_val hvalid' hnotional hbefore, val_mul hlevel.1.le hlevel.2 hproduct,
    sub_eq_iff_eq_add']
  simp

/-- The notional filled at the far edge is the threshold. -/
theorem add_remaining (hvalid : ValidLevels whole)
    (hnotional : w.cumNotional.val = notionalTotal whole)
    (hbefore : notionalTotal whole < threshold.val) :
    w.cumNotional + (threshold - w.cumNotional) = threshold := by
  rw [add_def, hnotional, remaining_val hvalid hnotional hbefore, add_sub_cancel,
    fromRawChecked_val]

/-- The running size with the level taken, when it fits. -/
theorem val_cumSize_add (hvalid : ValidLevels (whole ++ [level]))
    (hsize : w.cumSize.val = sizeTotal whole)
    (hsizeFits : sizeTotal (whole ++ [level]) ≤ int64Max) :
    (w.cumSize + level.2).val = sizeTotal (whole ++ [level]) := by
  have hnonneg := sizeTotal_nonneg hvalid
  have hsum : w.cumSize.val + level.2.val = sizeTotal (whole ++ [level]) := by simp [hsize]
  rw [add_def, hsum, val_fromRawChecked (by omega) hsizeFits]

/-- Of the two bounds the partial fill checks only the upper one matters. -/
theorem partialFill_guard {product : ℤ} (hproduct : 0 ≤ product) :
    (product > kInt128Max.tdiv kScale || product < -kInt128Max.tdiv kScale) =
      decide (kInt128Max / kScale < product) := by
  have hlimit : kInt128Max.tdiv kScale = kInt128Max / kScale := by decide
  have hneg : -(kInt128Max / kScale) ≤ 0 := by decide
  have hlow : ¬product < -(kInt128Max / kScale) := by omega
  simp only [hlimit, hlow, gt_iff_lt, decide_false, Bool.or_false]

/-- A threshold strictly inside a level is priced by the partial fill, behind its check. -/
theorem vwapAt_inside (hvalid : ValidLevels (whole ++ [level]))
    (hnotional : w.cumNotional.val = notionalTotal whole)
    (hsize : w.cumSize.val = sizeTotal whole)
    (hproduct : notionalOf level.1 level.2 ≤ int64Max)
    (hbefore : notionalTotal whole < threshold.val)
    (hinside : threshold.val < notionalTotal (whole ++ [level])) :
    w.vwapAt level threshold =
      if kInt128Max / kScale < threshold.val * level.1.val then .error .resultOutOfRange
      else .ok (fromRawChecked (roundedQuotient (threshold.val * level.1.val * 10 ^ 6)
        (sizeTotal whole * level.1.val + (threshold.val - notionalTotal whole) * 10 ^ 6))) := by
  have hlevel := isValidLevel_iff.mp (hvalid level (by simp))
  have hvalid' := hvalid.initial (List.prefix_append whole [level])
  have hwhole := notionalTotal_nonneg hvalid'
  have hden := partialFill_pos hvalid hbefore
  -- less is left than the level holds, so this is a partial fill
  have hne : threshold - w.cumNotional ≠ (level.1 * level.2 : Notional) := fun heq =>
    hinside.ne ((remaining_eq_iff hvalid hnotional hproduct hbefore).mp heq)
  simp only [VolumeBandWalk.vwapAt, if_neg hne, vwapAtPartialFill, if_neg hlevel.1.not_ge,
    remaining_val hvalid' hnotional hbefore, hnotional, hsize, add_sub_cancel,
    partialFill_guard (mul_nonneg (hwhole.trans hbefore.le) hlevel.1.le), decide_eq_true_eq]
  refine if_congr Iff.rfl rfl ?_
  have hscale : kScale = 10 ^ 6 := rfl
  rw [hscale, if_neg hden.not_ge, roundDivNearestAway_eq _ hden]

/-- A threshold at the far edge of a level is priced from the exact size. -/
private theorem vwapAt_edge (hvalid : ValidLevels (whole ++ [level]))
    (hnotional : w.cumNotional.val = notionalTotal whole)
    (hsize : w.cumSize.val = sizeTotal whole)
    (hproduct : notionalOf level.1 level.2 ≤ int64Max)
    (hsizeFits : sizeTotal (whole ++ [level]) ≤ int64Max)
    (hbefore : notionalTotal whole < threshold.val)
    (hedge : threshold.val = notionalTotal (whole ++ [level])) :
    w.vwapAt level threshold = .ok (fromRawChecked
      (roundedQuotient (threshold.val * 10 ^ 6) (sizeTotal (whole ++ [level])))) := by
  have hlevel := isValidLevel_iff.mp (hvalid level (by simp))
  have hvalid' := hvalid.initial (List.prefix_append whole [level])
  have hden := reachedSize_pos hvalid hbefore hedge
  have hsum := val_cumSize_add hvalid hsize hsizeFits
  simp only [VolumeBandWalk.vwapAt, add_remaining hvalid' hnotional hbefore,
    if_pos ((remaining_eq_iff hvalid hnotional hproduct hbefore).mpr hedge)]
  rw [div_size_eq _ (hsum ▸ hden), hsum]

end Fill

section Walk

/-- The band of a threshold reached in a level, as the walk reports it. -/
def bandFor (w : VolumeBandWalk) (level : Level) (threshold : Notional) :
    Except Errc VolumeBand := do
  let vwap ← w.vwapAt level threshold
  pure ⟨threshold, some vwap, threshold⟩

/-- The inner loop reports the thresholds the level reaches. -/
theorem crossWhile_eq (w : VolumeBandWalk) (level : Level) (nextCumNotional : Notional)
    (next : List Notional) (result : List VolumeBand) :
    w.crossWhile level nextCumNotional next result = (do
      let bands ← (next.takeWhile (· ≤ nextCumNotional)).mapM (bandFor w level)
      pure (next.dropWhile (· ≤ nextCumNotional), result ++ bands)) := by
  induction next generalizing result with
  | nil =>
    simp only [crossWhile, List.takeWhile_nil, List.dropWhile_nil, List.mapM_nil, pure_bind,
      List.append_nil]
    rfl
  | cons threshold next ih =>
    by_cases hle : threshold ≤ nextCumNotional
    · simp only [crossWhile, ge_iff_le, hle, if_true, ih, List.takeWhile_cons, List.dropWhile_cons,
        decide_true, List.mapM_cons, bandFor, bind_assoc, pure_bind, List.append_assoc,
        List.singleton_append]
    · simp only [crossWhile, ge_iff_le, hle, if_false, List.takeWhile_cons, List.dropWhile_cons,
        decide_false, Bool.false_eq_true, List.mapM_nil, pure_bind, List.append_nil]
      rfl

variable {thresholds done : List Notional} {w : VolumeBandWalk} {levels whole : List Level}
  {level : Level}

/-- The walk has taken the levels `whole`: its totals are exact, the thresholds `done` have
their bands and the others are ahead. -/
structure WalkedTo (thresholds : List Notional) (whole : List Level) (w : VolumeBandWalk)
    (done : List Notional) : Prop where
  notional : w.cumNotional.val = notionalTotal whole
  size : w.cumSize.val = sizeTotal whole
  split : thresholds = done ++ w.next
  behind : ∀ threshold ∈ done, threshold.val ≤ notionalTotal whole
  ahead : ∀ threshold ∈ w.next, notionalTotal whole < threshold.val
  bands : List.Forall₂ (IsReachedBand whole) done w.result

private theorem walkedTo_start (hpos : ∀ threshold ∈ thresholds, 0 < threshold.val) :
    WalkedTo thresholds [] ⟨0, 0, thresholds, []⟩ [] where
  notional := rfl
  size := rfl
  split := rfl
  behind := by simp
  ahead := hpos
  bands := .nil

/-- The thresholds ahead are those past the running notional. -/
theorem WalkedTo.mem_next_iff (h : WalkedTo thresholds whole w done) {threshold : Notional} :
    threshold ∈ w.next ↔ threshold ∈ thresholds ∧ notionalTotal whole < threshold.val := by
  constructor
  · intro hmem
    exact ⟨by rw [h.split]; exact List.mem_append_right done hmem, h.ahead threshold hmem⟩
  · rintro ⟨hmem, hlt⟩
    rw [h.split] at hmem
    refine (List.mem_append.mp hmem).resolve_left fun hdone => ?_
    exact (h.behind threshold hdone).not_gt hlt

/-- A threshold reached in the level is priced exactly, when its quotient fits. -/
private theorem WalkedTo.vwapAt_eq (h : WalkedTo thresholds whole w done)
    (hvalid : ValidLevels (whole ++ [level])) (hfits : LevelFits thresholds whole level)
    (hsteps : StepsThrough thresholds whole level) {threshold : Notional}
    (hmem : threshold ∈ w.next)
    (hreached : threshold.val ≤ notionalTotal (whole ++ [level])) :
    ∃ vwap, w.vwapAt level threshold = .ok vwap ∧
      vwap.val = reachedVwap threshold whole level := by
  obtain ⟨hthreshold, hbefore⟩ := h.mem_next_iff.mp hmem
  have hwhole := notionalTotal_nonneg (hvalid.initial (List.prefix_append whole [level]))
  rcases hreached.lt_or_eq with hinside | hedge
  · have hguard := hsteps.guard threshold hthreshold hbefore hinside
    have hden := partialFill_pos hvalid hbefore
    have hnum : 0 ≤ threshold.val * level.1.val * 10 ^ 6 :=
      mul_nonneg (mul_nonneg (by omega) (isValidLevel_iff.mp (hvalid level (by simp))).1.le)
        (by norm_num)
    have hquotient := (roundedQuotient_le_iff hnum hden).mpr
      (hfits.inside hsteps.notional threshold hthreshold hbefore hinside hguard)
    have hnonneg := roundedQuotient_nonneg hnum hden
    have hvwap := vwapAt_inside hvalid h.notional h.size hfits.product hbefore hinside
    rw [if_neg hguard.not_gt] at hvwap
    exact ⟨_, hvwap, by rw [reachedVwap, if_neg hinside.ne,
      val_fromRawChecked (by omega) hquotient]⟩
  · have hden := reachedSize_pos hvalid hbefore hedge
    have hnum : 0 ≤ threshold.val * 10 ^ 6 := by omega
    have hquotient := (roundedQuotient_le_iff hnum hden).mpr
      (hfits.edge hsteps threshold hthreshold hbefore hedge)
    have hnonneg := roundedQuotient_nonneg hnum hden
    exact ⟨_, vwapAt_edge hvalid h.notional h.size hfits.product (hfits.size hsteps) hbefore hedge,
      by rw [reachedVwap, if_pos hedge, val_fromRawChecked (by omega) hquotient]⟩

/-- The level as the walk takes it, its product and its running notional fitting. -/
private theorem WalkedTo.walkLevel_eq (h : WalkedTo thresholds whole w done)
    (hvalid : ValidLevels (whole ++ [level])) (hproduct : notionalOf level.1 level.2 ≤ int64Max)
    (hfits : notionalTotal (whole ++ [level]) ≤ int64Max) :
    ∃ nextCumNotional : Notional, nextCumNotional.val = notionalTotal (whole ++ [level]) ∧
      w.walkLevel level = (do
        let bands ← (w.next.takeWhile (· ≤ nextCumNotional)).mapM (bandFor w level)
        pure ⟨nextCumNotional, w.cumSize + level.2, w.next.dropWhile (· ≤ nextCumNotional),
          w.result ++ bands⟩) := by
  have hlevel := isValidLevel_iff.mp (hvalid level (by simp))
  have hnonneg := notionalTotal_nonneg hvalid
  have hsum : w.cumNotional.val + (level.1 * level.2 : Notional).val =
      notionalTotal (whole ++ [level]) := by
    rw [h.notional, val_mul hlevel.1.le hlevel.2 hproduct]
    simp
  refine ⟨fromRawChecked (notionalTotal (whole ++ [level])),
    val_fromRawChecked (by omega) hfits, ?_⟩
  rw [walkLevel, if_neg (by simp [hvalid level (by simp)])]
  simp only [hsum, fromRawSafe_of_le (show -2 ^ 63 ≤ _ by omega) hfits, crossWhile_eq]
  simp only [bind_assoc, pure_bind]
  rfl

theorem WalkedTo.next_ascending (h : WalkedTo thresholds whole w done)
    (hsorted : thresholds.Pairwise (· ≤ ·)) : w.next.Pairwise (· ≤ ·) :=
  hsorted.sublist (h.split ▸ List.sublist_append_right done w.next)

/-- The thresholds the inner loop leaves are past the running notional. -/
theorem WalkedTo.lt_of_mem_dropWhile (h : WalkedTo thresholds whole w done)
    (hsorted : thresholds.Pairwise (· ≤ ·)) {nextCumNotional threshold : Notional}
    (hmem : threshold ∈ w.next.dropWhile (· ≤ nextCumNotional)) :
    nextCumNotional < threshold :=
  Hermeneutic.lt_of_mem_dropWhile (h.next_ascending hsorted) hmem

/-- A level the walk steps through. -/
private theorem WalkedTo.walkLevel_ok (h : WalkedTo thresholds whole w done)
    (hsorted : thresholds.Pairwise (· ≤ ·)) (hvalid : ValidLevels (whole ++ [level]))
    (hfits : LevelFits thresholds whole level) (hsteps : StepsThrough thresholds whole level) :
    ∃ w' done', w.walkLevel level = .ok w' ∧ WalkedTo thresholds (whole ++ [level]) w' done' := by
  obtain ⟨nextCumNotional, hnext, hwalk⟩ := h.walkLevel_eq hvalid hfits.product hsteps.notional
  have hlevel := isValidLevel_iff.mp (hvalid level (by simp))
  have hnonneg := notionalOf_nonneg hlevel.1.le hlevel.2
  set reached := w.next.takeWhile (· ≤ nextCumNotional) with hreached
  have hle : ∀ threshold ∈ reached, threshold.val ≤ notionalTotal (whole ++ [level]) := by
    intro threshold hmem
    have hle : threshold ≤ nextCumNotional := by simpa using List.mem_takeWhile_imp hmem
    exact hnext ▸ hle
  have hvwap : ∀ threshold ∈ reached, ∃ vwap, w.vwapAt level threshold = .ok vwap ∧
      vwap.val = reachedVwap threshold whole level := fun threshold hmem =>
    h.vwapAt_eq hvalid hfits hsteps ((List.takeWhile_sublist _).subset hmem) (hle threshold hmem)
  rcases mapM_ok_or_error (bandFor w level) reached with
    ⟨bands, hbands, hall⟩ | ⟨pre, threshold, post, e, hsplit, -, he, -⟩
  · refine ⟨_, done ++ reached, by rw [hwalk, hbands]; rfl, ?_⟩
    exact {
      notional := hnext
      size := val_cumSize_add hvalid h.size (hfits.size hsteps)
      split := by rw [h.split, List.append_assoc, List.takeWhile_append_dropWhile]
      behind := fun threshold hmem => by
        rcases List.mem_append.mp hmem with hdone | hmem
        · have hbehind := h.behind threshold hdone
          simp only [notionalTotal_append, notionalTotal_cons, notionalTotal_nil]
          omega
        · exact hle threshold hmem
      ahead := fun threshold hmem => by
        rw [← hnext]
        exact h.lt_of_mem_dropWhile hsorted hmem
      bands := by
        have hinit := List.prefix_append whole [level]
        refine List.rel_append (h.bands.imp fun _ _ hband => hband.extend hinit) ?_
        refine ((List.forall₂_and_left _ _).mpr ⟨fun _ hmem => hmem, hall⟩).imp ?_
        rintro threshold band ⟨hmem, hband⟩
        obtain ⟨vwap, hok, hval⟩ := hvwap threshold hmem
        rw [bandFor, hok] at hband
        have hbefore := h.ahead threshold ((List.takeWhile_sublist _).subset hmem)
        exact ⟨whole, level, vwap, reachedIn_of_lt hvalid List.prefix_rfl hbefore
          (hle threshold hmem), hval, (Except.ok.inj hband).symm⟩ }
  · -- no threshold reached in the level fails
    obtain ⟨vwap, hok, -⟩ := hvwap threshold (by simp [hsplit])
    rw [bandFor, hok] at he
    cases he

/-- A level a checked error stops the walk in. -/
private theorem WalkedTo.walkLevel_error (h : WalkedTo thresholds whole w done)
    (hsorted : thresholds.Pairwise (· ≤ ·)) (hvalid : ValidLevels (whole ++ [level]))
    (hproduct : notionalOf level.1 level.2 ≤ int64Max)
    (hsteps : ¬StepsThrough thresholds whole level) :
    w.walkLevel level = .error .resultOutOfRange := by
  have hlevel := isValidLevel_iff.mp (hvalid level (by simp))
  rcases le_or_gt (notionalTotal (whole ++ [level])) int64Max with hfits | hover
  · obtain ⟨nextCumNotional, hnext, hwalk⟩ := h.walkLevel_eq hvalid hproduct hfits
    -- some threshold inside the level fails the check of the partial fill
    have hfail : ∃ threshold ∈ thresholds, notionalTotal whole < threshold.val ∧
        threshold.val < notionalTotal (whole ++ [level]) ∧
        kInt128Max / kScale < threshold.val * level.1.val := by
      by_contra hcon
      push Not at hcon
      exact hsteps ⟨hfits, hcon⟩
    obtain ⟨threshold, hmem, hbefore, hinside, hguard⟩ := hfail
    have hmemNext := h.mem_next_iff.mpr ⟨hmem, hbefore⟩
    have hreached : threshold ∈ w.next.takeWhile (· ≤ nextCumNotional) := by
      rw [← List.takeWhile_append_dropWhile (p := (· ≤ nextCumNotional)) (l := w.next)] at hmemNext
      refine (List.mem_append.mp hmemNext).resolve_right fun hdrop => ?_
      have hpast : nextCumNotional.val < threshold.val := h.lt_of_mem_dropWhile hsorted hdrop
      omega
    have herror : bandFor w level threshold = .error .resultOutOfRange := by
      rw [bandFor, vwapAt_inside hvalid h.notional h.size hproduct hbefore hinside,
        if_pos hguard]
      rfl
    rcases mapM_ok_or_error (bandFor w level) (w.next.takeWhile (· ≤ nextCumNotional)) with
      ⟨bands, -, hall⟩ | ⟨pre, first, post, e, hsplit, hpre, he, hmapM⟩
    · obtain ⟨band, -, hband⟩ := exists_of_mem_forall₂ hall hreached
      rw [herror] at hband
      cases hband
    · have hfirst : first ∈ w.next.takeWhile (· ≤ nextCumNotional) := by simp [hsplit]
      have hfirstBefore := h.ahead first ((List.takeWhile_sublist _).subset hfirst)
      have hfirstLe : first.val ≤ notionalTotal (whole ++ [level]) := by
        have hle : first ≤ nextCumNotional := by simpa using List.mem_takeWhile_imp hfirst
        exact hnext ▸ hle
      -- the first to fail is not past the one that fails, so it is inside the level too
      have hfirstInside : first.val < notionalTotal (whole ++ [level]) := by
        have hsorted' := (h.next_ascending hsorted).sublist
          (List.takeWhile_sublist (· ≤ nextCumNotional))
        rw [hsplit] at hsorted' hreached
        rcases List.mem_append.mp hreached with hmemPre | hmemPost
        · obtain ⟨band, hband⟩ := hpre threshold hmemPre
          rw [herror] at hband
          cases hband
        · rcases List.mem_cons.mp hmemPost with rfl | hmemPost
          · exact hinside
          · have hle : first.val ≤ threshold.val :=
              (List.pairwise_cons.mp (List.pairwise_append.mp hsorted').2.1).1 threshold hmemPost
            omega
      have hfirstError : bandFor w level first = .error .resultOutOfRange := by
        rw [bandFor, vwapAt_inside hvalid h.notional h.size hproduct hfirstBefore hfirstInside]
          at he ⊢
        split_ifs at he ⊢
        · rfl
        · cases he
      obtain rfl : e = .resultOutOfRange := Except.error.inj (he.symm.trans hfirstError)
      rw [hwalk, hmapM]
      rfl
  · -- the running notional is past the range, and checked before any threshold
    rw [walkLevel, if_neg (by simp [hvalid level (by simp)])]
    have hsum : int64Max < w.cumNotional.val + (level.1 * level.2 : Notional).val := by
      rw [h.notional, val_mul hlevel.1.le hlevel.2 hproduct]
      simpa using hover
    simp only [fromRawSafe_of_gt hsum]
    rfl

private theorem walked_concat_iff :
    Walked thresholds (whole ++ [level]) ↔
      Walked thresholds whole ∧ StepsThrough thresholds whole level :=
  forall_step_concat_iff

/-- What the walk narrows without a check fits in every level it gets to. -/
def NarrowingsFit (thresholds : List Notional) (levels : List Level) : Prop :=
  ∀ whole level, whole ++ [level] <+: levels → Walked thresholds whole →
    LevelFits thresholds whole level

/-- The walk gets through the levels and its state is exact, or stops with a checked error. -/
theorem foldlM_walkLevel (hsorted : thresholds.Pairwise (· ≤ ·))
    (hpos : ∀ threshold ∈ thresholds, 0 < threshold.val) (hvalid : ValidLevels levels)
    (hfits : NarrowingsFit thresholds levels) :
    (Walked thresholds levels ∧ ∃ w done, levels.foldlM walkLevel ⟨0, 0, thresholds, []⟩ = .ok w ∧
      WalkedTo thresholds levels w done) ∨
    (¬Walked thresholds levels ∧
      levels.foldlM walkLevel ⟨0, 0, thresholds, []⟩ = .error .resultOutOfRange) := by
  induction levels using List.reverseRecOn with
  | nil =>
    refine .inl ⟨?_, _, [], rfl, walkedTo_start hpos⟩
    intro whole level hinit
    simp at hinit
  | append_singleton whole level ih =>
    have hinit := List.prefix_append whole [level]
    rw [foldlM_concat, walked_concat_iff]
    rcases ih (hvalid.initial hinit) fun whole' level' h => hfits whole' level' (h.trans hinit)
      with ⟨hwalked, w, done, hok, hw⟩ | ⟨hnot, herror⟩
    · have hlevel := hfits whole level List.prefix_rfl hwalked
      rw [hok]
      by_cases hsteps : StepsThrough thresholds whole level
      · obtain ⟨w', done', hok', hw'⟩ := hw.walkLevel_ok hsorted hvalid hlevel hsteps
        exact .inl ⟨⟨hwalked, hsteps⟩, w', done', hok', hw'⟩
      · exact .inr ⟨fun h => hsteps h.2, hw.walkLevel_error hsorted hvalid hlevel.product hsteps⟩
    · rw [herror]
      exact .inr ⟨fun h => hnot h.1, rfl⟩

end Walk

end Hermeneutic
