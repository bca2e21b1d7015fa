import Hermeneutic.Book.PriceBands
import Hermeneutic.Book.VolumeBandPrices
import Hermeneutic.ForMathlib.AveragePrice

/-!
# How far a reported average price is from the prices paid

The average price of a threshold is a rational number, the threshold over the exact size
filled (`reachedVwap_eq`), rounded once. The size is exact; the threshold is the cost of the
fill up to the rounding of each level's notional. The exact cost has the properties an average
price should have (`ForMathlib/AveragePrice.lean`), with bids read as offers at negated
prices, so the reported one has them up to that error, which `roundingSlack` bounds by half
a raw unit of notional for each level taken whole.

Three things are then compared for the exact average: it lies between the best price and the price
of the level a threshold is reached in (`SidePolicy.sign` makes the two sides one statement), it
does not get better as the threshold grows (`average_mono`), and a fill inside the first level
costs that level's price. The first two are taken through the rounding of the reported price,
which is monotone and moves a value by half a unit at most. That the slack cannot be dropped is
the counterexample at the end, where two roundings of the notionals put the reported price
outside.
-/

namespace Hermeneutic

open BasicFixedPoint VolumeBandWalk

/-- The direction in which prices get worse along a side. -/
def SidePolicy.sign : SidePolicy → ℚ
  | .ask => 1
  | .bid => -1

/-- The levels taken whole when the threshold is reached in `level` after `whole`. -/
def takenWhole (threshold : Notional) (whole : List Level) (level : Level) : List Level :=
  if threshold.val = notionalTotal (whole ++ [level]) then whole ++ [level] else whole

/-- The size taken from a level that is not taken whole. -/
def sizeInside (threshold : Notional) (whole : List Level) (level : Level) : ℚ :=
  (threshold.val - notionalTotal (takenWhole threshold whole level)) * 10 ^ 6 / level.1.val

/-- The exact size filled to reach the threshold. -/
def filledSize (threshold : Notional) (whole : List Level) (level : Level) : ℚ :=
  sizeTotal (takenWhole threshold whole level) + sizeInside threshold whole level

/-- The most the rounding of the notionals of the levels taken whole moves the average. -/
def roundingSlack (threshold : Notional) (whole : List Level) (level : Level) : ℚ :=
  10 ^ 6 * (takenWhole threshold whole level).length / (2 * filledSize threshold whole level)

/-- No notional of these levels is rounded. -/
def NotRounded (levels : List Level) : Prop :=
  ∀ level ∈ levels, 10 ^ 6 ∣ level.1.val * level.2.val

/-- The levels as offers, in the order in which their prices get worse. -/
def offers (side : SidePolicy) (levels : List Level) : List (ℚ × ℚ) :=
  levels.map fun level => (side.sign * level.1.val, (level.2.val : ℚ))

/-- What the fill pays, in the direction of the side. -/
def paid (side : SidePolicy) (threshold : Notional) (whole : List Level) (level : Level) : ℚ :=
  cost (offers side (takenWhole threshold whole level)) +
    side.sign * level.1.val * sizeInside threshold whole level

/-- Prices only get worse along the levels. -/
def BestFirst (side : SidePolicy) (levels : List Level) : Prop :=
  levels.Pairwise fun level level' => side.sign * level.1.val ≤ side.sign * level'.1.val

section Offers

variable {side : SidePolicy} {levels : List Level}

@[simp] theorem offers_cons (side : SidePolicy) (level : Level) (levels : List Level) :
    offers side (level :: levels) =
      (side.sign * level.1.val, (level.2.val : ℚ)) :: offers side levels := rfl

@[simp] theorem offers_append (side : SidePolicy) (levels levels' : List Level) :
    offers side (levels ++ levels') = offers side levels ++ offers side levels' :=
  List.map_append

private theorem cost_offers_concat (side : SidePolicy) (whole : List Level) (level : Level) :
    cost (offers side (whole ++ [level])) =
      cost (offers side whole) + side.sign * level.1.val * level.2.val := by
  rw [offers_append, cost_append, offers_cons]
  simp [cost, offers]

private theorem quantity_offers (side : SidePolicy) (levels : List Level) :
    quantity (offers side levels) = sizeTotal levels := by
  induction levels with
  | nil => simp [quantity, offers]
  | cons level levels ih =>
    simp only [quantity, offers_cons, List.map_cons, List.sum_cons, sizeTotal_cons,
      Int.cast_add] at ih ⊢
    rw [ih]

private theorem offers_nonneg (hvalid : ValidLevels levels) :
    ∀ offer ∈ offers side levels, 0 ≤ offer.2 := by
  intro offer hoffer
  obtain ⟨level, hlevel, rfl⟩ := List.mem_map.mp hoffer
  have hsize := (isValidLevel_iff.mp (hvalid level hlevel)).2
  simpa using hsize

private theorem abs_sign (side : SidePolicy) : |side.sign| = 1 := by
  cases side <;> simp [SidePolicy.sign]

/-- The rounding of one notional, in the direction of the side. -/
private theorem abs_notional_sub_product (side : SidePolicy) (level : Level) :
    |side.sign * (10 ^ 6 * notionalOf level.1 level.2) - side.sign * level.1.val * level.2.val| ≤
      10 ^ 6 / 2 := by
  have herror := abs_two_mul_sub_roundedQuotient (level.1.val * level.2.val)
    (show (0 : ℤ) < 10 ^ 6 by norm_num)
  have hcast : |2 * ((level.1.val : ℚ) * level.2.val - 10 ^ 6 * notionalOf level.1 level.2)| ≤
      10 ^ 6 := by
    exact_mod_cast herror
  have hflip : side.sign * (10 ^ 6 * notionalOf level.1 level.2) -
      side.sign * level.1.val * level.2.val =
      -(side.sign / 2) *
        (2 * (level.1.val * level.2.val - 10 ^ 6 * notionalOf level.1 level.2)) := by
    ring
  rw [hflip, abs_mul, abs_neg, abs_div, abs_sign]
  norm_num at hcast ⊢
  linarith

/-- The notionals of a list of levels are its cost up to half a unit each. -/
private theorem abs_notional_sub_cost (side : SidePolicy) (levels : List Level) :
    |side.sign * (10 ^ 6 * notionalTotal levels) - cost (offers side levels)| ≤
      (10 ^ 6 * levels.length / 2 : ℚ) := by
  induction levels with
  | nil => simp [cost, offers]
  | cons level levels ih =>
    have hlevel := abs_notional_sub_product side level
    have hsplit : side.sign * (10 ^ 6 * notionalTotal (level :: levels)) -
        cost (offers side (level :: levels)) =
        (side.sign * (10 ^ 6 * notionalOf level.1 level.2) -
          side.sign * level.1.val * level.2.val) +
        (side.sign * (10 ^ 6 * notionalTotal levels) - cost (offers side levels)) := by
      simp only [notionalTotal_cons, offers_cons, cost, List.map_cons, List.sum_cons]
      push_cast
      ring
    -- the errors of the levels add up
    rw [hsplit]
    refine (abs_add_le _ _).trans ?_
    rw [List.length_cons]
    push_cast
    linarith

/-- Without rounding the notionals are the cost. -/
private theorem notional_eq_cost (hexact : NotRounded levels) :
    side.sign * (10 ^ 6 * notionalTotal levels) = cost (offers side levels) := by
  induction levels with
  | nil => simp [cost, offers]
  | cons level levels ih =>
    obtain ⟨hlevel, hlevels⟩ := List.forall_mem_cons.mp hexact
    obtain ⟨notional, hnotional⟩ := hlevel
    have hone : notionalOf level.1 level.2 = notional := by
      rw [notionalOf, hnotional, mul_comm, roundedQuotient_mul_self _ (by norm_num)]
    have hcast : (level.1.val * level.2.val : ℚ) = 10 ^ 6 * notional := by
      exact_mod_cast hnotional
    have hrest := ih hlevels
    simp only [notionalTotal_cons, offers_cons, cost, List.map_cons, List.sum_cons, hone] at hrest ⊢
    push_cast
    rw [mul_assoc side.sign, hcast, ← hrest]
    ring

end Offers

section Fill

variable {side : SidePolicy} {levels whole : List Level} {level : Level} {threshold : Notional}

private theorem takenWhole_initial (threshold : Notional) (whole : List Level) (level : Level) :
    takenWhole threshold whole level <+: whole ++ [level] := by
  rw [takenWhole]
  split_ifs
  · exact List.prefix_rfl
  · exact List.prefix_append whole [level]

/-- At the far edge nothing is taken from a level that is not taken whole. -/
private theorem sizeInside_of_edge (hedge : threshold.val = notionalTotal (whole ++ [level])) :
    sizeInside threshold whole level = 0 := by
  rw [sizeInside, takenWhole, if_pos hedge, hedge, sub_self, zero_mul, zero_div]

private theorem filledSize_of_edge (hedge : threshold.val = notionalTotal (whole ++ [level])) :
    filledSize threshold whole level = sizeTotal (whole ++ [level]) := by
  rw [filledSize, sizeInside_of_edge hedge, takenWhole, if_pos hedge, add_zero]

private theorem paid_of_edge (hedge : threshold.val = notionalTotal (whole ++ [level])) :
    paid side threshold whole level = cost (offers side (whole ++ [level])) := by
  rw [paid, sizeInside_of_edge hedge, takenWhole, if_pos hedge, mul_zero, add_zero]

namespace ReachedIn

theorem valid (h : ReachedIn levels threshold whole level) (hvalid : ValidLevels levels) :
    ValidLevels (whole ++ [level]) :=
  hvalid.initial h.initial

theorem price_pos (h : ReachedIn levels threshold whole level) (hvalid : ValidLevels levels) :
    (0 : ℚ) < level.1.val := by
  exact_mod_cast (isValidLevel_iff.mp (h.valid hvalid level (by simp))).1

/-- The levels taken whole do not exceed the threshold. -/
private theorem notional_taken_le (h : ReachedIn levels threshold whole level) :
    notionalTotal (takenWhole threshold whole level) ≤ threshold.val := by
  rw [takenWhole]
  split_ifs with hedge
  · exact hedge.ge
  · exact h.before_whole.le

private theorem sizeInside_nonneg (h : ReachedIn levels threshold whole level)
    (hvalid : ValidLevels levels) : 0 ≤ sizeInside threshold whole level := by
  have hle : (notionalTotal (takenWhole threshold whole level) : ℚ) ≤ threshold.val := by
    exact_mod_cast h.notional_taken_le
  exact div_nonneg (mul_nonneg (sub_nonneg.mpr hle) (by norm_num)) (h.price_pos hvalid).le

private theorem price_mul_sizeInside (h : ReachedIn levels threshold whole level)
    (hvalid : ValidLevels levels) : level.1.val * sizeInside threshold whole level =
      (threshold.val - notionalTotal (takenWhole threshold whole level)) * 10 ^ 6 := by
  rw [sizeInside, mul_div_cancel₀ _ (h.price_pos hvalid).ne']

private theorem filledSize_pos (h : ReachedIn levels threshold whole level)
    (hvalid : ValidLevels levels) : 0 < filledSize threshold whole level := by
  have hprice := h.price_pos hvalid
  by_cases hedge : threshold.val = notionalTotal (whole ++ [level])
  · rw [filledSize_of_edge hedge]
    exact_mod_cast reachedSize_pos (h.valid hvalid) h.before_whole hedge
  · have hwhole : (0 : ℚ) ≤ sizeTotal whole := by
      exact_mod_cast sizeTotal_nonneg
        ((h.valid hvalid).initial (List.prefix_append whole [level]))
    have hbefore : (notionalTotal whole : ℚ) < threshold.val := by exact_mod_cast h.before_whole
    rw [filledSize, sizeInside, takenWhole, if_neg hedge]
    exact add_pos_of_nonneg_of_pos hwhole
      (div_pos (mul_pos (sub_pos.mpr hbefore) (by norm_num)) hprice)

/-- The reported average is the threshold over the exact size, rounded once. -/
theorem reachedVwap_eq (h : ReachedIn levels threshold whole level)
    (hvalid : ValidLevels levels) : reachedVwap threshold whole level =
      roundHalfAway (10 ^ 6 * threshold.val / filledSize threshold whole level : ℚ) := by
  have hprice := h.price_pos hvalid
  by_cases hedge : threshold.val = notionalTotal (whole ++ [level])
  · rw [reachedVwap, if_pos hedge, filledSize_of_edge hedge, roundedQuotient]
    congr 1
    push_cast
    ring
  · have hsize : (sizeTotal whole : ℚ) +
        (threshold.val - notionalTotal whole) * 10 ^ 6 / level.1.val =
        (sizeTotal whole * level.1.val + (threshold.val - notionalTotal whole) * 10 ^ 6) /
          level.1.val := by
      field_simp
    rw [reachedVwap, if_neg hedge, filledSize, sizeInside, takenWhole, if_neg hedge, hsize,
      div_div_eq_mul_div, roundedQuotient]
    congr 1
    push_cast
    ring

/-- The threshold is what the fill pays, up to the rounding of the levels taken whole. -/
private theorem threshold_eq (h : ReachedIn levels threshold whole level)
    (hvalid : ValidLevels levels)
    (side : SidePolicy) : side.sign * (10 ^ 6 * threshold.val) =
      paid side threshold whole level +
        (side.sign * (10 ^ 6 * notionalTotal (takenWhole threshold whole level)) -
          cost (offers side (takenWhole threshold whole level))) := by
  rw [paid, mul_assoc, h.price_mul_sizeInside hvalid]
  ring

/-- Half a unit of notional for each level taken whole, spread over the size filled, bounds
the error of the average before it is rounded. -/
private theorem abs_average_sub (h : ReachedIn levels threshold whole level)
    (hvalid : ValidLevels levels) (side : SidePolicy) :
    |side.sign * (10 ^ 6 * threshold.val / filledSize threshold whole level) -
        paid side threshold whole level / filledSize threshold whole level| ≤
      roundingSlack threshold whole level := by
  have hpos := h.filledSize_pos hvalid
  have herror := abs_notional_sub_cost side (takenWhole threshold whole level)
  rw [mul_div_assoc', ← sub_div, h.threshold_eq hvalid side, add_sub_cancel_left, abs_div,
    abs_of_pos hpos, roundingSlack, ← div_div]
  exact div_le_div_of_nonneg_right herror hpos.le

private theorem average_eq (h : ReachedIn levels threshold whole level)
    (hvalid : ValidLevels levels)
    (hexact : NotRounded (takenWhole threshold whole level)) :
    side.sign * (10 ^ 6 * threshold.val / filledSize threshold whole level) =
      paid side threshold whole level / filledSize threshold whole level := by
  rw [mul_div_assoc', h.threshold_eq hvalid side, notional_eq_cost hexact, sub_self, add_zero]

/-- No level taken is worse than the one the threshold is reached in. -/
private theorem sign_mul_price_le (h : ReachedIn levels threshold whole level)
    (hordered : BestFirst side levels) {taken : Level} (htaken : taken ∈ whole ++ [level]) :
    side.sign * taken.1.val ≤ side.sign * level.1.val := by
  have hordered' := List.pairwise_append.mp (hordered.sublist h.initial.sublist)
  rcases List.mem_append.mp htaken with hwhole | hlast
  · exact hordered'.2.2 taken hwhole level (List.mem_singleton_self level)
  · rw [List.mem_singleton.mp hlast]

/-- No level taken is better than the best. -/
private theorem best_le_sign_mul_price (h : ReachedIn levels threshold whole level)
    (hordered : BestFirst side levels) {best taken : Level} (hbest : levels.head? = some best)
    (htaken : taken ∈ whole ++ [level]) :
    side.sign * best.1.val ≤ side.sign * taken.1.val := by
  obtain ⟨rest, rfl⟩ := List.head?_eq_some_iff.mp hbest
  rcases List.mem_cons.mp (h.initial.subset htaken) with rfl | hrest
  · exact le_rfl
  · exact (List.pairwise_cons.mp hordered).1 taken hrest

/-- The exact average is not past the price of the level the threshold is reached in. -/
private theorem paid_le (h : ReachedIn levels threshold whole level) (hvalid : ValidLevels levels)
    (hordered : BestFirst side levels) : paid side threshold whole level ≤
      side.sign * level.1.val * filledSize threshold whole level := by
  have hinit := takenWhole_initial threshold whole level
  rw [filledSize, ← quantity_offers side]
  refine cost_add_le (offers_nonneg ((h.valid hvalid).initial hinit)) (fun offer ho => ?_)
    (h.sizeInside_nonneg hvalid) le_rfl
  obtain ⟨taken, htaken, rfl⟩ := List.mem_map.mp ho
  exact h.sign_mul_price_le hordered (hinit.subset htaken)

/-- The exact average is not better than the best price. -/
private theorem best_le_paid (h : ReachedIn levels threshold whole level)
    (hvalid : ValidLevels levels)
    (hordered : BestFirst side levels) {best : Level} (hbest : levels.head? = some best) :
    side.sign * best.1.val * filledSize threshold whole level ≤
      paid side threshold whole level := by
  have hinit := takenWhole_initial threshold whole level
  rw [filledSize, ← quantity_offers side]
  refine le_cost_add (offers_nonneg ((h.valid hvalid).initial hinit)) (fun offer ho => ?_)
    (h.sizeInside_nonneg hvalid) (h.best_le_sign_mul_price hordered hbest (by simp))
  obtain ⟨taken, htaken, rfl⟩ := List.mem_map.mp ho
  exact h.best_le_sign_mul_price hordered hbest (hinit.subset htaken)

/-- Filling the rest of the level costs its price. -/
private theorem fill_level (h : ReachedIn levels threshold whole level)
    (hvalid : ValidLevels levels)
    (side : SidePolicy) :
    filledSize threshold whole level ≤ sizeTotal (whole ++ [level]) ∧
      side.sign * level.1.val * (sizeTotal (whole ++ [level]) - filledSize threshold whole level) =
        cost (offers side (whole ++ [level])) - paid side threshold whole level := by
  have hprice := h.price_pos hvalid
  by_cases hedge : threshold.val = notionalTotal (whole ++ [level])
  · rw [filledSize_of_edge hedge, paid_of_edge hedge, sub_self, sub_self, mul_zero]
    exact ⟨le_rfl, rfl⟩
  · have htaken : takenWhole threshold whole level = whole := if_neg hedge
    -- below the edge by one unit, the rounding of the level cannot make up for it
    have hinside : level.1.val * sizeInside threshold whole level ≤ level.1.val * level.2.val := by
      have herror := abs_le.mp (abs_two_mul_sub_roundedQuotient (level.1.val * level.2.val)
        (show (0 : ℤ) < 10 ^ 6 by norm_num))
      have hlt := lt_of_le_of_ne h.reached hedge
      simp only [notionalTotal_append, notionalTotal_cons, notionalTotal_nil, add_zero,
        notionalOf] at hlt
      have hle : (threshold.val - notionalTotal whole) * 10 ^ 6 ≤ level.1.val * level.2.val := by
        omega
      rw [h.price_mul_sizeInside hvalid, htaken]
      exact_mod_cast hle
    have hsize := le_of_mul_le_mul_left hinside hprice
    rw [filledSize, paid, htaken, cost_offers_concat]
    simp only [sizeTotal_append, sizeTotal_cons, sizeTotal_nil]
    push_cast
    constructor
    · linarith
    · ring

/-- Going on past a level costs at least its price. -/
private theorem fill_past (h : ReachedIn levels threshold whole level) (hvalid : ValidLevels levels)
    (hordered : BestFirst side levels) {before : List Level} {last : Level}
    (hpast : before ++ [last] <+: whole) :
    (sizeTotal (before ++ [last]) : ℚ) ≤ filledSize threshold whole level ∧
      side.sign * last.1.val * (filledSize threshold whole level - sizeTotal (before ++ [last])) ≤
        paid side threshold whole level - cost (offers side (before ++ [last])) := by
  have hwhole : whole <+: takenWhole threshold whole level := by
    rw [takenWhole]
    split_ifs
    · exact List.prefix_append whole [level]
    · exact List.prefix_rfl
  obtain ⟨rest, hrest⟩ := hpast.trans hwhole
  have hinit := takenWhole_initial threshold whole level
  have hvalid' := (h.valid hvalid).initial hinit
  have hinside := h.sizeInside_nonneg hvalid
  -- every level past this one is no better
  have hordered' := hordered.sublist h.initial.sublist
  have hlater : ∀ later ∈ rest ++ [level],
      side.sign * last.1.val ≤ side.sign * later.1.val := by
    intro later hlater
    rcases List.mem_append.mp hlater with hmem | hmem
    · have htaken := hordered'.sublist hinit.sublist
      rw [← hrest] at htaken
      exact (List.pairwise_append.mp htaken).2.2 last (by simp) later hmem
    · rw [List.mem_singleton.mp hmem]
      exact (List.pairwise_append.mp hordered').2.2 last (hpast.subset (by simp)) level (by simp)
  have hnonneg : ∀ offer ∈ offers side rest, 0 ≤ offer.2 :=
    offers_nonneg fun l hl => hvalid' l (by rw [← hrest]; exact List.mem_append_right _ hl)
  have hworse : ∀ offer ∈ offers side rest, side.sign * last.1.val ≤ offer.1 := by
    intro offer ho
    obtain ⟨later, hmem, rfl⟩ := List.mem_map.mp ho
    exact hlater later (List.mem_append_left _ hmem)
  have hcost := le_cost_add hnonneg hworse hinside (hlater level (by simp))
  have hquantity := quantity_nonneg hnonneg
  rw [quantity_offers] at hcost hquantity
  rw [filledSize, paid, ← hrest, offers_append, cost_append, sizeTotal_append (before ++ [last])]
  push_cast
  constructor
  · linarith
  · calc side.sign * last.1.val * (sizeTotal (before ++ [last]) + sizeTotal rest +
          sizeInside threshold whole level - sizeTotal (before ++ [last]))
        = side.sign * last.1.val * (sizeTotal rest + sizeInside threshold whole level) := by
          ring
      _ ≤ cost (offers side rest) +
          side.sign * level.1.val * sizeInside threshold whole level := hcost
      _ = _ := by ring

/-- Going on inside the level costs its price. -/
private theorem fill_inside (h : ReachedIn levels threshold whole level)
    (hvalid : ValidLevels levels)
    (side : SidePolicy) {threshold' : Notional} (h' : ReachedIn levels threshold' whole level)
    (hle : threshold ≤ threshold') :
    filledSize threshold whole level ≤ filledSize threshold' whole level ∧
      side.sign * level.1.val *
          (filledSize threshold' whole level - filledSize threshold whole level) =
        paid side threshold' whole level - paid side threshold whole level := by
  by_cases hedge' : threshold'.val = notionalTotal (whole ++ [level])
  · -- up to the far edge
    rw [filledSize_of_edge hedge', paid_of_edge hedge']
    exact h.fill_level hvalid side
  · -- both thresholds lie strictly inside, and only the size taken from the level grows
    have hlt' := lt_of_le_of_ne h'.reached hedge'
    have hle' : threshold.val ≤ threshold'.val := hle
    have hedge : threshold.val ≠ notionalTotal (whole ++ [level]) := by omega
    have htaken : takenWhole threshold whole level = whole := if_neg hedge
    have htaken' : takenWhole threshold' whole level = whole := if_neg hedge'
    have hmono : sizeInside threshold whole level ≤ sizeInside threshold' whole level := by
      have hcast : (threshold.val : ℚ) ≤ threshold'.val := by exact_mod_cast hle'
      rw [sizeInside, sizeInside, htaken, htaken']
      exact div_le_div_of_nonneg_right (by linarith) (h.price_pos hvalid).le
    rw [filledSize, filledSize, paid, paid, htaken, htaken']
    constructor
    · linarith
    · ring

/-- The exact average gets no better as the threshold grows. -/
theorem average_mono (h : ReachedIn levels threshold whole level) (hvalid : ValidLevels levels)
    (hordered : BestFirst side levels) {threshold' : Notional} {whole' : List Level}
    {level' : Level} (h' : ReachedIn levels threshold' whole' level')
    (hle : threshold ≤ threshold') :
    paid side threshold whole level / filledSize threshold whole level ≤
      paid side threshold' whole' level' / filledSize threshold' whole' level' := by
  have hpos := h.filledSize_pos hvalid
  have hpaid := h.paid_le hvalid hordered
  rcases h.eq_or_initial h' hle with ⟨rfl, rfl⟩ | hpast
  · obtain ⟨hsize, hcost⟩ := h.fill_inside hvalid side h' hle
    exact Hermeneutic.average_mono hpos hsize hpaid hcost.le
  · -- the larger fill finishes this level and goes on past it
    obtain ⟨hsize, hcost⟩ := h.fill_level hvalid side
    obtain ⟨hsize', hcost'⟩ := h'.fill_past hvalid hordered hpast
    refine Hermeneutic.average_mono hpos (hsize.trans hsize') hpaid ?_
    linarith

end ReachedIn

end Fill

section Rounded

variable {side : SidePolicy} {levels whole : List Level} {level : Level} {threshold : Notional}
  {vwap : Price}

private theorem sign_mul_roundHalfAway_mono (side : SidePolicy) {x y : ℚ}
    (h : side.sign * x ≤ side.sign * y) :
    side.sign * roundHalfAway x ≤ side.sign * roundHalfAway y := by
  cases side with
  | ask =>
    simp only [SidePolicy.sign, one_mul] at h ⊢
    exact_mod_cast roundHalfAway_mono h
  | bid =>
    simp only [SidePolicy.sign, neg_mul, one_mul, neg_le_neg_iff] at h ⊢
    exact_mod_cast roundHalfAway_mono h

private theorem abs_sign_mul_sub_roundHalfAway (side : SidePolicy) (x : ℚ) :
    |side.sign * x - side.sign * roundHalfAway x| ≤ 1 / 2 := by
  rw [← mul_sub, abs_mul, abs_sign, one_mul]
  exact abs_sub_roundHalfAway x

/-- The average lies between the best price and the one of the level, up to a slack. -/
def IsBetween (side : SidePolicy) (best level vwap : Price) (slack : ℚ) : Prop :=
  side.sign * best.val - slack ≤ side.sign * vwap.val ∧
    side.sign * vwap.val ≤ side.sign * level.val + slack

/-- Less than one unit of slack is none between integers. -/
private theorem IsBetween.of_lt_one {best level : Price} {slack : ℚ}
    (h : IsBetween side best level vwap slack) (hslack : slack < 1) :
    IsBetween side best level vwap 0 := by
  obtain ⟨hlow, hhigh⟩ := h
  rw [IsBetween, sub_zero, add_zero]
  cases side with
  | ask =>
    simp only [SidePolicy.sign, one_mul] at hlow hhigh ⊢
    have hlow' : (best.val : ℚ) < vwap.val + 1 := by linarith
    have hhigh' : (vwap.val : ℚ) < level.val + 1 := by linarith
    exact ⟨by exact_mod_cast Int.lt_add_one_iff.mp (by exact_mod_cast hlow'),
      by exact_mod_cast Int.lt_add_one_iff.mp (by exact_mod_cast hhigh')⟩
  | bid =>
    simp only [SidePolicy.sign, neg_mul, one_mul, neg_le_neg_iff] at hlow hhigh ⊢
    have hlow' : (vwap.val : ℚ) < best.val + 1 := by linarith
    have hhigh' : (level.val : ℚ) < vwap.val + 1 := by linarith
    exact ⟨by exact_mod_cast Int.lt_add_one_iff.mp (by exact_mod_cast hlow'),
      by exact_mod_cast Int.lt_add_one_iff.mp (by exact_mod_cast hhigh')⟩

namespace ReachedIn

/-- The reported average is within the slack of the exact one, and half a unit more. -/
private theorem abs_sub_average (h : ReachedIn levels threshold whole level)
    (hvalid : ValidLevels levels) (side : SidePolicy)
    (hvwap : vwap.val = reachedVwap threshold whole level) :
    |side.sign * vwap.val - paid side threshold whole level / filledSize threshold whole level| ≤
      roundingSlack threshold whole level + 1 / 2 := by
  have herror := abs_le.mp (h.abs_average_sub hvalid side)
  have hround := abs_le.mp (abs_sign_mul_sub_roundHalfAway side
    (10 ^ 6 * threshold.val / filledSize threshold whole level))
  rw [hvwap, h.reachedVwap_eq hvalid, abs_le]
  constructor <;> linarith

private theorem isBetween (h : ReachedIn levels threshold whole level) (hvalid : ValidLevels levels)
    (hordered : BestFirst side levels) {best : Level} (hbest : levels.head? = some best)
    (hvwap : vwap.val = reachedVwap threshold whole level) :
    IsBetween side best.1 level.1 vwap (roundingSlack threshold whole level + 1 / 2) := by
  have hpos := h.filledSize_pos hvalid
  have hlow := (le_div_iff₀ hpos).mpr (h.best_le_paid hvalid hordered hbest)
  have hhigh := (div_le_iff₀ hpos).mpr (h.paid_le hvalid hordered)
  have herror := abs_le.mp (h.abs_sub_average hvalid side hvwap)
  constructor <;> linarith

/-- Without rounding, or with little of it, the bounds are inclusive. -/
private theorem isBetween_zero (h : ReachedIn levels threshold whole level)
    (hvalid : ValidLevels levels)
    (hordered : BestFirst side levels) {best : Level} (hbest : levels.head? = some best)
    (hvwap : vwap.val = reachedVwap threshold whole level)
    (hexact : NotRounded (takenWhole threshold whole level) ∨
      roundingSlack threshold whole level < 1 / 2) :
    IsBetween side best.1 level.1 vwap 0 := by
  rcases hexact with hexact | hslack
  · -- the average is exact before it is rounded, and rounding keeps integer bounds
    have hpos := h.filledSize_pos hvalid
    have hlow := (le_div_iff₀ hpos).mpr (h.best_le_paid hvalid hordered hbest)
    have hhigh := (div_le_iff₀ hpos).mpr (h.paid_le hvalid hordered)
    rw [← h.average_eq hvalid hexact] at hlow hhigh
    have hlow' := sign_mul_roundHalfAway_mono side hlow
    have hhigh' := sign_mul_roundHalfAway_mono side hhigh
    rw [roundHalfAway_intCast, ← h.reachedVwap_eq hvalid, ← hvwap] at hlow' hhigh'
    exact ⟨by linarith, by linarith⟩
  · exact (h.isBetween hvalid hordered hbest hvwap).of_lt_one (by linarith)

/-- Strictly inside the first level only its price is paid. -/
private theorem eq_price (h : ReachedIn levels threshold [] level) (hvalid : ValidLevels levels)
    (hordered : BestFirst side levels)
    (hinside : threshold.val < notionalTotal [level])
    (hvwap : vwap.val = reachedVwap threshold [] level) : vwap = level.1 := by
  have hnil : takenWhole threshold [] level = [] := if_neg hinside.ne
  obtain ⟨rest, hrest⟩ := h.initial
  have hbest : levels.head? = some level := by rw [← hrest]; rfl
  obtain ⟨hlow, hhigh⟩ := h.isBetween_zero hvalid hordered hbest hvwap
    (.inl (by simp [hnil, NotRounded]))
  have heq : side.sign * (vwap.val : ℚ) = side.sign * level.1.val := by linarith
  have hsign : side.sign ≠ 0 := by cases side <;> simp [SidePolicy.sign]
  exact val_inj.mp (by exact_mod_cast mul_left_cancel₀ hsign heq)

/-- The averages of two thresholds in order, up to the slack of both. -/
private theorem vwap_le (h : ReachedIn levels threshold whole level) (hvalid : ValidLevels levels)
    (hordered : BestFirst side levels) {threshold' : Notional} {whole' : List Level}
    {level' : Level} {vwap' : Price} (h' : ReachedIn levels threshold' whole' level')
    (hle : threshold ≤ threshold') (hvwap : vwap.val = reachedVwap threshold whole level)
    (hvwap' : vwap'.val = reachedVwap threshold' whole' level') :
    side.sign * vwap.val ≤ side.sign * vwap'.val +
        (roundingSlack threshold whole level + roundingSlack threshold' whole' level' + 1) ∧
      (NotRounded (takenWhole threshold whole level) →
        NotRounded (takenWhole threshold' whole' level') →
        side.sign * vwap.val ≤ side.sign * vwap'.val) := by
  have hmono := h.average_mono hvalid hordered h' hle
  constructor
  · have herror := abs_le.mp (h.abs_sub_average hvalid side hvwap)
    have herror' := abs_le.mp (h'.abs_sub_average hvalid side hvwap')
    linarith
  · intro hexact hexact'
    rw [← h.average_eq hvalid hexact, ← h'.average_eq hvalid hexact'] at hmono
    rw [hvwap, hvwap', h.reachedVwap_eq hvalid, h'.reachedVwap_eq hvalid]
    exact sign_mul_roundHalfAway_mono side hmono

end ReachedIn

end Rounded

/-- Every reported average lies between the best price and the price of the level in which its
threshold is reached, and the averages of growing thresholds do not move back, up to the
rounding of the notionals of the levels taken whole: exactly so where none of these is rounded,
as strictly inside the first level. -/
theorem vwap_bounds (side : SidePolicy) (levels : List Level) (thresholds : List Notional)
    (bands : List VolumeBand) (hvalid : ValidLevels levels) (hordered : BestFirst side levels)
    (hok : volumeBandPrices levels thresholds = .ok bands)
    (hproducts : ∀ level ∈ levels, notionalOf level.1 level.2 ≤ int64Max)
    (hsizes : sizeTotal levels ≤ int64Max)
    (hquotients : ∀ threshold ∈ thresholds, ∀ whole level,
      ReachedIn levels threshold whole level → reachedVwap threshold whole level ≤ int64Max) :
    (∀ band ∈ bands, ∀ vwap, band.vwap = some vwap → ∃ best whole level,
      levels.head? = some best ∧ ReachedIn levels band.notionalThreshold whole level ∧
      IsBetween side best.1 level.1 vwap
        (roundingSlack band.notionalThreshold whole level + 1 / 2) ∧
      (NotRounded (takenWhole band.notionalThreshold whole level) ∨
          roundingSlack band.notionalThreshold whole level < 1 / 2 →
        IsBetween side best.1 level.1 vwap 0) ∧
      (whole = [] → band.notionalThreshold.val < notionalTotal [level] → vwap = level.1)) ∧
    (∀ band ∈ bands, ∀ band' ∈ bands, band.notionalThreshold ≤ band'.notionalThreshold →
      ∀ vwap vwap', band.vwap = some vwap → band'.vwap = some vwap' →
      ∃ whole level whole' level', ReachedIn levels band.notionalThreshold whole level ∧
        ReachedIn levels band'.notionalThreshold whole' level' ∧
        side.sign * vwap.val ≤ side.sign * vwap'.val +
          (roundingSlack band.notionalThreshold whole level +
            roundingSlack band'.notionalThreshold whole' level' + 1) ∧
        (NotRounded (takenWhole band.notionalThreshold whole level) →
          NotRounded (takenWhole band'.notionalThreshold whole' level') →
          side.sign * vwap.val ≤ side.sign * vwap'.val)) := by
  have hbands := bands_of_ok hvalid hok
    (narrowingsFit_of_bounds hvalid hproducts hsizes hquotients)
  refine ⟨fun band hmem vwap hvwap => ?_,
    fun band hmem band' hmem' hle vwap vwap' hvwap hvwap' => ?_⟩
  · obtain ⟨whole, level, h, hval⟩ := reached_of_vwap hbands hmem hvwap
    obtain ⟨best, hbest⟩ : ∃ best, levels.head? = some best := by
      cases levels with
      | nil => simpa using h.initial
      | cons best levels => exact ⟨best, rfl⟩
    refine ⟨best, whole, level, hbest, h, h.isBetween hvalid hordered hbest hval,
      h.isBetween_zero hvalid hordered hbest hval, ?_⟩
    rintro rfl hinside
    exact h.eq_price hvalid hordered hinside hval
  · obtain ⟨whole, level, h, hval⟩ := reached_of_vwap hbands hmem hvwap
    obtain ⟨whole', level', h', hval'⟩ := reached_of_vwap hbands hmem' hvwap'
    obtain ⟨hslack, hexact⟩ := h.vwap_le hvalid hordered h' hle hval hval'
    exact ⟨whole, level, whole', level', h, h', hslack, hexact⟩

theorem vwap_bounds_sample : ∃ best whole level, twoAsks.head? = some best ∧
    ReachedIn twoAsks ⟨2000000000000⟩ whole level ∧
    IsBetween .ask best.1 level.1 ⟨133333333333⟩ 0 := by
  have hexact : NotRounded twoAsks := by unfold NotRounded; decide +kernel
  obtain ⟨best, whole, level, hbest, hreached, -, hzero, -⟩ :=
    (vwap_bounds .ask twoAsks threeNotionals
      [⟨⟨1000000000000⟩, some ⟨100000000000⟩, ⟨1000000000000⟩⟩,
        ⟨⟨2000000000000⟩, some ⟨133333333333⟩, ⟨2000000000000⟩⟩,
        ⟨⟨5000000000000⟩, none, ⟨3000000000000⟩⟩]
      (by unfold ValidLevels; decide +kernel) (by unfold BestFirst; decide +kernel)
      (by decide +kernel) (by decide +kernel) (by decide +kernel) reachedVwap_twoAsks_le).1
      ⟨⟨2000000000000⟩, some ⟨133333333333⟩, ⟨2000000000000⟩⟩ (by simp) _ rfl
  refine ⟨best, whole, level, hbest, hreached, hzero (.inl fun l hl => hexact l ?_)⟩
  exact hreached.initial.subset ((takenWhole_initial _ whole level).subset hl)

/-- Two tiny asks. The notional of the first is half a unit and rounds up to one, which doubles
its average price: it is above the price of the level, and the next average moves back. And the
least size at the largest price, where the average wraps and no slack covers it. -/
theorem vwap_bounds_counterexample :
    (volumeBandPrices [(⟨3⟩, ⟨166667⟩), (⟨4⟩, ⟨1000000000⟩)] [⟨1⟩, ⟨4000⟩] =
        .ok [⟨⟨1⟩, some ⟨6⟩, ⟨1⟩⟩, ⟨⟨4000⟩, some ⟨4⟩, ⟨4000⟩⟩] ∧
      ReachedIn [(⟨3⟩, ⟨166667⟩), (⟨4⟩, ⟨1000000000⟩)] ⟨1⟩ [] (⟨3⟩, ⟨166667⟩) ∧
      ¬IsBetween .ask ⟨3⟩ ⟨3⟩ ⟨6⟩ 0 ∧ ¬((⟨6⟩ : Price) ≤ ⟨4⟩)) ∧
    (volumeBandPrices [(⟨9223372036854775807⟩, ⟨1⟩)] [⟨9223372036855⟩] =
        .ok [⟨⟨9223372036855⟩, some ⟨-9223372036854551616⟩, ⟨9223372036855⟩⟩] ∧
      ReachedIn [(⟨9223372036854775807⟩, ⟨1⟩)] ⟨9223372036855⟩ []
        (⟨9223372036854775807⟩, ⟨1⟩) ∧
      ¬IsBetween .ask ⟨9223372036854775807⟩ ⟨9223372036854775807⟩ ⟨-9223372036854551616⟩
        (roundingSlack ⟨9223372036855⟩ [] (⟨9223372036854775807⟩, ⟨1⟩) + 1 / 2)) := by
  refine ⟨⟨by decide +kernel, ?_, by unfold IsBetween; decide +kernel, by decide +kernel⟩,
    ⟨by decide +kernel, ?_, by unfold IsBetween; decide +kernel⟩⟩
  · refine reachedIn_of_lt (by unfold ValidLevels; decide +kernel) ?_ (by decide +kernel)
      (by decide +kernel)
    exact List.cons_prefix_cons.mpr ⟨rfl, List.nil_prefix⟩
  · exact reachedIn_of_lt (by unfold ValidLevels; decide +kernel) List.prefix_rfl
      (by decide +kernel) (by decide +kernel)

end Hermeneutic
