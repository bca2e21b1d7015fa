import Hermeneutic.Book.VolumeBandWalk

/-!
# Every volume band is what its threshold alone says

`volumeBandPrices_cases` reads the result of the whole walk off its invariant: bands that
each depend on their own threshold only (`IsVolumeBand`, and `IsVolumeBand.unique`), or a
checked error. It holds wherever the unchecked narrowings of the walk fit, which the bounds
on products, sizes and quotients give (`narrowingsFit_of_bounds`).
-/

namespace Hermeneutic

open BasicFixedPoint VolumeBandWalk

variable {levels : List Level} {thresholds : List Notional} {threshold : Notional}

/-- The levels and the threshold determine the band. -/
theorem IsVolumeBand.unique {band band' : VolumeBand} (h : IsVolumeBand levels threshold band)
    (h' : IsVolumeBand levels threshold band') : band = band' := by
  rcases h with ⟨whole, level, vwap, hreached, hvwap, rfl⟩ | ⟨filled, hshort, hfilled, rfl⟩
  · rcases h' with ⟨whole', level', vwap', hreached', hvwap', rfl⟩ | ⟨filled', hshort', -, rfl⟩
    · have hsame : whole = whole' ∧ level = level' := by
        rcases hreached.eq_or_initial hreached' le_rfl with hsame | hinit
        · exact hsame
        · -- reached in an earlier level, it would be reached before this one
          have hbefore := hreached'.before _ hinit
          exact absurd hreached.reached hbefore.not_ge
      obtain ⟨rfl, rfl⟩ := hsame
      rw [val_inj.mp (hvwap.trans hvwap'.symm)]
    · exact absurd hreached.reached (hshort' _ hreached.initial).not_ge
  · rcases h' with ⟨whole', level', vwap', hreached', -, rfl⟩ | ⟨filled', -, hfilled', rfl⟩
    · exact absurd hreached'.reached (hshort _ hreached'.initial).not_ge
    · rw [val_inj.mp (hfilled.trans hfilled'.symm)]

/-- The walk reports every threshold on its own, or stops with a checked error. -/
theorem volumeBandPrices_cases (hvalid : ValidLevels levels)
    (hthresholds : volumeThresholdsValid thresholds) (hfits : NarrowingsFit thresholds levels) :
    (∃ bands, volumeBandPrices levels thresholds = .ok bands ∧
      List.Forall₂ (IsVolumeBand levels) thresholds bands) ∨
    volumeBandPrices levels thresholds = .error .resultOutOfRange := by
  rw [volumeBandPrices, if_neg (by simp [hthresholds])]
  rcases foldlM_walkLevel (sorted_of_volumeThresholdsValid hthresholds)
    (pos_of_volumeThresholdsValid hthresholds) hvalid hfits with
    ⟨-, w, done, hok, hw⟩ | ⟨-, herror⟩
  · refine .inl ⟨w.flush, by rw [hok]; rfl, ?_⟩
    rw [hw.split, flush]
    refine List.rel_append (hw.bands.imp fun _ _ => .inl) ?_
    -- the thresholds left are past the notional of the whole side
    refine List.forall₂_map_right_iff.mpr (List.forall₂_same.mpr fun threshold hmem => .inr ?_)
    refine ⟨w.cumNotional, fun levels' hinit => ?_, hw.notional, rfl⟩
    exact (notionalTotal_mono hvalid hinit).trans_lt (hw.ahead threshold hmem)
  · exact .inr (by rw [herror]; rfl)

/-- Products, sizes and quotients that fit wherever a threshold is reached fit along the walk. -/
theorem narrowingsFit_of_bounds (hvalid : ValidLevels levels)
    (hproducts : ∀ level ∈ levels, notionalOf level.1 level.2 ≤ int64Max)
    (hsizes : sizeTotal levels ≤ int64Max)
    (hquotients : ∀ threshold ∈ thresholds, ∀ whole level,
      ReachedIn levels threshold whole level → reachedVwap threshold whole level ≤ int64Max) :
    NarrowingsFit thresholds levels := by
  intro whole level hinit _
  have hvalid' := hvalid.initial hinit
  have hwhole := notionalTotal_nonneg (hvalid'.initial (List.prefix_append whole [level]))
  have hprice := (isValidLevel_iff.mp (hvalid' level (by simp))).1
  exact {
    product := hproducts level (hinit.subset (by simp))
    inside := fun _ threshold hmem hbefore hinside _ => by
      have hquotient := hquotients threshold hmem whole level
        (reachedIn_of_lt hvalid hinit hbefore hinside.le)
      rw [reachedVwap, if_neg hinside.ne] at hquotient
      have hnum : 0 ≤ threshold.val * level.1.val * 10 ^ 6 :=
        mul_nonneg (mul_nonneg (by omega) hprice.le) (by norm_num)
      exact (roundedQuotient_le_iff hnum (partialFill_pos hvalid' hbefore)).mp hquotient
    size := fun _ => (sizeTotal_mono hvalid hinit).trans hsizes
    edge := fun _ threshold hmem hbefore hedge => by
      have hquotient := hquotients threshold hmem whole level
        (reachedIn_of_lt hvalid hinit hbefore hedge.le)
      rw [reachedVwap, if_pos hedge] at hquotient
      exact (roundedQuotient_le_iff (by omega) (reachedSize_pos hvalid' hbefore hedge)).mp
        hquotient }

/-- The bands of a walk that succeeds. -/
theorem bands_of_ok {bands : List VolumeBand} (hvalid : ValidLevels levels)
    (hok : volumeBandPrices levels thresholds = .ok bands)
    (hfits : NarrowingsFit thresholds levels) :
    List.Forall₂ (IsVolumeBand levels) thresholds bands := by
  have hthresholds : volumeThresholdsValid thresholds := by
    by_contra hnot
    rw [volumeBandPrices, if_pos (by simp [hnot])] at hok
    cases hok
  rcases volumeBandPrices_cases hvalid hthresholds hfits with ⟨bands', hok', hbands⟩ | herror
  · obtain rfl : bands' = bands := Except.ok.inj (hok'.symm.trans hok)
    exact hbands
  · rw [herror] at hok
    cases hok

/-- A band with an average price is one of a threshold that is reached. -/
theorem reached_of_vwap {bands : List VolumeBand} {band : VolumeBand} {vwap : Price}
    (hbands : List.Forall₂ (IsVolumeBand levels) thresholds bands) (hmem : band ∈ bands)
    (hvwap : band.vwap = some vwap) :
    ∃ whole level, ReachedIn levels band.notionalThreshold whole level ∧
      vwap.val = reachedVwap band.notionalThreshold whole level := by
  obtain ⟨threshold, -, hband⟩ := exists_of_mem_forall₂ hbands.flip hmem
  rcases hband with ⟨whole, level, vwap', hreached, hval, rfl⟩ | ⟨filled, -, -, rfl⟩
  · obtain rfl : vwap' = vwap := Option.some.inj hvwap
    exact ⟨whole, level, hreached, hval⟩
  · cases hvwap

/-- A walk that succeeds has one band for each threshold in order, which is the one the levels
and that threshold determine. -/
theorem volume_band_prices_exact (levels : List Level) (thresholds : List Notional)
    (bands : List VolumeBand) (hvalid : ValidLevels levels)
    (hok : volumeBandPrices levels thresholds = .ok bands)
    (hproducts : ∀ level ∈ levels, notionalOf level.1 level.2 ≤ int64Max)
    (hsizes : sizeTotal levels ≤ int64Max)
    (hquotients : ∀ threshold ∈ thresholds, ∀ whole level,
      ReachedIn levels threshold whole level → reachedVwap threshold whole level ≤ int64Max) :
    List.Forall₂ (IsVolumeBand levels) thresholds bands :=
  bands_of_ok hvalid hok (narrowingsFit_of_bounds hvalid hproducts hsizes hquotients)

/-- Ten units at 100 and ten at 200. -/
def twoAsks : List Level :=
  [(⟨100000000000⟩, ⟨10000000⟩), (⟨200000000000⟩, ⟨10000000⟩)]

/-- Notionals of 1000, at the edge of the first of them, of 2000, inside the second, and of
5000, past both. -/
def threeNotionals : List Notional := [⟨1000000000000⟩, ⟨2000000000000⟩, ⟨5000000000000⟩]

theorem reachedVwap_twoAsks_le : ∀ threshold ∈ threeNotionals, ∀ whole level,
    ReachedIn twoAsks threshold whole level → reachedVwap threshold whole level ≤ int64Max := by
  rintro threshold hmem whole level ⟨⟨rest, hrest⟩, -, -⟩
  have hcase : (whole, level) = ([], twoAsks[0]) ∨ (whole, level) = ([twoAsks[0]], twoAsks[1]) := by
    rcases whole with _ | ⟨first, _ | ⟨second, whole⟩⟩
    · exact .inl (by simp [twoAsks] at hrest ⊢; exact hrest.1)
    · exact .inr (by simp [twoAsks] at hrest ⊢; exact ⟨hrest.1, hrest.2.1⟩)
    · simp [twoAsks] at hrest
  simp only [threeNotionals, List.mem_cons, List.not_mem_nil, or_false] at hmem
  rcases hcase with hcase | hcase <;> cases hcase <;> rcases hmem with rfl | rfl | rfl <;>
    decide +kernel

theorem volume_band_prices_exact_sample :
    List.Forall₂ (IsVolumeBand twoAsks) threeNotionals
      [⟨⟨1000000000000⟩, some ⟨100000000000⟩, ⟨1000000000000⟩⟩,
        ⟨⟨2000000000000⟩, some ⟨133333333333⟩, ⟨2000000000000⟩⟩,
        ⟨⟨5000000000000⟩, none, ⟨3000000000000⟩⟩] :=
  volume_band_prices_exact twoAsks threeNotionals _ (by unfold ValidLevels; decide +kernel)
    (by decide +kernel) (by decide +kernel) (by decide +kernel) reachedVwap_twoAsks_le

end Hermeneutic
