import Mathlib.Data.List.TakeWhile
import Hermeneutic.Book.LevelTotals
import Hermeneutic.Book.PriceBands
import Hermeneutic.ForMathlib.ListTraversal

/-!
# One pass is the same as one filter per threshold

`filteredBand` says what the band of a single threshold is for: filter the whole side by
membership and total what is left. The walk of `priceBandDepth` computes it for every
threshold at once (`walkLevels_flush_eq`). The induction is on the levels still to walk, for
any depth already counted; a level splits the thresholds left into the ones it is outside
of, for which no later level is inside either, and the ones it is inside of.

A walk stands between two levels with the thresholds it has not passed. `Walkable` is its
invariant: the side is sorted from the reference outwards, the thresholds are in order, and what
has been counted so far is inside all that are left. The totals may still leave the range of an
`int64_t`. The products and the running size are narrowed without a check, so they must fit, as
far as the walk gets (`CountsFit`, of which a level peels its part off by `countsFit_cons_iff`);
the running notional is checked, and where it overflows the walk stops with that error.
`priceBandDepth_cases` puts the two together for a whole side, and `price_band_depth_filters`
states what comes of it threshold by threshold, in the order they were given.
-/

namespace Hermeneutic

open BasicFixedPoint PriceBandWalk

/-- The levels of a side within a threshold of the reference. -/
def levelsWithin (side : SidePolicy) (levels : List Level) (reference : Price) (bps : Int32) :
    List Level :=
  levels.filter fun level => side.within level.1 reference bps

private theorem levelsWithin_cons {side : SidePolicy} {level : Level} {reference : Price}
    {bps : Int32}
    (h : side.within level.1 reference bps) (levels : List Level) :
    levelsWithin side (level :: levels) reference bps =
      level :: levelsWithin side levels reference bps :=
  List.filter_cons_of_pos h

section Bands

variable (side : SidePolicy) (reference : Price)

/-- The band of a threshold at a given depth. -/
def bandAt (cumSize : Size) (cumNotional : Notional) (bps : Int32) : Except Errc PriceBand := do
  let boundary ← side.roundInner reference bps
  pure ⟨bps, boundary, cumSize, cumNotional⟩

/-- The band of one threshold on its own: the levels within it, on top of a depth already
counted. -/
def filteredBand (cumSize : Size) (cumNotional : Notional) (levels : List Level) (bps : Int32) :
    Except Errc PriceBand := do
  let boundary ← side.roundInner reference bps
  let inside := levelsWithin side levels reference bps
  let notional ← fromRawSafe (cumNotional.val + notionalTotal inside)
  pure ⟨bps, boundary, fromRawChecked (cumSize.val + sizeTotal inside), notional⟩

variable {side reference} {cumSize : Size} {cumNotional : Notional} {levels : List Level}
  {level : Level} {bps : Int32}

/-- With no level inside, the band is the depth already counted. -/
private theorem filteredBand_of_outside (h : levelsWithin side levels reference bps = []) :
    filteredBand side reference cumSize cumNotional levels bps =
      bandAt side reference cumSize cumNotional bps := by
  simp only [filteredBand, bandAt, h, notionalTotal_nil, sizeTotal_nil, add_zero,
    fromRawSafe_val, fromRawChecked_val]
  rfl

/-- The inner loop reports the thresholds that are outside, each at the depth so far. -/
theorem reportWhile_eq (outside : Int32 → Bool) (next : List Int32) (result : List PriceBand) :
    reportWhile side reference outside cumSize cumNotional next result = (do
      let bands ← (next.takeWhile outside).mapM (bandAt side reference cumSize cumNotional)
      pure ⟨cumSize, cumNotional, next.dropWhile outside, result ++ bands⟩) := by
  induction next generalizing result with
  | nil =>
    simp only [reportWhile, List.takeWhile_nil, List.dropWhile_nil, List.mapM_nil, pure_bind,
      List.append_nil]
    rfl
  | cons bps next ih =>
    cases hout : outside bps with
    | false =>
      simp only [reportWhile, hout, Bool.not_false, if_true, List.takeWhile_cons,
        List.dropWhile_cons, Bool.false_eq_true, if_false, List.mapM_nil, pure_bind,
        List.append_nil]
      rfl
    | true =>
      simp only [reportWhile, hout, Bool.not_true, Bool.false_eq_true, if_false, ih,
        List.takeWhile_cons_of_pos hout, List.dropWhile_cons_of_pos hout, List.mapM_cons, bandAt,
        bind_assoc, pure_bind, List.append_assoc, List.singleton_append]

/-- A level inside a threshold can be counted before the rest is filtered. -/
private theorem filteredBand_cons {cumSize' : Size} {cumNotional' : Notional}
    (hwithin : side.within level.1 reference bps)
    (hsize : cumSize'.val = cumSize.val + level.2.val)
    (hnotional : cumNotional'.val = cumNotional.val + notionalOf level.1 level.2) :
    filteredBand side reference cumSize cumNotional (level :: levels) bps =
      filteredBand side reference cumSize' cumNotional' levels bps := by
  simp only [filteredBand, levelsWithin_cons hwithin, sizeTotal_cons, notionalTotal_cons, hsize,
    hnotional, add_assoc]

/-- A threshold whose notional is out of range fails, at its boundary or at the notional. -/
private theorem filteredBand_of_overflow (href : 0 < reference.val) (hbps : side.Accepts bps)
    (hover : int64Max < cumNotional.val + notionalTotal (levelsWithin side levels reference bps)) :
    filteredBand side reference cumSize cumNotional levels bps = .error .resultOutOfRange := by
  have hnonneg := SidePolicy.boundary_nonneg href hbps
  simp only [filteredBand, SidePolicy.roundInner_eq href hbps, fromRawSafe_of_gt hover]
  rcases le_or_gt (side.boundary reference bps) int64Max with hfits | hfits
  · rw [fromRawSafe_of_le (by omega) hfits]
    rfl
  · rw [fromRawSafe_of_gt hfits]
    rfl

end Bands

section Walk

/-- No level follows inside a threshold that the best level left is outside of. -/
theorem levelsWithin_eq_nil {side : SidePolicy} {reference : Price} {level : Level}
    {levels : List Level} {bps : Int32} (hbps : side.Accepts bps)
    (hsorted : (level :: levels).Pairwise fun level level' => side.Before level.1 level'.1)
    (hout : ¬side.within level.1 reference bps) :
    levelsWithin side (level :: levels) reference bps = [] := by
  refine List.filter_eq_nil_iff.mpr fun level' hlevel' hwithin => ?_
  rcases List.mem_cons.mp hlevel' with rfl | hmem
  · exact hout hwithin
  · have hbefore := (List.pairwise_cons.mp hsorted).1 level' hmem
    exact hout (SidePolicy.within_of_before hbps hbefore hwithin)

/-- The levels within a threshold are the first ones of the side. -/
private theorem levelsWithin_initial {side : SidePolicy} {reference : Price} {levels : List Level}
    {bps : Int32} (hbps : side.Accepts bps)
    (hsorted : levels.Pairwise fun level level' => side.Before level.1 level'.1) :
    levelsWithin side levels reference bps <+: levels := by
  induction levels with
  | nil => exact List.nil_prefix
  | cons level levels ih =>
    by_cases hwithin : side.within level.1 reference bps
    · rw [levelsWithin_cons hwithin]
      exact List.cons_prefix_cons.mpr ⟨rfl, ih (List.pairwise_cons.mp hsorted).2⟩
    · rw [levelsWithin_eq_nil hbps hsorted hwithin]
      exact List.nil_prefix

variable {side : SidePolicy} {reference : Price} {levels : List Level} {level : Level}
  {w : PriceBandWalk} {bps : Int32}

/-- The condition the walk runs under: valid levels and accepted thresholds, both in order, on
top of non-negative totals. -/
structure Walkable (side : SidePolicy) (reference : Price) (levels : List Level)
    (w : PriceBandWalk) : Prop where
  valid : ValidLevels levels
  sorted : levels.Pairwise fun level level' => side.Before level.1 level'.1
  reference_pos : 0 < reference.val
  accepted : ∀ bps ∈ w.next, side.Accepts bps
  ascending : w.next.Pairwise (· ≤ ·)
  size_nonneg : 0 ≤ w.cumSize.val
  notional_nonneg : 0 ≤ w.cumNotional.val

/-- What the walk counts without a check fits: the product of every level inside one of the
thresholds `next`, and the running size up to it, as long as the running notional before it
does. The totals are on top of a size and a notional already counted. -/
def CountsFit (side : SidePolicy) (reference : Price) (next : List Int32) (size notional : ℤ)
    (levels : List Level) : Prop :=
  ∀ whole level, whole ++ [level] <+: levels →
    (∃ bps ∈ next, side.within level.1 reference bps) →
    notional + notionalTotal whole ≤ int64Max →
    notionalOf level.1 level.2 ≤ int64Max ∧ size + sizeTotal (whole ++ [level]) ≤ int64Max

/-- The thresholds left by the inner loop are the ones the level is inside of. -/
theorem Walkable.within_of_mem_dropWhile (h : Walkable side reference (level :: levels) w)
    (hbps : bps ∈ w.next.dropWhile fun bps => !side.within level.1 reference bps) :
    side.within level.1 reference bps := by
  have hsub := List.dropWhile_sublist (l := w.next) fun bps => !side.within level.1 reference bps
  have hsorted := h.ascending.sublist hsub
  cases hrest : w.next.dropWhile fun bps => !side.within level.1 reference bps with
  | nil =>
    rw [hrest] at hbps
    cases hbps
  | cons first rest =>
    have hfirst : side.within level.1 reference first := by
      have := List.head_dropWhile_not (fun bps => !side.within level.1 reference bps)
        (l := w.next) (by simp [hrest])
      simpa [hrest] using this
    rw [hrest] at hbps hsorted hsub
    rcases List.mem_cons.mp hbps with rfl | hmem
    · exact hfirst
    · -- membership is nested in the threshold
      exact SidePolicy.within_of_le h.reference_pos
        (h.accepted first (hsub.subset List.mem_cons_self))
        (h.accepted bps (hsub.subset (List.mem_cons_of_mem first hmem)))
        ((List.pairwise_cons.mp hsorted).1 bps hmem) hfirst

/-- Counting a level whose product and running size fit leaves the checked notional. -/
theorem Walkable.addLevel_eq (h : Walkable side reference (level :: levels) w)
    (hproduct : notionalOf level.1 level.2 ≤ int64Max)
    (hsize : w.cumSize.val + level.2.val ≤ int64Max) :
    (w.cumSize + level.2).val = w.cumSize.val + level.2.val ∧
      w.addLevel level =
        (do
          let cumNotional' ← fromRawSafe (w.cumNotional.val + notionalOf level.1 level.2)
          pure { w with cumSize := w.cumSize + level.2, cumNotional := cumNotional' }) := by
  have hvalid := isValidLevel_iff.mp (h.valid level List.mem_cons_self)
  have hlow := h.size_nonneg
  refine ⟨?_, ?_⟩
  · rw [add_def, val_fromRawChecked (by omega) hsize]
  · rw [PriceBandWalk.addLevel, val_mul hvalid.1.le hvalid.2 hproduct]

/-- Closing some of the thresholds keeps the condition. -/
theorem Walkable.close (h : Walkable side reference levels w) {next : List Int32}
    (hnext : next.Sublist w.next) (result : List PriceBand) :
    Walkable side reference levels ⟨w.cumSize, w.cumNotional, next, result⟩ where
  valid := h.valid
  sorted := h.sorted
  reference_pos := h.reference_pos
  accepted bps hbps := h.accepted bps (hnext.subset hbps)
  ascending := h.ascending.sublist hnext
  size_nonneg := h.size_nonneg
  notional_nonneg := h.notional_nonneg

/-- Counting a level keeps the condition. -/
theorem Walkable.count (h : Walkable side reference (level :: levels) w) {cumSize' : Size}
    {cumNotional' : Notional} (hsize : cumSize'.val = w.cumSize.val + level.2.val)
    (hnotional : cumNotional'.val = w.cumNotional.val + notionalOf level.1 level.2) :
    Walkable side reference levels ⟨cumSize', cumNotional', w.next, w.result⟩ := by
  have hvalid := isValidLevel_iff.mp (h.valid level List.mem_cons_self)
  exact {
    valid := fun l hl => h.valid l (List.mem_cons_of_mem level hl)
    sorted := (List.pairwise_cons.mp h.sorted).2
    reference_pos := h.reference_pos
    accepted := h.accepted
    ascending := h.ascending
    size_nonneg := hsize ▸ add_nonneg h.size_nonneg hvalid.2
    notional_nonneg := hnotional ▸ add_nonneg h.notional_nonneg
      (notionalOf_nonneg hvalid.1.le hvalid.2) }

theorem CountsFit.close {next next' : List Int32} {size notional : ℤ}
    (h : CountsFit side reference next size notional levels) (hnext : next'.Sublist next) :
    CountsFit side reference next' size notional levels := by
  rintro whole level hinit ⟨bps, hbps, hwithin⟩
  exact h whole level hinit ⟨bps, hnext.subset hbps, hwithin⟩

/-- With the best level inside the thresholds left, the condition is about that level and,
with it counted, about the rest. -/
theorem countsFit_cons_iff {next : List Int32} {size notional : ℤ}
    (hwithin : ∃ bps ∈ next, side.within level.1 reference bps) (hfits : notional ≤ int64Max) :
    CountsFit side reference next size notional (level :: levels) ↔
      (notionalOf level.1 level.2 ≤ int64Max ∧ size + level.2.val ≤ int64Max) ∧
        CountsFit side reference next (size + level.2.val)
          (notional + notionalOf level.1 level.2) levels := by
  constructor
  · intro h
    refine ⟨by simpa using h [] level (by simp) hwithin (by simpa using hfits), ?_⟩
    intro whole level' hinit hwithin' hnotional
    have hlevel' := h (level :: whole) level' (List.cons_prefix_cons.mpr ⟨rfl, hinit⟩) hwithin'
      (by rwa [notionalTotal_cons, ← add_assoc])
    rwa [List.cons_append, sizeTotal_cons, ← add_assoc] at hlevel'
  · rintro ⟨⟨hproduct, hsize⟩, h⟩ whole level' hinit hwithin' hnotional
    cases whole with
    | nil =>
      obtain rfl := (List.cons_prefix_cons.mp hinit).1
      exact ⟨hproduct, by simpa using hsize⟩
    | cons first whole =>
      obtain ⟨rfl, hinit'⟩ := List.cons_prefix_cons.mp hinit
      rw [notionalTotal_cons, ← add_assoc] at hnotional
      rw [List.cons_append, sizeTotal_cons, ← add_assoc]
      exact h whole level' hinit' hwithin' hnotional

/-- Counting a level and going on, when every threshold left has it inside. -/
private theorem addLevel_bind_eq (h : Walkable side reference (level :: levels) w)
    (hfits : CountsFit side reference w.next w.cumSize.val w.cumNotional.val (level :: levels))
    (hnext : w.next ≠ []) (hwithin : ∀ bps ∈ w.next, side.within level.1 reference bps)
    {rest : PriceBandWalk → Except Errc (List PriceBand)}
    (hrest : ∀ w', Walkable side reference levels w' →
      CountsFit side reference w'.next w'.cumSize.val w'.cumNotional.val levels →
      rest w' =
        (do
          let bands ← w'.next.mapM (filteredBand side reference w'.cumSize w'.cumNotional levels)
          pure (w'.result ++ bands))) :
    (do let w' ← w.addLevel level; rest w') =
      (do
        let bands ← w.next.mapM
          (filteredBand side reference w.cumSize w.cumNotional (level :: levels))
        pure (w.result ++ bands)) := by
  have hvalid := isValidLevel_iff.mp (h.valid level List.mem_cons_self)
  have hnonneg := notionalOf_nonneg hvalid.1.le hvalid.2
  have hlow := h.notional_nonneg
  obtain ⟨first, thresholds, hfirst⟩ := List.exists_cons_of_ne_nil hnext
  have hmem : first ∈ w.next := by
    rw [hfirst]
    exact List.mem_cons_self
  obtain ⟨⟨hproduct, hsizeFits⟩, hfitsRest⟩ :=
    (countsFit_cons_iff ⟨first, hmem, hwithin first hmem⟩ w.cumNotional.val_le).mp hfits
  obtain ⟨hsize, hadd⟩ := h.addLevel_eq hproduct hsizeFits
  rcases le_or_gt (w.cumNotional.val + notionalOf level.1 level.2) int64Max with hle | hover
  · have hnotional : (fromRawChecked (w.cumNotional.val + notionalOf level.1 level.2) :
        Notional).val = w.cumNotional.val + notionalOf level.1 level.2 :=
      val_fromRawChecked (by omega) hle
    rw [hadd, fromRawSafe_of_le (by omega) hle]
    rw [← hsize, ← hnotional] at hfitsRest
    refine (hrest _ (h.count hsize hnotional) hfitsRest).trans ?_
    have hbands : w.next.mapM
          (filteredBand side reference w.cumSize w.cumNotional (level :: levels)) =
        w.next.mapM (filteredBand side reference (w.cumSize + level.2)
          (fromRawChecked (w.cumNotional.val + notionalOf level.1 level.2)) levels) :=
      mapM_congr fun bps hbps => filteredBand_cons (hwithin bps hbps) hsize hnotional
    rw [hbands]
  · -- the first threshold left would total at least as much
    have hlevels : 0 ≤ notionalTotal (levelsWithin side levels reference first) :=
      notionalTotal_nonneg fun l hl =>
        h.valid l (List.mem_cons_of_mem _ (List.mem_of_mem_filter hl))
    have hfail : filteredBand side reference w.cumSize w.cumNotional (level :: levels) first =
        .error .resultOutOfRange := by
      refine filteredBand_of_overflow h.reference_pos (h.accepted first hmem) ?_
      rw [levelsWithin_cons (hwithin first hmem), notionalTotal_cons]
      omega
    rw [hadd, fromRawSafe_of_gt hover, hfirst, List.mapM_cons, hfail]
    rfl

/-- The rest of the walk computes every threshold left on its own. -/
theorem walkLevels_flush_eq (h : Walkable side reference levels w)
    (hfits : CountsFit side reference w.next w.cumSize.val w.cumNotional.val levels) :
    (do
      let w ← walkLevels side reference levels w
      let w ← w.flush side reference
      pure w.result) =
      (do
        let bands ← w.next.mapM (filteredBand side reference w.cumSize w.cumNotional levels)
        pure (w.result ++ bands)) := by
  induction levels generalizing w with
  | nil =>
    have hbands : w.next.mapM (filteredBand side reference w.cumSize w.cumNotional []) =
        w.next.mapM (bandAt side reference w.cumSize w.cumNotional) :=
      mapM_congr fun bps _ => filteredBand_of_outside rfl
    have hall : w.next.takeWhile (fun _ => true) = w.next :=
      List.takeWhile_eq_self_iff.mpr fun _ _ => rfl
    rw [hbands, walkLevels]
    change (do let w ← w.flush side reference; pure w.result) = _
    simp only [flush, reportWhile_eq, hall, bind_assoc, pure_bind]
  | cons level levels ih =>
    set outside : Int32 → Bool := fun bps => !side.within level.1 reference bps with houtside
    have hsplit := List.takeWhile_append_dropWhile (p := outside) (l := w.next)
    -- the thresholds the level is outside of are closed at the depth before it
    have hclosed : (w.next.takeWhile outside).mapM
          (filteredBand side reference w.cumSize w.cumNotional (level :: levels)) =
        (w.next.takeWhile outside).mapM (bandAt side reference w.cumSize w.cumNotional) := by
      refine mapM_congr fun bps hbps => filteredBand_of_outside ?_
      have hout := List.mem_takeWhile_imp hbps
      exact levelsWithin_eq_nil (h.accepted bps ((List.takeWhile_sublist _).subset hbps)) h.sorted
        (by simpa [houtside] using hout)
    rw [walkLevels, if_neg (by simp [h.valid level List.mem_cons_self]), ← houtside,
      reportWhile_eq]
    nth_rewrite 3 [← hsplit]
    rw [List.mapM_append, hclosed]
    simp only [bind_assoc, pure_bind]
    refine bind_congr fun bands => ?_
    rcases eq_or_ne (w.next.dropWhile outside) [] with hnil | hrest
    · -- every threshold is closed, and the loop breaks
      simp only [hnil, List.isEmpty_nil, if_true, pure_bind, flush, reportWhile, List.mapM_nil,
        List.append_nil]
      rfl
    · -- the level is inside every threshold left, so it is counted for all of them
      have hclose := h.close (List.dropWhile_sublist outside) (w.result ++ bands)
      have hcount := addLevel_bind_eq hclose (hfits.close (List.dropWhile_sublist outside)) hrest
        (fun bps hbps => h.within_of_mem_dropWhile hbps) fun w' hw' hfits' => ih hw' hfits'
      simp only [List.append_assoc] at hcount
      rw [if_neg (by simpa using hrest), ← hcount]
      simp only [bind_assoc]

end Walk

section Depth

variable {side : SidePolicy} {reference : Price} {levels : List Level} {bpsThresholds : List Int32}
  {bps : Int32} {band : PriceBand}

/-- The state the walk starts in. -/
theorem walkable_start (hvalid : ValidLevels levels)
    (hsorted : levels.Pairwise fun level level' => side.Before level.1 level'.1)
    (href : 0 < reference.val) (hthresholds : bpsThresholdsValid side bpsThresholds) :
    Walkable side reference levels ⟨0, 0, bpsThresholds, []⟩ where
  valid := hvalid
  sorted := hsorted
  reference_pos := href
  accepted := accepts_of_bpsThresholdsValid hthresholds
  ascending := sorted_of_bpsThresholdsValid hthresholds
  size_nonneg := le_rfl
  notional_nonneg := le_rfl

/-- The single pass equals filtering the whole side once per threshold. -/
private theorem priceBandDepth_eq_mapM (hvalid : ValidLevels levels)
    (hsorted : levels.Pairwise fun level level' => side.Before level.1 level'.1)
    (href : 0 < reference.val) (hthresholds : bpsThresholdsValid side bpsThresholds)
    (hfits : CountsFit side reference bpsThresholds 0 0 levels) :
    priceBandDepth side levels reference bpsThresholds =
      bpsThresholds.mapM (filteredBand side reference 0 0 levels) := by
  rw [priceBandDepth, if_neg (by simp [hthresholds]), if_neg href.not_ge,
    walkLevels_flush_eq (walkable_start hvalid hsorted href hthresholds) hfits]
  simp only [List.nil_append, bind_pure]

/-- Where the notional of the levels within a threshold fits, so does their size. -/
private theorem CountsFit.sizeTotal_le (hfits : CountsFit side reference bpsThresholds 0 0 levels)
    (hvalid : ValidLevels levels)
    (hsorted : levels.Pairwise fun level level' => side.Before level.1 level'.1)
    (haccepts : side.Accepts bps) (hbps : bps ∈ bpsThresholds)
    (hnotional : notionalTotal (levelsWithin side levels reference bps) ≤ int64Max) :
    sizeTotal (levelsWithin side levels reference bps) ≤ int64Max := by
  have hinit : levelsWithin side levels reference bps <+: levels :=
    levelsWithin_initial haccepts hsorted
  rcases List.eq_nil_or_concat' (levelsWithin side levels reference bps) with
    hnil | ⟨whole, last, hlast⟩
  · rw [hnil, sizeTotal_nil]
    exact int64Max_pos.le
  · -- the last level within the threshold is one whose running size the walk counts
    have hmem : last ∈ levelsWithin side levels reference bps := by simp [hlast]
    have hwithin : side.within last.1 reference bps := by
      simpa [levelsWithin] using (List.mem_filter.mp hmem).2
    have hvalid' := hvalid.initial hinit
    rw [hlast] at hinit hnotional hvalid' ⊢
    have hwhole := notionalTotal_mono hvalid' (List.prefix_append whole [last])
    have := (hfits whole last hinit ⟨bps, hbps, hwithin⟩ (by omega)).2
    omega

/-- Products and sizes that fit for every threshold fit along the walk. -/
private theorem countsFit_of_within (hvalid : ValidLevels levels)
    (hsorted : levels.Pairwise fun level level' => side.Before level.1 level'.1)
    (haccepts : ∀ bps ∈ bpsThresholds, side.Accepts bps)
    (hproducts : ∀ bps ∈ bpsThresholds, ∀ level ∈ levelsWithin side levels reference bps,
      notionalOf level.1 level.2 ≤ int64Max)
    (hsizes : ∀ bps ∈ bpsThresholds,
      sizeTotal (levelsWithin side levels reference bps) ≤ int64Max) :
    CountsFit side reference bpsThresholds 0 0 levels := by
  rintro whole level hinit ⟨bps, hbps, hwithin⟩ -
  have hsorted' := hsorted.sublist hinit.sublist
  -- with this level inside the threshold, so are all the levels before it
  have hself : levelsWithin side (whole ++ [level]) reference bps = whole ++ [level] := by
    refine List.filter_eq_self.mpr fun level' hlevel' => ?_
    rcases List.mem_append.mp hlevel' with hwhole | hlast
    · exact SidePolicy.within_of_before (haccepts bps hbps)
        ((List.pairwise_append.mp hsorted').2.2 level' hwhole level (List.mem_singleton_self _))
        hwithin
    · rwa [List.mem_singleton.mp hlast]
  have hinside : whole ++ [level] <+: levelsWithin side levels reference bps :=
    hself ▸ hinit.filter _
  have hvalid' : ValidLevels (levelsWithin side levels reference bps) :=
    fun level hlevel => hvalid level (List.mem_of_mem_filter hlevel)
  have hsize := sizeTotal_mono hvalid' hinside
  have hfits := hsizes bps hbps
  exact ⟨hproducts bps hbps level (hinside.subset (by simp)), by omega⟩

/-- What a band says about the side: the boundary, and the totals of the levels within. -/
structure IsPriceBand (side : SidePolicy) (levels : List Level) (reference : Price) (bps : Int32)
    (band : PriceBand) : Prop where
  bps_eq : band.bps = bps
  boundary : band.boundaryPrice.val = side.boundary reference bps
  size : band.cumulativeSize.val = sizeTotal (levelsWithin side levels reference bps)
  notional : band.cumulativeNotional.val = notionalTotal (levelsWithin side levels reference bps)

private theorem isPriceBand_of_filteredBand (hvalid : ValidLevels levels) (href : 0 < reference.val)
    (hbps : side.Accepts bps)
    (hsize : notionalTotal (levelsWithin side levels reference bps) ≤ int64Max →
      sizeTotal (levelsWithin side levels reference bps) ≤ int64Max)
    (h : filteredBand side reference 0 0 levels bps = .ok band) :
    IsPriceBand side levels reference bps band := by
  have hinside : ValidLevels (levelsWithin side levels reference bps) :=
    fun level hlevel => hvalid level (List.mem_of_mem_filter hlevel)
  have hnonneg := sizeTotal_nonneg hinside
  simp only [filteredBand, SidePolicy.roundInner_eq href hbps, val_zero, zero_add] at h
  cases hboundary : (fromRawSafe (side.boundary reference bps) : Except Errc Price) with
  | error e =>
    rw [hboundary] at h
    cases h
  | ok boundary =>
    cases hnotional : (fromRawSafe (notionalTotal (levelsWithin side levels reference bps)) :
        Except Errc Notional) with
    | error e =>
      rw [hboundary, hnotional] at h
      cases h
    | ok notional =>
      rw [hboundary, hnotional] at h
      cases h
      have hval := val_of_fromRawSafe hnotional
      exact ⟨rfl, val_of_fromRawSafe hboundary,
        val_fromRawChecked (by omega) (hsize (hval ▸ notional.val_le)), hval⟩

/-- A threshold fails only when its boundary or its notional is out of range. -/
private theorem overflow_of_filteredBand (hvalid : ValidLevels levels) (href : 0 < reference.val)
    (hbps : side.Accepts bps) {e : Errc}
    (h : filteredBand side reference 0 0 levels bps = .error e) :
    e = .resultOutOfRange ∧ (int64Max < side.boundary reference bps ∨
      int64Max < notionalTotal (levelsWithin side levels reference bps)) := by
  have hboundary := SidePolicy.boundary_nonneg href hbps
  have hnotional : 0 ≤ notionalTotal (levelsWithin side levels reference bps) :=
    notionalTotal_nonneg fun level hlevel => hvalid level (List.mem_of_mem_filter hlevel)
  simp only [filteredBand, SidePolicy.roundInner_eq href hbps, val_zero, zero_add] at h
  rcases le_or_gt (side.boundary reference bps) int64Max with hfits | hover
  · rcases le_or_gt (notionalTotal (levelsWithin side levels reference bps)) int64Max
      with hfits' | hover
    · rw [fromRawSafe_of_le (by omega) hfits, fromRawSafe_of_le (by omega) hfits'] at h
      cases h
    · rw [fromRawSafe_of_le (by omega) hfits, fromRawSafe_of_gt hover] at h
      cases h
      exact ⟨rfl, .inr hover⟩
  · rw [fromRawSafe_of_gt hover] at h
    cases h
    exact ⟨rfl, .inl hover⟩

/-- The pass reports every threshold on its own, or stops with a checked error. -/
theorem priceBandDepth_cases (hvalid : ValidLevels levels)
    (hsorted : levels.Pairwise fun level level' => side.Before level.1 level'.1)
    (href : 0 < reference.val) (hthresholds : bpsThresholdsValid side bpsThresholds)
    (hfits : CountsFit side reference bpsThresholds 0 0 levels) :
    (∃ bands, priceBandDepth side levels reference bpsThresholds = .ok bands ∧
      List.Forall₂ (IsPriceBand side levels reference) bpsThresholds bands) ∨
    (priceBandDepth side levels reference bpsThresholds = .error .resultOutOfRange ∧
      ∃ bps ∈ bpsThresholds, int64Max < side.boundary reference bps ∨
        int64Max < notionalTotal (levelsWithin side levels reference bps)) := by
  have haccepts := accepts_of_bpsThresholdsValid hthresholds
  rw [priceBandDepth_eq_mapM hvalid hsorted href hthresholds hfits]
  rcases mapM_ok_or_error (filteredBand side reference 0 0 levels) bpsThresholds with
    ⟨bands, hok, hbands⟩ | ⟨pre, bps, post, e, hsplit, -, he, herror⟩
  · have hmem : List.Forall₂ (fun bps band => bps ∈ bpsThresholds ∧
        filteredBand side reference 0 0 levels bps = .ok band) bpsThresholds bands :=
      (List.forall₂_and_left _ _).mpr ⟨fun bps hbps => hbps, hbands⟩
    refine .inl ⟨bands, hok, hmem.imp ?_⟩
    rintro bps band ⟨hbps, hband⟩
    exact isPriceBand_of_filteredBand hvalid href (haccepts bps hbps)
      (hfits.sizeTotal_le hvalid hsorted (haccepts bps hbps) hbps) hband
  · -- the first threshold to fail is the one that stops the walk
    have hmem : bps ∈ bpsThresholds := by simp [hsplit]
    obtain ⟨rfl, hover⟩ := overflow_of_filteredBand hvalid href (haccepts bps hmem) he
    exact .inr ⟨herror, bps, hmem, hover⟩

/-- One pass over a side reports, for every threshold in order, the exact totals of the levels
within it, and fails only when the boundary of a threshold or the notional of the levels within
it does not fit. -/
theorem price_band_depth_filters (side : SidePolicy) (levels : List Level) (reference : Price)
    (bpsThresholds : List Int32) (hvalid : ValidLevels levels)
    (hsorted : levels.Pairwise fun level level' => side.Before level.1 level'.1)
    (href : 0 < reference.val) (hthresholds : bpsThresholdsValid side bpsThresholds)
    (hproducts : ∀ bps ∈ bpsThresholds, ∀ level ∈ levelsWithin side levels reference bps,
      notionalOf level.1 level.2 ≤ int64Max)
    (hsizes : ∀ bps ∈ bpsThresholds,
      sizeTotal (levelsWithin side levels reference bps) ≤ int64Max) :
    (∃ bands, priceBandDepth side levels reference bpsThresholds = .ok bands ∧
      List.Forall₂ (IsPriceBand side levels reference) bpsThresholds bands) ∨
    (priceBandDepth side levels reference bpsThresholds = .error .resultOutOfRange ∧
      ∃ bps ∈ bpsThresholds, int64Max < side.boundary reference bps ∨
        int64Max < notionalTotal (levelsWithin side levels reference bps)) :=
  priceBandDepth_cases hvalid hsorted href hthresholds
    (countsFit_of_within hvalid hsorted (accepts_of_bpsThresholdsValid hthresholds) hproducts
      hsizes)

end Depth

/-- Two asks at 100 and 100.5, five units and three. -/
def sampleAsks : List Level :=
  [(⟨100000000000⟩, ⟨5000000⟩), (⟨100500000000⟩, ⟨3000000⟩)]

theorem price_band_depth_filters_sample :
    (∃ bands, priceBandDepth .ask sampleAsks ⟨100000000000⟩ [0, 50, 50] = .ok bands ∧
      List.Forall₂ (IsPriceBand .ask sampleAsks ⟨100000000000⟩) [0, 50, 50] bands) ∨
    (priceBandDepth .ask sampleAsks ⟨100000000000⟩ [0, 50, 50] = .error .resultOutOfRange ∧
      ∃ bps ∈ [(0 : Int32), 50, 50],
        int64Max < SidePolicy.boundary .ask ⟨100000000000⟩ bps ∨
        int64Max < notionalTotal (levelsWithin .ask sampleAsks ⟨100000000000⟩ bps)) :=
  price_band_depth_filters .ask sampleAsks ⟨100000000000⟩ [0, 50, 50]
    (by unfold ValidLevels; decide +kernel)
    (by simp only [SidePolicy.before_ask]; decide +kernel)
    (by decide +kernel) (by decide +kernel)
    (List.forall_iff_forall_mem.mp (by decide +kernel))
    (List.forall_iff_forall_mem.mp (by decide +kernel))

end Hermeneutic
