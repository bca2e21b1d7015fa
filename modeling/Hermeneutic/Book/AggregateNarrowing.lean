import Hermeneutic.Book.AggregateSum

/-!
# When the sum of the venues wraps

Levels are validated one by one, and each size alone is a non-negative `int64_t`. The aggregate
adds up the sizes of several venues with the plain operators, whose range is an assertion only.
A sum past the range comes back negative, and `adjust_aggregate` takes that for a removal: the
level disappears although every venue still holds it.

`StepExact` is what one level put on a side should do, its arithmetic in range and a price
erased only with the last venue, and `AggregateExact` asks it of every level of a run. Next to
the other venues a level is exact exactly when its total fits
(`SideState.Sums.stepExact_iff`), and a level that is exact keeps the aggregate the sum of the
venues, so a whole run is exact exactly when its totals fit (`aggregateExact_iff`).
-/

namespace Hermeneutic

section Side

variable {cmp : Price → Price → Ordering} [SideOrder cmp] {σ : Type*}

/-- What putting a level narrows: the change of the venue's size and, unless that is zero, the
aggregate with the change folded in. -/
def SideState.putNarrowings (st : SideState cmp σ) (level : Level) : List ℤ :=
  let oldSize := (setLevel st.venueSide level.1 level.2).2
  let delta := level.2 - oldSize
  (level.2.val - oldSize.val) ::
    if delta = 0 then [] else [(st.aggregateSide[level.1]?.getD 0).val + delta.val]

variable (f : Price → Size → σ → σ)

/-- One level is put exactly: nothing leaves the `int64_t` range, and the price is erased from
the aggregate only when neither the venue nor any of the others holds it any more. -/
structure StepExact (heldElsewhere : Price → Prop) (st : SideState cmp σ) (level : Level) :
    Prop where
  narrowings : ∀ value ∈ st.putNarrowings level, InRange value
  erased : level.1 ∈ st.aggregateSide → level.1 ∉ (st.put f level).aggregateSide →
    level.1 ∉ (st.put f level).venueSide ∧ ¬heldElsewhere level.1

/-- Every one of the levels is put exactly, in the state those before it leave. -/
def LevelsExact (heldElsewhere : Price → Prop) (levels : List Level) (st : SideState cmp σ) :
    Prop :=
  ∀ done level, done ++ [level] <+: levels →
    StepExact f heldElsewhere (done.foldl (SideState.put f) st) level

variable {f} {others : Price → ℤ} {heldElsewhere : Price → Prop} {st : SideState cmp σ}

/-- The arithmetic of a level is in range exactly when its total fits. -/
private theorem SideState.Sums.forall_putNarrowings (h : st.Sums others) {level : Level}
    (hsize : 0 ≤ level.2.val) (hothers : 0 ≤ others level.1) :
    (∀ value ∈ st.putNarrowings level, InRange value) ↔
      level.2.val + others level.1 ≤ int64Max := by
  have hold := h.venue_positive.sizeAt_nonneg level.1
  have hmax := sizeAt_le st.venueSide level.1
  have hdelta := h.venue_positive.val_delta hsize
  have hsum := h.sum level.1
  have haggregate := sizeAt_le st.aggregateSide level.1
  have hchange : InRange (level.2.val - sizeAt st.venueSide level.1) := by
    have hle := level.2.val_le
    rw [InRange, int64Max] at *
    omega
  have htotal : sizeAt st.aggregateSide level.1 +
      (level.2 - (setLevel st.venueSide level.1 level.2).2).val =
        level.2.val + others level.1 := by omega
  simp only [putNarrowings, List.forall_mem_cons, setLevel_snd, val_getD, hchange, true_and]
  rw [← setLevel_snd st.venueSide level.1 level.2]
  split_ifs with hzero
  · -- the venue already holds that size, and the aggregate is a size of the book
    rw [hzero, BasicFixedPoint.val_zero] at htotal
    exact iff_of_true (by simp) (by omega)
  · rw [List.forall_mem_singleton, htotal, inRange_of_nonneg (add_nonneg hsize hothers)]

/-- A price that is not in the aggregate is held by nobody. -/
private theorem SideState.Sums.not_held (h : st.Sums others) {p : Price} (hothers : 0 ≤ others p)
    (hout : p ∉ st.aggregateSide) : p ∉ st.venueSide ∧ others p = 0 := by
  have hvenue := h.venue_positive.sizeAt_nonneg p
  rw [h.aggregate_positive.mem_iff, h.sum] at hout
  rw [h.venue_positive.mem_iff]
  omega

/-- A level is put exactly when its total fits. -/
theorem SideState.Sums.stepExact_iff (h : st.Sums others) (hothers : ∀ p, 0 ≤ others p)
    (helsewhere : ∀ p, others p = 0 → ¬heldElsewhere p) {level : Level}
    (hsize : 0 ≤ level.2.val) :
    StepExact f heldElsewhere st level ↔ level.2.val + others level.1 ≤ int64Max := by
  rw [← h.forall_putNarrowings hsize (hothers level.1)]
  refine ⟨StepExact.narrowings, fun hnarrowings => ⟨hnarrowings, fun _ hout => ?_⟩⟩
  have hfit := (h.forall_putNarrowings hsize (hothers level.1)).mp hnarrowings
  have hput := h.put (f := f) hsize (hothers level.1) hfit
  obtain ⟨hvenue, hzero⟩ := hput.not_held (hothers level.1) hout
  exact ⟨hvenue, helsewhere level.1 hzero⟩

/-- Levels are put exactly when all their totals fit. -/
theorem SideState.Sums.levelsExact_iff (h : st.Sums others) (hothers : ∀ p, 0 ≤ others p)
    (helsewhere : ∀ p, others p = 0 → ¬heldElsewhere p) {levels : List Level}
    (hsizes : ∀ l ∈ levels, 0 ≤ l.2.val) :
    LevelsExact f heldElsewhere levels st ↔ ∀ l ∈ levels, l.2.val + others l.1 ≤ int64Max := by
  induction levels using List.reverseRecOn with
  | nil =>
    refine iff_of_true (fun done level hinit => ?_) (by simp)
    simp at hinit
  | append_singleton levels level ih =>
    obtain ⟨hlevels, hlevel⟩ := List.forall_mem_append.mp hsizes
    rw [LevelsExact, forall_step_concat_iff, List.forall_mem_append, List.forall_mem_singleton]
    refine (and_congr_left' (ih hlevels)).trans (and_congr_right fun hfits => ?_)
    have hvalid : (SideOp.apply levels).Valid := hlevels
    have hdone : (levels.foldl (SideState.put f) st).Sums others := h.run hvalid hothers hfits
    exact hdone.stepExact_iff hothers helsewhere (hlevel level (List.mem_singleton.mpr rfl))

/-- The levels the code puts fit exactly when the operation does. -/
private theorem SideState.Sums.levels_fit_iff (h : st.Sums others) {op : SideOp} :
    (∀ l ∈ op.levels st.venueSide, l.2.val + others l.1 ≤ int64Max) ↔ op.Fits cmp others := by
  refine ⟨fun hlevels => ?_, h.levels_fit⟩
  cases op with
  | resync levels =>
    intro p
    rw [← sizeAt_ofLevels]
    cases hget : (ofLevels levels : SideMap cmp)[p]? with
    | none =>
      rw [sizeAt, hget]
      exact (zero_add (others p)).trans_le (h.others_le p)
    | some size =>
      rw [sizeAt, hget]
      exact hlevels (p, size) (List.mem_append_right _
        (Std.ExtTreeMap.mem_toList_iff_getElem?_eq_some.mpr hget))
  | apply levels => exact hlevels
  | remove => trivial

end Side

/-! ### Calls -/

section Venues

variable {cmp : Price → Price → Ordering} [SideOrder cmp] {side : L2OrderBook → SideMap cmp}
  {aggregateSide : SideMap cmp} {venues : VenueId → Option L2OrderBook}

/-- Some other venue holds the price. -/
def HeldElsewhere (side : L2OrderBook → SideMap cmp) (venues : VenueId → Option L2OrderBook)
    (venue : VenueId) (p : Price) : Prop :=
  ∃ v book, v ≠ venue ∧ venues v = some book ∧ p ∈ side book

/-- Where the others contribute nothing, none of them holds the price. -/
private theorem Consistent.not_heldElsewhere (h : Consistent side aggregateSide venues)
    {venue : VenueId}
    {p : Price} (hzero : others side venues venue p = 0) : ¬HeldElsewhere side venues venue p := by
  rintro ⟨v, book, hne, hvenue, hmem⟩
  have hv := (Finset.sum_eq_zero_iff_of_nonneg fun v _ => h.contribution_nonneg p v).mp hzero v
    (Finset.mem_erase.mpr ⟨hne, Finset.mem_univ v⟩)
  rw [contribution, hvenue] at hv
  have hpos := (h.venue_positive v book hvenue).mem_iff.mp hmem
  exact hpos.ne' hv

/-- An operation of one venue is exact on a consistent side exactly when its totals fit. -/
theorem Consistent.levelsExact_iff {σ : Type*} {f : Price → Size → σ → σ}
    (h : Consistent side aggregateSide venues) (hempty : side {} = ∅) {venue : VenueId}
    {op : SideOp} (hvalid : op.Valid) (seen : σ) :
    LevelsExact f (HeldElsewhere side venues venue) (op.levels (side ((venues venue).getD {})))
        ⟨side ((venues venue).getD {}), aggregateSide, seen⟩ ↔
      op.Fits cmp (others side venues venue) := by
  have hsums := h.sums hempty venue seen
  rw [hsums.levelsExact_iff (h.others_nonneg venue) (fun p => h.not_heldElsewhere)
    (hvalid.levels _)]
  exact hsums.levels_fit_iff

end Venues

namespace AggregateOrderBook

/-- Every level an accepted call puts is put exactly. What a call does to either side is to put
these levels in order (`callWith_total`). -/
def CallExact (book : AggregateOrderBook) (c : BookCall) : Prop :=
  c.op.valid →
    LevelsExact (fun _ _ seen => seen) (HeldElsewhere L2OrderBook.bids book.venues c.venue)
      (c.op.bids.levels (book.venueBook c.venue).bids)
      ⟨(book.venueBook c.venue).bids, book.aggregate.bids, ()⟩ ∧
    LevelsExact (fun _ _ seen => seen) (HeldElsewhere L2OrderBook.asks book.venues c.venue)
      (c.op.asks.levels (book.venueBook c.venue).asks)
      ⟨(book.venueBook c.venue).asks, book.aggregate.asks, ()⟩

/-- **Step lemma.** A call on a consistent book is exact exactly when its totals fit. -/
theorem Summed.callExact_iff {book : AggregateOrderBook} (h : book.Summed) (c : BookCall) :
    book.CallExact c ↔ (c.op.valid → c.Fits book.venues) := by
  refine forall_congr' fun hvalid => ?_
  obtain ⟨hbids, hasks⟩ := BookOp.sides_valid hvalid
  exact and_congr (h.1.levelsExact_iff rfl hbids ()) (h.2.levelsExact_iff rfl hasks ())

end AggregateOrderBook

/-! ### Runs -/

/-- Every level of the run is put exactly: no sum and no difference of sizes leaves the
`int64_t` range, and no price is erased from the aggregate while some venue holds it. -/
def AggregateExact (calls : List BookCall) : Prop :=
  ∀ pre c, pre ++ [c] <+: calls → (bookMachine.state {} pre).CallExact c

/-- **A run is exact exactly when its totals fit.** -/
theorem aggregateExact_iff (calls : List BookCall) : AggregateExact calls ↔ TotalsFit calls := by
  induction calls using List.reverseRecOn with
  | nil =>
    refine iff_of_true (fun pre c hinit => ?_) totalsFit_nil
    simp at hinit
  | append_singleton calls c ih =>
    rw [AggregateExact, forall_step_concat_iff, totalsFit_concat]
    refine (and_congr_left' ih).trans (and_congr_right fun hfit => ?_)
    rw [(run_summed hfit).callExact_iff, funext (run_venues calls).2]

/-- Two venues that bid at one price, the second one unit more than the range has left. -/
def wrappingCalls : List BookCall :=
  [⟨⟨.binance, .spot⟩, .applyBatch [(⟨100⟩, ⟨9223372036854775807⟩)] []⟩,
    ⟨⟨.okx, .spot⟩, .applyBatch [(⟨100⟩, ⟨1⟩)] []⟩]

/-- **The sum of two venues wraps.** Both calls are accepted, and the price both venues bid at
is gone from the aggregate. -/
theorem aggregateExact_fails :
    bookMachine.output {} wrappingCalls = [.ok (), .ok ()] ∧ ¬AggregateExact wrappingCalls ∧
      (∀ v ∈ [(⟨.binance, .spot⟩ : VenueId), ⟨.okx, .spot⟩],
        ⟨100⟩ ∈ ((bookMachine.state {} wrappingCalls).venueBook v).bids) ∧
      ⟨100⟩ ∉ (bookMachine.state {} wrappingCalls).aggregate.bids := by
  refine ⟨by decide +kernel, fun hexact => ?_, by decide +kernel, by decide +kernel⟩
  have hsecond := hexact [⟨⟨.binance, .spot⟩, .applyBatch [(⟨100⟩, ⟨9223372036854775807⟩)] []⟩]
    ⟨⟨.okx, .spot⟩, .applyBatch [(⟨100⟩, ⟨1⟩)] []⟩ List.prefix_rfl (by decide)
  have hstep := hsecond.1 [] (⟨100⟩, ⟨1⟩) List.prefix_rfl
  -- the sum is one past the largest `int64_t`
  exact absurd (hstep.narrowings (2 ^ 63) (by decide +kernel)) (by decide)

end Hermeneutic
