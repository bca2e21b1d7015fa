import Hermeneutic.Book.AggregateSum

/-!
# A snapshot is drop and rebuild

`applySnapshot` resyncs a venue in place: what is absent from the snapshot is removed, and
every level of it is folded in as a delta. The plain way to the same book is to drop the venue
(`invalidateVenue`) and apply the levels to nothing (`applyBatch`). Either way the venue ends
with the map its levels describe, and the aggregate with the sum of the venues; a consistent
book has only one aggregate for its venues (`Consistent.ext`), so the two books are equal.

A second snapshot of the same levels finds every level in place: no delta is left, and no sink
is told anything, not even one that would throw (`resyncSide_of_held`).

Both ways end with the venue's plain map on the side and the same total at every price, and maps
that agree at every price are equal; so the proof never compares the two sequences of updates.
What it needs of a call is only that the sums hold after it, for the resync as well as for the two
calls of the rebuild. That a snapshot applied again changes nothing and invokes no sink is a
property of the loops, since the removal loop finds nothing to remove and every delta is zero.
-/

namespace Hermeneutic

section Side

variable {cmp : Price → Price → Ordering} [SideOrder cmp]

/-- The size of a level in the map its snapshot side describes. -/
private theorem sizeAt_firstsOf_of_mem {levels : List Level} (hdistinct : DistinctPrices levels)
    {level : Level} (h : level ∈ levels) :
    sizeAt (firstsOf levels : SideMap cmp) level.1 = level.2.val := by
  induction levels with
  | nil => simp at h
  | cons head levels ih =>
    obtain ⟨hhead, hdistinct⟩ := List.pairwise_cons.mp hdistinct
    rw [firstsOf, List.foldr_cons, sizeAt_setPlain]
    rcases List.mem_cons.mp h with rfl | h
    · rw [if_pos rfl]
    · rw [if_neg (hhead level h)]
      exact ih hdistinct h

private theorem sizeAt_firstsOf_of_forall_ne {levels : List Level} {p : Price}
    (h : ∀ l ∈ levels, l.1 ≠ p) : sizeAt (firstsOf levels : SideMap cmp) p = 0 := by
  induction levels with
  | nil => exact sizeAt_empty p
  | cons head levels ih =>
    obtain ⟨hhead, hrest⟩ := List.forall_mem_cons.mp h
    rw [firstsOf, List.foldr_cons, sizeAt_setPlain, if_neg hhead]
    exact ih hrest

/-- Of levels with distinct prices it does not matter whether a repeated one would take its
first size or its last. -/
private theorem firstsOf_eq_lastsOn {levels : List Level} (hsize : ∀ l ∈ levels, 0 ≤ l.2.val)
    (hdistinct : DistinctPrices levels) :
    (firstsOf levels : SideMap cmp) = lastsOn ∅ levels := by
  refine (positive_firstsOf hsize).ext (positive_empty.lastsOn hsize) fun p => ?_
  by_cases hp : ∃ l ∈ levels, l.1 = p
  · obtain ⟨l, hl, rfl⟩ := hp
    rw [sizeAt_firstsOf_of_mem hdistinct hl, sizeAt_lastsOn_of_mem hdistinct hl]
  · have hne : ∀ l ∈ levels, l.1 ≠ p := fun l hl heq => hp ⟨l, hl, heq⟩
    rw [sizeAt_firstsOf_of_forall_ne hne, sizeAt_lastsOn_of_forall_ne _ hne, sizeAt_empty]

/-- The totals of a batch of distinct prices are those of the snapshot. -/
private theorem SideOp.Fits.apply_of_resync {others : Price → ℤ} {levels : List Level}
    (hdistinct : DistinctPrices levels) (h : (SideOp.resync levels).Fits cmp others) :
    (SideOp.apply levels).Fits cmp others := by
  intro l hl
  have hfit := h l.1
  rwa [sizeAt_firstsOf_of_mem hdistinct hl] at hfit

/-! ### A level that is in place -/

variable {σ : Type*}

/-- Setting the size a side holds already leaves it as it is. -/
private theorem setPlain_eq_self {side : SideMap cmp} (hpos : Positive side) {level : Level}
    (h : sizeAt side level.1 = level.2.val) : setPlain side level = side := by
  have hsize : 0 ≤ level.2.val := h ▸ hpos.sizeAt_nonneg level.1
  refine (hpos.setPlain hsize).ext hpos fun p => ?_
  rw [sizeAt_setPlain]
  split
  · rename_i heq
    rw [← heq, h]
  · rfl

/-- A level in place is no delta, and the sink is not told of it. -/
private theorem applyLevel_of_held (sink : Sink σ) {st : SideState cmp σ}
    (hpos : Positive st.venueSide)
    {level : Level} (h : sizeAt st.venueSide level.1 = level.2.val) :
    applyLevel sink st level = .ok st := by
  have hsize : 0 ≤ level.2.val := h ▸ hpos.sizeAt_nonneg level.1
  have hvenue : (setLevel st.venueSide level.1 level.2).1 = st.venueSide := by
    rw [setLevel_fst _ hsize, setPlain_eq_self hpos h]
  have hdelta : level.2 - (setLevel st.venueSide level.1 level.2).2 = 0 := by
    rw [← BasicFixedPoint.val_eq_zero_iff, hpos.val_delta hsize, h, sub_self]
  simp only [applyLevel, hvenue, hdelta, adjustAggregate, if_true, report]

/-- A loop whose steps all change nothing. -/
private theorem foldlM_eq_ok {α β ε : Type*} {step : β → α → Except ε β} {b : β} {l : List α}
    (h : ∀ a ∈ l, step b a = .ok b) : l.foldlM step b = .ok b := by
  induction l with
  | nil => rfl
  | cons a l ih =>
    rw [List.foldlM_cons, h a List.mem_cons_self]
    exact ih fun a' ha' => h a' (List.mem_cons_of_mem _ ha')

/-- **A resync of a side to what it holds** does nothing. -/
theorem resyncSide_of_held (sink : Sink σ) {levels : List Level}
    (hsize : ∀ l ∈ levels, 0 ≤ l.2.val) {st : SideState cmp σ}
    (h : st.venueSide = firstsOf levels) : resyncSide sink levels st = .ok st := by
  have hpos : Positive st.venueSide := h ▸ positive_firstsOf hsize
  have hremoved : st.venueSide.toList.foldlM
      (fun st level => if (ofLevels levels : SideMap cmp).contains level.1 then .ok st
        else removeLevel sink st level) st = .ok st := by
    refine foldlM_eq_ok fun level hmem => ?_
    -- What the side holds is a level of the snapshot, so nothing goes.
    have hheld : level.1 ∈ st.venueSide := mem_map_fst_toList.mp (List.mem_map_of_mem hmem)
    have hnew : level.1 ∈ (ofLevels levels : SideMap cmp) := by
      by_contra hnew
      have hpositive := hpos.mem_iff.mp hheld
      rw [h, ← sizeAt_ofLevels, sizeAt_of_not_mem hnew] at hpositive
      exact lt_irrefl _ hpositive
    rw [if_pos (Std.ExtTreeMap.mem_iff_contains.mp hnew)]
  -- Every level of the snapshot is in place, so nothing is told.
  have happlied : (ofLevels levels : SideMap cmp).toList.foldlM (applyLevel sink) st = .ok st := by
    refine foldlM_eq_ok fun level hmem => applyLevel_of_held sink hpos ?_
    have hget := Std.ExtTreeMap.mem_toList_iff_getElem?_eq_some.mp hmem
    rw [h, ← sizeAt_ofLevels, sizeAt, hget]
    rfl
  rw [resyncSide, hremoved]
  exact happlied

end Side

/-! ### The two books -/

namespace AggregateOrderBook

/-- **Idempotence.** A snapshot of what the venue holds changes nothing and tells no sink. -/
theorem applySnapshot_of_held {σ τ : Type*} {book : AggregateOrderBook} {venue : VenueId}
    {bids asks : List Level} (hvalid : (BookOp.applySnapshot bids asks).valid)
    (hheld : book.venues venue = some ⟨firstsOf asks, firstsOf bids⟩) (bidSink : Sink σ)
    (askSink : Sink τ) (bidSeen : σ) (askSeen : τ) :
    book.applySnapshot bidSink askSink venue bids asks bidSeen askSeen =
      ⟨.ok (), book, bidSeen, askSeen⟩ := by
  obtain ⟨hbids, hasks⟩ := BookOp.sides_valid hvalid
  have hlevels : (bids.all isValidLevel && asks.all isValidLevel) = true := hvalid
  have hbook : book.venueBook venue = ⟨firstsOf asks, firstsOf bids⟩ := by
    rw [AggregateOrderBook.venueBook, hheld]
    rfl
  simp only [applySnapshot, applySides, hlevels, Bool.not_true, Bool.false_eq_true, if_false,
    hbook]
  rw [resyncSide_of_held bidSink hbids rfl, resyncSide_of_held askSink hasks rfl]
  simp only [store, ← hheld, Function.update_eq_self]

/-- A snapshot leaves the venue what its levels describe. -/
private theorem call_applySnapshot_venues {book : AggregateOrderBook} (h : book.VenuesPositive)
    {venue : VenueId} {bids asks : List Level} (hvalid : (BookOp.applySnapshot bids asks).valid) :
    (book.call ⟨venue, .applySnapshot bids asks⟩).2.venues =
      Function.update book.venues venue (some ⟨firstsOf asks, firstsOf bids⟩) := by
  rw [call_venues h, if_pos hvalid]
  rfl

/-- On a consistent book a snapshot is an invalidation and a batch. -/
private theorem Summed.call_snapshot_eq {book : AggregateOrderBook} (h : book.Summed)
    {venue : VenueId}
    {bids asks : List Level} (hvalid : (BookOp.applySnapshot bids asks).valid)
    (hbids : DistinctPrices bids) (hasks : DistinctPrices asks)
    (hfits : BookCall.Fits ⟨venue, .applySnapshot bids asks⟩ book.venues) :
    (book.call ⟨venue, .applySnapshot bids asks⟩).2 =
      ((book.call ⟨venue, .invalidateVenue⟩).2.call ⟨venue, .applyBatch bids asks⟩).2 := by
  have hsizes := BookOp.sides_valid hvalid
  have hdropped : (book.call ⟨venue, .invalidateVenue⟩).2.Summed :=
    h.call fun _ => ⟨trivial, trivial⟩
  have hdroppedVenues : (book.call ⟨venue, .invalidateVenue⟩).2.venues =
      Function.update book.venues venue none := by
    rw [call_venues h.venuesPositive]
    rfl
  -- both books are sums, so it is enough that their venues agree
  refine Summed.ext (h.call fun _ => hfits) (hdropped.call fun _ => ⟨?_, ?_⟩) ?_
  · rw [hdroppedVenues]
    intro l hl
    rw [others_update]
    exact (SideOp.Fits.apply_of_resync hbids hfits.1) l hl
  · rw [hdroppedVenues]
    intro l hl
    rw [others_update]
    exact (SideOp.Fits.apply_of_resync hasks hfits.2) l hl
  · have hbatch : (BookOp.applyBatch bids asks).valid := hvalid
    rw [call_applySnapshot_venues h.venuesPositive hvalid, call_venues hdropped.venuesPositive,
      if_pos hbatch, hdroppedVenues, Function.update_self, Function.update_idem]
    rw [firstsOf_eq_lastsOn hsizes.1 hbids, firstsOf_eq_lastsOn hsizes.2 hasks]
    rfl

end AggregateOrderBook

/-- **A snapshot is drop and rebuild**, in every state a run of calls reaches, and applying it
once more changes nothing and invokes no sink. -/
theorem snapshot_eq_rebuild (calls : List BookCall) (venue : VenueId) (bids asks : List Level)
    (hvalid : (BookOp.applySnapshot bids asks).valid) (hbids : DistinctPrices bids)
    (hasks : DistinctPrices asks)
    (hfit : TotalsFit (calls ++ [⟨venue, .applySnapshot bids asks⟩])) :
    let book := bookMachine.state {} calls
    let resynced := (book.call ⟨venue, .applySnapshot bids asks⟩).2
    let rebuilt := ((book.call ⟨venue, .invalidateVenue⟩).2.call ⟨venue, .applyBatch bids asks⟩).2
    (resynced.venues = rebuilt.venues ∧ resynced.aggregate = rebuilt.aggregate) ∧
      ∀ (σ τ : Type) (bidSink : Sink σ) (askSink : Sink τ) (bidSeen : σ) (askSeen : τ),
        resynced.applySnapshot bidSink askSink venue bids asks bidSeen askSeen =
          ⟨.ok (), resynced, bidSeen, askSeen⟩ := by
  obtain ⟨hcalls, hlast⟩ := totalsFit_concat.mp hfit
  have hsummed := run_summed hcalls
  have hfits : BookCall.Fits ⟨venue, .applySnapshot bids asks⟩
      (bookMachine.state {} calls).venues := by
    rw [funext (run_venues calls).2]
    exact hlast hvalid
  have heq := hsummed.call_snapshot_eq hvalid hbids hasks hfits
  refine ⟨⟨congrArg _ heq, congrArg _ heq⟩, fun σ τ bidSink askSink bidSeen askSeen => ?_⟩
  refine AggregateOrderBook.applySnapshot_of_held hvalid ?_ bidSink askSink bidSeen askSeen
  rw [AggregateOrderBook.call_applySnapshot_venues hsummed.venuesPositive hvalid,
    Function.update_self]

theorem snapshot_eq_rebuild_sample :
    let calls : List BookCall := [⟨⟨.okx, .spot⟩, .applyBatch [(⟨100⟩, ⟨5⟩)] []⟩,
      ⟨⟨.binance, .spot⟩, .applyBatch [(⟨99⟩, ⟨2⟩), (⟨100⟩, ⟨4⟩)] [(⟨102⟩, ⟨1⟩)]⟩]
    let bids : List Level := [(⟨100⟩, ⟨7⟩), (⟨98⟩, ⟨0⟩)]
    let book := bookMachine.state {} calls
    let resynced := (book.call ⟨⟨.binance, .spot⟩, .applySnapshot bids []⟩).2
    let rebuilt := ((book.call ⟨⟨.binance, .spot⟩, .invalidateVenue⟩).2.call
      ⟨⟨.binance, .spot⟩, .applyBatch bids []⟩).2
    ((resynced.venues = rebuilt.venues ∧ resynced.aggregate = rebuilt.aggregate) ∧
      ∀ (σ τ : Type) (bidSink : Sink σ) (askSink : Sink τ) (bidSeen : σ) (askSeen : τ),
        resynced.applySnapshot bidSink askSink ⟨.binance, .spot⟩ bids [] bidSeen askSeen =
          ⟨.ok (), resynced, bidSeen, askSeen⟩) ∧
      resynced.aggregate.bids.toList = [(⟨100⟩, ⟨12⟩)] ∧ resynced.aggregate.asks.toList = [] :=
  ⟨snapshot_eq_rebuild _ _ _ _ (by decide) (by simp [DistinctPrices, BasicFixedPoint.mk.injEq])
    (by simp [DistinctPrices]) (totalsFit_of_le 10 (by decide) (by decide) (by decide)),
    by decide +kernel, by decide +kernel⟩

end Hermeneutic
