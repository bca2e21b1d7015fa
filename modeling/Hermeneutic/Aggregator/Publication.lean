import Hermeneutic.Aggregator.ClientBook

/-!
# What a call publishes

The collectors of a call hold, for every price, the last size the book reported, and the book
reports every change of the aggregate as the size it then stores, or zero. So overlaying what
was collected on the aggregate before the call gives the aggregate after it (`Collected`),
whatever the sizes are and even if a sum of them has wrapped. An accepted call is then one of
two things: it leaves the aggregate and everything of the streams as they are, or it is one
new revision, broadcast as a diff that takes the one aggregate to the other
(`SymbolBook.call_revises`).
-/

namespace Hermeneutic

open Client (wireLevels overlay)

section Side

variable {cmp : Price → Price → Ordering} [SideOrder cmp]

/-- What was collected, laid over the aggregate side at the start, is the aggregate side now. -/
def Collected (start : SideMap cmp) (st : SideState cmp (SideMap cmp)) : Prop :=
  ∀ p : Price, st.aggregateSide[p]? = overlay st.seen[p]? start[p]?

theorem Collected.init (venueSide aggregateSide : SideMap cmp) :
    Collected aggregateSide ⟨venueSide, aggregateSide, ∅⟩ := by
  intro p
  simp [overlay]

/-- **Step lemma.** -/
theorem Collected.put {start : SideMap cmp} {st : SideState cmp (SideMap cmp)}
    (h : Collected start st) (level : Level) : Collected start (st.put collect level) := by
  intro p
  rcases st.put_cases collect level with ⟨haggregate, hseen⟩ | ⟨haggregate, hseen⟩ |
    ⟨size, hsize, haggregate, hseen⟩
  · rw [haggregate, hseen]
    exact h p
  · rw [haggregate, hseen, collect]
    simp only [Std.ExtTreeMap.getElem?_erase, Std.ExtTreeMap.getElem?_insert,
      Std.LawfulEqCmp.compare_eq_iff_eq]
    by_cases hp : level.1 = p
    · simp [hp, overlay]
    · simp only [hp, if_false]
      exact h p
  · rw [haggregate, hseen, collect]
    simp only [Std.ExtTreeMap.getElem?_insert, Std.LawfulEqCmp.compare_eq_iff_eq]
    by_cases hp : level.1 = p
    · simp [hp, overlay, hsize.ne']
    · simp only [hp, if_false]
      exact h p

/-- **Run lemma.** -/
theorem Collected.run {start : SideMap cmp} {st : SideState cmp (SideMap cmp)}
    (h : Collected start st) (op : SideOp) : Collected start (st.run collect op) := by
  rw [SideState.run]
  induction op.levels st.venueSide generalizing st with
  | nil => exact h
  | cons level levels ih => exact ih (h.put level)

/-- Applying what was collected is what a client does with a diff. -/
private theorem Collected.applyLevels_eq {start : SideMap cmp} {st : SideState cmp (SideMap cmp)}
    (h : Collected start st) :
    Client.applyLevels start (wireLevels st.seen) = st.aggregateSide := by
  refine Std.ExtTreeMap.ext_getElem? fun p => ?_
  rw [Client.getElem?_applyLevels_wireLevels, h p]

/-- If nothing was collected, nothing has changed. -/
private theorem Collected.eq_start {start : SideMap cmp} {st : SideState cmp (SideMap cmp)}
    (h : Collected start st) (hseen : st.seen = ∅) : st.aggregateSide = start := by
  refine Std.ExtTreeMap.ext_getElem? fun p => ?_
  rw [h p, hseen]
  simp [overlay]

/-- The aggregate stores no size that is not positive, whatever is put. -/
theorem Positive.run {σ : Type*} (f : Price → Size → σ → σ) (op : SideOp) {st : SideState cmp σ}
    (h : Positive st.aggregateSide) : Positive (st.run f op).aggregateSide := by
  rw [SideState.run]
  induction op.levels st.venueSide generalizing st with
  | nil => exact h
  | cons level levels ih =>
    refine ih ?_
    rcases st.put_cases f level with ⟨haggregate, -⟩ | ⟨haggregate, -⟩ |
      ⟨size, hsize, haggregate, -⟩
    · rwa [haggregate]
    · rw [haggregate]
      exact h.erase level.1
    · rw [haggregate]
      exact h.insert hsize

end Side

theorem levels_bid_collectChanges (bids : SideMap greater) (asks : SideMap less) :
    Change.levels .bid (collectChanges bids asks) = wireLevels bids := by
  simp [Change.levels, collectChanges, wireLevels, List.filter_map, Function.comp_def]

theorem levels_ask_collectChanges (bids : SideMap greater) (asks : SideMap less) :
    Change.levels .ask (collectChanges bids asks) = wireLevels asks := by
  simp [Change.levels, collectChanges, wireLevels, List.filter_map, Function.comp_def]

theorem collectChanges_eq_nil {bids : SideMap greater} {asks : SideMap less}
    (h : collectChanges bids asks = []) : bids = ∅ ∧ asks = ∅ := by
  simpa [collectChanges, Std.ExtTreeMap.toList_eq_nil_iff, Std.ExtTreeMap.isEmpty_iff] using h

/-- Both sides of a book store positive sizes only. -/
structure L2OrderBook.Positive (book : L2OrderBook) : Prop where
  bids : Hermeneutic.Positive book.bids
  asks : Hermeneutic.Positive book.asks

namespace SymbolBook

/-- One new revision: the diff takes the old aggregate to the new one. -/
structure Revises (sb sb' : SymbolBook) : Prop where
  exists_diff : ∃ bids asks,
    sb' = publishBbo { sb with
      book := sb'.book
      seq := sb.seq + 1
      l2Fanout := sb.l2Fanout.broadcast (.diff (sb.seq + 1) bids asks) } ∧
    Client.applyLevels sb.book.aggregate.bids bids = sb'.book.aggregate.bids ∧
    Client.applyLevels sb.book.aggregate.asks asks = sb'.book.aggregate.asks

@[simp] theorem publishBbo_book (sb : SymbolBook) : sb.publishBbo.book = sb.book := by
  rw [publishBbo]
  split <;> rfl

@[simp] theorem publishBbo_seq (sb : SymbolBook) : sb.publishBbo.seq = sb.seq := by
  rw [publishBbo]
  split <;> rfl

@[simp] theorem publishBbo_l2Fanout (sb : SymbolBook) : sb.publishBbo.l2Fanout = sb.l2Fanout := by
  rw [publishBbo]
  split <;> rfl

@[simp] theorem publish_book (sb : SymbolBook) (changed : List Change) :
    (sb.publish changed).book = sb.book := by
  rw [publish]
  split
  · rfl
  · exact publishBbo_book _

/-- **A call either leaves the aggregate and the streams alone or is one new revision.** -/
theorem call_revises (sb : SymbolBook) (c : BookCall) :
    ((sb.call c).2.book.aggregate = sb.book.aggregate ∧
        (sb.call c).2 = { sb with book := (sb.call c).2.book }) ∨
      Revises sb (sb.call c).2 := by
  rw [call_eq]
  by_cases hvalid : c.op.valid = true
  · rw [if_pos hvalid]
    simp only [AggregateOrderBook.accepted]
    generalize hbids : sb.book.bidRun collect c (∅ : SideMap greater) = bids
    generalize hasks : sb.book.askRun collect c (∅ : SideMap less) = asks
    have hbidCollected : Collected sb.book.aggregate.bids bids :=
      hbids ▸ (Collected.init _ _).run c.op.bids
    have haskCollected : Collected sb.book.aggregate.asks asks :=
      hasks ▸ (Collected.init _ _).run c.op.asks
    rw [publish]
    split
    · rename_i hempty
      obtain ⟨hbidSeen, haskSeen⟩ := collectChanges_eq_nil (List.isEmpty_iff.mp hempty)
      left
      refine ⟨?_, rfl⟩
      simp only [hbidCollected.eq_start hbidSeen, haskCollected.eq_start haskSeen]
    · right
      refine ⟨⟨wireLevels bids.seen, wireLevels asks.seen, ?_, ?_, ?_⟩⟩
      · simp only [levels_bid_collectChanges, levels_ask_collectChanges, publishBbo_book]
      · simpa using hbidCollected.applyLevels_eq
      · simpa using haskCollected.applyLevels_eq
  · rw [if_neg hvalid]
    exact .inl ⟨rfl, rfl⟩

/-- A call keeps the aggregate's sizes positive. -/
theorem call_positive {sb : SymbolBook} (h : sb.book.aggregate.Positive) (c : BookCall) :
    (sb.call c).2.book.aggregate.Positive := by
  rw [call_eq]
  by_cases hvalid : c.op.valid = true
  · rw [if_pos hvalid]
    rw [publish_book]
    exact ⟨Positive.run collect c.op.bids h.bids, Positive.run collect c.op.asks h.asks⟩
  · rw [if_neg hvalid]
    exact h

end SymbolBook

end Hermeneutic
