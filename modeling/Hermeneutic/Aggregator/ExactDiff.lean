import Hermeneutic.Aggregator.Publication
import Hermeneutic.Book.AggregateSum

/-!
# Diffs are exact and minimal

A diff lists what the collectors of a call hold. That overlaying it on the old aggregate gives
the new one is `Collected`, and it holds whatever is collected; so every price that changed is
listed, with its new size. That nothing else is listed takes more. A price is told to the
collector when its delta is not zero, which moves the aggregate there as long as the total has
not wrapped, and a price the call puts only once is not moved back (`Told`). The levels a call
puts have distinct prices, but for a batch that repeats one.

`Told` is the invariant of one side during a call: what the collector holds is where the aggregate
differs from the one before, at the prices put so far, and no price still to come has been
touched. A resync puts removals and then levels, whose prices are distinct because a map holds
them; a batch comes from the wire, so the hypothesis on it is needed there and only there. From
one side to the published diff is `SymbolBook.call_publishesChanges`, and `diff_exact` adds that
the sums hold after any run whose totals fit.
-/

namespace Hermeneutic

open Client (wireLevels overlay)

section Side

variable {cmp : Price → Price → Ordering} [SideOrder cmp] {σ : Type*} {f : Price → Size → σ → σ}

/-- A batch repeats no price; the map of a snapshot side cannot. -/
def SideOp.NoRepeats : SideOp → Prop
  | apply levels => DistinctPrices levels
  | _ => True

/-- The levels an operation puts on a side have distinct prices. -/
theorem SideOp.NoRepeats.levels {op : SideOp} (h : op.NoRepeats) (side : SideMap cmp) :
    DistinctPrices (op.levels side) := by
  have hzeroes : ∀ {held : List Level}, DistinctPrices held →
      DistinctPrices (held.map fun l => (l.1, (0 : Size))) := fun hheld =>
    List.pairwise_map.mpr hheld
  cases op with
  | apply levels => exact h
  | remove => exact hzeroes (lists_toList side).1
  | resync levels =>
    refine List.pairwise_append.mpr ⟨hzeroes ((lists_toList side).1.filter _),
      (lists_toList (ofLevels levels)).1, ?_⟩
    rintro l hl l' hl' heq
    -- The prices set to zero are those the new map does not hold.
    obtain ⟨held, hheld, rfl⟩ := List.mem_map.mp hl
    have hgone := (List.mem_filter.mp hheld).2
    have hnew : l'.1 ∈ (ofLevels levels : SideMap cmp) :=
      mem_map_fst_toList.mp (List.mem_map_of_mem hl')
    rw [← heq, Std.ExtTreeMap.mem_iff_contains] at hnew
    simp [hnew] at hgone

/-- A put is told to the sink only with a delta that is not zero. -/
private theorem SideState.put_told (st : SideState cmp σ) (level : Level) :
    (st.put f level).seen = st.seen ∨
      (level.2 - (setLevel st.venueSide level.1 level.2).2 ≠ 0 ∧
        ∃ size, (st.put f level).seen = f level.1 size st.seen) := by
  simp only [SideState.put, adjustAggregate]
  split
  · exact .inl rfl
  · rename_i hdelta
    refine .inr ⟨hdelta, ?_⟩
    split <;> exact ⟨_, rfl⟩

/-- A put touches no other price of the aggregate. -/
private theorem SideState.put_aggregateSide_of_ne (st : SideState cmp σ) {level : Level} {p : Price}
    (h : level.1 ≠ p) : sizeAt (st.put f level).aggregateSide p = sizeAt st.aggregateSide p := by
  rcases st.put_cases f level with ⟨haggregate, -⟩ | ⟨haggregate, -⟩ | ⟨size, -, haggregate, -⟩
  · rw [haggregate]
  · rw [haggregate, sizeAt_erase, if_neg h]
  · rw [haggregate, sizeAt_insert, if_neg h]

/-- A put whose total fits and whose delta is not zero moves the aggregate at its price. -/
private theorem SideState.Sums.put_moves {others : Price → ℤ} {st : SideState cmp σ}
    (h : st.Sums others)
    {level : Level} (hsize : 0 ≤ level.2.val) (hothers : 0 ≤ others level.1)
    (hfit : level.2.val + others level.1 ≤ int64Max)
    (hdelta : level.2 - (setLevel st.venueSide level.1 level.2).2 ≠ 0) :
    sizeAt (st.put f level).aggregateSide level.1 ≠ sizeAt st.aggregateSide level.1 := by
  have hafter := (h.put (f := f) hsize hothers hfit).sum level.1
  rw [put_venueSide st hsize, sizeAt_setPlain, if_pos rfl] at hafter
  rw [hafter, h.sum level.1]
  intro heq
  -- the same total would mean the same size as before
  refine hdelta (BasicFixedPoint.val_eq_zero_iff.mp ?_)
  rw [h.venue_positive.val_delta hsize]
  omega

/-- Every price told has moved since the start. -/
def Told (start : SideMap cmp) (st : SideState cmp (SideMap cmp)) : Prop :=
  ∀ (p : Price) (s : Size), st.seen[p]? = some s → sizeAt st.aggregateSide p ≠ sizeAt start p

/-- **Run lemma.** Putting levels with distinct prices that have not been told before keeps
every price told a moved one. -/
theorem Told.puts {start : SideMap cmp} {others : Price → ℤ} (hothers : ∀ p, 0 ≤ others p)
    {levels : List Level} (hdistinct : DistinctPrices levels)
    (hsizes : ∀ l ∈ levels, 0 ≤ l.2.val) (hfits : ∀ l ∈ levels, l.2.val + others l.1 ≤ int64Max)
    {st : SideState cmp (SideMap cmp)} (hsums : st.Sums others) (hcollected : Collected start st)
    (htold : Told start st) (huntold : ∀ l ∈ levels, st.seen[l.1]? = none) :
    Told start (levels.foldl (SideState.put collect) st) := by
  induction levels generalizing st with
  | nil => exact htold
  | cons level levels ih =>
    obtain ⟨hsize, hsizes⟩ := List.forall_mem_cons.mp hsizes
    obtain ⟨hfit, hfits⟩ := List.forall_mem_cons.mp hfits
    obtain ⟨hnew, huntold⟩ := List.forall_mem_cons.mp huntold
    obtain ⟨hfirst, hdistinct⟩ := List.pairwise_cons.mp hdistinct
    have hput := hsums.put (f := collect) hsize (hothers level.1) hfit
    refine ih hdistinct hsizes hfits hput (hcollected.put level) (fun p s hp => ?_)
      fun l hl => ?_
    · rcases st.put_told (f := collect) level with hseen | ⟨hdelta, size, hseen⟩
      · -- Nothing new is told, and the price put is none of those told before.
        rw [hseen] at hp
        have hne : level.1 ≠ p := by
          rintro rfl
          rw [hnew] at hp
          simp at hp
        rw [st.put_aggregateSide_of_ne hne]
        exact htold p s hp
      · by_cases hp' : level.1 = p
        · subst hp'
          -- Not told before, so the aggregate is still what it was at the start.
          have hstart : sizeAt st.aggregateSide level.1 = sizeAt start level.1 := by
            rw [sizeAt, hcollected level.1, hnew]
            rfl
          rw [← hstart]
          exact hsums.put_moves hsize (hothers _) hfit hdelta
        · rw [hseen, collect, Std.ExtTreeMap.getElem?_insert] at hp
          simp only [Std.LawfulEqCmp.compare_eq_iff_eq, hp', if_false] at hp
          rw [st.put_aggregateSide_of_ne hp']
          exact htold p s hp
    · rcases st.put_told (f := collect) level with hseen | ⟨-, size, hseen⟩
      · rw [hseen]
        exact huntold l hl
      · rw [hseen, collect, Std.ExtTreeMap.getElem?_insert]
        simp only [Std.LawfulEqCmp.compare_eq_iff_eq, hfirst l hl, if_false]
        exact huntold l hl

/-- What is collected is exactly what has moved, with the size it has moved to. -/
private theorem getElem?_seen_iff {start : SideMap cmp} {st : SideState cmp (SideMap cmp)}
    (hcollected : Collected start st) (htold : Told start st) (p : Price) (s : Size) :
    st.seen[p]? = some s ↔
      sizeAt st.aggregateSide p ≠ sizeAt start p ∧ s.val = sizeAt st.aggregateSide p := by
  have hp := hcollected p
  have hnow : ∀ {s : Size}, st.seen[p]? = some s → s.val = sizeAt st.aggregateSide p := by
    intro s hs
    rw [sizeAt, hp, hs, overlay]
    split
    · rename_i hzero
      rw [hzero]
      rfl
    · rfl
  constructor
  · exact fun hs => ⟨htold p s hs, hnow hs⟩
  · rintro ⟨hmoved, hsize⟩
    cases hs : st.seen[p]? with
    | none =>
      refine absurd ?_ hmoved
      rw [sizeAt, hp, hs]
      rfl
    | some s' => rw [BasicFixedPoint.val_inj.mp ((hnow hs).trans hsize.symm)]

end Side

/-! ### One call -/

section Side

variable {cmp : Price → Price → Ordering} [SideOrder cmp]

/-- The levels are exactly the prices at which a side has changed, in its order, each with its
new size, which is zero if the price has left. -/
structure ListsChanges (old new : SideMap cmp) (levels : List PriceLevel) : Prop where
  mem_iff : ∀ (p : Price) (s : Size),
    makeLevel p s ∈ levels ↔ sizeAt new p ≠ sizeAt old p ∧ s.val = sizeAt new p
  removed_iff : ∀ (p : Price) (s : Size), makeLevel p s ∈ levels → (s = 0 ↔ p ∈ old ∧ p ∉ new)
  ordered : levels.Pairwise fun l l' => cmp (.fromRaw l.priceRaw) (.fromRaw l'.priceRaw) = .lt

private theorem makeLevel_mem_wireLevels {side : SideMap cmp} {p : Price} {s : Size} :
    makeLevel p s ∈ wireLevels side ↔ side[p]? = some s := by
  rw [← Std.ExtTreeMap.mem_toList_iff_getElem?_eq_some, wireLevels, List.mem_map]
  constructor
  · rintro ⟨⟨q, t⟩, hmem, heq⟩
    obtain ⟨hq, ht⟩ := PriceLevel.mk.inj heq
    have hqp : q = p := congrArg BasicFixedPoint.mk hq
    have hts : t = s := congrArg BasicFixedPoint.mk ht
    rwa [hqp, hts] at hmem
  · exact fun hmem => ⟨(p, s), hmem, rfl⟩

private theorem ordered_wireLevels (side : SideMap cmp) : (wireLevels side).Pairwise
    fun l l' => cmp (.fromRaw l.priceRaw) (.fromRaw l'.priceRaw) = .lt :=
  List.pairwise_map.mpr side.ordered_keys_toList

/-- **One side.** What a call that repeats no price collects on a side lists its changes. -/
theorem SideState.Sums.run_listsChanges {others : Price → ℤ} {st : SideState cmp (SideMap cmp)}
    (h : st.Sums others) (hseen : st.seen = ∅) {op : SideOp} (hvalid : op.Valid)
    (hrepeats : op.NoRepeats) (hothers : ∀ p, 0 ≤ others p) (hfits : op.Fits cmp others) :
    ListsChanges st.aggregateSide (st.run collect op).aggregateSide
      (wireLevels (st.run collect op).seen) := by
  have hstart : Collected st.aggregateSide st := fun p => by simp [hseen, overlay]
  have hafter := h.run (f := collect) hvalid hothers hfits
  have hcollected := hstart.run op
  have htold : Told st.aggregateSide (st.run collect op) :=
    Told.puts hothers (hrepeats.levels st.venueSide) (hvalid.levels st.venueSide)
      (h.levels_fit hfits) h hstart (fun p s hp => by simp [hseen] at hp)
      fun l _ => by simp [hseen]
  generalize st.run collect op = st' at *
  have hmem : ∀ (p : Price) (s : Size), makeLevel p s ∈ wireLevels st'.seen ↔
      sizeAt st'.aggregateSide p ≠ sizeAt st.aggregateSide p ∧ s.val = sizeAt st'.aggregateSide p :=
    fun p s => makeLevel_mem_wireLevels.trans (getElem?_seen_iff hcollected htold p s)
  refine ⟨hmem, fun p s hlisted => ?_, ordered_wireLevels st'.seen⟩
  obtain ⟨hmoved, hsize⟩ := (hmem p s).mp hlisted
  have hold := h.aggregate_positive.sizeAt_nonneg p
  have hnew := hafter.aggregate_positive.sizeAt_nonneg p
  rw [h.aggregate_positive.mem_iff, hafter.aggregate_positive.mem_iff,
    ← BasicFixedPoint.val_eq_zero_iff]
  omega

end Side

namespace SymbolBook

/-- A publication takes the next number. -/
private theorem publish_seq {sb : SymbolBook} {changed : List Change} (h : changed ≠ []) :
    (sb.publish changed).seq = sb.seq + 1 := by
  rw [publish, if_neg (by simpa using h), publishBbo_seq]

/-- A publication is one diff. -/
private theorem publish_l2Fanout {sb : SymbolBook} {changed : List Change} (h : changed ≠ []) :
    (sb.publish changed).l2Fanout = sb.l2Fanout.broadcast
      (.diff (sb.seq + 1) (Change.levels .bid changed) (Change.levels .ask changed)) := by
  rw [publish, if_neg (by simpa using h), publishBbo_l2Fanout]

/-- The book of a symbol book goes through its calls as the aggregate book does. -/
private theorem call_book (sb : SymbolBook) (c : BookCall) : (sb.call c).2.book =
    (sb.book.call c).2 := by
  have hcollect := sb.book.callWith_total collect collect c (∅ : SideMap greater)
    (∅ : SideMap less)
  have hsame := (sb.book.callWith_book collect collect c (∅ : SideMap greater)
    (∅ : SideMap less)).2
  rw [hcollect] at hsame
  rw [call_eq, ← hsame]
  split
  · exact publish_book _ _
  · rfl

end SymbolBook

/-- The calls among a run's events, in order. -/
def bookCalls (events : List ServiceEvent) : List BookCall :=
  events.filterMap fun
    | .call c => some c
    | _ => none

/-- Nothing but a call moves the book. -/
private theorem Service.step_book (s : Service) (event : ServiceEvent) :
    (s.step event).1.symbolBook.book =
      bookMachine.state s.symbolBook.book (bookCalls [event]) := by
  cases event with
  | call c => exact s.symbolBook.call_book c
  | sendHeartbeat | l2 id event | bbo id event => rfl
  | subscribe id | subscribeBbo id =>
    simp only [Service.step]
    split <;> rfl

/-- A run takes its book through its calls. -/
theorem state_book (events : List ServiceEvent) :
    (serviceMachine.state {} events).symbolBook.book = bookMachine.state {} (bookCalls events) := by
  induction events using List.reverseRecOn with
  | nil => rfl
  | append_singleton events event ih =>
    have hsplit : bookCalls (events ++ [event]) = bookCalls events ++ bookCalls [event] :=
      List.filterMap_append
    rw [Machine.state_concat, hsplit, Machine.state_append, ← ih]
    exact Service.step_book _ event

/-- The size of some price of either side differs. -/
def L2OrderBook.Moved (old new : L2OrderBook) : Prop :=
  (∃ p, sizeAt new.bids p ≠ sizeAt old.bids p) ∨ ∃ p, sizeAt new.asks p ≠ sizeAt old.asks p

private theorem greater_eq_lt_iff {a b : Int64} :
    greater (.fromRaw a) (.fromRaw b) = .lt ↔ b < a := by
  rw [greater, compare_lt_iff_lt, BasicFixedPoint.lt_iff_val_lt, Int64.lt_iff_toInt_lt]
  exact Iff.rfl

private theorem less_eq_lt_iff {a b : Int64} : less (.fromRaw a) (.fromRaw b) = .lt ↔ a < b := by
  rw [less, compare_lt_iff_lt, BasicFixedPoint.lt_iff_val_lt, Int64.lt_iff_toInt_lt]
  exact Iff.rfl

/-- No call repeats a price within one side of a batch. -/
def BookOp.NoRepeats (op : BookOp) : Prop := op.bids.NoRepeats ∧ op.asks.NoRepeats

/-- What an accepted call publishes: if no price has moved, nothing, and otherwise one diff
under the next number, which lists the changes of either side. -/
structure PublishesChanges (sb sb' : SymbolBook) : Prop where
  moved : sb.book.aggregate.Moved sb'.book.aggregate → sb'.seq = sb.seq + 1 ∧
    ∃ bids asks, sb'.l2Fanout = sb.l2Fanout.broadcast (.diff sb'.seq bids asks) ∧
      ListsChanges sb.book.aggregate.bids sb'.book.aggregate.bids bids ∧
      ListsChanges sb.book.aggregate.asks sb'.book.aggregate.asks asks ∧
      bids.Pairwise (fun l l' => l'.priceRaw < l.priceRaw) ∧
      asks.Pairwise (fun l l' => l.priceRaw < l'.priceRaw)
  unmoved : ¬ sb.book.aggregate.Moved sb'.book.aggregate → sb' = { sb with book := sb'.book }

/-- Levels that list the changes are there exactly if there is one. -/
private theorem ListsChanges.ne_nil_iff {cmp : Price → Price → Ordering} [SideOrder cmp]
    {old new : SideMap cmp} {levels : List PriceLevel} (h : ListsChanges old new levels) :
    levels ≠ [] ↔ ∃ p, sizeAt new p ≠ sizeAt old p := by
  constructor
  · intro hne
    obtain ⟨⟨price, size⟩, hmem⟩ := List.exists_mem_of_ne_nil levels hne
    exact ⟨.fromRaw price, ((h.mem_iff (.fromRaw price) (.fromRaw size)).mp hmem).1⟩
  · rintro ⟨p, hmoved⟩
    exact List.ne_nil_of_mem
      ((h.mem_iff p (new[p]?.getD 0)).mpr ⟨hmoved, val_getD new p⟩)

private theorem wireLevels_eq_nil_iff {cmp : Price → Price → Ordering} [SideOrder cmp]
    {side : SideMap cmp} : wireLevels side = [] ↔ side = ∅ := by
  rw [wireLevels, List.map_eq_nil_iff, Std.ExtTreeMap.toList_eq_nil_iff]

/-- **A call on a consistent book** publishes its changes. -/
theorem SymbolBook.call_publishesChanges {sb : SymbolBook} (h : sb.book.Summed) {c : BookCall}
    (hvalid : c.op.valid) (hrepeats : c.op.NoRepeats) (hfits : c.Fits sb.book.venues) :
    PublishesChanges sb (sb.call c).2 := by
  obtain ⟨hbidsValid, hasksValid⟩ := BookOp.sides_valid hvalid
  have hbids : ListsChanges sb.book.aggregate.bids
      (sb.book.bidRun collect c (∅ : SideMap greater)).aggregateSide
      (wireLevels (sb.book.bidRun collect c (∅ : SideMap greater)).seen) :=
    (h.1.sums rfl c.venue _).run_listsChanges rfl hbidsValid hrepeats.1
      (h.1.others_nonneg c.venue) hfits.1
  have hasks : ListsChanges sb.book.aggregate.asks
      (sb.book.askRun collect c (∅ : SideMap less)).aggregateSide
      (wireLevels (sb.book.askRun collect c (∅ : SideMap less)).seen) :=
    (h.2.sums rfl c.venue _).run_listsChanges rfl hasksValid hrepeats.2
      (h.2.others_nonneg c.venue) hfits.2
  have hcall := sb.call_eq c
  rw [if_pos hvalid] at hcall
  rw [hcall]
  simp only [AggregateOrderBook.accepted]
  generalize sb.book.bidRun collect c (∅ : SideMap greater) = bids at *
  generalize sb.book.askRun collect c (∅ : SideMap less) = asks at *
  have hmoved : sb.book.aggregate.Moved ⟨asks.aggregateSide, bids.aggregateSide⟩ ↔
      (collectChanges bids.seen asks.seen).isEmpty = false := by
    rw [L2OrderBook.Moved, ← hbids.ne_nil_iff, ← hasks.ne_nil_iff, Ne, wireLevels_eq_nil_iff, Ne,
      wireLevels_eq_nil_iff, ← not_and_or, Bool.eq_false_iff, Ne, List.isEmpty_iff]
    exact not_congr ⟨fun hboth => by simp [collectChanges, hboth], collectChanges_eq_nil⟩
  refine ⟨fun hchanged => ?_, fun hsame => ?_⟩
  · -- Something is collected, so the call takes the next number and broadcasts one diff.
    rw [publish_book] at hchanged
    have hne : collectChanges bids.seen asks.seen ≠ [] := by
      simpa [List.isEmpty_eq_false_iff] using hmoved.mp hchanged
    refine ⟨publish_seq hne, wireLevels bids.seen, wireLevels asks.seen, ?_, ?_, ?_,
      hbids.ordered.imp greater_eq_lt_iff.mp, hasks.ordered.imp less_eq_lt_iff.mp⟩
    · rw [publish_l2Fanout hne, publish_seq hne, levels_bid_collectChanges,
        levels_ask_collectChanges]
    · rw [publish_book]
      exact hbids
    · rw [publish_book]
      exact hasks
  · rw [publish_book, hmoved, Bool.not_eq_false] at hsame
    rw [publish, if_pos hsame]

/-- **Diffs are exact and minimal.** After any run whose totals fit, an accepted call that
repeats no price of a batch publishes exactly what it has changed. -/
theorem diff_exact (events : List ServiceEvent) (c : BookCall) (hvalid : c.op.valid)
    (hrepeats : c.op.NoRepeats) (hfit : TotalsFit (bookCalls events ++ [c])) :
    (((serviceMachine.state {} events).symbolBook.call c).1 = .ok ()) ∧
      PublishesChanges (serviceMachine.state {} events).symbolBook
        ((serviceMachine.state {} events).symbolBook.call c).2 := by
  obtain ⟨hcalls, hlast⟩ := totalsFit_concat.mp hfit
  refine ⟨by rw [SymbolBook.call_eq, if_pos hvalid], ?_⟩
  refine SymbolBook.call_publishesChanges ?_ hvalid hrepeats ?_
  · rw [state_book]
    exact run_summed hcalls
  · rw [state_book, funext (run_venues _).2]
    exact hlast hvalid

theorem diff_exact_sample :
    let events : List ServiceEvent := [.call ⟨⟨.okx, .spot⟩, .applyBatch [(⟨100⟩, ⟨5⟩)] []⟩,
      .sendHeartbeat, .call ⟨⟨.binance, .spot⟩, .applySnapshot [(⟨100⟩, ⟨2⟩)] [(⟨103⟩, ⟨4⟩)]⟩,
      .subscribe 0]
    let c : BookCall := ⟨⟨.binance, .spot⟩, .applyBatch [(⟨100⟩, ⟨0⟩), (⟨99⟩, ⟨1⟩)] [(⟨103⟩, ⟨4⟩)]⟩
    let sb := (serviceMachine.state {} events).symbolBook
    (sb.call c).1 = .ok () ∧ PublishesChanges sb (sb.call c).2 ∧
      ((sb.call c).2.l2Fanout.subscribers 0).map SubscriberQueue.queue =
        some [.diff 3 [⟨100, 5⟩, ⟨99, 1⟩] []] := by
  intro events c sb
  obtain ⟨hok, hchanges⟩ := diff_exact events c (by decide)
    (by simp [c, BookOp.NoRepeats, BookOp.bids, BookOp.asks, SideOp.NoRepeats, DistinctPrices])
    (totalsFit_of_le 10 (by decide) (by decide) (by decide))
  exact ⟨hok, hchanges, by decide +kernel⟩

end Hermeneutic
