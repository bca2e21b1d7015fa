import Mathlib.Algebra.BigOperators.Group.Finset.Basic
import Mathlib.Algebra.Order.BigOperators.Group.Finset
import Mathlib.Tactic.Linarith
import Mathlib.Tactic.Ring
import Hermeneutic.Book.VenueReplay
import Hermeneutic.ForMathlib.ListTraversal

/-!
# The aggregate is the sum of the venues

The aggregate of a price is meant to be the sum of the venues' sizes there. The code never
recomputes that sum, it keeps it by deltas, so the argument is an invariant of one side at a
time. While a call works on a side, the aggregate is what the venue holds plus a constant,
the sum of the *other* venues (`SideState.Sums`). One `put` keeps that as long as the new
size and the others together fit an `int64_t` (`SideState.Sums.put`), hence every operation
does (`SideState.Sums.run`). Between calls each side is `Consistent`.

The condition that no total leaves the `int64_t` range is stated over the plain maps
(`TotalsFit`). It covers every level of a batch, the ones a later level replaces included:
the aggregate holds their total in between, and once that has wrapped the later delta no
longer restores it.

The second half carries this from one side to a book and from one call to a run. A call touches
one venue, so for the others the constant of the first half is theirs before and after; what all
venues have at a price is then `contribution` summed up, and a book is `Summed` when both sides
are consistent. Rejected calls change nothing. `run_summed` is the run lemma that later modules
use; that calls of different venues commute follows from the sums alone.
-/

namespace Hermeneutic

open Finset

section Side

variable {cmp : Price → Price → Ordering} [SideOrder cmp] {σ : Type*} {f : Price → Size → σ → σ}

theorem val_getD (side : SideMap cmp) (p : Price) : (side[p]?.getD 0).val = sizeAt side p := by
  rw [sizeAt]
  cases side[p]? <;> rfl

theorem sizeAt_le (side : SideMap cmp) (p : Price) : sizeAt side p ≤ int64Max := by
  rw [← val_getD]
  exact BasicFixedPoint.val_le _

theorem setLevel_fst (side : SideMap cmp) {level : Level} (h : 0 ≤ level.2.val) :
    (setLevel side level.1 level.2).1 = setPlain side level := by
  have hiff : level.2 ≤ 0 ↔ level.2 = 0 := by
    rw [← BasicFixedPoint.val_eq_zero_iff, BasicFixedPoint.le_iff_val_le,
      BasicFixedPoint.val_zero]
    omega
  simp only [setLevel, setPlain, hiff]
  split <;> rfl

theorem setLevel_snd (side : SideMap cmp) (p : Price) (size : Size) :
    (setLevel side p size).2 = side[p]?.getD 0 := by
  rw [setLevel]
  split <;> rfl

/-- The delta of a level is the exact difference of the venue's sizes. -/
theorem Positive.val_delta {side : SideMap cmp} (hpos : Positive side) {level : Level}
    (hsize : 0 ≤ level.2.val) :
    (level.2 - (setLevel side level.1 level.2).2).val = level.2.val - sizeAt side level.1 := by
  have hold : 0 ≤ (side[level.1]?.getD 0).val := by
    rw [val_getD]
    exact hpos.sizeAt_nonneg level.1
  rw [setLevel_snd, BasicFixedPoint.val_sub_of_nonneg hsize hold, val_getD]

/-- On the venue's side a `put` is an update of the plain map. -/
theorem SideState.put_venueSide (st : SideState cmp σ) {level : Level} (h : 0 ≤ level.2.val) :
    (st.put f level).venueSide = setPlain st.venueSide level := by
  rw [← setLevel_fst _ h]
  rfl

private theorem foldl_put_venueSide (st : SideState cmp σ) {levels : List Level}
    (h : ∀ l ∈ levels, 0 ≤ l.2.val) :
    (levels.foldl (SideState.put f) st).venueSide = lastsOn st.venueSide levels := by
  induction levels generalizing st with
  | nil => rfl
  | cons level levels ih =>
    rw [List.foldl_cons, ih _ fun l hl => h l (List.mem_cons_of_mem _ hl),
      SideState.put_venueSide st (h level List.mem_cons_self)]
    rfl

/-- **The venue's side.** Every operation leaves the plain map on it. -/
theorem SideState.run_venueSide {op : SideOp} (h : op.Valid) {st : SideState cmp σ}
    (hpos : Positive st.venueSide) : (st.run f op).venueSide = op.replay st.venueSide := by
  rw [SideState.run, foldl_put_venueSide st (h.levels _), lastsOn_levels h hpos]

/-- Folding in a delta whose result is in range adds it at that price only. -/
theorem adjustAggregate_spec {side : SideMap cmp} (hpos : Positive side) {p : Price}
    {delta : Size} (hlow : 0 ≤ sizeAt side p + delta.val)
    (hhigh : sizeAt side p + delta.val ≤ int64Max) :
    Positive (adjustAggregate side p delta).1 ∧ ∀ q,
      sizeAt (adjustAggregate side p delta).1 q =
        if p = q then sizeAt side p + delta.val else sizeAt side q := by
  have hupdated : (side[p]?.getD 0 + delta).val = sizeAt side p + delta.val := by
    rw [BasicFixedPoint.add_def, val_getD]
    exact BasicFixedPoint.val_fromRawChecked (by omega) hhigh
  simp only [adjustAggregate]
  split
  · rename_i hzero
    refine ⟨hpos, fun q => ?_⟩
    split
    · rename_i heq
      rw [hzero, ← heq, BasicFixedPoint.val_zero, add_zero]
    · rfl
  · split
    · rename_i hle
      rw [BasicFixedPoint.le_iff_val_le, hupdated, BasicFixedPoint.val_zero] at hle
      refine ⟨hpos.erase p, fun q => ?_⟩
      rw [sizeAt_erase, le_antisymm hle hlow]
    · rename_i hgt
      rw [BasicFixedPoint.le_iff_val_le, hupdated, BasicFixedPoint.val_zero] at hgt
      refine ⟨hpos.insert (by omega), fun q => ?_⟩
      rw [sizeAt_insert, hupdated]

/-- The invariant of one side while a call works on it: the aggregate is the venue's size
plus `others`. -/
structure SideState.Sums (others : Price → ℤ) (st : SideState cmp σ) : Prop where
  venue_positive : Positive st.venueSide
  aggregate_positive : Positive st.aggregateSide
  sum : ∀ p, sizeAt st.aggregateSide p = sizeAt st.venueSide p + others p

theorem SideState.Sums.others_le {others : Price → ℤ} {st : SideState cmp σ}
    (h : st.Sums others) (p : Price) : others p ≤ int64Max := by
  have hsum := h.sum p
  have hvenue := h.venue_positive.sizeAt_nonneg p
  have hmax := sizeAt_le st.aggregateSide p
  omega

/-- **Step lemma.** Putting a level keeps the invariant when its total fits. -/
theorem SideState.Sums.put {others : Price → ℤ} {st : SideState cmp σ} (h : st.Sums others)
    {level : Level} (hsize : 0 ≤ level.2.val) (hothers : 0 ≤ others level.1)
    (hfit : level.2.val + others level.1 ≤ int64Max) : (st.put f level).Sums others := by
  have hdelta := h.venue_positive.val_delta hsize
  have hsum := h.sum level.1
  have hlow : 0 ≤ sizeAt st.aggregateSide level.1 +
      (level.2 - (setLevel st.venueSide level.1 level.2).2).val := by omega
  have hadjust := adjustAggregate_spec h.aggregate_positive hlow (by omega)
  refine ⟨?_, hadjust.1, fun p => ?_⟩
  · rw [put_venueSide st hsize]
    exact h.venue_positive.setPlain hsize
  · rw [put_venueSide st hsize, sizeAt_setPlain]
    refine (hadjust.2 p).trans ?_
    split
    · rename_i heq
      rw [hdelta, ← heq]
      omega
    · exact h.sum p

/-- The totals an operation goes through fit an `int64_t`. -/
def SideOp.Fits (cmp : Price → Price → Ordering) [SideOrder cmp] (others : Price → ℤ) :
    SideOp → Prop
  | resync levels => ∀ p, sizeAt (firstsOf levels : SideMap cmp) p + others p ≤ int64Max
  | apply levels => ∀ l ∈ levels, l.2.val + others l.1 ≤ int64Max
  | remove => True

/-- Every level the code puts fits: a zero because the others alone do, a level of a resync
because it is the snapshot's size. -/
theorem SideState.Sums.levels_fit {others : Price → ℤ} {st : SideState cmp σ}
    (h : st.Sums others) {op : SideOp} (hfits : op.Fits cmp others) :
    ∀ l ∈ op.levels st.venueSide, l.2.val + others l.1 ≤ int64Max := by
  have hzeroes : ∀ (ls : List Level), ∀ l ∈ ls.map (fun l => (l.1, (0 : Size))),
      l.2.val + others l.1 ≤ int64Max := by
    intro ls l hl
    obtain ⟨l', -, rfl⟩ := List.mem_map.mp hl
    rw [BasicFixedPoint.val_zero, zero_add]
    exact h.others_le l'.1
  cases op with
  | resync levels =>
    intro l hl
    rcases List.mem_append.mp hl with hl | hl
    · exact hzeroes _ l hl
    · have hget := Std.ExtTreeMap.mem_toList_iff_getElem?_eq_some.mp hl
      have hfit := hfits l.1
      rw [← sizeAt_ofLevels, sizeAt, hget] at hfit
      exact hfit
  | apply levels => exact hfits
  | remove => exact hzeroes _

/-- **Run lemma.** An operation whose totals fit keeps the invariant. -/
theorem SideState.Sums.run {others : Price → ℤ} {st : SideState cmp σ} (h : st.Sums others)
    {op : SideOp} (hvalid : op.Valid) (hothers : ∀ p, 0 ≤ others p)
    (hfits : op.Fits cmp others) : (st.run f op).Sums others := by
  have hsizes := hvalid.levels st.venueSide
  have htotals := h.levels_fit hfits
  rw [SideState.run]
  generalize op.levels st.venueSide = levels at hsizes htotals
  induction levels generalizing st with
  | nil => exact h
  | cons level levels ih =>
    have hput := h.put (f := f) (hsizes level List.mem_cons_self) (hothers level.1)
      (htotals level List.mem_cons_self)
    exact ih hput (fun l hl => hsizes l (List.mem_cons_of_mem _ hl))
      fun l hl => htotals l (List.mem_cons_of_mem _ hl)

end Side

/-! ### All venues -/

section Venues

variable {cmp : Price → Price → Ordering} [SideOrder cmp] (side : L2OrderBook → SideMap cmp)

/-- What a venue contributes to a price. -/
def contribution (venues : VenueId → Option L2OrderBook) (p : Price) (venue : VenueId) : ℤ :=
  (venues venue).elim 0 fun book => sizeAt (side book) p

/-- What the other venues contribute to a price. -/
def others (venues : VenueId → Option L2OrderBook) (venue : VenueId) (p : Price) : ℤ :=
  ∑ v ∈ univ.erase venue, contribution side venues p v

/-- The state of one side between calls: every size is positive, and the aggregate is the
sum of the venues. -/
structure Consistent (aggregateSide : SideMap cmp) (venues : VenueId → Option L2OrderBook) :
    Prop where
  venue_positive : ∀ venue book, venues venue = some book → Positive (side book)
  aggregate_positive : Positive aggregateSide
  sum : ∀ p, sizeAt aggregateSide p = ∑ venue, contribution side venues p venue

variable {side}

theorem Consistent.contribution_nonneg {aggregateSide : SideMap cmp}
    {venues : VenueId → Option L2OrderBook} (h : Consistent side aggregateSide venues)
    (p : Price) (venue : VenueId) : 0 ≤ contribution side venues p venue := by
  rw [contribution]
  cases hvenue : venues venue with
  | none => exact le_rfl
  | some book => exact (h.venue_positive venue book hvenue).sizeAt_nonneg p

theorem Consistent.others_nonneg {aggregateSide : SideMap cmp}
    {venues : VenueId → Option L2OrderBook} (h : Consistent side aggregateSide venues)
    (venue : VenueId) (p : Price) : 0 ≤ others side venues venue p :=
  sum_nonneg fun v _ => h.contribution_nonneg p v

theorem contribution_add_others (venues : VenueId → Option L2OrderBook) (venue : VenueId)
    (p : Price) :
    contribution side venues p venue + others side venues venue p =
      ∑ v, contribution side venues p v :=
  add_sum_erase univ _ (mem_univ venue)

/-- A venue's own entry is not among the others. -/
theorem others_update (venues : VenueId → Option L2OrderBook) (venue : VenueId)
    (entry : Option L2OrderBook) (p : Price) :
    others side (Function.update venues venue entry) venue p = others side venues venue p := by
  refine sum_congr rfl fun v hv => ?_
  rw [contribution, Function.update_of_ne (ne_of_mem_erase hv)]
  rfl

/-- The aggregate holds a price exactly when some venue does. -/
theorem Consistent.mem_iff {aggregateSide : SideMap cmp} {venues : VenueId → Option L2OrderBook}
    (h : Consistent side aggregateSide venues) (p : Price) :
    p ∈ aggregateSide ↔ ∃ venue book, venues venue = some book ∧ p ∈ side book := by
  rw [h.aggregate_positive.mem_iff, h.sum, sum_pos_iff_of_nonneg fun v _ =>
    h.contribution_nonneg p v]
  constructor
  · rintro ⟨venue, -, hpos⟩
    cases hvenue : venues venue with
    | none => simp [contribution, hvenue] at hpos
    | some book =>
      rw [contribution, hvenue] at hpos
      exact ⟨venue, book, hvenue, (h.venue_positive venue book hvenue).mem_iff.mpr hpos⟩
  · rintro ⟨venue, book, hvenue, hmem⟩
    refine ⟨venue, mem_univ venue, ?_⟩
    rw [contribution, hvenue]
    exact (h.venue_positive venue book hvenue).mem_iff.mp hmem

/-- Consistent sides over the same venues are the same map. -/
theorem Consistent.ext {aggregateSide aggregateSide' : SideMap cmp}
    {venues : VenueId → Option L2OrderBook} (h : Consistent side aggregateSide venues)
    (h' : Consistent side aggregateSide' venues) : aggregateSide = aggregateSide' :=
  h.aggregate_positive.ext h'.aggregate_positive fun p => by rw [h.sum, h'.sum]

/-- The entry a venue is left with agrees with the side an operation worked on. -/
def Leaves (side : L2OrderBook → SideMap cmp) (entry : Option L2OrderBook)
    (venueSide : SideMap cmp) : Prop :=
  match entry with
  | none => venueSide = ∅
  | some book => side book = venueSide

/-- Between calls, one venue's side next to the others. -/
theorem Consistent.sums {σ : Type*} {aggregateSide : SideMap cmp}
    {venues : VenueId → Option L2OrderBook} (h : Consistent side aggregateSide venues)
    (hempty : side {} = ∅) (venue : VenueId) (seen : σ) :
    SideState.Sums (others side venues venue)
      (⟨side ((venues venue).getD {}), aggregateSide, seen⟩ : SideState cmp σ) := by
  have hown : ∀ p, sizeAt (side ((venues venue).getD {})) p = contribution side venues p venue := by
    intro p
    rw [contribution]
    cases venues venue with
    | none => simp [hempty]
    | some book => rfl
  have hpos : Positive (side ((venues venue).getD {})) := by
    cases hvenue : venues venue with
    | none =>
      rw [Option.getD_none, hempty]
      exact positive_empty
    | some book => exact h.venue_positive venue book hvenue
  refine ⟨hpos, h.aggregate_positive, fun p => ?_⟩
  rw [h.sum, hown, contribution_add_others]

/-- Writing one venue's side back next to the others. -/
theorem Consistent.update {σ : Type*} {aggregateSide : SideMap cmp}
    {venues : VenueId → Option L2OrderBook} (h : Consistent side aggregateSide venues)
    {venue : VenueId} {st : SideState cmp σ} (hst : st.Sums (others side venues venue))
    {entry : Option L2OrderBook} (hentry : Leaves side entry st.venueSide) :
    Consistent side st.aggregateSide (Function.update venues venue entry) := by
  refine ⟨fun v book hv => ?_, hst.aggregate_positive, fun p => ?_⟩
  · by_cases hvenue : v = venue
    · subst hvenue
      rw [Function.update_self] at hv
      rw [hv, Leaves] at hentry
      exact hentry ▸ hst.venue_positive
    · rw [Function.update_of_ne hvenue] at hv
      exact h.venue_positive v book hv
  · rw [hst.sum p, ← contribution_add_others _ venue, others_update]
    congr 1
    rw [contribution, Function.update_self]
    cases entry with
    | none =>
      rw [Leaves] at hentry
      rw [hentry, sizeAt_empty]
      rfl
    | some book =>
      rw [Leaves] at hentry
      rw [← hentry]
      rfl

/-- An operation of one venue, whose totals fit, keeps a side consistent. -/
theorem Consistent.run {σ : Type*} {f : Price → Size → σ → σ} {aggregateSide : SideMap cmp}
    {venues : VenueId → Option L2OrderBook} (h : Consistent side aggregateSide venues)
    (hempty : side {} = ∅) {venue : VenueId} {op : SideOp} (hvalid : op.Valid)
    (hfits : op.Fits cmp (others side venues venue)) {seen : σ} {entry : Option L2OrderBook}
    (hentry : Leaves side entry
      (SideState.run f op ⟨side ((venues venue).getD {}), aggregateSide, seen⟩).venueSide) :
    Consistent side
      (SideState.run f op ⟨side ((venues venue).getD {}), aggregateSide, seen⟩).aggregateSide
      (Function.update venues venue entry) :=
  h.update ((h.sums hempty venue seen).run hvalid (h.others_nonneg venue) hfits) hentry

end Venues

/-! ### Runs of the book -/

theorem BookOp.sides_valid {op : BookOp} (h : op.valid) : op.bids.Valid ∧ op.asks.Valid := by
  have hlevels : ∀ levels : List Level, levels.all isValidLevel → ∀ l ∈ levels, 0 ≤ l.2.val :=
    fun levels hall l hl => (isValidLevel_iff.mp (List.all_eq_true.mp hall l hl)).2
  cases op with
  | applySnapshot bids asks =>
    obtain ⟨hbids, hasks⟩ := Bool.and_eq_true_iff.mp h
    exact ⟨hlevels bids hbids, hlevels asks hasks⟩
  | applyBatch bids asks =>
    obtain ⟨hbids, hasks⟩ := Bool.and_eq_true_iff.mp h
    exact ⟨hlevels bids hbids, hlevels asks hasks⟩
  | invalidateVenue => exact ⟨trivial, trivial⟩

private theorem BookOp.replay_positive {op : BookOp} (hvalid : op.valid)
    {entry : Option L2OrderBook}
    (h : ∀ b, entry = some b → Positive b.bids ∧ Positive b.asks) :
    ∀ b, op.replay entry = some b → Positive b.bids ∧ Positive b.asks := by
  obtain ⟨hbids, hasks⟩ := BookOp.sides_valid hvalid
  have hentry : Positive (entry.getD {}).bids ∧ Positive (entry.getD {}).asks := by
    cases entry with
    | none => exact ⟨positive_empty, positive_empty⟩
    | some b => exact h b rfl
  intro b hb
  cases op with
  | applySnapshot bids asks =>
    obtain rfl := Option.some.inj hb
    exact ⟨positive_firstsOf hbids, positive_firstsOf hasks⟩
  | applyBatch bids asks =>
    obtain rfl := Option.some.inj hb
    exact ⟨hentry.1.lastsOn hbids, hentry.2.lastsOn hasks⟩
  | invalidateVenue => exact absurd hb (by simp [BookOp.replay])

/-- The totals an accepted call goes through fit, next to the given venues. -/
def BookCall.Fits (c : BookCall) (venues : VenueId → Option L2OrderBook) : Prop :=
  c.op.bids.Fits greater (others L2OrderBook.bids venues c.venue) ∧
    c.op.asks.Fits less (others L2OrderBook.asks venues c.venue)

namespace AggregateOrderBook

/-- Every size a venue holds is positive. -/
def VenuesPositive (book : AggregateOrderBook) : Prop :=
  ∀ venue entry, book.venues venue = some entry → Positive entry.bids ∧ Positive entry.asks

theorem VenuesPositive.venueBook {book : AggregateOrderBook} (h : book.VenuesPositive)
    (venue : VenueId) :
    Positive (book.venueBook venue).bids ∧ Positive (book.venueBook venue).asks := by
  rw [AggregateOrderBook.venueBook]
  cases hvenue : book.venues venue with
  | none => exact ⟨positive_empty, positive_empty⟩
  | some entry => exact h venue entry hvenue

/-- A call with the default sinks is accepted or changes nothing. -/
theorem call_eq (book : AggregateOrderBook) (c : BookCall) :
    book.call c = if c.op.valid then (.ok (), (book.accepted (fun _ _ s => s) (fun _ _ s => s)
      c () ()).book) else (.error .invalidArgument, book) := by
  rw [call, noopSink_eq_total, callWith_total]
  split <;> rfl

/-- An accepted call leaves its venue the replayed entry. -/
private theorem accepted_venues {σ τ : Type*} (f : Price → Size → σ → σ) (g : Price → Size → τ → τ)
    {book : AggregateOrderBook} (h : book.VenuesPositive) {c : BookCall} (hvalid : c.op.valid)
    (s : σ) (t : τ) :
    (book.accepted f g c s t).book.venues =
      Function.update book.venues c.venue (c.op.replay (book.venues c.venue)) := by
  obtain ⟨hbids, hasks⟩ := BookOp.sides_valid hvalid
  obtain ⟨hbpos, hapos⟩ := h.venueBook c.venue
  have hb : (book.bidRun f c s).venueSide = c.op.bids.replay (book.venueBook c.venue).bids :=
    SideState.run_venueSide hbids hbpos
  have ha : (book.askRun g c t).venueSide = c.op.asks.replay (book.venueBook c.venue).asks :=
    SideState.run_venueSide hasks hapos
  simp only [accepted, hb, ha]
  congr 1
  obtain ⟨venue, op⟩ := c
  cases op <;> rfl

/-- The venues and their books depend on the accepted calls alone. -/
theorem call_venues {book : AggregateOrderBook} (h : book.VenuesPositive) (c : BookCall) :
    (book.call c).2.venues = (if c.op.valid then
      Function.update book.venues c.venue (c.op.replay (book.venues c.venue))
      else book.venues) := by
  rw [call_eq]
  split
  · exact accepted_venues _ _ h ‹_› _ _
  · rfl

/-- A call keeps every venue's sizes positive. -/
theorem VenuesPositive.call {book : AggregateOrderBook} (h : book.VenuesPositive) (c : BookCall) :
    (book.call c).2.VenuesPositive := by
  intro venue entry hentry
  rw [call_venues h] at hentry
  split at hentry
  · rename_i hvalid
    by_cases hvenue : venue = c.venue
    · subst hvenue
      rw [Function.update_self] at hentry
      exact BookOp.replay_positive hvalid (h c.venue) entry hentry
    · rw [Function.update_of_ne hvenue] at hentry
      exact h venue entry hentry
  · exact h venue entry hentry

/-- Both sides of the aggregate are the sums of the venues' sides. -/
def Summed (book : AggregateOrderBook) : Prop :=
  Consistent L2OrderBook.bids book.aggregate.bids book.venues ∧
    Consistent L2OrderBook.asks book.aggregate.asks book.venues

theorem Summed.venuesPositive {book : AggregateOrderBook} (h : book.Summed) :
    book.VenuesPositive := fun venue entry hentry =>
  ⟨h.1.venue_positive venue entry hentry, h.2.venue_positive venue entry hentry⟩

/-- The aggregate of a consistent book is determined by its venues. -/
theorem Summed.ext {book book' : AggregateOrderBook} (h : book.Summed) (h' : book'.Summed)
    (hvenues : book.venues = book'.venues) : book = book' := by
  obtain ⟨hbids, hasks⟩ := h
  obtain ⟨hbids', hasks'⟩ := h'
  rw [← hvenues] at hbids' hasks'
  exact AggregateOrderBook.ext hvenues (L2OrderBook.ext (hasks.ext hasks') (hbids.ext hbids'))

/-- **Step lemma.** A call whose totals fit keeps the aggregate the sum of the venues. -/
theorem Summed.call {book : AggregateOrderBook} (h : book.Summed) {c : BookCall}
    (hfits : c.op.valid → c.Fits book.venues) : (book.call c).2.Summed := by
  rw [call_eq]
  split
  · rename_i hvalid
    obtain ⟨hbids, hasks⟩ := BookOp.sides_valid hvalid
    refine ⟨h.1.run rfl hbids (hfits hvalid).1 ?_, h.2.run rfl hasks (hfits hvalid).2 ?_⟩
    all_goals
      have hpositive := h.venuesPositive
      obtain ⟨venue, op⟩ := c
      cases op with
      | applySnapshot bids asks => rfl
      | applyBatch bids asks => rfl
      | invalidateVenue => ?_
    · exact SideState.run_venueSide hbids (hpositive.venueBook venue).1
    · exact SideState.run_venueSide hasks (hpositive.venueBook venue).2
  · exact h

end AggregateOrderBook

/-- No total of the run leaves the `int64_t` range. -/
def TotalsFit (calls : List BookCall) : Prop :=
  ∀ pre c, pre ++ [c] <+: calls → c.op.valid → c.Fits fun venue => replay venue pre

theorem totalsFit_nil : TotalsFit [] := by
  intro pre c hpre
  simp at hpre

theorem totalsFit_concat {calls : List BookCall} {c : BookCall} :
    TotalsFit (calls ++ [c]) ↔
      TotalsFit calls ∧ (c.op.valid → c.Fits fun venue => replay venue calls) :=
  forall_step_concat_iff

/-- The venue has had an accepted snapshot or batch since its last invalidation. -/
def AcceptedSinceInvalidation (venue : VenueId) (calls : List BookCall) : Prop :=
  ∃ pre c post, calls = pre ++ c :: post ∧ c.venue = venue ∧ c.op.valid ∧
    c.op ≠ .invalidateVenue ∧ ∀ d ∈ post, d.venue = venue → d.op ≠ .invalidateVenue

private theorem acceptedSince_concat (venue : VenueId) (calls : List BookCall) (c : BookCall) :
    AcceptedSinceInvalidation venue (calls ++ [c]) ↔
      (c.venue = venue ∧ c.op.valid ∧ c.op ≠ .invalidateVenue) ∨
        (AcceptedSinceInvalidation venue calls ∧
          (c.venue = venue → c.op ≠ .invalidateVenue)) := by
  constructor
  · rintro ⟨pre, d, post, heq, hvenue, hvalid, hop, hpost⟩
    cases post using List.reverseRecOn with
    | nil =>
      obtain ⟨-, hlast⟩ := List.append_inj' heq rfl
      obtain rfl := List.head_eq_of_cons_eq hlast
      exact .inl ⟨hvenue, hvalid, hop⟩
    | append_singleton post last =>
      rw [← List.cons_append, ← List.append_assoc] at heq
      obtain ⟨hcalls, hlast⟩ := List.append_inj' heq rfl
      obtain rfl := List.head_eq_of_cons_eq hlast
      refine .inr ⟨⟨pre, d, post, hcalls, hvenue, hvalid, hop, fun e he => ?_⟩, ?_⟩
      · exact hpost e (List.mem_append_left _ he)
      · exact hpost c (List.mem_append_right _ (List.mem_singleton.mpr rfl))
  · rintro (⟨hvenue, hvalid, hop⟩ | ⟨⟨pre, d, post, rfl, hvenue, hvalid, hop, hpost⟩, hc⟩)
    · exact ⟨calls, c, [], rfl, hvenue, hvalid, hop, by simp⟩
    · refine ⟨pre, d, post ++ [c], by simp, hvenue, hvalid, hop, fun e he => ?_⟩
      rcases List.mem_append.mp he with he | he
      · exact hpost e he
      · obtain rfl := List.mem_singleton.mp he
        exact hc

/-- A replayed entry exists exactly since an accepted snapshot or batch. -/
private theorem replay_isSome_iff (venue : VenueId) (calls : List BookCall) :
    (replay venue calls).isSome ↔ AcceptedSinceInvalidation venue calls := by
  induction calls using List.reverseRecOn with
  | nil => simp [replay, ownCalls, AcceptedSinceInvalidation]
  | append_singleton calls c ih =>
    rw [acceptedSince_concat, replay_concat, ← ih]
    obtain ⟨cvenue, op⟩ := c
    by_cases hvenue : cvenue = venue
    · cases op with
      | applySnapshot bids asks =>
        by_cases hvalid : (BookOp.applySnapshot bids asks).valid = true <;>
          simp [hvenue, hvalid, BookOp.replay]
      | applyBatch bids asks =>
        by_cases hvalid : (BookOp.applyBatch bids asks).valid = true <;>
          simp [hvenue, hvalid, BookOp.replay]
      | invalidateVenue => simp [hvenue, BookOp.valid, BookOp.replay]
    · simp [hvenue]

/-- After any run the venues are the replayed ones, and every size they hold is positive. -/
theorem run_venues (calls : List BookCall) :
    (bookMachine.state {} calls).VenuesPositive ∧
      ∀ venue, (bookMachine.state {} calls).venues venue = replay venue calls := by
  refine Machine.run_induction (M := bookMachine) (s := {})
    (motive := fun es _ book => book.VenuesPositive ∧ ∀ v, book.venues v = replay v es) ?_ ?_ calls
  · exact ⟨by intro v b hv; simp at hv, fun v => rfl⟩
  · rintro es out book c ⟨hpositive, hreplay⟩
    refine ⟨hpositive.call c, fun venue => ?_⟩
    have hvenues : (bookMachine.step book c).1.venues = _ :=
      AggregateOrderBook.call_venues hpositive c
    rw [hvenues, replay_concat, ← hreplay]
    by_cases hvalid : c.op.valid = true
    · rw [if_pos hvalid]
      by_cases hvenue : c.venue = venue
      · rw [if_pos ⟨hvenue, hvalid⟩, ← hvenue, Function.update_self]
      · rw [if_neg fun h => hvenue h.1, Function.update_of_ne (Ne.symm hvenue)]
    · rw [if_neg hvalid, if_neg fun h => hvalid h.2]

/-- After a run whose totals fit the aggregate is the sum of the venues. -/
theorem run_summed {calls : List BookCall} (hfit : TotalsFit calls) :
    (bookMachine.state {} calls).Summed := by
  induction calls using List.reverseRecOn with
  | nil =>
    have hsum : (0 : ℤ) = ∑ _v : VenueId, 0 := by simp
    refine ⟨⟨by intro v b hv; simp at hv, positive_empty, fun p => ?_⟩,
      ⟨by intro v b hv; simp at hv, positive_empty, fun p => ?_⟩⟩
    all_goals exact (sizeAt_empty p).trans hsum
  | append_singleton calls c ih =>
    obtain ⟨hcalls, hc⟩ := totalsFit_concat.mp hfit
    rw [Machine.state_concat]
    refine (ih hcalls).call fun hvalid => ?_
    rw [funext (run_venues calls).2]
    exact hc hvalid

/-- Runs that agree on every venue's own accepted calls leave the same book. -/
private theorem state_eq_of_ownCalls_eq {calls calls' : List BookCall} (hfit : TotalsFit calls)
    (hfit' : TotalsFit calls') (h : ∀ venue, ownCalls venue calls = ownCalls venue calls') :
    bookMachine.state {} calls = bookMachine.state {} calls' := by
  have hvenues : (bookMachine.state {} calls).venues = (bookMachine.state {} calls').venues := by
    funext venue
    rw [(run_venues calls).2, (run_venues calls').2, replay, replay, h]
  exact (run_summed hfit).ext (run_summed hfit') hvenues

private theorem ownCalls_swap {c d : BookCall} (h : c.venue ≠ d.venue) (calls : List BookCall)
    (venue : VenueId) : ownCalls venue (calls ++ [c, d]) = ownCalls venue (calls ++ [d, c]) := by
  simp only [ownCalls, List.filter_append, List.map_append]
  congr 1
  by_cases hc : c.venue = venue
  · have hd : d.venue ≠ venue := fun hd => h (hc.trans hd.symm)
    simp [List.filter_cons, hd]
  · simp [List.filter_cons, hc]

/-- What an aggregate book should be after the given calls. -/
structure SumOfVenues (calls : List BookCall) (book : AggregateOrderBook) : Prop where
  /-- The venues present are those with an accepted snapshot or batch since their last
  invalidation. -/
  present : ∀ venue, (book.venues venue).isSome ↔ AcceptedSinceInvalidation venue calls
  /-- Each venue's book is what its own accepted calls leave on plain maps. -/
  replayed : ∀ venue, book.venues venue = replay venue calls
  /-- A call with an invalid level on either side is a complete no-op. -/
  rejected : ∀ c : BookCall, c.op.valid = false →
    bookMachine.step book c = (book, [.error .invalidArgument])
  venues_positive : book.VenuesPositive
  bids_positive : Positive book.aggregate.bids
  asks_positive : Positive book.aggregate.asks
  /-- The bids hold exactly the prices some venue bids at. -/
  mem_bids : ∀ p, p ∈ book.aggregate.bids ↔
    ∃ venue entry, book.venues venue = some entry ∧ p ∈ entry.bids
  /-- The asks hold exactly the prices some venue asks at. -/
  mem_asks : ∀ p, p ∈ book.aggregate.asks ↔
    ∃ venue entry, book.venues venue = some entry ∧ p ∈ entry.asks
  bids_sum : ∀ p, sizeAt book.aggregate.bids p =
    ∑ venue, contribution L2OrderBook.bids book.venues p venue
  asks_sum : ∀ p, sizeAt book.aggregate.asks p =
    ∑ venue, contribution L2OrderBook.asks book.venues p venue
  /-- Calls of different venues commute. -/
  commute : ∀ c d : BookCall, c.venue ≠ d.venue → TotalsFit (calls ++ [c, d]) →
    TotalsFit (calls ++ [d, c]) →
    bookMachine.state {} (calls ++ [c, d]) = bookMachine.state {} (calls ++ [d, c])

/-- **The aggregate book is the sum of its venues**, after any calls, by any venues in any
order, whose totals fit. -/
theorem aggregate_is_sum_of_venues (calls : List BookCall) (hfit : TotalsFit calls) :
    SumOfVenues calls (bookMachine.state {} calls) := by
  obtain ⟨hpositive, hreplay⟩ := run_venues calls
  obtain ⟨hbids, hasks⟩ := run_summed hfit
  exact
    { present := fun venue => by rw [hreplay, replay_isSome_iff]
      replayed := hreplay
      rejected := fun c hc => by simp [bookMachine, AggregateOrderBook.call_eq, hc]
      venues_positive := hpositive
      bids_positive := hbids.aggregate_positive
      asks_positive := hasks.aggregate_positive
      mem_bids := hbids.mem_iff
      mem_asks := hasks.mem_iff
      bids_sum := hbids.sum
      asks_sum := hasks.sum
      commute := fun c d hne hcd hdc =>
        state_eq_of_ownCalls_eq hcd hdc (ownCalls_swap hne calls) }

/-! ### Sizes that cannot overflow -/

/-- The levels a call names, on either side. -/
def BookOp.levels : BookOp → List Level
  | applySnapshot bids asks => bids ++ asks
  | applyBatch bids asks => bids ++ asks
  | invalidateVenue => []

section Bound

variable {cmp : Price → Price → Ordering} [SideOrder cmp] {bound : ℤ}

private theorem sizeAt_lastsOn_le {side : SideMap cmp} (hside : ∀ p, sizeAt side p ≤ bound)
    {levels : List Level} (h : ∀ l ∈ levels, l.2.val ≤ bound) (p : Price) :
    sizeAt (lastsOn side levels) p ≤ bound := by
  induction levels generalizing side with
  | nil => exact hside p
  | cons level levels ih =>
    obtain ⟨hlevel, hlevels⟩ := List.forall_mem_cons.mp h
    refine ih (fun q => ?_) hlevels
    rw [sizeAt_setPlain]
    split
    · exact hlevel
    · exact hside q

private theorem sizeAt_firstsOf_le (hbound : 0 ≤ bound) {levels : List Level}
    (h : ∀ l ∈ levels, l.2.val ≤ bound) (p : Price) :
    sizeAt (firstsOf levels : SideMap cmp) p ≤ bound := by
  induction levels with
  | nil => exact (sizeAt_empty p).trans_le hbound
  | cons level levels ih =>
    obtain ⟨hlevel, hlevels⟩ := List.forall_mem_cons.mp h
    rw [firstsOf, List.foldr_cons, sizeAt_setPlain]
    split
    · exact hlevel
    · exact ih hlevels

end Bound

/-- Every size of a replayed entry is one that some call has named. -/
private theorem sizeAt_replay_le {bound : ℤ} (hbound : 0 ≤ bound) {calls : List BookCall}
    (h : ∀ c ∈ calls, ∀ l ∈ c.op.levels, l.2.val ≤ bound) (venue : VenueId) (p : Price) :
    sizeAt ((replay venue calls).getD {}).bids p ≤ bound ∧
      sizeAt ((replay venue calls).getD {}).asks p ≤ bound := by
  induction calls using List.reverseRecOn generalizing p with
  | nil => exact ⟨(sizeAt_empty p).trans_le hbound, (sizeAt_empty p).trans_le hbound⟩
  | append_singleton calls c ih =>
    obtain ⟨hcalls, hc⟩ := List.forall_mem_append.mp h
    have ih := fun q => ih hcalls q
    rw [replay_concat]
    split
    · have hlevels := hc c (List.mem_singleton.mpr rfl)
      obtain ⟨cvenue, op⟩ := c
      cases op with
      | applySnapshot bids asks =>
        obtain ⟨hbids, hasks⟩ := List.forall_mem_append.mp hlevels
        exact ⟨sizeAt_firstsOf_le hbound hbids p, sizeAt_firstsOf_le hbound hasks p⟩
      | applyBatch bids asks =>
        obtain ⟨hbids, hasks⟩ := List.forall_mem_append.mp hlevels
        exact ⟨sizeAt_lastsOn_le (fun q => (ih q).1) hbids p,
          sizeAt_lastsOn_le (fun q => (ih q).2) hasks p⟩
      | invalidateVenue =>
        exact ⟨(sizeAt_empty p).trans_le hbound, (sizeAt_empty p).trans_le hbound⟩
    · exact ih p

/-- The other venues hold at most the bound each. -/
theorem others_le {cmp : Price → Price → Ordering} [SideOrder cmp]
    (side : L2OrderBook → SideMap cmp) (hempty : side {} = ∅)
    {venues : VenueId → Option L2OrderBook} {bound : ℤ}
    (h : ∀ venue p, sizeAt (side ((venues venue).getD {})) p ≤ bound) (venue : VenueId)
    (p : Price) : others side venues venue p ≤ (Fintype.card VenueId - 1) * bound := by
  have hle : ∀ v ∈ univ.erase venue, contribution side venues p v ≤ bound := by
    intro v _
    have hv := h v p
    rw [contribution]
    cases hentry : venues v with
    | none => simpa [hentry, hempty] using hv
    | some book => simpa [hentry] using hv
  have hsum := sum_le_card_nsmul _ _ _ hle
  rw [card_erase_of_mem (mem_univ venue), card_univ, nsmul_eq_mul] at hsum
  refine hsum.trans_eq ?_
  rw [Nat.cast_sub (Fintype.card_pos_iff.mpr ⟨venue⟩), Nat.cast_one]

/-- A call fits when every size, the call's own and the venues', is at most an equal share of
the range among the venues. -/
theorem BookCall.fits_of_le {bound : ℤ} (hbound : 0 ≤ bound)
    (hshare : Fintype.card VenueId * bound ≤ int64Max) {c : BookCall}
    {venues : VenueId → Option L2OrderBook} (hlevels : ∀ l ∈ c.op.levels, l.2.val ≤ bound)
    (h : ∀ venue p, sizeAt ((venues venue).getD {}).bids p ≤ bound ∧
      sizeAt ((venues venue).getD {}).asks p ≤ bound) : c.Fits venues := by
  have hadd : bound + (Fintype.card VenueId - 1) * bound = Fintype.card VenueId * bound := by ring
  have hbids := others_le L2OrderBook.bids rfl (fun v p => (h v p).1) c.venue
  have hasks := others_le L2OrderBook.asks rfl (fun v p => (h v p).2) c.venue
  obtain ⟨venue, op⟩ := c
  cases op with
  | applySnapshot bids asks =>
    obtain ⟨hbidLevels, haskLevels⟩ := List.forall_mem_append.mp hlevels
    refine ⟨fun p => ?_, fun p => ?_⟩
    · have hfirst : sizeAt (firstsOf bids : SideMap greater) p ≤ bound :=
        sizeAt_firstsOf_le hbound hbidLevels p
      linarith [hbids p]
    · have hfirst : sizeAt (firstsOf asks : SideMap less) p ≤ bound :=
        sizeAt_firstsOf_le hbound haskLevels p
      linarith [hasks p]
  | applyBatch bids asks =>
    obtain ⟨hbidLevels, haskLevels⟩ := List.forall_mem_append.mp hlevels
    refine ⟨fun l hl => ?_, fun l hl => ?_⟩
    · linarith [hbidLevels l hl, hbids l.1]
    · linarith [haskLevels l hl, hasks l.1]
  | invalidateVenue => exact ⟨trivial, trivial⟩

/-- **No total overflows** while every size is at most an equal share of the range among the
venues. -/
theorem totalsFit_of_le (bound : ℤ) (hbound : 0 ≤ bound)
    (hshare : Fintype.card VenueId * bound ≤ int64Max) {calls : List BookCall}
    (h : ∀ c ∈ calls, ∀ l ∈ c.op.levels, l.2.val ≤ bound) : TotalsFit calls := by
  intro pre c hpre _
  have hpreCalls : ∀ d ∈ pre, ∀ l ∈ d.op.levels, l.2.val ≤ bound := fun d hd =>
    h d (hpre.subset (List.mem_append_left _ hd))
  have hlevels := h c (hpre.subset (List.mem_append_right _ (List.mem_singleton.mpr rfl)))
  exact BookCall.fits_of_le hbound hshare hlevels (sizeAt_replay_le hbound hpreCalls)

/-- A snapshot, a batch of another venue at the same price and an invalidation. -/
def sampleCalls : List BookCall :=
  [⟨⟨.binance, .spot⟩, .applySnapshot [(⟨100⟩, ⟨5⟩)] []⟩,
    ⟨⟨.okx, .spot⟩, .applyBatch [(⟨100⟩, ⟨7⟩), (⟨100⟩, ⟨3⟩)] [(⟨101⟩, ⟨0⟩)]⟩,
    ⟨⟨.binance, .spot⟩, .invalidateVenue⟩]

theorem aggregate_is_sum_of_venues_sample :
    TotalsFit sampleCalls ∧ SumOfVenues sampleCalls (bookMachine.state {} sampleCalls) := by
  have hfit : TotalsFit sampleCalls := totalsFit_of_le 10 (by decide) (by decide) (by decide)
  exact ⟨hfit, aggregate_is_sum_of_venues sampleCalls hfit⟩

end Hermeneutic
