import Mathlib.Data.List.Basic
import Mathlib.Logic.Function.Basic
import Hermeneutic.Book.L2OrderBook
import Hermeneutic.Symbol.Symbol

/-!
# The aggregate order book

`AggregateOrderBook` keeps one `L2OrderBook` per venue and one aggregate over all of them
(`book/aggregate_order_book.hpp`). The aggregate is never rebuilt: every change of a venue's
level is folded into it as a delta, on three paths, a single level (`applyLevel`), the
resync of a whole side (`resyncSide`) and the removal of a venue (`invalidateVenue`).

Every mutating operation reports the prices whose aggregate size it changed to a `Sink`.
A sink may throw `std::bad_alloc`, which stops the operation where it stands, so the
per-level functions return in `Except` over the state of the side: `.error st` is a throw
that leaves `st` behind.

A sink that never throws is a pure accumulator (`Sink.total`). The second half of this
module shows that under one every operation, on either side, amounts to applying one list
of levels in order with `SideState.put` (`resyncSide_total`, `applyLevels_total`,
`removeSide_eq_foldl`), and what one `put` does to the two sides.

A loop over a map that it changes walks the levels the map held at its start (`Lists`), and stays
right because a step touches no price but the one it stands at. Narrowing wraps, as in a build
without assertions, wherever the source only asserts a range; the modules that follow state for
themselves which totals must fit.
-/

namespace Hermeneutic

/-- A callable told `(price, newAggregateSize)`; `none` is a thrown `std::bad_alloc`. -/
abbrev Sink (σ : Type*) := Price → Size → σ → Option σ

/-- The default sink, which ignores every report. -/
def noopSink : Sink Unit := fun _ _ seen => some seen

/-- The sink that accumulates with `f` and never throws. -/
def Sink.total {σ : Type*} (f : Price → Size → σ → σ) : Sink σ :=
  fun price size seen => some (f price size seen)

theorem noopSink_eq_total : noopSink = Sink.total fun _ _ seen => seen := rfl

section Side

variable {cmp : Price → Price → Ordering} [SideOrder cmp]

/-- Sets `price` to `newSize`, erasing it when `newSize <= 0`, and returns the size that was
there before. -/
def setLevel (side : SideMap cmp) (price : Price) (newSize : Size) : SideMap cmp × Size :=
  let oldSize := side[price]?.getD 0
  if newSize ≤ 0 then (side.erase price, oldSize) else (side.insert price newSize, oldSize)

/-- Folds `delta` into `price`, erasing it when the result is `<= 0`. Returns `none` when
`delta` is zero, and otherwise the resulting size, `0` for a removal. -/
def adjustAggregate (aggregateSide : SideMap cmp) (price : Price) (delta : Size) :
    SideMap cmp × Option Size :=
  if delta = 0 then (aggregateSide, none)
  else
    let updated := aggregateSide[price]?.getD 0 + delta
    if updated ≤ 0 then (aggregateSide.erase price, some 0)
    else (aggregateSide.insert price updated, some updated)

variable {σ : Type*}

/-- What an operation on one side works on: a venue's side, the aggregate's, and what the
sink has accumulated. -/
structure SideState (cmp : Price → Price → Ordering) [SideOrder cmp] (σ : Type*) where
  venueSide : SideMap cmp
  aggregateSide : SideMap cmp
  seen : σ

/-- Tells the sink a result of `adjustAggregate`, if there is one. -/
def report (sink : Sink σ) (st : SideState cmp σ) (price : Price) :
    Option Size → Except (SideState cmp σ) (SideState cmp σ)
  | none => .ok st
  | some size =>
    match sink price size st.seen with
    | some seen => .ok { st with seen }
    | none => .error st

/-- Sets one level on the venue's side and folds the difference into the aggregate's. -/
def applyLevel (sink : Sink σ) (st : SideState cmp σ) (level : Level) :
    Except (SideState cmp σ) (SideState cmp σ) :=
  let (venueSide, oldSize) := setLevel st.venueSide level.1 level.2
  let (aggregateSide, result) := adjustAggregate st.aggregateSide level.1 (level.2 - oldSize)
  report sink { st with venueSide, aggregateSide } level.1 result

/-- Removes one level the venue holds: the aggregate first, then the sink, and only then
the venue's own side. -/
def removeLevel (sink : Sink σ) (st : SideState cmp σ) (level : Level) :
    Except (SideState cmp σ) (SideState cmp σ) :=
  let (aggregateSide, result) := adjustAggregate st.aggregateSide level.1 (0 - level.2)
  (report sink { st with aggregateSide } level.1 result).map fun st =>
    { st with venueSide := st.venueSide.erase level.1 }

/-- The range constructor of `std::map`: of a repeated price the first level is kept. -/
def ofLevels (levels : List Level) : SideMap cmp :=
  levels.foldl (fun side level => side.insertIfNew level.1 level.2) ∅

/-- Resyncs the venue's side to `levels`: first the prices absent from `levels` are removed,
then every level is applied. -/
def resyncSide (sink : Sink σ) (levels : List Level) (st : SideState cmp σ) :
    Except (SideState cmp σ) (SideState cmp σ) := do
  let newLevels : SideMap cmp := ofLevels levels
  let st ← st.venueSide.toList.foldlM
    (fun st level => if newLevels.contains level.1 then .ok st else removeLevel sink st level) st
  newLevels.toList.foldlM (applyLevel sink) st

/-- The loop of `apply_batch` over one side: the levels in order, repeated prices included. -/
def applyLevels (sink : Sink σ) (levels : List Level) (st : SideState cmp σ) :
    Except (SideState cmp σ) (SideState cmp σ) :=
  levels.foldlM (applyLevel sink) st

/-- The loop of `invalidate_venue` over one side: every level leaves the aggregate, and the
changes are collected for the sink, which is only told afterwards. -/
def removeSide (venueSide aggregateSide : SideMap cmp) : SideMap cmp × List Level :=
  venueSide.toList.foldl
    (fun (aggregateSide, changes) level =>
      let (aggregateSide, result) := adjustAggregate aggregateSide level.1 (0 - level.2)
      (aggregateSide, changes ++ (result.map (Prod.mk level.1)).toList))
    (aggregateSide, [])

/-- Tells the sink a list of changes in order, stopping at the first throw. -/
def reportAll (sink : Sink σ) (changes : List Level) (seen : σ) : Except σ σ :=
  changes.foldlM (fun seen level => ((sink level.1 level.2 seen).elim (.error seen) .ok)) seen

end Side

/-- Per-venue books, and the aggregate of all of them. `venues_` is an `unordered_map`; its
iteration order is never relied on, so it is a partial function. -/
@[ext]
structure AggregateOrderBook where
  venues : VenueId → Option L2OrderBook := fun _ => none
  aggregate : L2OrderBook := {}

namespace AggregateOrderBook

variable {σ τ : Type*}

/-- What a mutating call leaves behind: its result, the book, and what either sink has
accumulated. -/
structure Outcome (σ τ : Type*) where
  result : Except Errc Unit
  book : AggregateOrderBook
  bidSeen : σ
  askSeen : τ

/-- `venues_[venue]`: the venue's book, created empty when there is none. -/
def venueBook (book : AggregateOrderBook) (venue : VenueId) : L2OrderBook :=
  (book.venues venue).getD {}

/-- Writes one venue's book and the aggregate back. -/
def store (book : AggregateOrderBook) (venue : VenueId) (bids : SideState greater σ)
    (asks : SideState less τ) : AggregateOrderBook where
  venues := Function.update book.venues venue (some ⟨asks.venueSide, bids.venueSide⟩)
  aggregate := ⟨asks.aggregateSide, bids.aggregateSide⟩

/-- The common body of `apply_snapshot` and `apply_batch`: both sides are validated before
either is touched, then the bids are worked through, then the asks. A throwing sink ends the
call with `not_enough_memory`, and what was done so far stays. -/
def applySides
    (bidStep : SideState greater σ → Except (SideState greater σ) (SideState greater σ))
    (askStep : SideState less τ → Except (SideState less τ) (SideState less τ))
    (book : AggregateOrderBook) (venue : VenueId) (bids asks : List Level) (bidSeen : σ)
    (askSeen : τ) : Outcome σ τ :=
  if !(bids.all isValidLevel && asks.all isValidLevel) then
    ⟨.error .invalidArgument, book, bidSeen, askSeen⟩
  else
    let venueBook := book.venueBook venue
    let askStart : SideState less τ := ⟨venueBook.asks, book.aggregate.asks, askSeen⟩
    match bidStep ⟨venueBook.bids, book.aggregate.bids, bidSeen⟩ with
    | .error st => ⟨.error .notEnoughMemory, book.store venue st askStart, st.seen, askSeen⟩
    | .ok st =>
      match askStep askStart with
      | .error st' => ⟨.error .notEnoughMemory, book.store venue st st', st.seen, st'.seen⟩
      | .ok st' => ⟨.ok (), book.store venue st st', st.seen, st'.seen⟩

/-- Replaces the venue's entire book wholesale. -/
def applySnapshot (bidSink : Sink σ) (askSink : Sink τ) (book : AggregateOrderBook)
    (venue : VenueId) (bids asks : List Level) (bidSeen : σ) (askSeen : τ) : Outcome σ τ :=
  applySides (resyncSide bidSink bids) (resyncSide askSink asks) book venue bids asks bidSeen
    askSeen

/-- Applies one batch of delta changes. -/
def applyBatch (bidSink : Sink σ) (askSink : Sink τ) (book : AggregateOrderBook)
    (venue : VenueId) (bids asks : List Level) (bidSeen : σ) (askSeen : τ) : Outcome σ τ :=
  applySides (applyLevels bidSink bids) (applyLevels askSink asks) book venue bids asks bidSeen
    askSeen

/-- Removes every level the venue contributed and drops its book. The sinks are told only
after the book is complete, so a throw, which propagates to the caller (recorded here as
`notEnoughMemory`), costs the later reports and nothing else. -/
def invalidateVenue (bidSink : Sink σ) (askSink : Sink τ) (book : AggregateOrderBook)
    (venue : VenueId) (bidSeen : σ) (askSeen : τ) : Outcome σ τ :=
  match book.venues venue with
  | none => ⟨.ok (), book, bidSeen, askSeen⟩
  | some venueBook =>
    let (aggregateBids, bidChanges) := removeSide venueBook.bids book.aggregate.bids
    let (aggregateAsks, askChanges) := removeSide venueBook.asks book.aggregate.asks
    let book : AggregateOrderBook :=
      ⟨Function.update book.venues venue none, ⟨aggregateAsks, aggregateBids⟩⟩
    match reportAll bidSink bidChanges bidSeen with
    | .error bidSeen => ⟨.error .notEnoughMemory, book, bidSeen, askSeen⟩
    | .ok bidSeen =>
      match reportAll askSink askChanges askSeen with
      | .error askSeen => ⟨.error .notEnoughMemory, book, bidSeen, askSeen⟩
      | .ok askSeen => ⟨.ok (), book, bidSeen, askSeen⟩

end AggregateOrderBook

/-! ### Sinks that never throw -/

section Total

variable {cmp : Price → Price → Ordering} [SideOrder cmp] {σ : Type*} (f : Price → Size → σ → σ)

/-- `applyLevel` under a sink that never throws. -/
def SideState.put (st : SideState cmp σ) (level : Level) : SideState cmp σ :=
  let (venueSide, oldSize) := setLevel st.venueSide level.1 level.2
  let (aggregateSide, result) := adjustAggregate st.aggregateSide level.1 (level.2 - oldSize)
  ⟨venueSide, aggregateSide, result.elim st.seen fun size => f level.1 size st.seen⟩

private theorem applyLevel_total (st : SideState cmp σ) (level : Level) :
    applyLevel (Sink.total f) st level = .ok (st.put f level) := by
  simp only [applyLevel, SideState.put]
  cases (adjustAggregate st.aggregateSide level.1
    (level.2 - (setLevel st.venueSide level.1 level.2).2)).2 <;> rfl

/-- Removing a level the venue holds is setting its size to zero. -/
private theorem removeLevel_total {st : SideState cmp σ} {level : Level}
    (h : st.venueSide[level.1]? = some level.2) :
    removeLevel (Sink.total f) st level = .ok (st.put f (level.1, 0)) := by
  simp only [removeLevel, SideState.put, setLevel, le_refl, if_true, h, Option.getD_some]
  cases (adjustAggregate st.aggregateSide level.1 (0 - level.2)).2 <;> rfl

/-- A loop of steps that cannot throw is a fold. -/
private theorem foldlM_ok {α β ε : Type*} {step : β → α → Except ε β} {g : β → α → β}
    (h : ∀ b a, step b a = .ok (g b a)) (l : List α) (b : β) :
    l.foldlM step b = .ok (l.foldl g b) := by
  induction l generalizing b with
  | nil => rfl
  | cons a l ih =>
    rw [List.foldlM_cons, h]
    exact ih (g b a)

theorem applyLevels_total (levels : List Level) (st : SideState cmp σ) :
    applyLevels (Sink.total f) levels st = .ok (levels.foldl (SideState.put f) st) :=
  foldlM_ok (applyLevel_total f) levels st

/-- A level other than the one put is untouched on the venue's side. -/
private theorem SideState.put_venueSide_of_ne {st : SideState cmp σ} {level : Level} {p : Price}
    (h : level.1 ≠ p) : (st.put f level).venueSide[p]? = st.venueSide[p]? := by
  have hcmp : ¬ cmp level.1 p = .eq := fun heq => h (Std.LawfulEqCmp.eq_of_compare heq)
  simp only [SideState.put, setLevel]
  split
  · rw [Std.ExtTreeMap.getElem?_erase, if_neg hcmp]
  · rw [Std.ExtTreeMap.getElem?_insert, if_neg hcmp]

/-- The levels listed are held by the side, each price once. -/
def Lists (side : SideMap cmp) (levels : List Level) : Prop :=
  levels.Pairwise (fun l l' => l.1 ≠ l'.1) ∧ ∀ l ∈ levels, side[l.1]? = some l.2

theorem lists_toList (side : SideMap cmp) : Lists side side.toList := by
  constructor
  · refine side.distinct_keys_toList.imp fun h heq => h ?_
    exact Std.LawfulEqCmp.compare_eq_iff_eq.mpr heq
  · intro l hl
    exact Std.ExtTreeMap.mem_toList_iff_getElem?_eq_some.mp hl

theorem Lists.tail {side : SideMap cmp} {level : Level} {levels : List Level}
    (h : Lists side (level :: levels)) : Lists side levels :=
  ⟨(List.pairwise_cons.mp h.1).2, fun l hl => h.2 l (List.mem_cons_of_mem _ hl)⟩

/-- Putting the first of the listed levels leaves the others held. -/
theorem Lists.put {st : SideState cmp σ} {level : Level} {levels : List Level}
    (h : Lists st.venueSide (level :: levels)) (size : Size) :
    Lists (st.put f (level.1, size)).venueSide levels := by
  refine ⟨h.tail.1, fun l hl => ?_⟩
  have hne : (level.1, size).1 ≠ l.1 := (List.pairwise_cons.mp h.1).1 l hl
  rw [SideState.put_venueSide_of_ne f hne]
  exact h.tail.2 l hl

/-- The levels a resync applies, in order: zero for every price that goes, then the new
levels. -/
def resyncLevels (venueSide : SideMap cmp) (levels : List Level) : List Level :=
  ((venueSide.toList.filter fun l => !(ofLevels levels : SideMap cmp).contains l.1).map
    fun l => (l.1, 0)) ++ (ofLevels levels : SideMap cmp).toList

/-- The removal loop of a resync sets the prices that go to zero. -/
private theorem removal_total (new : SideMap cmp) {held : List Level} {st : SideState cmp σ}
    (h : Lists st.venueSide held) :
    held.foldlM (fun st level =>
        if new.contains level.1 then .ok st else removeLevel (Sink.total f) st level) st =
      .ok (((held.filter fun l => !new.contains l.1).map fun l => (l.1, 0)).foldl
        (SideState.put f) st) := by
  induction held generalizing st with
  | nil => rfl
  | cons level held ih =>
    rw [List.foldlM_cons]
    by_cases hnew : new.contains level.1 = true
    · simp only [hnew, if_true]
      exact (ih h.tail).trans (by simp [hnew])
    · simp only [hnew, Bool.false_eq_true, if_false,
        removeLevel_total f (h.2 level List.mem_cons_self)]
      exact (ih (h.put f 0)).trans (by simp [hnew])

/-- **A resync is a list of levels applied in order.** -/
theorem resyncSide_total (levels : List Level) (st : SideState cmp σ) :
    resyncSide (Sink.total f) levels st =
      .ok ((resyncLevels st.venueSide levels).foldl (SideState.put f) st) := by
  rw [resyncSide, removal_total f _ (lists_toList st.venueSide), resyncLevels, List.foldl_append]
  exact foldlM_ok (applyLevel_total f) _ _

/-- Telling a sink that never throws. -/
private theorem reportAll_total (changes : List Level) (seen : σ) :
    reportAll (Sink.total f) changes seen =
      .ok (changes.foldl (fun seen level => f level.1 level.2 seen) seen) :=
  foldlM_ok (fun _ _ => rfl) changes seen

/-- The zeroes an invalidation applies. -/
def removalLevels (venueSide : SideMap cmp) : List Level :=
  venueSide.toList.map fun l => (l.1, 0)

private theorem removeSide_aux {held : List Level} {st : SideState cmp σ} (changes : List Level)
    (seen : σ) (h : Lists st.venueSide held)
    (hseen : changes.foldl (fun seen level => f level.1 level.2 seen) seen = st.seen) :
    let r := held.foldl
      (fun (acc : SideMap cmp × List Level) level =>
        ((adjustAggregate acc.1 level.1 (0 - level.2)).1,
          acc.2 ++ ((adjustAggregate acc.1 level.1 (0 - level.2)).2.map
            (Prod.mk level.1)).toList)) (st.aggregateSide, changes)
    let st' := (held.map fun l => (l.1, (0 : Size))).foldl (SideState.put f) st
    r.1 = st'.aggregateSide ∧
      r.2.foldl (fun seen level => f level.1 level.2 seen) seen = st'.seen := by
  induction held generalizing st changes with
  | nil => exact ⟨rfl, hseen⟩
  | cons level held ih =>
    have hheld : st.venueSide[level.1]? = some level.2 := h.2 level List.mem_cons_self
    have hput := ih (changes ++ ((adjustAggregate st.aggregateSide level.1 (0 - level.2)).2.map
      (Prod.mk level.1)).toList) (h.put f 0)
    simp only [SideState.put, setLevel, le_refl, if_true, hheld, Option.getD_some] at hput
    simp only [List.foldl_cons, List.map_cons, SideState.put, setLevel, le_refl, if_true, hheld,
      Option.getD_some]
    refine hput ?_
    rw [List.foldl_append, hseen]
    cases (adjustAggregate st.aggregateSide level.1 (0 - level.2)).2 <;> rfl

/-- **An invalidation applies zeroes**, and what it tells the sink afterwards is what applying
them would have told it on the way. -/
theorem removeSide_eq_foldl (st : SideState cmp σ) :
    (removeSide st.venueSide st.aggregateSide).1 =
        ((removalLevels st.venueSide).foldl (SideState.put f) st).aggregateSide ∧
      reportAll (Sink.total f) (removeSide st.venueSide st.aggregateSide).2 st.seen =
        .ok ((removalLevels st.venueSide).foldl (SideState.put f) st).seen := by
  have h := removeSide_aux f [] st.seen (lists_toList st.venueSide) rfl
  exact ⟨h.1, (reportAll_total f _ _).trans (congrArg Except.ok h.2)⟩

/-- What one `put` does to the aggregate and the sink: nothing, or one report of the size
the aggregate now holds at that price, `0` when it holds none. -/
theorem SideState.put_cases (st : SideState cmp σ) (level : Level) :
    ((st.put f level).aggregateSide = st.aggregateSide ∧ (st.put f level).seen = st.seen) ∨
      ((st.put f level).aggregateSide = st.aggregateSide.erase level.1 ∧
        (st.put f level).seen = f level.1 0 st.seen) ∨
      ∃ size : Size, 0 < size ∧
        (st.put f level).aggregateSide = st.aggregateSide.insert level.1 size ∧
        (st.put f level).seen = f level.1 size st.seen := by
  simp only [SideState.put, adjustAggregate]
  split
  · exact .inl ⟨rfl, rfl⟩
  · split
    · exact .inr (.inl ⟨rfl, rfl⟩)
    · rename_i hsize
      exact .inr (.inr ⟨_, lt_of_not_ge hsize, rfl, rfl⟩)

end Total

end Hermeneutic
