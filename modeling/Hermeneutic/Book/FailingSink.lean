import Hermeneutic.Book.AggregateSum

/-!
# Sinks that throw

A sink may throw `std::bad_alloc` on any of its invocations, and what the call did up to
there stays. `applyLevel` has updated the venue's side and the aggregate by then, so a throw
out of it costs reports and later levels only (`SideState.Sums.applyLevels`). The removal
loop of a resync tells the sink between the two updates: a throw out of it leaves the venue
holding a level that the aggregate has already lost (`resyncSide_lost`).

`failing_sink_intact_iff` states the exact condition over whole runs of calls, each with or
without a throw: the book stays the sum of its venues as long as no sink throws while a
snapshot's removals are reported.

A call under a sink that throws is the same loop as without, stopped early, and what it leaves is
read off by `leaves`. Levels are put by an induction that follows the loop, so that only the
levels it gets to (`levelsReached`) have to fit. The removal loop is followed level by level as
well, because the state in the middle of a removal is the one that does not keep the invariant:
`removal_reported` is the case in which no throw falls into it, `removal_lost` the other one.
`Summed.fallibleCall_lost` carries the second to the book, which makes the condition exact. The
totals must fit after every call, as far as the call gets; `fallible_fits_of_le` gives that for
calls whose levels are small enough.
-/

namespace Hermeneutic

/-- What a step leaves behind, whether it returned or threw. -/
def leaves {β : Type*} : Except β β → β
  | .ok b => b
  | .error b => b

/-- A predicate that every step keeps, throwing or not, holds of what the loop leaves. -/
private theorem leaves_foldlM {α β : Type*} {step : β → α → Except β β} {P : β → Prop} {l : List α}
    (hstep : ∀ a ∈ l, ∀ b, P b → P (leaves (step b a))) {b : β} (h : P b) :
    P (leaves (l.foldlM step b)) := by
  induction l generalizing b with
  | nil => exact h
  | cons a l ih =>
    obtain ⟨ha, hl⟩ := List.forall_mem_cons.mp hstep
    have hb := ha b h
    rw [List.foldlM_cons]
    cases hs : step b a with
    | error b' => rwa [hs] at hb
    | ok b' =>
      rw [hs] at hb
      exact ih hl hb

/-- A sink that counts its invocations and throws on the one given, counted from zero. -/
def Sink.throwingAt (k : Option ℕ) : Sink ℕ :=
  fun _ _ n => if k = some n then none else some (n + 1)

/-- The invocations of a sink that never throws, counted. -/
def countCall (_ : Price) (_ : Size) (n : ℕ) : ℕ := n + 1

section Side

variable {cmp : Price → Price → Ordering} [SideOrder cmp] {σ τ : Type*} {others : Price → ℤ}

/-- What the sink has seen is no part of the invariant. -/
theorem SideState.Sums.congr {st : SideState cmp σ} (h : st.Sums others) {st' : SideState cmp τ}
    (hvenue : st'.venueSide = st.venueSide) (haggregate : st'.aggregateSide = st.aggregateSide) :
    st'.Sums others := by
  refine ⟨hvenue ▸ h.venue_positive, haggregate ▸ h.aggregate_positive, fun p => ?_⟩
  rw [hvenue, haggregate]
  exact h.sum p

/-- `applyLevel` is done with both sides before it tells the sink. -/
private theorem leaves_applyLevel (sink : Sink σ) (st : SideState cmp σ) (level : Level) :
    (leaves (applyLevel sink st level)).venueSide =
        (st.put (fun _ _ seen => seen) level).venueSide ∧
      (leaves (applyLevel sink st level)).aggregateSide =
        (st.put (fun _ _ seen => seen) level).aggregateSide := by
  simp only [applyLevel, SideState.put]
  cases hresult : (adjustAggregate st.aggregateSide level.1
    (level.2 - (setLevel st.venueSide level.1 level.2).2)).2 with
  | none => exact ⟨rfl, rfl⟩
  | some size =>
    simp only [report]
    cases sink level.1 size st.seen with
    | none => exact ⟨rfl, rfl⟩
    | some seen => exact ⟨rfl, rfl⟩

/-- The levels that a loop of `applyLevel` gets to: none behind the one whose report throws. -/
def levelsReached (sink : Sink σ) : List Level → SideState cmp σ → List Level
  | [], _ => []
  | level :: levels, st =>
    level :: match applyLevel sink st level with
      | .error _ => []
      | .ok st => levelsReached sink levels st

private theorem mem_of_mem_levelsReached {sink : Sink σ} {levels : List Level}
    {st : SideState cmp σ} {l : Level} (hl : l ∈ levelsReached sink levels st) : l ∈ levels := by
  induction levels generalizing st with
  | nil => exact hl
  | cons level levels ih =>
    rw [levelsReached] at hl
    rcases List.mem_cons.mp hl with rfl | hl
    · exact List.mem_cons_self
    · cases hstep : applyLevel sink st level with
      | error _ =>
        rw [hstep] at hl
        cases hl
      | ok st' =>
        rw [hstep] at hl
        exact List.mem_cons_of_mem _ (ih hl)

/-- **Levels under any sink.** A loop of `applyLevel` keeps the invariant, wherever it ends, if
what it gets to fits. -/
theorem SideState.Sums.applyLevels {st : SideState cmp σ} (h : st.Sums others) (sink : Sink σ)
    (hothers : ∀ p, 0 ≤ others p) {levels : List Level} (hsizes : ∀ l ∈ levels, 0 ≤ l.2.val)
    (hfits : ∀ l ∈ levelsReached sink levels st, l.2.val + others l.1 ≤ int64Max) :
    (leaves (levels.foldlM (applyLevel sink) st)).Sums others := by
  induction levels generalizing st with
  | nil => exact h
  | cons level levels ih =>
    obtain ⟨hsize, hsizes⟩ := List.forall_mem_cons.mp hsizes
    obtain ⟨hvenue, haggregate⟩ := leaves_applyLevel sink st level
    have hput : (leaves (applyLevel sink st level)).Sums others :=
      (h.put hsize (hothers level.1) (hfits level List.mem_cons_self)).congr hvenue haggregate
    rw [levelsReached] at hfits
    rw [List.foldlM_cons]
    cases hstep : applyLevel sink st level with
    | error st' => rwa [hstep] at hput
    | ok st' =>
      rw [hstep] at hput hfits
      exact ih hput hsizes fun l hl => hfits l (List.mem_cons_of_mem _ hl)

/-! ### The removal loop -/

/-- The levels a resync removes. -/
def removedLevels (venueSide : SideMap cmp) (levels : List Level) : List Level :=
  venueSide.toList.filter fun l => !(ofLevels levels : SideMap cmp).contains l.1

/-- Taking a held level out of the aggregate is never silent. -/
theorem SideState.Sums.told {st : SideState cmp σ} (h : st.Sums others) {level : Level}
    (hheld : st.venueSide[level.1]? = some level.2) :
    ∃ size, (adjustAggregate st.aggregateSide level.1 (0 - level.2)).2 = some size := by
  have hpos := h.venue_positive level.1 level.2 hheld
  have hdelta : (0 : Size) - level.2 ≠ 0 := by
    intro hzero
    have hval := congrArg BasicFixedPoint.val hzero
    rw [BasicFixedPoint.val_sub_of_nonneg le_rfl hpos.le, BasicFixedPoint.val_zero] at hval
    omega
  simp only [adjustAggregate, hdelta, if_false]
  split
  · exact ⟨0, rfl⟩
  · exact ⟨_, rfl⟩

/-- Removing a held level throws between the aggregate and the venue's side, or counts one. -/
private theorem removeLevel_throwingAt {st : SideState cmp ℕ} (h : st.Sums others) {level : Level}
    (hheld : st.venueSide[level.1]? = some level.2) (k : Option ℕ) :
    removeLevel (Sink.throwingAt k) st level =
        (if k = some st.seen then
          .error { st with
            aggregateSide := (adjustAggregate st.aggregateSide level.1 (0 - level.2)).1 }
        else .ok (st.put countCall (level.1, 0))) ∧
      (st.put countCall (level.1, 0)).seen = st.seen + 1 := by
  obtain ⟨size, hsize⟩ := h.told hheld
  simp only [removeLevel, SideState.put, setLevel, le_refl, if_true, hheld, Option.getD_some,
    hsize, report, Sink.throwingAt]
  refine ⟨?_, rfl⟩
  by_cases hk : k = some st.seen
  · rw [if_pos hk, if_pos hk]
    rfl
  · rw [if_neg hk, if_neg hk]
    rfl

/-- A throw while a removal is reported breaks the sum at its price. -/
private theorem SideState.Sums.not_of_removed {st : SideState cmp σ} (h : st.Sums others)
    (hothers : ∀ p, 0 ≤ others p) {level : Level}
    (hheld : st.venueSide[level.1]? = some level.2) :
    ¬ SideState.Sums others { st with
      aggregateSide := (adjustAggregate st.aggregateSide level.1 (0 - level.2)).1 } := by
  intro hbroken
  have hsize : sizeAt st.venueSide level.1 = level.2.val := by
    rw [sizeAt, hheld]
    rfl
  have hpos := h.venue_positive level.1 level.2 hheld
  have hdelta : ((0 : Size) - level.2).val = -level.2.val := by
    rw [BasicFixedPoint.val_sub_of_nonneg le_rfl hpos.le, BasicFixedPoint.val_zero, zero_sub]
  have hsum := h.sum level.1
  have hmax := h.others_le level.1
  have hrest := hothers level.1
  have hadjust := (@adjustAggregate_spec _ _ _ h.aggregate_positive level.1 (0 - level.2) (by omega)
    (by omega)).2 level.1
  have hafter := hbroken.sum level.1
  rw [if_pos rfl] at hadjust
  -- the venue still holds the level that the aggregate has lost
  simp only [hadjust, hsize] at hafter
  omega

/-- A removal that is reported keeps the sums. -/
private theorem SideState.Sums.removed {st : SideState cmp ℕ} (h : st.Sums others)
    (hothers : ∀ p, 0 ≤ others p) (p : Price) : (st.put countCall (p, 0)).Sums others :=
  h.put le_rfl (hothers p) ((zero_add (others p)).trans_le (h.others_le p))

/-- The body of the removal loop. -/
def removeAbsent (sink : Sink σ) (new : SideMap cmp) (st : SideState cmp σ) (level : Level) :
    Except (SideState cmp σ) (SideState cmp σ) :=
  if new.contains level.1 then .ok st else removeLevel sink st level

/-- **The removal loop** tells the sink once for every level that goes. It ends with both sides
in step when the throw lies beyond them. -/
private theorem removal_reported (new : SideMap cmp) {held : List Level} {st : SideState cmp ℕ}
    (h : st.Sums others) (hothers : ∀ p, 0 ≤ others p) (hlists : Lists st.venueSide held)
    {throwsAt : Option ℕ}
    (hk : ∀ k ∈ throwsAt, st.seen + (held.filter fun l => !new.contains l.1).length ≤ k) :
    ∃ st', held.foldlM (removeAbsent (Sink.throwingAt throwsAt) new) st = .ok st' ∧
      st'.Sums others := by
  induction held generalizing st with
  | nil => exact ⟨st, rfl, h⟩
  | cons level held ih =>
    simp only [List.foldlM_cons]
    by_cases hnew : new.contains level.1 = true
    · simp only [hnew, Bool.not_true, Bool.false_eq_true, not_false_eq_true,
        List.filter_cons_of_neg] at hk
      simp only [removeAbsent, hnew, if_true]
      exact ih h hlists.tail hk
    · have hheld := hlists.2 level List.mem_cons_self
      obtain ⟨hstep, hseen⟩ := removeLevel_throwingAt h hheld throwsAt
      simp only [hnew, Bool.not_false, List.filter_cons_of_pos, List.length_cons] at hk
      have hbeyond : throwsAt ≠ some st.seen := by
        intro heq
        have := hk _ heq
        omega
      simp only [removeAbsent, hnew, Bool.false_eq_true, if_false, hstep, if_neg hbeyond]
      -- one removal reported, and the rest of the loop goes on from it
      refine ih (h.removed hothers level.1) (hlists.put countCall 0) fun k hthrows => ?_
      have := hk k hthrows
      omega

/-- Otherwise it throws, and a level has gone from the aggregate alone. -/
private theorem removal_lost (new : SideMap cmp) {held : List Level} {st : SideState cmp ℕ}
    (h : st.Sums others) (hothers : ∀ p, 0 ≤ others p) (hlists : Lists st.venueSide held)
    {k : ℕ} (hseenk : st.seen ≤ k)
    (hk : k < st.seen + (held.filter fun l => !new.contains l.1).length) :
    ∃ st', held.foldlM (removeAbsent (Sink.throwingAt (some k)) new) st = .error st' ∧
      ¬ st'.Sums others := by
  induction held generalizing st with
  | nil =>
    rw [List.filter_nil, List.length_nil, add_zero] at hk
    omega
  | cons level held ih =>
    simp only [List.foldlM_cons]
    by_cases hnew : new.contains level.1 = true
    · simp only [hnew, Bool.not_true, Bool.false_eq_true, not_false_eq_true,
        List.filter_cons_of_neg] at hk
      simp only [removeAbsent, hnew, if_true]
      exact ih h hlists.tail hseenk hk
    · have hheld := hlists.2 level List.mem_cons_self
      obtain ⟨hstep, hseen⟩ := removeLevel_throwingAt h hheld (some k)
      simp only [hnew, Bool.not_false, List.filter_cons_of_pos, List.length_cons] at hk
      simp only [removeAbsent, hnew, Bool.false_eq_true, if_false, hstep, Option.some.injEq]
      rcases hseenk.eq_or_lt with heq | hlt
      · -- this is the invocation that throws
        rw [if_pos heq.symm]
        exact ⟨_, rfl, h.not_of_removed hothers hheld⟩
      · rw [if_neg (show ¬ k = st.seen by omega)]
        exact ih (h.removed hothers level.1) (hlists.put countCall 0) (by omega) (by omega)

/-- The removal loop of a resync. -/
def removeLevels (sink : Sink σ) (levels : List Level) (st : SideState cmp σ) :
    Except (SideState cmp σ) (SideState cmp σ) :=
  st.venueSide.toList.foldlM (removeAbsent sink (ofLevels levels)) st

private theorem resyncSide_eq (sink : Sink σ) (levels : List Level) (st : SideState cmp σ) :
    resyncSide sink levels st = removeLevels sink levels st >>=
      fun st => (ofLevels levels : SideMap cmp).toList.foldlM (applyLevel sink) st := rfl

/-- The totals that an operation goes through fit an `int64_t`, as far as it gets under its
sink. -/
def SideOp.FitsUnder (sink : Sink σ) (others : Price → ℤ) (st : SideState cmp σ) : SideOp → Prop
  | resync levels => ∀ st', removeLevels sink levels st = .ok st' →
      ∀ l ∈ levelsReached sink (ofLevels levels : SideMap cmp).toList st',
        l.2.val + others l.1 ≤ int64Max
  | apply levels => ∀ l ∈ levelsReached sink levels st, l.2.val + others l.1 ≤ int64Max
  | remove => True

/-- The operation gets to its end. -/
def SideOp.Returns (sink : Sink σ) (st : SideState cmp σ) : SideOp → Prop
  | resync levels => ∃ st', resyncSide sink levels st = .ok st'
  | apply levels => ∃ st', applyLevels sink levels st = .ok st'
  | remove => True

/-- What fits throughout fits as far as the operation gets. -/
private theorem SideOp.Fits.under {op : SideOp} (hfits : op.Fits cmp others) (sink : Sink σ)
    (st : SideState cmp σ) : op.FitsUnder sink others st := by
  cases op with
  | resync levels =>
    intro st' _ l hl
    have hget := Std.ExtTreeMap.mem_toList_iff_getElem?_eq_some.mp (mem_of_mem_levelsReached hl)
    have hfit := hfits l.1
    rw [← sizeAt_ofLevels, sizeAt, hget] at hfit
    exact hfit
  | apply levels => exact fun l hl => hfits l (mem_of_mem_levelsReached hl)
  | remove => trivial

/-- **A resync under a sink that throws** keeps both sides in step when the throw lies beyond the
reports of the levels that go. -/
theorem SideState.Sums.resyncSide {levels : List Level} (hvalid : (SideOp.resync levels).Valid)
    {st : SideState cmp ℕ} (h : st.Sums others) (hothers : ∀ p, 0 ≤ others p)
    {throwsAt : Option ℕ}
    (hfits : (SideOp.resync levels).FitsUnder (Sink.throwingAt throwsAt) others st)
    (hseen : st.seen = 0)
    (hk : ∀ k ∈ throwsAt, (removedLevels st.venueSide levels).length ≤ k) :
    (leaves (resyncSide (Sink.throwingAt throwsAt) levels st)).Sums others := by
  obtain ⟨st', hloop, hst'⟩ := removal_reported (ofLevels levels) h hothers
    (lists_toList st.venueSide) fun k hthrows => by
      rw [hseen, zero_add]
      exact hk k hthrows
  rw [resyncSide_eq, removeLevels, hloop]
  -- the levels set afterwards are among those the resync puts on the side
  exact hst'.applyLevels _ hothers
    (fun l hl => hvalid.levels st.venueSide l (List.mem_append_right _ hl)) (hfits st' hloop)

/-- And only then. -/
theorem resyncSide_lost {levels : List Level} {st : SideState cmp ℕ} (h : st.Sums others)
    (hothers : ∀ p, 0 ≤ others p) (hseen : st.seen = 0) {k : ℕ}
    (hk : k < (removedLevels st.venueSide levels).length) :
    ∃ st', resyncSide (Sink.throwingAt (some k)) levels st = .error st' ∧ ¬ st'.Sums others := by
  obtain ⟨st', hloop, hst'⟩ := removal_lost (ofLevels levels) h hothers
    (lists_toList st.venueSide) (hseen ▸ k.zero_le) (by rw [hseen, zero_add]; exact hk)
  exact ⟨st', by rw [resyncSide_eq, removeLevels, hloop]; rfl, hst'⟩

end Side

/-! ### Calls under sinks that throw -/

/-- Where the sinks of a call throw: on one invocation of one of them, counted from zero. -/
inductive ThrowsAt
  | nowhere
  | bid (k : ℕ)
  | ask (k : ℕ)
  deriving DecidableEq

namespace ThrowsAt

/-- The bid sink's invocation that throws. -/
def bidCall : ThrowsAt → Option ℕ
  | bid k => some k
  | _ => none

/-- The ask sink's invocation that throws. -/
def askCall : ThrowsAt → Option ℕ
  | ask k => some k
  | _ => none

private theorem bidCall_eq_some {throwsAt : ThrowsAt} {k : ℕ} :
    throwsAt.bidCall = some k ↔ throwsAt = .bid k := by
  cases throwsAt <;> simp [bidCall]

private theorem askCall_eq_some {throwsAt : ThrowsAt} {k : ℕ} :
    throwsAt.askCall = some k ↔ throwsAt = .ask k := by
  cases throwsAt <;> simp [askCall]

end ThrowsAt

/-- A call and where its sinks throw. -/
structure FallibleCall where
  call : BookCall
  throwsAt : ThrowsAt
  deriving DecidableEq

namespace AggregateOrderBook

variable {σ τ : Type*}

/-- A call under sinks that may throw. -/
def fallibleCall (book : AggregateOrderBook) (c : FallibleCall) :
    Except Errc Unit × AggregateOrderBook :=
  let outcome := book.callWith (Sink.throwingAt c.throwsAt.bidCall)
    (Sink.throwingAt c.throwsAt.askCall) c.call 0 0
  (outcome.result, outcome.book)

end AggregateOrderBook

/-- The book as a machine fed calls whose sinks may throw; it outputs their results. -/
def fallibleMachine : Machine AggregateOrderBook FallibleCall (Except Errc Unit) where
  step book c := ((book.fallibleCall c).2, [(book.fallibleCall c).1])

namespace AggregateOrderBook

variable {σ τ : Type*}

/-- The two sides a call starts from. -/
def bidStart (book : AggregateOrderBook) (venue : VenueId) (seen : σ) : SideState greater σ :=
  ⟨(book.venueBook venue).bids, book.aggregate.bids, seen⟩

def askStart (book : AggregateOrderBook) (venue : VenueId) (seen : τ) : SideState less τ :=
  ⟨(book.venueBook venue).asks, book.aggregate.asks, seen⟩

private theorem Summed.bidStart {book : AggregateOrderBook} (h : book.Summed) (venue : VenueId)
    (seen : σ) : (book.bidStart venue seen).Sums (others L2OrderBook.bids book.venues venue) :=
  h.1.sums rfl venue seen

theorem Summed.askStart {book : AggregateOrderBook} (h : book.Summed) (venue : VenueId)
    (seen : τ) : (book.askStart venue seen).Sums (others L2OrderBook.asks book.venues venue) :=
  h.2.sums rfl venue seen

/-- Stored sides that are in step with the other venues leave the book summed. -/
theorem Summed.store {book : AggregateOrderBook} (h : book.Summed) {venue : VenueId}
    {bids : SideState greater σ} {asks : SideState less τ}
    (hbids : bids.Sums (others L2OrderBook.bids book.venues venue))
    (hasks : asks.Sums (others L2OrderBook.asks book.venues venue)) :
    (book.store venue bids asks).Summed :=
  ⟨h.1.update hbids rfl, h.2.update hasks rfl⟩

/-- And only such sides do. -/
private theorem Summed.of_store {book : AggregateOrderBook} {venue : VenueId}
    {bids : SideState greater σ} {asks : SideState less τ}
    (h : (book.store venue bids asks).Summed) :
    bids.Sums (others L2OrderBook.bids book.venues venue) ∧
      asks.Sums (others L2OrderBook.asks book.venues venue) := by
  have hothers : ∀ {cmp : Price → Price → Ordering} [SideOrder cmp]
      (side : L2OrderBook → SideMap cmp), others side (book.store venue bids asks).venues venue =
        others side book.venues venue := fun side => funext fun p => others_update _ _ _ p
  have hentry : (book.store venue bids asks).venues venue =
      some ⟨asks.venueSide, bids.venueSide⟩ := Function.update_self ..
  have hbids := h.1.sums rfl venue bids.seen
  have hasks := h.2.sums rfl venue asks.seen
  rw [hothers, hentry] at hbids hasks
  exact ⟨hbids, hasks⟩

section Sides

variable {book : AggregateOrderBook} {venue : VenueId} {bids asks : List Level} {s : σ} {t : τ}
  {bidStep : SideState greater σ → Except (SideState greater σ) (SideState greater σ)}
  {askStep : SideState less τ → Except (SideState less τ) (SideState less τ)}

/-- A throw on the bid side leaves the asks as they were. -/
private theorem applySides_of_error
    (hvalid : (bids.all isValidLevel && asks.all isValidLevel) = true)
    {b : SideState greater σ} (hb : bidStep (book.bidStart venue s) = .error b) :
    (applySides bidStep askStep book venue bids asks s t).book =
      book.store venue b (book.askStart venue t) := by
  rw [bidStart] at hb
  simp only [applySides, hvalid, hb, Bool.not_true, Bool.false_eq_true, if_false]
  rfl

variable (t askStep) in
/-- With the bids through, the call leaves what the ask side leaves. -/
private theorem applySides_of_bid_ok
    (hvalid : (bids.all isValidLevel && asks.all isValidLevel) = true)
    {b : SideState greater σ} (hb : bidStep (book.bidStart venue s) = .ok b) :
    (applySides bidStep askStep book venue bids asks s t).book =
      book.store venue b (leaves (askStep (book.askStart venue t))) := by
  rw [bidStart] at hb
  simp only [applySides, hvalid, hb, Bool.not_true, Bool.false_eq_true, if_false, askStart]
  cases askStep ⟨(book.venueBook venue).asks, book.aggregate.asks, t⟩ <;> rfl

variable (book venue s t bidStep askStep) in
/-- Either way the call stores what its steps leave, or the asks it found. -/
private theorem applySides_book (hvalid : (bids.all isValidLevel && asks.all isValidLevel) = true) :
    ∃ a, (a = book.askStart venue t ∨ a = leaves (askStep (book.askStart venue t))) ∧
      (applySides bidStep askStep book venue bids asks s t).book =
        book.store venue (leaves (bidStep (book.bidStart venue s))) a := by
  cases hb : bidStep (book.bidStart venue s) with
  | error b => exact ⟨_, .inl rfl, applySides_of_error hvalid hb⟩
  | ok b => exact ⟨_, .inr rfl, applySides_of_bid_ok t askStep hvalid hb⟩

/-- Steps that leave both sides in step, as far as they get, leave the book summed. -/
theorem Summed.applySides (h : book.Summed)
    (hvalid : (bids.all isValidLevel && asks.all isValidLevel) = true)
    (hbids : (leaves (bidStep (book.bidStart venue s))).Sums
      (others L2OrderBook.bids book.venues venue))
    (hasks : ∀ b, bidStep (book.bidStart venue s) = .ok b →
      (leaves (askStep (book.askStart venue t))).Sums
        (others L2OrderBook.asks book.venues venue)) :
    (applySides bidStep askStep book venue bids asks s t).book.Summed := by
  cases hb : bidStep (book.bidStart venue s) with
  | error b =>
    rw [hb] at hbids
    rw [applySides_of_error hvalid hb]
    exact h.store hbids (h.askStart venue t)
  | ok b =>
    rw [hb] at hbids
    rw [applySides_of_bid_ok t askStep hvalid hb]
    exact h.store hbids (hasks b hb)

end Sides

/-- An invalidation is done with the book before it tells either sink. -/
private theorem invalidateVenue_of_some {book : AggregateOrderBook} {venue : VenueId}
    {entry : L2OrderBook} (hentry : book.venues venue = some entry) (bidSink : Sink σ)
    (askSink : Sink τ) (s : σ) (t : τ) :
    (book.invalidateVenue bidSink askSink venue s t).book =
      ⟨Function.update book.venues venue none,
        ⟨(removeSide entry.asks book.aggregate.asks).1,
          (removeSide entry.bids book.aggregate.bids).1⟩⟩ := by
  simp only [invalidateVenue, hentry]
  cases reportAll bidSink (removeSide entry.bids book.aggregate.bids).2 s with
  | error s => rfl
  | ok s => cases reportAll askSink (removeSide entry.asks book.aggregate.asks).2 t <;> rfl

/-- What an invalidation does to the book does not depend on its sinks. -/
private theorem invalidateVenue_book (book : AggregateOrderBook) (venue : VenueId)
    (bidSink : Sink σ)
    (askSink : Sink τ) (s : σ) (t : τ) :
    (book.invalidateVenue bidSink askSink venue s t).book =
      (book.call ⟨venue, .invalidateVenue⟩).2 := by
  cases hentry : book.venues venue with
  | none => simp only [call, callWith, invalidateVenue, hentry]
  | some entry =>
    exact (invalidateVenue_of_some hentry bidSink askSink s t).trans
      (invalidateVenue_of_some hentry noopSink noopSink () ()).symm

end AggregateOrderBook

/-- No sink throws while a snapshot's removals are reported to it. -/
def FallibleCall.RemovalsReported (book : AggregateOrderBook) (c : FallibleCall) : Prop :=
  ∀ bids asks, c.call.op = .applySnapshot bids asks → c.call.op.valid →
    (∀ k ∈ c.throwsAt.bidCall,
      (removedLevels (book.venueBook c.call.venue).bids bids).length ≤ k) ∧
    ∀ k ∈ c.throwsAt.askCall,
      (removedLevels (book.venueBook c.call.venue).asks asks).length ≤ k

/-- The totals of a call that the book accepts fit, as far as it gets: those of the asks only if
the bids go through. -/
def FallibleCall.Fits (book : AggregateOrderBook) (c : FallibleCall) : Prop :=
  c.call.op.valid →
    c.call.op.bids.FitsUnder (Sink.throwingAt c.throwsAt.bidCall)
        (others L2OrderBook.bids book.venues c.call.venue) (book.bidStart c.call.venue 0) ∧
      (c.call.op.bids.Returns (Sink.throwingAt c.throwsAt.bidCall)
          (book.bidStart c.call.venue 0) →
        c.call.op.asks.FitsUnder (Sink.throwingAt c.throwsAt.askCall)
          (others L2OrderBook.asks book.venues c.call.venue) (book.askStart c.call.venue 0))

namespace AggregateOrderBook

private theorem fallibleCall_invalidateVenue (book : AggregateOrderBook) (venue : VenueId)
    (throwsAt : ThrowsAt) : (book.fallibleCall ⟨⟨venue, .invalidateVenue⟩, throwsAt⟩).2 =
      (book.call ⟨venue, .invalidateVenue⟩).2 :=
  invalidateVenue_book book venue _ _ 0 0

/-- An invalidation drops its venue and no other. -/
private theorem invalidateVenue_venues (book : AggregateOrderBook) (venue : VenueId) :
    (book.call ⟨venue, .invalidateVenue⟩).2.venues = Function.update book.venues venue none := by
  rw [call_eq]
  rfl

/-- A rejected call never reaches its sinks. -/
private theorem fallibleCall_of_invalid {book : AggregateOrderBook} {c : FallibleCall}
    (hinvalid : ¬ c.call.op.valid = true) : (book.fallibleCall c).2 = book := by
  obtain ⟨⟨venue, op⟩, throwsAt⟩ := c
  cases op with
  | applySnapshot bids asks => exact congrArg Outcome.book (applySides_of_invalid hinvalid)
  | applyBatch bids asks => exact congrArg Outcome.book (applySides_of_invalid hinvalid)
  | invalidateVenue => exact absurd rfl hinvalid

/-- **Step lemma.** A call whose totals fit and whose removals are all reported keeps the book
the sum of its venues, wherever else a sink throws. -/
theorem Summed.fallibleCall {book : AggregateOrderBook} (h : book.Summed) {c : FallibleCall}
    (hfits : c.Fits book) (hreported : c.RemovalsReported book) :
    (book.fallibleCall c).2.Summed := by
  by_cases hvalid : c.call.op.valid = true
  · obtain ⟨hbids, hasks⟩ := BookOp.sides_valid hvalid
    obtain ⟨hbidFits, haskFits⟩ := hfits hvalid
    obtain ⟨⟨venue, op⟩, throwsAt⟩ := c
    have hbidStart := h.bidStart venue 0
    have haskStart := h.askStart venue 0
    have hbidOthers := h.1.others_nonneg venue
    have haskOthers := h.2.others_nonneg venue
    cases op with
    | applySnapshot bids asks =>
      obtain ⟨hbidCall, haskCall⟩ := hreported bids asks rfl hvalid
      exact h.applySides hvalid
        (SideState.Sums.resyncSide hbids hbidStart hbidOthers hbidFits rfl hbidCall)
        fun b hb => SideState.Sums.resyncSide hasks haskStart haskOthers (haskFits ⟨b, hb⟩) rfl
          haskCall
    | applyBatch bids asks =>
      -- levels are put on both sides before a sink is told
      exact h.applySides hvalid
        (hbidStart.applyLevels _ hbidOthers hbids hbidFits)
        fun b hb => haskStart.applyLevels _ haskOthers hasks (haskFits ⟨b, hb⟩)
    | invalidateVenue =>
      rw [fallibleCall_invalidateVenue]
      exact h.call fun _ => ⟨trivial, trivial⟩
  · rw [fallibleCall_of_invalid hvalid]
    exact h

/-- **The lost update.** A throw while a removal is reported leaves the aggregate short of the
level its venue still holds. -/
theorem Summed.fallibleCall_lost {book : AggregateOrderBook} (h : book.Summed)
    {c : FallibleCall} (hlost : ¬ c.RemovalsReported book) :
    ¬ (book.fallibleCall c).2.Summed := by
  intro hsummed
  refine hlost fun bids asks hop hvalid => ?_
  obtain ⟨⟨venue, op⟩, throwsAt⟩ := c
  obtain rfl : op = .applySnapshot bids asks := hop
  have hbidStart := h.bidStart venue 0
  have haskStart := h.askStart venue 0
  refine ⟨fun k hk => ?_, fun k hk => ?_⟩
  · -- the bid sink throws on its invocation `k`
    obtain rfl := ThrowsAt.bidCall_eq_some.mp hk
    by_contra hremoved
    obtain ⟨b, hstep, hb⟩ :=
      resyncSide_lost hbidStart (h.1.others_nonneg venue) rfl (Nat.lt_of_not_le hremoved)
    have hbook : (book.fallibleCall ⟨⟨venue, .applySnapshot bids asks⟩, .bid k⟩).2 =
        book.store venue b (book.askStart venue 0) := applySides_of_error hvalid hstep
    rw [hbook] at hsummed
    exact hb hsummed.of_store.1
  · -- the bids go through, and the ask sink throws on its invocation `k`
    obtain rfl := ThrowsAt.askCall_eq_some.mp hk
    by_contra hremoved
    obtain ⟨a, hstep, ha⟩ :=
      resyncSide_lost haskStart (h.2.others_nonneg venue) rfl (Nat.lt_of_not_le hremoved)
    have hbook := applySides_of_bid_ok 0 (resyncSide (Sink.throwingAt (some k)) asks) hvalid
      (resyncSide_total countCall bids (book.bidStart venue 0))
    rw [hstep] at hbook
    have hcall : (book.fallibleCall ⟨⟨venue, .applySnapshot bids asks⟩, .ask k⟩).2 =
        book.store venue _ a := hbook
    rw [hcall] at hsummed
    exact ha hsummed.of_store.2

/-- What a failing sink must not spoil: the aggregate is the sum of the venues, and after the
invalidation of any venue it is the sum of the others, whose books are as they were. -/
structure Intact (book : AggregateOrderBook) : Prop where
  summed : book.Summed
  survivors : ∀ venue, (book.call ⟨venue, .invalidateVenue⟩).2.Summed ∧
    ∀ other, other ≠ venue →
      (book.call ⟨venue, .invalidateVenue⟩).2.venues other = book.venues other

private theorem Summed.intact {book : AggregateOrderBook} (h : book.Summed) : book.Intact where
  summed := h
  survivors venue := by
    refine ⟨h.call fun _ => ⟨trivial, trivial⟩, fun other hother => ?_⟩
    rw [invalidateVenue_venues]
    exact Function.update_of_ne hother _ _

end AggregateOrderBook

/-! ### Totals that cannot overflow -/

section Bound

variable {cmp : Price → Price → Ordering} [SideOrder cmp] {σ : Type*} {bound : ℤ}

/-- What a bound computation leaves, given what its parts do. -/
private theorem leaves_bind {β : Type*} {P : β → Prop} {x : Except β β} {step : β → Except β β}
    (hx : P (leaves x)) (hstep : ∀ b, P b → P (leaves (step b))) : P (leaves (x >>= step)) := by
  cases x with
  | error b => exact hx
  | ok b => exact hstep b hx

/-- A removal leaves the venue's side as it is, or without the level. -/
private theorem leaves_removeLevel (sink : Sink σ) (st : SideState cmp σ) (level : Level) :
    (leaves (removeLevel sink st level)).venueSide = st.venueSide ∨
      (leaves (removeLevel sink st level)).venueSide = st.venueSide.erase level.1 := by
  simp only [removeLevel]
  cases (adjustAggregate st.aggregateSide level.1 (0 - level.2)).2 with
  | none => exact .inr rfl
  | some size =>
    simp only [report]
    cases sink level.1 size st.seen with
    | none => exact .inl rfl
    | some seen => exact .inr rfl

/-- Every size of the venue's side is at most the bound. -/
def SideState.VenueWithin (bound : ℤ) (st : SideState cmp σ) : Prop :=
  ∀ p, sizeAt st.venueSide p ≤ bound

theorem SideState.VenueWithin.applyLevels {st : SideState cmp σ} (h : st.VenueWithin bound)
    (sink : Sink σ) {levels : List Level}
    (hlevels : ∀ l ∈ levels, 0 ≤ l.2.val ∧ l.2.val ≤ bound) :
    (leaves (levels.foldlM (applyLevel sink) st)).VenueWithin bound := by
  refine leaves_foldlM (P := SideState.VenueWithin bound) (fun l hl st hst p => ?_) h
  obtain ⟨hnonneg, hle⟩ := hlevels l hl
  rw [(leaves_applyLevel sink st l).1, SideState.put_venueSide _ hnonneg, sizeAt_setPlain]
  split
  · exact hle
  · exact hst p

theorem SideState.VenueWithin.resyncSide (hbound : 0 ≤ bound) {st : SideState cmp σ}
    (h : st.VenueWithin bound) (sink : Sink σ) {levels : List Level}
    (hlevels : ∀ l ∈ levels, 0 ≤ l.2.val ∧ l.2.val ≤ bound) :
    (leaves (resyncSide sink levels st)).VenueWithin bound := by
  refine leaves_bind (P := SideState.VenueWithin bound) ?_ fun st hst =>
    hst.applyLevels sink fun l hl => hlevels l (mem_of_mem_ofLevels hl)
  refine leaves_foldlM (P := SideState.VenueWithin bound) (fun l _ st hst => ?_) h
  split
  · exact hst
  · intro p
    rcases leaves_removeLevel sink st l with hside | hside
    · rw [hside]
      exact hst p
    · rw [hside, sizeAt_erase]
      split
      · exact hbound
      · exact hst p

end Bound

namespace AggregateOrderBook

/-- Every size of every venue is at most the bound. -/
def VenuesWithin (bound : ℤ) (book : AggregateOrderBook) : Prop :=
  ∀ venue p, sizeAt (book.venueBook venue).bids p ≤ bound ∧
    sizeAt (book.venueBook venue).asks p ≤ bound

variable {bound : ℤ}

theorem VenuesWithin.store {σ τ : Type*} {book : AggregateOrderBook} (h : book.VenuesWithin bound)
    {venue : VenueId} {bids : SideState greater σ} {asks : SideState less τ}
    (hbids : bids.VenueWithin bound) (hasks : asks.VenueWithin bound) :
    (book.store venue bids asks).VenuesWithin bound := by
  have hvenues : (book.store venue bids asks).venues =
      Function.update book.venues venue (some ⟨asks.venueSide, bids.venueSide⟩) := rfl
  intro v p
  rw [venueBook, hvenues]
  by_cases hvenue : v = venue
  · rw [hvenue, Function.update_self]
    exact ⟨hbids p, hasks p⟩
  · rw [Function.update_of_ne hvenue]
    exact h v p

theorem VenuesWithin.applySides {σ τ : Type*} {book : AggregateOrderBook}
    (h : book.VenuesWithin bound) {venue : VenueId}
    {bidStep : SideState greater σ → Except (SideState greater σ) (SideState greater σ)}
    {askStep : SideState less τ → Except (SideState less τ) (SideState less τ)}
    {bids asks : List Level} (hvalid : (bids.all isValidLevel && asks.all isValidLevel) = true)
    {s : σ} {t : τ} (hbids : (leaves (bidStep (book.bidStart venue s))).VenueWithin bound)
    (hasks : (leaves (askStep (book.askStart venue t))).VenueWithin bound) :
    (applySides bidStep askStep book venue bids asks s t).book.VenuesWithin bound := by
  obtain ⟨a, ha, hbook⟩ := applySides_book book venue s t bidStep askStep hvalid
  rw [hbook]
  rcases ha with rfl | rfl
  · exact h.store hbids fun p => (h venue p).2
  · exact h.store hbids hasks

/-- A call that names sizes within the bound keeps the venues within it. -/
theorem VenuesWithin.fallibleCall (hbound : 0 ≤ bound) {book : AggregateOrderBook}
    (h : book.VenuesWithin bound) {c : FallibleCall}
    (hlevels : ∀ l ∈ c.call.op.levels, l.2.val ≤ bound) :
    (book.fallibleCall c).2.VenuesWithin bound := by
  by_cases hvalid : c.call.op.valid = true
  · obtain ⟨hbids, hasks⟩ := BookOp.sides_valid hvalid
    obtain ⟨⟨venue, op⟩, throwsAt⟩ := c
    have hbidStart : (book.bidStart venue 0).VenueWithin bound := fun p => (h venue p).1
    have haskStart : (book.askStart venue 0).VenueWithin bound := fun p => (h venue p).2
    cases op with
    | applySnapshot bids asks =>
      obtain ⟨hbidLevels, haskLevels⟩ := List.forall_mem_append.mp hlevels
      exact h.applySides hvalid
        (hbidStart.resyncSide hbound _ fun l hl => ⟨hbids l hl, hbidLevels l hl⟩)
        (haskStart.resyncSide hbound _ fun l hl => ⟨hasks l hl, haskLevels l hl⟩)
    | applyBatch bids asks =>
      obtain ⟨hbidLevels, haskLevels⟩ := List.forall_mem_append.mp hlevels
      exact h.applySides hvalid
        (hbidStart.applyLevels _ fun l hl => ⟨hbids l hl, hbidLevels l hl⟩)
        (haskStart.applyLevels _ fun l hl => ⟨hasks l hl, haskLevels l hl⟩)
    | invalidateVenue =>
      intro v p
      rw [fallibleCall_invalidateVenue, venueBook, invalidateVenue_venues]
      by_cases hvenue : v = venue
      · rw [hvenue, Function.update_self]
        exact ⟨(sizeAt_empty p).trans_le hbound, (sizeAt_empty p).trans_le hbound⟩
      · rw [Function.update_of_ne hvenue]
        exact h v p
  · rw [fallibleCall_of_invalid hvalid]
    exact h

end AggregateOrderBook

/-- **No total overflows**, whatever the sinks do, while every size is at most an equal share of
the range among the venues. -/
theorem fallible_fits_of_le (bound : ℤ) (hbound : 0 ≤ bound)
    (hshare : Fintype.card VenueId * bound ≤ int64Max) {calls : List FallibleCall}
    (h : ∀ c ∈ calls, ∀ l ∈ c.call.op.levels, l.2.val ≤ bound) :
    fallibleMachine.Throughout FallibleCall.Fits {} calls := by
  have hstart : (({} : AggregateOrderBook)).VenuesWithin bound := fun venue p =>
    ⟨(sizeAt_empty p).trans_le hbound, (sizeAt_empty p).trans_le hbound⟩
  suffices hall : ∀ book : AggregateOrderBook, book.VenuesWithin bound →
      fallibleMachine.Throughout FallibleCall.Fits book calls from hall {} hstart
  induction calls with
  | nil => exact fun _ _ => Machine.throughout_nil
  | cons c calls ih =>
    intro book hbook
    obtain ⟨hc, hcalls⟩ := List.forall_mem_cons.mp h
    refine Machine.throughout_cons.mpr ⟨fun _ => ?_, ?_⟩
    · obtain ⟨hbids, hasks⟩ := BookCall.fits_of_le hbound hshare hc hbook
      exact ⟨hbids.under _ _, fun _ => hasks.under _ _⟩
    · exact ih hcalls _ (hbook.fallibleCall hbound hc)

/-! ### The exact condition -/

/-- **When a failing sink leaves the book intact.** Over any calls whose totals fit, as far as
each gets, with a sink that throws anywhere or nowhere: after every call the aggregate is the sum
of the venues, and stays the sum of the others when a venue is invalidated, exactly when no sink
throws while the removals of a snapshot are reported. -/
theorem failing_sink_intact_iff (calls : List FallibleCall)
    (hfits : fallibleMachine.Throughout FallibleCall.Fits {} calls) :
    fallibleMachine.Always AggregateOrderBook.Intact {} calls ↔
      fallibleMachine.Throughout FallibleCall.RemovalsReported {} calls := by
  refine Machine.always_iff_throughout_under (I := AggregateOrderBook.Summed) (run_summed
    totalsFit_nil) (fun book h => h.intact) ?_ ?_ hfits
  · exact fun book c h hfit hreported => h.fallibleCall hfit hreported
  · exact fun book c h _ hlost hintact => h.fallibleCall_lost hlost hintact.summed

/-- A venue is resynced twice, and the sink throws the second time, after the one removal has
been reported. -/
def reportedSinkCalls : List FallibleCall :=
  [⟨⟨⟨.binance, .spot⟩, .applySnapshot [(⟨100⟩, ⟨5⟩)] []⟩, .nowhere⟩,
    ⟨⟨⟨.binance, .spot⟩, .applySnapshot [(⟨101⟩, ⟨6⟩)] []⟩, .bid 1⟩]

theorem failing_sink_intact_iff_sample :
    fallibleMachine.Throughout FallibleCall.Fits {} reportedSinkCalls ∧
      (fallibleMachine.Always AggregateOrderBook.Intact {} reportedSinkCalls ↔
        fallibleMachine.Throughout FallibleCall.RemovalsReported {} reportedSinkCalls) := by
  have hfits : fallibleMachine.Throughout FallibleCall.Fits {} reportedSinkCalls :=
    fallible_fits_of_le 10 (by decide) (by decide) (by decide)
  exact ⟨hfits, failing_sink_intact_iff reportedSinkCalls hfits⟩

/-- Two venues bid at a price, and one of them is resynced to an empty side while the sink
throws on its first invocation. -/
def failingSinkCalls : List FallibleCall :=
  [⟨⟨⟨.binance, .spot⟩, .applySnapshot [(⟨100⟩, ⟨5⟩)] []⟩, .nowhere⟩,
    ⟨⟨⟨.okx, .spot⟩, .applySnapshot [(⟨100⟩, ⟨7⟩)] []⟩, .nowhere⟩,
    ⟨⟨⟨.binance, .spot⟩, .applySnapshot [] []⟩, .bid 0⟩]

/-- **A failing sink corrupts the book.** The resync ends with `not_enough_memory`; the aggregate
has lost the level that its venue still holds, and the invalidation of that venue takes it away
once more, out of the other venue's size. -/
theorem failing_sink_counterexample :
    fallibleMachine.Throughout FallibleCall.Fits {} failingSinkCalls ∧
      fallibleMachine.output {} failingSinkCalls =
        [.ok (), .ok (), .error .notEnoughMemory] ∧
      ¬ (fallibleMachine.state {} failingSinkCalls).Summed ∧
      ∃ after, after = ((fallibleMachine.state {} failingSinkCalls).call
          ⟨⟨.binance, .spot⟩, .invalidateVenue⟩).2 ∧
        sizeAt (after.venueBook ⟨.okx, .spot⟩).bids ⟨100⟩ = 7 ∧
        sizeAt after.aggregate.bids ⟨100⟩ = 2 := by
  refine ⟨fallible_fits_of_le 10 (by decide) (by decide) (by decide), by decide +kernel, ?_,
    _, rfl, by decide +kernel, by decide +kernel⟩
  intro h
  have hsum := h.1.sum ⟨100⟩
  have haggregate :
      sizeAt (fallibleMachine.state {} failingSinkCalls).aggregate.bids ⟨100⟩ = 7 := by
    decide +kernel
  have hvenues : ∑ v, contribution L2OrderBook.bids
      (fallibleMachine.state {} failingSinkCalls).venues ⟨100⟩ v = 12 := by
    decide +kernel
  omega

end Hermeneutic
