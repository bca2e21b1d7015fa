import Hermeneutic.Book.AggregateOrderBook
import Hermeneutic.ForMathlib.Machine

/-!
# Calls on the aggregate book

The three mutating operations of `AggregateOrderBook` as data. A `BookCall` is a venue and
what it asks for; `callWith` dispatches it. On either side the three operations are a resync,
a batch of levels or a removal (`SideOp`), and under sinks that never throw all of them put
one list of levels on the side (`SideOp.levels`). `callWith_total` is that fact for a whole
call, and the only thing later modules use of the operations' bodies.

`bookMachine` feeds a book any list of calls, of any venues in any order, and outputs their
results; all results about runs are about it or about a machine that contains it. A rejected call
is one whose levels are not all valid. It has no effect on either side and reaches no sink, which
is the first thing the source checks.
-/

namespace Hermeneutic

/-- What a call asks of the book. -/
inductive BookOp
  | applySnapshot (bids asks : List Level)
  | applyBatch (bids asks : List Level)
  | invalidateVenue
  deriving DecidableEq

/-- One mutating call on an aggregate book. -/
structure BookCall where
  venue : VenueId
  op : BookOp
  deriving DecidableEq

/-- What a call asks of one side. -/
inductive SideOp
  | resync (levels : List Level)
  | apply (levels : List Level)
  | remove

namespace BookOp

/-- The call's part on the bid side. -/
def bids : BookOp → SideOp
  | applySnapshot bids _ => .resync bids
  | applyBatch bids _ => .apply bids
  | invalidateVenue => .remove

/-- The call's part on the ask side. -/
def asks : BookOp → SideOp
  | applySnapshot _ asks => .resync asks
  | applyBatch _ asks => .apply asks
  | invalidateVenue => .remove

/-- Whether the book accepts the call: every level of either side is valid. -/
def valid : BookOp → Bool
  | applySnapshot bids asks => bids.all isValidLevel && asks.all isValidLevel
  | applyBatch bids asks => bids.all isValidLevel && asks.all isValidLevel
  | invalidateVenue => true

end BookOp

section Levels

variable {cmp : Price → Price → Ordering} [SideOrder cmp]

/-- The levels an operation puts on a side, in order. -/
def SideOp.levels (side : SideMap cmp) : SideOp → List Level
  | resync levels => resyncLevels side levels
  | apply levels => levels
  | remove => removalLevels side

variable {σ : Type*} (f : Price → Size → σ → σ)

/-- The state an operation leaves a side in. -/
def SideState.run (op : SideOp) (st : SideState cmp σ) : SideState cmp σ :=
  (op.levels st.venueSide).foldl (SideState.put f) st

end Levels

namespace AggregateOrderBook

variable {σ τ : Type*}

/-- Dispatches a call to its operation. -/
def callWith (bidSink : Sink σ) (askSink : Sink τ) (book : AggregateOrderBook) (call : BookCall)
    (bidSeen : σ) (askSeen : τ) : Outcome σ τ :=
  match call.op with
  | .applySnapshot bids asks =>
    book.applySnapshot bidSink askSink call.venue bids asks bidSeen askSeen
  | .applyBatch bids asks => book.applyBatch bidSink askSink call.venue bids asks bidSeen askSeen
  | .invalidateVenue => book.invalidateVenue bidSink askSink call.venue bidSeen askSeen

variable (f : Price → Size → σ → σ) (g : Price → Size → τ → τ)

/-- The bid side as an accepted call leaves it. -/
def bidRun (book : AggregateOrderBook) (call : BookCall) (seen : σ) : SideState greater σ :=
  SideState.run f call.op.bids ⟨(book.venueBook call.venue).bids, book.aggregate.bids, seen⟩

/-- The ask side as an accepted call leaves it. -/
def askRun (book : AggregateOrderBook) (call : BookCall) (seen : τ) : SideState less τ :=
  SideState.run g call.op.asks ⟨(book.venueBook call.venue).asks, book.aggregate.asks, seen⟩

/-- The entry an accepted call leaves for its venue, given the sides it worked on. -/
def entryAfter (call : BookCall) (bids : SideMap greater) (asks : SideMap less) :
    Option L2OrderBook :=
  match call.op with
  | .invalidateVenue => none
  | _ => some ⟨asks, bids⟩

/-- What an accepted call leaves behind. -/
def accepted (book : AggregateOrderBook) (call : BookCall) (bidSeen : σ) (askSeen : τ) :
    Outcome σ τ :=
  let bids := book.bidRun f call bidSeen
  let asks := book.askRun g call askSeen
  { result := .ok ()
    book :=
      { venues := Function.update book.venues call.venue
          (entryAfter call bids.venueSide asks.venueSide)
        aggregate := ⟨asks.aggregateSide, bids.aggregateSide⟩ }
    bidSeen := bids.seen
    askSeen := asks.seen }

private theorem applySides_of_ok
    {bidStep : SideState greater σ → Except (SideState greater σ) (SideState greater σ)}
    {askStep : SideState less τ → Except (SideState less τ) (SideState less τ)}
    {book : AggregateOrderBook} {venue : VenueId} {bids asks : List Level} {bidSeen : σ}
    {askSeen : τ} {b : SideState greater σ} {a : SideState less τ}
    (hvalid : (bids.all isValidLevel && asks.all isValidLevel) = true)
    (hb : bidStep ⟨(book.venueBook venue).bids, book.aggregate.bids, bidSeen⟩ = .ok b)
    (ha : askStep ⟨(book.venueBook venue).asks, book.aggregate.asks, askSeen⟩ = .ok a) :
    applySides bidStep askStep book venue bids asks bidSeen askSeen =
      ⟨.ok (), book.store venue b a, b.seen, a.seen⟩ := by
  simp only [applySides, hvalid, hb, ha, Bool.not_true, Bool.false_eq_true, if_false]

/-- Invalid levels on either side end the call before it does anything. -/
theorem applySides_of_invalid
    {bidStep : SideState greater σ → Except (SideState greater σ) (SideState greater σ)}
    {askStep : SideState less τ → Except (SideState less τ) (SideState less τ)}
    {book : AggregateOrderBook} {venue : VenueId} {bids asks : List Level} {bidSeen : σ}
    {askSeen : τ} (hinvalid : ¬ (bids.all isValidLevel && asks.all isValidLevel) = true) :
    applySides bidStep askStep book venue bids asks bidSeen askSeen =
      ⟨.error .invalidArgument, book, bidSeen, askSeen⟩ := by
  rw [applySides, if_pos]
  rw [Bool.not_eq_true', Bool.eq_false_iff]
  exact hinvalid

/-- **A call under sinks that never throw.** A rejected call changes nothing; an accepted one
puts its levels on either side. -/
theorem callWith_total (book : AggregateOrderBook) (call : BookCall) (bidSeen : σ)
    (askSeen : τ) :
    book.callWith (Sink.total f) (Sink.total g) call bidSeen askSeen =
      if call.op.valid then book.accepted f g call bidSeen askSeen
      else ⟨.error .invalidArgument, book, bidSeen, askSeen⟩ := by
  obtain ⟨venue, op⟩ := call
  cases op with
  | applySnapshot bids asks =>
    split
    · exact applySides_of_ok ‹_› (resyncSide_total f bids _) (resyncSide_total g asks _)
    · exact applySides_of_invalid ‹_›
  | applyBatch bids asks =>
    split
    · exact applySides_of_ok ‹_› (applyLevels_total f bids _) (applyLevels_total g asks _)
    · exact applySides_of_invalid ‹_›
  | invalidateVenue =>
    have hbids := removeSide_eq_foldl f
      ⟨(book.venueBook venue).bids, book.aggregate.bids, bidSeen⟩
    have hasks := removeSide_eq_foldl g
      ⟨(book.venueBook venue).asks, book.aggregate.asks, askSeen⟩
    simp only [callWith, invalidateVenue, BookOp.valid, if_true]
    cases hvenue : book.venues venue with
    | none =>
      -- No entry: the venue's book reads as empty, and nothing is put on either side.
      have hempty : book.venueBook venue = {} := by simp [venueBook, hvenue]
      have hupdate : Function.update book.venues venue none = book.venues := by
        rw [← hvenue, Function.update_eq_self]
      have hnil : ∀ {cmp : Price → Price → Ordering} [SideOrder cmp],
          removalLevels (∅ : SideMap cmp) = [] := by
        intro cmp _
        simp [removalLevels]
      simp [accepted, bidRun, askRun, SideState.run, BookOp.bids, BookOp.asks, SideOp.levels,
        entryAfter, hempty, hupdate, hnil]
    | some venueBook =>
      have hbook : book.venueBook venue = venueBook := by
        simp [AggregateOrderBook.venueBook, hvenue]
      rw [hbook] at hbids hasks
      simp only [hbids.1, hbids.2, hasks.1, hasks.2, accepted, bidRun, askRun, SideState.run,
        BookOp.bids, BookOp.asks, SideOp.levels, entryAfter, hbook]

/-- A call with the default sinks. -/
def call (book : AggregateOrderBook) (c : BookCall) : Except Errc Unit × AggregateOrderBook :=
  let outcome := book.callWith noopSink noopSink c () ()
  (outcome.result, outcome.book)

/-- What the sinks accumulate does not reach the book. -/
private theorem SideState.run_forget {cmp : Price → Price → Ordering} [SideOrder cmp] (op : SideOp)
    (st : SideState cmp σ) :
    (st.run f op).venueSide = (SideState.run (fun _ _ seen => seen) op
        ⟨st.venueSide, st.aggregateSide, ()⟩).venueSide ∧
      (st.run f op).aggregateSide = (SideState.run (fun _ _ seen => seen) op
        ⟨st.venueSide, st.aggregateSide, ()⟩).aggregateSide := by
  suffices h : ∀ (levels : List Level) (st : SideState cmp σ) (st' : SideState cmp Unit),
      st.venueSide = st'.venueSide → st.aggregateSide = st'.aggregateSide →
      (levels.foldl (SideState.put f) st).venueSide =
          (levels.foldl (SideState.put fun _ _ seen => seen) st').venueSide ∧
        (levels.foldl (SideState.put f) st).aggregateSide =
          (levels.foldl (SideState.put fun _ _ seen => seen) st').aggregateSide from
    h _ _ _ rfl rfl
  intro levels
  induction levels with
  | nil => exact fun st st' hv ha => ⟨hv, ha⟩
  | cons level levels ih =>
    intro st st' hv ha
    refine ih _ _ ?_ ?_
    · simp only [SideState.put, hv]
    · simp only [SideState.put, hv, ha]

/-- Whatever the sinks accumulate, as long as they do not throw a call does to the book what
it does with the default sinks. -/
theorem callWith_book (book : AggregateOrderBook) (c : BookCall) (bidSeen : σ) (askSeen : τ) :
    (book.callWith (Sink.total f) (Sink.total g) c bidSeen askSeen).result = (book.call c).1 ∧
      (book.callWith (Sink.total f) (Sink.total g) c bidSeen askSeen).book = (book.call c).2 := by
  rw [call, noopSink_eq_total, callWith_total, callWith_total]
  split
  · refine ⟨rfl, ?_⟩
    simp only [accepted, bidRun, askRun]
    rw [(SideState.run_forget f _ _).1, (SideState.run_forget f _ _).2,
      (SideState.run_forget g _ _).1, (SideState.run_forget g _ _).2]
  · exact ⟨rfl, rfl⟩

end AggregateOrderBook

/-- The book as a machine fed calls; it outputs their results. -/
def bookMachine : Machine AggregateOrderBook BookCall (Except Errc Unit) where
  step book c := ((book.call c).2, [(book.call c).1])

end Hermeneutic
