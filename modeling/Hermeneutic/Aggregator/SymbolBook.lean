import Hermeneutic.Aggregator.SubscriberQueue
import Hermeneutic.Book.BookCall

/-!
# A symbol's book and its two streams

`SymbolBook` (`apps/aggregator/aggregator_service.hpp`) is an aggregate book, its revision
number `seq`, and one `Fanout` a stream: every revision is broadcast as an `L2Update`, and as
a `BboUpdate` when it moved the best bid or ask. Its mutating calls hand the aggregate book a
`ChangeCollector` a side as its sinks; what the collectors hold afterwards is published. A
collector allocates, and that allocation is taken not to fail.

`serviceMachine` runs it together with the handler threads of any number of subscribers of
either stream. A call, a heartbeat and a registration are each one critical section of
`mutex_`, so each is one step; a queue is only read by its own handler, so that a drain in the
middle of a broadcast is a drain before it. The machine outputs the aggregate of every
revision, in order. `ts_ns` is left out: nothing reads it.

A call is one function of the book and the change lists its collectors hold (`call_eq`), whichever
operation it is, so later modules argue about one equation. The initial message of a subscriber is
built in the same step in which its queue is registered; everything broadcast after that step is
in the queue or has closed it.
-/

namespace Hermeneutic

/-! ### Messages -/

structure PriceLevel where
  priceRaw : Int64
  sizeRaw : Int64
  deriving DecidableEq

def makeLevel (price : Price) (size : Size) : PriceLevel := ⟨price.raw, size.raw⟩

inductive L2Update
  | snapshot (bookSeq : UInt64) (bids asks : List PriceLevel)
  | diff (bookSeq : UInt64) (bids asks : List PriceLevel)
  | heartbeat (liveVenues : List String)
  deriving DecidableEq

inductive BboUpdate
  | bbo (bookSeq : UInt64) (bid ask : Option PriceLevel)
  | heartbeat (liveVenues : List String)
  deriving DecidableEq

/-! ### Collecting changes -/

inductive Side
  | bid
  | ask
  deriving DecidableEq

/-- `size` is the resulting aggregate size; `0` means the level was removed. -/
structure Change where
  side : Side
  price : Price
  size : Size
  deriving DecidableEq

/-- `ChangeCollector::operator()`: the latest size told for each price. -/
def collect {cmp : Price → Price → Ordering} [SideOrder cmp] (price : Price) (newSize : Size)
    (byPrice : SideMap cmp) : SideMap cmp :=
  byPrice.insert price newSize

/-- Bids first, then asks, each in its collector's order. -/
def collectChanges (bids : SideMap greater) (asks : SideMap less) : List Change :=
  (bids.toList.map fun level => ⟨.bid, level.1, level.2⟩) ++
    asks.toList.map fun level => ⟨.ask, level.1, level.2⟩

/-- The levels of one side among the changes. -/
def Change.levels (side : Side) (changed : List Change) : List PriceLevel :=
  (changed.filter fun change => change.side = side).map fun change =>
    makeLevel change.price change.size

/-! ### The book -/

def kSubscriberQueueCapacity : ℕ := 256

structure SymbolBook where
  book : AggregateOrderBook := {}
  l2Fanout : Fanout L2Update :=
    { capacity := kSubscriberQueueCapacity, overflowPolicy := .close }
  bboFanout : Fanout BboUpdate :=
    { capacity := kSubscriberQueueCapacity, overflowPolicy := .dropOldest }
  seq : UInt64 := 0
  /-- The best bid last broadcast. -/
  lastBboBid : Option Level := none
  lastBboAsk : Option Level := none

namespace SymbolBook

def bestBid (sb : SymbolBook) : Option Level := sb.book.aggregate.bids.toList.head?

def bestAsk (sb : SymbolBook) : Option Level := sb.book.aggregate.asks.toList.head?

def buildSnapshot (sb : SymbolBook) : L2Update :=
  .snapshot sb.seq (sb.book.aggregate.bids.toList.map fun kv => makeLevel kv.1 kv.2)
    (sb.book.aggregate.asks.toList.map fun kv => makeLevel kv.1 kv.2)

def buildBbo (sb : SymbolBook) : BboUpdate :=
  .bbo sb.seq (sb.bestBid.map fun bid => makeLevel bid.1 bid.2)
    (sb.bestAsk.map fun ask => makeLevel ask.1 ask.2)

/-- Emits a `Bbo` if the best bid or ask is not the one last broadcast. -/
def publishBbo (sb : SymbolBook) : SymbolBook :=
  if sb.bestBid ≠ sb.lastBboBid ∨ sb.bestAsk ≠ sb.lastBboAsk then
    { sb with
      lastBboBid := sb.bestBid
      lastBboAsk := sb.bestAsk
      bboFanout := sb.bboFanout.broadcast sb.buildBbo }
  else sb

/-- Broadcasts the changes of one call as one revision; no changes are none. -/
def publish (sb : SymbolBook) (changed : List Change) : SymbolBook :=
  if changed.isEmpty then sb
  else
    let seq := sb.seq + 1
    let diff := L2Update.diff seq (Change.levels .bid changed) (Change.levels .ask changed)
    publishBbo { sb with seq, l2Fanout := sb.l2Fanout.broadcast diff }

/-- What follows a call on the aggregate book: it is published unless it failed. -/
def afterCall (sb : SymbolBook)
    (outcome : AggregateOrderBook.Outcome (SideMap greater) (SideMap less)) :
    Except Errc Unit × SymbolBook :=
  let sb := { sb with book := outcome.book }
  match outcome.result with
  | .ok _ => (.ok (), sb.publish (collectChanges outcome.bidSeen outcome.askSeen))
  | .error errc => (.error errc, sb)

def applySnapshot (sb : SymbolBook) (venue : VenueId) (bids asks : List Level) :
    Except Errc Unit × SymbolBook :=
  if !(bids.all isValidLevel && asks.all isValidLevel) then (.error .invalidArgument, sb)
  else
    sb.afterCall (sb.book.applySnapshot (Sink.total collect) (Sink.total collect) venue bids asks
      ∅ ∅)

def applyBatch (sb : SymbolBook) (venue : VenueId) (bids asks : List Level) :
    Except Errc Unit × SymbolBook :=
  if !(bids.all isValidLevel && asks.all isValidLevel) then (.error .invalidArgument, sb)
  else
    sb.afterCall (sb.book.applyBatch (Sink.total collect) (Sink.total collect) venue bids asks
      ∅ ∅)

def invalidateVenue (sb : SymbolBook) (venue : VenueId) : SymbolBook :=
  let outcome := sb.book.invalidateVenue (Sink.total collect) (Sink.total collect) venue ∅ ∅
  { sb with book := outcome.book }.publish (collectChanges outcome.bidSeen outcome.askSeen)

/-- Dispatches a call. -/
def call (sb : SymbolBook) (c : BookCall) : Except Errc Unit × SymbolBook :=
  match c.op with
  | .applySnapshot bids asks => sb.applySnapshot c.venue bids asks
  | .applyBatch bids asks => sb.applyBatch c.venue bids asks
  | .invalidateVenue => (.ok (), sb.invalidateVenue c.venue)

/-- The venues with a book, in their display form; `unordered_map` leaves the order open. -/
def liveVenues (sb : SymbolBook) : List String :=
  (VenueId.all.filter fun venue => (sb.book.venues venue).isSome).map VenueId.toString

def sendHeartbeat (sb : SymbolBook) : SymbolBook :=
  { sb with
    l2Fanout := sb.l2Fanout.broadcast (.heartbeat sb.liveVenues)
    bboFanout := sb.bboFanout.broadcast (.heartbeat sb.liveVenues) }

/-- **A mutating call.** A rejected one changes nothing; an accepted one is published. -/
theorem call_eq (sb : SymbolBook) (c : BookCall) :
    sb.call c =
      if c.op.valid then
        let outcome := sb.book.accepted collect collect c (∅ : SideMap greater) (∅ : SideMap less)
        (.ok (), { sb with book := outcome.book }.publish
          (collectChanges outcome.bidSeen outcome.askSeen))
      else (.error .invalidArgument, sb) := by
  have htotal := sb.book.callWith_total collect collect c (∅ : SideMap greater)
    (∅ : SideMap less)
  by_cases hvalid : c.op.valid = true
  · rw [if_pos hvalid] at htotal ⊢
    obtain ⟨venue, op⟩ := c
    cases op with
    | applySnapshot bids asks | applyBatch bids asks =>
      have hlevels : (bids.all isValidLevel && asks.all isValidLevel) = true := hvalid
      simp only [AggregateOrderBook.callWith] at htotal
      simp only [call, applySnapshot, applyBatch, hlevels, Bool.not_true, Bool.false_eq_true,
        if_false, htotal, afterCall]
      rfl
    | invalidateVenue =>
      simp only [AggregateOrderBook.callWith] at htotal
      simp only [call, invalidateVenue, htotal]
  · rw [if_neg hvalid]
    obtain ⟨venue, op⟩ := c
    cases op with
    | applySnapshot bids asks | applyBatch bids asks =>
      have hlevels : (bids.all isValidLevel && asks.all isValidLevel) = false :=
        Bool.eq_false_iff.mpr hvalid
      simp only [call, applySnapshot, applyBatch, hlevels, Bool.not_false, if_true]
    | invalidateVenue => exact absurd rfl hvalid

end SymbolBook

/-! ### The service -/

/-- A symbol's book and the handler threads of its subscribers. -/
structure Service where
  symbolBook : SymbolBook := {}
  l2 : SubscriberId → Option (Handler L2Update) := fun _ => none
  bbo : SubscriberId → Option (Handler BboUpdate) := fun _ => none

/-- What may happen next. -/
inductive ServiceEvent
  | call (c : BookCall)
  | sendHeartbeat
  /-- An L2 subscriber captures its snapshot and registers a queue. -/
  | subscribe (id : SubscriberId)
  | subscribeBbo (id : SubscriberId)
  /-- A step of an L2 subscriber's handler. -/
  | l2 (id : SubscriberId) (event : HandlerEvent)
  | bbo (id : SubscriberId) (event : HandlerEvent)

namespace Service

/-- One step of one handler of a stream. -/
def stepHandler {T : Type*} (fanout : Fanout T) (handlers : SubscriberId → Option (Handler T))
    (id : SubscriberId) (event : HandlerEvent) :
    Fanout T × (SubscriberId → Option (Handler T)) :=
  match handlers id, fanout.subscribers id with
  | some h, some q =>
    let (q, h) := h.step q event
    (fanout.put id q, Function.update handlers id (some h))
  | _, _ => (fanout, handlers)

@[simp] theorem stepHandler_overflowPolicy {T : Type*} (fanout : Fanout T)
    (handlers : SubscriberId → Option (Handler T)) (id : SubscriberId) (event : HandlerEvent) :
    (stepHandler fanout handlers id event).1.overflowPolicy = fanout.overflowPolicy := by
  rw [stepHandler]
  split
  · simp only [Fanout.put_overflowPolicy]
  · rfl

/-- A handler after a step: it and its queue are as before, or the step was its own. -/
theorem stepHandler_cases {T : Type*} {fanout : Fanout T}
    {handlers : SubscriberId → Option (Handler T)} {id id' : SubscriberId} {event : HandlerEvent}
    {h' : Handler T} (hmem : (stepHandler fanout handlers id event).2 id' = some h') :
    handlers id' = some h' ∧
        (stepHandler fanout handlers id event).1.subscribers id' = fanout.subscribers id' ∨
      id' = id ∧ ∃ q h, fanout.subscribers id = some q ∧ handlers id = some h ∧
        h' = (h.step q event).2 ∧
        (stepHandler fanout handlers id event).1.subscribers id = (h.step q event).1 := by
  rw [stepHandler] at hmem ⊢
  split at hmem
  · rename_i h q hhandler hqueue
    by_cases hid : id' = id
    · subst hid
      right
      refine ⟨rfl, q, h, hqueue, hhandler, ?_, ?_⟩
      · simpa using hmem.symm
      · simp only [Fanout.put_subscribers, Function.update_self]
    · left
      refine ⟨by simpa [hid] using hmem, ?_⟩
      simp only [Fanout.put_subscribers, Function.update_of_ne hid]
  · exact .inl ⟨hmem, rfl⟩

/-- One step; the output is the aggregate of a new revision, if there is one. A queue's
address is not one already in use. -/
def step (s : Service) : ServiceEvent → Service × List L2OrderBook
  | .call c =>
    let symbolBook := (s.symbolBook.call c).2
    ({ s with symbolBook },
      if symbolBook.seq = s.symbolBook.seq then [] else [symbolBook.book.aggregate])
  | .sendHeartbeat => ({ s with symbolBook := s.symbolBook.sendHeartbeat }, [])
  | .subscribe id =>
    match s.l2 id with
    | some _ => (s, [])
    | none =>
      ({ s with
        symbolBook :=
          { s.symbolBook with l2Fanout := s.symbolBook.l2Fanout.subscribe id }
        l2 := Function.update s.l2 id (some { initial := s.symbolBook.buildSnapshot }) }, [])
  | .subscribeBbo id =>
    match s.bbo id with
    | some _ => (s, [])
    | none =>
      ({ s with
        symbolBook :=
          { s.symbolBook with bboFanout := s.symbolBook.bboFanout.subscribe id }
        bbo := Function.update s.bbo id (some { initial := s.symbolBook.buildBbo }) }, [])
  | .l2 id event =>
    let (l2Fanout, l2) := stepHandler s.symbolBook.l2Fanout s.l2 id event
    ({ s with symbolBook := { s.symbolBook with l2Fanout }, l2 }, [])
  | .bbo id event =>
    let (bboFanout, bbo) := stepHandler s.symbolBook.bboFanout s.bbo id event
    ({ s with symbolBook := { s.symbolBook with bboFanout }, bbo }, [])

end Service

/-- The service as a machine. -/
def serviceMachine : Machine Service ServiceEvent L2OrderBook where
  step := Service.step

end Hermeneutic
