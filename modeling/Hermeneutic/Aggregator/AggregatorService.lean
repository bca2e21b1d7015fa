import Hermeneutic.Aggregator.CallStatus
import Hermeneutic.Symbol.BookId

/-!
# The service of all books

`AggregatorService` (`apps/aggregator/aggregator_service.hpp`) serves a fixed set of books on
one port. A request names a book by its wire identity (`apps/aggregator/book_id.hpp`), which is
checked before anything else: a malformed one is an `INVALID_ARGUMENT`, one that is not served a
`NOT_FOUND`, and any other makes its handler thread a subscriber of that book. A call that ends
returns a status.

`aggregatorMachine` runs all books with all their subscribers. Seen from one book it is the
machine of that book (`books_independent`), so that the results about one `SymbolBook` hold of
every book of a server, whatever is asked of the others. Every call returns one status and is
registered until it is over (`calls_accounted`).

Both results are projections. An event is routed to at most one book, and the step of the whole
server changes that book as the step of its own machine does and leaves every other as it is; by
induction on the run a book has seen exactly the events routed to it. What a call returns is then
a fact about one book, whose ledger is kept in `CallStatus`. That there is a book and that none is
there twice are fields of `ServedBooks`, so that no result has to assume it.
-/

namespace Hermeneutic

/-! ### Book identities on the wire -/

/-- The `BookId` message; its `market` is an open enumeration. -/
structure WireBookId where
  base : String
  quote : String
  market : Int32
  deriving DecidableEq

/-- The wire values of `SPOT` and `PERP`. -/
def wireMarket : MarketType → Int32
  | .spot => 1
  | .perp => 2

/-- The book a wire identity names, unless it is malformed. -/
def toSymbolBookId (wire : WireBookId) : Option BookId :=
  if wire.base.isEmpty || wire.quote.isEmpty then none
  else if wire.market = wireMarket .spot then some ⟨⟨⟨wire.base⟩, ⟨wire.quote⟩⟩, .spot⟩
  else if wire.market = wireMarket .perp then some ⟨⟨⟨wire.base⟩, ⟨wire.quote⟩⟩, .perp⟩
  else none

def fillWireBookId (id : BookId) : WireBookId :=
  ⟨id.symbol.base.code, id.symbol.quote.code, wireMarket id.type⟩

/-- **Wire identities round-trip**, where both codes are there. -/
theorem toSymbolBookId_eq_some_iff {wire : WireBookId} {id : BookId} :
    toSymbolBookId wire = some id ↔
      fillWireBookId id = wire ∧ id.symbol.base.code ≠ "" ∧ id.symbol.quote.code ≠ "" := by
  obtain ⟨base, quote, market⟩ := wire
  obtain ⟨⟨⟨base'⟩, ⟨quote'⟩⟩, type⟩ := id
  have hne : wireMarket .perp ≠ wireMarket .spot := by decide
  simp only [toSymbolBookId, fillWireBookId, WireBookId.mk.injEq, Bool.or_eq_true,
    String.isEmpty_iff]
  constructor
  · intro h
    split_ifs at h with hempty hspot hperp
    · obtain ⟨⟨⟨rfl⟩, ⟨rfl⟩⟩, rfl⟩ := BookId.mk.inj (Option.some.inj h)
      exact ⟨⟨rfl, rfl, hspot.symm⟩, not_or.mp hempty⟩
    · obtain ⟨⟨⟨rfl⟩, ⟨rfl⟩⟩, rfl⟩ := BookId.mk.inj (Option.some.inj h)
      exact ⟨⟨rfl, rfl, hperp.symm⟩, not_or.mp hempty⟩
  · rintro ⟨⟨rfl, rfl, rfl⟩, hempty⟩
    rw [if_neg (not_or.mpr hempty)]
    cases type with
    | spot => rw [if_pos rfl]
    | perp => rw [if_neg hne, if_pos rfl]

/-! ### All books -/

/-- The books a server is constructed with; both conditions are asserted. -/
structure ServedBooks where
  ids : List BookId
  nonempty : ids ≠ []
  nodup : ids.Nodup

/-- What may happen next. -/
inductive AggregatorEvent
  /-- The ingestion calls a book. -/
  | call (id : BookId) (c : BookCall)
  /-- The turn of one book in the loop of `send_heartbeat`. -/
  | sendHeartbeat (id : BookId)
  /-- `SubscribeL2Diff` or `SubscribeBbo`. -/
  | request (stream : Stream) (wire : WireBookId) (subscriber : SubscriberId)
  /-- A step of a call's handler. -/
  | handler (stream : Stream) (id : BookId) (subscriber : SubscriberId) (event : HandlerEvent)

inductive AggregatorOutput
  | revision (id : BookId) (book : L2OrderBook)
  /-- A request was answered without a stream. -/
  | refused (status : RpcStatus)
  | returned (id : BookId) (returned : Returned)

namespace ServedBooks

variable (served : ServedBooks)

/-- The checks both requests start with. -/
def target (wire : WireBookId) : Except RpcStatus BookId :=
  match toSymbolBookId wire with
  | none => .error (.invalidArgument
      "malformed book: base/quote must be non-empty and market must be SPOT or PERP")
  | some id =>
    if id ∈ served.ids then .ok id
    else .error (.notFound ("unknown book: " ++ id.toString))

/-- Routes an event to a book, if there is one. -/
def feed (s : BookId → Service) (id : BookId) (event : ServiceEvent) :
    (BookId → Service) × List AggregatorOutput :=
  if id ∈ served.ids then
    (Function.update s id ((s id).step event).1,
      ((s id).step event).2.map (.revision id) ++ ((s id).returns event).map (.returned id))
  else (s, [])

def step (s : BookId → Service) : AggregatorEvent → (BookId → Service) × List AggregatorOutput
  | .call id c => served.feed s id (.call c)
  | .sendHeartbeat id => served.feed s id .sendHeartbeat
  | .request stream wire subscriber =>
    match served.target wire with
    | .ok id => served.feed s id (stream.subscribe subscriber)
    | .error status => (s, [.refused status])
  | .handler stream id subscriber event => served.feed s id (stream.handler subscriber event)

/-- What `ListBooks` responds; `unordered_map` leaves the order open. -/
def listBooks : List WireBookId := served.ids.map fillWireBookId

end ServedBooks

/-- The service of all books as a machine. -/
def aggregatorMachine (served : ServedBooks) :
    Machine (BookId → Service) AggregatorEvent AggregatorOutput where
  step := served.step

/-! ### One book of them -/

/-- What an event is to one book. -/
def AggregatorEvent.routed (id : BookId) : AggregatorEvent → Option ServiceEvent
  | call id' c => if id' = id then some (.call c) else none
  | sendHeartbeat id' => if id' = id then some .sendHeartbeat else none
  | request stream wire subscriber =>
    if toSymbolBookId wire = some id then some (stream.subscribe subscriber) else none
  | handler stream id' subscriber event =>
    if id' = id then some (stream.handler subscriber event) else none

namespace AggregatorOutput

/-- The revisions of one book among the outputs. -/
def revisionOf (id : BookId) : AggregatorOutput → Option L2OrderBook
  | revision id' book => if id' = id then some book else none
  | _ => none

/-- The statuses of one book's calls among the outputs. -/
def returnedOf (id : BookId) : AggregatorOutput → Option Returned
  | returned id' r => if id' = id then some r else none
  | _ => none

end AggregatorOutput

namespace ServedBooks

variable {served : ServedBooks} {id id' : BookId} (s : BookId → Service)

open AggregatorOutput

/-- What an event of a book does to it. -/
private theorem feed_self (hid : id ∈ served.ids) (event : ServiceEvent) :
    (served.feed s id event).1 id = ((s id).step event).1 ∧
      (served.feed s id event).2.filterMap (revisionOf id) = ((s id).step event).2 ∧
      (served.feed s id event).2.filterMap (returnedOf id) = (s id).returns event := by
  have hrevision : ∀ books : List L2OrderBook,
      (books.map (revision id)).filterMap (revisionOf id) = books ∧
        (books.map (revision id)).filterMap (returnedOf id) = [] := by
    intro books
    induction books with
    | nil => exact ⟨rfl, rfl⟩
    | cons book books ih => simp [revisionOf, returnedOf, ih.1]
  have hreturned : ∀ statuses : List Returned,
      (statuses.map (returned id)).filterMap (revisionOf id) = [] ∧
        (statuses.map (returned id)).filterMap (returnedOf id) = statuses := by
    intro statuses
    induction statuses with
    | nil => exact ⟨rfl, rfl⟩
    | cons status statuses ih => simp [revisionOf, returnedOf, ih.2]
  rw [feed, if_pos hid]
  simp only [Function.update_self, List.filterMap_append, hrevision, hreturned, List.append_nil,
    List.nil_append, and_self]

/-- An event of another book does nothing to it. -/
private theorem feed_other (hne : id' ≠ id) (event : ServiceEvent) :
    (served.feed s id' event).1 id = s id ∧
      (served.feed s id' event).2.filterMap (revisionOf id) = [] ∧
      (served.feed s id' event).2.filterMap (returnedOf id) = [] := by
  rw [feed]
  split
  · refine ⟨Function.update_of_ne hne.symm _ _, ?_⟩
    constructor <;> simp [List.filterMap_eq_nil_iff, revisionOf, returnedOf, hne]
  · exact ⟨rfl, rfl, rfl⟩

/-- A step with an event of the book. -/
private theorem step_of_routed (hid : id ∈ served.ids) {event : AggregatorEvent}
    {event' : ServiceEvent}
    (hrouted : event.routed id = some event') :
    served.step s event = served.feed s id event' := by
  cases event with
  | call id' c | sendHeartbeat id' | handler stream id' subscriber event =>
    rw [AggregatorEvent.routed, Option.ite_none_right_eq_some] at hrouted
    obtain ⟨rfl, hevent⟩ := hrouted
    rw [← Option.some.inj hevent]
    rfl
  | request stream wire subscriber =>
    rw [AggregatorEvent.routed, Option.ite_none_right_eq_some] at hrouted
    obtain ⟨hwire, hevent⟩ := hrouted
    simp only [step, target, hwire, if_pos hid, Option.some.inj hevent]

/-- A step with any other event. -/
private theorem step_of_not_routed {event : AggregatorEvent} (hrouted : event.routed id = none) :
    (served.step s event).1 id = s id ∧
      (served.step s event).2.filterMap (revisionOf id) = [] ∧
      (served.step s event).2.filterMap (returnedOf id) = [] := by
  cases event with
  | call id' c | sendHeartbeat id' | handler stream id' subscriber event =>
    exact feed_other s (by simpa [AggregatorEvent.routed] using hrouted) _
  | request stream wire subscriber =>
    have hwire : toSymbolBookId wire ≠ some id := by
      simpa [AggregatorEvent.routed] using hrouted
    simp only [step]
    cases htarget : served.target wire with
    | error status => exact ⟨rfl, rfl, rfl⟩
    | ok id' =>
      refine feed_other s (fun heq => hwire ?_) _
      rw [← heq]
      rw [target] at htarget
      split at htarget
      · cases htarget
      · rename_i id'' hsome
        split_ifs at htarget
        rw [hsome, Except.ok.inj htarget]

end ServedBooks

/-- **Books are independent.** Whatever a server does, each of its books is in the state, and
has made the revisions, that the events of that book alone lead to. -/
theorem books_independent (served : ServedBooks) {id : BookId} (hid : id ∈ served.ids)
    (events : List AggregatorEvent) :
    (aggregatorMachine served).state (fun _ => {}) events id =
        serviceMachine.state {} (events.filterMap (AggregatorEvent.routed id)) ∧
      ((aggregatorMachine served).output (fun _ => {}) events).filterMap
          (AggregatorOutput.revisionOf id) =
        serviceMachine.output {} (events.filterMap (AggregatorEvent.routed id)) := by
  have hsome : ∀ s event event', AggregatorEvent.routed id event = some event' →
      ((aggregatorMachine served).step s event).1 id = (serviceMachine.step (s id) event').1 ∧
        ((aggregatorMachine served).step s event).2.filterMap (AggregatorOutput.revisionOf id) =
          (serviceMachine.step (s id) event').2 := by
    intro s event event' hrouted
    obtain ⟨hstate, hrevisions, -⟩ := ServedBooks.feed_self s hid event'
    rw [← ServedBooks.step_of_routed s hid hrouted] at hstate hrevisions
    exact ⟨hstate, hrevisions⟩
  have hnone : ∀ s event, AggregatorEvent.routed id event = none →
      ((aggregatorMachine served).step s event).1 id = s id ∧
        ((aggregatorMachine served).step s event).2.filterMap
          (AggregatorOutput.revisionOf id) = [] := by
    intro s event hrouted
    obtain ⟨hstate, hrevisions, -⟩ := ServedBooks.step_of_not_routed s hrouted
    exact ⟨hstate, hrevisions⟩
  exact @Machine.project _ _ _ (aggregatorMachine served) _ _ _ serviceMachine (fun s => s id)
    (AggregatorOutput.revisionOf id) (AggregatorEvent.routed id) hsome hnone (fun _ => {}) events

/-- Two markets of one pair. -/
def spotAndPerp : ServedBooks :=
  ⟨[⟨⟨⟨"BTC"⟩, ⟨"USDT"⟩⟩, .spot⟩, ⟨⟨⟨"BTC"⟩, ⟨"USDT"⟩⟩, .perp⟩], by decide, by decide⟩

/-- A client subscribes to each of the two, and one of them is gone before it is answered. -/
def droppedRequest : List AggregatorEvent :=
  [.request .l2 ⟨"BTC", "USDT", 1⟩ 0, .request .bbo ⟨"BTC", "USDT", 2⟩ 0,
    .request .bbo ⟨"ETH", "USDT", 1⟩ 1, .sendHeartbeat ⟨⟨⟨"BTC"⟩, ⟨"USDT"⟩⟩, .spot⟩,
    .handler .l2 ⟨⟨⟨"BTC"⟩, ⟨"USDT"⟩⟩, .spot⟩ 0 (.write false),
    .handler .l2 ⟨⟨⟨"BTC"⟩, ⟨"USDT"⟩⟩, .spot⟩ 0 .endBootstrap]

theorem books_independent_sample :
    (aggregatorMachine spotAndPerp).state (fun _ => {}) droppedRequest
        ⟨⟨⟨"BTC"⟩, ⟨"USDT"⟩⟩, .perp⟩ =
      serviceMachine.state {} [.subscribeBbo 0] ∧
    ((aggregatorMachine spotAndPerp).output (fun _ => {}) droppedRequest).filterMap
        (AggregatorOutput.revisionOf ⟨⟨⟨"BTC"⟩, ⟨"USDT"⟩⟩, .perp⟩) =
      serviceMachine.output {} [.subscribeBbo 0] :=
  books_independent spotAndPerp (by decide) droppedRequest

/-- **Every call is accounted for.** Whatever a server does, a call of one of its books has
returned nothing while it is in its loop and one status once it has left it: for a
`SubscribeL2Diff` that found its queue closed `RESOURCE_EXHAUSTED`, and `OK` in every other case.
Its queue is registered exactly until it is over. How a call left is told by the events of its
book alone. -/
theorem calls_accounted (served : ServedBooks) {id : BookId} (hid : id ∈ served.ids)
    (events : List AggregatorEvent) (stream : Stream) (subscriber : SubscriberId) :
    ((aggregatorMachine served).state (fun _ => {}) events id).Accounts stream subscriber
      (LeftOnClosed (events.filterMap (AggregatorEvent.routed id)) stream subscriber)
      ((((aggregatorMachine served).output (fun _ => {}) events).filterMap
        (AggregatorOutput.returnedOf id)).filterMap (Returned.of stream subscriber)) := by
  have hsome : ∀ s event event', AggregatorEvent.routed id event = some event' →
      ((aggregatorMachine served).step s event).1 id = (callMachine.step (s id) event').1 ∧
        ((aggregatorMachine served).step s event).2.filterMap (AggregatorOutput.returnedOf id) =
          (callMachine.step (s id) event').2 := by
    intro s event event' hrouted
    obtain ⟨hstate, -, hreturned⟩ := ServedBooks.feed_self s hid event'
    rw [← ServedBooks.step_of_routed s hid hrouted] at hstate hreturned
    exact ⟨hstate, hreturned⟩
  have hnone : ∀ s event, AggregatorEvent.routed id event = none →
      ((aggregatorMachine served).step s event).1 id = s id ∧
        ((aggregatorMachine served).step s event).2.filterMap
          (AggregatorOutput.returnedOf id) = [] := by
    intro s event hrouted
    obtain ⟨hstate, -, hreturned⟩ := ServedBooks.step_of_not_routed s hrouted
    exact ⟨hstate, hreturned⟩
  obtain ⟨hstate, hreturned⟩ := @Machine.project _ _ _ (aggregatorMachine served) _ _ _ callMachine
    (fun s => s id) (AggregatorOutput.returnedOf id) (AggregatorEvent.routed id) hsome hnone
    (fun _ => {}) events
  rw [hstate, hreturned]
  exact callMachine_accounted stream subscriber _

/-- A client that does not read while more is sent than its queue has room for. -/
def slowSubscriber : List AggregatorEvent :=
  [.request .l2 ⟨"BTC", "USDT", 1⟩ 0,
    .handler .l2 ⟨⟨⟨"BTC"⟩, ⟨"USDT"⟩⟩, .spot⟩ 0 (.write true),
    .handler .l2 ⟨⟨⟨"BTC"⟩, ⟨"USDT"⟩⟩, .spot⟩ 0 .endBootstrap] ++
  List.replicate 257 (.sendHeartbeat ⟨⟨⟨"BTC"⟩, ⟨"USDT"⟩⟩, .spot⟩) ++
  [.handler .l2 ⟨⟨⟨"BTC"⟩, ⟨"USDT"⟩⟩, .spot⟩ 0 .drain]

set_option maxRecDepth 10000 in
/-- The statuses of the slow subscriber. -/
private theorem slowSubscriber_statuses :
    (((aggregatorMachine spotAndPerp).output (fun _ => {}) slowSubscriber).filterMap
      (AggregatorOutput.returnedOf ⟨⟨⟨"BTC"⟩, ⟨"USDT"⟩⟩, .spot⟩)).filterMap (Returned.of .l2 0) =
      [.resourceExhausted "subscriber fell too far behind; reconnect for a fresh snapshot"] := by
  decide +kernel

set_option maxRecDepth 10000 in
private theorem slowSubscriber_phase :
    ((aggregatorMachine spotAndPerp).state (fun _ => {}) slowSubscriber
      ⟨⟨⟨"BTC"⟩, ⟨"USDT"⟩⟩, .spot⟩).phase .l2 0 = some .leaving := by
  decide +kernel

/-- A failed write ends a call with `OK`, a closed queue with `RESOURCE_EXHAUSTED`. -/
theorem calls_accounted_sample :
    ((aggregatorMachine spotAndPerp).state (fun _ => {}) droppedRequest
      ⟨⟨⟨"BTC"⟩, ⟨"USDT"⟩⟩, .spot⟩).Accounts .l2 0 False [.ok] ∧
    ((aggregatorMachine spotAndPerp).state (fun _ => {}) slowSubscriber
      ⟨⟨⟨"BTC"⟩, ⟨"USDT"⟩⟩, .spot⟩).Accounts .l2 0 True
        [.resourceExhausted "subscriber fell too far behind; reconnect for a fresh snapshot"] := by
  constructor
  · have hserved : (⟨⟨⟨"BTC"⟩, ⟨"USDT"⟩⟩, .spot⟩ : BookId) ∈ spotAndPerp.ids := by decide
    have h := calls_accounted spotAndPerp hserved droppedRequest .l2 0
    have hleft : ¬ LeftOnClosed
        (droppedRequest.filterMap (AggregatorEvent.routed ⟨⟨⟨"BTC"⟩, ⟨"USDT"⟩⟩, .spot⟩)) .l2 0 :=
      fun hleft => absurd ((h.ended .leaving rfl rfl).1 hleft).1 (by decide)
    exact h.congr (iff_of_false id hleft)
  · have hserved : (⟨⟨⟨"BTC"⟩, ⟨"USDT"⟩⟩, .spot⟩ : BookId) ∈ spotAndPerp.ids := by decide
    have h := calls_accounted spotAndPerp hserved slowSubscriber .l2 0
    rw [slowSubscriber_statuses] at h
    have hleft : LeftOnClosed
        (slowSubscriber.filterMap (AggregatorEvent.routed ⟨⟨⟨"BTC"⟩, ⟨"USDT"⟩⟩, .spot⟩)) .l2 0 := by
      by_contra hnot
      exact absurd ((h.ended .leaving slowSubscriber_phase rfl).2 hnot) (by decide)
    exact h.congr (iff_of_true trivial hleft)

end Hermeneutic
