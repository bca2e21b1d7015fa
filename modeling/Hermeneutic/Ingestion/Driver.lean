import Hermeneutic.Book.ResyncSoundness
import Hermeneutic.Exchange.SequencePolicies

/-!
# Executing a symbol's actions

What `VenueSession` does with the actions of one symbol's `SymbolSync`
(`ingestion/venue_session.hpp`): it calls the symbol's book, collects snapshot requests, and
reports whether the batch contained a gap. A call the book rejects is treated as a disconnect
of that symbol, in the middle of the batch, and the rest of the batch still runs; what a gap
leads to is decided once, after it. A venue that trusts its connection's order is
reconnected, any other asks for a new snapshot in place (`Driven.receive`).

The lemmas say what a batch leaves of the symbol: an accepted one is a run of calls on the
book, one with a rejection leaves the symbol reset and its entry to the last action.

`Received` is the summary that the session's modules use: it says, with one constructor for each
outcome, what state a message leaves the symbol in, which requests it issued and whether the
connection is to be dropped. A batch with no rejected call is `executeActions_spec`; the book's
log records the calls in order, so that what a venue holds is the replay of its own accepted calls
(`entry_eq_replay`).
-/

namespace Hermeneutic

/-- A feed together with its sequence policy, as a `VenueSession` is instantiated with them:
the snapshot comes over REST unless the connection's order is trusted to deliver it. -/
structure FeedPolicy where
  policy : SequencePolicy
  /-- `Feed::kSnapshotViaRest`. -/
  snapshotViaRest : Bool
  wired : snapshotViaRest = !policy.trustsConnectionOrder

/-- A feed whose snapshots come over REST does not trust the order of its connection. -/
theorem FeedPolicy.trusts_of_viaRest {pair : FeedPolicy} (h : pair.snapshotViaRest = true) :
    pair.policy.trustsConnectionOrder = false := by
  simpa [h] using pair.wired

theorem FeedPolicy.trusts_of_pushed {pair : FeedPolicy} (h : pair.snapshotViaRest = false) :
    pair.policy.trustsConnectionOrder = true := by
  simpa [h] using pair.wired

/-- `BinanceFuturesFeed` with its policy. -/
def binanceFutures : FeedPolicy := ⟨binanceFuturesSequencePolicy, true, rfl⟩

/-- `BinanceSpotFeed` with its policy. -/
def binanceSpot : FeedPolicy := ⟨binanceSpotSequencePolicy, true, rfl⟩

/-- `BybitLinearFeed` and `BybitSpotFeed` with their policy. -/
def bybit : FeedPolicy := ⟨bybitSequencePolicy, false, rfl⟩

/-- `OkxFeed`, spot and swap, with its policy. -/
def okx : FeedPolicy := ⟨okxSequencePolicy, false, rfl⟩

/-! ### Books and their calls -/

/-- An aggregate book together with the calls made on it since it was created, by any
venue. -/
structure LoggedBook where
  calls : List BookCall := []

namespace LoggedBook

/-- The book those calls leave. -/
def book (b : LoggedBook) : AggregateOrderBook := bookMachine.state {} b.calls

/-- Makes one more call. -/
def call (b : LoggedBook) (c : BookCall) : Except Errc Unit × LoggedBook :=
  ((b.book.call c).1, ⟨b.calls ++ [c]⟩)

/-- A venue's entry. -/
def entry (b : LoggedBook) (venue : VenueId) : Option L2OrderBook := b.book.venues venue

/-- Logging a call is making it. -/
theorem entry_eq_replay (b : LoggedBook) (venue : VenueId) : b.entry venue = replay venue b.calls :=
  (run_venues b.calls).2 venue

theorem entry_call (b : LoggedBook) (c : BookCall) (venue : VenueId) :
    (b.call c).2.entry venue =
      if c.venue = venue ∧ c.op.valid then c.op.replay (b.entry venue) else b.entry venue := by
  rw [entry_eq_replay, entry_eq_replay, call, replay_concat]

private theorem call_result (b : LoggedBook) (c : BookCall) :
    (b.call c).1 = if c.op.valid then .ok () else .error .invalidArgument := by
  rw [call, AggregateOrderBook.call_eq]
  split <;> rfl

end LoggedBook

/-! ### Executing actions -/

/-- What the execution of a symbol's actions works on: its `SymbolSync`, its book if it has
one, and the snapshot requests issued, each with the state it was issued in. -/
structure Driven where
  sync : SymbolSync := {}
  book : Option LoggedBook := some {}
  requests : List SyncState := []

/-- Whether the action is a snapshot or a delta for the book. -/
def SyncAction.applies : SyncAction → Bool
  | applySnapshot _ _ | applyDelta _ _ => true
  | _ => false

theorem SyncAction.exists_bookOp (action : SyncAction) (h : action.applies) :
    ∃ op, action.bookOp = some op ∧ action ≠ .invalidateVenue := by
  cases action with
  | requestSnapshot | invalidateVenue => simp [applies] at h
  | applySnapshot bids asks => exact ⟨_, rfl, by simp⟩
  | applyDelta bids asks => exact ⟨_, rfl, by simp⟩

namespace Driven

variable (venue : VenueId)

/-- Calls the book, if there is one; the flag is whether it rejected the call. -/
def callBook (d : Driven) (op : BookOp) : Driven × Bool :=
  match d.book with
  | none => (d, false)
  | some book =>
    let (result, book) := book.call ⟨venue, op⟩
    ({ d with book := some book }, match result with | .ok _ => false | .error _ => true)

/-- Carries out one action; the flag is `apply_failed`. -/
def visit (d : Driven) : SyncAction → Driven × Bool
  | .requestSnapshot => ({ d with requests := d.requests ++ [d.sync.state] }, false)
  | .applySnapshot bids asks => d.callBook venue (.applySnapshot bids asks)
  | .applyDelta bids asks => d.callBook venue (.applyBatch bids asks)
  | .invalidateVenue => ((d.callBook venue .invalidateVenue).1, false)

/-- Carries out one action, and, when the book rejects it, the actions of a disconnect; the
flag is whether the venue was invalidated. Those actions are one `InvalidateVenue`, which is
never rejected, so the recursion of the source is one level deep. -/
def executeAction (d : Driven) (action : SyncAction) : Driven × Bool :=
  let (d, applyFailed) := d.visit venue action
  if !applyFailed then (d, action = .invalidateVenue)
  else
    let (sync, actions) := d.sync.onDisconnected
    actions.foldl
      (fun (d, gapDetected) action =>
        ((d.visit venue action).1, gapDetected || action = .invalidateVenue))
      ({ d with sync }, false)

/-- Carries out every action, and tells whether any of them invalidated the venue. -/
def executeActions (d : Driven) (actions : List SyncAction) : Driven × Bool :=
  actions.foldl
    (fun (d, gapDetected) action =>
      let (d, gap) := d.executeAction venue action
      (d, gapDetected || gap))
    (d, false)

/-- The connect of one symbol. -/
def connected (d : Driven) : Driven :=
  let (sync, actions) := d.sync.onConnected
  (executeActions venue { d with sync } actions).1

/-- The disconnect of one symbol. -/
def disconnected (d : Driven) : Driven :=
  let (sync, actions) := d.sync.onDisconnected
  (executeActions venue { d with sync } actions).1

/-- One message of the symbol: its actions, and on a gap either a new snapshot request or,
as the flag says, a forced reconnect of the whole connection. -/
def receive (policy : SequencePolicy) (d : Driven) (input : SyncInput) : Driven × Bool :=
  let (sync, actions) := d.sync.step policy input
  let (d, gapDetected) := executeActions venue { d with sync } actions
  if !gapDetected then (d, false)
  else if policy.trustsConnectionOrder then (d, true)
  else (d.connected venue, false)

/-! ### What a batch leaves -/

/-- The symbol's entry in its book. -/
def entry (d : Driven) : Option L2OrderBook := d.book.bind fun b => b.entry venue

/-- Whether the symbol's book, if it has one, takes a call. -/
def accepts (d : Driven) (op : BookOp) : Bool := d.book.isNone || op.valid

/-- A call is made and its result ignored. -/
def log (d : Driven) (op : BookOp) : Driven :=
  { d with book := d.book.map fun b => (b.call ⟨venue, op⟩).2 }

@[simp] theorem log_sync (d : Driven) (op : BookOp) : (d.log venue op).sync = d.sync := rfl

@[simp] theorem log_requests (d : Driven) (op : BookOp) :
    (d.log venue op).requests = d.requests := rfl

@[simp] theorem log_accepts (d : Driven) (op op' : BookOp) :
    (d.log venue op).accepts op' = d.accepts op' := by
  simp [log, accepts]

private theorem callBook_eq (d : Driven) (op : BookOp) :
    d.callBook venue op = (d.log venue op, !d.accepts op) := by
  obtain ⟨sync, book, requests⟩ := d
  cases book with
  | none => rfl
  | some book =>
    simp only [callBook, LoggedBook.call_result, log, accepts]
    cases op.valid <;> rfl

@[simp] theorem entry_log_invalidate (d : Driven) :
    (d.log venue .invalidateVenue).entry venue = none := by
  obtain ⟨sync, book, requests⟩ := d
  cases book with
  | none => rfl
  | some book => simp [entry, log, LoggedBook.entry_call, BookOp.valid, BookOp.replay]

private theorem entry_log_of_accepts {d : Driven} {op : BookOp} (hbook : d.book.isSome)
    (h : d.accepts op) : (d.log venue op).entry venue = op.replay (d.entry venue) := by
  obtain ⟨sync, book, requests⟩ := d
  cases book with
  | none => simp at hbook
  | some book =>
    have hvalid : op.valid := h
    simp [entry, log, LoggedBook.entry_call, hvalid]

/-- An accepted snapshot or delta is one call; a rejected one is followed by a disconnect. -/
theorem executeAction_apply (d : Driven) {action : SyncAction} {op : BookOp}
    (hop : action.bookOp = some op) (hne : action ≠ .invalidateVenue) :
    d.executeAction venue action =
      if d.accepts op then (d.log venue op, false)
      else ({ (d.log venue op).log venue .invalidateVenue with sync := {} }, true) := by
  have hvisit : d.visit venue action = (d.log venue op, !d.accepts op) := by
    cases action with
    | requestSnapshot => simp [SyncAction.bookOp] at hop
    | applySnapshot bids asks =>
      obtain rfl := Option.some.inj hop
      exact callBook_eq venue d _
    | applyDelta bids asks =>
      obtain rfl := Option.some.inj hop
      exact callBook_eq venue d _
    | invalidateVenue => exact absurd rfl hne
  simp only [executeAction, hvisit]
  cases d.accepts op with
  | true => simp [hne]
  | false =>
    simp [SymbolSync.onDisconnected, visit, callBook_eq, log]
    rfl

theorem executeAction_invalidate (d : Driven) :
    d.executeAction venue .invalidateVenue = (d.log venue .invalidateVenue, true) := by
  simp [executeAction, visit, callBook_eq]

theorem executeAction_request (d : Driven) :
    d.executeAction venue .requestSnapshot =
      ({ d with requests := d.requests ++ [d.sync.state] }, false) := by
  simp [executeAction, visit]

@[simp] theorem executeActions_nil (d : Driven) : d.executeActions venue [] = (d, false) := rfl

private theorem executeActions_append (d : Driven) (actions actions' : List SyncAction) :
    d.executeActions venue (actions ++ actions') =
      (((d.executeActions venue actions).1.executeActions venue actions').1,
        (d.executeActions venue actions).2 ||
          ((d.executeActions venue actions).1.executeActions venue actions').2) := by
  have hflag : ∀ (l : List SyncAction) (d : Driven) (b : Bool),
      l.foldl (fun (p : Driven × Bool) action =>
        ((p.1.executeAction venue action).1, p.2 || (p.1.executeAction venue action).2)) (d, b) =
      ((d.executeActions venue l).1, b || (d.executeActions venue l).2) := by
    intro l
    induction l with
    | nil => simp
    | cons action l ih =>
      intro d b
      simp only [List.foldl_cons, executeActions]
      rw [ih, ih]
      simp [Bool.or_assoc]
  simp only [executeActions, List.foldl_append]
  exact hflag _ _ _

private theorem executeActions_singleton (d : Driven) (action : SyncAction) :
    d.executeActions venue [action] = d.executeAction venue action := by
  simp [executeActions]

theorem executeActions_cons (d : Driven) (action : SyncAction) (actions : List SyncAction) :
    d.executeActions venue (action :: actions) =
      (((d.executeAction venue action).1.executeActions venue actions).1,
        (d.executeAction venue action).2 ||
          ((d.executeAction venue action).1.executeActions venue actions).2) := by
  rw [← List.singleton_append, executeActions_append, executeActions_singleton]

@[simp] theorem log_book_isSome (d : Driven) (op : BookOp) :
    (d.log venue op).book.isSome = d.book.isSome := by
  simp [log]

theorem accepts_congr {d d' : Driven} (h : d'.book.isSome = d.book.isSome) :
    d'.accepts = d.accepts := by
  funext op
  rw [accepts, accepts, ← Option.not_isSome, ← Option.not_isSome, h]

/-- A book that is there takes the valid calls. -/
theorem accepts_eq_valid {d : Driven} (hbook : d.book.isSome) : d.accepts = BookOp.valid := by
  funext op
  rw [accepts, ← Option.not_isSome, hbook]
  rfl

/-- **A batch of snapshots and deltas.** If the book takes all of them, the symbol is left
alone; if it rejects any, the symbol is reset and the batch counts as a gap. -/
theorem executeActions_spec {actions : List SyncAction} (happlies : ∀ a ∈ actions, a.applies)
    (d : Driven) :
    (d.executeActions venue actions).1.sync =
        (if (bookOps actions).all d.accepts then d.sync else {}) ∧
      (d.executeActions venue actions).2 = !(bookOps actions).all d.accepts ∧
      (d.executeActions venue actions).1.requests = d.requests ∧
      (d.executeActions venue actions).1.book.isSome = d.book.isSome := by
  induction actions generalizing d with
  | nil => exact ⟨rfl, rfl, rfl, rfl⟩
  | cons action actions ih =>
    obtain ⟨op, hop, hne⟩ := action.exists_bookOp (happlies action List.mem_cons_self)
    have hops : bookOps (action :: actions) = op :: bookOps actions := by
      simp [bookOps, hop]
    have hrest := ih (fun a ha => happlies a (List.mem_cons_of_mem _ ha))
      (d.executeAction venue action).1
    rw [executeActions_cons, hops, List.all_cons]
    rw [executeAction_apply venue d hop hne] at hrest ⊢
    cases haccepts : d.accepts op with
    | true =>
      simp only [haccepts, if_true, Bool.true_and, Bool.false_or] at hrest ⊢
      have hcongr : (d.log venue op).accepts = d.accepts := accepts_congr (by simp)
      rw [hcongr] at hrest
      exact ⟨hrest.1, hrest.2.1, hrest.2.2.1, by simpa using hrest.2.2.2⟩
    | false =>
      simp only [haccepts, Bool.false_eq_true, if_false, Bool.false_and, Bool.true_or,
        Bool.not_false] at hrest ⊢
      refine ⟨?_, trivial, hrest.2.2.1, by simpa using hrest.2.2.2⟩
      rw [hrest.1]
      split <;> rfl

/-- The last action of a batch decides whether the venue keeps an entry. -/
theorem entry_executeActions_concat {actions : List SyncAction} {last : SyncAction}
    (happlies : ∀ a ∈ actions, a.applies) (hlast : last.applies) {d : Driven}
    (hbook : d.book.isSome) :
    ((d.executeActions venue (actions ++ [last])).1.entry venue).isSome =
      (bookOps [last]).all d.accepts := by
  obtain ⟨op, hop, hne⟩ := last.exists_bookOp hlast
  obtain ⟨-, -, -, hsome⟩ := executeActions_spec venue happlies d
  have hcongr := accepts_congr hsome
  have hops : bookOps [last] = [op] := by simp [bookOps, hop]
  rw [executeActions_append, executeActions_singleton, executeAction_apply venue _ hop hne, hops,
    hcongr, List.all_cons, List.all_nil, Bool.and_true]
  cases haccepts : d.accepts op with
  | true =>
    rw [if_pos rfl, entry_log_of_accepts venue (by rw [hsome]; exact hbook)
      (by rw [hcongr]; exact haccepts)]
    cases last with
    | requestSnapshot | invalidateVenue => simp [SyncAction.applies] at hlast
    | applySnapshot bids asks =>
      obtain rfl := Option.some.inj hop
      rfl
    | applyDelta bids asks =>
      obtain rfl := Option.some.inj hop
      rfl
  | false =>
    rw [if_neg (by simp)]
    have := entry_log_invalidate venue
      (((d.executeActions venue actions).1.log venue op))
    rw [entry] at this ⊢
    rw [this]
    rfl

/-- A batch that ends with an invalidation is a gap and leaves no entry; the symbol is as it
was or reset. -/
theorem executeActions_invalidate {actions : List SyncAction}
    (happlies : ∀ a ∈ actions, a.applies) (d : Driven) :
    (d.executeActions venue (actions ++ [.invalidateVenue])).2 = true ∧
      (d.executeActions venue (actions ++ [.invalidateVenue])).1.entry venue = none ∧
      ((d.executeActions venue (actions ++ [.invalidateVenue])).1.sync = d.sync ∨
        (d.executeActions venue (actions ++ [.invalidateVenue])).1.sync = {}) ∧
      (d.executeActions venue (actions ++ [.invalidateVenue])).1.requests = d.requests ∧
      (d.executeActions venue (actions ++ [.invalidateVenue])).1.book.isSome = d.book.isSome := by
  obtain ⟨hsync, -, hrequests, hsome⟩ := executeActions_spec venue happlies d
  rw [executeActions_append, executeActions_singleton, executeAction_invalidate]
  refine ⟨by simp, by simp, ?_, hrequests, by simpa using hsome⟩
  rw [log_sync, hsync]
  split
  · exact .inl rfl
  · exact .inr rfl

/-- A connect asks for a snapshot, once, and does nothing else. -/
theorem connected_eq (d : Driven) :
    d.connected venue =
      if d.sync.state = .buffering ∧ d.sync.snapshotRequested = false then
        { d with sync := { d.sync with snapshotRequested := true },
                 requests := d.requests ++ [d.sync.state] }
      else d := by
  simp only [connected, SymbolSync.onConnected, Bool.not_eq_true']
  split
  · rw [executeActions_singleton, executeAction_request]
  · rfl

/-- A disconnect resets the symbol and removes its entry. -/
theorem disconnected_eq (d : Driven) :
    d.disconnected venue = { d.log venue .invalidateVenue with sync := {} } := by
  simp only [disconnected, SymbolSync.onDisconnected, executeActions_singleton,
    executeAction_invalidate]
  rfl

end Driven

/-- The actions of a replayed snapshot are all calls of the book. -/
theorem applies_replay (snapshot : SnapshotMessage) (updates : List DepthUpdate) :
    ∀ a ∈ (SyncEvent.applySnapshot snapshot :: updates.map .applyDelta).map SyncEvent.action,
      a.applies := by
  intro a ha
  simp only [List.map_cons, List.map_map, List.mem_cons, List.mem_map] at ha
  rcases ha with rfl | ⟨update, -, rfl⟩ <;> rfl

namespace Driven

variable {policy : SequencePolicy} {venue : VenueId}

/-- What `receive` does, once the actions of the call are known. -/
theorem receive_eq {d : Driven} {input : SyncInput} {events : List SyncEvent}
    (hevents : (d.sync.step policy input).2 = events.map SyncEvent.action) :
    d.receive venue policy input =
      let r := executeActions venue { d with sync := (d.sync.step policy input).1 }
        (events.map SyncEvent.action)
      if !r.2 then (r.1, false)
      else if policy.trustsConnectionOrder then (r.1, true) else (r.1.connected venue, false) := by
  simp only [receive, hevents]

/-! ### What a message leaves -/

/-- The ways a message can leave its symbol: the symbol before, the message, the symbol
after, and whether a reconnect is forced. -/
inductive Received (policy : SequencePolicy) (d : Driven) : SyncInput → Driven × Bool → Prop
  /-- An update is buffered or applied. -/
  | quiet {update : DepthUpdate} {r : Driven} (hstate : r.sync.state = d.sync.state)
      (hrequests : r.requests = d.requests) : Received policy d (.depthUpdate update) (r, false)
  /-- A snapshot makes the symbol live. -/
  | synced {snapshot : SnapshotMessage} {r : Driven} (hstate : r.sync.state = .live)
      (hrequests : r.requests = d.requests) : Received policy d (.snapshot snapshot) (r, false)
  /-- A snapshot is not bridged, and another one is requested. -/
  | retried {snapshot : SnapshotMessage} (htrusts : policy.trustsConnectionOrder = false) :
      Received policy d (.snapshot snapshot)
        ({ d with sync := { d.sync with buffer := kept policy d.sync.buffer snapshot },
                  requests := d.requests ++ [d.sync.state] }, false)
  /-- The symbol starts over and requests a snapshot; an update does that to a live symbol
  only. -/
  | resynced {input : SyncInput} {r : Driven} (htrusts : policy.trustsConnectionOrder = false)
      (hinput : ∀ update, input = .depthUpdate update → d.sync.state = .live)
      (hstate : r.sync.state = .buffering) (hrequests : r.requests = d.requests ++ [.buffering]) :
      Received policy d input (r, false)
  /-- A reconnect is forced. -/
  | forced {input : SyncInput} {r : Driven} (htrusts : policy.trustsConnectionOrder = true)
      (hrequests : r.requests = d.requests) : Received policy d input (r, true)

/-- A gap is answered with a reconnect or a request. -/
private theorem received_of_gap {d r : Driven} {input : SyncInput}
    (hinput : ∀ update, input = .depthUpdate update → d.sync.state = .live)
    (hstate : r.sync.state = .buffering) (hrequested : r.sync.snapshotRequested = false)
    (hrequests : r.requests = d.requests) :
    Received policy d input
      (if policy.trustsConnectionOrder then (r, true) else (r.connected venue, false)) := by
  cases htrusts : policy.trustsConnectionOrder with
  | true => exact .forced htrusts hrequests
  | false =>
    rw [if_neg Bool.false_ne_true, connected_eq, if_pos ⟨hstate, hrequested⟩]
    exact .resynced htrusts hinput hstate (by rw [hrequests, hstate])

/-- A batch that ends with an invalidation is a gap. -/
private theorem received_of_invalidate {d : Driven} {input : SyncInput} (sync : SymbolSync)
    (hinput : ∀ update, input = .depthUpdate update → d.sync.state = .live)
    (hstate : sync.state = .buffering) (hrequested : sync.snapshotRequested = false)
    {actions : List SyncAction} (happlies : ∀ a ∈ actions, a.applies) :
    let r := executeActions venue { d with sync } (actions ++ [.invalidateVenue])
    Received policy d input (if !r.2 then (r.1, false)
      else if policy.trustsConnectionOrder then (r.1, true)
      else (r.1.connected venue, false)) := by
  intro r
  obtain ⟨hgap, -, hsync, hrequests, -⟩ := executeActions_invalidate venue happlies { d with sync }
  simp only [r, hgap, Bool.not_true, Bool.false_eq_true, if_false]
  rcases hsync with hsync | hsync
  · exact received_of_gap hinput (by rw [hsync]; exact hstate) (by rw [hsync]; exact hrequested)
      hrequests
  · exact received_of_gap hinput (by rw [hsync]) (by rw [hsync]) hrequests

/-- A batch of snapshots and deltas is one when the book rejects any of it. -/
private theorem received_of_applies {d : Driven} {input : SyncInput} (sync : SymbolSync)
    (hinput : ∀ update, input = .depthUpdate update → d.sync.state = .live)
    {actions : List SyncAction} (happlies : ∀ a ∈ actions, a.applies)
    (haccepted : ∀ r : Driven, r.sync = sync → r.requests = d.requests →
      Received policy d input (r, false)) :
    let r := executeActions venue { d with sync } actions
    Received policy d input (if !r.2 then (r.1, false)
      else if policy.trustsConnectionOrder then (r.1, true)
      else (r.1.connected venue, false)) := by
  intro r
  obtain ⟨hsync, hgap, hrequests, -⟩ := executeActions_spec venue happlies { d with sync }
  cases hall : (bookOps actions).all (Driven.accepts { d with sync }) with
  | true =>
    rw [hall] at hsync hgap
    simp only [r, hgap, Bool.not_true, Bool.not_false, if_true]
    exact haccepted _ hsync hrequests
  | false =>
    rw [hall] at hsync hgap
    simp only [r, hgap, Bool.not_false, Bool.not_true, Bool.false_eq_true, if_false]
    exact received_of_gap hinput (by rw [hsync]; rfl) (by rw [hsync]; rfl) hrequests

theorem received_depthUpdate (policy : SequencePolicy) (venue : VenueId) (d : Driven)
    (update : DepthUpdate) :
    Received policy d (.depthUpdate update) (d.receive venue policy (.depthUpdate update)) := by
  obtain ⟨events, hevents, hstep⟩ := step_syncStep policy d.sync (.depthUpdate update)
  rw [receive_eq hevents]
  generalize (d.sync.step policy (.depthUpdate update)).1 = sync' at hstep
  cases hstep with
  | buffered => exact .quiet rfl rfl
  | delta hstate =>
    exact received_of_applies _ (fun _ _ => hstate)
      (by simp [SyncEvent.action, SyncAction.applies])
      fun r hsync hrequests => .quiet (by rw [hsync]) hrequests
  | deltaGap hstate =>
    exact received_of_invalidate (gapped _) (fun _ _ => hstate) rfl rfl (List.forall_mem_nil _)

theorem received_snapshot (policy : SequencePolicy) (venue : VenueId) (d : Driven)
    (snapshot : SnapshotMessage) :
    Received policy d (.snapshot snapshot) (d.receive venue policy (.snapshot snapshot)) := by
  have hinput : ∀ update, SyncInput.snapshot snapshot = .depthUpdate update →
      d.sync.state = .live := by
    simp
  obtain ⟨events, hevents, hstep⟩ := step_syncStep policy d.sync (.snapshot snapshot)
  rw [receive_eq hevents]
  generalize (d.sync.step policy (.snapshot snapshot)).1 = sync' at hstep
  cases hstep with
  | goLive =>
    exact received_of_applies _ hinput (applies_replay snapshot [])
      fun r hsync hrequests => .synced (by rw [hsync]) hrequests
  | noBridgeGap => exact received_of_invalidate (gapped _) hinput rfl rfl (List.forall_mem_nil _)
  | retry htrusts =>
    simp only [List.map_cons, List.map_nil, SyncEvent.action, executeActions_singleton,
      executeAction_request, Bool.not_false, if_true]
    exact .retried htrusts
  | @bridged _ skipped tail bridge =>
    exact received_of_applies _ hinput (applies_replay snapshot (bridge :: tail))
      fun r hsync hrequests => .synced (by rw [hsync]) hrequests
  | @bridgedGap _ skipped applied rest bridge =>
    have hsplit : (SyncEvent.applySnapshot snapshot ::
        ((bridge :: applied).map .applyDelta ++ [.invalidateVenue])).map SyncEvent.action =
        (SyncEvent.applySnapshot snapshot :: (bridge :: applied).map .applyDelta).map
          SyncEvent.action ++ [.invalidateVenue] := by
      rw [← List.cons_append, List.map_append]
      rfl
    rw [hsplit]
    exact received_of_invalidate (gapped _) hinput rfl rfl
      (applies_replay snapshot (bridge :: applied))

/-- A fetched snapshot finds nothing to bridge it in a symbol that was reset. -/
theorem receive_snapshot_of_reset (htrusts : policy.trustsConnectionOrder = false) {d : Driven}
    (hsync : d.sync = {}) (snapshot : SnapshotMessage) :
    d.receive venue policy (.snapshot snapshot) =
      ({ d with requests := d.requests ++ [.buffering] }, false) := by
  obtain ⟨sync, book, requests⟩ := d
  obtain rfl : sync = {} := hsync
  have hstep : SymbolSync.step policy {} (.snapshot snapshot) = ({}, [.requestSnapshot]) := by
    simp [SymbolSync.step, SymbolSync.onSnapshot, htrusts]
  simp only [receive, hstep, executeActions_singleton, executeAction_request, Bool.not_false,
    if_true]

end Driven

end Hermeneutic
