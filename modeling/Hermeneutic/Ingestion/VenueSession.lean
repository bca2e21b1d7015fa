import Hermeneutic.Ingestion.Driver

/-!
# A venue session on its strand

`VenueSession` (`ingestion/venue_session.hpp`) as a machine. Everything it does runs on one
strand, so a run is a sequence of steps, each from one suspension point to the next: a
completed connect, send, read or wait of the `run()` coroutine, a completed fetch or wait of
one of the detached `handle_request_snapshot()` coroutines, or a handler posted by `start()`
and `stop()`. An event that does not fit the state is a step that does nothing, so every list
of events is a run.

Cancellation follows the assumptions of the source's comments: `stop()` latches a terminal
cancellation on `run()` and on every fetch, a wait that completes under it, with whatever
result, throws there or at the next `co_await`, and `run()` resets its own before
invalidating and before draining. Delays, the backoff counter and logging are left out: a wait
may end at any time.

`requested` and `snapshotSeen` are history variables: no step reads them. A snapshot message
that `parse_message` does not recognise is skipped by the read loop, but it has come: what
such a text is, is the exchange's to say, and `skippedSnapshot` stands for it.

The model follows the two coroutines from one `co_await` to the next, with the phases as their
program counters (`RunPhase`, `FetchPhase`), and keeps the source's fields: the state of each
symbol, the signals of the fetches in the order they were spawned, the flags of a stop. Which
events are possible is not restricted any further, so that a result about all runs covers every
timing of the network and of other sessions on the same books.
-/

namespace Hermeneutic

/-- Which book of the registry. -/
abbrev BookRef := ℕ

/-- What `Feed::parse_message` recognises. -/
inductive ParsedMessage
  | snapshot (snapshot : SnapshotMessage)
  | depthUpdate (update : DepthUpdate)

/-- What a session is constructed with. -/
structure SessionConfig where
  pair : FeedPolicy
  venue : VenueId
  /-- The keys of `symbol_syncs_`. -/
  symbols : List NativeSymbol
  symbols_nodup : symbols.Nodup
  registry : NativeSymbol → Option BookRef
  /-- `none` is a malformed or a control message. -/
  parseMessage : String → Option ParsedMessage
  parseSnapshotResponse : NativeSymbol → String → Option SnapshotMessage
  /-- The symbol whose snapshot message a text is that `parseMessage` does not recognise, if it
  is one. -/
  skippedSnapshot : String → Option NativeSymbol
  /-- A feed whose snapshot comes over REST recognises no snapshot on the connection. -/
  rest_pushes_none : pair.snapshotViaRest = true →
    ∀ text snapshot, parseMessage text ≠ some (.snapshot snapshot)

/-- Where a `handle_request_snapshot()` coroutine stands. -/
inductive FetchPhase
  | spawned
  | fetching
  | backingOff
  /-- It has returned or thrown; the erasure of its signal is posted. -/
  | finished
  deriving DecidableEq

/-- An element of `snapshot_sigs_` with its coroutine. -/
structure Fetch where
  symbol : NativeSymbol
  phase : FetchPhase := .spawned
  /-- Its signal has been emitted. -/
  cancelled : Bool := false
  deriving DecidableEq

/-- The coroutine has not ended. -/
def Fetch.inFlight (fetch : Fetch) : Bool := fetch.phase ≠ .finished

/-- Where `start()` and the `run()` coroutine stand. -/
inductive RunPhase
  | idle
  /-- `start()` has posted its handler. -/
  | startPosted
  /-- That handler found `stopping_` set and spawned nothing. -/
  | refused
  | spawned
  | connecting
  | subscribing
  /-- Connected and subscribed. -/
  | reading
  | backingOff
  | draining
  | returned
  /-- An exception left `run()`. -/
  | threw
  deriving DecidableEq

/-- A snapshot request as it was issued: the state of the symbol, and whether the connection
was up. -/
structure SnapshotRequest where
  symbol : NativeSymbol
  state : SyncState
  up : Bool
  deriving DecidableEq

/-- The state of a session. -/
structure Session where
  syncs : NativeSymbol → SymbolSync := fun _ => {}
  books : BookRef → LoggedBook := fun _ => {}
  snapshotSigs : List Fetch := []
  stopping : Bool := false
  run : RunPhase := .idle
  /-- A terminal cancellation of `run()` is latched. -/
  runCancelled : Bool := false
  /-- Every snapshot request issued so far. -/
  requested : List SnapshotRequest := []
  /-- A snapshot of the symbol has come over the current connection. -/
  snapshotSeen : NativeSymbol → Bool := fun _ => false

/-- What may happen next. -/
inductive SessionEvent
  | start
  /-- The handler `start()` posted runs. -/
  | startRun
  | stop
  /-- The body of `run()` is entered. -/
  | runBegin
  /-- `run()` is aborted before its body is entered. -/
  | runAborted
  | connectOk
  | connectFailed
  | sendOk
  | sendFailed
  | read (text : String)
  | readFailed
  | backoffEnded
  /-- `drain_pending_snapshots()` looks again. -/
  | drainPoll
  /-- The body of a fetch coroutine is entered. -/
  | fetchBegin (i : ℕ)
  | fetchResponse (i : ℕ) (body : String)
  | fetchFailed (i : ℕ)
  | fetchBackoffEnded (i : ℕ)
  /-- The posted erasure of a fetch's signal runs. -/
  | fetchErased (i : ℕ)
  /-- Another venue's call on a book. -/
  | otherCall (ref : BookRef) (call : BookCall)

/-- What a step does outside. -/
inductive SessionOutput
  | connectAttempt
  deriving DecidableEq

namespace Session

variable (cfg : SessionConfig)

/-- One symbol's `SymbolSync` and book. -/
def driven (s : Session) (symbol : NativeSymbol) : Driven where
  sync := s.syncs symbol
  book := (cfg.registry symbol).map s.books

/-- Writes one symbol's `SymbolSync` and book back, and spawns the fetches it requested,
unless the session is stopping. -/
def put (s : Session) (symbol : NativeSymbol) (d : Driven) : Session :=
  { s with
    syncs := Function.update s.syncs symbol d.sync
    books := match cfg.registry symbol, d.book with
      | some ref, some book => Function.update s.books ref book
      | _, _ => s.books
    snapshotSigs := s.snapshotSigs ++
      if s.stopping then [] else d.requests.map fun _ => { symbol := symbol }
    requested := s.requested ++ d.requests.map fun state => ⟨symbol, state, s.run = .reading⟩ }

/-- The loop over `symbol_syncs_`. -/
def forEachSymbol (s : Session) (f : Driven → Driven) : Session :=
  cfg.symbols.foldl (fun s symbol => s.put cfg symbol (f (s.driven cfg symbol))) s

/-- Invalidates every covered symbol. -/
def invalidateAll (s : Session) : Session := s.forEachSymbol cfg (Driven.disconnected cfg.venue)

/-- What follows the `try` block of `run()`: the invalidation, then the drain if the session
is stopping and the backoff if not. -/
def drop (s : Session) : Session :=
  invalidateAll cfg { s with
    run := if s.stopping then .draining else .backingOff
    runCancelled := false
    snapshotSeen := fun _ => false }

/-- The actions of `on_connected()` for every symbol, once subscribed. -/
def subscribed (s : Session) : Session :=
  { s with run := .reading }.forEachSymbol cfg (Driven.connected cfg.venue)

/-- A message on the connection: not ours, or executed, with the connection dropped if a
reconnect is forced. -/
def dispatch (s : Session) (symbol : NativeSymbol) (input : SyncInput) : Session :=
  if symbol ∈ cfg.symbols then
    let (d, forced) := (s.driven cfg symbol).receive cfg.venue cfg.pair.policy input
    let s := s.put cfg symbol d
    if forced then s.drop cfg else s
  else s

def dispatchSnapshot (s : Session) (message : SnapshotMessage) : Session :=
  { s with snapshotSeen := Function.update s.snapshotSeen message.symbol true }.dispatch cfg
    message.symbol (.snapshot message)

def dispatchDepthUpdate (s : Session) (message : DepthUpdate) : Session :=
  s.dispatch cfg message.symbol (.depthUpdate message)

/-- A text the read loop skips: nothing happens, but if it is a snapshot message, one has
come. -/
def skip (s : Session) (text : String) : Session :=
  match cfg.skippedSnapshot text with
  | none => s
  | some symbol => { s with snapshotSeen := Function.update s.snapshotSeen symbol true }

/-- The read loop's body. -/
def onText (s : Session) (text : String) : Session :=
  match cfg.parseMessage text with
  | none => s.skip cfg text
  | some (.snapshot message) => s.dispatchSnapshot cfg message
  | some (.depthUpdate message) => s.dispatchDepthUpdate cfg message

/-- `run()` has been spawned and has not ended: its signal's slot is bound. -/
def runBound (s : Session) : Bool :=
  match s.run with
  | .spawned | .connecting | .subscribing | .reading | .backingOff | .draining => true
  | _ => false

/-- The handler `stop()` posts. -/
def stop (s : Session) : Session :=
  { s with
    stopping := true
    runCancelled := s.runCancelled || s.runBound
    snapshotSigs := s.snapshotSigs.map fun fetch => { fetch with cancelled := true } }

/-- Moves a fetch coroutine on. -/
def setFetch (s : Session) (i : ℕ) (fetch : Fetch) (phase : FetchPhase) : Session :=
  { s with snapshotSigs := s.snapshotSigs.set i { fetch with phase } }

/-- What a fetch coroutine does with a parsed snapshot, before it returns. -/
def onFetched (s : Session) (symbol : NativeSymbol) (snapshot : SnapshotMessage) : Session :=
  if symbol ∈ cfg.symbols then
    let (d, forced) :=
      (s.driven cfg symbol).receive cfg.venue cfg.pair.policy (.snapshot snapshot)
    let s := s.put cfg symbol d
    if forced then { s with runCancelled := s.runCancelled || s.runBound } else s
  else s

/-- What it does with the body of a response. -/
def onBody (s : Session) (symbol : NativeSymbol) (body : String) : Session :=
  if s.stopping then s
  else
    match cfg.parseSnapshotResponse symbol body with
    | none => s
    | some snapshot => s.onFetched cfg symbol snapshot

/-- Goes on to connect. -/
def connect (s : Session) : Session × List SessionOutput :=
  ({ s with run := .connecting }, [.connectAttempt])

/-- A completed wait of `run()` inside its `try` block: under a latched cancellation it
throws. -/
def unlessCancelled (s : Session) (next : Session) : Session :=
  if s.runCancelled then s.drop cfg else next

/-- One step of `run()`, `start()` or `stop()`. -/
def runStep (s : Session) : SessionEvent → Session × List SessionOutput
  | .start => if s.run = .idle then ({ s with run := .startPosted }, []) else (s, [])
  | .startRun =>
    if s.run = .startPosted then
      ({ s with run := if s.stopping then .refused else .spawned }, [])
    else (s, [])
  | .stop => (s.stop, [])
  | .runBegin =>
    if s.run = .spawned then
      if s.stopping then ({ s with run := .returned }, []) else s.connect
    else (s, [])
  | .runAborted =>
    if s.run = .spawned ∧ s.runCancelled then ({ s with run := .threw }, []) else (s, [])
  | .connectOk =>
    if s.run = .connecting then (s.unlessCancelled cfg { s with run := .subscribing }, [])
    else (s, [])
  | .connectFailed => if s.run = .connecting then (s.drop cfg, []) else (s, [])
  | .sendOk =>
    if s.run = .subscribing then (s.unlessCancelled cfg (s.subscribed cfg), []) else (s, [])
  | .sendFailed => if s.run = .subscribing then (s.drop cfg, []) else (s, [])
  | .read text =>
    if s.run = .reading then (s.unlessCancelled cfg (s.onText cfg text), []) else (s, [])
  | .readFailed => if s.run = .reading then (s.drop cfg, []) else (s, [])
  | .backoffEnded =>
    if s.run = .backingOff then
      if s.stopping then ({ s with run := .draining, runCancelled := false }, []) else s.connect
    else (s, [])
  | .drainPoll =>
    if s.run = .draining then
      if s.snapshotSigs = [] then ({ s with run := .returned }, [])
      else if s.runCancelled then ({ s with run := .threw }, [])
      else (s, [])
    else (s, [])
  | _ => (s, [])

/-- One step of a fetch coroutine. -/
def fetchStep (s : Session) (i : ℕ) (fetch : Fetch) : SessionEvent → Session
  | .fetchBegin _ =>
    if fetch.phase = .spawned then
      s.setFetch i fetch
        (if cfg.pair.snapshotViaRest = false ∨ s.stopping then .finished else .fetching)
    else s
  | .fetchResponse _ body =>
    if fetch.phase = .fetching then (s.setFetch i fetch .finished).onBody cfg fetch.symbol body
    else s
  | .fetchFailed _ =>
    -- Under a latched cancellation the backoff that follows throws.
    if fetch.phase = .fetching then
      s.setFetch i fetch (if fetch.cancelled then .finished else .backingOff)
    else s
  | .fetchBackoffEnded _ =>
    if fetch.phase = .backingOff then
      s.setFetch i fetch (if fetch.cancelled ∨ s.stopping then .finished else .fetching)
    else s
  | .fetchErased _ =>
    if fetch.phase = .finished then { s with snapshotSigs := s.snapshotSigs.eraseIdx i } else s
  | _ => s

/-- One step. -/
def step (s : Session) (event : SessionEvent) : Session × List SessionOutput :=
  match event with
  | .fetchBegin i | .fetchResponse i _ | .fetchFailed i | .fetchBackoffEnded i
  | .fetchErased i =>
    match s.snapshotSigs[i]? with
    | none => (s, [])
    | some fetch => (s.fetchStep cfg i fetch event, [])
  | .otherCall ref call =>
    if call.venue = cfg.venue then (s, [])
    else ({ s with books := Function.update s.books ref ((s.books ref).call call).2 }, [])
  | _ => s.runStep cfg event

end Session

/-- The session as a machine. -/
def sessionMachine (cfg : SessionConfig) : Machine Session SessionEvent SessionOutput where
  step := Session.step cfg

/-- A session of one symbol on Binance Futures, given the parser of its responses. -/
def oneSymbol (parse : NativeSymbol → String → Option SnapshotMessage) : SessionConfig where
  pair := binanceFutures
  venue := ⟨.binance, .perp⟩
  symbols := ["BTCUSDT"]
  symbols_nodup := List.nodup_singleton _
  registry _ := some 0
  parseMessage _ := none
  parseSnapshotResponse := parse
  skippedSnapshot _ := none
  rest_pushes_none _ _ _ := by simp

end Hermeneutic
