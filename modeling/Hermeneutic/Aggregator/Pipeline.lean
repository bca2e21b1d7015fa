import Hermeneutic.Aggregator.ExactDiff
import Hermeneutic.Aggregator.L2Stream
import Hermeneutic.Exchange.Wiring

/-!
# From the exchanges to a client

One book's whole path. Every venue's session hands its symbol's `SymbolSync` one message at a
time and carries the actions out one by one, each a call on the shared `SymbolBook` in a
critical section of its own, so that the calls of different venues, heartbeats and the
subscribers' steps come in any order in between. `pipelineMachine` outputs what the service is
fed, and its service is the one of `serviceMachine` after that.

The results of the lower modules meet here. A venue that has carried its actions out
contributes the exchange's true book if its symbol is live and nothing if it is not; the
aggregate is the sum of the contributions; and what a subscriber has been sent takes a client
to the aggregate of some moment of the run. What a session does after a gap, a forced
reconnect or a new request, is delivered like any other call: the results hold for any calls.

`delivered` is a history variable: no step reads it.

The state at a moment of the run is what the steps up to there lead to, so a statement about the
moment of a revision is one about a prefix of the events. `VenueInv` relates, for one venue, the
messages delivered to it, the actions still pending and the calls it has made on the book: the
calls and the pending actions together are what `SymbolSync` has asked for. From it an entry is
what the calls made so far leave (`VenueInv.entry`), and with nothing pending it is what the
exchange's layer says of a live or a buffering symbol. `client_catches_up` is the case in which
all venues have delivered everything, where the positions can be named.
-/

namespace Hermeneutic

open Finset

/-- The symbols of one book, the actions they have yet to carry out, and the service. -/
structure Pipeline where
  syncs : VenueId → SymbolSync := fun _ => {}
  pending : VenueId → List SyncAction := fun _ => []
  service : Service := {}
  /-- Every call made on a venue's `SymbolSync` so far. -/
  delivered : VenueId → List SyncInput := fun _ => []

/-- What may happen next. -/
inductive PipelineEvent
  /-- A session that has carried out its actions makes a call on its `SymbolSync`. -/
  | deliver (venue : VenueId) (input : SyncInput)
  /-- A session carries out its next action. -/
  | execute (venue : VenueId)
  /-- A heartbeat or a subscriber's step. -/
  | serve (event : ServiceEvent)

/-- Only sessions make calls on the book. -/
def ServiceEvent.isCall : ServiceEvent → Bool
  | call _ => true
  | _ => false

namespace Pipeline

def deliver (s : Pipeline) (venue : VenueId) (input : SyncInput) : Pipeline :=
  if s.pending venue = [] then
    let (sync, actions) := (s.syncs venue).step (wiredPolicy venue) input
    { s with
      syncs := Function.update s.syncs venue sync
      pending := Function.update s.pending venue actions
      delivered := Function.update s.delivered venue (s.delivered venue ++ [input]) }
  else s

/-- A snapshot request needs no call here; a rejected call is followed by the actions of a
disconnect, and then by the rest. -/
def execute (s : Pipeline) (venue : VenueId) : Pipeline × List ServiceEvent :=
  match s.pending venue with
  | [] => (s, [])
  | action :: rest =>
    match action.bookOp with
    | none => ({ s with pending := Function.update s.pending venue rest }, [])
    | some op =>
      let event := ServiceEvent.call ⟨venue, op⟩
      let service := (s.service.step event).1
      match (s.service.symbolBook.call ⟨venue, op⟩).1 with
      | .ok _ => ({ s with pending := Function.update s.pending venue rest, service }, [event])
      | .error _ =>
        let (sync, actions) := (s.syncs venue).onDisconnected
        ({ s with
          syncs := Function.update s.syncs venue sync
          pending := Function.update s.pending venue (actions ++ rest)
          service }, [event])

def serve (s : Pipeline) (event : ServiceEvent) : Pipeline × List ServiceEvent :=
  if event.isCall then (s, []) else ({ s with service := (s.service.step event).1 }, [event])

/-- One step; the output is what the service is fed. -/
def step (s : Pipeline) : PipelineEvent → Pipeline × List ServiceEvent
  | .deliver venue input => (s.deliver venue input, [])
  | .execute venue => s.execute venue
  | .serve event => s.serve event

end Pipeline

/-- The pipeline as a machine. -/
def pipelineMachine : Machine Pipeline PipelineEvent ServiceEvent where
  step := Pipeline.step

/-! ### Steps -/

namespace Pipeline

/-- A step feeds the service one event at most, and moves it by that. -/
private theorem step_service (s : Pipeline) (event : PipelineEvent) :
    (s.step event).2.length ≤ 1 ∧
      (s.step event).1.service = serviceMachine.state s.service (s.step event).2 := by
  cases event with
  | deliver venue input =>
    simp only [step, deliver]
    split <;> exact ⟨Nat.zero_le _, rfl⟩
  | execute venue =>
    simp only [step, execute]
    split
    · exact ⟨Nat.zero_le _, rfl⟩
    · split
      · exact ⟨Nat.zero_le _, rfl⟩
      · split <;> exact ⟨le_rfl, rfl⟩
  | serve event =>
    simp only [step, serve]
    split
    · exact ⟨Nat.zero_le _, rfl⟩
    · exact ⟨le_rfl, rfl⟩

private theorem run_service (events : List PipelineEvent) :
    (pipelineMachine.state {} events).service =
      serviceMachine.state {} (pipelineMachine.output {} events) := by
  induction events using List.reverseRecOn with
  | nil => rfl
  | append_singleton events event ih =>
    rw [Machine.state_concat, Machine.output_concat, Machine.state_append, ← ih]
    exact (step_service _ event).2

/-- Calls on a `SymbolSync` are only added. -/
private theorem step_delivered (s : Pipeline) (event : PipelineEvent) (venue : VenueId) :
    s.delivered venue <+: (s.step event).1.delivered venue := by
  cases event with
  | deliver venue' input =>
    simp only [step, deliver]
    split
    · by_cases hvenue : venue = venue'
      · subst hvenue
        simp only [Function.update_self]
        exact List.prefix_append _ _
      · simp only [Function.update_of_ne hvenue]
        exact List.prefix_rfl
    · exact List.prefix_rfl
  | execute venue' =>
    simp only [step, execute]
    split
    · exact List.prefix_rfl
    · split
      · exact List.prefix_rfl
      · split <;> exact List.prefix_rfl
  | serve event =>
    simp only [step, serve]
    split <;> exact List.prefix_rfl

private theorem run_delivered {pre events : List PipelineEvent} (hpre : pre <+: events)
    (venue : VenueId) : (pipelineMachine.state {} pre).delivered venue <+:
      (pipelineMachine.state {} events).delivered venue := by
  obtain ⟨post, rfl⟩ := hpre
  induction post using List.reverseRecOn with
  | nil => rw [List.append_nil]
  | append_singleton post event ih =>
    rw [← List.append_assoc, Machine.state_concat]
    exact ih.trans (step_delivered _ event venue)

end Pipeline

/-! ### A venue's share of the run -/

/-- The venue's calls so far, and those it has yet to make, are the actions of its
`SymbolSync`. -/
structure VenueInv (s : Pipeline) (calls : List BookCall) (venue : VenueId) : Prop where
  sync : s.syncs venue = (syncMachine (wiredPolicy venue)).state {} (s.delivered venue)
  own : (calls.filter fun c => c.venue = venue).map BookCall.op ++ bookOps (s.pending venue) =
    bookOps ((syncMachine (wiredPolicy venue)).output {} (s.delivered venue))

namespace VenueInv

variable {s : Pipeline} {calls : List BookCall} {venue : VenueId}

theorem congr {s' : Pipeline} (hinv : VenueInv s calls venue)
    (hsync : s'.syncs venue = s.syncs venue) (hpending : s'.pending venue = s.pending venue)
    (hdelivered : s'.delivered venue = s.delivered venue) : VenueInv s' calls venue := by
  refine ⟨?_, ?_⟩
  · rw [hsync, hdelivered, hinv.sync]
  · rw [hpending, hdelivered, hinv.own]

/-- Another venue's call is not this one's. -/
theorem otherCall (hinv : VenueInv s calls venue) {c : BookCall} (hvenue : c.venue ≠ venue) :
    VenueInv s (calls ++ [c]) venue := by
  refine ⟨hinv.sync, ?_⟩
  rw [List.filter_append, List.filter_cons_of_neg (by simpa using hvenue), List.filter_nil,
    List.append_nil]
  exact hinv.own

theorem deliver (hinv : VenueInv s calls venue) (venue' : VenueId) (input : SyncInput) :
    VenueInv (s.deliver venue' input) calls venue := by
  rw [Pipeline.deliver]
  split
  · rename_i hidle
    by_cases hvenue : venue = venue'
    · subst hvenue
      have hown := hinv.own
      rw [hidle, bookOps, List.filterMap_nil, List.append_nil] at hown
      refine ⟨?_, ?_⟩
      · simp only [Function.update_self]
        rw [Machine.state_concat, ← hinv.sync]
        rfl
      · simp only [Function.update_self]
        rw [Machine.output_concat, bookOps, bookOps, List.filterMap_append, ← hinv.sync]
        exact congrArg (· ++ _) hown
    · exact hinv.congr (Function.update_of_ne hvenue _ _) (Function.update_of_ne hvenue _ _)
        (Function.update_of_ne hvenue _ _)
  · exact hinv

/-- The venue's own next action, one the book accepts. -/
private theorem executeOwn (hinv : VenueInv s calls venue)
    (hvalid : ∀ op ∈ bookOps (s.pending venue), op.valid) :
    VenueInv (s.execute venue).1 (calls ++ bookCalls (s.execute venue).2) venue := by
  rw [Pipeline.execute]
  split
  · simpa [bookCalls] using hinv
  · rename_i action rest hpending
    have hown := hinv.own
    rw [hpending] at hown hvalid
    split
    · rename_i hop
      refine ⟨by simpa using hinv.sync, ?_⟩
      simp only [Function.update_self, bookCalls, List.filterMap_nil, List.append_nil]
      rw [← hown]
      simp [bookOps, hop]
    · rename_i op hop
      have hops : bookOps (action :: rest) = op :: bookOps rest := by
        simp [bookOps, hop]
      rw [hops] at hown hvalid
      have haccepted : (s.service.symbolBook.call ⟨venue, op⟩).1 = .ok () := by
        rw [SymbolBook.call_eq, if_pos (hvalid op List.mem_cons_self)]
      simp only [haccepted]
      refine ⟨by simpa using hinv.sync, ?_⟩
      simp only [Function.update_self, bookCalls, List.filterMap_cons, List.filterMap_nil,
        List.filter_append, List.map_append]
      rw [← hown]
      simp

/-- **Step lemma.** -/
theorem step (hinv : VenueInv s calls venue)
    (hvalid : ∀ op ∈ bookOps (s.pending venue), op.valid) (event : PipelineEvent) :
    VenueInv (s.step event).1 (calls ++ bookCalls (s.step event).2) venue := by
  cases event with
  | deliver venue' input =>
    simpa [Pipeline.step, bookCalls] using hinv.deliver venue' input
  | execute venue' =>
    by_cases hvenue : venue' = venue
    · subst hvenue
      exact hinv.executeOwn hvalid
    · have hne : venue ≠ venue' := Ne.symm hvenue
      simp only [Pipeline.step, Pipeline.execute]
      split
      · simpa [bookCalls] using hinv
      · split
        · simp only [bookCalls, List.filterMap_nil, List.append_nil]
          exact hinv.congr rfl (Function.update_of_ne hne _ _) rfl
        · rename_i op _
          have hother := hinv.otherCall (c := ⟨venue', op⟩) hvenue
          split
          · exact hother.congr rfl (Function.update_of_ne hne _ _) rfl
          · exact hother.congr (Function.update_of_ne hne _ _) (Function.update_of_ne hne _ _) rfl
  | serve event =>
    simp only [Pipeline.step, Pipeline.serve]
    split
    · simpa [bookCalls] using hinv
    · rename_i hcall
      have hnone : bookCalls [event] = [] := by
        cases event with
        | call c => exact absurd rfl hcall
        | _ => rfl
      rw [hnone, List.append_nil]
      exact hinv.congr rfl rfl rfl

theorem start (venue : VenueId) : VenueInv {} [] venue := ⟨rfl, rfl⟩

end VenueInv

/-- Fewer calls, fewer messages. -/
theorem Delivers.initial {IsUpdate : DepthUpdate → Prop} {IsSnapshot : SnapshotMessage → Prop}
    {inputs inputs' : List SyncInput} (h : Delivers IsUpdate IsSnapshot inputs')
    (hinputs : inputs <+: inputs') : Delivers IsUpdate IsSnapshot inputs := by
  obtain ⟨rest, rfl⟩ := hinputs
  refine ⟨fun update hu => h.updates update ?_, fun snapshot hs => h.snapshots snapshot ?_⟩
  · rw [receivedUpdates_append]
    exact List.mem_append_left _ hu
  · rw [receivedSnapshots_append]
    exact List.mem_append_left _ hs

private theorem bookCalls_append (out out' : List ServiceEvent) :
    bookCalls (out ++ out') = bookCalls out ++ bookCalls out' :=
  List.filterMap_append

/-- **Run lemma.** A venue whose messages have valid levels makes the calls of its
`SymbolSync`, in order. -/
theorem VenueInv.run {events : List PipelineEvent} {venue : VenueId}
    (hvalid : LevelsValid ((pipelineMachine.state {} events).delivered venue)) :
    VenueInv (pipelineMachine.state {} events) (bookCalls (pipelineMachine.output {} events))
      venue := by
  induction events using List.reverseRecOn with
  | nil => exact .start venue
  | append_singleton events event ih =>
    rw [Machine.state_concat] at hvalid ⊢
    have hbefore := hvalid.initial (Pipeline.step_delivered _ event venue)
    have hinv := ih hbefore
    rw [Machine.output_concat, bookCalls_append]
    refine hinv.step (fun op hop => ?_) event
    refine bookOps_valid (wiredPolicy venue) hbefore op ?_
    rw [← hinv.own]
    exact List.mem_append_right _ hop

/-! ### What a venue contributes -/

/-- A book is the sum of the entries, side by side. -/
structure L2OrderBook.IsSum (book : L2OrderBook) (entries : VenueId → Option L2OrderBook) :
    Prop where
  bids : Consistent L2OrderBook.bids book.bids entries
  asks : Consistent L2OrderBook.asks book.asks entries

section Contributions

variable {histories : VenueId → History} {s : Pipeline}

/-- The messages delivered are the exchanges' own, with valid levels. -/
structure Genuine (histories : VenueId → History) (s : Pipeline) : Prop where
  own : ∀ venue, Delivers (· ∈ (histories venue).events) ((histories venue).SnapshotFor venue)
    (s.delivered venue)
  valid : ∀ venue, LevelsValid (s.delivered venue)

/-- The book is the sum of the entries that the server's book has. A venue that has carried its
actions out has its exchange's true book at its last id there if its symbol is live, and no
entry if it is not; any other has what the calls leave that it has made so far, those its
`SymbolSync` asked for without the ones still pending. -/
structure ShowsTrueBooks (histories : VenueId → History) (s : Pipeline) (book : L2OrderBook) :
    Prop where
  sum : book.IsSum s.service.symbolBook.book.venues
  made : ∀ venue, ∃ ops, ops ++ bookOps (s.pending venue) =
      bookOps ((syncMachine (wiredPolicy venue)).output {} (s.delivered venue)) ∧
    s.service.symbolBook.book.venues venue = ops.foldl BookOp.replay none
  settled : ∀ venue, s.pending venue = [] →
    ((s.syncs venue).state = .buffering → s.service.symbolBook.book.venues venue = none) ∧
    ((s.syncs venue).state = .live → ∃ k ≤ (histories venue).events.length,
      (s.syncs venue).lastFinalId = (histories venue).idAt k ∧
      s.service.symbolBook.book.venues venue = some ((histories venue).bookAt k))

/-- The calls a venue has made are the actions it has carried out, and its entry is what they
leave. -/
theorem VenueInv.entry {calls : List BookCall} {venue : VenueId} (hinv : VenueInv s calls venue)
    (hvalid : LevelsValid (s.delivered venue)) :
    ∃ ops, ops ++ bookOps (s.pending venue) =
        bookOps ((syncMachine (wiredPolicy venue)).output {} (s.delivered venue)) ∧
      (bookMachine.state {} calls).venues venue = ops.foldl BookOp.replay none := by
  refine ⟨_, hinv.own, ?_⟩
  rw [(run_venues calls).2, replay, ownCalls_eq_of_valid fun op hop => ?_]
  refine bookOps_valid (wiredPolicy venue) hvalid op ?_
  rw [← hinv.own]
  exact List.mem_append_left _ hop

/-- The aggregate after a run is the sum of the venues' entries, and those are what their
`SymbolSync`s ask for. -/
private theorem run_isSum {events : List PipelineEvent}
    (hfit : TotalsFit (bookCalls (pipelineMachine.output {} events))) :
    (pipelineMachine.state {} events).service.symbolBook.book.aggregate.IsSum
        (pipelineMachine.state {} events).service.symbolBook.book.venues ∧
      ∀ venue, LevelsValid ((pipelineMachine.state {} events).delivered venue) →
        (pipelineMachine.state {} events).pending venue = [] →
        (pipelineMachine.state {} events).service.symbolBook.book.venues venue =
          bookOf ((syncMachine (wiredPolicy venue)).output {}
            ((pipelineMachine.state {} events).delivered venue)) := by
  rw [Pipeline.run_service, state_book]
  obtain ⟨hbids, hasks⟩ := run_summed hfit
  refine ⟨⟨hbids, hasks⟩, fun venue hvalid hidle => ?_⟩
  have hown := (VenueInv.run hvalid).own
  rw [hidle, bookOps, List.filterMap_nil, List.append_nil] at hown
  exact venue_entry_of_execute hvalid hown

/-- **The aggregate shows true books** after any run. -/
theorem run_showsTrueBooks (hnum : ∀ venue, (histories venue).NumberedFor venue)
    {events : List PipelineEvent} (hgenuine : Genuine histories (pipelineMachine.state {} events))
    (hfit : TotalsFit (bookCalls (pipelineMachine.output {} events))) :
    ShowsTrueBooks histories (pipelineMachine.state {} events)
      (pipelineMachine.state {} events).service.symbolBook.book.aggregate := by
  obtain ⟨hsum, hentries⟩ := run_isSum hfit
  refine ⟨hsum, fun venue => ?_, fun venue hidle => ?_⟩
  · rw [Pipeline.run_service, state_book]
    exact (VenueInv.run (hgenuine.valid venue)).entry (hgenuine.valid venue)
  · rw [hentries venue (hgenuine.valid venue) hidle, (VenueInv.run (hgenuine.valid venue)).sync]
    refine ⟨bookOf_of_buffering _ _, fun hlive => ?_⟩
    obtain ⟨book, hbook, k, hk, hid, rfl⟩ :=
      (History.wiredPolicy_tracks (hnum venue)).live (hgenuine.own venue) hlive
    exact ⟨k, hk, hid, hbook⟩

end Contributions

/-! ### What a client shows -/

/-- A part of a run that is all it takes to feed the service a part of what the run does. -/
private theorem exists_initial_of_service {events : List PipelineEvent} {pre : List ServiceEvent}
    (hpre : pre <+: pipelineMachine.output {} events) :
    ∃ part, part <+: events ∧ pipelineMachine.output {} part = pre :=
  pipelineMachine.exists_initial_of_output (fun s event => (Pipeline.step_service s event).1) hpre

theorem TotalsFit.initial {calls calls' : List BookCall} (hfit : TotalsFit calls')
    (hcalls : calls <+: calls') : TotalsFit calls :=
  fun pre c hpre => hfit pre c (hpre.trans hcalls)

theorem Genuine.initial {histories : VenueId → History} {pre events : List PipelineEvent}
    (hgenuine : Genuine histories (pipelineMachine.state {} events)) (hpre : pre <+: events) :
    Genuine histories (pipelineMachine.state {} pre) where
  own venue := (hgenuine.own venue).initial (Pipeline.run_delivered hpre venue)
  valid venue := (hgenuine.valid venue).initial (Pipeline.run_delivered hpre venue)

private theorem totalsFit_initial {pre events : List PipelineEvent} (hpre : pre <+: events)
    (hfit : TotalsFit (bookCalls (pipelineMachine.output {} events))) :
    TotalsFit (bookCalls (pipelineMachine.output {} pre)) := by
  obtain ⟨post, rfl⟩ := hpre
  refine hfit.initial ?_
  rw [Machine.output_append, bookCalls_append]
  exact List.prefix_append _ _

/-- A client that reads what an open subscriber has been sent and still has queued holds the
aggregate of the moment. -/
private theorem readAll_queued (events : List PipelineEvent) (id : SubscriberId)
    {h : Handler L2Update} {q : SubscriberQueue L2Update}
    (hsubscriber : (pipelineMachine.state {} events).service.l2 id = some h)
    (hactive : h.phase.active = true)
    (hq : (pipelineMachine.state {} events).service.symbolBook.l2Fanout.subscribers id = some q)
    (hopen : q.closed = false) :
    Client.readAll {} (h.taken ++ q.queue) =
      some ⟨some (.ofNat (revisionNumber (pipelineMachine.output {} events))),
        (pipelineMachine.state {} events).service.symbolBook.book.aggregate⟩ := by
  rw [Pipeline.run_service] at hsubscriber hq ⊢
  obtain ⟨past, hout, hinv⟩ := L2Inv.run (pipelineMachine.output {} events)
  obtain ⟨_, -, hsub⟩ := hinv.subscriber id h hsubscriber
  obtain ⟨-, q', hq', -, hfollows, -⟩ := hsub.active hactive
  obtain rfl : q' = q := Option.some.inj (hq'.symm.trans hq)
  obtain ⟨book, hcurrent, hread⟩ := (hfollows hopen).readAll hinv.positive
  have hlength : revisionNumber (pipelineMachine.output {} events) = past.length := by
    have hlengths := congrArg List.length hout
    simpa [revisionNumber] using hlengths
  rw [List.getElem?_append_right le_rfl, Nat.sub_self] at hcurrent
  obtain rfl := Option.some.inj hcurrent
  rw [hread, hlength]

/-- **What a client shows is true.** Whatever the venues deliver of their exchanges' messages,
in any order of everything, a client that reads what a subscriber of the book has received
sees no gap, and at every moment of the run at which the server's revision was the one the
client was last told, its book is the sum of the entries the server then had: the true books of
the venues that were live and had carried their actions out, and what the others had made of
theirs so far. While the subscriber's queue is open, reading what is still in it as well brings
the client to the present moment. -/
theorem client_shows_true_books (histories : VenueId → History)
    (hnum : ∀ venue, (histories venue).NumberedFor venue) (events : List PipelineEvent)
    (hgenuine : Genuine histories (pipelineMachine.state {} events))
    (hfit : TotalsFit (bookCalls (pipelineMachine.output {} events))) (id : SubscriberId)
    {h : Handler L2Update}
    (hsubscriber : (pipelineMachine.state {} events).service.l2 id = some h) :
    (h.received = [] ∨ ∃ client n, Client.readAll {} h.received = some client ∧
      client.lastSeq = some (.ofNat n) ∧
      (∃ part, part <+: events ∧ revisionNumber (pipelineMachine.output {} part) = n) ∧
      ∀ part, part <+: events → revisionNumber (pipelineMachine.output {} part) = n →
        ShowsTrueBooks histories (pipelineMachine.state {} part) client.book) ∧
    ∀ q, h.phase.active = true →
      (pipelineMachine.state {} events).service.symbolBook.l2Fanout.subscribers id = some q →
      q.closed = false → ∃ client, Client.readAll {} (h.taken ++ q.queue) = some client ∧
        client.lastSeq = some (.ofNat (revisionNumber (pipelineMachine.output {} events))) ∧
        ShowsTrueBooks histories (pipelineMachine.state {} events) client.book := by
  refine ⟨?_, fun q hactive hq hopen =>
    ⟨_, readAll_queued events id hsubscriber hactive hq hopen, rfl,
      run_showsTrueBooks hnum hgenuine hfit⟩⟩
  rw [Pipeline.run_service] at hsubscriber
  obtain ⟨past, hout, hinv⟩ := L2Inv.run (pipelineMachine.output {} events)
  obtain ⟨_, -, hsub⟩ := hinv.subscriber id h hsubscriber
  rcases hsub.received with hnil | ⟨n, hfollows⟩
  · exact .inl hnil
  · right
    rw [← hout] at hfollows
    obtain ⟨_, _, _, _, client, -, -, -, -, hread, hlast, ⟨pre, hpre, hnumber⟩, hbook⟩ :=
      hfollows.consistentUpTo
    obtain ⟨part, hpart, rfl⟩ := exists_initial_of_service hpre
    refine ⟨client, n, hread, hlast, ⟨part, hpart, hnumber⟩, fun part hpart hnumber => ?_⟩
    have hinitial : pipelineMachine.output {} part <+: pipelineMachine.output {} events := by
      obtain ⟨post, rfl⟩ := hpart
      rw [Machine.output_append]
      exact List.prefix_append _ _
    rw [← (hbook _ hinitial hnumber).2, ← Pipeline.run_service]
    exact run_showsTrueBooks hnum (hgenuine.initial hpart) (totalsFit_initial hpart hfit)

/-- Bybit's linear contract and a history of two events; the other exchanges are silent. -/
def sampleHistories (venue : VenueId) : History :=
  if venue = ⟨.bybit, .perp⟩ then .pushedHistory else ⟨0, {}, []⟩

/-- A client subscribes while the snapshot of the only venue is on its way into the book, and
is sent the diff of it, while that of the first event is still queued. -/
def samplePipeline : List PipelineEvent :=
  [.deliver ⟨.bybit, .perp⟩ .connected, .execute ⟨.bybit, .perp⟩,
    .deliver ⟨.bybit, .perp⟩ (.snapshot ⟨"BTCUSDT", [(⟨100⟩, ⟨5⟩)], [], 1⟩),
    .serve (.subscribe 0), .execute ⟨.bybit, .perp⟩, .serve (.l2 0 (.write true)),
    .serve (.l2 0 .endBootstrap), .serve (.l2 0 .drain), .serve (.l2 0 (.write true)),
    .deliver ⟨.bybit, .perp⟩ (.depthUpdate ⟨"BTCUSDT", 2, 2, 1, [(⟨100⟩, ⟨7⟩)], []⟩),
    .execute ⟨.bybit, .perp⟩]

private theorem sampleHistories_numbered (venue : VenueId) :
    (sampleHistories venue).NumberedFor venue := by
  obtain ⟨exchange, type⟩ := venue
  cases exchange <;> cases type <;> exact History.forall_events (by decide)

private theorem samplePipeline_delivered (venue : VenueId) :
    (pipelineMachine.state {} samplePipeline).delivered venue =
      if venue = ⟨.bybit, .perp⟩ then
        [.connected, .snapshot ⟨"BTCUSDT", [(⟨100⟩, ⟨5⟩)], [], 1⟩,
          .depthUpdate ⟨"BTCUSDT", 2, 2, 1, [(⟨100⟩, ⟨7⟩)], []⟩]
      else [] := by
  obtain ⟨exchange, type⟩ := venue
  cases exchange <;> cases type <;> rfl

private theorem samplePipeline_valid (venue : VenueId) :
    LevelsValid ((pipelineMachine.state {} samplePipeline).delivered venue) := by
  rw [samplePipeline_delivered]
  split <;> exact ⟨by decide, by decide⟩

private theorem samplePipeline_fits : TotalsFit
    (bookCalls (pipelineMachine.output {} samplePipeline)) :=
  totalsFit_of_le 10 (by decide) (by decide) (by decide)

theorem client_shows_true_books_sample :
    ∃ client n, Client.readAll {} [.snapshot 0 [] [], .diff 1 [⟨100, 5⟩] []] = some client ∧
      client.lastSeq = some (.ofNat n) ∧
      (∃ part, part <+: samplePipeline ∧ revisionNumber (pipelineMachine.output {} part) = n) ∧
      ∀ part, part <+: samplePipeline → revisionNumber (pipelineMachine.output {} part) = n →
        ShowsTrueBooks sampleHistories (pipelineMachine.state {} part) client.book := by
  have hgenuine : Genuine sampleHistories (pipelineMachine.state {} samplePipeline) := by
    refine ⟨fun venue => ?_, samplePipeline_valid⟩
    rw [samplePipeline_delivered]
    split
    · rename_i hvenue
      subst hvenue
      refine ⟨by simp [receivedUpdates, sampleHistories, History.pushedHistory], ?_⟩
      intro snapshot hs
      obtain rfl : snapshot = ⟨"BTCUSDT", [(⟨100⟩, ⟨5⟩)], [], 1⟩ := List.mem_singleton.mp hs
      exact ⟨0, by decide, rfl, rfl⟩
    · exact ⟨by simp [receivedUpdates], by simp [receivedSnapshots]⟩
  have hreceived : ((pipelineMachine.state {} samplePipeline).service.l2 0).map Handler.received =
      some [.snapshot 0 [] [], .diff 1 [⟨100, 5⟩] []] := by decide
  obtain ⟨h, hsubscriber, hh⟩ := Option.map_eq_some_iff.mp hreceived
  rw [← hh]
  refine (client_shows_true_books sampleHistories sampleHistories_numbered samplePipeline hgenuine
    samplePipeline_fits 0 hsubscriber).1.resolve_left fun hnil => ?_
  rw [hh] at hnil
  exact absurd hnil (by simp)

/-! ### Catching up -/

/-- What a venue has delivered if its last connection has lost nothing: everything up to some
event, or no connection since the last disconnect. -/
def History.DeliveredUpTo (h : History) (venue : VenueId) :
    Option ℕ → List SyncInput → Prop
  | none, delivered => Unconnected delivered
  | some n, delivered => ∃ earlier conn, delivered = earlier ++ conn ∧ Unconnected earlier ∧
      h.Delivered venue n conn

/-- Then the venue's book is the exchange's after that event, or gone. -/
theorem History.DeliveredUpTo.bookOf {h : History} {venue : VenueId}
    (hnum : h.NumberedFor venue) {position : Option ℕ} {delivered : List SyncInput}
    (hdelivered : h.DeliveredUpTo venue position delivered) :
    Hermeneutic.bookOf ((syncMachine (wiredPolicy venue)).output {} delivered) =
      position.map h.bookAt := by
  cases position with
  | none => exact bookOf_of_buffering _ _ (by rw [Unconnected.state hdelivered])
  | some n =>
    obtain ⟨earlier, conn, rfl, hearlier, hconn⟩ := hdelivered
    exact (hconn.caughtUp hnum hearlier).2.book

/-- **A client catches up.** Once every venue's last connection has lost nothing up to some
event, and its actions are carried out, a client that reads what a subscriber with an open
queue has been sent and still has queued shows exactly the sum of the exchanges' books after
those events, whatever was lost, delayed or disconnected before. -/
theorem client_catches_up (histories : VenueId → History)
    (hnum : ∀ venue, (histories venue).NumberedFor venue) (events : List PipelineEvent)
    (position : VenueId → Option ℕ)
    (hdelivered : ∀ venue, (histories venue).DeliveredUpTo venue (position venue)
      ((pipelineMachine.state {} events).delivered venue))
    (hvalid : ∀ venue, LevelsValid ((pipelineMachine.state {} events).delivered venue))
    (hidle : ∀ venue, (pipelineMachine.state {} events).pending venue = [])
    (hfit : TotalsFit (bookCalls (pipelineMachine.output {} events))) (id : SubscriberId)
    {h : Handler L2Update} {q : SubscriberQueue L2Update}
    (hsubscriber : (pipelineMachine.state {} events).service.l2 id = some h)
    (hactive : h.phase.active = true)
    (hq : (pipelineMachine.state {} events).service.symbolBook.l2Fanout.subscribers id = some q)
    (hopen : q.closed = false) :
    ∃ client, Client.readAll {} (h.taken ++ q.queue) = some client ∧
      client.book.IsSum fun venue => (position venue).map (histories venue).bookAt := by
  have hread := readAll_queued events id hsubscriber hactive hq hopen
  obtain ⟨hsum, hentries⟩ := run_isSum hfit
  refine ⟨_, hread, ?_⟩
  have heq : (pipelineMachine.state {} events).service.symbolBook.book.venues =
      fun venue => (position venue).map (histories venue).bookAt := by
    funext venue
    rw [hentries venue (hvalid venue) (hidle venue), (hdelivered venue).bookOf (hnum venue)]
  rwa [heq] at hsum

/-- After the sample run the client lacks the first event's diff; with it, it shows the one
venue's book after that event. -/
theorem client_catches_up_sample :
    ∃ client, Client.readAll {}
        [.snapshot 0 [] [], .diff 1 [⟨100, 5⟩] [], .diff 2 [⟨100, 7⟩] []] = some client ∧
      client.book.IsSum fun venue =>
        (if venue = ⟨.bybit, .perp⟩ then some 1 else none).map (sampleHistories venue).bookAt := by
  have hdelivered : ∀ venue, (sampleHistories venue).DeliveredUpTo venue
      (if venue = ⟨.bybit, .perp⟩ then some 1 else none)
      ((pipelineMachine.state {} samplePipeline).delivered venue) := by
    intro venue
    rw [samplePipeline_delivered]
    split
    · rename_i hvenue
      subst hvenue
      exact ⟨[], _, rfl, .inl rfl, .update (n := 0)
        (.snapshot (n := 0) (.connected .nil) (by decide) (by simp) rfl rfl) rfl⟩
    · exact .inl rfl
  have hidle : ∀ venue, (pipelineMachine.state {} samplePipeline).pending venue = [] := by
    rintro ⟨exchange, type⟩
    cases exchange <;> cases type <;> rfl
  have hqueue : ((pipelineMachine.state {} samplePipeline).service.l2 0).map
        (fun h => (h.phase.active, h.taken)) =
      some (true, [.snapshot 0 [] [], .diff 1 [⟨100, 5⟩] []]) := by decide
  have hq : ((pipelineMachine.state {} samplePipeline).service.symbolBook.l2Fanout.subscribers
        0).map (fun q => (q.closed, q.queue)) =
      some (false, [.diff 2 [⟨100, 7⟩] []]) := by decide
  obtain ⟨h, hsubscriber, hh⟩ := Option.map_eq_some_iff.mp hqueue
  obtain ⟨q, hq, hq'⟩ := Option.map_eq_some_iff.mp hq
  obtain ⟨hactive, htaken⟩ := Prod.mk.inj hh
  obtain ⟨hopen, hqueued⟩ := Prod.mk.inj hq'
  have hcatches := client_catches_up sampleHistories sampleHistories_numbered samplePipeline
    (fun venue => if venue = ⟨.bybit, .perp⟩ then some 1 else none) hdelivered samplePipeline_valid
    hidle samplePipeline_fits 0 hsubscriber hactive hq hopen
  rwa [htaken, hqueued] at hcatches

end Hermeneutic
