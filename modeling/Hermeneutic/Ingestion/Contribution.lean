import Hermeneutic.Ingestion.Driver

/-!
# What a venue contributes while it is not synchronised

One (venue, symbol) pair of a `VenueSession`, a step per completed event, on a book that
other venues may call in between (`pairMachine`). A venue whose symbol is buffering should
contribute nothing: no entry, and an aggregate that is the sum of the others. And what the
book shows of any venue should have been put there by an accepted snapshot and updates chained
to it, all of them messages of the run, since the venue's last invalidation (`Sound`).

The second half speaks of the book's log. `standing` is the part of it an entry is made of:
the venue's own accepted calls since its last invalidation, from the last snapshot among them
on, and `foldl_replay_standing` says that the entry is their replay. `Founded` says which
lists of calls will do. The invariant `PairInv` also knows that the buffer holds received
updates only, since those are what a later snapshot is bridged with.

A call the book rejects resets the symbol in the middle of a batch, and the rest of the
batch still runs. For a venue that is reconnected on a gap the reconnect then removes
whatever the rest added. For the others nothing does: when the snapshot or an update of a
replay is rejected and the last update is not, the last update leaves an entry behind
(`RejectedMidReplay`). That is the only way.
-/

namespace Hermeneutic

/-- What an accepted call does to the calls an entry stands on: an invalidation takes them
away, and so does a snapshot, which puts itself in their place. -/
def BookOp.stand (standing : List BookOp) : BookOp → List BookOp
  | invalidateVenue => []
  | applySnapshot bids asks => [.applySnapshot bids asks]
  | applyBatch bids asks => standing ++ [.applyBatch bids asks]

/-- The calls that put there what a book shows of a venue: the venue's own accepted calls since
its last invalidation, from the last snapshot among them on. -/
def standing (venue : VenueId) (calls : List BookCall) : List BookOp :=
  (ownCalls venue calls).foldl BookOp.stand []

/-- The same for a symbol's book, if it has one. -/
def Driven.standing (venue : VenueId) (d : Driven) : List BookOp :=
  (d.book.map fun b => Hermeneutic.standing venue b.calls).getD []

/-- The calls of a snapshot and updates chained to it, all of them with valid levels and among
the messages received, and the id they stand at. -/
inductive Founded (policy : SequencePolicy) (received : List SyncInput) :
    UInt64 → List BookOp → Prop
  | snapshot {snapshot : SnapshotMessage} (hreceived : .snapshot snapshot ∈ received)
      (hvalid : snapshot.valid) :
      Founded policy received snapshot.lastUpdateId
        [.applySnapshot snapshot.bids snapshot.asks]
  | bridge {snapshot : SnapshotMessage} {update : DepthUpdate}
      (hreceived : .snapshot snapshot ∈ received) (hvalid : snapshot.valid)
      (hupdate : .depthUpdate update ∈ received) (hupdateValid : update.valid)
      (hbridge : policy.bridgesSnapshot update snapshot) :
      Founded policy received update.finalId
        [.applySnapshot snapshot.bids snapshot.asks, .applyBatch update.bids update.asks]
  | delta {id : UInt64} {ops : List BookOp} {update : DepthUpdate}
      (hops : Founded policy received id ops)
      (hupdate : .depthUpdate update ∈ received) (hupdateValid : update.valid)
      (hnext : policy.isContiguous update id) :
      Founded policy received update.finalId (ops ++ [.applyBatch update.bids update.asks])

/-- What happens to a pair. -/
inductive PairEvent
  /-- The connection is up and subscribed. -/
  | connected
  /-- A snapshot message on the connection. -/
  | snapshotMessage (snapshot : SnapshotMessage)
  /-- A depth message on the connection. -/
  | depthMessage (update : DepthUpdate)
  /-- A snapshot fetched over REST. -/
  | snapshotResponse (snapshot : SnapshotMessage)
  /-- The connection drops. -/
  | disconnected
  /-- Another venue's call on the book. -/
  | otherCall (call : BookCall)

/-- A forced reconnect disconnects every symbol of the connection. -/
def Driven.settle (venue : VenueId) (result : Driven × Bool) : Driven :=
  if result.2 then result.1.disconnected venue else result.1

/-- One event of a pair, run to its end. -/
def pairStep (pair : FeedPolicy) (venue : VenueId) (d : Driven) : PairEvent → Driven
  | .connected => d.connected venue
  | .snapshotMessage snapshot =>
    Driven.settle venue (d.receive venue pair.policy (.snapshot snapshot))
  | .depthMessage update => Driven.settle venue (d.receive venue pair.policy (.depthUpdate update))
  | .snapshotResponse snapshot =>
    if pair.snapshotViaRest then
      Driven.settle venue (d.receive venue pair.policy (.snapshot snapshot))
    else d
  | .disconnected => d.disconnected venue
  | .otherCall call =>
    if call.venue = venue then d else { d with book := d.book.map fun b => (b.call call).2 }

/-- The message an event of the pair brings to its symbol, if any. -/
def PairEvent.input? (pair : FeedPolicy) : PairEvent → Option SyncInput
  | .snapshotMessage snapshot => some (.snapshot snapshot)
  | .depthMessage update => some (.depthUpdate update)
  | .snapshotResponse snapshot => if pair.snapshotViaRest then some (.snapshot snapshot) else none
  | _ => none

/-- The messages received along a run. -/
def received (pair : FeedPolicy) (events : List PairEvent) : List SyncInput :=
  events.filterMap (PairEvent.input? pair)

/-- The pair as a machine. -/
def pairMachine (pair : FeedPolicy) (venue : VenueId) : Machine Driven PairEvent Unit where
  step d event := (pairStep pair venue d event, [])

/-- The venue has no entry, and as long as no total has left the `int64_t` range each side of
the aggregate is the sum of the other venues. -/
def NoContribution (venue : VenueId) (book : LoggedBook) : Prop :=
  book.entry venue = none ∧ (TotalsFit book.calls → ∀ p,
    sizeAt book.book.aggregate.bids p = others L2OrderBook.bids book.book.venues venue p ∧
    sizeAt book.book.aggregate.asks p = others L2OrderBook.asks book.book.venues venue p)

/-- An unsynchronised venue contributes nothing, and an entry of the venue is what the calls
since its last invalidation made of it: those of an accepted snapshot and of accepted updates
chained to it, all received in the run, up to the id the symbol stands at. -/
def Sound (pair : FeedPolicy) (venue : VenueId) (events : List PairEvent) (d : Driven) : Prop :=
  (d.sync.state = .buffering → ∀ book, d.book = some book → NoContribution venue book) ∧
    ∀ entry, d.entry venue = some entry →
      Founded pair.policy (received pair events) d.sync.lastFinalId (d.standing venue) ∧
        (d.standing venue).foldl BookOp.replay none = some entry

/-- The snapshot is bridged by the buffer, the replay runs to its end, the snapshot or one of
the replayed updates has an invalid level, and the last update has none. -/
def RejectedMidReplay (policy : SequencePolicy) (sync : SymbolSync)
    (snapshot : SnapshotMessage) : Prop :=
  ∃ skipped bridge tail, kept policy sync.buffer snapshot = skipped ++ bridge :: tail ∧
    (∀ u ∈ skipped, policy.bridgesSnapshot u snapshot = false) ∧
    policy.bridgesSnapshot bridge snapshot ∧ Chained policy bridge.finalId tail ∧
    (snapshot.valid = false ∨ ∃ u ∈ bridge :: tail, u.valid = false) ∧
    ((bridge :: tail).getLast (List.cons_ne_nil _ _)).valid

/-- A venue that is not reconnected on a gap gets no snapshot of that kind. -/
def Unbroken (pair : FeedPolicy) (d : Driven) : PairEvent → Prop
  | .snapshotMessage snapshot | .snapshotResponse snapshot =>
    pair.policy.trustsConnectionOrder = false → ¬ RejectedMidReplay pair.policy d.sync snapshot
  | _ => True

/-! ### The invariant -/

private theorem noContribution_of_entry {venue : VenueId} {book : LoggedBook}
    (h : book.entry venue = none) : NoContribution venue book := by
  refine ⟨h, fun hfit p => ?_⟩
  have hsummed : book.book.Summed := run_summed hfit
  have hnone : ∀ {cmp : Price → Price → Ordering} [SideOrder cmp]
      (side : L2OrderBook → SideMap cmp), contribution side book.book.venues p venue = 0 := by
    intro cmp _ side
    rw [LoggedBook.entry] at h
    rw [contribution, h]
    rfl
  rw [hsummed.1.sum, hsummed.2.sum, ← contribution_add_others _ venue,
    ← contribution_add_others _ venue, hnone, hnone, zero_add, zero_add]
  exact ⟨rfl, rfl⟩

/-! ### What an entry stands on -/

private theorem standing_append (venue : VenueId) (calls : List BookCall) {ops : List BookOp}
    (hops : ops.all BookOp.valid) :
    standing venue (calls ++ ops.map (BookCall.mk venue)) =
      ops.foldl BookOp.stand (standing venue calls) := by
  have hown : ownCalls venue (ops.map (BookCall.mk venue)) = ops := by
    rw [ownCalls, List.filter_eq_self.mpr, List.map_map]
    · exact List.map_id ops
    · intro c hc
      obtain ⟨op, hop, rfl⟩ := List.mem_map.mp hc
      simpa using List.all_eq_true.mp hops op hop
  simp only [standing, ownCalls, List.filter_append, List.map_append, List.foldl_append]
  exact congrArg _ hown

/-- An entry is what the calls it stands on make of nothing. -/
private theorem foldl_replay_standing (venue : VenueId) (calls : List BookCall) :
    (standing venue calls).foldl BookOp.replay none = replay venue calls := by
  rw [standing, replay]
  induction ownCalls venue calls using List.reverseRecOn with
  | nil => rfl
  | append_singleton ops op ih =>
    rw [List.foldl_concat, List.foldl_concat, ← ih]
    cases op with
    | applySnapshot bids asks => rfl
    | applyBatch bids asks => exact List.foldl_concat ..
    | invalidateVenue => rfl

theorem Driven.foldl_replay_standing (venue : VenueId) (d : Driven) :
    (d.standing venue).foldl BookOp.replay none = d.entry venue := by
  obtain ⟨sync, book, requests⟩ := d
  cases book with
  | none => rfl
  | some book =>
    exact (Hermeneutic.foldl_replay_standing venue book.calls).trans
      (book.entry_eq_replay venue).symm

/-- A batch the book takes adds its calls to the log. -/
private theorem Driven.book_executeActions (venue : VenueId) {actions : List SyncAction}
    (happlies : ∀ a ∈ actions, a.applies) {d : Driven}
    (haccepts : (bookOps actions).all d.accepts) :
    (d.executeActions venue actions).1.book =
      d.book.map fun b => ⟨b.calls ++ (bookOps actions).map (BookCall.mk venue)⟩ := by
  induction actions generalizing d with
  | nil => cases hbook : d.book <;> simp [hbook, bookOps]
  | cons action actions ih =>
    obtain ⟨op, hop, hne⟩ := action.exists_bookOp (happlies action List.mem_cons_self)
    have hops : bookOps (action :: actions) = op :: bookOps actions := by
      simp [bookOps, hop]
    rw [hops, List.all_cons, Bool.and_eq_true] at haccepts
    rw [executeActions_cons, hops, executeAction_apply venue d hop hne, if_pos haccepts.1]
    have hrest := ih (fun a ha => happlies a (List.mem_cons_of_mem _ ha))
      (d := d.log venue op) (by rw [accepts_congr (d := d) (by simp)]; exact haccepts.2)
    rw [hrest, log, Option.map_map]
    congr 1
    funext b
    simp [LoggedBook.call]

/-- A batch the book takes leaves the entry standing on its calls. -/
private theorem Driven.standing_executeActions (venue : VenueId) {actions : List SyncAction}
    (happlies : ∀ a ∈ actions, a.applies) {d : Driven} (hbook : d.book.isSome)
    (haccepts : (bookOps actions).all d.accepts) :
    (d.executeActions venue actions).1.standing venue =
      (bookOps actions).foldl BookOp.stand (d.standing venue) := by
  rw [standing, book_executeActions venue happlies haccepts]
  rw [accepts_eq_valid hbook] at haccepts
  obtain ⟨sync, book, requests⟩ := d
  cases book with
  | none => simp at hbook
  | some book => exact standing_append venue book.calls haccepts

/-- Updates are stood on one after the other. -/
private theorem foldl_stand_batches (ops : List BookOp) (updates : List DepthUpdate) :
    (updates.map fun u => BookOp.applyBatch u.bids u.asks).foldl BookOp.stand ops =
      ops ++ updates.map fun u => .applyBatch u.bids u.asks := by
  induction updates generalizing ops with
  | nil => exact (List.append_nil ops).symm
  | cons update updates ih =>
    rw [List.map_cons, List.foldl_cons, ih]
    exact List.append_assoc ops [_] _

section Founded

variable {policy : SequencePolicy} {inputs inputs' : List SyncInput}

/-- More messages found no less. -/
theorem Founded.mono (hsubset : inputs ⊆ inputs') {id : UInt64} {ops : List BookOp}
    (h : Founded policy inputs id ops) : Founded policy inputs' id ops := by
  induction h with
  | snapshot hreceived hvalid => exact .snapshot (hsubset hreceived) hvalid
  | bridge hreceived hvalid hupdate hupdateValid hbridge =>
    exact .bridge (hsubset hreceived) hvalid (hsubset hupdate) hupdateValid hbridge
  | delta _ hupdate hupdateValid hnext ih => exact ih.delta (hsubset hupdate) hupdateValid hnext

/-- A chain of updates carries on from where the calls stand. -/
theorem Founded.chain {updates : List DepthUpdate} {id : UInt64} {ops : List BookOp}
    (h : Founded policy inputs id ops) (hreceived : ∀ u ∈ updates, .depthUpdate u ∈ inputs)
    (hvalid : ∀ u ∈ updates, u.valid) (hchain : Chained policy id updates) :
    Founded policy inputs (lastId id updates)
      (ops ++ updates.map fun u => .applyBatch u.bids u.asks) := by
  induction updates generalizing id ops with
  | nil => simpa [lastId] using h
  | cons update updates ih =>
    have hfirst := h.delta (hreceived update List.mem_cons_self)
      (hvalid update List.mem_cons_self) hchain.1
    have hrest := ih hfirst (fun u hu => hreceived u (List.mem_cons_of_mem _ hu))
      (fun u hu => hvalid u (List.mem_cons_of_mem _ hu)) hchain.2
    rw [List.append_assoc] at hrest
    exact hrest

end Founded

/-- Between steps, after some messages: no entry while buffering, a buffer of received updates,
and while live an empty buffer and an entry that stands on an accepted snapshot and updates
chained to it. -/
structure PairInv (policy : SequencePolicy) (venue : VenueId) (inputs : List SyncInput)
    (d : Driven) : Prop where
  book : d.book.isSome
  buffer : ∀ u ∈ d.sync.buffer, .depthUpdate u ∈ inputs
  buffering : d.sync.state = .buffering → d.entry venue = none
  live : d.sync.state = .live → d.sync.buffer = [] ∧
    Founded policy inputs d.sync.lastFinalId (d.standing venue)

section Inv

variable {policy : SequencePolicy} {venue : VenueId} {inputs : List SyncInput}

private theorem PairInv.mono {inputs' : List SyncInput} {d : Driven} (hsubset : inputs ⊆ inputs')
    (h : PairInv policy venue inputs d) : PairInv policy venue inputs' d :=
  ⟨h.book, fun u hu => hsubset (h.buffer u hu), h.buffering,
    fun hlive => ⟨(h.live hlive).1, (h.live hlive).2.mono hsubset⟩⟩

theorem PairInv.sound {pair : FeedPolicy} {events : List PairEvent} {d : Driven}
    (h : PairInv pair.policy venue (received pair events) d) : Sound pair venue events d := by
  constructor
  · intro hstate book hbook
    refine noContribution_of_entry ?_
    have hentry := h.buffering hstate
    rw [Driven.entry, hbook] at hentry
    exact hentry
  · intro entry hentry
    cases hstate : d.sync.state with
    | buffering =>
      rw [h.buffering hstate] at hentry
      exact absurd hentry (by simp)
    | live => exact ⟨(h.live hstate).2, (d.foldl_replay_standing venue).trans hentry⟩

theorem PairInv.connected {d : Driven} (h : PairInv policy venue inputs d) :
    PairInv policy venue inputs (d.connected venue) := by
  rw [Driven.connected_eq]
  split
  · rename_i hstate
    exact ⟨h.book, h.buffer, h.buffering,
      fun hlive => absurd (hstate.1.symm.trans hlive) (by decide)⟩
  · exact h

theorem PairInv.disconnected {d : Driven} (h : d.book.isSome) :
    PairInv policy venue inputs (d.disconnected venue) := by
  rw [Driven.disconnected_eq]
  exact ⟨by simpa using h, by simp, fun _ => Driven.entry_log_invalidate venue d, by simp⟩

/-- A gap that leaves the symbol buffering without an entry ends well either way. -/
private theorem pairInv_of_gap {d : Driven} (hbook : d.book.isSome)
    (hbuffer : ∀ u ∈ d.sync.buffer, .depthUpdate u ∈ inputs)
    (hstate : d.sync.state = .buffering) (hentry : d.entry venue = none) (b : Bool) :
    PairInv policy venue inputs (Driven.settle venue
      (if b then (d, true) else (d.connected venue, false))) := by
  cases b with
  | true => exact PairInv.disconnected hbook
  | false =>
    have : PairInv policy venue inputs d :=
      ⟨hbook, hbuffer, fun _ => hentry, fun hlive => absurd (hstate.symm.trans hlive) (by decide)⟩
    exact this.connected

/-- A batch that ends with an invalidation keeps the invariant. -/
private theorem pairInv_of_invalidate {d : Driven} (hbook : d.book.isSome) (sync : SymbolSync)
    (hbuffer : ∀ u ∈ sync.buffer, .depthUpdate u ∈ inputs)
    (hstate : sync.state = .buffering) {actions : List SyncAction}
    (happlies : ∀ a ∈ actions, a.applies) (b : Bool) :
    let r := Driven.executeActions venue { d with sync } (actions ++ [.invalidateVenue])
    PairInv policy venue inputs (Driven.settle venue (if !r.2 then (r.1, false)
      else if b then (r.1, true) else (r.1.connected venue, false))) := by
  intro r
  obtain ⟨hgap, hentry, hsync, -, hsome⟩ :=
    Driven.executeActions_invalidate venue happlies { d with sync }
  have hreset : r.1.sync.state = .buffering ∧
      ∀ u ∈ r.1.sync.buffer, .depthUpdate u ∈ inputs := by
    rcases hsync with hsync | hsync
    · have hsync' : r.1.sync = sync := hsync
      rw [hsync']
      exact ⟨hstate, hbuffer⟩
    · have hsync' : r.1.sync = {} := hsync
      rw [hsync']
      exact ⟨rfl, List.forall_mem_nil _⟩
  simp only [r, hgap, Bool.not_true, Bool.false_eq_true, if_false]
  exact pairInv_of_gap (hsome.trans hbook) hreset.2 hreset.1 hentry b

/-- A batch of snapshots and deltas, of which the book rejects one, keeps the invariant if the
venue is reconnected or has no entry after it. -/
private theorem pairInv_of_rejected {d : Driven} (hbook : d.book.isSome) (sync : SymbolSync)
    {actions : List SyncAction} (happlies : ∀ a ∈ actions, a.applies)
    (hrejected : (bookOps actions).all BookOp.valid = false) (b : Bool)
    (hentry : b = false →
      (Driven.executeActions venue { d with sync } actions).1.entry venue = none) :
    let r := Driven.executeActions venue { d with sync } actions
    PairInv policy venue inputs (Driven.settle venue (if !r.2 then (r.1, false)
      else if b then (r.1, true) else (r.1.connected venue, false))) := by
  intro r
  obtain ⟨hsync, hgap, -, hsome⟩ := Driven.executeActions_spec venue happlies { d with sync }
  rw [Driven.accepts_eq_valid (d := { d with sync }) hbook, hrejected] at hsync hgap
  have hreset : r.1.sync = {} := hsync
  simp only [r, hgap, Bool.not_false, Bool.not_true, Bool.false_eq_true, if_false]
  cases b with
  | true => exact PairInv.disconnected (hsome.trans hbook)
  | false =>
    refine pairInv_of_gap (hsome.trans hbook) ?_ (congrArg SymbolSync.state hreset)
      (hentry rfl) false
    exact fun u hu => absurd ((congrArg SymbolSync.buffer hreset) ▸ hu) (by simp)

/-- A batch of snapshots and deltas the book takes, of a symbol that goes live on founded
calls, keeps the invariant. -/
private theorem pairInv_of_accepted {d : Driven} (hbook : d.book.isSome) (sync : SymbolSync)
    {actions : List SyncAction} (happlies : ∀ a ∈ actions, a.applies)
    (haccepts : (bookOps actions).all BookOp.valid) (hstate : sync.state = .live)
    (hbuffer : sync.buffer = []) (hfounded : Founded policy inputs sync.lastFinalId
      ((bookOps actions).foldl BookOp.stand (d.standing venue))) (b : Bool) :
    let r := Driven.executeActions venue { d with sync } actions
    PairInv policy venue inputs (Driven.settle venue (if !r.2 then (r.1, false)
      else if b then (r.1, true) else (r.1.connected venue, false))) := by
  intro r
  rw [← Driven.accepts_eq_valid (d := { d with sync }) hbook] at haccepts
  obtain ⟨hsync, hgap, -, hsome⟩ := Driven.executeActions_spec venue happlies { d with sync }
  rw [haccepts] at hsync hgap
  have hstanding := Driven.standing_executeActions venue happlies (d := { d with sync }) hbook
    haccepts
  have hlive : r.1.sync = sync := hsync
  simp only [r, hgap, Bool.not_true, Bool.not_false, if_true, Driven.settle,
    Bool.false_eq_true, if_false]
  refine ⟨hsome.trans hbook, ?_, fun hbuffering => ?_, fun _ => ?_⟩
  · rw [hlive, hbuffer]
    exact List.forall_mem_nil _
  · rw [hlive, hstate] at hbuffering
    exact absurd hbuffering (by decide)
  · rw [hlive, hstanding]
    exact ⟨hbuffer, hfounded⟩

/-- The calls of a replayed snapshot. -/
private theorem bookOps_replay (snapshot : SnapshotMessage) (updates : List DepthUpdate) :
    bookOps ((SyncEvent.applySnapshot snapshot :: updates.map .applyDelta).map SyncEvent.action) =
      .applySnapshot snapshot.bids snapshot.asks ::
        updates.map fun u => .applyBatch u.bids u.asks := by
  simp [bookOps, SyncEvent.action, SyncAction.bookOp, Function.comp_def]

/-- The book takes a replay when every message of it is valid. -/
private theorem all_valid_replay (snapshot : SnapshotMessage) (updates : List DepthUpdate) :
    (bookOps ((SyncEvent.applySnapshot snapshot :: updates.map .applyDelta).map
      SyncEvent.action)).all BookOp.valid ↔ snapshot.valid ∧ ∀ u ∈ updates, u.valid := by
  rw [bookOps_replay, List.all_cons, Bool.and_eq_true, List.all_map, List.all_eq_true]
  exact Iff.rfl

/-- The last update of a batch decides whether the venue keeps an entry. -/
private theorem entry_isSome_of_last {d : Driven} (hbook : d.book.isSome) (sync : SymbolSync)
    {actions : List SyncAction} (happlies : ∀ a ∈ actions, a.applies) (last : DepthUpdate) :
    ((Driven.executeActions venue { d with sync }
      (actions ++ [.applyDelta last.bids last.asks])).1.entry venue).isSome = last.valid := by
  have hentry := Driven.entry_executeActions_concat venue happlies
    (show SyncAction.applies (.applyDelta last.bids last.asks) from rfl) (d := { d with sync })
    hbook
  rw [Driven.accepts_eq_valid (d := { d with sync }) hbook] at hentry
  exact hentry.trans (Bool.and_true _)

private theorem entry_replay_isSome (venue : VenueId) {d : Driven} (hbook : d.book.isSome)
    (sync : SymbolSync) (snapshot : SnapshotMessage) (bridge : DepthUpdate)
    (tail : List DepthUpdate) :
    ((Driven.executeActions venue { d with sync } ((SyncEvent.applySnapshot snapshot ::
      (bridge :: tail).map .applyDelta).map SyncEvent.action)).1.entry venue).isSome =
      ((bridge :: tail).getLast (List.cons_ne_nil _ _)).valid := by
  have hsplit := List.dropLast_concat_getLast (List.cons_ne_nil bridge tail)
  generalize (bridge :: tail).getLast (List.cons_ne_nil bridge tail) = last at hsplit ⊢
  rw [← hsplit, List.map_append, ← List.cons_append, List.map_append]
  exact entry_isSome_of_last hbook sync (applies_replay snapshot _) last

/-- **Step lemma.** A message keeps the invariant, unless it is a snapshot of the kind that
leaves an entry behind. -/
theorem PairInv.receive {d : Driven} (h : PairInv policy venue inputs d) {input : SyncInput}
    (hunbroken : ∀ snapshot, input = .snapshot snapshot →
      policy.trustsConnectionOrder = false → ¬ RejectedMidReplay policy d.sync snapshot) :
    PairInv policy venue (inputs ++ [input])
      (Driven.settle venue (d.receive venue policy input)) := by
  have hbefore : ∀ u ∈ d.sync.buffer, .depthUpdate u ∈ inputs ++ [input] :=
    fun u hu => List.mem_append_left _ (h.buffer u hu)
  have hlast : input ∈ inputs ++ [input] := List.mem_append_right _ (List.mem_singleton.mpr rfl)
  obtain ⟨events, hevents, hstep⟩ := step_syncStep policy d.sync input
  rw [Driven.receive_eq hevents]
  generalize (d.sync.step policy input).1 = sync' at hstep
  cases hstep with
  | request hstate =>
    exact ⟨h.book, hbefore, h.buffering, fun hlive => absurd (hstate.symm.trans hlive) (by decide)⟩
  | noRequest => exact h.mono (List.subset_append_left _ _)
  | buffered hstate =>
    refine ⟨h.book, fun u hu => ?_, h.buffering,
      fun hlive => absurd (hstate.symm.trans hlive) (by decide)⟩
    rcases List.mem_append.mp hu with hu | hu
    · exact hbefore u hu
    · obtain rfl := List.mem_singleton.mp hu
      exact hlast
  | @delta update hstate hnext =>
    obtain ⟨hbuffer, hfounded⟩ := h.live hstate
    have happlies : ∀ a ∈ [SyncEvent.applyDelta update].map SyncEvent.action, a.applies := by
      simp [SyncEvent.action, SyncAction.applies]
    have hall : (bookOps ([SyncEvent.applyDelta update].map SyncEvent.action)).all BookOp.valid =
        update.valid := Bool.and_true _
    cases hupdate : update.valid with
    | true =>
      exact pairInv_of_accepted h.book { d.sync with lastFinalId := update.finalId } happlies
        (hall.trans hupdate) hstate hbuffer
        ((hfounded.mono (List.subset_append_left _ _)).delta hlast hupdate hnext) _
    | false =>
      refine pairInv_of_rejected h.book _ happlies (hall.trans hupdate) _ fun _ => ?_
      refine Option.not_isSome_iff_eq_none.mp fun hsome => ?_
      have hsome' := (entry_isSome_of_last h.book _ (List.forall_mem_nil _) update).symm.trans hsome
      exact absurd (hsome'.symm.trans hupdate) (by decide)
  | deltaGap =>
    refine pairInv_of_invalidate h.book (gapped _) (fun u hu => ?_) rfl (List.forall_mem_nil _) _
    rcases List.mem_append.mp hu with hu | hu
    · exact hbefore u hu
    · obtain rfl := List.mem_singleton.mp hu
      exact hlast
  | @goLive snapshot htrusts hbuffer =>
    have hall : (bookOps ([SyncEvent.applySnapshot snapshot].map SyncEvent.action)).all
        BookOp.valid = snapshot.valid := Bool.and_true _
    cases hsnapshot : snapshot.valid with
    | true =>
      exact pairInv_of_accepted h.book
        { d.sync with lastFinalId := snapshot.lastUpdateId, state := .live }
        (applies_replay snapshot []) (hall.trans hsnapshot) rfl hbuffer
        (.snapshot hlast hsnapshot) _
    | false =>
      refine pairInv_of_rejected h.book _ (applies_replay snapshot []) (hall.trans hsnapshot) _
        fun hfalse => ?_
      rw [htrusts] at hfalse
      exact absurd hfalse (by decide)
  | noBridgeGap =>
    exact pairInv_of_invalidate h.book (gapped _)
      (fun u hu => hbefore u (List.mem_of_mem_filter hu)) rfl (List.forall_mem_nil _) _
  | @retry snapshot htrusts hnone =>
    refine ⟨h.book, fun u hu => hbefore u (List.mem_of_mem_filter hu), h.buffering,
      fun hlive => ?_⟩
    obtain ⟨hbuffer, hfounded⟩ := h.live hlive
    refine ⟨?_, hfounded.mono (List.subset_append_left _ _)⟩
    simp [Driven.settle, Driven.executeActions, Driven.executeAction, Driven.visit,
      SyncEvent.action, kept, hbuffer]
  | @bridged snapshot skipped tail bridge hkept hskipped hbridge hchain =>
    have happlies := applies_replay snapshot (bridge :: tail)
    have hall := all_valid_replay snapshot (bridge :: tail)
    have hreplayed : ∀ u ∈ bridge :: tail, .depthUpdate u ∈ inputs ++ [.snapshot snapshot] := by
      intro u hu
      refine hbefore u (List.mem_of_mem_filter (?_ : u ∈ kept policy d.sync.buffer snapshot))
      rw [hkept]
      exact List.mem_append_right _ hu
    by_cases hvalid : snapshot.valid ∧ ∀ u ∈ bridge :: tail, u.valid
    · have hstood : (bookOps ((SyncEvent.applySnapshot snapshot ::
          (bridge :: tail).map .applyDelta).map SyncEvent.action)).foldl BookOp.stand
            (d.standing venue) =
          [.applySnapshot snapshot.bids snapshot.asks, .applyBatch bridge.bids bridge.asks] ++
            tail.map fun u => .applyBatch u.bids u.asks := by
        rw [bookOps_replay, List.map_cons]
        exact foldl_stand_batches _ tail
      obtain ⟨hbridgeValid, htail⟩ := List.forall_mem_cons.mp hvalid.2
      obtain ⟨hbridgeReceived, htailReceived⟩ := List.forall_mem_cons.mp hreplayed
      refine pairInv_of_accepted h.book
        { d.sync with state := .live, buffer := [], lastFinalId := lastId bridge.finalId tail }
        happlies (hall.mpr hvalid) rfl rfl ?_ _
      rw [hstood]
      exact (Founded.bridge hlast hvalid.1 hbridgeReceived hbridgeValid hbridge).chain
        htailReceived htail hchain
    · refine pairInv_of_rejected h.book _ happlies ?_ _ fun htrusts => ?_
      · exact Bool.eq_false_iff.mpr fun hall' => hvalid (hall.mp hall')
      · -- The snapshot is not of that kind, so the last update is rejected too.
        refine Option.not_isSome_iff_eq_none.mp fun hsome => ?_
        refine hunbroken snapshot rfl htrusts ⟨skipped, bridge, tail, hkept, hskipped, hbridge,
          hchain, ?_, (entry_replay_isSome venue h.book _ snapshot bridge tail).symm.trans hsome⟩
        by_contra hnone
        push Not at hnone
        exact hvalid ⟨by simpa using hnone.1, fun u hu => by simpa using hnone.2 u hu⟩
  | @bridgedGap snapshot skipped applied rest bridge next hkept =>
    have hunresolved : ∀ u ∈ next :: rest, .depthUpdate u ∈ inputs ++ [.snapshot snapshot] := by
      intro u hu
      refine hbefore u (List.mem_of_mem_filter (?_ : u ∈ kept policy d.sync.buffer snapshot))
      rw [hkept]
      exact List.mem_append_right _ (List.mem_cons_of_mem _ (List.mem_append_right _ hu))
    have hsplit : (SyncEvent.applySnapshot snapshot ::
        ((bridge :: applied).map .applyDelta ++ [.invalidateVenue])).map SyncEvent.action =
        (SyncEvent.applySnapshot snapshot :: (bridge :: applied).map .applyDelta).map
          SyncEvent.action ++ [.invalidateVenue] := by
      rw [← List.cons_append, List.map_append]
      rfl
    rw [hsplit]
    exact pairInv_of_invalidate h.book (gapped _) hunresolved rfl
      (applies_replay snapshot (bridge :: applied)) _
  | disconnected =>
    exact pairInv_of_invalidate h.book {} (List.forall_mem_nil _) rfl (List.forall_mem_nil _) _

/-- A snapshot of that kind leaves a buffering symbol with an entry. -/
private theorem not_sound_of_rejectedMidReplay {pair : FeedPolicy} {events : List PairEvent}
    {d : Driven} (hbook : d.book.isSome) (htrusts : pair.policy.trustsConnectionOrder = false)
    {snapshot : SnapshotMessage} (h : RejectedMidReplay pair.policy d.sync snapshot) :
    ¬ Sound pair venue events
      (Driven.settle venue (d.receive venue pair.policy (.snapshot snapshot))) := by
  obtain ⟨skipped, bridge, tail, hkept, hskipped, hbridge, hchain, hrejected, hlast⟩ := h
  have hevents : (d.sync.step pair.policy (.snapshot snapshot)).2 =
      (SyncEvent.applySnapshot snapshot :: (bridge :: tail).map .applyDelta).map
        SyncEvent.action :=
    congrArg Prod.snd (onSnapshot_bridged hkept hskipped hbridge hchain)
  have hall : (bookOps ((SyncEvent.applySnapshot snapshot ::
      (bridge :: tail).map .applyDelta).map SyncEvent.action)).all BookOp.valid = false := by
    refine Bool.eq_false_iff.mpr fun hall => ?_
    obtain ⟨hsnapshot, hupdates⟩ := (all_valid_replay snapshot (bridge :: tail)).mp hall
    rcases hrejected with hinvalid | ⟨u, hu, hinvalid⟩
    · exact absurd (hinvalid.symm.trans hsnapshot) (by decide)
    · exact absurd (hinvalid.symm.trans (hupdates u hu)) (by decide)
  rw [Driven.receive_eq hevents]
  generalize (d.sync.step pair.policy (.snapshot snapshot)).1 = sync
  have hsome := (entry_replay_isSome venue hbook sync snapshot bridge tail).trans hlast
  obtain ⟨hsync, hgap, -, hkeep⟩ := Driven.executeActions_spec venue
    (applies_replay snapshot (bridge :: tail)) { d with sync }
  rw [Driven.accepts_eq_valid (d := { d with sync }) hbook, hall] at hsync hgap
  generalize Driven.executeActions venue _ _ = r at hsome hsync hgap hkeep
  simp only [hgap, htrusts, Driven.settle, Bool.not_false, Bool.not_true, Bool.false_eq_true,
    if_false]
  -- In place of a reconnect only a new snapshot is requested.
  have hconnected : (r.1.connected venue).sync.state = .buffering ∧
      (r.1.connected venue).book = r.1.book := by
    rw [Driven.connected_eq]
    have hstate : r.1.sync.state = .buffering := congrArg SymbolSync.state hsync
    split <;> exact ⟨hstate, rfl⟩
  intro hsound
  obtain ⟨book, hbook'⟩ := Option.isSome_iff_exists.mp (hkeep.trans hbook)
  have hnone := (hsound.1 hconnected.1 book (hconnected.2.trans hbook')).1
  rw [Driven.entry, hbook', Option.bind_some, hnone] at hsome
  exact absurd hsome (by decide)

/-- Other venues' calls leave the entry alone. -/
theorem PairInv.otherCall {d : Driven} (h : PairInv policy venue inputs d) {call : BookCall}
    (hne : call.venue ≠ venue) :
    PairInv policy venue inputs { d with book := d.book.map fun b => (b.call call).2 } := by
  obtain ⟨sync, book, requests⟩ := d
  obtain ⟨b, rfl⟩ := Option.isSome_iff_exists.mp h.book
  have hentry : (({ sync, book := some (b.call call).2, requests } : Driven)).entry venue =
      ({ sync, book := some b, requests } : Driven).entry venue := by
    simp [Driven.entry, LoggedBook.entry_call, hne]
  have hown : ownCalls venue (b.calls ++ [call]) = ownCalls venue b.calls := by
    simp [ownCalls, hne]
  have hstanding : standing venue (b.calls ++ [call]) = standing venue b.calls :=
    congrArg (List.foldl BookOp.stand []) hown
  refine ⟨rfl, h.buffer, fun hstate => hentry.trans (h.buffering hstate), fun hlive => ?_⟩
  obtain ⟨hbuffer, hfounded⟩ := h.live hlive
  have hsame : Founded policy inputs sync.lastFinalId (standing venue (b.calls ++ [call])) := by
    rw [hstanding]
    exact hfounded
  exact ⟨hbuffer, hsame⟩

/-- **Step lemma.** -/
theorem PairInv.pairStep {pair : FeedPolicy} {events : List PairEvent} {d : Driven}
    (h : PairInv pair.policy venue (received pair events) d) {event : PairEvent}
    (hunbroken : Unbroken pair d event) :
    PairInv pair.policy venue (received pair (events ++ [event]))
      (pairStep pair venue d event) := by
  have hreceived : received pair (events ++ [event]) =
      received pair events ++ (event.input? pair).toList := by
    cases hinput : event.input? pair <;> simp [received, hinput]
  rw [hreceived]
  cases event with
  | connected => exact h.connected.mono (List.subset_append_left _ _)
  | snapshotMessage snapshot =>
    refine h.receive fun snapshot' heq => ?_
    obtain rfl := SyncInput.snapshot.inj heq
    exact hunbroken
  | depthMessage update => exact h.receive fun snapshot' heq => by simp at heq
  | snapshotResponse snapshot =>
    rw [Hermeneutic.pairStep, PairEvent.input?]
    split
    · refine h.receive fun snapshot' heq => ?_
      obtain rfl := SyncInput.snapshot.inj heq
      exact hunbroken
    · exact h.mono (List.subset_append_left _ _)
  | disconnected => exact .disconnected h.book
  | otherCall call =>
    refine PairInv.mono (List.subset_append_left _ _) ?_
    rw [Hermeneutic.pairStep]
    split
    · exact h
    · exact h.otherCall ‹_›

/-- A step under any other condition loses soundness. -/
private theorem not_sound_of_not_unbroken {pair : FeedPolicy} {events : List PairEvent} {d : Driven}
    (h : PairInv pair.policy venue inputs d) {event : PairEvent}
    (hbroken : ¬ Unbroken pair d event) :
    ¬ Sound pair venue events (Hermeneutic.pairStep pair venue d event) := by
  cases event with
  | snapshotMessage snapshot =>
    simp only [Unbroken, Classical.not_imp, not_not] at hbroken
    exact not_sound_of_rejectedMidReplay h.book hbroken.1 hbroken.2
  | snapshotResponse snapshot =>
    simp only [Unbroken, Classical.not_imp, not_not] at hbroken
    have hrest : pair.snapshotViaRest = true := by rw [pair.wired, hbroken.1]; rfl
    rw [Hermeneutic.pairStep, if_pos hrest]
    exact not_sound_of_rejectedMidReplay h.book hbroken.1 hbroken.2
  | _ => exact absurd trivial hbroken

end Inv

/-- **An unsynchronised venue contributes nothing**, and what a book shows of a venue was put
there by an accepted snapshot and the updates chained to it, in every state of a run, exactly
when no snapshot of the run is one that a venue without forced reconnects replays past a
rejection to an accepted last update. -/
theorem unsynchronised_contributes_nothing_iff (pair : FeedPolicy) (venue : VenueId)
    (events : List PairEvent) :
    (pairMachine pair venue).AlwaysAfter (Sound pair venue) {} events ↔
      (pairMachine pair venue).Throughout (Unbroken pair) {} events := by
  refine Machine.alwaysAfter_iff_throughout (M := pairMachine pair venue)
    (I := fun es d => PairInv pair.policy venue (received pair es) d)
    ⟨rfl, List.forall_mem_nil _, fun _ => rfl, fun hlive => absurd hlive (by decide)⟩
    (fun _ _ h => h.sound) (fun _ _ _ h => h.pairStep)
    fun _ _ _ h => not_sound_of_not_unbroken h

/-- A buffered update, then a snapshot it bridges whose one level has a negative size. -/
def rejectedSnapshotRun : List PairEvent :=
  [.connected, .depthMessage ⟨"BTCUSDT", 2, 3, 1, [(⟨100⟩, ⟨7⟩)], []⟩,
    .snapshotResponse ⟨"BTCUSDT", [(⟨100⟩, ⟨-1⟩)], [], 2⟩]

/-- On Binance Futures that run ends buffering, with the update's bid in the book. -/
theorem unsynchronised_contributes_counterexample :
    ¬ (pairMachine binanceFutures ⟨.binance, .perp⟩).AlwaysAfter
      (Sound binanceFutures ⟨.binance, .perp⟩) {} rejectedSnapshotRun := by
  intro h
  have hentry : (((pairMachine binanceFutures ⟨.binance, .perp⟩).state {}
      rejectedSnapshotRun).entry ⟨.binance, .perp⟩).isSome := by decide
  obtain ⟨hbuffering, -⟩ := h rejectedSnapshotRun List.prefix_rfl
  have hnone := (hbuffering (by decide) _ rfl).1
  have hnone' : ((pairMachine binanceFutures ⟨.binance, .perp⟩).state {}
      rejectedSnapshotRun).entry ⟨.binance, .perp⟩ = none := hnone
  rw [hnone'] at hentry
  exact absurd hentry (by decide)

end Hermeneutic
