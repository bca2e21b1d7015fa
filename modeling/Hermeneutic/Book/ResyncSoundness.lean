import Hermeneutic.Book.ActionStream
import Hermeneutic.Book.AggregateSum

/-!
# When a live symbol's book is true

The book a `SymbolSync` drives is what its actions, executed in order, leave of its venue
(`bookOf`). Whether that is the exchange's book depends on the venue's numbering, and only
on three facts about its policy (`Tracks`): an update contiguous with a true book leads to a
true book, so does an update that bridges a snapshot, and, for a venue that goes live from
the snapshot alone, the snapshot is true. `Tracks.live` derives from them that a live symbol
has a true book after any calls at all.

`venue_entry_of_execute` carries a statement about `bookOf` over to the aggregate book,
whatever other venues do to it in between.
-/

namespace Hermeneutic

/-- The book after an update of absolute sizes. -/
def DepthUpdate.applyTo (update : DepthUpdate) (book : L2OrderBook) : L2OrderBook where
  asks := lastsOn book.asks update.asks
  bids := lastsOn book.bids update.bids

/-- The book a snapshot describes. -/
def SnapshotMessage.book (snapshot : SnapshotMessage) : L2OrderBook where
  asks := firstsOf snapshot.asks
  bids := firstsOf snapshot.bids

/-- The call a driver makes on the book for an action; none for a snapshot request. -/
def SyncAction.bookOp : SyncAction → Option BookOp
  | requestSnapshot => none
  | applySnapshot bids asks => some (.applySnapshot bids asks)
  | applyDelta bids asks => some (.applyBatch bids asks)
  | invalidateVenue => some .invalidateVenue

/-- The calls a stream of actions makes. -/
def bookOps (actions : List SyncAction) : List BookOp :=
  actions.filterMap SyncAction.bookOp

/-- The venue's book after a stream of actions, on plain maps. -/
def bookOf (actions : List SyncAction) : Option L2OrderBook :=
  (bookOps actions).foldl BookOp.replay none

theorem bookOf_append (actions actions' : List SyncAction) :
    bookOf (actions ++ actions') = (bookOps actions').foldl BookOp.replay (bookOf actions) := by
  simp only [bookOf, bookOps, List.filterMap_append, List.foldl_append]

/-- Deltas update the book one after the other. -/
theorem bookOf_deltas {actions : List SyncAction} {book : L2OrderBook}
    (h : bookOf actions = some book) (updates : List DepthUpdate) :
    bookOf (actions ++ (updates.map SyncEvent.applyDelta).map SyncEvent.action) =
      some (updates.foldl (fun book update => update.applyTo book) book) := by
  rw [bookOf_append, h]
  clear h
  induction updates generalizing book with
  | nil => rfl
  | cons update updates ih => exact ih

/-- A snapshot replaces the book. -/
theorem bookOf_snapshot (actions : List SyncAction) (snapshot : SnapshotMessage) :
    bookOf (actions ++ [.applySnapshot snapshot.bids snapshot.asks]) = some snapshot.book := by
  rw [bookOf_append]
  rfl

/-- Under which messages a policy tracks the exchange's book: `IsTrue id book` says that
`book` is the exchange's at `id`. -/
structure Tracks (policy : SequencePolicy) (IsTrue : UInt64 → L2OrderBook → Prop)
    (IsUpdate : DepthUpdate → Prop) (IsSnapshot : SnapshotMessage → Prop) : Prop where
  contiguous : ∀ id book update, IsTrue id book → IsUpdate update →
    policy.isContiguous update id → IsTrue update.finalId (update.applyTo book)
  bridge : ∀ snapshot update, IsSnapshot snapshot → IsUpdate update →
    policy.shouldDropBuffered update snapshot = false → policy.bridgesSnapshot update snapshot →
    IsTrue update.finalId (update.applyTo snapshot.book)
  goLive : policy.trustsConnectionOrder = true → ∀ snapshot, IsSnapshot snapshot →
    IsTrue snapshot.lastUpdateId snapshot.book

/-- Every message of a run is one of the exchange's. -/
structure Delivers (IsUpdate : DepthUpdate → Prop) (IsSnapshot : SnapshotMessage → Prop)
    (inputs : List SyncInput) : Prop where
  updates : ∀ update ∈ receivedUpdates inputs, IsUpdate update
  snapshots : ∀ snapshot ∈ receivedSnapshots inputs, IsSnapshot snapshot

section Tracks

variable {policy : SequencePolicy} {IsTrue : UInt64 → L2OrderBook → Prop}
  {IsUpdate : DepthUpdate → Prop} {IsSnapshot : SnapshotMessage → Prop}

/-- A contiguous run of updates leads from one true book to another. -/
theorem Tracks.chain (h : Tracks policy IsTrue IsUpdate IsSnapshot)
    {updates : List DepthUpdate} {id : UInt64} {book : L2OrderBook} (htrue : IsTrue id book)
    (hupdates : ∀ u ∈ updates, IsUpdate u) (hchain : Chained policy id updates) :
    IsTrue (lastId id updates) (updates.foldl (fun book u => u.applyTo book) book) := by
  induction updates generalizing id book with
  | nil => exact htrue
  | cons update updates ih =>
    obtain ⟨hnext, hchain⟩ := hchain
    exact ih (h.contiguous id book update htrue (hupdates update List.mem_cons_self) hnext)
      (fun u hu => hupdates u (List.mem_cons_of_mem _ hu)) hchain

/-- The invariant of a run: what is buffered is the exchange's, and a live symbol has nothing
buffered and a true book. -/
structure TracksInv (IsTrue : UInt64 → L2OrderBook → Prop) (IsUpdate : DepthUpdate → Prop)
    (sync : SymbolSync) (actions : List SyncAction) : Prop where
  buffer : ∀ u ∈ sync.buffer, IsUpdate u
  live : sync.state = .live → sync.buffer = [] ∧
    ∃ book, bookOf actions = some book ∧ IsTrue sync.lastFinalId book

/-- **Step lemma.** A call with one of the exchange's messages keeps the invariant. -/
theorem TracksInv.step (h : Tracks policy IsTrue IsUpdate IsSnapshot)
    {sync sync' : SymbolSync} {actions : List SyncAction} {input : SyncInput}
    {events : List SyncEvent} (hinv : TracksInv IsTrue IsUpdate sync actions)
    (hinput : Delivers IsUpdate IsSnapshot [input])
    (hstep : SyncStep policy sync input sync' events) :
    TracksInv IsTrue IsUpdate sync' (actions ++ events.map SyncEvent.action) := by
  have hkept : ∀ snapshot, ∀ u ∈ kept policy sync.buffer snapshot,
      IsUpdate u ∧ policy.shouldDropBuffered u snapshot = false := by
    intro snapshot u hu
    obtain ⟨hmem, hdrop⟩ := List.mem_filter.mp hu
    exact ⟨hinv.buffer u hmem, by simpa using hdrop⟩
  cases hstep with
  | request hstate =>
    exact ⟨hinv.buffer, fun hlive => absurd (hstate.symm.trans hlive) (by decide)⟩
  | noRequest => exact ⟨hinv.buffer, by simpa using hinv.live⟩
  | @buffered update hstate =>
    refine ⟨fun u hu => ?_, fun hlive => absurd (hstate.symm.trans hlive) (by decide)⟩
    rcases List.mem_append.mp hu with hu | hu
    · exact hinv.buffer u hu
    · exact hinput.updates u hu
  | @delta update hstate hnext =>
    obtain ⟨hbuffer, book, hbook, htrue⟩ := hinv.live hstate
    refine ⟨by simp [hbuffer], fun _ => ⟨hbuffer, _, bookOf_deltas hbook [update], ?_⟩⟩
    exact h.contiguous _ book update htrue (hinput.updates update (by simp [receivedUpdates])) hnext
  | @deltaGap update hstate =>
    refine ⟨fun u hu => ?_, by simp [gapped]⟩
    rcases List.mem_append.mp hu with hu | hu
    · exact hinv.buffer u hu
    · exact hinput.updates u hu
  | @goLive snapshot htrusts hbuffer =>
    refine ⟨by simp [hbuffer], fun _ => ⟨hbuffer, _, bookOf_snapshot actions snapshot, ?_⟩⟩
    exact h.goLive htrusts snapshot (hinput.snapshots snapshot (by simp [receivedSnapshots]))
  | @noBridgeGap snapshot =>
    exact ⟨fun u hu => (hkept snapshot u hu).1, by simp [gapped]⟩
  | @retry snapshot =>
    refine ⟨fun u hu => (hkept snapshot u hu).1, fun hlive => ?_⟩
    obtain ⟨hbuffer, book, hbook, htrue⟩ := hinv.live hlive
    refine ⟨by simp [kept, hbuffer], book, ?_, htrue⟩
    rw [bookOf_append, hbook]
    rfl
  | @bridged snapshot skipped tail bridge hsplit _ hbridge hchain =>
    have hsnapshot := hinput.snapshots snapshot (by simp [receivedSnapshots])
    obtain ⟨hupdate, hdrop⟩ := hkept snapshot bridge (by simp [hsplit])
    have htail : ∀ u ∈ tail, IsUpdate u := fun u hu =>
      (hkept snapshot u (by simp [hsplit, hu])).1
    refine ⟨by simp, fun _ => ⟨rfl, _, ?_,
      h.chain (h.bridge snapshot bridge hsnapshot hupdate hdrop hbridge) htail hchain⟩⟩
    rw [List.map_cons, ← List.singleton_append, ← List.append_assoc]
    exact bookOf_deltas (bookOf_snapshot actions snapshot) (bridge :: tail)
  | @bridgedGap snapshot skipped applied rest bridge next hsplit =>
    refine ⟨fun u hu => (hkept snapshot u ?_).1, by simp [gapped]⟩
    rw [hsplit]
    exact List.mem_append_right _ (List.mem_cons_of_mem _ (List.mem_append_right _ hu))
  | disconnected => exact ⟨by simp, by simp⟩

/-- **A live symbol has a true book**, whatever calls led there. -/
theorem Tracks.live (h : Tracks policy IsTrue IsUpdate IsSnapshot) {inputs : List SyncInput}
    (hinputs : Delivers IsUpdate IsSnapshot inputs)
    (hlive : ((syncMachine policy).state {} inputs).state = .live) :
    ∃ book, bookOf ((syncMachine policy).output {} inputs) = some book ∧
      IsTrue ((syncMachine policy).state {} inputs).lastFinalId book := by
  suffices hinv : TracksInv IsTrue IsUpdate ((syncMachine policy).state {} inputs)
      ((syncMachine policy).output {} inputs) from (hinv.live hlive).2
  clear hlive
  induction inputs using List.reverseRecOn with
  | nil => exact ⟨by simp, by simp⟩
  | append_singleton inputs input ih =>
    obtain ⟨hupdates, hsnapshots⟩ := hinputs
    simp only [receivedUpdates, receivedSnapshots, List.filterMap_append, List.mem_append]
      at hupdates hsnapshots
    obtain ⟨events, hevents, hstep⟩ := step_syncStep policy
      ((syncMachine policy).state {} inputs) input
    have hinv := ih ⟨fun u hu => hupdates u (.inl hu), fun s hs => hsnapshots s (.inl hs)⟩
    have hlast := hinv.step h ⟨fun u hu => hupdates u (.inr hu),
      fun s hs => hsnapshots s (.inr hs)⟩ hstep
    rw [Machine.state_concat, Machine.output_concat]
    rw [← hevents] at hlast
    exact hlast

end Tracks

/-! ### On the aggregate book -/

/-- Every level of the update is valid. -/
def DepthUpdate.valid (update : DepthUpdate) : Bool :=
  (BookOp.applyBatch update.bids update.asks).valid

/-- Every level of the snapshot is valid. -/
def SnapshotMessage.valid (snapshot : SnapshotMessage) : Bool :=
  (BookOp.applySnapshot snapshot.bids snapshot.asks).valid

/-- Every level of every message received is valid. -/
def LevelsValid (inputs : List SyncInput) : Prop :=
  Delivers (fun update => update.valid) (fun snapshot => snapshot.valid) inputs

/-- The book accepts every call made for a run whose messages have valid levels. -/
theorem bookOps_valid (policy : SequencePolicy) {inputs : List SyncInput}
    (h : LevelsValid inputs) :
    ∀ op ∈ bookOps ((syncMachine policy).output {} inputs), op.valid := by
  obtain ⟨trace, hactions, hinv⟩ := exists_traceInv policy inputs
  rw [← hactions]
  intro op hop
  obtain ⟨action, haction, hop⟩ := List.mem_filterMap.mp hop
  obtain ⟨event, hevent, rfl⟩ := List.mem_map.mp haction
  cases event with
  | requestSnapshot => simp [SyncEvent.action, SyncAction.bookOp] at hop
  | applySnapshot snapshot =>
    obtain rfl := Option.some.inj hop
    refine h.snapshots snapshot (hinv.snapshots_sublist.subset ?_)
    exact List.mem_filterMap.mpr ⟨_, hevent, rfl⟩
  | applyDelta update =>
    obtain rfl := Option.some.inj hop
    refine h.updates update (hinv.deltas_sublist.subset (List.mem_append_left _ ?_))
    exact List.mem_filterMap.mpr ⟨_, hevent, rfl⟩
  | invalidateVenue =>
    obtain rfl := Option.some.inj hop
    rfl

/-- A venue all of whose calls are valid. -/
theorem ownCalls_eq_of_valid {venue : VenueId} {calls : List BookCall}
    (hvalid : ∀ op ∈ (calls.filter fun c => c.venue = venue).map BookCall.op, op.valid) :
    ownCalls venue calls = (calls.filter fun c => c.venue = venue).map BookCall.op := by
  rw [ownCalls]
  congr 1
  refine List.filter_congr fun c hc => ?_
  by_cases hvenue : c.venue = venue
  · have := hvalid c.op (List.mem_map_of_mem (List.mem_filter.mpr ⟨hc, by simpa using hvenue⟩))
    simp [this]
  · simp [hvenue]

/-- A venue whose calls on an aggregate book are those of the actions, in order, other
venues' calls in between or not, ends with the actions' book. -/
theorem venue_entry_of_execute {policy : SequencePolicy} {inputs : List SyncInput}
    (h : LevelsValid inputs) {venue : VenueId} {calls : List BookCall}
    (hcalls : (calls.filter fun c => c.venue = venue).map BookCall.op =
      bookOps ((syncMachine policy).output {} inputs)) :
    (bookMachine.state {} calls).venues venue =
      bookOf ((syncMachine policy).output {} inputs) := by
  have hvalid := bookOps_valid policy h
  rw [← hcalls] at hvalid
  rw [(run_venues calls).2, replay, bookOf, ownCalls_eq_of_valid hvalid, hcalls]

end Hermeneutic
