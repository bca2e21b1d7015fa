import Mathlib.Data.List.TakeWhile
import Hermeneutic.Book.L2OrderBook
import Hermeneutic.ForMathlib.Machine
import Hermeneutic.Symbol.Symbol

/-!
# Resynchronisation of one symbol

`SymbolSync` (`book/symbol_sync.hpp`) is the sans-io state machine of one (venue, symbol)
pair. It buffers depth updates until a snapshot can be bridged into them without a gap, then
checks that every update continues the last one, and starts over on a gap or a disconnect.
The only venue-specific part is its `SequencePolicy`.

The first half is the code. The second presents the same machine as a relation, `SyncStep`,
with one constructor for each way a call can go: what it requires, the state it leaves and
the actions it emits, each labelled with the message it came from. `step_syncStep` connects
the two; everything proved about the machine later is a case analysis of `SyncStep`.

A relation with labels is what the invariants need: the actions of a call do not say which update
was replayed and which was dropped, the labels do. `onSnapshot_bridged` is the one case that
loops, the replay of a contiguous tail.
-/

namespace Hermeneutic

/-- One parsed depth-diff message: a batch of level changes under one sequencing envelope. -/
structure DepthUpdate where
  symbol : NativeSymbol
  firstId : UInt64
  finalId : UInt64
  prevFinalId : UInt64
  bids : List Level
  asks : List Level
  deriving DecidableEq

/-- One parsed order-book snapshot. -/
structure SnapshotMessage where
  symbol : NativeSymbol
  bids : List Level
  asks : List Level
  lastUpdateId : UInt64
  deriving DecidableEq

/-- What `SymbolSync` asks its driver to carry out. -/
inductive SyncAction
  | requestSnapshot
  | applySnapshot (bids asks : List Level)
  | applyDelta (bids asks : List Level)
  | invalidateVenue
  deriving DecidableEq

/-- The venue-specific part: three predicates, and whether the venue pushes its snapshot
ahead of every update on one ordered connection. -/
structure SequencePolicy where
  shouldDropBuffered : DepthUpdate → SnapshotMessage → Bool
  bridgesSnapshot : DepthUpdate → SnapshotMessage → Bool
  isContiguous : DepthUpdate → UInt64 → Bool
  trustsConnectionOrder : Bool

/-- `SymbolSync::State`. -/
inductive SyncState
  | buffering
  | live
  deriving DecidableEq

/-- The state of one pair. -/
@[ext]
structure SymbolSync where
  state : SyncState := .buffering
  buffer : List DepthUpdate := []
  lastFinalId : UInt64 := 0
  snapshotRequested : Bool := false
  deriving DecidableEq

/-- The calls a driver makes. -/
inductive SyncInput
  | connected
  | depthUpdate (update : DepthUpdate)
  | snapshot (snapshot : SnapshotMessage)
  | disconnected

namespace SymbolSync

/-- Called once after a (re)connect and resubscribe. -/
def onConnected (sync : SymbolSync) : SymbolSync × List SyncAction :=
  if sync.state = .buffering ∧ !sync.snapshotRequested then
    ({ sync with snapshotRequested := true }, [.requestSnapshot])
  else (sync, [])

/-- Back to buffering, with only the unresolved suffix of the buffer kept. -/
def handleGap (unresolved : List DepthUpdate) : SymbolSync × List SyncAction :=
  ({ state := .buffering, buffer := unresolved, lastFinalId := 0, snapshotRequested := false },
    [.invalidateVenue])

/-- Back to the initial state. -/
def reset : SymbolSync :=
  { state := .buffering, buffer := [], lastFinalId := 0, snapshotRequested := false }

/-- Called when the connection drops. -/
def onDisconnected (_sync : SymbolSync) : SymbolSync × List SyncAction :=
  (reset, [.invalidateVenue])

variable (policy : SequencePolicy)

def onDepthUpdate (sync : SymbolSync) (update : DepthUpdate) : SymbolSync × List SyncAction :=
  if sync.state = .buffering then ({ sync with buffer := sync.buffer ++ [update] }, [])
  else if !policy.isContiguous update sync.lastFinalId then handleGap (sync.buffer ++ [update])
  else ({ sync with lastFinalId := update.finalId }, [.applyDelta update.bids update.asks])

/-- The loop over the buffered updates from the bridge on. All but the bridge itself, which
comes first, must continue the update before. -/
def replayTail (sync : SymbolSync) (isBridge : Bool) :
    List DepthUpdate → SymbolSync × List SyncAction
  | [] => ({ sync with buffer := [], state := .live }, [])
  | it :: rest =>
    if !isBridge && !policy.isContiguous it sync.lastFinalId then handleGap (it :: rest)
    else
      let (sync, actions) := replayTail { sync with lastFinalId := it.finalId } false rest
      (sync, .applyDelta it.bids it.asks :: actions)

def onSnapshot (sync : SymbolSync) (snapshot : SnapshotMessage) :
    SymbolSync × List SyncAction :=
  let nothingWasEverBuffered := sync.buffer.isEmpty
  let buffer := sync.buffer.filter fun event => !policy.shouldDropBuffered event snapshot
  match buffer.dropWhile fun event => !policy.bridgesSnapshot event snapshot with
  | [] =>
    if policy.trustsConnectionOrder then
      if nothingWasEverBuffered then
        ({ sync with buffer, lastFinalId := snapshot.lastUpdateId, state := .live },
          [.applySnapshot snapshot.bids snapshot.asks])
      else handleGap buffer
    else ({ sync with buffer }, [.requestSnapshot])
  | bridge :: tail =>
    let (sync, actions) := replayTail policy { sync with buffer } true (bridge :: tail)
    (sync, .applySnapshot snapshot.bids snapshot.asks :: actions)

/-- Dispatches a call. -/
def step (sync : SymbolSync) : SyncInput → SymbolSync × List SyncAction
  | .connected => sync.onConnected
  | .depthUpdate update => sync.onDepthUpdate policy update
  | .snapshot snapshot => sync.onSnapshot policy snapshot
  | .disconnected => sync.onDisconnected

end SymbolSync

/-- The machine of a policy. -/
def syncMachine (policy : SequencePolicy) : Machine SymbolSync SyncInput SyncAction where
  step := SymbolSync.step policy

/-! ### The machine as a relation -/

/-- An action together with the message it came from. -/
inductive SyncEvent
  | requestSnapshot
  | applySnapshot (snapshot : SnapshotMessage)
  | applyDelta (update : DepthUpdate)
  | invalidateVenue

/-- The action an event labels. -/
def SyncEvent.action : SyncEvent → SyncAction
  | requestSnapshot => .requestSnapshot
  | applySnapshot snapshot => .applySnapshot snapshot.bids snapshot.asks
  | applyDelta update => .applyDelta update.bids update.asks
  | invalidateVenue => .invalidateVenue

section Relation

variable (policy : SequencePolicy)

/-- Each update continues the one before, the first one `id`. -/
def Chained : UInt64 → List DepthUpdate → Prop
  | _, [] => True
  | id, update :: rest => policy.isContiguous update id ∧ Chained update.finalId rest

/-- The id reached after applying updates from `id`. -/
def lastId (id : UInt64) (updates : List DepthUpdate) : UInt64 :=
  updates.foldl (fun _ update => update.finalId) id

@[simp] theorem lastId_nil (id : UInt64) : lastId id [] = id := rfl

@[simp] theorem lastId_cons (id : UInt64) (update : DepthUpdate) (updates : List DepthUpdate) :
    lastId id (update :: updates) = lastId update.finalId updates := rfl

/-- What survives the drop filter for a snapshot. -/
def kept (buffer : List DepthUpdate) (snapshot : SnapshotMessage) : List DepthUpdate :=
  buffer.filter fun event => !policy.shouldDropBuffered event snapshot

/-- Back in buffering, with the given updates unresolved. -/
def gapped (unresolved : List DepthUpdate) : SymbolSync := { buffer := unresolved }

/-- One call: the state before, the call, the state after, the labelled actions. -/
inductive SyncStep : SymbolSync → SyncInput → SymbolSync → List SyncEvent → Prop
  | request {sync : SymbolSync} (hstate : sync.state = .buffering)
      (hrequested : sync.snapshotRequested = false) :
      SyncStep sync .connected { sync with snapshotRequested := true } [.requestSnapshot]
  | noRequest {sync : SymbolSync} (h : sync.state = .live ∨ sync.snapshotRequested = true) :
      SyncStep sync .connected sync []
  | buffered {sync : SymbolSync} {update : DepthUpdate} (hstate : sync.state = .buffering) :
      SyncStep sync (.depthUpdate update) { sync with buffer := sync.buffer ++ [update] } []
  | delta {sync : SymbolSync} {update : DepthUpdate} (hstate : sync.state = .live)
      (hnext : policy.isContiguous update sync.lastFinalId) :
      SyncStep sync (.depthUpdate update) { sync with lastFinalId := update.finalId }
        [.applyDelta update]
  | deltaGap {sync : SymbolSync} {update : DepthUpdate} (hstate : sync.state = .live)
      (hnext : policy.isContiguous update sync.lastFinalId = false) :
      SyncStep sync (.depthUpdate update) (gapped (sync.buffer ++ [update])) [.invalidateVenue]
  | goLive {sync : SymbolSync} {snapshot : SnapshotMessage}
      (htrusts : policy.trustsConnectionOrder = true) (hbuffer : sync.buffer = []) :
      SyncStep sync (.snapshot snapshot)
        { sync with lastFinalId := snapshot.lastUpdateId, state := .live }
        [.applySnapshot snapshot]
  | noBridgeGap {sync : SymbolSync} {snapshot : SnapshotMessage}
      (htrusts : policy.trustsConnectionOrder = true) (hbuffer : sync.buffer ≠ [])
      (hnone : ∀ u ∈ kept policy sync.buffer snapshot, policy.bridgesSnapshot u snapshot = false) :
      SyncStep sync (.snapshot snapshot) (gapped (kept policy sync.buffer snapshot))
        [.invalidateVenue]
  | retry {sync : SymbolSync} {snapshot : SnapshotMessage}
      (htrusts : policy.trustsConnectionOrder = false)
      (hnone : ∀ u ∈ kept policy sync.buffer snapshot, policy.bridgesSnapshot u snapshot = false) :
      SyncStep sync (.snapshot snapshot)
        { sync with buffer := kept policy sync.buffer snapshot } [.requestSnapshot]
  | bridged {sync : SymbolSync} {snapshot : SnapshotMessage} {skipped tail : List DepthUpdate}
      {bridge : DepthUpdate}
      (hkept : kept policy sync.buffer snapshot = skipped ++ bridge :: tail)
      (hskipped : ∀ u ∈ skipped, policy.bridgesSnapshot u snapshot = false)
      (hbridge : policy.bridgesSnapshot bridge snapshot)
      (hchain : Chained policy bridge.finalId tail) :
      SyncStep sync (.snapshot snapshot)
        { sync with state := .live, buffer := [], lastFinalId := lastId bridge.finalId tail }
        (.applySnapshot snapshot :: (bridge :: tail).map .applyDelta)
  | bridgedGap {sync : SymbolSync} {snapshot : SnapshotMessage}
      {skipped applied rest : List DepthUpdate} {bridge next : DepthUpdate}
      (hkept : kept policy sync.buffer snapshot =
        skipped ++ bridge :: (applied ++ next :: rest))
      (hskipped : ∀ u ∈ skipped, policy.bridgesSnapshot u snapshot = false)
      (hbridge : policy.bridgesSnapshot bridge snapshot)
      (hchain : Chained policy bridge.finalId applied)
      (hnext : policy.isContiguous next (lastId bridge.finalId applied) = false) :
      SyncStep sync (.snapshot snapshot) (gapped (next :: rest))
        (.applySnapshot snapshot ::
          ((bridge :: applied).map .applyDelta ++ [.invalidateVenue]))
  | disconnected {sync : SymbolSync} : SyncStep sync .disconnected {} [.invalidateVenue]

variable {policy}

/-- The replay after the bridge runs to the end of a contiguous tail, or to its first gap. -/
private theorem replayTail_cases (policy : SequencePolicy) (sync : SymbolSync)
    (tail : List DepthUpdate) :
    (Chained policy sync.lastFinalId tail ∧ sync.replayTail policy false tail =
        ({ sync with state := .live, buffer := [], lastFinalId := lastId sync.lastFinalId tail },
          (tail.map SyncEvent.applyDelta).map SyncEvent.action)) ∨
      ∃ applied next rest, tail = applied ++ next :: rest ∧
        Chained policy sync.lastFinalId applied ∧
        policy.isContiguous next (lastId sync.lastFinalId applied) = false ∧
        sync.replayTail policy false tail = (gapped (next :: rest),
          (applied.map SyncEvent.applyDelta ++ [SyncEvent.invalidateVenue]).map
            SyncEvent.action) := by
  induction tail generalizing sync with
  | nil => exact .inl ⟨trivial, rfl⟩
  | cons it tail ih =>
    by_cases hnext : policy.isContiguous it sync.lastFinalId = true
    · have hstep : sync.replayTail policy false (it :: tail) =
          ((SymbolSync.replayTail policy { sync with lastFinalId := it.finalId } false tail).1,
            .applyDelta it.bids it.asks ::
              (SymbolSync.replayTail policy { sync with lastFinalId := it.finalId } false
                tail).2) := by
        simp [SymbolSync.replayTail, hnext]
      rcases ih { sync with lastFinalId := it.finalId } with
        ⟨hchain, hrest⟩ | ⟨applied, next, rest, rfl, hchain, hgap, hrest⟩
      · refine .inl ⟨⟨hnext, hchain⟩, ?_⟩
        rw [hstep, hrest]
        rfl
      · refine .inr ⟨it :: applied, next, rest, rfl, ⟨hnext, hchain⟩, hgap, ?_⟩
        rw [hstep, hrest]
        rfl
    · have hgap : policy.isContiguous it sync.lastFinalId = false := by simpa using hnext
      refine .inr ⟨[], it, tail, rfl, trivial, hgap, ?_⟩
      simp [SymbolSync.replayTail, hgap, SymbolSync.handleGap, gapped, SyncEvent.action]

/-- The update after a contiguous prefix is contiguous with it. -/
theorem Chained.next {id : UInt64} {applied rest : List DepthUpdate} {next : DepthUpdate}
    (h : Chained policy id (applied ++ next :: rest)) :
    policy.isContiguous next (lastId id applied) := by
  induction applied generalizing id with
  | nil => exact h.1
  | cons update applied ih => exact ih h.2

private theorem dropWhile_split {p : DepthUpdate → Bool} (l : List DepthUpdate) :
    ∃ skipped, l = skipped ++ l.dropWhile (fun u => !p u) ∧ ∀ u ∈ skipped, p u = false := by
  refine ⟨l.takeWhile fun u => !p u, (List.takeWhile_append_dropWhile ..).symm, fun u hu => ?_⟩
  simpa using List.mem_takeWhile_imp hu

/-- A snapshot that some kept update bridges: it is applied, then the bridge, and then the
updates after it are replayed. -/
theorem onSnapshot_of_bridge {sync : SymbolSync} {snapshot : SnapshotMessage}
    {skipped tail : List DepthUpdate} {bridge : DepthUpdate}
    (hkept : kept policy sync.buffer snapshot = skipped ++ bridge :: tail)
    (hskipped : ∀ u ∈ skipped, policy.bridgesSnapshot u snapshot = false)
    (hbridge : policy.bridgesSnapshot bridge snapshot) :
    sync.onSnapshot policy snapshot =
      let replayed := SymbolSync.replayTail policy
        { sync with buffer := kept policy sync.buffer snapshot, lastFinalId := bridge.finalId }
        false tail
      (replayed.1, .applySnapshot snapshot.bids snapshot.asks ::
        .applyDelta bridge.bids bridge.asks :: replayed.2) := by
  have hdrop : (kept policy sync.buffer snapshot).dropWhile
      (fun event => !policy.bridgesSnapshot event snapshot) = bridge :: tail := by
    rw [hkept, List.dropWhile_append_of_pos (fun u hu => by simp [hskipped u hu]),
      List.dropWhile_cons_of_neg (by simp [hbridge])]
  rw [kept] at hdrop
  simp [SymbolSync.onSnapshot, hdrop, SymbolSync.replayTail, kept]

private theorem onSnapshot_syncStep (sync : SymbolSync) (snapshot : SnapshotMessage) :
    ∃ events, (sync.onSnapshot policy snapshot).2 = events.map SyncEvent.action ∧
      SyncStep policy sync (.snapshot snapshot) (sync.onSnapshot policy snapshot).1 events := by
  obtain ⟨skipped, hsplit, hskipped⟩ := dropWhile_split
    (p := fun u => policy.bridgesSnapshot u snapshot) (kept policy sync.buffer snapshot)
  cases hdrop : (kept policy sync.buffer snapshot).dropWhile
      (fun event => !policy.bridgesSnapshot event snapshot) with
  | nil =>
    rw [hdrop, List.append_nil] at hsplit
    rw [← hsplit] at hskipped
    rw [kept] at hdrop
    by_cases htrusts : policy.trustsConnectionOrder = true
    · by_cases hbuffer : sync.buffer = []
      · have heq : sync.onSnapshot policy snapshot =
            ({ sync with lastFinalId := snapshot.lastUpdateId, state := .live },
              [.applySnapshot snapshot.bids snapshot.asks]) := by
          simp [SymbolSync.onSnapshot, hbuffer, htrusts]
        rw [heq]
        exact ⟨[.applySnapshot snapshot], rfl, .goLive htrusts hbuffer⟩
      · have heq : sync.onSnapshot policy snapshot =
            (gapped (kept policy sync.buffer snapshot), [.invalidateVenue]) := by
          simp [SymbolSync.onSnapshot, hdrop, htrusts, hbuffer, SymbolSync.handleGap, gapped, kept]
        rw [heq]
        exact ⟨[.invalidateVenue], rfl, .noBridgeGap htrusts hbuffer hskipped⟩
    · have hfalse : policy.trustsConnectionOrder = false := by simpa using htrusts
      have heq : sync.onSnapshot policy snapshot =
          ({ sync with buffer := kept policy sync.buffer snapshot }, [.requestSnapshot]) := by
        simp [SymbolSync.onSnapshot, hdrop, hfalse, kept]
      rw [heq]
      exact ⟨[.requestSnapshot], rfl, .retry hfalse hskipped⟩
  | cons bridge tail =>
    have hbridge : policy.bridgesSnapshot bridge snapshot := by
      have := List.head_dropWhile_not (fun event => !policy.bridgesSnapshot event snapshot)
        (by rw [hdrop]; exact List.cons_ne_nil bridge tail)
      simpa [hdrop] using this
    rw [hdrop] at hsplit
    rw [onSnapshot_of_bridge hsplit hskipped hbridge]
    rcases replayTail_cases policy
      { sync with buffer := kept policy sync.buffer snapshot, lastFinalId := bridge.finalId } tail
      with ⟨hchain, hreplay⟩ | ⟨applied, next, rest, rfl, hchain, hgap, hreplay⟩
    · simp only [hreplay]
      exact ⟨_, rfl, .bridged hsplit hskipped hbridge hchain⟩
    · simp only [hreplay]
      exact ⟨_, rfl, .bridgedGap hsplit hskipped hbridge hchain hgap⟩

/-- What a snapshot does when the buffer bridges it with a contiguous tail. -/
theorem onSnapshot_bridged {sync : SymbolSync} {snapshot : SnapshotMessage}
    {skipped tail : List DepthUpdate} {bridge : DepthUpdate}
    (hkept : kept policy sync.buffer snapshot = skipped ++ bridge :: tail)
    (hskipped : ∀ u ∈ skipped, policy.bridgesSnapshot u snapshot = false)
    (hbridge : policy.bridgesSnapshot bridge snapshot)
    (hchain : Chained policy bridge.finalId tail) :
    sync.onSnapshot policy snapshot =
      ({ sync with state := .live, buffer := [], lastFinalId := lastId bridge.finalId tail },
        (SyncEvent.applySnapshot snapshot :: (bridge :: tail).map .applyDelta).map
          SyncEvent.action) := by
  rw [onSnapshot_of_bridge hkept hskipped hbridge]
  rcases replayTail_cases policy
    { sync with buffer := kept policy sync.buffer snapshot, lastFinalId := bridge.finalId } tail
    with ⟨-, hreplay⟩ | ⟨applied, next, rest, rfl, -, hgap, -⟩
  · simp only [hreplay]
    rfl
  · exact absurd hchain.next (by simp [hgap])

/-- **The code takes the relation's steps.** -/
theorem step_syncStep (policy : SequencePolicy) (sync : SymbolSync) (input : SyncInput) :
    ∃ events, (sync.step policy input).2 = events.map SyncEvent.action ∧
      SyncStep policy sync input (sync.step policy input).1 events := by
  cases input with
  | connected =>
    by_cases h : sync.state = .buffering ∧ sync.snapshotRequested = false
    · have heq : sync.onConnected =
          ({ sync with snapshotRequested := true }, [.requestSnapshot]) := by
        simp [SymbolSync.onConnected, h]
      rw [SymbolSync.step, heq]
      exact ⟨[.requestSnapshot], rfl, .request h.1 h.2⟩
    · have heq : sync.onConnected = (sync, []) := by
        simpa [SymbolSync.onConnected] using h
      rw [SymbolSync.step, heq]
      refine ⟨[], rfl, .noRequest ?_⟩
      cases hstate : sync.state with
      | live => exact .inl rfl
      | buffering => exact .inr (by simpa [hstate] using h)
  | depthUpdate update =>
    cases hstate : sync.state with
    | buffering =>
      have heq : sync.onDepthUpdate policy update =
          ({ sync with buffer := sync.buffer ++ [update] }, []) := by
        simp [SymbolSync.onDepthUpdate, hstate]
      rw [SymbolSync.step, heq]
      exact ⟨[], rfl, .buffered hstate⟩
    | live =>
      by_cases hnext : policy.isContiguous update sync.lastFinalId = true
      · have heq : sync.onDepthUpdate policy update =
            ({ sync with lastFinalId := update.finalId },
              [.applyDelta update.bids update.asks]) := by
          simp [SymbolSync.onDepthUpdate, hstate, hnext]
        rw [SymbolSync.step, heq]
        exact ⟨[.applyDelta update], rfl, .delta hstate hnext⟩
      · have hgap : policy.isContiguous update sync.lastFinalId = false := by simpa using hnext
        have heq : sync.onDepthUpdate policy update =
            (gapped (sync.buffer ++ [update]), [.invalidateVenue]) := by
          simp [SymbolSync.onDepthUpdate, hstate, hgap, SymbolSync.handleGap, gapped]
        rw [SymbolSync.step, heq]
        exact ⟨[.invalidateVenue], rfl, .deltaGap hstate hgap⟩
  | snapshot snapshot => exact onSnapshot_syncStep sync snapshot
  | disconnected => exact ⟨[.invalidateVenue], rfl, .disconnected⟩

end Relation

end Hermeneutic
