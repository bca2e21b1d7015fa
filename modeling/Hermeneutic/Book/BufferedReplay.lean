import Hermeneutic.Exchange.SequencePolicies

/-!
# Buffered replay is live processing

Contiguity and gaps are handled in two places. `onSnapshot` walks the buffer from the bridge
on (`replayTail`), and `onDepthUpdate` takes one live update at a time. Both go the same way:
as long as each update continues the last one it is applied; the first that does not, and
everything after it, is what the pair is left buffering. The replay meets the gap inside the
buffer and keeps the suffix from there, while the live machine re-buffers that update and then
appends the rest, one call each (`feed_buffering`).

So the replay of a tail is the live machine fed that tail (`replayTail_eq_feed`), and a
snapshot bridged in a full buffer does what it does in the part up to the bridge, followed by
the rest as live updates.
-/

namespace Hermeneutic

variable {policy : SequencePolicy}

/-- The calls that feed updates one by one. -/
def feed (updates : List DepthUpdate) : List SyncInput := updates.map .depthUpdate

@[simp] theorem feed_nil : feed [] = [] := rfl

@[simp] theorem feed_cons (update : DepthUpdate) (updates : List DepthUpdate) :
    feed (update :: updates) = .depthUpdate update :: feed updates := rfl

/-- While buffering, updates are only appended. -/
theorem feed_buffering {sync : SymbolSync} (hstate : sync.state = .buffering)
    (updates : List DepthUpdate) :
    (syncMachine policy).state sync (feed updates) =
        { sync with buffer := sync.buffer ++ updates } ∧
      (syncMachine policy).output sync (feed updates) = [] := by
  induction updates generalizing sync with
  | nil => simp
  | cons update updates ih =>
    have hstep : (syncMachine policy).step sync (.depthUpdate update) =
        ({ sync with buffer := sync.buffer ++ [update] }, []) := by
      simp [syncMachine, SymbolSync.step, SymbolSync.onDepthUpdate, hstate]
    obtain ⟨hfed, hout⟩ := @ih { sync with buffer := sync.buffer ++ [update] } hstate
    rw [feed_cons, Machine.state_cons, Machine.output_cons, hstep]
    exact ⟨by simpa using hfed, hout⟩

/-- **The two loops agree.** Replaying the updates after the bridge is feeding them to the
machine that has gone live at the bridge. -/
theorem replayTail_eq_feed (sync : SymbolSync) (tail : List DepthUpdate) :
    sync.replayTail policy false tail =
      ((syncMachine policy).state { sync with state := .live, buffer := [] } (feed tail),
        (syncMachine policy).output { sync with state := .live, buffer := [] } (feed tail)) := by
  induction tail generalizing sync with
  | nil => rfl
  | cons it tail ih =>
    rw [feed_cons, Machine.state_cons, Machine.output_cons]
    by_cases hnext : policy.isContiguous it sync.lastFinalId = true
    · -- The update continues the last one: both apply it.
      have hstep : (syncMachine policy).step { sync with state := .live, buffer := [] }
            (.depthUpdate it) =
          ({ sync with state := .live, buffer := [], lastFinalId := it.finalId },
            [.applyDelta it.bids it.asks]) := by
        simp [syncMachine, SymbolSync.step, SymbolSync.onDepthUpdate, hnext]
      have hreplay := ih { sync with lastFinalId := it.finalId }
      rw [hstep]
      simp only [SymbolSync.replayTail, hnext, hreplay]
      rfl
    · -- The gap: the live machine re-buffers this update, and appends the others behind it.
      have hgap : policy.isContiguous it sync.lastFinalId = false := by simpa using hnext
      have hstep : (syncMachine policy).step { sync with state := .live, buffer := [] }
          (.depthUpdate it) = (gapped [it], [.invalidateVenue]) := by
        simp [syncMachine, SymbolSync.step, SymbolSync.onDepthUpdate, hgap, SymbolSync.handleGap,
          gapped]
      obtain ⟨hfed, hout⟩ := @feed_buffering policy (gapped [it]) rfl tail
      rw [hstep, hfed, hout]
      simp [SymbolSync.replayTail, hgap, SymbolSync.handleGap, gapped]

private theorem kept_append (buffer buffer' : List DepthUpdate) (snapshot : SnapshotMessage) :
    kept policy (buffer ++ buffer') snapshot =
      kept policy buffer snapshot ++ kept policy buffer' snapshot :=
  List.filter_append ..

private theorem kept_eq_self {buffer : List DepthUpdate} {snapshot : SnapshotMessage}
    (h : ∀ u ∈ buffer, policy.shouldDropBuffered u snapshot = false) :
    kept policy buffer snapshot = buffer :=
  List.filter_eq_self.mpr fun u hu => by simp [h u hu]

/-- **Buffered replay agrees with live processing.** A snapshot that the buffered update `b` is
the first kept one to bridge leaves the same state, and emits the same actions, whether the
kept updates after `b` are already buffered or are fed to the machine afterwards, and whether
they are contiguous or have gaps. -/
theorem buffered_replay_eq_live (policy : SequencePolicy) (snapshot : SnapshotMessage)
    (sync : SymbolSync) (front tail : List DepthUpdate) (b : DepthUpdate)
    (hbuffer : sync.buffer = front ++ b :: tail)
    (hfirst : ∀ u ∈ kept policy front snapshot, policy.bridgesSnapshot u snapshot = false)
    (hkept : policy.shouldDropBuffered b snapshot = false)
    (hbridge : policy.bridgesSnapshot b snapshot = true)
    (htail : ∀ u ∈ tail, policy.shouldDropBuffered u snapshot = false) :
    (syncMachine policy).state sync [.snapshot snapshot] =
        (syncMachine policy).state { sync with buffer := front ++ [b] }
          (.snapshot snapshot :: feed tail) ∧
      (syncMachine policy).output sync [.snapshot snapshot] =
        (syncMachine policy).output { sync with buffer := front ++ [b] }
          (.snapshot snapshot :: feed tail) := by
  have hb : ∀ u ∈ [b], policy.shouldDropBuffered u snapshot = false := by simpa using hkept
  have hfull : kept policy sync.buffer snapshot = kept policy front snapshot ++ b :: tail := by
    rw [hbuffer, kept_append]
    exact congrArg _ (kept_eq_self (List.forall_mem_cons.mpr ⟨hkept, htail⟩))
  have hpart : kept policy (front ++ [b]) snapshot = kept policy front snapshot ++ b :: [] := by
    rw [kept_append, kept_eq_self hb]
  -- Either way the snapshot bridges at `b`, and what follows is a replay of `tail`.
  have hwhole := onSnapshot_of_bridge hfull hfirst hbridge
  have hfront :=
    @onSnapshot_of_bridge policy { sync with buffer := front ++ [b] } snapshot _ _ _ hpart
    hfirst hbridge
  simp only [replayTail_eq_feed] at hwhole hfront
  simp only [Machine.state_cons, Machine.output_cons, Machine.state_nil, Machine.output_nil]
  simp only [syncMachine, SymbolSync.step] at hwhole hfront ⊢
  rw [hwhole, hfront]
  simp

/-- Update `id` of the pair, which continues update `prev`. -/
def sampleUpdate (prev id : UInt64) : DepthUpdate := ⟨"BTC-USDT", id, id, prev, [(⟨100⟩, ⟨1⟩)], []⟩

/-- A snapshot at 10 against a dropped update, one that does not bridge, the bridge, an update
that continues it, and two behind a gap. -/
theorem buffered_replay_eq_live_sample :
    let snapshot : SnapshotMessage := ⟨"BTC-USDT", [(⟨100⟩, ⟨5⟩)], [], 10⟩
    let front := [sampleUpdate 4 5, sampleUpdate 11 12]
    let tail := [sampleUpdate 13 14, sampleUpdate 15 16, sampleUpdate 16 17]
    ((syncMachine okxSequencePolicy).state { buffer := front ++ sampleUpdate 10 13 :: tail }
          [.snapshot snapshot] =
        (syncMachine okxSequencePolicy).state { buffer := front ++ [sampleUpdate 10 13] }
          (.snapshot snapshot :: feed tail) ∧
      (syncMachine okxSequencePolicy).output { buffer := front ++ sampleUpdate 10 13 :: tail }
          [.snapshot snapshot] =
        (syncMachine okxSequencePolicy).output { buffer := front ++ [sampleUpdate 10 13] }
          (.snapshot snapshot :: feed tail)) ∧
      ((syncMachine okxSequencePolicy).state { buffer := front ++ [sampleUpdate 10 13] }
        (.snapshot snapshot :: feed tail)).buffer = [sampleUpdate 15 16, sampleUpdate 16 17] := by
  refine ⟨buffered_replay_eq_live okxSequencePolicy _
    { buffer := [sampleUpdate 4 5, sampleUpdate 11 12] ++ sampleUpdate 10 13 ::
      [sampleUpdate 13 14, sampleUpdate 15 16, sampleUpdate 16 17] }
    _ _ _ rfl ?_ ?_ ?_ ?_, ?_⟩ <;> decide

end Hermeneutic
