import Hermeneutic.Exchange.History
import Hermeneutic.Exchange.SequencePolicies

/-!
# Resync from a pushed snapshot

Bybit and OKX push a snapshot over the stream itself, the true book at its id. A symbol that
has buffered nothing goes live from it directly; otherwise the buffered tail is replayed.

For Bybit the next id is the last one plus one, which leaves one event. For OKX it is the
event that names the last id as its predecessor; heartbeats name themselves, so several
events can, but between them the book does not change (`NumberedAsOkx.bookAt_eq`).
-/

namespace Hermeneutic

namespace History

variable (h : History)

/-- A pushed snapshot: the true book at its id. -/
def PushedSnapshot (snapshot : SnapshotMessage) : Prop :=
  h.IsTrue snapshot.lastUpdateId snapshot.book

variable {h}

/-- An update one above a true book's id, numbered as Bybit documents, leads to a true
book. -/
private theorem NumberedAsBybit.isTrue_next (hnum : h.NumberedAsBybit) {id : UInt64}
    {book : L2OrderBook} {update : DepthUpdate} (htrue : h.IsTrue id book)
    (hmem : update ∈ h.events) (hnext : update.finalId = id + 1) :
    h.IsTrue update.finalId (update.applyTo book) := by
  obtain ⟨k, hk, rfl, rfl⟩ := htrue
  obtain ⟨j, hget⟩ := List.mem_iff_getElem?.mp hmem
  have hid : h.idAt j = h.idAt k := eq_of_succ (hnum j update hget) hnext
  obtain rfl : j = k := hnum.increasing.idAt_inj (lt_length hget).le hk hid
  exact isTrue_succ hget

/-- Numbered as Bybit documents, the Bybit policy tracks the true book. -/
theorem bybit_tracks (hnum : h.NumberedAsBybit) :
    Tracks bybitSequencePolicy h.IsTrue (· ∈ h.events) h.PushedSnapshot where
  contiguous := by
    intro id book update htrue hmem hnext
    exact hnum.isTrue_next htrue hmem (by simpa [bybitSequencePolicy] using hnext)
  bridge := by
    intro snapshot update hsnapshot hmem _ hbridge
    exact hnum.isTrue_next hsnapshot hmem (by simpa [bybitSequencePolicy] using hbridge)
  goLive := fun _ _ hsnapshot => hsnapshot

/-- Between two positions OKX's ids do not decrease, and where they are equal so are the
books. -/
theorem NumberedAsOkx.bookAt_eq (hnum : h.NumberedAsOkx) {j k : ℕ} (hjk : j ≤ k)
    (hk : k ≤ h.events.length) : (h.idAt j).toNat ≤ (h.idAt k).toNat ∧
      (h.idAt j = h.idAt k → h.bookAt j = h.bookAt k) := by
  induction k with
  | zero =>
    obtain rfl : j = 0 := by omega
    exact ⟨le_rfl, fun _ => rfl⟩
  | succ k ih =>
    rcases Nat.lt_or_eq_of_le hjk with hlt | rfl
    · obtain ⟨hle, hbook⟩ := ih (by omega) (by omega)
      obtain ⟨update, hget⟩ := exists_get (h := h) (k := k) (by omega)
      rw [idAt_succ hget, bookAt_succ hget]
      rcases (hnum k update hget).2 with habove | ⟨hsame, hbids, hasks⟩
      · rw [UInt64.lt_iff_toNat_lt] at habove
        refine ⟨by omega, fun heq => ?_⟩
        rw [heq] at hle
        omega
      · -- A heartbeat: same id, same book.
        have hempty : update.applyTo (h.bookAt k) = h.bookAt k := by
          rw [DepthUpdate.applyTo, hbids, hasks]
          rfl
        rw [hsame, hempty]
        exact ⟨hle, hbook⟩
    · exact ⟨le_rfl, fun _ => rfl⟩

/-- An update that names a true book's id as its predecessor, numbered as OKX documents,
leads to a true book. -/
private theorem NumberedAsOkx.isTrue_next (hnum : h.NumberedAsOkx) {id : UInt64}
    {book : L2OrderBook} {update : DepthUpdate} (htrue : h.IsTrue id book)
    (hmem : update ∈ h.events) (hnext : update.prevFinalId = id) :
    h.IsTrue update.finalId (update.applyTo book) := by
  obtain ⟨k, hk, rfl, rfl⟩ := htrue
  obtain ⟨j, hget⟩ := List.mem_iff_getElem?.mp hmem
  have hid : h.idAt j = h.idAt k := (hnum j update hget).1.symm.trans hnext
  have hj : j ≤ h.events.length := (lt_length hget).le
  have hbook : h.bookAt j = h.bookAt k := by
    rcases Nat.le_total j k with hjk | hkj
    · exact (hnum.bookAt_eq hjk hk).2 hid
    · exact ((hnum.bookAt_eq hkj hj).2 hid.symm).symm
  rw [← hbook]
  exact isTrue_succ hget

/-- Numbered as OKX documents, the OKX policy tracks the true book. -/
theorem okx_tracks (hnum : h.NumberedAsOkx) :
    Tracks okxSequencePolicy h.IsTrue (· ∈ h.events) h.PushedSnapshot where
  contiguous := by
    intro id book update htrue hmem hnext
    exact hnum.isTrue_next htrue hmem (by simpa [okxSequencePolicy] using hnext)
  bridge := by
    intro snapshot update hsnapshot hmem _ hbridge
    exact hnum.isTrue_next hsnapshot hmem (by simpa [okxSequencePolicy] using hbridge)
  goLive := fun _ _ hsnapshot => hsnapshot

/-- **Resync soundness of the pushed-snapshot venues.** Whatever part of the history and of
the snapshots is delivered, with connects and disconnects at any point in between, a live
symbol shows the exchange's true book at its last id, under either policy. -/
theorem pushed_resync_sound (h : History) (inputs : List SyncInput)
    (hinputs : Delivers (· ∈ h.events) h.PushedSnapshot inputs) :
    (h.NumberedAsBybit → h.LiveBookIsTrue bybitSequencePolicy inputs) ∧
      (h.NumberedAsOkx → h.LiveBookIsTrue okxSequencePolicy inputs) :=
  ⟨fun hnum => liveBookIsTrue_of_tracks (bybit_tracks hnum) hinputs,
    fun hnum => liveBookIsTrue_of_tracks (okx_tracks hnum) hinputs⟩

/-- Two events on one bid, numbered as Bybit and as OKX does. -/
def pushedHistory : History where
  initialId := 1
  initialBook := ⟨∅, firstsOf [(⟨100⟩, ⟨5⟩)]⟩
  events := [⟨"BTCUSDT", 2, 2, 1, [(⟨100⟩, ⟨7⟩)], []⟩, ⟨"BTCUSDT", 3, 3, 2, [(⟨100⟩, ⟨8⟩)], []⟩]

/-- Both events are buffered before the snapshot, and replayed behind it. -/
def pushedLate : List SyncInput :=
  .connected :: (pushedHistory.events.map .depthUpdate ++
    [.snapshot ⟨"BTCUSDT", [(⟨100⟩, ⟨5⟩)], [], 1⟩])

theorem pushed_resync_sound_sample :
    (((syncMachine bybitSequencePolicy).state {} pushedLate).state = .live ∧
      ((syncMachine bybitSequencePolicy).state {} pushedLate).lastFinalId = 3 ∧
      pushedHistory.LiveBookIsTrue bybitSequencePolicy pushedLate) ∧
    ((syncMachine okxSequencePolicy).state {} pushedLate).state = .live ∧
      ((syncMachine okxSequencePolicy).state {} pushedLate).lastFinalId = 3 ∧
      pushedHistory.LiveBookIsTrue okxSequencePolicy pushedLate := by
  have hinputs : Delivers (· ∈ pushedHistory.events) pushedHistory.PushedSnapshot
      pushedLate := by
    refine ⟨fun u hu => hu, fun snapshot hs => ?_⟩
    obtain rfl : snapshot = ⟨"BTCUSDT", [(⟨100⟩, ⟨5⟩)], [], 1⟩ := List.mem_singleton.mp hs
    exact ⟨0, by decide, rfl, rfl⟩
  obtain ⟨hbybit, hokx⟩ := pushed_resync_sound pushedHistory pushedLate hinputs
  exact ⟨⟨by decide, by decide, hbybit (forall_events (by decide))⟩, by decide, by decide,
    hokx (forall_events (by decide))⟩

end History

end Hermeneutic
