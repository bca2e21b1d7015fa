import Hermeneutic.Exchange.History
import Hermeneutic.Exchange.SequencePolicies

/-!
# Resync against a REST snapshot

The Binance venues answer a REST request with a snapshot that races the stream. Its id `L`
may fall between two events or inside the range of one, in which case the levels that event
names may be at their old value, their new value or anything else: the event overwrites them
(`RestSnapshot`).

The drop and bridge inequalities, which differ by one between the two policies, leave one
event that can bridge: the one whose range holds `L` (Futures) or `L + 1` (Spot). Replaying
that event on the snapshot gives the true book after it (`futures_tracks`, `spot_tracks`),
whatever was lost before.

Both policies are one argument about positions. Ids increase, so the event that spans an id is
unique; the drop filter removes what lies before it, and the bridge test accepts nothing else.
`RestSnapshot` allows the levels that this event names to be anything at all, so it does not
matter at which moment inside the event the exchange took the snapshot.
-/

namespace Hermeneutic

namespace History

variable (h : History)

/-- A REST snapshot: the true book at the id of event `k`, or, with an id inside the next
event's range, a book that differs from it at most at the prices that event names. -/
def RestSnapshot (snapshot : SnapshotMessage) : Prop :=
  ∃ k ≤ h.events.length,
    (snapshot.lastUpdateId = h.idAt k ∧ snapshot.book = h.bookAt k) ∨
      ∃ update, h.events[k]? = some update ∧ h.idAt k < snapshot.lastUpdateId ∧
        snapshot.lastUpdateId < update.finalId ∧ SameOff update snapshot.book (h.bookAt k)

variable {h}

/-- A REST snapshot lies at or after event `k` and before the next event's id. -/
private theorem RestSnapshot.bounds {snapshot : SnapshotMessage}
    (hsnapshot : h.RestSnapshot snapshot) :
    ∃ k ≤ h.events.length, (h.idAt k).toNat ≤ snapshot.lastUpdateId.toNat ∧
      (snapshot.lastUpdateId = h.idAt k → snapshot.book = h.bookAt k) ∧
      ((h.idAt k).toNat < snapshot.lastUpdateId.toNat → k + 1 ≤ h.events.length ∧
        snapshot.lastUpdateId.toNat < (h.idAt (k + 1)).toNat) ∧
      ∀ update, h.events[k]? = some update → SameOff update snapshot.book (h.bookAt k) := by
  obtain ⟨k, hk, ⟨hid, hbook⟩ | ⟨update, hget, hlow, hhigh, hsame⟩⟩ := hsnapshot
  · refine ⟨k, hk, by rw [hid], fun _ => hbook, fun hlt => ?_, fun update _ => ?_⟩
    · rw [hid] at hlt
      omega
    · rw [hbook]
      exact ⟨fun _ _ => rfl, fun _ _ => rfl⟩
  · rw [UInt64.lt_iff_toNat_lt] at hlow hhigh
    refine ⟨k, hk, hlow.le, fun heq => ?_, fun _ => ?_, fun update' hget' => ?_⟩
    · rw [heq] at hlow
      omega
    · rw [idAt_succ hget]
      exact ⟨lt_length hget, hhigh⟩
    · rw [hget] at hget'
      obtain rfl := Option.some.inj hget'
      exact hsame

/-- Numbered as Binance Futures documents, the Futures policy tracks the true book. -/
theorem futures_tracks (hnum : h.NumberedAsFutures) :
    Tracks binanceFuturesSequencePolicy h.IsTrue (· ∈ h.events) h.RestSnapshot where
  contiguous := by
    rintro id book update ⟨k, hk, rfl, rfl⟩ hmem hnext
    obtain ⟨j, hget⟩ := List.mem_iff_getElem?.mp hmem
    have hprev : update.prevFinalId = h.idAt k := by
      simpa [binanceFuturesSequencePolicy] using hnext
    obtain rfl : j = k := hnum.increasing.idAt_inj (lt_length hget).le hk
      ((hnum j update hget).2.2.symm.trans hprev)
    exact isTrue_succ hget
  bridge := by
    intro snapshot update hsnapshot hmem _ hbridge
    obtain ⟨j, hget⟩ := List.mem_iff_getElem?.mp hmem
    obtain ⟨hfirst, -, -⟩ := hnum j update hget
    obtain ⟨k, hk, hlow, hexact, hhigh, hsame⟩ := hsnapshot.bounds
    have hj : j + 1 ≤ h.events.length := lt_length hget
    have hinc := hnum.increasing
    simp only [binanceFuturesSequencePolicy, Bool.and_eq_true, decide_eq_true_eq, ge_iff_le,
      UInt64.le_iff_toNat_le] at hbridge
    rw [UInt64.lt_iff_toNat_lt] at hfirst
    rw [← idAt_succ hget] at hbridge
    rcases Nat.lt_or_eq_of_le hlow with hinside | hat
    · -- Inside a range: the bridge is the event whose range it is.
      obtain ⟨hkn, hhigh⟩ := hhigh hinside
      have hjk : j < k + 1 := (hinc.idAt_lt_iff (by omega) hkn).mp (by omega)
      have hkj : k < j + 1 := (hinc.idAt_lt_iff hk hj).mp (by omega)
      obtain rfl : j = k := by omega
      rw [(hsame update hget).applyTo_eq]
      exact isTrue_succ hget
    · -- At an event's id: the bridge is that event, applied once more.
      have hjk : j < k := (hinc.idAt_lt_iff (by omega) hk).mp (by omega)
      have hkj : ¬ j + 1 < k := fun hlt => by
        have := hinc.idAt_lt hlt hk
        omega
      obtain rfl : k = j + 1 := by omega
      have hbook := hexact (UInt64.toNat_inj.mp hat.symm)
      rw [hbook, bookAt_succ hget, applyTo_applyTo]
      exact isTrue_succ hget
  goLive := by simp [binanceFuturesSequencePolicy]

/-- Numbered as Binance Spot documents, the Spot policy tracks the true book. -/
theorem spot_tracks (hnum : h.NumberedAsSpot) :
    Tracks binanceSpotSequencePolicy h.IsTrue (· ∈ h.events) h.RestSnapshot where
  contiguous := by
    rintro id book update ⟨k, hk, rfl, rfl⟩ hmem hnext
    obtain ⟨j, hget⟩ := List.mem_iff_getElem?.mp hmem
    obtain ⟨hfirst, -⟩ := hnum j update hget
    have hnext' : update.firstId = h.idAt k + 1 := by
      simpa [binanceSpotSequencePolicy] using hnext
    have hid : h.idAt j = h.idAt k := eq_of_succ hfirst hnext'
    obtain rfl : j = k := hnum.increasing.idAt_inj (lt_length hget).le hk hid
    exact isTrue_succ hget
  bridge := by
    intro snapshot update hsnapshot hmem hdrop hbridge
    obtain ⟨j, hget⟩ := List.mem_iff_getElem?.mp hmem
    obtain ⟨hfirst, -⟩ := hnum j update hget
    obtain ⟨k, hk, hlow, hexact, hhigh, hsame⟩ := hsnapshot.bounds
    have hj : j + 1 ≤ h.events.length := lt_length hget
    have hinc := hnum.increasing
    simp only [binanceSpotSequencePolicy, decide_eq_false_iff_not, UInt64.le_iff_toNat_le,
      not_le] at hdrop
    simp only [binanceSpotSequencePolicy, Bool.and_eq_true, decide_eq_true_eq, ge_iff_le,
      UInt64.le_iff_toNat_le, toNat_add_one] at hbridge
    -- The event reaches past the snapshot, so the snapshot's id plus one does not wrap.
    have hlast := update.finalId.toNat_lt
    rw [hfirst] at hbridge
    rw [← idAt_succ hget] at hbridge hdrop hlast
    have hkj : k < j + 1 := (hinc.idAt_lt_iff hk hj).mp (by omega)
    have hjk : j ≤ k := by
      by_contra hlt
      have hkn : k + 1 ≤ h.events.length := by omega
      have hmono : (h.idAt (k + 1)).toNat ≤ (h.idAt j).toNat := by
        rcases Nat.lt_or_eq_of_le (Nat.lt_of_not_le hlt) with hlt | heq
        · exact (hinc.idAt_lt hlt (by omega)).le
        · exact heq ▸ le_rfl
      have hnext := hinc.idAt_lt (Nat.lt_add_one k) hkn
      rcases Nat.lt_or_eq_of_le hlow with hinside | hat
      · have := (hhigh hinside).2
        omega
      · omega
    obtain rfl : j = k := by omega
    rw [(hsame update hget).applyTo_eq]
    exact isTrue_succ hget
  goLive := by simp [binanceSpotSequencePolicy]

/-- **Resync soundness of the REST venues.** Whatever part of the history is delivered, with
REST snapshots of any age and connects and disconnects at any point in between, a live symbol
shows the exchange's true book at its last id, under either policy. -/
theorem rest_resync_sound (h : History) (inputs : List SyncInput)
    (hinputs : Delivers (· ∈ h.events) h.RestSnapshot inputs) :
    (h.NumberedAsFutures → h.LiveBookIsTrue binanceFuturesSequencePolicy inputs) ∧
      (h.NumberedAsSpot → h.LiveBookIsTrue binanceSpotSequencePolicy inputs) :=
  ⟨fun hnum => liveBookIsTrue_of_tracks (futures_tracks hnum) hinputs,
    fun hnum => liveBookIsTrue_of_tracks (spot_tracks hnum) hinputs⟩

/-- Two events on one bid, numbered as either Binance venue does. -/
def sampleHistory : History where
  initialId := 1
  initialBook := ⟨∅, firstsOf [(⟨100⟩, ⟨5⟩)]⟩
  events := [⟨"BTCUSDT", 2, 3, 1, [(⟨100⟩, ⟨7⟩)], []⟩, ⟨"BTCUSDT", 4, 5, 3, [(⟨100⟩, ⟨8⟩)], []⟩]

/-- Both events, then a snapshot taken in the middle of the first. -/
def sampleDelivery : List SyncInput :=
  .connected :: sampleHistory.events.map .depthUpdate ++
    [.snapshot ⟨"BTCUSDT", [(⟨100⟩, ⟨6⟩)], [], 2⟩]

theorem rest_resync_sound_sample :
    ((syncMachine binanceFuturesSequencePolicy).state {} sampleDelivery).state = .live ∧
      sampleHistory.LiveBookIsTrue binanceFuturesSequencePolicy sampleDelivery ∧
      ((syncMachine binanceSpotSequencePolicy).state {} sampleDelivery).state = .live ∧
      sampleHistory.LiveBookIsTrue binanceSpotSequencePolicy sampleDelivery := by
  have hinputs : Delivers (· ∈ sampleHistory.events) sampleHistory.RestSnapshot
      sampleDelivery := by
    refine ⟨fun u hu => hu, fun snapshot hs => ?_⟩
    obtain rfl : snapshot = ⟨"BTCUSDT", [(⟨100⟩, ⟨6⟩)], [], 2⟩ := List.mem_singleton.mp hs
    refine ⟨0, by decide, .inr ⟨_, rfl, by decide, by decide, fun p hp => ?_, fun p _ => rfl⟩⟩
    have hne : (⟨100⟩ : Price) ≠ p := hp (⟨100⟩, ⟨7⟩) List.mem_cons_self
    have hlookup : ∀ size : Size,
        (firstsOf [((⟨100⟩ : Price), size)] : SideMap greater)[p]? = none := fun size => by
      rw [firstsOf, List.foldr_cons, getElem?_setPlain, if_neg hne]
      simp
    exact (hlookup ⟨6⟩).trans (hlookup ⟨5⟩).symm
  obtain ⟨hfutures, hspot⟩ := rest_resync_sound sampleHistory sampleDelivery hinputs
  exact ⟨by decide, hfutures (forall_events (by decide)), by decide,
    hspot (forall_events (by decide))⟩

end History

end Hermeneutic
