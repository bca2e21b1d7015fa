import Hermeneutic.Book.ResyncSoundness

/-!
# The exchange's history

What a venue's book goes through on the exchange's side: an initial id and book, and the
events in the order they happened, each setting levels to absolute sizes. `idAt k` and
`bookAt k` are the id and the true book after the first `k` events.

How a venue numbers its events is a condition on a history. All numberings but OKX's make
the ids strictly increase (`Increasing`); comparing ids is then comparing positions
(`Increasing.idAt_lt_iff`), and that is how an inequality between an update's ids and a
snapshot's id identifies the one event it can be. OKX's ids may repeat, but only across
events that change nothing.

What a policy has to do with a history is stated once (`Tracks`): an update it takes for the next
one leads from a true book to a true book, and so does one it bridges a snapshot with.
`liveBookIsTrue_of_tracks` turns this into soundness for any part of the history delivered in any
way, which leaves one lemma about inequalities for each policy. A book of a history is compared
with what the actions leave, and with the entry of a shared book when the calls on it are these
actions.
-/

namespace Hermeneutic

/-- The events of one (venue, symbol) pair as they happened on the exchange. -/
structure History where
  initialId : UInt64
  initialBook : L2OrderBook
  events : List DepthUpdate

namespace History

variable (h : History)

/-- The id after the first `k` events. -/
def idAt (k : ℕ) : UInt64 := lastId h.initialId (h.events.take k)

/-- The true book after the first `k` events. -/
def bookAt (k : ℕ) : L2OrderBook :=
  (h.events.take k).foldl (fun book update => update.applyTo book) h.initialBook

/-- `book` is the true book at `id`. -/
def IsTrue (id : UInt64) (book : L2OrderBook) : Prop :=
  ∃ k ≤ h.events.length, id = h.idAt k ∧ book = h.bookAt k

variable {h}

theorem idAt_succ {k : ℕ} {update : DepthUpdate} (hget : h.events[k]? = some update) :
    h.idAt (k + 1) = update.finalId := by
  rw [idAt, List.take_add_one, hget, lastId, List.foldl_append]
  rfl

theorem bookAt_succ {k : ℕ} {update : DepthUpdate} (hget : h.events[k]? = some update) :
    h.bookAt (k + 1) = update.applyTo (h.bookAt k) := by
  rw [bookAt, List.take_add_one, hget, List.foldl_append]
  rfl

theorem lt_length {k : ℕ} {update : DepthUpdate} (hget : h.events[k]? = some update) :
    k < h.events.length :=
  (List.getElem?_eq_some_iff.mp hget).1

theorem exists_get {k : ℕ} (hk : k < h.events.length) : ∃ update, h.events[k]? = some update :=
  ⟨h.events[k], List.getElem?_eq_getElem hk⟩

/-- A numbering of finitely many events is checked event by event. -/
theorem forall_events {P : ℕ → DepthUpdate → Prop}
    (hP : ∀ k, ∀ hk : k < h.events.length, P k h.events[k]) (k : ℕ) (update : DepthUpdate)
    (hget : h.events[k]? = some update) : P k update := by
  obtain ⟨hk, rfl⟩ := List.getElem?_eq_some_iff.mp hget
  exact hP k hk

/-- The true book after an event is true at the event's id. -/
theorem isTrue_succ {k : ℕ} {update : DepthUpdate} (hget : h.events[k]? = some update) :
    h.IsTrue update.finalId (update.applyTo (h.bookAt k)) :=
  ⟨k + 1, lt_length hget, (idAt_succ hget).symm, (bookAt_succ hget).symm⟩

/-! ### Numberings -/

variable (h)

/-- Every event's id is above the one before. -/
def Increasing : Prop :=
  ∀ k update, h.events[k]? = some update → (h.idAt k).toNat < update.finalId.toNat

/-- Binance Futures: `u_{i-1} < U_i <= u_i` and `pu_i = u_{i-1}`. -/
def NumberedAsFutures : Prop :=
  ∀ k update, h.events[k]? = some update →
    h.idAt k < update.firstId ∧ update.firstId ≤ update.finalId ∧
      update.prevFinalId = h.idAt k

/-- Binance Spot: `U_i = u_{i-1} + 1 <= u_i`, without wrapping. -/
def NumberedAsSpot : Prop :=
  ∀ k update, h.events[k]? = some update →
    update.firstId.toNat = (h.idAt k).toNat + 1 ∧ update.firstId ≤ update.finalId

/-- Bybit: each `u` is the one before plus one, without wrapping. -/
def NumberedAsBybit : Prop :=
  ∀ k update, h.events[k]? = some update → update.finalId.toNat = (h.idAt k).toNat + 1

/-- OKX: `prevSeqId` is the `seqId` before, and `seqId` is above it, except for empty
heartbeats, which repeat it. -/
def NumberedAsOkx : Prop :=
  ∀ k update, h.events[k]? = some update → update.prevFinalId = h.idAt k ∧
    (h.idAt k < update.finalId ∨
      (update.finalId = h.idAt k ∧ update.bids = [] ∧ update.asks = []))

variable {h}

theorem NumberedAsFutures.increasing (hnum : h.NumberedAsFutures) : h.Increasing := by
  intro k update hget
  obtain ⟨hfirst, hfinal, -⟩ := hnum k update hget
  rw [UInt64.lt_iff_toNat_lt] at hfirst
  rw [UInt64.le_iff_toNat_le] at hfinal
  omega

theorem NumberedAsSpot.increasing (hnum : h.NumberedAsSpot) : h.Increasing := by
  intro k update hget
  obtain ⟨hfirst, hfinal⟩ := hnum k update hget
  rw [UInt64.le_iff_toNat_le] at hfinal
  omega

theorem NumberedAsBybit.increasing (hnum : h.NumberedAsBybit) : h.Increasing := by
  intro k update hget
  have := hnum k update hget
  omega

theorem Increasing.idAt_lt (hinc : h.Increasing) {j k : ℕ} (hjk : j < k)
    (hk : k ≤ h.events.length) : (h.idAt j).toNat < (h.idAt k).toNat := by
  induction k with
  | zero => omega
  | succ k ih =>
    obtain ⟨update, hget⟩ := exists_get (h := h) (k := k) (by omega)
    have hstep := hinc k update hget
    rw [idAt_succ hget]
    rcases Nat.lt_succ_iff_lt_or_eq.mp hjk with hlt | rfl
    · have := ih hlt (by omega)
      omega
    · exact hstep

/-- Comparing ids is comparing positions. -/
theorem Increasing.idAt_lt_iff (hinc : h.Increasing) {j k : ℕ} (hj : j ≤ h.events.length)
    (hk : k ≤ h.events.length) : (h.idAt j).toNat < (h.idAt k).toNat ↔ j < k := by
  refine ⟨fun hlt => ?_, fun hjk => hinc.idAt_lt hjk hk⟩
  by_contra hge
  rcases Nat.lt_or_eq_of_le (Nat.le_of_not_lt hge) with hkj | rfl
  · have := hinc.idAt_lt hkj hj
    omega
  · omega

theorem Increasing.idAt_inj (hinc : h.Increasing) {j k : ℕ} (hj : j ≤ h.events.length)
    (hk : k ≤ h.events.length) (heq : h.idAt j = h.idAt k) : j = k := by
  have hjk := hinc.idAt_lt_iff hj hk
  have hkj := hinc.idAt_lt_iff hk hj
  rw [heq] at hjk hkj
  omega

theorem toNat_add_one (id : UInt64) : (id + 1).toNat = (id.toNat + 1) % 2 ^ 64 :=
  UInt64.toNat_add id 1

/-- An id that is one above another by value, and one above a third in `uint64_t`
arithmetic, is one above the same id. -/
theorem eq_of_succ {id id' next : UInt64} (hnat : next.toNat = id.toNat + 1)
    (hsucc : next = id' + 1) : id = id' := by
  have hwrap := congrArg UInt64.toNat hsucc
  rw [hnat, toNat_add_one] at hwrap
  have hlast := id'.toNat_lt
  exact UInt64.toNat_inj.mp (by omega)

/-! ### Updates overwrite -/

/-- The books agree at every price the update does not name. -/
def SameOff (update : DepthUpdate) (book book' : L2OrderBook) : Prop :=
  (∀ p, (∀ l ∈ update.bids, l.1 ≠ p) → book.bids[p]? = book'.bids[p]?) ∧
    ∀ p, (∀ l ∈ update.asks, l.1 ≠ p) → book.asks[p]? = book'.asks[p]?

theorem SameOff.applyTo_eq {update : DepthUpdate} {book book' : L2OrderBook}
    (hsame : SameOff update book book') : update.applyTo book = update.applyTo book' :=
  L2OrderBook.ext (lastsOn_congr hsame.2) (lastsOn_congr hsame.1)

/-- Applying an update twice is applying it once. -/
theorem applyTo_applyTo (update : DepthUpdate) (book : L2OrderBook) :
    update.applyTo (update.applyTo book) = update.applyTo book :=
  SameOff.applyTo_eq ⟨fun _ hp => getElem?_lastsOn_of_forall_ne _ hp,
    fun _ hp => getElem?_lastsOn_of_forall_ne _ hp⟩

/-! ### What a live symbol must show -/

variable (h)

/-- A live symbol shows the true book: on plain maps, and, when every level received is
valid, as the venue's entry of any aggregate book its actions are executed on. -/
def LiveBookIsTrue (policy : SequencePolicy) (inputs : List SyncInput) : Prop :=
  ((syncMachine policy).state {} inputs).state = .live →
    ∃ k ≤ h.events.length, ((syncMachine policy).state {} inputs).lastFinalId = h.idAt k ∧
      bookOf ((syncMachine policy).output {} inputs) = some (h.bookAt k) ∧
      (LevelsValid inputs → ∀ (venue : VenueId) (calls : List BookCall),
        (calls.filter fun c => c.venue = venue).map BookCall.op =
          bookOps ((syncMachine policy).output {} inputs) →
        (bookMachine.state {} calls).venues venue = some (h.bookAt k))

variable {h}

/-- A policy that tracks the history's books shows true ones. -/
theorem liveBookIsTrue_of_tracks {policy : SequencePolicy} {IsUpdate : DepthUpdate → Prop}
    {IsSnapshot : SnapshotMessage → Prop} (htracks : Tracks policy h.IsTrue IsUpdate IsSnapshot)
    {inputs : List SyncInput} (hinputs : Delivers IsUpdate IsSnapshot inputs) :
    h.LiveBookIsTrue policy inputs := by
  intro hlive
  obtain ⟨book, hbook, k, hk, hid, rfl⟩ := htracks.live hinputs hlive
  refine ⟨k, hk, hid, hbook, fun hvalid venue calls hcalls => ?_⟩
  rw [venue_entry_of_execute hvalid hcalls, hbook]

end History

end Hermeneutic
