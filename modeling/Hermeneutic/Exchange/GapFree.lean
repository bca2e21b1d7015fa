import Hermeneutic.Exchange.PushedResync
import Hermeneutic.Exchange.RestResync
import Hermeneutic.ForMathlib.ListTraversal

/-!
# Resync without loss

Soundness says that a live symbol shows a true book. This module is about the other half: that
a connection which loses nothing does make the symbol live, keeps it live, and keeps it at the
exchange's last event, whatever happened on earlier connections.

For a REST venue (`GapFree`) the snapshots may be of any age. The symbol goes live exactly
when a snapshot meets an update that bridges it and that no snapshot dropped in the meantime
(`Bridgeable`). The proof keeps the buffer a tail of the events so far: ids increase, so that
the drop filter only ever cuts off its front. For a pushed-snapshot venue (`PushedInOrder`)
the first snapshot is enough.

`RestInv` is the invariant of a REST connection: before the symbol is live the buffer holds what
is waiting for a snapshot, and that is a tail of the events so far; once it is live it stands at
the last event with the true book. `PushedInv` is its simpler sibling. Both start at a connect,
and what earlier connections left is gone with the disconnect before it (`Unconnected`), so the
theorems hold after any earlier run.
-/

namespace Hermeneutic

/-! ### Updates that wait for a snapshot -/

section Waiting

variable (policy : SequencePolicy)

/-- The update was received, and no snapshot received after it drops it. -/
def Waiting (inputs : List SyncInput) (update : DepthUpdate) : Prop :=
  ∃ pre mid, inputs = pre ++ [.depthUpdate update] ++ mid ∧
    ∀ snapshot ∈ receivedSnapshots mid, policy.shouldDropBuffered update snapshot = false

/-- Some snapshot received meets a waiting update that it does not drop and that bridges it. -/
def Bridgeable (inputs : List SyncInput) : Prop :=
  ∃ pre snapshot, pre ++ [.snapshot snapshot] <+: inputs ∧ ∃ update, Waiting policy pre update ∧
    policy.shouldDropBuffered update snapshot = false ∧ policy.bridgesSnapshot update snapshot

variable {policy}

theorem receivedUpdates_append (inputs inputs' : List SyncInput) :
    receivedUpdates (inputs ++ inputs') = receivedUpdates inputs ++ receivedUpdates inputs' :=
  List.filterMap_append

theorem receivedSnapshots_append (inputs inputs' : List SyncInput) :
    receivedSnapshots (inputs ++ inputs') =
      receivedSnapshots inputs ++ receivedSnapshots inputs' :=
  List.filterMap_append

private theorem not_waiting_nil (update : DepthUpdate) : ¬ Waiting policy [] update := by
  rintro ⟨pre, mid, heq, -⟩
  simp at heq

/-- What waits after one more call: what waited before and is not dropped by it, and the
update it brings. -/
private theorem waiting_concat_iff {inputs : List SyncInput} {input : SyncInput}
    {update : DepthUpdate} :
    Waiting policy (inputs ++ [input]) update ↔
      input = .depthUpdate update ∨ Waiting policy inputs update ∧
        ∀ snapshot ∈ receivedSnapshots [input],
          policy.shouldDropBuffered update snapshot = false := by
  constructor
  · rintro ⟨pre, mid, heq, hkept⟩
    rcases List.eq_nil_or_concat mid with rfl | ⟨mid, last, rfl⟩
    · rw [List.append_nil] at heq
      exact .inl (List.singleton_inj.mp (List.append_inj' heq rfl).2)
    · rw [List.concat_eq_append, ← List.append_assoc] at heq
      obtain ⟨rfl, hlast⟩ := List.append_inj' heq rfl
      obtain rfl := List.singleton_inj.mp hlast
      rw [List.concat_eq_append, receivedSnapshots_append] at hkept
      exact .inr ⟨⟨pre, mid, rfl, fun s hs => hkept s (List.mem_append_left _ hs)⟩,
        fun s hs => hkept s (List.mem_append_right _ hs)⟩
  · rintro (rfl | ⟨⟨pre, mid, rfl, hkept⟩, hlast⟩)
    · exact ⟨inputs, [], (List.append_nil _).symm, List.forall_mem_nil _⟩
    · refine ⟨pre, mid ++ [input], List.append_assoc _ _ _, fun s hs => ?_⟩
      rw [receivedSnapshots_append] at hs
      exact (List.mem_append.mp hs).elim (hkept s) (hlast s)

private theorem not_bridgeable_nil : ¬ Bridgeable policy [] := by
  rintro ⟨pre, snapshot, hpre, -⟩
  simp at hpre

private theorem bridgeable_concat_iff {inputs : List SyncInput} {input : SyncInput} :
    Bridgeable policy (inputs ++ [input]) ↔ Bridgeable policy inputs ∨
      ∃ snapshot, input = .snapshot snapshot ∧ ∃ update, Waiting policy inputs update ∧
        policy.shouldDropBuffered update snapshot = false ∧
        policy.bridgesSnapshot update snapshot := by
  constructor
  · rintro ⟨pre, snapshot, hpre, hbridge⟩
    rcases concat_initial_concat_iff.mp hpre with ⟨rfl, rfl⟩ | hpre
    · exact .inr ⟨snapshot, rfl, hbridge⟩
    · exact .inl ⟨pre, snapshot, hpre, hbridge⟩
  · rintro (⟨pre, snapshot, hpre, hbridge⟩ | ⟨snapshot, rfl, hbridge⟩)
    · exact ⟨pre, snapshot, hpre.trans (List.prefix_append _ _), hbridge⟩
    · exact ⟨inputs, snapshot, List.prefix_rfl, hbridge⟩

end Waiting

/-! ### Deliveries that lose nothing -/

namespace History

variable (h : History)

/-- What a connection to a REST venue delivers if nothing is lost: the events from number
`start` on, up to number `n`, with connects and snapshots of any age in between. -/
inductive GapFree (start : ℕ) : ℕ → List SyncInput → Prop
  | nil : GapFree start start []
  | connected {n : ℕ} {inputs : List SyncInput} (hgap : GapFree start n inputs) :
      GapFree start n (inputs ++ [.connected])
  | update {n : ℕ} {inputs : List SyncInput} {update : DepthUpdate}
      (hgap : GapFree start n inputs) (hget : h.events[n]? = some update) :
      GapFree start (n + 1) (inputs ++ [.depthUpdate update])
  | snapshot {n : ℕ} {inputs : List SyncInput} {snapshot : SnapshotMessage}
      (hgap : GapFree start n inputs) (hsnapshot : h.RestSnapshot snapshot) :
      GapFree start n (inputs ++ [.snapshot snapshot])

/-- What a connection to a pushed-snapshot venue delivers if nothing is lost: nothing at
first, then a snapshot at some event, and from there the events and further snapshots in
order. The position is the number of the last event shown, once there is one. -/
inductive PushedInOrder : Option ℕ → List SyncInput → Prop
  | nil : PushedInOrder none []
  | connected {position : Option ℕ} {inputs : List SyncInput}
      (horder : PushedInOrder position inputs) :
      PushedInOrder position (inputs ++ [.connected])
  | snapshot {position : Option ℕ} {inputs : List SyncInput} {snapshot : SnapshotMessage} {n : ℕ}
      (horder : PushedInOrder position inputs) (hn : n ≤ h.events.length)
      (hposition : ∀ m ∈ position, m = n) (hid : snapshot.lastUpdateId = h.idAt n)
      (hbook : snapshot.book = h.bookAt n) :
      PushedInOrder (some n) (inputs ++ [.snapshot snapshot])
  | update {n : ℕ} {inputs : List SyncInput} {update : DepthUpdate}
      (horder : PushedInOrder (some n) inputs) (hget : h.events[n]? = some update) :
      PushedInOrder (some (n + 1)) (inputs ++ [.depthUpdate update])

/-- The symbol is live at the exchange's event `n`: at its id, with the true book after it, on
plain maps and, when every level received is valid, as the venue's entry of any aggregate book
its actions are executed on. -/
structure CaughtUp (policy : SequencePolicy) (inputs : List SyncInput) (n : ℕ) : Prop where
  id : ((syncMachine policy).state {} inputs).lastFinalId = h.idAt n
  book : bookOf ((syncMachine policy).output {} inputs) = some (h.bookAt n)
  entry : LevelsValid inputs → ∀ (venue : VenueId) (calls : List BookCall),
    (calls.filter fun c => c.venue = venue).map BookCall.op =
      bookOps ((syncMachine policy).output {} inputs) →
    (bookMachine.state {} calls).venues venue = some (h.bookAt n)

/-- What becomes of a symbol on a connection that loses nothing up to some position, after
any earlier calls: it is live exactly if it was `Synced`, it is then caught up with that
position, and its book is never taken away. -/
structure Completes (policy : SequencePolicy) (earlier conn : List SyncInput)
    (position : Option ℕ) (Synced : Prop) : Prop where
  live_iff : ((syncMachine policy).state {} (earlier ++ conn)).state = .live ↔ Synced
  caughtUp : ((syncMachine policy).state {} (earlier ++ conn)).state = .live →
    ∃ n ∈ position, h.CaughtUp policy (earlier ++ conn) n
  undisturbed : .invalidateVenue ∉
    (syncMachine policy).output ((syncMachine policy).state {} earlier) conn

variable {h}

/-! ### The events from one number to another -/

private theorem lastId_append (id : UInt64) (updates updates' : List DepthUpdate) :
    lastId id (updates ++ updates') = lastId (lastId id updates) updates' :=
  List.foldl_append

/-- The events between two numbers lead from the first id and book to the second. -/
private theorem idAt_bookAt_of_take {k n : ℕ} {updates : List DepthUpdate}
    (htake : h.events.take n = h.events.take k ++ updates) :
    h.idAt n = lastId (h.idAt k) updates ∧
      h.bookAt n = updates.foldl (fun book update => update.applyTo book) (h.bookAt k) := by
  constructor
  · rw [idAt, htake, lastId_append, idAt]
  · rw [bookAt, htake, List.foldl_append, bookAt]

/-- A stretch of the events starts with the one after its first number. -/
private theorem get_of_take {n k : ℕ} {update : DepthUpdate} {updates : List DepthUpdate}
    (htake : h.events.take n = h.events.take k ++ update :: updates)
    (hk : k ≤ h.events.length) : h.events[k]? = some update := by
  have hlength : (h.events.take k).length = k := List.length_take_of_le hk
  have hget : (h.events.take n)[k]? = some update := by
    rw [htake, List.getElem?_append_right hlength.le, hlength, Nat.sub_self]
    rfl
  rw [List.getElem?_take] at hget
  split at hget
  · exact hget
  · simp at hget

/-- A policy that finds every event contiguous with the one before finds any stretch of them
contiguous. -/
private theorem chained_of_take {policy : SequencePolicy}
    (hnext : ∀ k update, h.events[k]? = some update → policy.isContiguous update (h.idAt k))
    {n : ℕ} {updates : List DepthUpdate} {k : ℕ}
    (htake : h.events.take n = h.events.take k ++ updates) (hk : k ≤ h.events.length) :
    Chained policy (h.idAt k) updates := by
  induction updates generalizing k with
  | nil => trivial
  | cons update updates ih =>
    have hget := get_of_take htake hk
    refine ⟨hnext k update hget, ?_⟩
    rw [← idAt_succ hget]
    refine ih ?_ (lt_length hget)
    rw [htake, List.take_add_one, hget, List.append_assoc]
    rfl

/-! ### REST venues -/

/-- Under which numbering a policy completes against a REST snapshot: it tracks the true book,
the ids increase, every event is contiguous with the one before, and what a snapshot drops are
the older events. -/
structure RestPolicy (policy : SequencePolicy) (h : History) : Prop where
  tracks : Tracks policy h.IsTrue (· ∈ h.events) h.RestSnapshot
  increasing : h.Increasing
  trusts : policy.trustsConnectionOrder = false
  next : ∀ k update, h.events[k]? = some update → policy.isContiguous update (h.idAt k)
  drops : ∀ snapshot older newer, older.finalId.toNat < newer.finalId.toNat →
    policy.shouldDropBuffered newer snapshot = true →
    policy.shouldDropBuffered older snapshot = true

theorem NumberedAsFutures.restPolicy (hnum : h.NumberedAsFutures) :
    RestPolicy binanceFuturesSequencePolicy h where
  tracks := futures_tracks hnum
  increasing := hnum.increasing
  trusts := rfl
  next k update hget := by simpa [binanceFuturesSequencePolicy] using (hnum k update hget).2.2
  drops snapshot older newer hlt hdrop := by
    simp only [binanceFuturesSequencePolicy, decide_eq_true_eq, UInt64.lt_iff_toNat_lt] at *
    omega

theorem NumberedAsSpot.restPolicy (hnum : h.NumberedAsSpot) :
    RestPolicy binanceSpotSequencePolicy h where
  tracks := spot_tracks hnum
  increasing := hnum.increasing
  trusts := rfl
  next k update hget := by
    have hfirst := (hnum k update hget).1
    have hlast := update.firstId.toNat_lt
    have heq : update.firstId = h.idAt k + 1 := by
      refine UInt64.toNat_inj.mp ?_
      rw [toNat_add_one, hfirst]
      omega
    simpa [binanceSpotSequencePolicy] using heq
  drops snapshot older newer hlt hdrop := by
    simp only [binanceSpotSequencePolicy, decide_eq_true_eq, UInt64.le_iff_toNat_le] at *
    omega

/-- Filtering out older elements leaves a tail. -/
private theorem filter_isSuffix {α : Type*} {p : α → Bool} {l : List α}
    (h : l.Pairwise fun x y => p x = true → p y = true) : l.filter p <:+ l := by
  induction l with
  | nil => exact List.suffix_rfl
  | cons x l ih =>
    obtain ⟨hx, hl⟩ := List.pairwise_cons.mp h
    rw [List.filter_cons]
    split
    · rename_i hpx
      rw [List.filter_eq_self.mpr fun y hy => hx y hy hpx]
    · exact (ih hl).trans (List.suffix_cons x l)

namespace RestPolicy

variable {policy : SequencePolicy}

/-- What a snapshot leaves of a tail of the events is a tail of them. -/
private theorem kept_isSuffix (hp : RestPolicy policy h) {buffer : List DepthUpdate} {n : ℕ}
    (hsuffix : buffer <:+ h.events.take n) (snapshot : SnapshotMessage) :
    kept policy buffer snapshot <:+ h.events.take n := by
  refine (filter_isSuffix ?_).trans hsuffix
  refine List.Pairwise.sublist hsuffix.sublist ?_
  rw [List.pairwise_iff_getElem]
  intro i j hi hj hij hkeep
  have hi' : i < h.events.length := by
    have := hi
    rw [List.length_take] at this
    omega
  have hj' : j < h.events.length := by
    have := hj
    rw [List.length_take] at this
    omega
  rw [List.getElem_take] at hkeep ⊢
  have hlt := hp.increasing.idAt_lt (j := i + 1) (k := j + 1) (by omega) (by omega)
  rw [idAt_succ (List.getElem?_eq_getElem hi'), idAt_succ (List.getElem?_eq_getElem hj')] at hlt
  by_contra hdrop
  have := hp.drops snapshot _ _ hlt (by simpa using hdrop)
  simp [this] at hkeep

end RestPolicy

/-- A tail of the first `n` events is the stretch from some event to the `n`-th. -/
private theorem exists_stretch {n : ℕ} {updates : List DepthUpdate}
    (hsuffix : updates <:+ h.events.take n) :
    ∃ k ≤ h.events.length, h.events.take n = h.events.take k ++ updates := by
  obtain ⟨pre, hpre⟩ := hsuffix
  have hinitial : pre <+: h.events :=
    (List.prefix_append pre updates).trans (hpre ▸ List.take_prefix n h.events)
  refine ⟨pre.length, hinitial.length_le, ?_⟩
  rw [← hpre, ← List.prefix_iff_eq_take.mp hinitial]

/-- What holds of a symbol on a connection that has lost nothing up to event `n`. -/
structure RestInv (h : History) (policy : SequencePolicy) (n : ℕ) (conn : List SyncInput)
    (before : List SyncAction) (sync : SymbolSync) (actions : List SyncAction) : Prop where
  buffering : sync.state = .buffering → ¬ Bridgeable policy conn ∧
    (∀ update, update ∈ sync.buffer ↔ Waiting policy conn update) ∧
    sync.buffer <:+ h.events.take n
  live : sync.state = .live → Bridgeable policy conn ∧ sync.buffer = [] ∧
    sync.lastFinalId = h.idAt n ∧ bookOf (before ++ actions) = some (h.bookAt n)
  undisturbed : .invalidateVenue ∉ actions

namespace RestPolicy

variable {policy : SequencePolicy} {n : ℕ} {conn : List SyncInput}
  {before actions : List SyncAction} {sync sync' : SymbolSync} {events : List SyncEvent}

/-- What follows the front of what a snapshot leaves is a stretch of the events. -/
private theorem exists_stretch_kept (hp : RestPolicy policy h) {snapshot : SnapshotMessage}
    (hsuffix : sync.buffer <:+ h.events.take n) {skipped updates : List DepthUpdate}
    (hkept : kept policy sync.buffer snapshot = skipped ++ updates) :
    ∃ k ≤ h.events.length, h.events.take n = h.events.take k ++ updates := by
  have htail := hp.kept_isSuffix hsuffix snapshot
  rw [hkept] at htail
  exact exists_stretch ((List.suffix_append skipped updates).trans htail)

/-- **Step lemma.** A connect changes nothing but the request. -/
private theorem inv_connected (hinv : RestInv h policy n conn before sync actions)
    (hstep : SyncStep policy sync .connected sync' events) :
    RestInv h policy n (conn ++ [.connected]) before sync'
      (actions ++ events.map SyncEvent.action) := by
  have hbridgeable : Bridgeable policy (conn ++ [.connected]) ↔ Bridgeable policy conn := by
    simp [bridgeable_concat_iff]
  have hwaiting : ∀ update, Waiting policy (conn ++ [.connected]) update ↔
      Waiting policy conn update := by
    intro update
    simp [waiting_concat_iff, receivedSnapshots]
  cases hstep with
  | request hstate =>
    refine ⟨fun _ => ?_, fun hlive => absurd (hstate.symm.trans hlive) (by decide), ?_⟩
    · simp only [hbridgeable, hwaiting]
      exact hinv.buffering hstate
    · simpa [SyncEvent.action] using hinv.undisturbed
  | noRequest =>
    refine ⟨fun hstate => ?_, fun hlive => ?_, by simpa using hinv.undisturbed⟩
    · simp only [hbridgeable, hwaiting]
      exact hinv.buffering hstate
    · simpa only [hbridgeable, List.map_nil, List.append_nil] using hinv.live hlive

/-- The next event is buffered, or applied to a book that is caught up. -/
private theorem inv_update (hp : RestPolicy policy h) {update : DepthUpdate}
    (hget : h.events[n]? = some update) (hinv : RestInv h policy n conn before sync actions)
    (hstep : SyncStep policy sync (.depthUpdate update) sync' events) :
    RestInv h policy (n + 1) (conn ++ [.depthUpdate update]) before sync'
      (actions ++ events.map SyncEvent.action) := by
  have hbridgeable : Bridgeable policy (conn ++ [.depthUpdate update]) ↔
      Bridgeable policy conn := by
    simp [bridgeable_concat_iff]
  cases hstep with
  | buffered hstate =>
    obtain ⟨hnone, hbuffer, hsuffix⟩ := hinv.buffering hstate
    refine ⟨fun _ => ⟨hbridgeable.not.mpr hnone, fun u => ?_, ?_⟩,
      fun hlive => absurd (hstate.symm.trans hlive) (by decide), by simpa using hinv.undisturbed⟩
    · simp only [List.mem_append, List.mem_singleton, hbuffer u, waiting_concat_iff,
        SyncInput.depthUpdate.injEq, receivedSnapshots, List.filterMap_cons, List.filterMap_nil,
        List.not_mem_nil, false_imp_iff, implies_true, and_true]
      rw [or_comm, eq_comm]
    · rw [List.take_add_one, hget]
      exact (List.suffix_append_inj_of_length_eq rfl).mpr ⟨hsuffix, rfl⟩
  | delta hstate =>
    obtain ⟨hbridge, hbuffer, hid, hbook⟩ := hinv.live hstate
    refine ⟨fun hbuffering => absurd (hstate.symm.trans hbuffering) (by decide),
      fun _ => ⟨hbridgeable.mpr hbridge, hbuffer, (idAt_succ hget).symm, ?_⟩, ?_⟩
    · rw [← List.append_assoc, bookAt_succ hget]
      exact bookOf_deltas hbook [update]
    · simpa [SyncEvent.action] using hinv.undisturbed
  | deltaGap hstate hnext =>
    have hcontiguous := hp.next n update hget
    rw [← (hinv.live hstate).2.2.1, hnext] at hcontiguous
    exact absurd hcontiguous Bool.false_ne_true

/-- A snapshot that a waiting update bridges brings the symbol up to the last event; any other
changes the buffer only. -/
private theorem inv_snapshot (hp : RestPolicy policy h) {snapshot : SnapshotMessage}
    (hsnapshot : h.RestSnapshot snapshot) (hinv : RestInv h policy n conn before sync actions)
    (hstep : SyncStep policy sync (.snapshot snapshot) sync' events) :
    RestInv h policy n (conn ++ [.snapshot snapshot]) before sync'
      (actions ++ events.map SyncEvent.action) := by
  have hmem : ∀ update, update ∈ kept policy sync.buffer snapshot ↔ update ∈ sync.buffer ∧
      policy.shouldDropBuffered update snapshot = false := by
    intro update
    simp [kept]
  have hnow : ∀ update ∈ kept policy sync.buffer snapshot,
      policy.bridgesSnapshot update snapshot → sync.state = .buffering →
      Bridgeable policy (conn ++ [.snapshot snapshot]) := by
    intro update hu hbridge hstate
    obtain ⟨hu, hdrop⟩ := (hmem update).mp hu
    exact bridgeable_concat_iff.mpr (.inr ⟨snapshot, rfl, update,
      ((hinv.buffering hstate).2.1 update).mp hu, hdrop, hbridge⟩)
  have hempty : sync.state = .live → kept policy sync.buffer snapshot = [] := by
    intro hstate
    rw [(hinv.live hstate).2.1]
    rfl
  have hstate : ∀ update, update ∈ kept policy sync.buffer snapshot → sync.state = .buffering := by
    intro update hu
    cases hs : sync.state with
    | buffering => rfl
    | live =>
      rw [hempty hs] at hu
      exact absurd hu List.not_mem_nil
  cases hstep with
  | goLive htrusts | noBridgeGap htrusts => exact absurd htrusts (by simp [hp.trusts])
  | retry _ hnone =>
    refine ⟨fun hs => ?_, fun hs => ?_, by simpa [SyncEvent.action] using hinv.undisturbed⟩
    · obtain ⟨hnot, hbuffer, hsuffix⟩ := hinv.buffering hs
      refine ⟨fun hbridgeable => ?_, fun update => ?_, hp.kept_isSuffix hsuffix snapshot⟩
      · rcases bridgeable_concat_iff.mp hbridgeable with hold | ⟨s, heq, u, hwaits, hdrop, hbridge⟩
        · exact hnot hold
        · obtain rfl := SyncInput.snapshot.inj heq
          have hu := (hmem u).mpr ⟨(hbuffer u).mpr hwaits, hdrop⟩
          exact absurd hbridge (by simp [hnone u hu])
      · rw [hmem, hbuffer, waiting_concat_iff]
        simp [receivedSnapshots]
    · obtain ⟨hbridge, -, hid, hbook⟩ := hinv.live hs
      refine ⟨bridgeable_concat_iff.mpr (.inl hbridge), hempty hs, hid, ?_⟩
      rw [← List.append_assoc, bookOf_append, hbook]
      rfl
  | @bridged _ skipped tail bridge hkept _ hbridge hchain =>
    have hin : bridge ∈ kept policy sync.buffer snapshot := by simp [hkept]
    have hs := hstate bridge hin
    obtain ⟨-, -, hsuffix⟩ := hinv.buffering hs
    -- The bridge is one of the events, and the rest of the buffer the events after it.
    obtain ⟨k, hk, htake⟩ := hp.exists_stretch_kept hsuffix hkept
    have hget := get_of_take htake hk
    have htail : h.events.take n = h.events.take (k + 1) ++ tail := by
      rw [htake, List.take_add_one, hget, List.append_assoc]
      rfl
    obtain ⟨j, hj, hidj, hbookj⟩ := hp.tracks.bridge snapshot bridge hsnapshot
      (List.mem_of_getElem? hget) ((hmem bridge).mp hin).2 hbridge
    obtain rfl : j = k + 1 := hp.increasing.idAt_inj hj (lt_length hget)
      (hidj.symm.trans (idAt_succ hget).symm)
    obtain ⟨hidn, hbookn⟩ := idAt_bookAt_of_take htail
    refine ⟨by simp, fun _ => ⟨hnow bridge hin hbridge hs, rfl, ?_, ?_⟩, ?_⟩
    · rw [hidn, ← hidj]
    · have hbook := bookOf_deltas (bookOf_snapshot (before ++ actions) snapshot) (bridge :: tail)
      rw [List.foldl_cons, hbookj, ← hbookn] at hbook
      rw [List.map_cons, ← List.singleton_append, ← List.append_assoc, ← List.append_assoc]
      exact hbook
    · simpa [SyncEvent.action] using hinv.undisturbed
  | @bridgedGap _ skipped applied rest bridge next hkept _ _ hchain hgap =>
    have hin : bridge ∈ kept policy sync.buffer snapshot := by simp [hkept]
    obtain ⟨-, -, hsuffix⟩ := hinv.buffering (hstate bridge hin)
    obtain ⟨k, hk, htake⟩ := hp.exists_stretch_kept hsuffix hkept
    obtain ⟨-, hrest⟩ := chained_of_take hp.next htake hk
    have hcontiguous := hrest.next
    exact absurd hcontiguous (by simp [hgap])

/-- **Run lemma.** The invariant holds all along a connection that loses nothing. -/
theorem inv_of_gapFree (hp : RestPolicy policy h) {start : ℕ} (hgap : h.GapFree start n conn)
    (before : List SyncAction) :
    RestInv h policy n conn before ((syncMachine policy).state {} conn)
      ((syncMachine policy).output {} conn) := by
  induction hgap with
  | nil =>
    refine ⟨fun _ => ⟨not_bridgeable_nil, fun update => ?_, List.nil_suffix⟩, by simp, by simp⟩
    simp [not_waiting_nil]
  | connected _ ih =>
    obtain ⟨events, hevents, hstep⟩ := step_syncStep policy _ .connected
    have hnext := inv_connected ih hstep
    rw [← hevents] at hnext
    rwa [Machine.state_concat, Machine.output_concat]
  | @update _ _ update _ hget ih =>
    obtain ⟨events, hevents, hstep⟩ := step_syncStep policy _ (.depthUpdate update)
    have hnext := hp.inv_update hget ih hstep
    rw [← hevents] at hnext
    rwa [Machine.state_concat, Machine.output_concat]
  | @snapshot _ _ snapshot _ hsnapshot ih =>
    obtain ⟨events, hevents, hstep⟩ := step_syncStep policy _ (.snapshot snapshot)
    have hnext := hp.inv_snapshot hsnapshot ih hstep
    rw [← hevents] at hnext
    rwa [Machine.state_concat, Machine.output_concat]

end RestPolicy

/-! ### After any earlier connections -/

/-- No connection is up yet, or the last one has been dropped. -/
def Unconnected (earlier : List SyncInput) : Prop :=
  earlier = [] ∨ ∃ calls, earlier = calls ++ [.disconnected]

theorem Unconnected.state {policy : SequencePolicy} {earlier : List SyncInput}
    (hearlier : Unconnected earlier) : (syncMachine policy).state {} earlier = {} := by
  rcases hearlier with rfl | ⟨calls, rfl⟩
  · rfl
  · rw [Machine.state_concat]
    rfl

/-- A symbol that is live with the true book of event `n` is caught up. -/
private theorem caughtUp_of_book {policy : SequencePolicy} {inputs : List SyncInput} {n : ℕ}
    (hid : ((syncMachine policy).state {} inputs).lastFinalId = h.idAt n)
    (hbook : bookOf ((syncMachine policy).output {} inputs) = some (h.bookAt n)) :
    h.CaughtUp policy inputs n where
  id := hid
  book := hbook
  entry hvalid venue calls hcalls := by rw [venue_entry_of_execute hvalid hcalls, hbook]

theorem RestPolicy.completes {policy : SequencePolicy} (hp : RestPolicy policy h)
    {earlier conn : List SyncInput} {start n : ℕ} (hearlier : Unconnected earlier)
    (hgap : h.GapFree start n conn) :
    h.Completes policy earlier conn (some n) (Bridgeable policy conn) := by
  have hinv := hp.inv_of_gapFree hgap ((syncMachine policy).output {} earlier)
  have hstate : (syncMachine policy).state {} (earlier ++ conn) =
      (syncMachine policy).state {} conn := by
    rw [Machine.state_append, hearlier.state]
  refine ⟨?_, fun hlive => ?_, ?_⟩
  · rw [hstate]
    refine ⟨fun hlive => (hinv.live hlive).1, fun hbridgeable => ?_⟩
    by_contra hnot
    have hbuffering : ((syncMachine policy).state {} conn).state = .buffering := by
      cases hs : ((syncMachine policy).state {} conn).state with
      | buffering => rfl
      | live => exact absurd hs hnot
    exact (hinv.buffering hbuffering).1 hbridgeable
  · obtain ⟨-, -, hid, hbook⟩ := hinv.live (hstate ▸ hlive)
    refine ⟨n, rfl, caughtUp_of_book (by rw [hstate, hid]) ?_⟩
    rw [Machine.output_append, hearlier.state, hbook]
  · rw [hearlier.state]
    exact hinv.undisturbed

/-- **Resync completeness of the REST venues.** On a connection that loses nothing, whatever
happened before it, a symbol is live exactly when one of the snapshots, of whatever age, met a
waiting update that bridges it; from then on it is at the last event with the true book, and
no gap is ever seen. -/
theorem rest_resync_complete (h : History) {earlier conn : List SyncInput} {start n : ℕ}
    (hearlier : Unconnected earlier) (hgap : h.GapFree start n conn) :
    (h.NumberedAsFutures → h.Completes binanceFuturesSequencePolicy earlier conn (some n)
        (Bridgeable binanceFuturesSequencePolicy conn)) ∧
      (h.NumberedAsSpot → h.Completes binanceSpotSequencePolicy earlier conn (some n)
        (Bridgeable binanceSpotSequencePolicy conn)) :=
  ⟨fun hnum => hnum.restPolicy.completes hearlier hgap,
    fun hnum => hnum.restPolicy.completes hearlier hgap⟩

/-- Both events of the sample history on a second connection, and a snapshot taken inside the
first of them between the two. -/
def sampleConnection : List SyncInput :=
  [.connected, .depthUpdate ⟨"BTCUSDT", 2, 3, 1, [(⟨100⟩, ⟨7⟩)], []⟩,
    .snapshot ⟨"BTCUSDT", [(⟨100⟩, ⟨6⟩)], [], 2⟩,
    .depthUpdate ⟨"BTCUSDT", 4, 5, 3, [(⟨100⟩, ⟨8⟩)], []⟩]

theorem rest_resync_complete_sample :
    sampleHistory.Completes binanceFuturesSequencePolicy [.connected, .disconnected]
        sampleConnection (some 2) (Bridgeable binanceFuturesSequencePolicy sampleConnection) ∧
      sampleHistory.Completes binanceSpotSequencePolicy [.connected, .disconnected]
        sampleConnection (some 2) (Bridgeable binanceSpotSequencePolicy sampleConnection) := by
  have hsnapshot : sampleHistory.RestSnapshot ⟨"BTCUSDT", [(⟨100⟩, ⟨6⟩)], [], 2⟩ := by
    refine ⟨0, by decide, .inr ⟨_, rfl, by decide, by decide, fun p hp => ?_, fun p _ => rfl⟩⟩
    have hne : (⟨100⟩ : Price) ≠ p := hp (⟨100⟩, ⟨7⟩) List.mem_cons_self
    have hlookup : ∀ size : Size,
        (firstsOf [((⟨100⟩ : Price), size)] : SideMap greater)[p]? = none := fun size => by
      rw [firstsOf, List.foldr_cons, getElem?_setPlain, if_neg hne]
      simp
    exact (hlookup ⟨6⟩).trans (hlookup ⟨5⟩).symm
  have hgap : sampleHistory.GapFree 0 2 sampleConnection :=
    .update (.snapshot (.update (.connected .nil) rfl) hsnapshot) rfl
  have hearlier : Unconnected [.connected, .disconnected] := .inr ⟨[.connected], rfl⟩
  obtain ⟨hfutures, hspot⟩ := rest_resync_complete sampleHistory hearlier hgap
  exact ⟨hfutures (forall_events (by decide)), hspot (forall_events (by decide))⟩

/-! ### Pushed-snapshot venues -/

/-- What holds of a symbol on a connection whose messages came in order up to a position. -/
structure PushedInv (h : History) (position : Option ℕ) (conn : List SyncInput)
    (before : List SyncAction) (sync : SymbolSync) (actions : List SyncAction) : Prop where
  buffer : sync.buffer = []
  waiting : position = none → sync.state = .buffering ∧ receivedSnapshots conn = []
  live : ∀ n ∈ position, sync.state = .live ∧ receivedSnapshots conn ≠ [] ∧
    sync.lastFinalId = h.idAt n ∧ bookOf (before ++ actions) = some (h.bookAt n)
  undisturbed : .invalidateVenue ∉ actions

namespace PushedInv

variable {policy : SequencePolicy} {position : Option ℕ} {conn : List SyncInput}
  {before actions : List SyncAction} {sync sync' : SymbolSync} {events : List SyncEvent}

/-- **Step lemma.** A connect changes nothing but the request. -/
private theorem connected (hinv : PushedInv h position conn before sync actions)
    (hstep : SyncStep policy sync .connected sync' events) :
    PushedInv h position (conn ++ [.connected]) before sync'
      (actions ++ events.map SyncEvent.action) := by
  have hsnapshots : receivedSnapshots (conn ++ [.connected]) = receivedSnapshots conn := by
    simp [receivedSnapshots]
  cases hstep with
  | request hstate =>
    refine ⟨hinv.buffer, by simpa [hsnapshots] using hinv.waiting, fun n hn => ?_,
      by simpa [SyncEvent.action] using hinv.undisturbed⟩
    exact absurd (hstate.symm.trans (hinv.live n hn).1) (by decide)
  | noRequest =>
    exact ⟨hinv.buffer, by simpa only [hsnapshots] using hinv.waiting,
      by simpa only [hsnapshots, List.map_nil, List.append_nil] using hinv.live,
      by simpa using hinv.undisturbed⟩

/-- A snapshot in order shows the book at its event. -/
private theorem snapshot (htrusts : policy.trustsConnectionOrder = true)
    {snapshot : SnapshotMessage} {n : ℕ} (hid : snapshot.lastUpdateId = h.idAt n)
    (hbook : snapshot.book = h.bookAt n) (hinv : PushedInv h position conn before sync actions)
    (hstep : SyncStep policy sync (.snapshot snapshot) sync' events) :
    PushedInv h (some n) (conn ++ [.snapshot snapshot]) before sync'
      (actions ++ events.map SyncEvent.action) := by
  have hkept : kept policy sync.buffer snapshot = [] := by
    rw [hinv.buffer]
    rfl
  cases hstep with
  | goLive =>
    refine ⟨hinv.buffer, by simp, fun m hm => ?_, ?_⟩
    · obtain rfl := Option.some.inj hm
      refine ⟨rfl, by simp [receivedSnapshots], hid, ?_⟩
      rw [← List.append_assoc, ← hbook]
      exact bookOf_snapshot _ snapshot
    · simpa [SyncEvent.action] using hinv.undisturbed
  | noBridgeGap _ hbuffer => exact absurd hinv.buffer hbuffer
  | retry hfalse => exact absurd htrusts (by simp [hfalse])
  | bridged hsplit | bridgedGap hsplit =>
    rw [hkept] at hsplit
    simp at hsplit

/-- The next event is applied. -/
private theorem update {n : ℕ} {update : DepthUpdate} (hget : h.events[n]? = some update)
    (hcontiguous : policy.isContiguous update (h.idAt n))
    (hinv : PushedInv h (some n) conn before sync actions)
    (hstep : SyncStep policy sync (.depthUpdate update) sync' events) :
    PushedInv h (some (n + 1)) (conn ++ [.depthUpdate update]) before sync'
      (actions ++ events.map SyncEvent.action) := by
  obtain ⟨hlive, hsnapshots, hid, hbook⟩ := hinv.live n rfl
  cases hstep with
  | buffered hstate => exact absurd (hstate.symm.trans hlive) (by decide)
  | delta =>
    refine ⟨hinv.buffer, by simp, fun m hm => ?_, ?_⟩
    · obtain rfl := Option.some.inj hm
      refine ⟨hlive, by simpa [receivedSnapshots] using hsnapshots, (idAt_succ hget).symm, ?_⟩
      rw [← List.append_assoc, bookAt_succ hget]
      exact bookOf_deltas hbook [update]
    · simpa [SyncEvent.action] using hinv.undisturbed
  | deltaGap _ hnext =>
    rw [hid, hcontiguous] at hnext
    exact absurd hnext (by decide)

/-- **Run lemma.** The invariant holds all along a connection in order. -/
theorem of_pushedInOrder (htrusts : policy.trustsConnectionOrder = true)
    (hnext : ∀ k update, h.events[k]? = some update → policy.isContiguous update (h.idAt k))
    (horder : h.PushedInOrder position conn) (before : List SyncAction) :
    PushedInv h position conn before ((syncMachine policy).state {} conn)
      ((syncMachine policy).output {} conn) := by
  induction horder with
  | nil => exact ⟨rfl, fun _ => ⟨rfl, rfl⟩, by simp, by simp⟩
  | connected _ ih =>
    obtain ⟨events, hevents, hstep⟩ := step_syncStep policy _ .connected
    have hinv := ih.connected hstep
    rw [← hevents] at hinv
    rwa [Machine.state_concat, Machine.output_concat]
  | @snapshot _ _ snapshot _ _ _ _ hid hbook ih =>
    obtain ⟨events, hevents, hstep⟩ := step_syncStep policy _ (.snapshot snapshot)
    have hinv := ih.snapshot htrusts hid hbook hstep
    rw [← hevents] at hinv
    rwa [Machine.state_concat, Machine.output_concat]
  | @update _ _ update _ hget ih =>
    obtain ⟨events, hevents, hstep⟩ := step_syncStep policy _ (.depthUpdate update)
    have hinv := ih.update hget (hnext _ update hget) hstep
    rw [← hevents] at hinv
    rwa [Machine.state_concat, Machine.output_concat]

end PushedInv

theorem PushedInOrder.completes {policy : SequencePolicy}
    (htrusts : policy.trustsConnectionOrder = true)
    (hnext : ∀ k update, h.events[k]? = some update → policy.isContiguous update (h.idAt k))
    {earlier conn : List SyncInput} {position : Option ℕ} (hearlier : Unconnected earlier)
    (horder : h.PushedInOrder position conn) :
    h.Completes policy earlier conn position (receivedSnapshots conn ≠ []) := by
  have hinv := PushedInv.of_pushedInOrder htrusts hnext horder
    ((syncMachine policy).output {} earlier)
  have hstate : (syncMachine policy).state {} (earlier ++ conn) =
      (syncMachine policy).state {} conn := by
    rw [Machine.state_append, hearlier.state]
  refine ⟨?_, fun hlive => ?_, ?_⟩
  · rw [hstate]
    cases position with
    | none =>
      obtain ⟨hbuffering, hnone⟩ := hinv.waiting rfl
      simp [hbuffering, hnone]
    | some n =>
      obtain ⟨hlive, hsnapshots, -⟩ := hinv.live n rfl
      exact iff_of_true hlive hsnapshots
  · cases position with
    | none => exact absurd ((hinv.waiting rfl).1.symm.trans (hstate ▸ hlive)) (by decide)
    | some n =>
      obtain ⟨-, -, hid, hbook⟩ := hinv.live n rfl
      refine ⟨n, rfl, caughtUp_of_book (by rw [hstate, hid]) ?_⟩
      rw [Machine.output_append, hearlier.state, hbook]
  · rw [hearlier.state]
    exact hinv.undisturbed

/-- Numbered as Bybit documents, every event is contiguous with the one before. -/
theorem NumberedAsBybit.next (hnum : h.NumberedAsBybit) (k : ℕ) (update : DepthUpdate)
    (hget : h.events[k]? = some update) :
    bybitSequencePolicy.isContiguous update (h.idAt k) := by
  have hfinal := hnum k update hget
  have hlast := update.finalId.toNat_lt
  have heq : update.finalId = h.idAt k + 1 := by
    refine UInt64.toNat_inj.mp ?_
    rw [toNat_add_one, hfinal]
    omega
  simpa [bybitSequencePolicy] using heq

theorem NumberedAsOkx.next (hnum : h.NumberedAsOkx) (k : ℕ) (update : DepthUpdate)
    (hget : h.events[k]? = some update) :
    okxSequencePolicy.isContiguous update (h.idAt k) := by
  simpa [okxSequencePolicy] using (hnum k update hget).1

/-- **Resync completeness of the pushed-snapshot venues.** On a connection whose messages come
in order, whatever happened before it, a symbol is live from the first snapshot on, at the last
event with the true book, and no gap is ever seen. -/
theorem pushed_resync_complete (h : History) {earlier conn : List SyncInput}
    {position : Option ℕ} (hearlier : Unconnected earlier)
    (horder : h.PushedInOrder position conn) :
    (h.NumberedAsBybit → h.Completes bybitSequencePolicy earlier conn position
        (receivedSnapshots conn ≠ [])) ∧
      (h.NumberedAsOkx → h.Completes okxSequencePolicy earlier conn position
        (receivedSnapshots conn ≠ [])) :=
  ⟨fun hnum => horder.completes rfl hnum.next hearlier,
    fun hnum => horder.completes rfl hnum.next hearlier⟩

/-- A snapshot onto an empty buffer, then both events. -/
def pushedDelivery : List SyncInput :=
  .connected :: .snapshot ⟨"BTCUSDT", [(⟨100⟩, ⟨5⟩)], [], 1⟩ ::
    pushedHistory.events.map .depthUpdate

/-- The snapshot and both events of the pushed history on a second connection. -/
theorem pushed_resync_complete_sample :
    pushedHistory.Completes bybitSequencePolicy [.connected, .disconnected] pushedDelivery
        (some 2) (receivedSnapshots pushedDelivery ≠ []) ∧
      pushedHistory.Completes okxSequencePolicy [.connected, .disconnected] pushedDelivery
        (some 2) (receivedSnapshots pushedDelivery ≠ []) := by
  have horder : pushedHistory.PushedInOrder (some 2) pushedDelivery :=
    .update (.update (.snapshot (n := 0) (.connected .nil) (by decide) (by simp) rfl rfl) rfl) rfl
  have hearlier : Unconnected [.connected, .disconnected] := .inr ⟨[.connected], rfl⟩
  obtain ⟨hbybit, hokx⟩ := pushed_resync_complete pushedHistory hearlier horder
  exact ⟨hbybit (forall_events (by decide)), hokx (forall_events (by decide))⟩

end History

end Hermeneutic
