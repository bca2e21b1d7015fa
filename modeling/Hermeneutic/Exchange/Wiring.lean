import Hermeneutic.Exchange.GapFree

/-!
# Which policy serves which venue

The server wires every venue to one feed and policy (the `wire_venue` calls of
`apps/aggregator/server_main.cpp`). What an exchange documents of its numbering and of its
snapshots is a property of the venue, so it is stated here once for all of them, together with
what the previous modules prove of each: a live symbol of any venue shows a true book
(`wiredPolicy_tracks`), and a connection that loses nothing brings it up to date
(`Delivered.caughtUp`).
-/

namespace Hermeneutic

/-- The policy the server instantiates a venue's session with. -/
def wiredPolicy (venue : VenueId) : SequencePolicy :=
  match venue.exchange, venue.type with
  | .binance, .spot => binanceSpotSequencePolicy
  | .binance, .perp => binanceFuturesSequencePolicy
  | .bybit, _ => bybitSequencePolicy
  | .okx, _ => okxSequencePolicy

/-- A symbol that is not live has taken its book away. -/
theorem bookOf_of_buffering (policy : SequencePolicy) (inputs : List SyncInput)
    (hbuffering : ((syncMachine policy).state {} inputs).state = .buffering) :
    bookOf ((syncMachine policy).output {} inputs) = none := by
  induction inputs using List.reverseRecOn with
  | nil => rfl
  | append_singleton inputs input ih =>
    obtain ⟨events, hevents, hstep⟩ := step_syncStep policy
      ((syncMachine policy).state {} inputs) input
    rw [Machine.state_concat] at hbuffering
    have hout : (syncMachine policy).output {} (inputs ++ [input]) =
        (syncMachine policy).output {} inputs ++ events.map SyncEvent.action := by
      rw [Machine.output_concat, ← hevents]
      rfl
    have hinvalidated : ∀ events' : List SyncEvent, events = events' ++ [.invalidateVenue] →
        bookOf ((syncMachine policy).output {} (inputs ++ [input])) = none := by
      rintro events' rfl
      rw [hout, List.map_append, ← List.append_assoc, bookOf_append]
      rfl
    have hsame : bookOps (events.map SyncEvent.action) = [] →
        ((syncMachine policy).state {} inputs).state = .buffering →
        bookOf ((syncMachine policy).output {} (inputs ++ [input])) = none := by
      intro hnone hbefore
      rw [hout, bookOf_append, hnone]
      exact ih hbefore
    change (SymbolSync.step policy ((syncMachine policy).state {} inputs) input).1.state = _
      at hbuffering
    generalize (SymbolSync.step policy ((syncMachine policy).state {} inputs) input).1 = sync'
      at hstep hbuffering
    cases hstep with
    | request | noRequest | buffered => exact hsame rfl hbuffering
    | delta hlive => exact absurd (hlive.symm.trans hbuffering) (by decide)
    | deltaGap | noBridgeGap | disconnected => exact hinvalidated [] rfl
    | goLive | bridged => exact absurd hbuffering (by simp)
    | retry => exact hsame rfl hbuffering
    | @bridgedGap snapshot _ applied _ bridge =>
      exact hinvalidated (.applySnapshot snapshot :: (bridge :: applied).map .applyDelta) rfl

namespace History

variable (h : History)

/-- The events are numbered as the venue documents. -/
def NumberedFor (venue : VenueId) : Prop :=
  match venue.exchange, venue.type with
  | .binance, .spot => h.NumberedAsSpot
  | .binance, .perp => h.NumberedAsFutures
  | .bybit, _ => h.NumberedAsBybit
  | .okx, _ => h.NumberedAsOkx

/-- The snapshot is one the venue can send: an answer to a REST request, or one pushed over
the stream. -/
def SnapshotFor (venue : VenueId) : SnapshotMessage → Prop :=
  match venue.exchange with
  | .binance => h.RestSnapshot
  | _ => h.PushedSnapshot

/-- The calls of a connection that lost nothing up to event `n`, and has seen a snapshot it
could start from. -/
def Delivered (venue : VenueId) (n : ℕ) (conn : List SyncInput) : Prop :=
  match venue.exchange with
  | .binance => (∃ start, h.GapFree start n conn) ∧ Bridgeable (wiredPolicy venue) conn
  | _ => h.PushedInOrder (some n) conn

variable {h}

/-- **Any venue's live symbol shows a true book.** -/
theorem wiredPolicy_tracks {venue : VenueId} (hnum : h.NumberedFor venue) :
    Tracks (wiredPolicy venue) h.IsTrue (· ∈ h.events) (h.SnapshotFor venue) := by
  obtain ⟨exchange, type⟩ := venue
  match exchange, type, hnum with
  | .binance, .spot, hnum => exact spot_tracks hnum
  | .binance, .perp, hnum => exact futures_tracks hnum
  | .bybit, .spot, hnum | .bybit, .perp, hnum => exact bybit_tracks hnum
  | .okx, .spot, hnum | .okx, .perp, hnum => exact okx_tracks hnum

private theorem PushedInOrder.receivedSnapshots_ne_nil {position : Option ℕ} {conn : List SyncInput}
    (horder : h.PushedInOrder position conn) (hposition : position.isSome) :
    receivedSnapshots conn ≠ [] := by
  induction horder with
  | nil => simp at hposition
  | connected _ ih =>
    rw [receivedSnapshots_append]
    exact List.append_ne_nil_of_left_ne_nil (ih hposition) _
  | snapshot => simp [receivedSnapshots]
  | update _ _ ih =>
    rw [receivedSnapshots_append]
    exact List.append_ne_nil_of_left_ne_nil (ih rfl) _

/-- **Any venue's symbol catches up** on a connection that loses nothing, whatever came
before. -/
theorem Delivered.caughtUp {venue : VenueId} (hnum : h.NumberedFor venue) {n : ℕ}
    {earlier conn : List SyncInput} (hearlier : Unconnected earlier)
    (hdelivered : h.Delivered venue n conn) :
    ((syncMachine (wiredPolicy venue)).state {} (earlier ++ conn)).state = .live ∧
      h.CaughtUp (wiredPolicy venue) (earlier ++ conn) n := by
  have hcatches : ∀ {policy : SequencePolicy} {Synced : Prop}, Synced →
      h.Completes policy earlier conn (some n) Synced →
      ((syncMachine policy).state {} (earlier ++ conn)).state = .live ∧
        h.CaughtUp policy (earlier ++ conn) n := by
    intro policy Synced hsynced hcompletes
    have hlive := hcompletes.live_iff.mpr hsynced
    obtain ⟨m, hm, hcaught⟩ := hcompletes.caughtUp hlive
    exact ⟨hlive, Option.some.inj hm ▸ hcaught⟩
  obtain ⟨exchange, type⟩ := venue
  match exchange, type, hnum, hdelivered with
  | .binance, .spot, hnum, ⟨⟨_, hgap⟩, hbridge⟩ =>
    exact hcatches hbridge (hnum.restPolicy.completes hearlier hgap)
  | .binance, .perp, hnum, ⟨⟨_, hgap⟩, hbridge⟩ =>
    exact hcatches hbridge (hnum.restPolicy.completes hearlier hgap)
  | .bybit, .spot, hnum, horder | .bybit, .perp, hnum, horder =>
    exact hcatches (horder.receivedSnapshots_ne_nil rfl)
      (horder.completes rfl hnum.next hearlier)
  | .okx, .spot, hnum, horder | .okx, .perp, hnum, horder =>
    exact hcatches (horder.receivedSnapshots_ne_nil rfl)
      (horder.completes rfl hnum.next hearlier)

end History

end Hermeneutic
