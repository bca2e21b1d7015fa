import Hermeneutic.Ingestion.SessionInvariant

/-!
# Snapshot requests of a feed whose snapshots come over REST

A snapshot should be requested only while the symbol is buffering on an open connection, with
at most one fetch of a symbol in flight and none once the symbol is live (`OnlyWhenNeeded`).
The flag `snapshot_requested_` is what keeps a second request from being made.

A disconnect clears that flag and leaves the fetch running. If the fetch is still in flight
when the next connection is subscribed, the symbol has two; if its response comes while the
connection is down, `on_snapshot()` finds nothing to bridge it and requests another one there
and then. Either is a fetch that has outlived its connection (`Outlived`), and without one
the property holds (`requests_onlyWhenNeeded_iff`).

The exact condition is a statement about runs in both directions. As long as no fetch outlives its
connection, every move keeps `OnlyWhenNeeded`: a request sets the flag, only a disconnect clears
it, and by the next subscription the fetch of the last one is over. If one does outlive it, that
very step breaks the property, with two fetches in flight or a request issued while nothing is up.
Whether a fetch outlives its connection is read off the state before the step, so the condition
names nothing the step computes.
-/

namespace Hermeneutic

/-- At most one fetch of the symbol is in flight, and none while it is live. -/
def SingleFetch (s : Session) (symbol : NativeSymbol) : Prop :=
  s.inFlight symbol ≤ 1 ∧ ((s.syncs symbol).state = .live → s.inFlight symbol = 0)

/-- Every request was issued while buffering on an open connection, and no symbol has a fetch
too many. -/
def OnlyWhenNeeded (cfg : SessionConfig) (s : Session) : Prop :=
  (∀ request ∈ s.requested, request.state = .buffering ∧ request.up = true) ∧
    ∀ symbol ∈ cfg.symbols, SingleFetch s symbol

/-- A fetch requested on an earlier connection is still in flight when the next one is
subscribed, or is answered with a snapshot while the connection is down. -/
def Outlived (cfg : SessionConfig) (s : Session) : SessionEvent → Prop
  | .sendOk => s.run = .subscribing ∧ s.runCancelled = false ∧
      ∃ fetch ∈ s.snapshotSigs, fetch.inFlight
  | .fetchResponse i body => s.run ≠ .reading ∧ s.stopping = false ∧
      ∃ fetch, s.snapshotSigs[i]? = some fetch ∧ fetch.phase = .fetching ∧
        cfg.parseSnapshotResponse fetch.symbol body ≠ none
  | _ => False

namespace OnlyWhenNeeded

open Session

variable {cfg : SessionConfig} {s : Session}

theorem init : OnlyWhenNeeded cfg {} :=
  ⟨by simp, fun _ _ => ⟨Nat.zero_le _, fun _ => rfl⟩⟩

theorem drop (h : OnlyWhenNeeded cfg s) : OnlyWhenNeeded cfg (s.drop cfg) := by
  refine ⟨by simpa using h.1, fun symbol hsymbol => ⟨?_, fun hlive => ?_⟩⟩
  · simpa using (h.2 symbol hsymbol).1
  · rw [drop_syncs s hsymbol] at hlive
    exact absurd hlive (by decide)

theorem subscribed (h : OnlyWhenNeeded cfg s) (hinv : SessionInv cfg s)
    (hrun : s.run = .subscribing) (hcancelled : s.runCancelled = false)
    (hnone : ¬ ∃ fetch ∈ s.snapshotSigs, fetch.inFlight) :
    OnlyWhenNeeded cfg (s.subscribed cfg) := by
  have hreset := hinv.reset (by simp [hrun])
  have hstopping := hinv.running (by rw [hrun]; rfl) hcancelled
  refine ⟨fun request hmem => ?_, fun symbol hsymbol => ⟨?_, fun hlive => ?_⟩⟩
  · rw [subscribed_requested hreset] at hmem
    rcases List.mem_append.mp hmem with hmem | hmem
    · exact h.1 request hmem
    · obtain ⟨symbol, -, rfl⟩ := List.mem_map.mp hmem
      exact ⟨rfl, rfl⟩
  · have hzero : s.inFlight symbol = 0 := by
      refine Nat.eq_zero_of_not_pos fun hpos => ?_
      obtain ⟨fetch, hmem, -, hinFlight⟩ := inFlight_pos.mp hpos
      exact hnone ⟨fetch, hmem, hinFlight⟩
    rw [inFlight_subscribed hreset hstopping hsymbol, hzero]
  · rw [subscribed_state hreset hsymbol] at hlive
    exact absurd hlive (by decide)

/-- A symbol may be written back without a request, or with one on an open connection if it
is buffering and has no fetch in flight. -/
theorem put (hrequested : ∀ request ∈ s.requested, request.state = .buffering ∧ request.up = true)
    {symbol : NativeSymbol} {d : Driven}
    (hothers : ∀ symbol' ∈ cfg.symbols, symbol' ≠ symbol → SingleFetch s symbol')
    (hown : d.requests = [] ∧ s.inFlight symbol ≤ 1 ∧
        (d.sync.state = .live → s.inFlight symbol = 0) ∨
      s.run = .reading ∧ d.requests = [.buffering] ∧ s.inFlight symbol = 0 ∧
        d.sync.state = .buffering) :
    OnlyWhenNeeded cfg (s.put cfg symbol d) := by
  refine ⟨fun request hmem => ?_, fun symbol' hsymbol' => ?_⟩
  · rw [put_requested] at hmem
    rcases List.mem_append.mp hmem with hmem | hmem
    · exact hrequested request hmem
    · rcases hown with ⟨hrequests, -⟩ | ⟨hrun, hrequests, -⟩
      · simp [hrequests] at hmem
      · rw [hrequests, List.map_singleton, List.mem_singleton] at hmem
        subst hmem
        exact ⟨rfl, by simp [hrun]⟩
  · rw [SingleFetch, inFlight_put, put_syncs]
    by_cases heq : symbol' = symbol
    · subst heq
      rw [Function.update_self]
      rcases hown with ⟨hrequests, hle, hlive⟩ | ⟨-, hrequests, hzero, hstate⟩
      · rw [hrequests, List.length_nil, ite_self, Nat.add_zero]
        exact ⟨hle, hlive⟩
      · rw [hzero, hrequests, hstate]
        refine ⟨?_, fun hlive => absurd hlive (by decide)⟩
        split <;> simp
    · rw [Function.update_of_ne heq, if_neg fun hand => heq hand.2.symm]
      exact hothers symbol' hsymbol' heq

theorem dispatchDepthUpdate (h : OnlyWhenNeeded cfg s)
    (hrest : cfg.pair.snapshotViaRest = true) (hrun : s.run = .reading) (message : DepthUpdate) :
    OnlyWhenNeeded cfg (s.dispatchDepthUpdate cfg message) := by
  rw [Session.dispatchDepthUpdate]
  by_cases hsymbol : message.symbol ∈ cfg.symbols
  · rw [dispatch_of_mem s hsymbol]
    have hreceived := Driven.received_depthUpdate cfg.pair.policy cfg.venue
      (s.driven cfg message.symbol) message
    obtain ⟨hle, hlive⟩ := h.2 message.symbol hsymbol
    generalize (s.driven cfg message.symbol).receive _ _ _ = r at hreceived ⊢
    cases hreceived with
    | quiet hstate hrequests =>
      exact put h.1 (fun symbol hmem _ => h.2 symbol hmem)
        (.inl ⟨hrequests, hle, fun hnow => hlive (hstate.symm.trans hnow)⟩)
    | resynced _ hinput hstate hrequests =>
      exact put h.1 (fun symbol hmem _ => h.2 symbol hmem)
        (.inr ⟨hrun, hrequests, hlive (hinput message rfl), hstate⟩)
    | forced htrusts =>
      exact absurd ((FeedPolicy.trusts_of_viaRest hrest).symm.trans htrusts) (by decide)
  · rw [dispatch, if_neg hsymbol]
    exact h

/-- A fetch that moves on stays the only one. -/
private theorem inFlight_setFetch_le {i : ℕ} {fetch : Fetch}
    (hfetch : s.snapshotSigs[i]? = some fetch) (hinFlight : fetch.inFlight) (phase : FetchPhase)
    (symbol : NativeSymbol) : (s.setFetch i fetch phase).inFlight symbol ≤ s.inFlight symbol := by
  have hcount := inFlight_setFetch hfetch phase symbol
  by_cases hsame : fetch.symbol = symbol
  · simp only [hsame, hinFlight, true_and, and_self, if_true] at hcount
    split at hcount <;> omega
  · simp only [hsame, false_and, if_false] at hcount
    exact hcount.le

theorem setFetch (h : OnlyWhenNeeded cfg s) {i : ℕ} {fetch : Fetch}
    (hfetch : s.snapshotSigs[i]? = some fetch) (hinFlight : fetch.inFlight)
    (phase : FetchPhase) : OnlyWhenNeeded cfg (s.setFetch i fetch phase) := by
  refine ⟨h.1, fun symbol hsymbol => ?_⟩
  obtain ⟨hle, hlive⟩ := h.2 symbol hsymbol
  have hcount := inFlight_setFetch_le hfetch hinFlight phase symbol
  exact ⟨hcount.trans hle, fun hnow => Nat.eq_zero_of_le_zero (hcount.trans (hlive hnow).le)⟩

theorem answered (h : OnlyWhenNeeded cfg s) (hinv : SessionInv cfg s)
    (hrun : s.run = .reading) {i : ℕ} {fetch : Fetch}
    (hfetch : s.snapshotSigs[i]? = some fetch) (hphase : fetch.phase = .fetching)
    (snapshot : SnapshotMessage) :
    OnlyWhenNeeded cfg ((s.setFetch i fetch .finished).onFetched cfg fetch.symbol snapshot) := by
  have hfetchInv := hinv.fetch_of_getElem? hfetch
  have hrest := hfetchInv.viaRest (.inl hphase)
  have hinFlight : fetch.inFlight := by simp [Fetch.inFlight, hphase]
  have hset := h.setFetch hfetch hinFlight .finished
  -- It was the only fetch, so the symbol is buffering and has none left.
  obtain ⟨hle, hlive⟩ := h.2 fetch.symbol hfetchInv.ours
  have hcount := inFlight_setFetch hfetch .finished fetch.symbol
  simp only [hinFlight, ne_eq, not_true, and_self, and_false, if_true, if_false,
    Nat.add_zero] at hcount
  have hzero : (s.setFetch i fetch .finished).inFlight fetch.symbol = 0 := by omega
  have hbuffering : (s.syncs fetch.symbol).state = .buffering := by
    cases hstate : (s.syncs fetch.symbol).state with
    | buffering => rfl
    | live =>
      have := hlive hstate
      omega
  rw [onFetched_of_mem _ hrest hfetchInv.ours]
  have hreceived := Driven.received_snapshot cfg.pair.policy cfg.venue
    ((s.setFetch i fetch .finished).driven cfg fetch.symbol) snapshot
  generalize ((s.setFetch i fetch .finished).driven cfg fetch.symbol).receive _ _ _ = r
    at hreceived ⊢
  cases hreceived with
  | synced _ hrequests =>
    exact put hset.1 (fun symbol hmem _ => hset.2 symbol hmem)
      (.inl ⟨hrequests, hzero.le.trans (Nat.zero_le 1), fun _ => hzero⟩)
  | retried =>
    exact put hset.1 (fun symbol hmem _ => hset.2 symbol hmem)
      (.inr ⟨hrun, congrArg (fun state => [state]) hbuffering, hzero, hbuffering⟩)
  | resynced _ _ hstate hrequests =>
    exact put hset.1 (fun symbol hmem _ => hset.2 symbol hmem)
      (.inr ⟨hrun, hrequests, hzero, hstate⟩)
  | forced htrusts =>
    exact absurd ((FeedPolicy.trusts_of_viaRest hrest).symm.trans htrusts) (by decide)

/-- **Step lemma.** -/
theorem step (h : OnlyWhenNeeded cfg s) (hinv : SessionInv cfg s)
    (hrest : cfg.pair.snapshotViaRest = true) {event : SessionEvent}
    (hnot : ¬ Outlived cfg s event) : OnlyWhenNeeded cfg (s.step cfg event).1 := by
  have hmove := @step_move cfg s event
  generalize (s.step cfg event).1 = t at hmove
  cases hmove with
  | ignored | run | otherCall => exact h
  | @skipped text =>
    obtain ⟨seen, hskip⟩ := skip_eq cfg s text
    rw [hskip]
    exact h
  | stop =>
    refine ⟨h.1, fun symbol hsymbol => ?_⟩
    rw [SingleFetch, inFlight_stop]
    exact h.2 symbol hsymbol
  | drop => exact h.drop
  | subscribed hrun hcancelled =>
    exact h.subscribed hinv hrun hcancelled fun hexists => hnot ⟨hrun, hcancelled, hexists⟩
  | snapshotMessage _ _ hparse => exact absurd hparse (cfg.rest_pushes_none hrest _ _)
  | depthMessage hrun => exact h.dispatchDepthUpdate hrest hrun _
  | fetch hfetch hmove => exact h.setFetch hfetch hmove.inFlight _
  | answered hfetch hphase hstopping hparse =>
    refine h.answered hinv ?_ hfetch hphase _
    by_contra hrun
    exact hnot ⟨hrun, hstopping, _, hfetch, hphase, by simp [hparse]⟩
  | erased hfetch hphase =>
    refine ⟨h.1, fun symbol hsymbol => ?_⟩
    rw [SingleFetch, inFlight_eraseIdx hfetch hphase]
    exact h.2 symbol hsymbol

/-- A fetch that outlives its connection leaves a fetch too many, or a request too many. -/
private theorem not_of_outlived (hinv : SessionInv cfg s) (hrest : cfg.pair.snapshotViaRest = true)
    {event : SessionEvent} (hout : Outlived cfg s event) :
    ¬ OnlyWhenNeeded cfg (s.step cfg event).1 := by
  cases event with
  | sendOk =>
    obtain ⟨hrun, hcancelled, fetch, hmem, hinFlight⟩ := hout
    have hstep : (s.step cfg .sendOk).1 = s.subscribed cfg := by
      simp [Session.step, runStep, hrun, unlessCancelled, hcancelled]
    have hours := (hinv.fetches fetch hmem).ours
    have hpos := inFlight_pos.mpr ⟨fetch, hmem, rfl, hinFlight⟩
    intro h
    have hle := (h.2 fetch.symbol hours).1
    rw [hstep, inFlight_subscribed (hinv.reset (by simp [hrun]))
      (hinv.running (by rw [hrun]; rfl) hcancelled) hours] at hle
    omega
  | fetchResponse i body =>
    obtain ⟨hrun, hstopping, fetch, hfetch, hphase, hparse⟩ := hout
    obtain ⟨snapshot, hparse⟩ := Option.ne_none_iff_exists'.mp hparse
    have hours := (hinv.fetch_of_getElem? hfetch).ours
    have hsync := hinv.reset hrun fetch.symbol hours
    have hstep : (s.step cfg (.fetchResponse i body)).1 =
        (s.setFetch i fetch .finished).onFetched cfg fetch.symbol snapshot := by
      simp [Session.step, hfetch, fetchStep, hphase, onBody, Session.setFetch, hstopping, hparse]
    intro h
    rw [hstep, onFetched_of_mem _ hrest hours,
      Driven.receive_snapshot_of_reset (FeedPolicy.trusts_of_viaRest hrest) hsync] at h
    have hup := (h.1 ⟨fetch.symbol, .buffering, s.run = .reading⟩
      (by rw [put_requested]; exact List.mem_append_right _ (List.mem_singleton.mpr rfl))).2
    exact hrun (of_decide_eq_true hup)
  | _ => exact absurd hout id

end OnlyWhenNeeded

/-- **Snapshots are requested only when needed**, in every state of a run of a feed whose
snapshots come over REST, exactly when no fetch of the run outlives its connection. -/
theorem requests_onlyWhenNeeded_iff (cfg : SessionConfig)
    (hrest : cfg.pair.snapshotViaRest = true) (events : List SessionEvent) :
    (sessionMachine cfg).Always (OnlyWhenNeeded cfg) {} events ↔
      (sessionMachine cfg).Throughout (fun s event => ¬ Outlived cfg s event) {} events := by
  refine Machine.always_iff_throughout (M := sessionMachine cfg)
    (I := fun s => SessionInv cfg s ∧ OnlyWhenNeeded cfg s)
    ⟨SessionInv.init, OnlyWhenNeeded.init⟩ (fun _ h => h.2)
    (fun _ event h hnot => ⟨h.1.step event, h.2.step h.1 hrest hnot⟩) fun _ _ h hout => ?_
  exact OnlyWhenNeeded.not_of_outlived h.1 hrest (not_not.mp hout)

/-- The property along a run in which a fetch fails once and is repeated. -/
theorem requests_onlyWhenNeeded_sample :
    (sessionMachine (oneSymbol fun _ _ => none)).Always
      (OnlyWhenNeeded (oneSymbol fun _ _ => none)) {}
      [.start, .startRun, .runBegin, .connectOk, .sendOk, .fetchBegin 0, .fetchFailed 0,
        .fetchBackoffEnded 0] := by
  refine (requests_onlyWhenNeeded_iff (oneSymbol fun _ _ => none) rfl _).mpr ?_
  simp only [Machine.throughout_cons, Machine.throughout_nil, and_true]
  refine ⟨id, id, id, id, ?_, id, id, id⟩
  rintro ⟨-, -, _, hmem, -⟩
  exact List.not_mem_nil hmem

/-- The connection drops with the fetch in flight, and is back before it is answered. -/
def overlappingFetchRun : List SessionEvent :=
  [.start, .startRun, .runBegin, .connectOk, .sendOk, .fetchBegin 0, .readFailed, .backoffEnded,
    .connectOk, .sendOk]

/-- That run ends with two fetches of the symbol in flight. -/
theorem requests_onlyWhenNeeded_counterexample :
    ¬ (sessionMachine (oneSymbol fun _ _ => none)).Always
      (OnlyWhenNeeded (oneSymbol fun _ _ => none)) {} overlappingFetchRun := by
  intro h
  have htwo : ((sessionMachine (oneSymbol fun _ _ => none)).state {}
      overlappingFetchRun).inFlight "BTCUSDT" = 2 := by decide
  have hle := (h.last.2 "BTCUSDT" (by decide)).1
  omega

end Hermeneutic
