import Hermeneutic.Ingestion.SessionInvariant

/-!
# No symbol is stranded in buffering

A symbol that is buffering on an open connection waits for a snapshot, so one should be on
its way (`Awaited`): for a feed whose snapshots come over REST a fetch of the symbol is in
flight, for any other no snapshot of the symbol has come yet. Every place that sends a symbol
back to buffering asks for a snapshot again, and a fetch that fails is repeated in place.

What does not parse is the exception, in both shapes (`Strands`). After a response that does
not parse the coroutine returns, nothing repeats the fetch, and the symbol's request flag stays
set, so if no other fetch of the symbol is in flight it buffers until the connection drops for
another reason. A pushed snapshot message that does not parse is skipped by the read loop like
any text that is not ours, and the exchange sends no other one on the same connection. Those
are the only ways (`buffering_awaited_iff`).

For a feed with REST snapshots what is awaited is a fetch in flight, for the others the first
snapshot message of the connection. The moves that could leave a buffering symbol without either
are a rejection or a gap, which request again or drop the connection, and the two in `Strands`,
which are read off the state before the step. `Move` gives one case for each way a step can go,
and the lemma of the case says what keeps the symbol going; while no connection is up there is
nothing to show.
-/

namespace Hermeneutic

/-- If the symbol is buffering on an open connection, a snapshot of it is on its way: a fetch in
flight, or, where snapshots are pushed, a snapshot message none of which has come. -/
def SymbolAwaited (cfg : SessionConfig) (s : Session) (symbol : NativeSymbol) : Prop :=
  s.stopping = false → s.run = .reading → (s.syncs symbol).state = .buffering →
    (cfg.pair.snapshotViaRest = true →
      ∃ fetch ∈ s.snapshotSigs, fetch.symbol = symbol ∧ fetch.inFlight) ∧
    (cfg.pair.snapshotViaRest = false → s.snapshotSeen symbol = false)

/-- Every symbol that is buffering on an open connection has a snapshot on its way. -/
def Awaited (cfg : SessionConfig) (s : Session) : Prop :=
  ∀ symbol ∈ cfg.symbols, SymbolAwaited cfg s symbol

/-- What strands a buffering symbol: a response that does not parse, at its only fetch in
flight, or a pushed snapshot message of it that does not parse. -/
def Strands (cfg : SessionConfig) (s : Session) : SessionEvent → Prop
  | .fetchResponse i body =>
    ∃ fetch, s.snapshotSigs[i]? = some fetch ∧ fetch.phase = .fetching ∧ s.stopping = false ∧
      s.run = .reading ∧ (s.syncs fetch.symbol).state = .buffering ∧
      cfg.parseSnapshotResponse fetch.symbol body = none ∧ s.inFlight fetch.symbol ≤ 1
  | .read text =>
    cfg.pair.snapshotViaRest = false ∧ s.stopping = false ∧ s.run = .reading ∧
      cfg.parseMessage text = none ∧ ∃ symbol ∈ cfg.symbols,
        cfg.skippedSnapshot text = some symbol ∧ (s.syncs symbol).state = .buffering
  | _ => False

namespace Awaited

open Session

variable {cfg : SessionConfig} {s : Session}

private theorem of_not_reading (h : s.run ≠ .reading) :
    Awaited cfg s := fun _ _ _ hrun => absurd hrun h

theorem drop (s : Session) : Awaited cfg (s.drop cfg) := by
  refine of_not_reading ?_
  rw [drop_run]
  split <;> decide

theorem subscribed (hinv : SessionInv cfg s) (hrun : s.run = .subscribing) :
    Awaited cfg (s.subscribed cfg) := by
  have hne : s.run ≠ .reading := by simp [hrun]
  intro symbol hsymbol hstopping _ _
  refine ⟨fun _ => inFlight_pos.mp ?_, fun _ => ?_⟩
  · rw [inFlight_subscribed (hinv.reset hne) (by simpa using hstopping) hsymbol]
    exact Nat.succ_pos _
  · rw [subscribed_snapshotSeen]
    exact hinv.unseen hne symbol

/-- A write-back keeps the property if it holds of the symbol written. -/
theorem put {symbol : NativeSymbol} {d : Driven}
    (hothers : ∀ symbol' ∈ cfg.symbols, symbol' ≠ symbol → SymbolAwaited cfg s symbol')
    (hown : s.stopping = false → s.run = .reading → d.sync.state = .buffering →
      (cfg.pair.snapshotViaRest = true → 0 < s.inFlight symbol + d.requests.length) ∧
      (cfg.pair.snapshotViaRest = false → s.snapshotSeen symbol = false)) :
    Awaited cfg (s.put cfg symbol d) := by
  intro symbol' hsymbol' hstopping hrun hstate
  replace hstopping : s.stopping = false := hstopping
  rw [put_syncs] at hstate
  rw [← inFlight_pos, inFlight_put, put_snapshotSeen]
  by_cases heq : symbol' = symbol
  · subst heq
    rw [Function.update_self] at hstate
    rw [if_pos ⟨hstopping, rfl⟩]
    exact hown hstopping hrun hstate
  · rw [Function.update_of_ne heq] at hstate
    rw [if_neg fun hand => heq hand.2.symm, Nat.add_zero, inFlight_pos]
    exact hothers symbol' hsymbol' heq hstopping hrun hstate

theorem dispatchDepthUpdate (h : Awaited cfg s) (message : DepthUpdate) :
    Awaited cfg (s.dispatchDepthUpdate cfg message) := by
  rw [Session.dispatchDepthUpdate]
  by_cases hsymbol : message.symbol ∈ cfg.symbols
  · rw [dispatch_of_mem s hsymbol]
    have hreceived := Driven.received_depthUpdate cfg.pair.policy cfg.venue
      (s.driven cfg message.symbol) message
    generalize (s.driven cfg message.symbol).receive _ _ _ = r at hreceived ⊢
    cases hreceived with
    | quiet hstate hrequests =>
      refine put (fun symbol hmem _ => h symbol hmem) fun hstopping hrun hbuffering => ?_
      rw [hrequests, driven_requests, List.length_nil, Nat.add_zero, inFlight_pos]
      exact h _ hsymbol hstopping hrun (hstate.symm.trans hbuffering)
    | resynced htrusts _ _ hrequests =>
      refine put (fun symbol hmem _ => h symbol hmem) fun _ _ _ => ⟨fun _ => ?_, fun hpushed => ?_⟩
      · simp [hrequests]
      · exact absurd (htrusts.symm.trans (FeedPolicy.trusts_of_pushed hpushed)) (by decide)
    | forced => exact drop _
  · rw [dispatch, if_neg hsymbol]
    exact h

/-- A text may be skipped if it is no snapshot message of a buffering symbol. -/
theorem skip (h : Awaited cfg s) {text : String}
    (hnot : cfg.pair.snapshotViaRest = false → s.stopping = false → ∀ symbol ∈ cfg.symbols,
      cfg.skippedSnapshot text = some symbol → (s.syncs symbol).state ≠ .buffering) :
    Awaited cfg (s.skip cfg text) := by
  have hseen := skip_snapshotSeen cfg s text
  obtain ⟨seen, hskip⟩ := skip_eq cfg s text
  rw [hskip] at hseen ⊢
  intro symbol hsymbol hstopping hrun hstate
  obtain ⟨hrest, hpushed⟩ := h symbol hsymbol hstopping hrun hstate
  refine ⟨hrest, fun hviaRest => (hseen symbol).trans ?_⟩
  rw [if_neg fun hskipped => hnot hviaRest hstopping symbol hsymbol hskipped hstate]
  exact hpushed hviaRest

theorem dispatchSnapshot (h : Awaited cfg s) (hpushed : cfg.pair.snapshotViaRest = false)
    (message : SnapshotMessage) : Awaited cfg (s.dispatchSnapshot cfg message) := by
  have htrusts := FeedPolicy.trusts_of_pushed hpushed
  generalize hseen : ({ s with snapshotSeen := Function.update s.snapshotSeen message.symbol true }
    : Session) = s'
  -- The symbol of the message is live afterwards, or the connection is dropped.
  have hothers : ∀ symbol ∈ cfg.symbols, symbol ≠ message.symbol → SymbolAwaited cfg s' symbol := by
    subst hseen
    intro symbol hsymbol hne hstopping hrun hstate
    obtain ⟨hrest, hseen⟩ := h symbol hsymbol hstopping hrun hstate
    exact ⟨hrest, fun hpushed => (Function.update_of_ne hne _ _).trans (hseen hpushed)⟩
  rw [Session.dispatchSnapshot, hseen]
  by_cases hsymbol : message.symbol ∈ cfg.symbols
  · rw [dispatch_of_mem _ hsymbol]
    have hreceived := Driven.received_snapshot cfg.pair.policy cfg.venue
      (s'.driven cfg message.symbol) message
    generalize (s'.driven cfg message.symbol).receive _ _ _ = r at hreceived ⊢
    cases hreceived with
    | synced hstate =>
      refine put hothers fun _ _ hbuffering => ?_
      exact absurd (hstate.symm.trans hbuffering) (by decide)
    | retried htrusts' | resynced htrusts' =>
      exact absurd (htrusts.symm.trans htrusts') (by decide)
    | forced => exact drop _
  · rw [dispatch, if_neg hsymbol]
    exact fun symbol hmem => hothers symbol hmem fun heq => hsymbol (heq ▸ hmem)

/-- A fetch may end if another one of its symbol is in flight. -/
theorem setFetch (h : Awaited cfg s) {i : ℕ} {fetch : Fetch}
    (hfetch : s.snapshotSigs[i]? = some fetch) (hinFlight : fetch.inFlight) {phase : FetchPhase}
    (hother : phase = .finished → cfg.pair.snapshotViaRest = true → s.stopping = false →
      s.run = .reading → (s.syncs fetch.symbol).state = .buffering →
      1 < s.inFlight fetch.symbol) : Awaited cfg (s.setFetch i fetch phase) := by
  intro symbol hsymbol hstopping hrun hstate
  obtain ⟨hrest, hpushed⟩ := h symbol hsymbol hstopping hrun hstate
  refine ⟨fun hviaRest => inFlight_pos.mp ?_, hpushed⟩
  have hpos := inFlight_pos.mpr (hrest hviaRest)
  have hcount := inFlight_setFetch hfetch phase symbol
  by_cases hsame : fetch.symbol = symbol
  · subst hsame
    by_cases hphase : phase = .finished
    · have := hother hphase hviaRest hstopping hrun hstate
      simp only [hinFlight, hphase, ne_eq, not_true, and_self, and_false, if_true,
        if_false] at hcount ⊢
      omega
    · simp only [hinFlight, hphase, ne_eq, not_false_iff, and_self, if_true] at hcount
      omega
  · simp only [hsame, false_and, if_false] at hcount
    omega

theorem answered (h : Awaited cfg s) (hinv : SessionInv cfg s) {i : ℕ} {fetch : Fetch}
    (hfetch : s.snapshotSigs[i]? = some fetch) (hphase : fetch.phase = .fetching)
    (snapshot : SnapshotMessage) :
    Awaited cfg ((s.setFetch i fetch .finished).onFetched cfg fetch.symbol snapshot) := by
  have hfetchInv := hinv.fetch_of_getElem? hfetch
  have hrest := hfetchInv.viaRest (.inl hphase)
  rw [onFetched_of_mem _ hrest hfetchInv.ours]
  refine put (fun symbol hmem hne hstopping hrun hstate => ?_) fun _ _ hbuffering => ?_
  · obtain ⟨hfetches, hpushed⟩ := h symbol hmem hstopping hrun hstate
    have hcount := inFlight_setFetch hfetch .finished symbol
    simp only [hne.symm, false_and, if_false, Nat.add_zero] at hcount
    refine ⟨fun hviaRest => inFlight_pos.mp ?_, hpushed⟩
    rw [hcount]
    exact inFlight_pos.mpr (hfetches hviaRest)
  · refine ⟨fun _ => ?_, fun hpushed => absurd (hrest.symm.trans hpushed) (by decide)⟩
    have hreceived := Driven.received_snapshot cfg.pair.policy cfg.venue
      ((s.setFetch i fetch .finished).driven cfg fetch.symbol) snapshot
    generalize ((s.setFetch i fetch .finished).driven cfg fetch.symbol).receive _ _ _ = r
      at hreceived hbuffering ⊢
    cases hreceived with
    | synced hstate => exact absurd (hstate.symm.trans hbuffering) (by decide)
    | retried => simp
    | resynced _ _ _ hrequests => simp [hrequests]
    | forced htrusts =>
      exact absurd ((FeedPolicy.trusts_of_viaRest hrest).symm.trans htrusts) (by decide)

/-- **Step lemma.** -/
theorem step (h : Awaited cfg s) (hinv : SessionInv cfg s) {event : SessionEvent}
    (hnot : ¬ Strands cfg s event) : Awaited cfg (s.step cfg event).1 := by
  have hmove := @step_move cfg s event
  generalize (s.step cfg event).1 = t at hmove
  cases hmove with
  | ignored => exact h
  | run hmove => exact of_not_reading hmove.down.2
  | stop => exact fun _ _ hstopping => absurd hstopping (by simp [Session.stop])
  | drop => exact drop s
  | subscribed hrun => exact subscribed hinv hrun
  | skipped hrun _ hparse =>
    refine h.skip fun hpushed hstopping symbol hmem hskipped hstate => hnot ?_
    exact ⟨hpushed, hstopping, hrun, hparse, symbol, hmem, hskipped, hstate⟩
  | @snapshotMessage text message _ _ hparse =>
    refine h.dispatchSnapshot ?_ message
    by_contra hrest
    exact cfg.rest_pushes_none (by simpa using hrest) text message hparse
  | depthMessage => exact h.dispatchDepthUpdate _
  | @fetch event i fetch phase hfetch hmove =>
    have hcancelled := (hinv.fetch_of_getElem? hfetch).cancelled
    refine h.setFetch hfetch hmove.inFlight fun hphase hrest hstopping hrun hstate => ?_
    cases hmove with
    | skip _ hwhy => simp [hrest, hstopping] at hwhy
    | discard hfetching hwhy =>
      by_contra hle
      exact hnot ⟨fetch, hfetch, hfetching, hstopping, hrun, hstate,
        hwhy.resolve_left (by simp [hstopping]), Nat.not_lt.mp hle⟩
    | abort _ hlatched => exact absurd (hcancelled hlatched) (by simp [hstopping])
    | giveUp _ hwhy =>
      rcases hwhy with hlatched | hstopped
      · exact absurd (hcancelled hlatched) (by simp [hstopping])
      · exact absurd hstopped (by simp [hstopping])
    | _ => exact absurd hphase (by decide)
  | answered hfetch hphase => exact h.answered hinv hfetch hphase _
  | erased hfetch hphase =>
    intro symbol hsymbol hstopping hrun hstate
    rw [← inFlight_pos, inFlight_eraseIdx hfetch hphase, inFlight_pos]
    exact h symbol hsymbol hstopping hrun hstate
  | otherCall => exact h

/-- After the step nothing is on its way. -/
private theorem not_of_strands (hinv : SessionInv cfg s) {event : SessionEvent}
    (hlast : Strands cfg s event) : ¬ Awaited cfg (s.step cfg event).1 := by
  cases event with
  | fetchResponse i body =>
    obtain ⟨fetch, hfetch, hphase, hstopping, hrun, hstate, hparse, hone⟩ := hlast
    have hfetchInv := hinv.fetch_of_getElem? hfetch
    have hstep : (s.step cfg (.fetchResponse i body)).1 = s.setFetch i fetch .finished := by
      simp [Session.step, hfetch, fetchStep, hphase, onBody, Session.setFetch, hparse]
    rw [hstep]
    intro h
    have hpos := inFlight_pos.mpr
      ((h fetch.symbol hfetchInv.ours hstopping hrun hstate).1 (hfetchInv.viaRest (.inl hphase)))
    have hcount := inFlight_setFetch hfetch .finished fetch.symbol
    simp only [Fetch.inFlight, hphase, true_and, ne_eq, reduceCtorEq, not_false_iff,
      decide_true, if_true, not_true, if_false] at hcount
    omega
  | read text =>
    obtain ⟨hpushed, hstopping, hrun, hparse, symbol, hsymbol, hskipped, hstate⟩ := hlast
    have hcancelled : s.runCancelled = false :=
      Bool.eq_false_iff.mpr fun hlatched =>
        absurd (hstopping.symm.trans (hinv.latched hlatched)) (by decide)
    have hstep : (s.step cfg (.read text)).1 =
        { s with snapshotSeen := Function.update s.snapshotSeen symbol true } := by
      simp [Session.step, runStep, hrun, unlessCancelled, hcancelled, onText, hparse,
        Session.skip, hskipped]
    rw [hstep]
    intro h
    have hunseen := (h symbol hsymbol hstopping hrun hstate).2 hpushed
    exact absurd ((Function.update_self symbol true s.snapshotSeen).symm.trans hunseen) (by decide)
  | _ => exact absurd hlast id

end Awaited

/-- **No symbol is stranded in buffering**, in every state of a run, exactly when no step of
the run is an unparsable response to the only fetch in flight of a buffering symbol, or skips
a pushed snapshot message of a buffering symbol that does not parse. -/
theorem buffering_awaited_iff (cfg : SessionConfig) (events : List SessionEvent) :
    (sessionMachine cfg).Always (Awaited cfg) {} events ↔
      (sessionMachine cfg).Throughout (fun s event => ¬ Strands cfg s event) {} events := by
  refine Machine.always_iff_throughout (M := sessionMachine cfg)
    (I := fun s => SessionInv cfg s ∧ Awaited cfg s)
    ⟨SessionInv.init, Awaited.of_not_reading (by decide)⟩ (fun _ h => h.2)
    (fun _ event h hnot => ⟨h.1.step event, h.2.step h.1 hnot⟩) fun _ _ h hlast => ?_
  exact Awaited.not_of_strands h.1 (not_not.mp hlast)

/-- A connect, and a response without a snapshot to the one fetch. -/
def unparsedResponseRun : List SessionEvent :=
  [.start, .startRun, .runBegin, .connectOk, .sendOk, .fetchBegin 0, .fetchResponse 0 "[]"]

/-- That run ends with the connection open, the symbol buffering and no fetch in flight. -/
theorem buffering_awaited_counterexample :
    ¬ (sessionMachine (oneSymbol fun _ _ => none)).Always (Awaited (oneSymbol fun _ _ => none)) {}
      unparsedResponseRun := by
  intro h
  have hnone : ((sessionMachine (oneSymbol fun _ _ => none)).state {}
      unparsedResponseRun).inFlight "BTCUSDT" = 0 := by decide
  have hpos := Session.inFlight_pos.mpr
    ((h.last "BTCUSDT" (by decide) (by decide) (by decide) (by decide)).1 rfl)
  omega

end Hermeneutic
