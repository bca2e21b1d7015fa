import Hermeneutic.Exchange.Wiring
import Hermeneutic.Ingestion.SessionMoves

/-!
# What a session writes is true

A session covers many symbols on one connection. It connects, drops, forces reconnects on its
own, fetches snapshots in the background whose answers may come one or several connections
later, and shares its books with the other venues' sessions. This module shows that none of it
matters to the truth of a symbol's book, as long as the messages are the exchange's
(`Hears`).

The invariant forgets everything but the calls on each symbol's `SymbolSync` (`Driven.Fed`):
they left it in the state it is in, and the venue's calls on the symbol's book are its actions.
A batch of valid calls is made as it stands (`executeActions_of_valid`), so that a message is
one such call, followed on a gap by a connect or by the disconnect of a drop. What a live
`SymbolSync` then shows is the result of the exchange's layer.

`Hears` is a condition on the next event and the state it meets, because the answer to a fetch
counts as a message of the symbol it was requested for; the theorem asks for it throughout a run.
The invariant is then kept move by move: a drop disconnects every symbol, a subscription connects
every one, a message is one call on its symbol's `SymbolSync`, and a step of another venue's
session changes no entry of this one. Two covered symbols must not share a book (`DistinctBooks`),
since the second would then write into the first one's entry.
-/

namespace Hermeneutic

/-! ### One symbol -/

/-- The messages among the calls are the exchange's, with valid levels. -/
def Authentic (h : History) (venue : VenueId) : List SyncInput → Prop :=
  Delivers (fun update => update ∈ h.events ∧ update.valid)
    (fun snapshot => h.SnapshotFor venue snapshot ∧ snapshot.valid)

theorem Authentic.append {h : History} {venue : VenueId} {inputs inputs' : List SyncInput}
    (hinputs : Authentic h venue inputs) (hinputs' : Authentic h venue inputs') :
    Authentic h venue (inputs ++ inputs') := by
  refine ⟨fun update hu => ?_, fun snapshot hs => ?_⟩
  · rw [receivedUpdates_append] at hu
    exact (List.mem_append.mp hu).elim (hinputs.updates update) (hinputs'.updates update)
  · rw [receivedSnapshots_append] at hs
    exact (List.mem_append.mp hs).elim (hinputs.snapshots snapshot) (hinputs'.snapshots snapshot)

private theorem Authentic.levelsValid {h : History} {venue : VenueId} {inputs : List SyncInput}
    (hinputs : Authentic h venue inputs) : LevelsValid inputs :=
  ⟨fun update hu => (hinputs.updates update hu).2,
    fun snapshot hs => (hinputs.snapshots snapshot hs).2⟩

private theorem authentic_connected (h : History) (venue : VenueId) : Authentic h venue
    [.connected] :=
  ⟨by simp [receivedUpdates], by simp [receivedSnapshots]⟩

private theorem authentic_disconnected (h : History) (venue : VenueId) :
    Authentic h venue [.disconnected] :=
  ⟨by simp [receivedUpdates], by simp [receivedSnapshots]⟩

private theorem bookOps_append (actions actions' : List SyncAction) :
    bookOps (actions ++ actions') = bookOps actions ++ bookOps actions' :=
  List.filterMap_append

namespace Driven

variable {policy : SequencePolicy} {venue : VenueId} {d : Driven} {inputs : List SyncInput}

/-- **A batch of valid calls** is made as it stands, and counts as a gap exactly if it takes
the venue's book away. -/
theorem executeActions_of_valid {actions : List SyncAction}
    (hvalid : ∀ op ∈ bookOps actions, op.valid) (d : Driven) :
    (d.executeActions venue actions).1.sync = d.sync ∧
      (d.executeActions venue actions).1.book =
        d.book.map (fun b => ⟨b.calls ++ (bookOps actions).map fun op => ⟨venue, op⟩⟩) ∧
      ((d.executeActions venue actions).2 = true ↔ .invalidateVenue ∈ actions) := by
  induction actions generalizing d with
  | nil => simp [bookOps]
  | cons action actions ih =>
    have hrest : ∀ op ∈ bookOps actions, op.valid := by
      intro op hop
      refine hvalid op ?_
      rw [← List.singleton_append, bookOps_append]
      exact List.mem_append_right _ hop
    have happly : ∀ op, action.bookOp = some op → action ≠ .invalidateVenue →
        d.executeAction venue action = (d.log venue op, false) := by
      intro op hop hne
      have haccepts : d.accepts op = true := by
        simp [accepts, hvalid op (by simp [bookOps, hop])]
      rw [executeAction_apply venue d hop hne, if_pos haccepts]
    have hlog : ∀ op, (d.log venue op).book =
        d.book.map fun b => ⟨b.calls ++ [⟨venue, op⟩]⟩ := fun op => rfl
    rw [executeActions_cons]
    cases action with
    | requestSnapshot =>
      rw [executeAction_request]
      obtain ⟨hsync, hbook, hgap⟩ := ih hrest { d with requests := d.requests ++ [d.sync.state] }
      exact ⟨hsync, hbook, by simpa using hgap⟩
    | applySnapshot bids asks =>
      rw [happly _ rfl (by simp)]
      simpa [bookOps, SyncAction.bookOp, hlog, Function.comp_def] using
        ih hrest (d.log venue (.applySnapshot bids asks))
    | applyDelta bids asks =>
      rw [happly _ rfl (by simp)]
      simpa [bookOps, SyncAction.bookOp, hlog, Function.comp_def] using
        ih hrest (d.log venue (.applyBatch bids asks))
    | invalidateVenue =>
      rw [executeAction_invalidate]
      simpa [bookOps, SyncAction.bookOp, hlog, Function.comp_def] using
        (ih hrest (d.log venue .invalidateVenue)).imp_right And.left

/-- The calls made on the symbol's `SymbolSync` left it as it is, and the venue's calls on its
book, if it has one, are the actions. -/
structure Fed (policy : SequencePolicy) (venue : VenueId) (d : Driven)
    (inputs : List SyncInput) : Prop where
  sync : d.sync = (syncMachine policy).state {} inputs
  calls : ∀ book ∈ d.book, (book.calls.filter fun c => c.venue = venue).map BookCall.op =
    bookOps ((syncMachine policy).output {} inputs)

/-- One call on the `SymbolSync`, and its actions. -/
theorem Fed.call (hfed : Fed policy venue d inputs) {input : SyncInput}
    (hvalid : LevelsValid (inputs ++ [input])) :
    Fed policy venue (executeActions venue { d with sync := (d.sync.step policy input).1 }
      (d.sync.step policy input).2).1 (inputs ++ [input]) := by
  have hops : ∀ op ∈ bookOps (d.sync.step policy input).2, op.valid := by
    intro op hop
    refine bookOps_valid policy hvalid op ?_
    rw [Machine.output_concat, ← hfed.sync, bookOps_append]
    exact List.mem_append_right _ hop
  obtain ⟨hsync, hbook, -⟩ := @executeActions_of_valid venue _ hops
    { d with sync := (d.sync.step policy input).1 }
  refine ⟨?_, fun book hmem => ?_⟩
  · rw [hsync, Machine.state_concat, ← hfed.sync]
    rfl
  · rw [hbook] at hmem
    obtain ⟨before, hbefore, rfl⟩ := Option.map_eq_some_iff.mp hmem
    have hown : ∀ ops : List BookOp, (ops.map fun op => (⟨venue, op⟩ : BookCall)).filter
        (fun c => c.venue = venue) = ops.map fun op => ⟨venue, op⟩ := by
      intro ops
      refine List.filter_eq_self.mpr fun c hc => ?_
      obtain ⟨op, -, rfl⟩ := List.mem_map.mp hc
      simp
    rw [Machine.output_concat, ← hfed.sync, bookOps_append, List.filter_append, List.map_append,
      hfed.calls before hbefore, hown, List.map_map]
    exact congrArg _ (List.map_id _)

theorem Fed.connected (hfed : Fed policy venue d inputs)
    (hvalid : LevelsValid (inputs ++ [.connected])) :
    Fed policy venue (d.connected venue) (inputs ++ [.connected]) :=
  hfed.call hvalid

theorem Fed.disconnected (hfed : Fed policy venue d inputs)
    (hvalid : LevelsValid (inputs ++ [.disconnected])) :
    Fed policy venue (d.disconnected venue) (inputs ++ [.disconnected]) :=
  hfed.call hvalid

/-- A message is one call, followed by a connect if it leaves a gap to be filled in place. -/
theorem Fed.receive {h : History} (hfed : Fed policy venue d inputs) {input : SyncInput}
    (hauthentic : Authentic h venue (inputs ++ [input])) :
    ∃ inputs', Fed policy venue (d.receive venue policy input).1 inputs' ∧
      Authentic h venue inputs' := by
  have hcall := hfed.call hauthentic.levelsValid
  have hconnected := hauthentic.append (authentic_connected h venue)
  simp only [Driven.receive]
  split
  · exact ⟨_, hcall, hauthentic⟩
  · split
    · exact ⟨_, hcall, hauthentic⟩
    · exact ⟨_, hcall.connected hconnected.levelsValid, hconnected⟩

private theorem book_isSome_executeActions (actions : List SyncAction) (d : Driven) :
    (d.executeActions venue actions).1.book.isSome = d.book.isSome := by
  induction actions generalizing d with
  | nil => rfl
  | cons action actions ih =>
    rw [executeActions_cons, ih]
    cases action with
    | requestSnapshot => rw [executeAction_request]
    | invalidateVenue =>
      rw [executeAction_invalidate]
      exact log_book_isSome venue d _
    | applySnapshot | applyDelta =>
      rw [executeAction_apply venue d rfl (by simp)]
      split <;> simp

private theorem book_isSome_receive (d : Driven) (input : SyncInput) :
    (d.receive venue policy input).1.book.isSome = d.book.isSome := by
  simp only [Driven.receive]
  split
  · exact book_isSome_executeActions _ _
  · split
    · exact book_isSome_executeActions _ _
    · exact (book_isSome_executeActions _ _).trans (book_isSome_executeActions _ _)

end Driven

/-! ### All of them -/

/-- No two covered symbols share a book. -/
def SessionConfig.DistinctBooks (cfg : SessionConfig) : Prop :=
  ∀ symbol ∈ cfg.symbols, ∀ symbol' ∈ cfg.symbols, ∀ ref, cfg.registry symbol = some ref →
    cfg.registry symbol' = some ref → symbol = symbol'

namespace Session

variable {cfg : SessionConfig} {histories : NativeSymbol → History} {s : Session}

/-- Every covered symbol was fed nothing but the exchange's messages. -/
def Truthful (cfg : SessionConfig) (histories : NativeSymbol → History) (s : Session) : Prop :=
  ∀ symbol ∈ cfg.symbols, ∃ inputs,
    Driven.Fed cfg.pair.policy cfg.venue (s.driven cfg symbol) inputs ∧
      Authentic (histories symbol) cfg.venue inputs

/-- The next step hands the session a message of a covered symbol only if it is the
exchange's, with valid levels; the answer to a request counts as one of the symbol it was made
for. -/
def Hears (cfg : SessionConfig) (histories : NativeSymbol → History) (s : Session) :
    SessionEvent → Prop
  | .read text => match cfg.parseMessage text with
    | none => True
    | some (.snapshot message) => message.symbol ∈ cfg.symbols →
      (histories message.symbol).SnapshotFor cfg.venue message ∧ message.valid
    | some (.depthUpdate message) => message.symbol ∈ cfg.symbols →
      message ∈ (histories message.symbol).events ∧ message.valid
  | .fetchResponse i body => ∀ fetch, s.snapshotSigs[i]? = some fetch →
      ∀ snapshot, cfg.parseSnapshotResponse fetch.symbol body = some snapshot →
        (histories fetch.symbol).SnapshotFor cfg.venue snapshot ∧ snapshot.valid
  | _ => True

private theorem driven_put_self (s : Session) (symbol : NativeSymbol) {d : Driven}
    (hbook : d.book.isSome = (s.driven cfg symbol).book.isSome) :
    (s.put cfg symbol d).driven cfg symbol = { d with requests := [] } := by
  simp only [driven, put, Function.update_self] at hbook ⊢
  cases hregistry : cfg.registry symbol with
  | none => cases hdbook : d.book <;> simp_all
  | some ref => cases hdbook : d.book <;> simp_all

/-- Another symbol is left alone. -/
private theorem driven_put_of_ne (hbooks : cfg.DistinctBooks) (s : Session)
    {symbol symbol' : NativeSymbol}
    (hsymbol : symbol ∈ cfg.symbols) (hsymbol' : symbol' ∈ cfg.symbols) (hne : symbol' ≠ symbol)
    (d : Driven) : (s.put cfg symbol d).driven cfg symbol' = s.driven cfg symbol' := by
  simp only [driven, put, Function.update_of_ne hne]
  cases hregistry' : cfg.registry symbol' with
  | none => rfl
  | some ref' =>
    cases hregistry : cfg.registry symbol with
    | none => rfl
    | some ref =>
      cases d.book with
      | none => rfl
      | some book =>
        have href : ref' ≠ ref := by
          rintro rfl
          exact hne (hbooks symbol' hsymbol' symbol hsymbol ref' hregistry' hregistry)
        simp [Function.update_of_ne href]

namespace Truthful

theorem init : Truthful cfg histories {} := by
  intro symbol _
  refine ⟨[], ⟨rfl, fun book hmem => ?_⟩, by simp [receivedUpdates], by simp [receivedSnapshots]⟩
  obtain ⟨ref, -, rfl⟩ := Option.map_eq_some_iff.mp hmem
  rfl

/-- It depends on the `SymbolSync`s and the books alone. -/
theorem congr {t : Session} (h : Truthful cfg histories s) (hsyncs : t.syncs = s.syncs)
    (hbooks : t.books = s.books) : Truthful cfg histories t := by
  intro symbol hsymbol
  have hdriven : t.driven cfg symbol = s.driven cfg symbol := by
    rw [driven, driven, hsyncs, hbooks]
  rw [hdriven]
  exact h symbol hsymbol

theorem put (h : Truthful cfg histories s) (hbooks : cfg.DistinctBooks) {symbol : NativeSymbol}
    (hsymbol : symbol ∈ cfg.symbols) {d : Driven}
    (hbook : d.book.isSome = (s.driven cfg symbol).book.isSome)
    (hd : ∃ inputs, Driven.Fed cfg.pair.policy cfg.venue d inputs ∧
      Authentic (histories symbol) cfg.venue inputs) :
    Truthful cfg histories (s.put cfg symbol d) := by
  intro symbol' hsymbol'
  by_cases hne : symbol' = symbol
  · subst hne
    rw [driven_put_self s symbol' hbook]
    obtain ⟨inputs, hfed, hauthentic⟩ := hd
    exact ⟨inputs, ⟨hfed.sync, hfed.calls⟩, hauthentic⟩
  · rw [driven_put_of_ne hbooks s hsymbol hsymbol' hne]
    exact h symbol' hsymbol'

/-- A loop that makes the same message-free call for every symbol. -/
theorem forEachSymbol (h : Truthful cfg histories s) (hbooks : cfg.DistinctBooks)
    {f : Driven → Driven} (hbook : ∀ d, (f d).book.isSome = d.book.isSome)
    (hf : ∀ (d : Driven) (inputs : List SyncInput) (history : History),
      Driven.Fed cfg.pair.policy cfg.venue d inputs → Authentic history cfg.venue inputs →
        ∃ inputs', Driven.Fed cfg.pair.policy cfg.venue (f d) inputs' ∧
          Authentic history cfg.venue inputs') :
    Truthful cfg histories (s.forEachSymbol cfg f) := by
  have hloop : ∀ (symbols : List NativeSymbol) (s : Session), symbols ⊆ cfg.symbols →
      Truthful cfg histories s → Truthful cfg histories
        (symbols.foldl (fun s symbol => s.put cfg symbol (f (s.driven cfg symbol))) s) := by
    intro symbols
    induction symbols with
    | nil => exact fun _ _ h => h
    | cons symbol symbols ih =>
      intro s hsubset h
      obtain ⟨hsymbol, hrest⟩ := List.cons_subset.mp hsubset
      obtain ⟨inputs, hfed, hauthentic⟩ := h symbol hsymbol
      exact ih _ hrest (h.put hbooks hsymbol (hbook _) (hf _ inputs _ hfed hauthentic))
  exact hloop cfg.symbols s (List.Subset.refl _) h

theorem drop (h : Truthful cfg histories s) (hbooks : cfg.DistinctBooks) :
    Truthful cfg histories (s.drop cfg) := by
  rw [Session.drop, invalidateAll]
  refine forEachSymbol ?_ hbooks ?_ fun d inputs history hfed hauthentic => ?_
  · exact h.congr rfl rfl
  · exact fun d => Driven.book_isSome_executeActions _ _
  · have hinputs := hauthentic.append (authentic_disconnected history cfg.venue)
    exact ⟨_, hfed.disconnected hinputs.levelsValid, hinputs⟩

theorem subscribed (h : Truthful cfg histories s) (hbooks : cfg.DistinctBooks) :
    Truthful cfg histories (s.subscribed cfg) := by
  rw [Session.subscribed]
  refine forEachSymbol ?_ hbooks ?_ fun d inputs history hfed hauthentic => ?_
  · exact h.congr rfl rfl
  · exact fun d => Driven.book_isSome_executeActions _ _
  · have hinputs := hauthentic.append (authentic_connected history cfg.venue)
    exact ⟨_, hfed.connected hinputs.levelsValid, hinputs⟩

/-- One of the exchange's messages. -/
theorem receive (h : Truthful cfg histories s) (hbooks : cfg.DistinctBooks)
    {symbol : NativeSymbol} (hsymbol : symbol ∈ cfg.symbols) {input : SyncInput}
    (hinput : Authentic (histories symbol) cfg.venue [input]) :
    Truthful cfg histories (s.put cfg symbol
      ((s.driven cfg symbol).receive cfg.venue cfg.pair.policy input).1) := by
  obtain ⟨inputs, hfed, hauthentic⟩ := h symbol hsymbol
  exact h.put hbooks hsymbol (Driven.book_isSome_receive _ _)
    (hfed.receive (hauthentic.append hinput))

theorem dispatch (h : Truthful cfg histories s) (hbooks : cfg.DistinctBooks)
    (symbol : NativeSymbol) {input : SyncInput}
    (hinput : symbol ∈ cfg.symbols → Authentic (histories symbol) cfg.venue [input]) :
    Truthful cfg histories (s.dispatch cfg symbol input) := by
  by_cases hsymbol : symbol ∈ cfg.symbols
  · rw [dispatch_of_mem s hsymbol]
    have hreceived := h.receive hbooks hsymbol (hinput hsymbol)
    simp only
    split
    · exact hreceived.drop hbooks
    · exact hreceived
  · rw [Session.dispatch, if_neg hsymbol]
    exact h

theorem onFetched (h : Truthful cfg histories s) (hbooks : cfg.DistinctBooks)
    (symbol : NativeSymbol) {snapshot : SnapshotMessage}
    (hsnapshot : (histories symbol).SnapshotFor cfg.venue snapshot ∧ snapshot.valid) :
    Truthful cfg histories (s.onFetched cfg symbol snapshot) := by
  have hinput : Authentic (histories symbol) cfg.venue [.snapshot snapshot] := by
    refine ⟨by simp [receivedUpdates], fun snapshot' hs => ?_⟩
    obtain rfl := List.mem_singleton.mp hs
    exact hsnapshot
  by_cases hsymbol : symbol ∈ cfg.symbols
  · have hreceived := h.receive hbooks hsymbol hinput
    simp only [Session.onFetched, if_pos hsymbol]
    split
    · exact hreceived.congr rfl rfl
    · exact hreceived
  · rw [Session.onFetched, if_neg hsymbol]
    exact h

/-- Another venue's call is not this one's. -/
theorem otherCall (h : Truthful cfg histories s) (ref : BookRef) {call : BookCall}
    (hne : call.venue ≠ cfg.venue) : Truthful cfg histories
      { s with books := Function.update s.books ref ((s.books ref).call call).2 } := by
  intro symbol hsymbol
  obtain ⟨inputs, hfed, hauthentic⟩ := h symbol hsymbol
  refine ⟨inputs, ⟨hfed.sync, fun book hmem => ?_⟩, hauthentic⟩
  obtain ⟨ref', hregistry, rfl⟩ := Option.map_eq_some_iff.mp hmem
  have hcalls := hfed.calls (s.books ref') (by simp [driven, hregistry])
  by_cases href : ref' = ref
  · subst href
    simp only [Function.update_self]
    rw [LoggedBook.call, List.filter_append,
      List.filter_cons_of_neg (by simpa using hne), List.filter_nil, List.append_nil]
    exact hcalls
  · simp only [Function.update_of_ne href]
    exact hcalls

/-- **Step lemma.** -/
theorem step (h : Truthful cfg histories s) (hbooks : cfg.DistinctBooks) {event : SessionEvent}
    (hears : Hears cfg histories s event) {t : Session} (hmove : Move cfg s event t) :
    Truthful cfg histories t := by
  cases hmove with
  | ignored => exact h
  | run | stop | fetch | erased => exact h.congr rfl rfl
  | drop => exact h.drop hbooks
  | subscribed => exact h.subscribed hbooks
  | @skipped text =>
    obtain ⟨seen, hskip⟩ := skip_eq cfg s text
    rw [hskip]
    exact h.congr rfl rfl
  | @snapshotMessage text message _ _ hparse =>
    have hseen : Truthful cfg histories { s with
        snapshotSeen := Function.update s.snapshotSeen message.symbol true } := h.congr rfl rfl
    refine hseen.dispatch hbooks _ fun hsymbol => ?_
    simp only [Hears, hparse] at hears
    refine ⟨by simp [receivedUpdates], fun snapshot hs => ?_⟩
    obtain rfl := List.mem_singleton.mp hs
    exact hears hsymbol
  | @depthMessage text message _ _ hparse =>
    refine h.dispatch hbooks _ fun hsymbol => ?_
    simp only [Hears, hparse] at hears
    refine ⟨fun update hu => ?_, by simp [receivedSnapshots]⟩
    obtain rfl := List.mem_singleton.mp hu
    exact hears hsymbol
  | @answered i body fetch snapshot hfetch _ _ hparse =>
    have hmoved : Truthful cfg histories (s.setFetch i fetch .finished) := h.congr rfl rfl
    exact hmoved.onFetched hbooks fetch.symbol (hears fetch hfetch snapshot hparse)
  | otherCall hne => exact h.otherCall _ hne

end Truthful

/-- **Run lemma.** -/
theorem truthful_state (hbooks : cfg.DistinctBooks) {events : List SessionEvent}
    (hears : (sessionMachine cfg).Throughout (Hears cfg histories) {} events) :
    Truthful cfg histories ((sessionMachine cfg).state {} events) :=
  (Machine.always_of_throughout Truthful.init
    (fun s event h hevent => h.step hbooks hevent (step_move s event)) hears).last

/-- What a truthful session's book shows of its venue. -/
theorem Truthful.shows (h : Truthful cfg histories s)
    (hwired : cfg.pair.policy = wiredPolicy cfg.venue) {symbol : NativeSymbol}
    (hnum : (histories symbol).NumberedFor cfg.venue)
    (hsymbol : symbol ∈ cfg.symbols) {ref : BookRef} (hregistry : cfg.registry symbol = some ref) :
    ((s.syncs symbol).state = .buffering → (s.books ref).entry cfg.venue = none) ∧
      ((s.syncs symbol).state = .live → ∃ k ≤ (histories symbol).events.length,
        (s.syncs symbol).lastFinalId = (histories symbol).idAt k ∧
        (s.books ref).entry cfg.venue = some ((histories symbol).bookAt k)) := by
  obtain ⟨inputs, hfed, hauthentic⟩ := h symbol hsymbol
  have hsync : s.syncs symbol = (syncMachine cfg.pair.policy).state {} inputs := hfed.sync
  have hentry : (s.books ref).entry cfg.venue =
      bookOf ((syncMachine cfg.pair.policy).output {} inputs) :=
    venue_entry_of_execute hauthentic.levelsValid
      (hfed.calls (s.books ref) (by simp [Session.driven, hregistry]))
  rw [hsync, hentry]
  refine ⟨bookOf_of_buffering _ _, fun hlive => ?_⟩
  rw [hwired] at hlive ⊢
  obtain ⟨book, hbook, k, hk, hid, rfl⟩ := (History.wiredPolicy_tracks hnum).live
    ⟨fun update hu => (hauthentic.updates update hu).1,
      fun snapshot hs => (hauthentic.snapshots snapshot hs).1⟩ hlive
  exact ⟨k, hk, hid, hbook⟩

end Session

/-- **A session's live symbols show true books.** In every state of a run on which the
session hears nothing but its exchange's messages, whatever is lost, late, dropped or
reconnected and whatever the other venues do, the venue's entry in a covered symbol's book is
the exchange's true book at the symbol's last id if the symbol is live, and there is none if it
is not. -/
theorem session_shows_true_books (cfg : SessionConfig)
    (hwired : cfg.pair.policy = wiredPolicy cfg.venue) (hbooks : cfg.DistinctBooks)
    (histories : NativeSymbol → History)
    (hnum : ∀ symbol ∈ cfg.symbols, (histories symbol).NumberedFor cfg.venue)
    (events : List SessionEvent)
    (hears : (sessionMachine cfg).Throughout (Session.Hears cfg histories) {} events) :
    ∀ symbol ∈ cfg.symbols, ∀ ref, cfg.registry symbol = some ref →
      let s := (sessionMachine cfg).state {} events
      ((s.syncs symbol).state = .buffering → (s.books ref).entry cfg.venue = none) ∧
        ((s.syncs symbol).state = .live → ∃ k ≤ (histories symbol).events.length,
          (s.syncs symbol).lastFinalId = (histories symbol).idAt k ∧
          (s.books ref).entry cfg.venue = some ((histories symbol).bookAt k)) := by
  intro symbol hsymbol ref hregistry
  exact (Session.truthful_state hbooks hears).shows hwired (hnum symbol hsymbol) hsymbol hregistry

/-- A session of two symbols on Binance Futures that understands three texts, one of them the
answer to a request. -/
def sampleSession : SessionConfig where
  pair := binanceFutures
  venue := ⟨.binance, .perp⟩
  symbols := ["BTCUSDT", "ETHUSDT"]
  symbols_nodup := by decide
  registry symbol :=
    if symbol = "BTCUSDT" then some 0 else if symbol = "ETHUSDT" then some 1 else none
  parseMessage text :=
    if text = "first" then
      some (.depthUpdate ⟨"BTCUSDT", 2, 3, 1, [(⟨100⟩, ⟨7⟩)], []⟩)
    else if text = "second" then
      some (.depthUpdate ⟨"BTCUSDT", 4, 5, 3, [(⟨100⟩, ⟨8⟩)], []⟩)
    else none
  parseSnapshotResponse symbol body :=
    if body = "answer" then some ⟨symbol, [(⟨100⟩, ⟨7⟩)], [], 3⟩ else none
  skippedSnapshot _ := none
  rest_pushes_none _ text snapshot := by
    split
    · simp
    · split <;> simp

/-- The connection drops before anything is read; on the next one the answer to the request of
the dropped one arrives between the two events. -/
def sampleSessionRun : List SessionEvent :=
  [.start, .startRun, .runBegin, .connectOk, .sendOk, .fetchBegin 0, .readFailed, .backoffEnded,
    .connectOk, .sendOk, .read "first", .fetchResponse 0 "answer", .read "second"]

theorem session_shows_true_books_sample :
    let s := (sessionMachine sampleSession).state {} sampleSessionRun
    (s.syncs "BTCUSDT").state = .live ∧ (s.syncs "ETHUSDT").state = .buffering ∧
      (∃ k ≤ 2, 5 = History.sampleHistory.idAt k ∧
        (s.books 0).entry ⟨.binance, .perp⟩ = some (History.sampleHistory.bookAt k)) ∧
      (s.books 1).entry ⟨.binance, .perp⟩ = none := by
  have hbooks : sampleSession.DistinctBooks := by
    intro symbol hsymbol symbol' hsymbol' ref hregistry hregistry'
    simp only [sampleSession, List.mem_cons, List.not_mem_nil, or_false] at *
    grind
  have hsnapshot : ∀ symbol, History.sampleHistory.SnapshotFor ⟨.binance, .perp⟩
      ⟨symbol, [(⟨100⟩, ⟨7⟩)], [], 3⟩ := by
    intro symbol
    exact ⟨1, by decide, .inl ⟨rfl, rfl⟩⟩
  have hears : (sessionMachine sampleSession).Throughout
      (Session.Hears sampleSession fun _ => .sampleHistory) {} sampleSessionRun := by
    intro pre event _
    cases event with
    | read text =>
      simp only [Session.Hears, sampleSession]
      by_cases hfirst : text = "first"
      · rw [if_pos hfirst]
        exact fun _ => ⟨List.mem_cons_self, by decide⟩
      · by_cases hsecond : text = "second"
        · rw [if_neg hfirst, if_pos hsecond]
          exact fun _ => ⟨List.mem_cons_of_mem _ List.mem_cons_self, by decide⟩
        · rw [if_neg hfirst, if_neg hsecond]
          trivial
    | fetchResponse i body =>
      intro fetch _ snapshot hparse
      simp only [sampleSession, Option.ite_none_right_eq_some, Option.some.injEq] at hparse
      obtain ⟨-, rfl⟩ := hparse
      exact ⟨hsnapshot _, rfl⟩
    | _ => trivial
  have htrue := session_shows_true_books sampleSession rfl hbooks (fun _ => .sampleHistory)
    (fun _ _ => History.forall_events (by decide)) sampleSessionRun hears
  have hlive : (((sessionMachine sampleSession).state {} sampleSessionRun).syncs
      "BTCUSDT").state = .live := by decide
  have hbuffering : (((sessionMachine sampleSession).state {} sampleSessionRun).syncs
      "ETHUSDT").state = .buffering := by decide
  exact ⟨hlive, hbuffering, (htrue "BTCUSDT" (by decide) 0 rfl).2 hlive,
    (htrue "ETHUSDT" (by decide) 1 rfl).1 hbuffering⟩

end Hermeneutic
