import Hermeneutic.Ingestion.VenueSession

/-!
# The moves of a venue session

What one step of a `VenueSession` can do, said once. The first half describes the two ways a
step writes a symbol back, `put` for one symbol and `forEachSymbol` for all of them: which
`SymbolSync`s change, which fetches are spawned, which requests are issued, and what becomes
of the venue's entries. The second half presents the step function as a relation, `Move`,
with one constructor for each kind of step: the phases of `run()` change (`RunMove`), a
connection is subscribed, dropped or read from, a fetch moves on (`FetchMove`), is answered or
is erased. `step_move` connects the two.

A text that the read loop skips is no message to any symbol, but it is one that has come:
`skip_eq` and `skip_snapshotSeen` say what it leaves. Every later module argues by cases on
`Move`, and none unfolds a step of the session again; what it needs of a move is in the lemmas of
the first half, one for each field that the move may touch.
-/

namespace Hermeneutic

namespace Session

variable {cfg : SessionConfig}

/-! ### Writing symbols back -/

/-- The snapshot fetches of a symbol in flight. -/
def inFlight (s : Session) (symbol : NativeSymbol) : ℕ :=
  s.snapshotSigs.countP fun fetch => fetch.symbol = symbol ∧ fetch.inFlight

/-- The venue has no entry in any book the session feeds. -/
def Cleared (cfg : SessionConfig) (s : Session) : Prop :=
  ∀ symbol ∈ cfg.symbols, (s.driven cfg symbol).entry cfg.venue = none

@[simp] theorem put_syncs (s : Session) (symbol : NativeSymbol) (d : Driven) :
    (s.put cfg symbol d).syncs = Function.update s.syncs symbol d.sync := rfl

@[simp] theorem put_stopping (s : Session) (symbol : NativeSymbol) (d : Driven) :
    (s.put cfg symbol d).stopping = s.stopping := rfl

@[simp] theorem put_run (s : Session) (symbol : NativeSymbol) (d : Driven) :
    (s.put cfg symbol d).run = s.run := rfl

@[simp] theorem put_runCancelled (s : Session) (symbol : NativeSymbol) (d : Driven) :
    (s.put cfg symbol d).runCancelled = s.runCancelled := rfl

@[simp] theorem put_snapshotSeen (s : Session) (symbol : NativeSymbol) (d : Driven) :
    (s.put cfg symbol d).snapshotSeen = s.snapshotSeen := rfl

theorem put_snapshotSigs (s : Session) (symbol : NativeSymbol) (d : Driven) :
    (s.put cfg symbol d).snapshotSigs = s.snapshotSigs ++
      if s.stopping then [] else d.requests.map fun _ => { symbol := symbol } := rfl

theorem put_requested (s : Session) (symbol : NativeSymbol) (d : Driven) :
    (s.put cfg symbol d).requested = s.requested ++
      d.requests.map fun state => ⟨symbol, state, s.run = .reading⟩ := rfl

@[simp] theorem driven_requests (s : Session) (symbol : NativeSymbol) :
    (s.driven cfg symbol).requests = [] := rfl

@[simp] theorem driven_sync (s : Session) (symbol : NativeSymbol) :
    (s.driven cfg symbol).sync = s.syncs symbol := rfl

/-- Each request spawns a fetch, unless the session is stopping. -/
theorem inFlight_put (s : Session) (symbol symbol' : NativeSymbol) (d : Driven) :
    (s.put cfg symbol d).inFlight symbol' = s.inFlight symbol' +
      if s.stopping = false ∧ symbol = symbol' then d.requests.length else 0 := by
  simp only [inFlight, put_snapshotSigs, List.countP_append]
  cases s.stopping with
  | true => simp
  | false =>
    by_cases h : symbol = symbol' <;>
      simp [h, List.countP_replicate, Fetch.inFlight]

theorem inFlight_pos {s : Session} {symbol : NativeSymbol} :
    0 < s.inFlight symbol ↔ ∃ fetch ∈ s.snapshotSigs, fetch.symbol = symbol ∧ fetch.inFlight := by
  simp [inFlight, List.countP_pos_iff]

/-- A write-back that leaves the book alone is seen in no book. -/
theorem put_books (s : Session) (symbol : NativeSymbol) {d : Driven}
    (h : d.book = (s.driven cfg symbol).book) : (s.put cfg symbol d).books = s.books := by
  simp only [put, h, driven]
  cases cfg.registry symbol with
  | none => rfl
  | some ref => simp

/-- Another symbol's entry is the one it had, or the one just written to a book they share. -/
private theorem entry_put (s : Session) (symbol symbol' : NativeSymbol) (d : Driven) :
    ((s.put cfg symbol d).driven cfg symbol').entry cfg.venue =
        (s.driven cfg symbol').entry cfg.venue ∨
      ((s.put cfg symbol d).driven cfg symbol').entry cfg.venue = d.entry cfg.venue := by
  simp only [driven, Driven.entry, put]
  cases cfg.registry symbol' with
  | none => exact .inl rfl
  | some ref' =>
    cases cfg.registry symbol with
    | none => exact .inl rfl
    | some ref =>
      cases d.book with
      | none => exact .inl rfl
      | some book =>
        by_cases h : ref' = ref
        · subst h
          right
          simp
        · left
          simp [h]

/-- The symbol's own entry is the one just written. -/
private theorem entry_put_self (s : Session) (symbol : NativeSymbol) {d : Driven}
    (h : d.book.isSome = (s.driven cfg symbol).book.isSome) :
    ((s.put cfg symbol d).driven cfg symbol).entry cfg.venue = d.entry cfg.venue := by
  simp only [driven, Driven.entry, put] at h ⊢
  cases hbook : d.book with
  | none =>
    rw [hbook] at h
    cases hregistry : cfg.registry symbol with
    | none => rfl
    | some ref => simp [hregistry] at h
  | some book =>
    rw [hbook] at h
    cases hregistry : cfg.registry symbol with
    | none => simp [hregistry] at h
    | some ref => simp

/-- What a loop over the symbols leaves when each symbol's new `SymbolSync` and requests
depend on its old `SymbolSync` alone. -/
structure ForEach (cfg : SessionConfig) (g : SymbolSync → SymbolSync)
    (h : SymbolSync → List SyncState) (s t : Session) : Prop where
  syncs : ∀ symbol ∈ cfg.symbols, t.syncs symbol = g (s.syncs symbol)
  snapshotSigs : t.snapshotSigs = s.snapshotSigs ++ if s.stopping then [] else
    cfg.symbols.flatMap fun symbol => (h (s.syncs symbol)).map fun _ => { symbol := symbol }
  requested : t.requested = s.requested ++ cfg.symbols.flatMap fun symbol =>
    (h (s.syncs symbol)).map fun state => ⟨symbol, state, s.run = .reading⟩
  stopping : t.stopping = s.stopping
  run : t.run = s.run
  runCancelled : t.runCancelled = s.runCancelled
  snapshotSeen : t.snapshotSeen = s.snapshotSeen

private theorem forEach_foldl {f : Driven → Driven} {g : SymbolSync → SymbolSync}
    {h : SymbolSync → List SyncState} (hsync : ∀ d, (f d).sync = g d.sync)
    (hrequests : ∀ d, d.requests = [] → (f d).requests = h d.sync) (symbols : List NativeSymbol)
    (hnodup : symbols.Nodup) (s : Session) :
    let t := symbols.foldl (fun s symbol => s.put cfg symbol (f (s.driven cfg symbol))) s
    (∀ symbol, t.syncs symbol =
        if symbol ∈ symbols then g (s.syncs symbol) else s.syncs symbol) ∧
      (t.snapshotSigs = s.snapshotSigs ++ if s.stopping then [] else
        symbols.flatMap fun symbol => (h (s.syncs symbol)).map fun _ => { symbol := symbol }) ∧
      (t.requested = s.requested ++ symbols.flatMap fun symbol =>
        (h (s.syncs symbol)).map fun state => ⟨symbol, state, s.run = .reading⟩) ∧
      t.stopping = s.stopping ∧ t.run = s.run ∧ t.runCancelled = s.runCancelled ∧
      t.snapshotSeen = s.snapshotSeen := by
  induction symbols generalizing s with
  | nil => simp
  | cons symbol symbols ih =>
    obtain ⟨hnotMem, hnodup⟩ := List.nodup_cons.mp hnodup
    -- The rest of the loop sees the symbols it has yet to visit as they were.
    have hrest : ∀ symbol' ∈ symbols, Function.update s.syncs symbol
        (f (s.driven cfg symbol)).sync symbol' = s.syncs symbol' := fun symbol' hmem =>
      Function.update_of_ne (fun heq : symbol' = symbol => hnotMem (heq ▸ hmem)) _ _
    obtain ⟨hsyncs, hsigs, hreqs, hstopping, hrun, hcancelled, hseen⟩ :=
      ih hnodup (s.put cfg symbol (f (s.driven cfg symbol)))
    have hown := hrequests (s.driven cfg symbol) rfl
    refine ⟨fun symbol' => ?_, ?_, ?_, hstopping, hrun, hcancelled, hseen⟩
    · rw [List.foldl_cons, hsyncs, put_syncs]
      by_cases heq : symbol' = symbol
      · subst heq
        simp [hnotMem, hsync]
      · simp [heq]
    · rw [List.foldl_cons, hsigs, put_snapshotSigs, put_stopping, hown, driven_sync]
      cases s.stopping with
      | true => simp
      | false =>
        simp only [Bool.false_eq_true, if_false, List.flatMap_cons, List.append_assoc, put_syncs]
        congr 2
        exact List.flatMap_congr fun symbol' hmem => by rw [hrest symbol' hmem]
    · rw [List.foldl_cons, hreqs, put_requested, put_run, hown, driven_sync, List.flatMap_cons,
        List.append_assoc]
      congr 2
      exact List.flatMap_congr fun symbol' hmem => by rw [put_syncs, hrest symbol' hmem]

private theorem forEachSymbol_spec {f : Driven → Driven} {g : SymbolSync → SymbolSync}
    {h : SymbolSync → List SyncState} (hsync : ∀ d, (f d).sync = g d.sync)
    (hrequests : ∀ d, d.requests = [] → (f d).requests = h d.sync) (s : Session) :
    ForEach cfg g h s (s.forEachSymbol cfg f) := by
  obtain ⟨hsyncs, hsigs, hreqs, hstopping, hrun, hcancelled, hseen⟩ :=
    forEach_foldl hsync hrequests cfg.symbols cfg.symbols_nodup s
  exact ⟨fun symbol hmem => (hsyncs symbol).trans (if_pos hmem), hsigs, hreqs, hstopping, hrun,
    hcancelled, hseen⟩

/-- Once every symbol was disconnected, none has an entry left. -/
private theorem cleared_foldl (symbols : List NativeSymbol) (s : Session) :
    let t := symbols.foldl (fun s symbol =>
      s.put cfg symbol ((s.driven cfg symbol).disconnected cfg.venue)) s
    (∀ symbol ∈ symbols, (t.driven cfg symbol).entry cfg.venue = none) ∧
      ∀ symbol, (s.driven cfg symbol).entry cfg.venue = none →
        (t.driven cfg symbol).entry cfg.venue = none := by
  induction symbols generalizing s with
  | nil => simp
  | cons symbol symbols ih =>
    have hentry : ((s.driven cfg symbol).disconnected cfg.venue).entry cfg.venue = none := by
      rw [Driven.disconnected_eq]
      exact Driven.entry_log_invalidate cfg.venue _
    have hown := @entry_put_self cfg s symbol
      (d := (s.driven cfg symbol).disconnected cfg.venue) (by simp [Driven.disconnected_eq])
    obtain ⟨hdone, hkeep⟩ := ih (s.put cfg symbol ((s.driven cfg symbol).disconnected cfg.venue))
    refine ⟨fun symbol' hmem => ?_, fun symbol' hnone => hkeep symbol' ?_⟩
    · rcases List.mem_cons.mp hmem with rfl | hmem
      · exact hkeep _ (hown.trans hentry)
      · exact hdone symbol' hmem
    · rcases entry_put s symbol symbol' ((s.driven cfg symbol).disconnected cfg.venue) with h | h
      · exact h.trans hnone
      · exact h.trans hentry

/-! ### Dropping and subscribing -/

theorem drop_cleared (s : Session) : (s.drop cfg).Cleared cfg :=
  (cleared_foldl cfg.symbols _).1

private theorem drop_forEach (s : Session) :
    ForEach cfg (fun _ => {}) (fun _ => []) { s with
      run := if s.stopping then .draining else .backingOff
      runCancelled := false
      snapshotSeen := fun _ => false } (s.drop cfg) :=
  forEachSymbol_spec (fun d => by rw [Driven.disconnected_eq])
    (fun d hd => by rw [Driven.disconnected_eq]; exact hd) _

theorem drop_syncs (s : Session) {symbol : NativeSymbol} (hsymbol : symbol ∈ cfg.symbols) :
    (s.drop cfg).syncs symbol = {} := (drop_forEach s).syncs symbol hsymbol

@[simp] theorem drop_snapshotSigs (s : Session) : (s.drop cfg).snapshotSigs = s.snapshotSigs := by
  rw [(drop_forEach s).snapshotSigs]
  simp

@[simp] theorem drop_requested (s : Session) : (s.drop cfg).requested = s.requested := by
  rw [(drop_forEach s).requested]
  simp

@[simp] theorem drop_stopping (s : Session) : (s.drop cfg).stopping = s.stopping :=
  (drop_forEach s).stopping

@[simp] theorem drop_run (s : Session) :
    (s.drop cfg).run = if s.stopping then .draining else .backingOff := (drop_forEach s).run

@[simp] theorem drop_runCancelled (s : Session) : (s.drop cfg).runCancelled = false :=
  (drop_forEach s).runCancelled

@[simp] theorem drop_snapshotSeen (s : Session) (symbol : NativeSymbol) :
    (s.drop cfg).snapshotSeen symbol = false := congrFun (drop_forEach s).snapshotSeen symbol

@[simp] theorem drop_inFlight (s : Session) (symbol : NativeSymbol) :
    (s.drop cfg).inFlight symbol = s.inFlight symbol := by
  rw [inFlight, inFlight, drop_snapshotSigs]

private theorem subscribed_forEach (s : Session) :
    ForEach cfg (fun sync => sync.onConnected.1)
      (fun sync => if sync.state = .buffering ∧ sync.snapshotRequested = false then [sync.state]
        else []) { s with run := .reading } (s.subscribed cfg) := by
  refine forEachSymbol_spec (fun d => ?_) (fun d hd => ?_) _
  · rw [Driven.connected_eq]
    simp only [SymbolSync.onConnected, Bool.not_eq_true']
    split <;> rfl
  · rw [Driven.connected_eq]
    split
    · simp [hd]
    · exact hd

@[simp] theorem subscribed_stopping (s : Session) :
    (s.subscribed cfg).stopping = s.stopping := (subscribed_forEach s).stopping

@[simp] theorem subscribed_run (s : Session) : (s.subscribed cfg).run = .reading :=
  (subscribed_forEach s).run

@[simp] theorem subscribed_runCancelled (s : Session) :
    (s.subscribed cfg).runCancelled = s.runCancelled := (subscribed_forEach s).runCancelled

@[simp] theorem subscribed_snapshotSeen (s : Session) :
    (s.subscribed cfg).snapshotSeen = s.snapshotSeen := (subscribed_forEach s).snapshotSeen

section Reset

variable {s : Session} (hreset : ∀ symbol ∈ cfg.symbols, s.syncs symbol = {})

include hreset

theorem subscribed_state {symbol : NativeSymbol} (hsymbol : symbol ∈ cfg.symbols) :
    ((s.subscribed cfg).syncs symbol).state = .buffering := by
  rw [(subscribed_forEach s).syncs symbol hsymbol, hreset symbol hsymbol]
  rfl

/-- Each symbol requests a snapshot once. -/
theorem subscribed_requested :
    (s.subscribed cfg).requested =
      s.requested ++ cfg.symbols.map fun symbol => ⟨symbol, .buffering, true⟩ := by
  rw [(subscribed_forEach s).requested, ← List.flatMap_singleton' (cfg.symbols.map _),
    List.flatMap_map]
  congr 1
  exact List.flatMap_congr fun symbol hmem => by rw [hreset symbol hmem]; simp

theorem subscribed_snapshotSigs :
    (s.subscribed cfg).snapshotSigs = s.snapshotSigs ++ if s.stopping then [] else
      cfg.symbols.map fun symbol => { symbol := symbol } := by
  rw [(subscribed_forEach s).snapshotSigs, ← List.flatMap_singleton' (cfg.symbols.map _),
    List.flatMap_map]
  congr 2
  exact List.flatMap_congr fun symbol hmem => by rw [hreset symbol hmem]; simp

theorem inFlight_subscribed (hstopping : s.stopping = false) {symbol : NativeSymbol}
    (hsymbol : symbol ∈ cfg.symbols) :
    (s.subscribed cfg).inFlight symbol = s.inFlight symbol + 1 := by
  have hone : cfg.symbols.count symbol = 1 := List.count_eq_one_of_mem cfg.symbols_nodup hsymbol
  rw [inFlight, subscribed_snapshotSigs hreset, hstopping, List.countP_append,
    if_neg Bool.false_ne_true, List.countP_map, ← hone, List.count]
  congr 1
  refine List.countP_congr fun symbol' _ => ?_
  simp [Fetch.inFlight]

end Reset

/-! ### Moving fetches on -/

/-- A fetch that moves on is counted as it was or, once it has ended, no longer. -/
theorem inFlight_setFetch {s : Session} {i : ℕ} {fetch : Fetch}
    (hfetch : s.snapshotSigs[i]? = some fetch) (phase : FetchPhase) (symbol : NativeSymbol) :
    (s.setFetch i fetch phase).inFlight symbol +
        (if fetch.symbol = symbol ∧ fetch.inFlight then 1 else 0) =
      s.inFlight symbol + if fetch.symbol = symbol ∧ phase ≠ .finished then 1 else 0 := by
  obtain ⟨hi, hget⟩ := List.getElem?_eq_some_iff.mp hfetch
  have hset := (List.set_perm_cons_eraseIdx hi { fetch with phase }).countP_eq
    fun fetch => decide (fetch.symbol = symbol ∧ fetch.inFlight = true)
  have hold := (List.getElem_cons_eraseIdx_perm hi).countP_eq
    fun fetch => decide (fetch.symbol = symbol ∧ fetch.inFlight = true)
  rw [List.countP_cons] at hset hold
  rw [inFlight, inFlight, setFetch, hset, ← hold, hget]
  simp only [Fetch.inFlight, decide_eq_true_eq]
  omega

@[simp] theorem inFlight_stop (s : Session) (symbol : NativeSymbol) :
    s.stop.inFlight symbol = s.inFlight symbol := by
  simp only [inFlight, stop, List.countP_map]
  rfl

/-- An erased fetch had ended. -/
theorem inFlight_eraseIdx {s : Session} {i : ℕ} {fetch : Fetch}
    (hfetch : s.snapshotSigs[i]? = some fetch) (hphase : fetch.phase = .finished)
    (symbol : NativeSymbol) :
    ({ s with snapshotSigs := s.snapshotSigs.eraseIdx i }).inFlight symbol =
      s.inFlight symbol := by
  obtain ⟨hi, hget⟩ := List.getElem?_eq_some_iff.mp hfetch
  have hperm := List.getElem_cons_eraseIdx_perm hi
  rw [inFlight, inFlight, ← hperm.countP_eq, List.countP_cons_of_neg]
  simp [hget, Fetch.inFlight, hphase]

/-! ### Messages and responses -/

/-- A message of a covered symbol. -/
theorem dispatch_of_mem (s : Session) {symbol : NativeSymbol} (hsymbol : symbol ∈ cfg.symbols)
    (input : SyncInput) :
    s.dispatch cfg symbol input =
      let r := (s.driven cfg symbol).receive cfg.venue cfg.pair.policy input
      if r.2 then (s.put cfg symbol r.1).drop cfg else s.put cfg symbol r.1 :=
  if_pos hsymbol

/-- A fetched snapshot never forces a reconnect. -/
theorem onFetched_of_mem (s : Session) (hrest : cfg.pair.snapshotViaRest = true)
    {symbol : NativeSymbol} (hsymbol : symbol ∈ cfg.symbols) (snapshot : SnapshotMessage) :
    s.onFetched cfg symbol snapshot =
      s.put cfg symbol
        ((s.driven cfg symbol).receive cfg.venue cfg.pair.policy (.snapshot snapshot)).1 := by
  have htrusts := FeedPolicy.trusts_of_viaRest hrest
  have hreceived := Driven.received_snapshot cfg.pair.policy cfg.venue (s.driven cfg symbol)
    snapshot
  rw [onFetched, if_pos hsymbol]
  generalize (s.driven cfg symbol).receive _ _ _ = r at hreceived ⊢
  cases hreceived with
  | forced htrusts' => exact absurd (htrusts.symm.trans htrusts') (by decide)
  | _ => rfl

/-! ### Skipped texts -/

/-- A skipped text changes nothing but which snapshots have come. -/
theorem skip_eq (cfg : SessionConfig) (s : Session) (text : String) :
    ∃ seen, s.skip cfg text = { s with snapshotSeen := seen } := by
  rw [skip]
  split
  · exact ⟨s.snapshotSeen, rfl⟩
  · exact ⟨_, rfl⟩

theorem skip_snapshotSeen (cfg : SessionConfig) (s : Session) (text : String)
    (symbol : NativeSymbol) :
    (s.skip cfg text).snapshotSeen symbol =
      if cfg.skippedSnapshot text = some symbol then true else s.snapshotSeen symbol := by
  rw [skip]
  split
  · rename_i hnone
    rw [hnone, if_neg (by simp)]
  · rename_i symbol' hsome
    rw [hsome]
    by_cases heq : symbol' = symbol
    · simp [heq]
    · simp [heq, Function.update_of_ne (Ne.symm heq)]

/-! ### The step function as a relation -/

/-- `run()` and `start()` go from one phase to another, with the connection down before and
after: the next phase, and whether a cancellation is latched in it. -/
inductive RunMove (s : Session) : RunPhase → Bool → Prop
  | post (hrun : s.run = .idle) : RunMove s .startPosted s.runCancelled
  | refuse (hrun : s.run = .startPosted) (hstopping : s.stopping = true) :
      RunMove s .refused s.runCancelled
  | spawn (hrun : s.run = .startPosted) (hstopping : s.stopping = false) :
      RunMove s .spawned s.runCancelled
  | quit (hrun : s.run = .spawned) (hstopping : s.stopping = true) :
      RunMove s .returned s.runCancelled
  | abort (hrun : s.run = .spawned) (hcancelled : s.runCancelled = true) :
      RunMove s .threw s.runCancelled
  | connect (hrun : s.run = .spawned ∨ s.run = .backingOff) (hstopping : s.stopping = false) :
      RunMove s .connecting s.runCancelled
  | subscribe (hrun : s.run = .connecting) (hcancelled : s.runCancelled = false) :
      RunMove s .subscribing s.runCancelled
  | drain (hrun : s.run = .backingOff) (hstopping : s.stopping = true) :
      RunMove s .draining false
  | drained (hrun : s.run = .draining) (hsigs : s.snapshotSigs = []) :
      RunMove s .returned s.runCancelled
  | interrupted (hrun : s.run = .draining) (hcancelled : s.runCancelled = true) :
      RunMove s .threw s.runCancelled

theorem RunMove.down {s : Session} {run : RunPhase} {cancelled : Bool}
    (h : s.RunMove run cancelled) : s.run ≠ .reading ∧ run ≠ .reading := by
  cases h <;> simp_all
  rename_i hrun _
  rcases hrun with h | h <;> simp [h]

/-- A fetch coroutine goes from one phase to another and leaves its symbol alone. -/
inductive FetchMove (cfg : SessionConfig) (s : Session) (i : ℕ) :
    SessionEvent → Fetch → FetchPhase → Prop
  | begin {fetch : Fetch} (hphase : fetch.phase = .spawned)
      (hrest : cfg.pair.snapshotViaRest = true) (hstopping : s.stopping = false) :
      FetchMove cfg s i (.fetchBegin i) fetch .fetching
  | skip {fetch : Fetch} (hphase : fetch.phase = .spawned)
      (h : cfg.pair.snapshotViaRest = false ∨ s.stopping = true) :
      FetchMove cfg s i (.fetchBegin i) fetch .finished
  | discard {body : String} {fetch : Fetch} (hphase : fetch.phase = .fetching)
      (h : s.stopping = true ∨ cfg.parseSnapshotResponse fetch.symbol body = none) :
      FetchMove cfg s i (.fetchResponse i body) fetch .finished
  | failed {fetch : Fetch} (hphase : fetch.phase = .fetching)
      (hcancelled : fetch.cancelled = false) :
      FetchMove cfg s i (.fetchFailed i) fetch .backingOff
  | abort {fetch : Fetch} (hphase : fetch.phase = .fetching)
      (hcancelled : fetch.cancelled = true) : FetchMove cfg s i (.fetchFailed i) fetch .finished
  | again {fetch : Fetch} (hphase : fetch.phase = .backingOff)
      (hstopping : s.stopping = false) :
      FetchMove cfg s i (.fetchBackoffEnded i) fetch .fetching
  | giveUp {fetch : Fetch} (hphase : fetch.phase = .backingOff)
      (h : fetch.cancelled = true ∨ s.stopping = true) :
      FetchMove cfg s i (.fetchBackoffEnded i) fetch .finished

theorem FetchMove.inFlight {s : Session} {i : ℕ} {event : SessionEvent} {fetch : Fetch}
    {phase : FetchPhase} (h : FetchMove cfg s i event fetch phase) : fetch.inFlight := by
  cases h <;> simp_all [Fetch.inFlight]

/-- One step: the state before, the event, the state after. -/
inductive Move (cfg : SessionConfig) (s : Session) : SessionEvent → Session → Prop
  /-- The event does not fit the state, or changes nothing. -/
  | ignored {event : SessionEvent} : Move cfg s event s
  | run {event : SessionEvent} {run : RunPhase} {cancelled : Bool}
      (h : s.RunMove run cancelled) :
      Move cfg s event { s with run := run, runCancelled := cancelled }
  | stop : Move cfg s .stop s.stop
  | drop {event : SessionEvent}
      (hrun : s.run = .connecting ∨ s.run = .subscribing ∨ s.run = .reading) :
      Move cfg s event (s.drop cfg)
  | subscribed (hrun : s.run = .subscribing) (hcancelled : s.runCancelled = false) :
      Move cfg s .sendOk (s.subscribed cfg)
  | skipped {text : String} (hrun : s.run = .reading) (hcancelled : s.runCancelled = false)
      (hparse : cfg.parseMessage text = none) : Move cfg s (.read text) (s.skip cfg text)
  | snapshotMessage {text : String} {message : SnapshotMessage} (hrun : s.run = .reading)
      (hcancelled : s.runCancelled = false)
      (hparse : cfg.parseMessage text = some (.snapshot message)) :
      Move cfg s (.read text) (s.dispatchSnapshot cfg message)
  | depthMessage {text : String} {message : DepthUpdate} (hrun : s.run = .reading)
      (hcancelled : s.runCancelled = false)
      (hparse : cfg.parseMessage text = some (.depthUpdate message)) :
      Move cfg s (.read text) (s.dispatchDepthUpdate cfg message)
  | fetch {event : SessionEvent} {i : ℕ} {fetch : Fetch} {phase : FetchPhase}
      (hfetch : s.snapshotSigs[i]? = some fetch) (h : FetchMove cfg s i event fetch phase) :
      Move cfg s event (s.setFetch i fetch phase)
  | answered {i : ℕ} {body : String} {fetch : Fetch} {snapshot : SnapshotMessage}
      (hfetch : s.snapshotSigs[i]? = some fetch) (hphase : fetch.phase = .fetching)
      (hstopping : s.stopping = false)
      (hparse : cfg.parseSnapshotResponse fetch.symbol body = some snapshot) :
      Move cfg s (.fetchResponse i body)
        ((s.setFetch i fetch .finished).onFetched cfg fetch.symbol snapshot)
  | erased {i : ℕ} {fetch : Fetch} (hfetch : s.snapshotSigs[i]? = some fetch)
      (hphase : fetch.phase = .finished) :
      Move cfg s (.fetchErased i) { s with snapshotSigs := s.snapshotSigs.eraseIdx i }
  | otherCall {ref : BookRef} {call : BookCall} (hne : call.venue ≠ cfg.venue) :
      Move cfg s (.otherCall ref call)
        { s with books := Function.update s.books ref ((s.books ref).call call).2 }

private theorem runStep_move (s : Session) (event : SessionEvent) :
    Move cfg s event (s.runStep cfg event).1 := by
  cases event with
  | start =>
    simp only [runStep]
    split
    · exact .run (.post ‹_›)
    · exact .ignored
  | startRun =>
    simp only [runStep]
    split
    · by_cases hstopping : s.stopping = true
      · rw [if_pos hstopping]
        exact .run (.refuse ‹_› hstopping)
      · rw [if_neg hstopping]
        exact .run (.spawn ‹_› (by simpa using hstopping))
    · exact .ignored
  | stop => exact .stop
  | runBegin =>
    simp only [runStep]
    split
    · split
      · exact .run (.quit ‹_› ‹_›)
      · exact .run (.connect (.inl ‹_›) (by simpa using ‹¬ s.stopping = true›))
    · exact .ignored
  | runAborted =>
    simp only [runStep]
    split
    · rename_i h
      exact .run (.abort h.1 h.2)
    · exact .ignored
  | connectOk =>
    simp only [runStep]
    split
    · cases hcancelled : s.runCancelled with
      | true =>
        simp only [unlessCancelled, hcancelled, if_true]
        exact .drop (.inl ‹_›)
      | false =>
        simp only [unlessCancelled, hcancelled, Bool.false_eq_true, if_false]
        exact hcancelled ▸ .run (.subscribe ‹_› hcancelled)
    · exact .ignored
  | connectFailed =>
    simp only [runStep]
    split
    · exact .drop (.inl ‹_›)
    · exact .ignored
  | sendOk =>
    simp only [runStep]
    split
    · cases hcancelled : s.runCancelled with
      | true =>
        simp only [unlessCancelled, hcancelled, if_true]
        exact .drop (.inr (.inl ‹_›))
      | false =>
        simp only [unlessCancelled, hcancelled, Bool.false_eq_true, if_false]
        exact .subscribed ‹_› hcancelled
    · exact .ignored
  | sendFailed =>
    simp only [runStep]
    split
    · exact .drop (.inr (.inl ‹_›))
    · exact .ignored
  | read text =>
    simp only [runStep]
    split
    · cases hcancelled : s.runCancelled with
      | true =>
        simp only [unlessCancelled, hcancelled, if_true]
        exact .drop (.inr (.inr ‹_›))
      | false =>
        simp only [unlessCancelled, hcancelled, Bool.false_eq_true, if_false, onText]
        split
        · exact .skipped ‹_› hcancelled ‹_›
        · exact .snapshotMessage ‹_› hcancelled ‹_›
        · exact .depthMessage ‹_› hcancelled ‹_›
    · exact .ignored
  | readFailed =>
    simp only [runStep]
    split
    · exact .drop (.inr (.inr ‹_›))
    · exact .ignored
  | backoffEnded =>
    simp only [runStep]
    split
    · split
      · exact .run (.drain ‹_› ‹_›)
      · exact .run (.connect (.inr ‹_›) (by simpa using ‹¬ s.stopping = true›))
    · exact .ignored
  | drainPoll =>
    simp only [runStep]
    split
    · split
      · exact .run (.drained ‹_› ‹_›)
      · split
        · exact .run (.interrupted ‹_› ‹_›)
        · exact .ignored
    · exact .ignored
  | fetchBegin | fetchResponse | fetchFailed | fetchBackoffEnded | fetchErased | otherCall =>
    exact .ignored

private theorem fetchStep_move {s : Session} {i : ℕ} {fetch : Fetch} (event : SessionEvent)
    (hevent : (∃ body, event = .fetchResponse i body) ∨ event = .fetchBegin i ∨
      event = .fetchFailed i ∨ event = .fetchBackoffEnded i ∨ event = .fetchErased i)
    (hfetch : s.snapshotSigs[i]? = some fetch) :
    Move cfg s event (s.fetchStep cfg i fetch event) := by
  rcases hevent with ⟨body, rfl⟩ | rfl | rfl | rfl | rfl
  · simp only [fetchStep]
    split
    · rename_i hphase
      rw [onBody]
      split
      · rename_i hstopping
        exact .fetch hfetch (.discard hphase (.inl hstopping))
      · rename_i hstopping
        split
        · rename_i hparse
          exact .fetch hfetch (.discard hphase (.inr hparse))
        · rename_i hparse
          exact .answered hfetch hphase (by simpa [setFetch] using hstopping) hparse
    · exact .ignored
  · simp only [fetchStep]
    split
    · by_cases h : cfg.pair.snapshotViaRest = false ∨ s.stopping = true
      · rw [if_pos h]
        exact .fetch hfetch (.skip ‹_› h)
      · rw [if_neg h]
        push Not at h
        exact .fetch hfetch (.begin ‹_› (by simpa using h.1) (by simpa using h.2))
    · exact .ignored
  · simp only [fetchStep]
    split
    · cases hcancelled : fetch.cancelled with
      | true => exact .fetch hfetch (.abort ‹_› hcancelled)
      | false => exact .fetch hfetch (.failed ‹_› hcancelled)
    · exact .ignored
  · simp only [fetchStep]
    split
    · by_cases h : fetch.cancelled = true ∨ s.stopping = true
      · rw [if_pos h]
        exact .fetch hfetch (.giveUp ‹_› h)
      · rw [if_neg h]
        push Not at h
        exact .fetch hfetch (.again ‹_› (by simpa using h.2))
    · exact .ignored
  · simp only [fetchStep]
    split
    · exact .erased hfetch ‹_›
    · exact .ignored

/-- **The step function takes the relation's moves.** -/
theorem step_move (s : Session) (event : SessionEvent) : Move cfg s event (s.step cfg event).1 := by
  have hfetch : ∀ i, (s.snapshotSigs[i]? = none → (s.step cfg event).1 = s) →
      (∀ fetch, s.snapshotSigs[i]? = some fetch →
        (s.step cfg event).1 = s.fetchStep cfg i fetch event) →
      ((∃ body, event = .fetchResponse i body) ∨ event = .fetchBegin i ∨
        event = .fetchFailed i ∨ event = .fetchBackoffEnded i ∨ event = .fetchErased i) →
      Move cfg s event (s.step cfg event).1 := by
    intro i hnone hsome hevent
    cases hget : s.snapshotSigs[i]? with
    | none =>
      rw [hnone hget]
      exact .ignored
    | some fetch =>
      rw [hsome fetch hget]
      exact fetchStep_move event hevent hget
  cases event with
  | fetchBegin i =>
    exact hfetch i (by simp +contextual [step]) (by simp +contextual [step]) (by simp)
  | fetchResponse i body =>
    exact hfetch i (by simp +contextual [step]) (by simp +contextual [step]) (by simp)
  | fetchFailed i =>
    exact hfetch i (by simp +contextual [step]) (by simp +contextual [step]) (by simp)
  | fetchBackoffEnded i =>
    exact hfetch i (by simp +contextual [step]) (by simp +contextual [step]) (by simp)
  | fetchErased i =>
    exact hfetch i (by simp +contextual [step]) (by simp +contextual [step]) (by simp)
  | otherCall ref call =>
    simp only [step]
    split
    · exact .ignored
    · exact .otherCall ‹_›
  | _ => exact runStep_move s _

end Session

end Hermeneutic
