import Hermeneutic.Ingestion.SessionMoves

/-!
# What holds between the steps of a venue session

`SessionInv` collects what the phases of a session mean. While the session is not reading,
every `SymbolSync` is in its initial state and the venue has no entry in any book the session
feeds. A fetch exists only after a first subscription and before the drain has ended, and it
is under way only for a feed whose snapshots come over REST. Only a stopping session has a
latched cancellation, and a stopping session that is inside the `try` block of `run()` has
one, so its next completed wait throws.

Every move keeps all of it (`SessionInv.move`).

The invariant is about phases only, not about books or ids, so the lemmas that keep it are about
the few operations that change a phase: `put` writes one symbol back, `drop` and `subscribed` do
so for all of them, `setFetch` moves a fetch on. A session that is stopping may still be anywhere
in its loop; what it may not do is complete another wait inside the `try` block.
`sessionInv_state` is the run lemma. Requests, progress and shutdown are each proved on top of it.
-/

namespace Hermeneutic

/-- No fetch has been spawned yet, or every one has been waited for. -/
def RunPhase.quiet : RunPhase → Bool
  | idle | startPosted | refused | spawned | returned => true
  | _ => false

/-- Entered by a stopping session only. -/
def RunPhase.final : RunPhase → Bool
  | refused | draining | returned | threw => true
  | _ => false

/-- Inside the `try` block of `run()`. -/
def RunPhase.inTry : RunPhase → Bool
  | connecting | subscribing | reading => true
  | _ => false

/-- What holds of a fetch. -/
structure FetchInv (cfg : SessionConfig) (stopping : Bool) (fetch : Fetch) : Prop where
  ours : fetch.symbol ∈ cfg.symbols
  cancelled : fetch.cancelled = true → stopping = true
  viaRest : fetch.phase = .fetching ∨ fetch.phase = .backingOff →
    cfg.pair.snapshotViaRest = true

/-- What holds of a session. -/
structure SessionInv (cfg : SessionConfig) (s : Session) : Prop where
  reset : s.run ≠ .reading → ∀ symbol ∈ cfg.symbols, s.syncs symbol = {}
  cleared : s.run ≠ .reading → s.Cleared cfg
  unseen : s.run ≠ .reading → ∀ symbol, s.snapshotSeen symbol = false
  fetches : ∀ fetch ∈ s.snapshotSigs, FetchInv cfg s.stopping fetch
  quiet : s.run.quiet = true → s.snapshotSigs = []
  final : s.run.final = true → s.stopping = true
  latched : s.runCancelled = true → s.stopping = true
  aborting : s.stopping = true → s.run.inTry = true → s.runCancelled = true

namespace SessionInv

open Session

variable {cfg : SessionConfig} {s : Session}

theorem init : SessionInv cfg {} where
  reset _ _ _ := rfl
  cleared _ symbol _ := by
    simp only [driven, Driven.entry]
    cases cfg.registry symbol <;> rfl
  unseen _ _ := rfl
  fetches := by simp
  quiet _ := rfl
  final h := absurd h (by decide)
  latched h := absurd h (by decide)
  aborting h := absurd h (by decide)

/-- A session that was told to stop and is inside the `try` block has a latched
cancellation. -/
theorem running (h : SessionInv cfg s) (htry : s.run.inTry = true)
    (hcancelled : s.runCancelled = false) : s.stopping = false := by
  refine Bool.eq_false_iff.mpr fun hstopping => ?_
  exact absurd (hcancelled.symm.trans (h.aborting hstopping htry)) (by decide)

theorem fetch_of_getElem? (h : SessionInv cfg s) {i : ℕ} {fetch : Fetch}
    (hfetch : s.snapshotSigs[i]? = some fetch) : FetchInv cfg s.stopping fetch :=
  h.fetches fetch (List.mem_of_getElem? hfetch)

private theorem not_quiet (h : SessionInv cfg s) {i : ℕ} {fetch : Fetch}
    (hfetch : s.snapshotSigs[i]? = some fetch) : s.run.quiet = false := by
  refine Bool.eq_false_iff.mpr fun hquiet => ?_
  rw [h.quiet hquiet] at hfetch
  exact absurd hfetch (by simp)

theorem run (h : SessionInv cfg s) {run : RunPhase} {cancelled : Bool}
    (hmove : s.RunMove run cancelled) :
    SessionInv cfg { s with run := run, runCancelled := cancelled } where
  reset _ := h.reset hmove.down.1
  cleared _ := h.cleared hmove.down.1
  unseen _ := h.unseen hmove.down.1
  fetches := h.fetches
  quiet hquiet := by
    replace hquiet : run.quiet = true := hquiet
    cases hmove with
    | post hrun | refuse hrun | spawn hrun | quit hrun => exact h.quiet (by rw [hrun]; rfl)
    | drained _ hsigs => exact hsigs
    | _ => exact absurd hquiet (by decide)
  final hfinal := by
    replace hfinal : run.final = true := hfinal
    cases hmove with
    | refuse _ hstopping | quit _ hstopping | drain _ hstopping => exact hstopping
    | abort _ hcancelled => exact h.latched hcancelled
    | drained hrun | interrupted hrun => exact h.final (by rw [hrun]; rfl)
    | _ => exact absurd hfinal (by decide)
  latched hcancelled := by
    replace hcancelled : cancelled = true := hcancelled
    cases hmove with
    | drain => exact absurd hcancelled (by decide)
    | _ => exact h.latched hcancelled
  aborting hstopping htry := by
    replace htry : run.inTry = true := htry
    cases hmove with
    | connect _ hfalse => exact absurd (hfalse.symm.trans hstopping) (by decide)
    | subscribe hrun => exact h.aborting hstopping (by rw [hrun]; rfl)
    | _ => exact absurd htry (by decide)

theorem stop (h : SessionInv cfg s) : SessionInv cfg s.stop where
  reset := h.reset
  cleared := h.cleared
  unseen := h.unseen
  fetches fetch hmem := by
    obtain ⟨fetch, hfetch, rfl⟩ := List.mem_map.mp hmem
    exact ⟨(h.fetches fetch hfetch).ours, fun _ => rfl, (h.fetches fetch hfetch).viaRest⟩
  quiet hquiet := by
    simp only [Session.stop, h.quiet hquiet, List.map_nil]
  final _ := rfl
  latched _ := rfl
  aborting _ htry := by
    have hbound : s.runBound = true := by
      simp only [Session.stop] at htry
      cases hrun : s.run <;> simp [hrun, runBound, RunPhase.inTry] at htry ⊢
    simp [Session.stop, hbound]

theorem drop (h : SessionInv cfg s) : SessionInv cfg (s.drop cfg) where
  reset _ symbol hsymbol := drop_syncs s hsymbol
  cleared _ := drop_cleared s
  unseen _ symbol := drop_snapshotSeen s symbol
  fetches := by simpa using h.fetches
  quiet hquiet := by
    rw [drop_run] at hquiet
    split at hquiet <;> exact absurd hquiet (by decide)
  final hfinal := by
    rw [drop_run] at hfinal
    split at hfinal
    · simpa using ‹s.stopping = true›
    · exact absurd hfinal (by decide)
  latched hcancelled := by simp at hcancelled
  aborting _ htry := by
    rw [drop_run] at htry
    split at htry <;> exact absurd htry (by decide)

theorem subscribed (h : SessionInv cfg s) (hrun : s.run = .subscribing) :
    SessionInv cfg (s.subscribed cfg) where
  reset hne := absurd (subscribed_run s) hne
  cleared hne := absurd (subscribed_run s) hne
  unseen hne := absurd (subscribed_run s) hne
  fetches fetch hmem := by
    rw [subscribed_snapshotSigs (h.reset (by simp [hrun]))] at hmem
    rw [subscribed_stopping]
    rcases List.mem_append.mp hmem with hmem | hmem
    · exact h.fetches fetch hmem
    · split at hmem
      · simp at hmem
      · obtain ⟨symbol, hsymbol, rfl⟩ := List.mem_map.mp hmem
        exact ⟨hsymbol, by simp, by simp⟩
  quiet hquiet := by simp [RunPhase.quiet] at hquiet
  final hfinal := by simp [RunPhase.final] at hfinal
  latched hcancelled := by simpa using h.latched (by simpa using hcancelled)
  aborting hstopping _ := by
    simpa using h.aborting (by simpa using hstopping) (by rw [hrun]; rfl)

/-- A symbol may be written back while reading, and otherwise if it stays in its initial
state and its book is left alone. -/
theorem put (h : SessionInv cfg s) {symbol : NativeSymbol} (hsymbol : symbol ∈ cfg.symbols)
    {d : Driven} (hquiet : s.run.quiet = false)
    (hdown : s.run ≠ .reading → d.sync = {} ∧ d.book = (s.driven cfg symbol).book) :
    SessionInv cfg (s.put cfg symbol d) where
  reset hne symbol' hsymbol' := by
    rw [put_syncs, (hdown hne).1]
    by_cases heq : symbol' = symbol
    · rw [heq, Function.update_self]
    · rw [Function.update_of_ne heq]
      exact h.reset hne symbol' hsymbol'
  cleared hne symbol' hsymbol' := by
    have hbooks := put_books s symbol (hdown hne).2
    have := h.cleared hne symbol' hsymbol'
    simpa only [driven, Driven.entry, hbooks] using this
  unseen := h.unseen
  fetches fetch hmem := by
    rw [put_snapshotSigs] at hmem
    rcases List.mem_append.mp hmem with hmem | hmem
    · exact h.fetches fetch hmem
    · split at hmem
      · simp at hmem
      · obtain ⟨_, -, rfl⟩ := List.mem_map.mp hmem
        exact ⟨hsymbol, by simp, by simp⟩
  quiet hquiet' := absurd (hquiet.symm.trans hquiet') (by decide)
  final := h.final
  latched := h.latched
  aborting := h.aborting

theorem dispatch (h : SessionInv cfg s) (hrun : s.run = .reading) (symbol : NativeSymbol)
    (input : SyncInput) : SessionInv cfg (s.dispatch cfg symbol input) := by
  by_cases hsymbol : symbol ∈ cfg.symbols
  · have hput := h.put hsymbol
      (d := ((s.driven cfg symbol).receive cfg.venue cfg.pair.policy input).1)
      (by rw [hrun]; rfl) fun hne => absurd hrun hne
    rw [dispatch_of_mem s hsymbol]
    simp only
    split
    · exact hput.drop
    · exact hput
  · rw [Session.dispatch, if_neg hsymbol]
    exact h

theorem setFetch (h : SessionInv cfg s) {i : ℕ} {fetch : Fetch}
    (hfetch : s.snapshotSigs[i]? = some fetch) {phase : FetchPhase}
    (hphase : phase = .fetching ∨ phase = .backingOff → cfg.pair.snapshotViaRest = true) :
    SessionInv cfg (s.setFetch i fetch phase) where
  reset := h.reset
  cleared := h.cleared
  unseen := h.unseen
  fetches fetch' hmem := by
    have hinv := h.fetch_of_getElem? hfetch
    rcases List.mem_or_eq_of_mem_set hmem with hmem | rfl
    · exact h.fetches fetch' hmem
    · exact ⟨hinv.ours, hinv.cancelled, hphase⟩
  quiet hquiet := absurd ((h.not_quiet hfetch).symm.trans hquiet) (by decide)
  final := h.final
  latched := h.latched
  aborting := h.aborting

theorem onFetched (h : SessionInv cfg s) (hrest : cfg.pair.snapshotViaRest = true)
    (hquiet : s.run.quiet = false) {symbol : NativeSymbol} (hsymbol : symbol ∈ cfg.symbols)
    (snapshot : SnapshotMessage) : SessionInv cfg (s.onFetched cfg symbol snapshot) := by
  rw [onFetched_of_mem s hrest hsymbol]
  refine h.put hsymbol hquiet fun hne => ?_
  rw [Driven.receive_snapshot_of_reset (FeedPolicy.trusts_of_viaRest hrest)
    (h.reset hne symbol hsymbol)]
  exact ⟨h.reset hne symbol hsymbol, rfl⟩

theorem otherCall (h : SessionInv cfg s) (ref : BookRef) {call : BookCall}
    (hne : call.venue ≠ cfg.venue) :
    SessionInv cfg
      { s with books := Function.update s.books ref ((s.books ref).call call).2 } where
  reset := h.reset
  cleared hdown symbol hsymbol := by
    have hold := h.cleared hdown symbol hsymbol
    simp only [driven, Driven.entry] at hold ⊢
    cases hregistry : cfg.registry symbol with
    | none => rfl
    | some ref' =>
      rw [hregistry] at hold
      by_cases heq : ref' = ref
      · subst heq
        simpa [LoggedBook.entry_call, hne] using hold
      · simpa [heq] using hold
  unseen := h.unseen
  fetches := h.fetches
  quiet := h.quiet
  final := h.final
  latched := h.latched
  aborting := h.aborting

/-- **Step lemma.** -/
theorem move (h : SessionInv cfg s) {event : SessionEvent} {t : Session}
    (hmove : Move cfg s event t) : SessionInv cfg t := by
  cases hmove with
  | ignored => exact h
  | run hmove => exact h.run hmove
  | stop => exact h.stop
  | drop => exact h.drop
  | subscribed hrun => exact h.subscribed hrun
  | @skipped text hrun =>
    obtain ⟨seen, hskip⟩ := skip_eq cfg s text
    rw [hskip]
    exact ⟨h.reset, h.cleared, fun hne => absurd hrun hne, h.fetches, h.quiet, h.final,
      h.latched, h.aborting⟩
  | @snapshotMessage _ message hrun =>
    have hseen : SessionInv cfg { s with
        snapshotSeen := Function.update s.snapshotSeen message.symbol true } :=
      ⟨h.reset, h.cleared, fun hne => absurd hrun hne, h.fetches, h.quiet, h.final, h.latched,
        h.aborting⟩
    exact hseen.dispatch hrun _ _
  | depthMessage hrun => exact h.dispatch hrun _ _
  | @fetch event i fetch phase hfetch hmove =>
    refine h.setFetch hfetch fun hphase => ?_
    cases hmove with
    | begin _ hrest => exact hrest
    | failed hfetching => exact (h.fetch_of_getElem? hfetch).viaRest (.inl hfetching)
    | again hbackingOff => exact (h.fetch_of_getElem? hfetch).viaRest (.inr hbackingOff)
    | _ => exact absurd hphase (by decide)
  | answered hfetch hphase =>
    have hinv := h.fetch_of_getElem? hfetch
    exact (h.setFetch hfetch (by simp)).onFetched (hinv.viaRest (.inl hphase))
      (h.not_quiet hfetch) hinv.ours _
  | erased hfetch =>
    exact ⟨h.reset, h.cleared, h.unseen,
      fun fetch hmem => h.fetches fetch (List.mem_of_mem_eraseIdx hmem),
      fun hquiet => absurd ((h.not_quiet hfetch).symm.trans hquiet) (by decide), h.final,
      h.latched, h.aborting⟩
  | otherCall hne => exact h.otherCall _ hne

theorem step (h : SessionInv cfg s) (event : SessionEvent) :
    SessionInv cfg (s.step cfg event).1 := h.move (step_move s event)

end SessionInv

/-- **Run lemma.** -/
theorem sessionInv_state (cfg : SessionConfig) (events : List SessionEvent) :
    SessionInv cfg ((sessionMachine cfg).state {} events) :=
  Machine.invariant SessionInv.init (fun _ event h => h.step event) events

end Hermeneutic
