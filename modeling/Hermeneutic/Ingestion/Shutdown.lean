import Hermeneutic.Ingestion.SessionInvariant

/-!
# Stopping a venue session

`stop()` may come before, during or after anything else. Once `run()` has returned, the
session is over: it has no fetch left, no entry in any book it feeds, and nothing it does
afterwards changes a book. And from the moment `stop()` has been processed the session begins
no connection attempt.

`SessionInv` says what `run()` leaves when it returns, since the last thing it does to a book
is the invalidation and a fetch that is answered after that is discarded. What remains is that
being over, and being told to stop, are for good.
-/

namespace Hermeneutic

/-- The event is a step of the session, not another venue's call. -/
def SessionEvent.own : SessionEvent → Bool
  | otherCall _ _ => false
  | _ => true

namespace SessionInv

open Session

variable {cfg : SessionConfig} {s : Session}

/-- A session that was told to stop stays so. -/
private theorem stopping_step (h : SessionInv cfg s) (hstopping : s.stopping = true)
    (event : SessionEvent) : (s.step cfg event).1.stopping = true := by
  have hmove := @step_move cfg s event
  generalize (s.step cfg event).1 = t at hmove
  cases hmove with
  | ignored | run | fetch | erased | otherCall => exact hstopping
  | stop => rfl
  | drop => rwa [drop_stopping]
  | subscribed => rwa [subscribed_stopping]
  | skipped hrun hcancelled | snapshotMessage hrun hcancelled | depthMessage hrun hcancelled =>
    have hrunning := h.running (by rw [hrun]; rfl) hcancelled
    exact absurd (hrunning.symm.trans hstopping) (by decide)
  | answered _ _ hrunning => exact absurd (hrunning.symm.trans hstopping) (by decide)

/-- A session whose `run()` has returned stays so and makes no further call on a book. -/
private theorem returned_step (h : SessionInv cfg s) (hrun : s.run = .returned)
    (event : SessionEvent) :
    (s.step cfg event).1.run = .returned ∧
      (event.own = true → (s.step cfg event).1.books = s.books) := by
  have hsigs : s.snapshotSigs = [] := h.quiet (by rw [hrun]; rfl)
  have hmove := @step_move cfg s event
  generalize (s.step cfg event).1 = t at hmove
  cases hmove with
  | ignored | stop => exact ⟨hrun, fun _ => rfl⟩
  | run hmove => cases hmove <;> simp [hrun] at *
  | drop htry => simp [hrun] at htry
  | subscribed hrun' | skipped hrun' | snapshotMessage hrun' | depthMessage hrun' =>
    simp [hrun] at hrun'
  | fetch hfetch | answered hfetch | erased hfetch => simp [hsigs] at hfetch
  | otherCall => exact ⟨hrun, fun hown => absurd hown Bool.false_ne_true⟩

private theorem returned_state (h : SessionInv cfg s) (hrun : s.run = .returned)
    (later : List SessionEvent) :
    SessionInv cfg ((sessionMachine cfg).state s later) ∧
      ((sessionMachine cfg).state s later).run = .returned :=
  Machine.invariant (M := sessionMachine cfg)
    (I := fun t => SessionInv cfg t ∧ t.run = .returned) ⟨h, hrun⟩
    (fun _ event ht => ⟨ht.1.step event, (ht.1.returned_step ht.2 event).1⟩) later

/-- A session that was told to stop begins no connection attempt. -/
private theorem step_outputs (cfg : SessionConfig) (hstopping : s.stopping = true)
    (event : SessionEvent) : (s.step cfg event).2 = [] := by
  cases event with
  | stop => rfl
  | runBegin | backoffEnded =>
    simp only [Session.step, runStep, hstopping, if_true]
    split <;> rfl
  | fetchBegin | fetchResponse | fetchFailed | fetchBackoffEnded | fetchErased | otherCall =>
    simp only [Session.step]
    split <;> rfl
  | drainPoll =>
    simp only [Session.step, runStep]
    split
    · split
      · rfl
      · split <;> rfl
    · rfl
  | _ =>
    simp only [Session.step, runStep]
    split <;> rfl

private theorem outputs_of_stopping (h : SessionInv cfg s) (hstopping : s.stopping = true)
    (later : List SessionEvent) : (sessionMachine cfg).output s later = [] := by
  induction later generalizing s with
  | nil => rfl
  | cons event later ih =>
    rw [Machine.output_cons, List.append_eq_nil_iff]
    exact ⟨step_outputs cfg hstopping event,
      ih (h.step event) (h.stopping_step hstopping event)⟩

end SessionInv

/-- **Shutdown.** After any run: if `run()` has returned, no fetch is left, no book the session
feeds has an entry of its venue, and no later step of the session changes any book; and once
`stop()` has been processed no connection attempt begins. -/
theorem shutdown (cfg : SessionConfig) (events : List SessionEvent) :
    let s := (sessionMachine cfg).state {} events
    (s.run = .returned →
      s.snapshotSigs = [] ∧
      (∀ symbol ∈ cfg.symbols, ∀ ref, cfg.registry symbol = some ref →
        (s.books ref).entry cfg.venue = none) ∧
      ∀ later event, event.own = true →
        ((sessionMachine cfg).state s (later ++ [event])).books =
          ((sessionMachine cfg).state s later).books) ∧
    (s.stopping = true → ∀ later,
      SessionOutput.connectAttempt ∉ (sessionMachine cfg).output s later) := by
  intro s
  have hinv : SessionInv cfg s := sessionInv_state cfg events
  refine ⟨fun hrun => ⟨hinv.quiet (by rw [hrun]; rfl), ?_, ?_⟩, fun hstopping later => ?_⟩
  · intro symbol hsymbol ref hregistry
    have hcleared := hinv.cleared (by simp [hrun]) symbol hsymbol
    simpa [Session.driven, Driven.entry, hregistry] using hcleared
  · intro later event hown
    obtain ⟨hinv', hrun'⟩ := hinv.returned_state hrun later
    rw [Machine.state_concat]
    exact (hinv'.returned_step hrun' event).2 hown
  · rw [hinv.outputs_of_stopping hstopping later]
    exact List.not_mem_nil

/-- Stopped with a fetch in flight: the read is aborted, then the fetch, and the drain waits
for its erasure. -/
def stoppedRun : List SessionEvent :=
  [.start, .startRun, .runBegin, .connectOk, .sendOk, .fetchBegin 0, .stop, .readFailed,
    .drainPoll, .fetchFailed 0, .drainPoll, .fetchErased 0, .drainPoll]

theorem shutdown_sample :
    let s := (sessionMachine (oneSymbol fun _ _ => none)).state {} stoppedRun
    s.run = .returned ∧ s.snapshotSigs = [] ∧ (s.books 0).entry ⟨.binance, .perp⟩ = none := by
  have hreturned : ((sessionMachine (oneSymbol fun _ _ => none)).state {} stoppedRun).run =
      .returned := by decide
  obtain ⟨hsigs, hentries, -⟩ := (shutdown (oneSymbol fun _ _ => none) stoppedRun).1 hreturned
  exact ⟨hreturned, hsigs, hentries "BTCUSDT" (by decide) 0 rfl⟩

end Hermeneutic
