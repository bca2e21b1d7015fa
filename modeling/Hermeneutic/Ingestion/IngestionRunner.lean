import Mathlib.Data.Fintype.Card
import Mathlib.Data.List.Induction
import Hermeneutic.ForMathlib.Machine

/-!
# The drain callback of a group of sessions

`IngestionRunner` (`ingestion/ingestion_runner.hpp`) starts a group of sessions on one
`std::barrier`: the completion of each session arrives at it, and the last arrival evaluates
the completion function, which calls `on_all_drained` if `stop_all()` has been requested by
then. Its contract is that the callback fires exactly once, after every session has completed
*and* `stop_all()` has been called.

The conjunction is evaluated at one of its two sides only. `onAllDrained_eq` says what follows
on the runs where `stop_all()` is called while a session is still running: the callback fires
exactly when both have happened. `onAllDrained_iff` says that these are the only runs on which
the contract holds: once the last session has completed unasked, a later `stop_all()` finds
nobody left to arrive.

The model is the barrier, with its count of arrivals still missing, and the flag; what it outputs
is the callback. A run is any interleaving of completions and stops, and nothing is assumed about
which comes first. `Drained` says of a run that both have happened, `StopsInTime` that the stop,
if there is one, first came while a session was still running.
-/

namespace Hermeneutic

/-- The phase of a `std::barrier`: the arrivals a phase takes, and those it still waits for. -/
structure Barrier where
  expected : ℕ
  pending : ℕ
  deriving DecidableEq, Repr

namespace Barrier

/-- A new barrier, `std::barrier(expected)`. -/
def new (expected : ℕ) : Barrier := ⟨expected, expected⟩

/-- `arrive()`: the last arrival of a phase completes it, and the next phase begins. -/
def arrive (b : Barrier) : Barrier × Bool :=
  if b.pending = 1 then (new b.expected, true) else ({ b with pending := b.pending - 1 }, false)

end Barrier

/-- The part of `IngestionRunner` its callback depends on. -/
structure IngestionRunner where
  stopRequested : Bool
  barrier : Option Barrier
  deriving DecidableEq, Repr

/-- What a runner does that its caller sees. -/
inductive RunnerOutput
  | onAllDrained
  deriving DecidableEq, Repr

namespace IngestionRunner

/-- A runner that has not been started. -/
def initial : IngestionRunner := ⟨false, none⟩

/-- `start_all()` with a callback: without sessions it fires inline. -/
def startAll (sessions : ℕ) (r : IngestionRunner) : IngestionRunner × List RunnerOutput :=
  if sessions = 0 then (r, [.onAllDrained])
  else ({ r with barrier := some (.new sessions) }, [])

/-- The completion of a session, for whatever reason: it arrives at the barrier. -/
def sessionDone (r : IngestionRunner) : IngestionRunner × List RunnerOutput :=
  match r.barrier with
  | none => (r, [])
  | some barrier =>
    let (barrier, last) := barrier.arrive
    -- the completion function runs on the last arrival, and reads `stop_requested_` there only
    ({ r with barrier := some barrier },
      if last && r.stopRequested then [.onAllDrained] else [])

/-- `stop_all()`: the sessions it asks to stop complete by events of their own. -/
def stopAll (r : IngestionRunner) : IngestionRunner × List RunnerOutput :=
  ({ r with stopRequested := true }, [])

end IngestionRunner

/-- What happens to a started runner of `n` sessions. -/
inductive RunnerEvent (n : ℕ)
  | sessionDone (session : Fin n)
  | stopAll
  deriving DecidableEq, Repr

namespace RunnerEvent

variable {n : ℕ}

/-- The session an event completes. -/
def session? : RunnerEvent n → Option (Fin n)
  | sessionDone session => some session
  | stopAll => none

/-- The sessions completed along a run, in order. -/
def completed (es : List (RunnerEvent n)) : List (Fin n) := es.filterMap session?

/-- Every session has completed and `stop_all()` has been called. -/
def Drained (es : List (RunnerEvent n)) : Prop :=
  (∀ session, session ∈ completed es) ∧ stopAll ∈ es

instance (es : List (RunnerEvent n)) : Decidable (Drained es) :=
  inferInstanceAs (Decidable (_ ∧ _))

/-- `stop_all()`, if it is called, is first called while some session is still running. -/
def StopsInTime (es : List (RunnerEvent n)) : Prop :=
  ∀ pre, pre ++ [stopAll] <+: es → stopAll ∈ pre ∨ ∃ session, session ∉ completed pre

private theorem completed_concat_done (es : List (RunnerEvent n)) (session : Fin n) :
    completed (es ++ [sessionDone session]) = completed es ++ [session] := by
  simp [completed, session?]

private theorem completed_concat_stop (es : List (RunnerEvent n)) :
    completed (es ++ [stopAll]) = completed es := by
  simp [completed, session?]

/-- Sessions that complete once each have all completed when there are as many. -/
private theorem length_completed_eq_iff {es : List (RunnerEvent n)} (h : (completed es).Nodup) :
    (completed es).length = n ↔ ∀ session, session ∈ completed es := by
  have hcard := Finset.card_eq_iff_eq_univ (completed es).toFinset
  rw [List.toFinset_card_of_nodup h, Fintype.card_fin, Finset.eq_univ_iff_forall] at hcard
  simpa only [List.mem_toFinset] using hcard

private theorem length_completed_le {es : List (RunnerEvent n)} (h : (completed es).Nodup) :
    (completed es).length ≤ n := by
  simpa using h.length_le_card

private theorem StopsInTime.of_initial {es pre : List (RunnerEvent n)} (h : StopsInTime es)
    (hpre : pre <+: es) : StopsInTime pre :=
  fun pre' hpre' => h pre' (hpre'.trans hpre)

private theorem nodup_of_initial {es pre : List (RunnerEvent n)} (h : (completed es).Nodup)
    (hpre : pre <+: es) : (completed pre).Nodup :=
  h.sublist (hpre.sublist.filterMap session?)

/-- Without a call there is nothing to be late. -/
private theorem stopsInTime_of_notMem {es : List (RunnerEvent n)} (h : stopAll ∉ es) :
    StopsInTime es :=
  fun _ hpre => absurd (hpre.subset (List.mem_append_right _ List.mem_cons_self)) h

end RunnerEvent

/-- A runner of `n` sessions, fed their completions and the calls of `stop_all()`. -/
def runnerMachine (n : ℕ) : Machine IngestionRunner (RunnerEvent n) RunnerOutput where
  step
    | r, .sessionDone _ => r.sessionDone
    | r, .stopAll => r.stopAll

/-- A runner of `n` sessions just started. -/
def startedRunner (n : ℕ) : IngestionRunner := (IngestionRunner.initial.startAll n).1

section Runs

open RunnerEvent

variable {n : ℕ} {es : List (RunnerEvent n)}

/-- The contract of the callback, at the end of a run: it has fired once if everything is
drained, and not at all otherwise. -/
def ContractHolds (es : List (RunnerEvent n)) : Prop :=
  (Drained es → (runnerMachine n).output (startedRunner n) es = [.onAllDrained]) ∧
    (¬Drained es → (runnerMachine n).output (startedRunner n) es = [])

/-- The state after a run in which every session completes at most once: the request, and a
barrier that waits for the sessions still running. -/
private theorem state_runner (hn : 0 < n) (hnodup : (completed es).Nodup) :
    ∃ pending, (runnerMachine n).state (startedRunner n) es =
        ⟨decide (.stopAll ∈ es), some ⟨n, pending⟩⟩ ∧
      ((completed es).length < n → pending = n - (completed es).length) := by
  induction es using List.reverseRecOn with
  | nil =>
    refine ⟨n, ?_, fun _ => rfl⟩
    rw [Machine.state_nil, startedRunner, IngestionRunner.startAll, if_neg hn.ne']
    rfl
  | append_singleton es e ih =>
    rw [Machine.state_concat]
    cases e with
    | stopAll =>
      rw [completed_concat_stop] at hnodup ⊢
      obtain ⟨pending, hstate, hpending⟩ := ih hnodup
      refine ⟨pending, ?_, hpending⟩
      rw [hstate]
      simp [runnerMachine, IngestionRunner.stopAll]
    | sessionDone session =>
      have hle := length_completed_le hnodup
      rw [completed_concat_done] at hnodup hle ⊢
      rw [List.length_append, List.length_singleton] at hle ⊢
      -- the session that completes is still running, so the barrier is waiting for it
      obtain ⟨pending, hstate, hpending⟩ := ih hnodup.of_append_left
      have hwaiting := hpending (by omega)
      rw [hstate]
      simp only [runnerMachine, IngestionRunner.sessionDone, Barrier.arrive]
      split_ifs with hlast
      · refine ⟨n, by simp [Barrier.new], ?_⟩
        omega
      · refine ⟨pending - 1, by simp, ?_⟩
        omega

/-- A completion fires the callback when it is the last one and the stop was requested. -/
private theorem output_done (hn : 0 < n) {session : Fin n}
    (hnodup : (completed (es ++ [.sessionDone session])).Nodup) :
    ((runnerMachine n).step ((runnerMachine n).state (startedRunner n) es)
      (.sessionDone session)).2 =
        if Drained (es ++ [.sessionDone session]) then [.onAllDrained] else [] := by
  have hle := length_completed_le hnodup
  have hall := length_completed_eq_iff hnodup
  rw [completed_concat_done] at hnodup hle hall
  rw [List.length_append, List.length_singleton] at hle hall
  obtain ⟨pending, hstate, hpending⟩ := state_runner hn hnodup.of_append_left
  have hlast : pending = 1 ↔ ∀ s, s ∈ completed es ++ [session] := by
    rw [← hall, hpending (by omega)]
    omega
  have hdrained : Drained (es ++ [.sessionDone session]) ↔ pending = 1 ∧ .stopAll ∈ es := by
    rw [Drained, completed_concat_done, hlast]
    simp
  rw [hstate]
  simp only [runnerMachine, IngestionRunner.sessionDone, Barrier.arrive, hdrained]
  split_ifs with hone <;> simp_all

/-- As long as `stop_all()` is called in time, the callback fires exactly when everything is
drained. -/
theorem onAllDrained_eq (hn : 0 < n) (hnodup : (completed es).Nodup) (htime : StopsInTime es) :
    (runnerMachine n).output (startedRunner n) es =
      if Drained es then [.onAllDrained] else [] := by
  induction es using List.reverseRecOn with
  | nil =>
    have hnone : ¬Drained ([] : List (RunnerEvent n)) := fun h => nomatch h.2
    rw [if_neg hnone, Machine.output_nil]
  | append_singleton es e ih =>
    have hinitial : es <+: es ++ [e] := List.prefix_append es [e]
    have hprev := ih (nodup_of_initial hnodup hinitial) (htime.of_initial hinitial)
    rw [Machine.output_concat]
    cases e with
    | stopAll =>
      -- the call comes in time, so it is not the one that completes the conjunction
      have hsame : Drained (es ++ [.stopAll]) ↔ Drained es := by
        simp only [Drained, completed_concat_stop, List.mem_append, List.mem_singleton, or_true,
          and_true]
        refine ⟨fun hall => ⟨hall, ?_⟩, And.left⟩
        refine (htime es List.prefix_rfl).resolve_right ?_
        rintro ⟨session, hsession⟩
        exact hsession (hall session)
      rw [hprev]
      simp only [hsame]
      exact List.append_nil _
    | sessionDone session =>
      have hrunning : ¬Drained es := by
        intro h
        rw [completed_concat_done] at hnodup
        exact List.disjoint_of_nodup_append hnodup (h.1 session) List.mem_cons_self
      rw [hprev, if_neg hrunning, output_done hn hnodup]
      rfl

/-- **The drain callback.** Over the runs of a group of sessions that complete at most once
each, the callback keeps its contract at every point exactly when `stop_all()` is called while
some session is still running. -/
theorem onAllDrained_iff (hn : 0 < n) (hnodup : (completed es).Nodup) :
    (∀ pre, pre <+: es → ContractHolds pre) ↔ StopsInTime es := by
  constructor
  · intro hcontract pre hpre
    by_contra hlate
    rw [not_or, not_exists_not] at hlate
    obtain ⟨hfirst, hall⟩ := hlate
    -- the last completion found no request, and the request finds nobody to arrive
    have hsilent : (runnerMachine n).output (startedRunner n) (pre ++ [.stopAll]) = [] := by
      have hinitial := (List.prefix_append pre [.stopAll]).trans hpre
      rw [Machine.output_concat, onAllDrained_eq hn (nodup_of_initial hnodup hinitial)
        (stopsInTime_of_notMem hfirst), if_neg fun h => hfirst h.2]
      rfl
    have hdrained : Drained (pre ++ [.stopAll]) :=
      ⟨by rwa [completed_concat_stop], List.mem_append_right _ List.mem_cons_self⟩
    rw [(hcontract _ hpre).1 hdrained] at hsilent
    cases hsilent
  · intro htime pre hpre
    have heq := onAllDrained_eq hn (nodup_of_initial hnodup hpre) (htime.of_initial hpre)
    exact ⟨fun h => by rw [heq, if_pos h], fun h => by rw [heq, if_neg h]⟩

/-- Two sessions, the second one completing after the stop was requested. -/
theorem onAllDrained_iff_in_time :
    (∀ pre, pre <+: [.sessionDone (0 : Fin 2), .stopAll, .sessionDone 1] → ContractHolds pre) ↔
      StopsInTime [.sessionDone (0 : Fin 2), .stopAll, .sessionDone 1] :=
  onAllDrained_iff (by decide) (by decide)

/-- One session completes on its own, and `stop_all()` is called after it: the callback never
fires. -/
theorem onAllDrained_lost :
    (completed [.sessionDone (0 : Fin 1), .stopAll]).Nodup ∧
      Drained [.sessionDone (0 : Fin 1), .stopAll] ∧
      (runnerMachine 1).output (startedRunner 1) [.sessionDone 0, .stopAll] = [] ∧
      ¬ContractHolds [.sessionDone (0 : Fin 1), .stopAll] := by
  refine ⟨by decide, by decide, by decide, fun h => ?_⟩
  exact absurd (h.1 (by decide)) (by decide)

end Runs

end Hermeneutic
