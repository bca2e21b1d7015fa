import Mathlib.Logic.Function.Basic
import Mathlib.Data.List.Count
import Hermeneutic.ForMathlib.Machine

/-!
# The client's shutdown signals

`ShutdownSignalWatcher` (`apps/aggregator/client_main.cpp`) owns a thread that waits for
`SIGINT` and `SIGTERM`, which are blocked everywhere: the first stops the client, the second
exits at once. Its destructor wakes the thread with `SIGUSR1`, which anybody else may send too,
so a flag set before tells whether the wakeup is its own.

A blocked signal is pending until a `sigwait()` takes it, once however often it was sent; of
several that are pending any may be taken. The destructor's `SIGUSR1` goes to the thread, one
from outside to the process, so that the two are pending apart.

What the thread has done is bounded by what was sent, and `Inv` keeps the account: no more was
done and is pending than was sent, an exit was forced only after a stop, and the destructor's own
signal is pending until the thread has woken for it. The run lemma (`inv_run`) is by induction on
the events from the front with the count of sends as a parameter. The two statements about what
can still happen are about states that satisfy the invariant, and give the events that make it
happen (`Inv.answers`, `Inv.joins`).
-/

namespace Hermeneutic

/-- A blocked signal. -/
inductive BlockedSignal
  | interrupt
  | terminate
  /-- `SIGUSR1`, sent by anybody to the process. -/
  | user
  /-- `SIGUSR1`, sent by the destructor to the thread. -/
  | wakeup
  deriving DecidableEq

/-- Whether it asks for a shutdown. -/
def BlockedSignal.real : BlockedSignal → Bool
  | interrupt | terminate => true
  | user | wakeup => false

/-- Where the thread stands. -/
inductive WatchPhase
  /-- In `sigwait()`. -/
  | waiting
  /-- It has taken a `SIGUSR1`, and reads the flag next. -/
  | woken
  /-- In `request_stop()`. -/
  | requesting
  | returned
  /-- The process has exited. -/
  | exited
  deriving DecidableEq

/-- Where the thread that owns the watcher stands. -/
inductive MainPhase
  | running
  /-- In the destructor, with the flag set. -/
  | flagged
  /-- The wakeup has been sent. -/
  | joining
  | joined
  deriving DecidableEq

structure ShutdownWatcher where
  thread : WatchPhase := .waiting
  /-- A first signal has been acted on. -/
  received : Bool := false
  pending : BlockedSignal → Bool := fun _ => false
  owner : MainPhase := .running
  teardownRequested : Bool := false

inductive WatcherEvent
  /-- A signal is sent from outside. -/
  | send (signal : BlockedSignal)
  /-- `sigwait()` takes a pending signal. -/
  | take (signal : BlockedSignal)
  | loadTeardown
  /-- `request_stop()` returns. -/
  | stopRequested
  /-- The destructor sets the flag. -/
  | setTeardown
  | kill
  | join
  deriving DecidableEq

/-- Whether a signal that asks for a shutdown is sent. -/
def WatcherEvent.sendsReal : WatcherEvent → Bool
  | send signal => signal.real
  | _ => false

/-- What the thread does to the client. -/
inductive WatcherOutput
  /-- `request_stop()`. -/
  | requestStop
  /-- `_Exit(1)`. -/
  | forceExit
  deriving DecidableEq

namespace ShutdownWatcher

/-- `wait_for_real_signal()` and what `watch_for_shutdown_signal()` does with its signal. -/
def onSignal (s : ShutdownWatcher) (signal : BlockedSignal) :
    ShutdownWatcher × List WatcherOutput :=
  if signal.real then
    if s.received then ({ s with thread := .exited }, [.forceExit])
    else ({ s with thread := .requesting, received := true }, [.requestStop])
  else ({ s with thread := .woken }, [])

/-- One step of a process that has not exited. One that is not possible changes nothing. -/
def liveStep (s : ShutdownWatcher) : WatcherEvent → ShutdownWatcher × List WatcherOutput
  | .send signal =>
    if signal = .wakeup then (s, [])
    else ({ s with pending := Function.update s.pending signal true }, [])
  | .take signal =>
    if s.thread = .waiting ∧ s.pending signal then
      { s with pending := Function.update s.pending signal false }.onSignal signal
    else (s, [])
  | .loadTeardown =>
    if s.thread = .woken then
      ({ s with thread := if s.teardownRequested then .returned else .waiting }, [])
    else (s, [])
  | .stopRequested =>
    if s.thread = .requesting then ({ s with thread := .waiting }, []) else (s, [])
  | .setTeardown =>
    if s.owner = .running then ({ s with owner := .flagged, teardownRequested := true }, [])
    else (s, [])
  | .kill =>
    if s.owner = .flagged then
      ({ s with owner := .joining, pending := Function.update s.pending .wakeup true }, [])
    else (s, [])
  | .join =>
    if s.owner = .joining ∧ s.thread = .returned then ({ s with owner := .joined }, [])
    else (s, [])

def step (s : ShutdownWatcher) (event : WatcherEvent) : ShutdownWatcher × List WatcherOutput :=
  if s.thread = .exited then (s, []) else s.liveStep event

end ShutdownWatcher

/-- The watcher as a machine. -/
def watcherMachine : Machine ShutdownWatcher WatcherEvent WatcherOutput where
  step := ShutdownWatcher.step

namespace ShutdownWatcher

/-- What the thread has done so far. -/
def done (s : ShutdownWatcher) : List WatcherOutput :=
  if s.thread = .exited then [.requestStop, .forceExit]
  else if s.received then [.requestStop] else []

/-- The real signals that are pending. -/
def pendingReal (s : ShutdownWatcher) : ℕ :=
  (s.pending .interrupt).toNat + (s.pending .terminate).toNat

/-- What every run keeps: `sent` real signals were sent, and `out` is what came of them. -/
structure Inv (sent : ℕ) (out : List WatcherOutput) (s : ShutdownWatcher) : Prop where
  acted : out = s.done
  exited : s.thread = .exited → s.received = true
  counted : out.length + s.pendingReal ≤ sent
  teardown : s.teardownRequested = true ↔ s.owner ≠ .running
  returned : s.thread = .returned → s.owner ≠ .running
  /-- The wakeup is there until the thread has woken for it. -/
  wakeup : s.owner = .joining → s.thread = .waiting ∨ s.thread = .requesting →
    s.pending .wakeup = true

variable {sent : ℕ} {out : List WatcherOutput} {s : ShutdownWatcher}

private theorem inv_start : Inv 0 [] {} where
  acted := rfl
  exited := nofun
  counted := Nat.le_refl 0
  teardown := by decide
  returned := nofun
  wakeup := nofun

/-- A signal that is sent becomes pending once. -/
private theorem pendingReal_send (s : ShutdownWatcher) (signal : BlockedSignal) :
    pendingReal { s with pending := Function.update s.pending signal true } ≤
      s.pendingReal + signal.real.toNat := by
  cases signal <;> simp only [pendingReal, BlockedSignal.real, Function.update_apply] <;> grind

private theorem pendingReal_take {signal : BlockedSignal} (hpending : s.pending signal = true) :
    pendingReal { s with pending := Function.update s.pending signal false } +
      signal.real.toNat = s.pendingReal := by
  cases signal <;> simp only [pendingReal, BlockedSignal.real, Function.update_apply] <;> grind

theorem Inv.send (h : Inv sent out s) (signal : BlockedSignal) :
    Inv (sent + signal.real.toNat) out
      { s with pending := Function.update s.pending signal true } := by
  refine ⟨h.acted, h.exited, ?_, h.teardown, h.returned, fun howner hthread => ?_⟩
  · have := pendingReal_send s signal
    have := h.counted
    omega
  · change Function.update s.pending signal true .wakeup = true
    rw [Function.update_apply]
    split
    · rfl
    · exact h.wakeup howner hthread

/-- `sigwait()` takes a signal: a real one is answered, once it is no longer pending. -/
theorem Inv.take (h : Inv sent out s) {signal : BlockedSignal} (hwaiting : s.thread = .waiting)
    (hpending : s.pending signal = true) :
    Inv sent
      (out ++ ({ s with pending := Function.update s.pending signal false }.onSignal signal).2)
      ({ s with pending := Function.update s.pending signal false }.onSignal signal).1 := by
  have htaken := pendingReal_take hpending
  have hcounted := h.counted
  have hout : out = if s.received then [.requestStop] else [] := by
    rw [h.acted, done, hwaiting, if_neg nofun]
  cases hreal : signal.real with
  | false =>
    simp only [onSignal, hreal, Bool.false_eq_true, if_false, List.append_nil]
    refine ⟨?_, fun hexited => ?_, ?_, h.teardown, fun hreturned => ?_, fun _ hthread => ?_⟩
    · simpa [done] using hout
    · cases hexited
    · rw [hreal] at htaken
      simp only [pendingReal, Bool.toNat_false] at htaken hcounted ⊢
      omega
    · cases hreturned
    · rcases hthread with hthread | hthread <;> cases hthread
  | true =>
    have hwakeup : signal ≠ .wakeup := by
      rintro rfl
      cases hreal
    rw [hreal, Bool.toNat_true] at htaken
    simp only [pendingReal] at htaken hcounted
    cases hreceived : s.received with
    | true =>
      -- the second one: the process exits
      rw [hreceived, if_pos rfl] at hout
      simp only [onSignal, hreal, if_true]
      refine ⟨?_, fun _ => rfl, ?_, h.teardown, fun hreturned => ?_, fun _ hthread => ?_⟩
      · rw [hout, done, if_pos rfl]
        rfl
      · simp only [pendingReal, hout, List.length_append, List.length_singleton] at hcounted ⊢
        omega
      · cases hreturned
      · rcases hthread with hthread | hthread <;> cases hthread
    | false =>
      -- the first one, so that the wakeup, if it was sent, is still there
      rw [hreceived, if_neg (by decide)] at hout
      simp only [onSignal, hreal, if_true, Bool.false_eq_true, if_false]
      refine ⟨?_, fun hexited => ?_, ?_, h.teardown, fun hreturned => ?_, fun howner _ => ?_⟩
      · rw [hout]
        rfl
      · cases hexited
      · simp only [pendingReal, hout, List.nil_append, List.length_nil,
          List.length_singleton] at hcounted ⊢
        omega
      · cases hreturned
      · simpa only [Function.update_of_ne (Ne.symm hwakeup)] using
          h.wakeup howner (.inl hwaiting)

/-- **A step** keeps the invariant. -/
theorem Inv.step (h : Inv sent out s) (event : WatcherEvent) :
    Inv (sent + event.sendsReal.toNat) (out ++ (s.step event).2) (s.step event).1 := by
  have hcounted : out.length + s.pendingReal ≤ sent + event.sendsReal.toNat :=
    h.counted.trans (Nat.le_add_right _ _)
  -- a step that is not possible
  have hskip : Inv (sent + event.sendsReal.toNat) (out ++ []) s := by
    rw [List.append_nil]
    exact ⟨h.acted, h.exited, hcounted, h.teardown, h.returned, h.wakeup⟩
  have hout := h.acted
  rw [ShutdownWatcher.step]
  by_cases hexited : s.thread = .exited
  · rw [if_pos hexited]
    exact hskip
  rw [if_neg hexited]
  cases event with
  | send signal =>
    rw [liveStep]
    split
    · exact hskip
    · rw [List.append_nil]
      exact h.send signal
  | take signal =>
    rw [liveStep]
    split
    · rename_i hguard
      exact h.take hguard.1 hguard.2
    · exact hskip
  | loadTeardown =>
    rw [liveStep]
    split
    · rename_i hwoken
      rw [List.append_nil]
      cases hteardown : s.teardownRequested with
      | true =>
        have howner := h.teardown.mp hteardown
        refine ⟨?_, nofun, h.counted, ?_, fun _ => howner, fun _ hthread => ?_⟩
        · simpa [done, hwoken] using hout
        · simpa [hteardown] using howner
        · rcases hthread with hthread | hthread <;> cases hthread
      | false =>
        -- the `SIGUSR1` was not the destructor's, which has not begun
        have howner : s.owner = .running := by
          by_contra hne
          rw [h.teardown.mpr hne] at hteardown
          cases hteardown
        refine ⟨?_, nofun, h.counted, ?_, nofun, fun hjoining => ?_⟩
        · simpa [done, hwoken] using hout
        · simpa [hteardown] using howner
        · rw [howner] at hjoining
          cases hjoining
    · exact hskip
  | stopRequested =>
    rw [liveStep]
    split
    · rename_i hrequesting
      rw [List.append_nil]
      refine ⟨?_, nofun, h.counted, h.teardown, nofun,
        fun howner _ => h.wakeup howner (.inr hrequesting)⟩
      simpa [done, hrequesting] using hout
    · exact hskip
  | setTeardown =>
    rw [liveStep]
    split
    · rw [List.append_nil]
      exact ⟨h.acted, h.exited, h.counted, by simp, fun _ => by simp, nofun⟩
    · exact hskip
  | kill =>
    rw [liveStep]
    split
    · rename_i hflagged
      rw [List.append_nil]
      have hteardown := h.teardown.mpr (by rw [hflagged]; decide)
      refine ⟨h.acted, h.exited, ?_, by simp [hteardown], fun _ => by simp, fun _ _ => by simp⟩
      simpa [pendingReal] using hcounted
    · exact hskip
  | join =>
    rw [liveStep]
    split
    · rename_i hguard
      rw [List.append_nil]
      have hteardown := h.teardown.mpr (by rw [hguard.1]; decide)
      exact ⟨h.acted, h.exited, h.counted, by simp [hteardown], fun _ => by simp,
        nofun⟩
    · exact hskip

/-- **Every run.** -/
theorem inv_run (events : List WatcherEvent) :
    Inv (events.countP WatcherEvent.sendsReal) (watcherMachine.output {} events)
      (watcherMachine.state {} events) := by
  refine watcherMachine.run_induction
    (motive := fun es out s => Inv (es.countP WatcherEvent.sendsReal) out s) inv_start
    (fun es out s event h => ?_) events
  have hnext := h.step event
  have hcount : (es ++ [event]).countP WatcherEvent.sendsReal =
      es.countP WatcherEvent.sendsReal + event.sendsReal.toNat := by
    rw [List.countP_append, List.countP_singleton]
    cases event.sendsReal <;> rfl
  rw [hcount]
  exact hnext

/-- What the thread has done is to stop the client, and then to exit. -/
private theorem done_prefix (s : ShutdownWatcher) : s.done <+: [.requestStop, .forceExit] := by
  rw [done]
  split
  · exact List.prefix_rfl
  · split
    · exact ⟨[.forceExit], rfl⟩
    · exact List.nil_prefix

/-- A real signal that is pending is acted on when the thread gets to it. -/
theorem Inv.answers (h : Inv sent out s) {signal : BlockedSignal} (hreal : signal.real = true)
    (hpending : s.pending signal = true) (hteardown : s.teardownRequested = false)
    (hexited : s.thread ≠ .exited) :
    watcherMachine.output s [.stopRequested, .loadTeardown, .take signal] =
      [if s.received then .forceExit else .requestStop] := by
  have hreturned : s.thread ≠ .returned := by
    intro hreturned
    have hset := h.teardown.mpr (h.returned hreturned)
    rw [hteardown] at hset
    cases hset
  obtain ⟨thread, received, pending, owner, teardown⟩ := s
  simp only at hpending hteardown hexited hreturned
  subst hteardown
  -- it returns from `request_stop()`, or waits again after a `SIGUSR1`, or waits already
  cases thread with
  | returned => exact absurd rfl hreturned
  | exited => exact absurd rfl hexited
  | waiting | woken | requesting =>
    cases received <;>
      simp [watcherMachine, ShutdownWatcher.step, liveStep, onSignal, hpending, hreal]

/-- The destructor's `join()` returns once the thread has taken its wakeup. -/
theorem Inv.joins (h : Inv sent out s) (howner : s.owner = .joining)
    (hexited : s.thread ≠ .exited) :
    (watcherMachine.state s
      [.stopRequested, .loadTeardown, .take .wakeup, .loadTeardown, .join]).owner = .joined := by
  have hteardown := h.teardown.mpr (by simp [howner])
  have hwakeup := h.wakeup howner
  obtain ⟨thread, received, pending, owner, teardown⟩ := s
  simp only at hexited hteardown hwakeup howner
  subst hteardown howner
  cases thread with
  | exited => exact absurd rfl hexited
  | waiting | requesting =>
    simp [watcherMachine, ShutdownWatcher.step, liveStep, onSignal, BlockedSignal.real, hwakeup]
  | woken | returned => simp [watcherMachine, ShutdownWatcher.step, liveStep]

end ShutdownWatcher

/-- **The client's shutdown signals**: in every run the watcher stops the client before it
exits, and does no more than there were real signals, whoever sends a `SIGUSR1`. Its thread
returns only for its destructor, until then acts on every real signal that is pending, and
whenever the destructor has sent its wakeup the join returns. -/
theorem shutdown_watcher_sound (events : List WatcherEvent) :
    let s := watcherMachine.state {} events
    let out := watcherMachine.output {} events
    (out <+: [.requestStop, .forceExit] ∧ out.length ≤ events.countP WatcherEvent.sendsReal) ∧
    (s.thread = .returned → s.teardownRequested = true) ∧
    (∀ signal, signal.real = true → s.pending signal = true → s.teardownRequested = false →
      s.thread ≠ .exited →
      watcherMachine.output s [.stopRequested, .loadTeardown, .take signal] =
        [if s.received then .forceExit else .requestStop]) ∧
    (s.owner = .joining → s.thread ≠ .exited →
      (watcherMachine.state s
        [.stopRequested, .loadTeardown, .take .wakeup, .loadTeardown, .join]).owner =
        .joined) := by
  intro s out
  have hinv : ShutdownWatcher.Inv (events.countP WatcherEvent.sendsReal) out s :=
    ShutdownWatcher.inv_run events
  refine ⟨⟨?_, ?_⟩, fun hreturned => ?_, fun signal => ?_, ?_⟩
  · rw [hinv.acted]
    exact s.done_prefix
  · exact (Nat.le_add_right _ _).trans hinv.counted
  · exact hinv.teardown.mpr (hinv.returned hreturned)
  · exact hinv.answers
  · exact hinv.joins

end Hermeneutic
