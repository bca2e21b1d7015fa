import Mathlib.Data.List.Infix
import Mathlib.Logic.Function.Basic

/-!
# Subscriber queues and the threads that drain them

One bounded mailbox per subscriber (`SubscriberQueue`), the map of all of them (`Fanout`), and
the handler thread of one streaming call (`Handler`), all from
`apps/aggregator/aggregator_service.hpp`. A publisher only ever pushes; the handler writes the
initial message, ends the bootstrap window, and then drains its queue and writes what it
drained.

A handler's step is one lock or one `Write()`. Waking is left out: a drain may happen at any
time and finds what is queued then.

The lemmas say what a handler's step does to its *stream*, everything captured for it in the
order it will be written: while the handler is active nothing, and what has been written is
always a prefix of it.

The two overflow policies meet in `pushOrClose` and nowhere else, so each of them has one lemma
about a push, and the fanout passes a push on to every queue. `Stepped` summarises a step of a
handler: as long as it stays, its stream goes on where it was (`Continues`); when it leaves, what
it has written is a prefix of what it has taken; and once it has left, nothing is written any
more. The results about streams, of both kinds and under both policies, rest on it.
-/

namespace Hermeneutic

/-- What a full queue does. -/
inductive OverflowPolicy
  | close
  | dropOldest
  deriving DecidableEq

/-- What one push did. -/
inductive PushResult
  | pushed
  | closedNow
  | alreadyClosed
  deriving DecidableEq

/-- What one drain found. -/
inductive DrainResult (T : Type*)
  | timedOut
  | drained (out : List T)
  | closed

/-- The capacity during the bootstrap window, in multiples of the normal one. -/
def kBootstrapCapacityMultiplier : ℕ := 4

/-- The bounded mailbox of one subscriber. -/
structure SubscriberQueue (T : Type*) where
  capacity : ℕ
  overflowPolicy : OverflowPolicy
  queue : List T := []
  closed : Bool := false
  bootstrapping : Bool := true

namespace SubscriberQueue

variable {T : Type*}

def effectiveCapacity (q : SubscriberQueue T) : ℕ :=
  if q.bootstrapping then q.capacity * kBootstrapCapacityMultiplier else q.capacity

def pushOrClose (q : SubscriberQueue T) (update : T) : PushResult × SubscriberQueue T :=
  if q.closed then (.alreadyClosed, q)
  else if q.effectiveCapacity ≤ q.queue.length then
    match q.overflowPolicy with
    | .close => (.closedNow, { q with closed := true, queue := [] })
    | .dropOldest => (.pushed, { q with queue := q.queue.tail ++ [update] })
  else (.pushed, { q with queue := q.queue ++ [update] })

def endBootstrap (q : SubscriberQueue T) : SubscriberQueue T := { q with bootstrapping := false }

/-- The critical section of `wait_and_drain`, after the wait. -/
def waitAndDrain (q : SubscriberQueue T) : DrainResult T × SubscriberQueue T :=
  if q.closed then (.closed, q)
  else if q.queue.isEmpty then (.timedOut, q)
  else (.drained q.queue, { q with queue := [] })

/-- A push leaves the configuration of the queue alone. -/
theorem pushOrClose_overflowPolicy (q : SubscriberQueue T) (update : T) :
    (q.pushOrClose update).2.overflowPolicy = q.overflowPolicy := by
  rw [pushOrClose]
  split
  · rfl
  · split
    · split <;> simp_all
    · rfl

/-- A push into a queue that closes on overflow queues the update or leaves the queue closed
and empty. -/
theorem pushOrClose_of_close {q : SubscriberQueue T} (hpolicy : q.overflowPolicy = .close)
    (hopen : q.closed = false) (update : T) :
    (q.pushOrClose update).2.closed = false ∧
        (q.pushOrClose update).2.queue = q.queue ++ [update] ∨
      (q.pushOrClose update).2.closed = true ∧ (q.pushOrClose update).2.queue = [] := by
  simp only [pushOrClose, hopen, hpolicy, Bool.false_eq_true, if_false]
  split
  · exact .inr ⟨rfl, rfl⟩
  · exact .inl ⟨rfl, rfl⟩

/-- A push into a closed queue does nothing. -/
theorem pushOrClose_of_closed {q : SubscriberQueue T} (hclosed : q.closed = true) (update : T) :
    (q.pushOrClose update).2 = q := by
  simp [pushOrClose, hclosed]

/-- A push into an open queue that drops its oldest entry queues the update, behind all
entries or all but the first. -/
theorem pushOrClose_of_dropOldest {q : SubscriberQueue T}
    (hpolicy : q.overflowPolicy = .dropOldest) (hopen : q.closed = false) (update : T) :
    (q.pushOrClose update).2 =
      { q with
        queue := (if q.effectiveCapacity ≤ q.queue.length then q.queue.tail else q.queue) ++
          [update] } := by
  simp only [pushOrClose, hopen, hpolicy, Bool.false_eq_true, if_false]
  split <;> rfl

end SubscriberQueue

/-- A queue's address. -/
abbrev SubscriberId := ℕ

/-- One stream's queues. -/
structure Fanout (T : Type*) where
  capacity : ℕ
  overflowPolicy : OverflowPolicy
  subscribers : SubscriberId → Option (SubscriberQueue T) := fun _ => none

namespace Fanout

variable {T : Type*}

/-- Registers a new queue at the address it was created at. -/
def subscribe (fanout : Fanout T) (id : SubscriberId) : Fanout T :=
  { fanout with
    subscribers := Function.update fanout.subscribers id
      (some { capacity := fanout.capacity, overflowPolicy := fanout.overflowPolicy }) }

def unsubscribe (fanout : Fanout T) (id : SubscriberId) : Fanout T :=
  { fanout with subscribers := Function.update fanout.subscribers id none }

/-- Pushes `update` into every queue. -/
def broadcast (fanout : Fanout T) (update : T) : Fanout T :=
  { fanout with
    subscribers := fun id => (fanout.subscribers id).map fun q => (q.pushOrClose update).2 }

/-- Writes one queue back, or `none` once it is unsubscribed. -/
def put (fanout : Fanout T) (id : SubscriberId) : Option (SubscriberQueue T) → Fanout T
  | some q => { fanout with subscribers := Function.update fanout.subscribers id (some q) }
  | none => fanout.unsubscribe id

@[simp] theorem put_overflowPolicy (fanout : Fanout T) (id : SubscriberId)
    (q : Option (SubscriberQueue T)) :
    (fanout.put id q).overflowPolicy = fanout.overflowPolicy := by
  cases q <;> rfl

@[simp] theorem put_subscribers (fanout : Fanout T) (id : SubscriberId)
    (q : Option (SubscriberQueue T)) :
    (fanout.put id q).subscribers = Function.update fanout.subscribers id q := by
  cases q <;> rfl

end Fanout

/-- Where a handler thread stands. -/
inductive HandlerPhase
  /-- Registered, with the initial message captured; its `Write()` comes next. -/
  | registered
  /-- That `Write()` has returned. -/
  | written (wrote : Bool)
  /-- In the loop of the call. -/
  | streaming
  /-- Out of it; it has yet to unsubscribe. -/
  | leaving
  | finished
  deriving DecidableEq

/-- The handler has still to write what it is given. -/
def HandlerPhase.active : HandlerPhase → Bool
  | registered | written true | streaming => true
  | _ => false

/-- The handler thread of one subscriber. -/
structure Handler (T : Type*) where
  phase : HandlerPhase := .registered
  /-- The message captured at registration. -/
  initial : T
  /-- What was drained and has yet to be written. -/
  batch : List T := []
  /-- What was written, in order. -/
  received : List T := []

/-- A handler's next step. -/
inductive HandlerEvent
  /-- A `Write()` returns. -/
  | write (wrote : Bool)
  | endBootstrap
  | drain
  /-- The call turns out to be cancelled. -/
  | cancelled
  | unsubscribe

namespace Handler

variable {T : Type*}

/-- `subscribe_impl` from the first `Write()` on, and the loop of the call: the queue after
the step, `none` once it is unsubscribed, and the handler. -/
def step (q : SubscriberQueue T) (h : Handler T) :
    HandlerEvent → Option (SubscriberQueue T) × Handler T
  | .write wrote =>
    match h.phase with
    | .registered =>
      (some q, { h with
        phase := .written wrote
        received := h.received ++ if wrote then [h.initial] else [] })
    | .streaming =>
      match h.batch with
      | [] => (some q, h)
      | update :: batch =>
        if wrote then (some q, { h with batch, received := h.received ++ [update] })
        else (some q, { h with phase := .leaving })
    | _ => (some q, h)
  | .endBootstrap =>
    match h.phase with
    | .written wrote =>
      (some q.endBootstrap, { h with phase := if wrote then .streaming else .leaving })
    | _ => (some q, h)
  | .drain =>
    if h.phase = .streaming ∧ h.batch = [] then
      match q.waitAndDrain with
      | (.timedOut, q) => (some q, h)
      | (.drained out, q) => (some q, { h with batch := out })
      | (.closed, q) => (some q, { h with phase := .leaving })
    else (some q, h)
  | .cancelled =>
    if h.phase = .streaming ∧ h.batch = [] then (some q, { h with phase := .leaving })
    else (some q, h)
  | .unsubscribe =>
    if h.phase = .leaving then (none, { h with phase := .finished }) else (some q, h)

/-- What was captured for the handler and taken out of its queue, in the order it is
written. -/
def taken (h : Handler T) : List T :=
  h.received ++ (if h.phase = .registered then [h.initial] else []) ++ h.batch

/-- What a handler has written before it enters the loop. -/
structure WellFormed (h : Handler T) : Prop where
  registered : h.phase = .registered → h.received = [] ∧ h.batch = []
  written : ∀ wrote, h.phase = .written wrote →
    h.received = (if wrote then [h.initial] else []) ∧ h.batch = []

/-- What a step does to an active handler that stays active: its stream, taken and queued,
is the same. -/
structure Continues (q : SubscriberQueue T) (h : Handler T) (q' : SubscriberQueue T)
    (h' : Handler T) : Prop where
  stream : h'.taken ++ q'.queue = h.taken ++ q.queue
  taken : h.taken <+: h'.taken
  closed : q'.closed = q.closed
  overflowPolicy : q'.overflowPolicy = q.overflowPolicy

theorem Continues.refl (q : SubscriberQueue T) (h : Handler T) : Continues q h q h :=
  ⟨rfl, List.prefix_rfl, rfl, rfl⟩

/-- What a handler's step leaves: it goes on, or it is over and has received a part of what
was taken; once over it receives nothing more. -/
structure Stepped (q : SubscriberQueue T) (h : Handler T)
    (r : Option (SubscriberQueue T) × Handler T) : Prop where
  wellFormed : r.2.WellFormed
  continues : h.phase.active = true → r.2.phase.active = true →
    ∃ q', r.1 = some q' ∧ Continues q h q' r.2
  ends : h.phase.active = true → r.2.phase.active = false → r.2.received <+: h.taken
  ended : h.phase.active = false → r.2.phase.active = false ∧ r.2.received = h.received

/-- Only an active handler is active after a step. -/
theorem Stepped.active_before {q : SubscriberQueue T} {h : Handler T}
    {r : Option (SubscriberQueue T) × Handler T} (hstepped : Stepped q h r)
    (hactive : r.2.phase.active = true) : h.phase.active = true := by
  by_contra hover
  have hover' := (hstepped.ended (Bool.eq_false_iff.mpr hover)).1
  exact absurd (hactive.symm.trans hover') (by decide)

private theorem stepped_refl {h : Handler T} (hwf : h.WellFormed) (q : SubscriberQueue T) :
    Stepped q h (some q, h) where
  wellFormed := hwf
  continues _ _ := ⟨q, rfl, .refl q h⟩
  ends hactive hover := absurd (hactive.symm.trans hover) (by decide)
  ended hover := ⟨hover, rfl⟩

/-- A handler in the loop stops with what it has received. -/
private theorem stepped_leave {h : Handler T} (hphase : h.phase = .streaming)
    (q : SubscriberQueue T) : Stepped q h (some q, { h with phase := .leaving }) where
  wellFormed := ⟨by simp, by simp⟩
  continues _ hactive := absurd hactive (by simp [HandlerPhase.active])
  ends _ _ := by simp [taken, hphase]
  ended hover := absurd hover (by simp [hphase, HandlerPhase.active])

/-- **A handler's step.** -/
theorem step_stepped {h : Handler T} (hwf : h.WellFormed) (q : SubscriberQueue T)
    (event : HandlerEvent) : Stepped q h (h.step q event) := by
  cases event with
  | write wrote =>
    cases hphase : h.phase with
    | registered =>
      obtain ⟨hreceived, hbatch⟩ := hwf.registered hphase
      simp only [step, hphase, hreceived, List.nil_append]
      refine ⟨⟨by simp, fun wrote' heq => ?_⟩, fun _ hactive => ⟨q, rfl, ?_, ?_, rfl, rfl⟩,
        fun _ hover => ?_, fun hover => absurd hover (by simp [hphase, HandlerPhase.active])⟩
      · obtain rfl := HandlerPhase.written.inj heq
        exact ⟨rfl, hbatch⟩
      · cases wrote with
        | true => simp [taken, hphase, hreceived, hbatch]
        | false => exact absurd hactive (by simp [HandlerPhase.active])
      · cases wrote with
        | true => simp [taken, hphase, hreceived, hbatch]
        | false => exact absurd hactive (by simp [HandlerPhase.active])
      · cases wrote with
        | true => exact absurd hover (by simp [HandlerPhase.active])
        | false => simp
    | streaming =>
      cases hbatch : h.batch with
      | nil =>
        simp only [step, hphase, hbatch]
        exact stepped_refl hwf q
      | cons update batch =>
        cases wrote with
        | true =>
          simp only [step, hphase, hbatch, if_true]
          refine ⟨⟨by simp, by simp⟩, fun _ _ => ⟨q, rfl, ?_, ?_, rfl, rfl⟩, fun _ hover => ?_,
            fun hover => absurd hover (by simp [hphase, HandlerPhase.active])⟩
          · simp [taken, hphase, hbatch]
          · simp [taken, hphase, hbatch]
          · exact absurd hover (by simp [HandlerPhase.active])
        | false =>
          simp only [step, hphase, hbatch, Bool.false_eq_true, if_false]
          simpa only [hbatch] using stepped_leave hphase q
    | written | leaving | finished =>
      simp only [step, hphase]
      exact stepped_refl hwf q
  | endBootstrap =>
    cases hphase : h.phase with
    | written wrote =>
      obtain ⟨hreceived, hbatch⟩ := hwf.written wrote hphase
      simp only [step, hphase]
      cases wrote with
      | true =>
        refine ⟨⟨by simp, by simp⟩, fun _ _ => ⟨_, rfl, ?_, ?_, rfl, rfl⟩, fun _ hover => ?_,
          fun hover => absurd hover (by simp [hphase, HandlerPhase.active])⟩
        · simp [taken, hphase, SubscriberQueue.endBootstrap]
        · simp [taken, hphase]
        · exact absurd hover (by simp [HandlerPhase.active])
      | false =>
        refine ⟨⟨by simp, by simp⟩, fun hactive => ?_, fun hactive => ?_, fun _ => ⟨rfl, rfl⟩⟩ <;>
          exact absurd hactive (by simp [hphase, HandlerPhase.active])
    | registered | streaming | leaving | finished =>
      simp only [step, hphase]
      exact stepped_refl hwf q
  | drain =>
    rw [step]
    split
    · rename_i hready
      obtain ⟨hphase, hbatch⟩ := hready
      rw [SubscriberQueue.waitAndDrain]
      split_ifs
      · exact stepped_leave hphase q
      · exact stepped_refl hwf q
      · refine ⟨⟨by simp [hphase], by simp [hphase]⟩, fun _ _ => ⟨_, rfl, ?_, ?_, rfl, rfl⟩,
          fun hactive hover => ?_, fun hover => ⟨hover, rfl⟩⟩
        · simp [taken, hphase, hbatch]
        · simp [taken, hphase, hbatch]
        · exact absurd (hactive.symm.trans hover) (by decide)
    · exact stepped_refl hwf q
  | cancelled =>
    rw [step]
    split
    · rename_i hready
      exact stepped_leave hready.1 q
    · exact stepped_refl hwf q
  | unsubscribe =>
    rw [step]
    split
    · rename_i hphase
      refine ⟨⟨by simp, by simp⟩, fun hactive => ?_, fun hactive => ?_, fun _ => ⟨rfl, rfl⟩⟩ <;>
        exact absurd hactive (by simp [hphase, HandlerPhase.active])
    · exact stepped_refl hwf q

end Handler

end Hermeneutic
