import Hermeneutic.Aggregator.SymbolBook

/-!
# What calls return

A streaming call (`SubscribeL2Diff` and `SubscribeBbo`, `apps/aggregator/aggregator_service.hpp`)
runs until its client is gone or its queue is closed, unregisters its queue and returns a
status: `RESOURCE_EXHAUSTED` for an `L2Update` stream that fell behind, `OK` in every other case.
The status is settled by the step that leaves the loop.

`callMachine` outputs these statuses. Which of the two a call returns depends on how it left its
loop, and that is a fact about the run: `LeftOnClosed` says that one of its drains found its
queue closed. `Accounted` is the ledger of one call: registered until it is over, without a
status until it leaves, with exactly one from then on, the one its way out calls for. The run
lemma is `callMachine_accounted`.

A call goes through its phases in one order, so its ledger has to say of each phase what was
returned up to there; the step lemma takes the two ways out of the loop apart by whether the drain
found the queue closed, and the statuses follow from `Handler.returns`. A closed queue stays
closed and is drained only once more. The events of other calls of the book, and of other books,
leave a ledger as it is, which is why it can be kept for all calls at once (`Accounts`).
-/

namespace Hermeneutic

/-- What a call returns. -/
inductive RpcStatus
  | ok
  | invalidArgument (message : String)
  | notFound (message : String)
  | resourceExhausted (message : String)
  deriving DecidableEq

/-- The two streams of a book. -/
inductive Stream
  | l2
  | bbo
  deriving DecidableEq

namespace Stream

/-- What a call returns that finds its queue closed. -/
def onClosed : Stream → RpcStatus
  | l2 => .resourceExhausted "subscriber fell too far behind; reconnect for a fresh snapshot"
  | bbo => .ok

def subscribe : Stream → SubscriberId → ServiceEvent
  | l2, id => .subscribe id
  | bbo, id => .subscribeBbo id

def handler : Stream → SubscriberId → HandlerEvent → ServiceEvent
  | l2, id, event => .l2 id event
  | bbo, id, event => .bbo id event

end Stream

/-- The call is out of its loop. -/
def HandlerPhase.left : HandlerPhase → Bool
  | leaving | finished => true
  | _ => false

/-- The status a handler's step settles, if it leaves the loop. -/
def Handler.returns {T : Type*} (onClosed : RpcStatus) (q : SubscriberQueue T) (h : Handler T) :
    HandlerEvent → Option RpcStatus
  | .write wrote =>
    if h.phase = .streaming ∧ h.batch ≠ [] ∧ wrote = false then some .ok else none
  | .endBootstrap => if h.phase = .written false then some .ok else none
  | .drain => if h.phase = .streaming ∧ h.batch = [] ∧ q.closed then some onClosed else none
  | .cancelled => if h.phase = .streaming ∧ h.batch = [] then some .ok else none
  | .unsubscribe => none

/-- A status of a call. -/
structure Returned where
  stream : Stream
  subscriber : SubscriberId
  status : RpcStatus
  deriving DecidableEq

namespace Service

/-- The status a step of one handler of a stream settles. -/
def handlerReturns {T : Type*} (onClosed : RpcStatus) (fanout : Fanout T)
    (handlers : SubscriberId → Option (Handler T)) (id : SubscriberId) (event : HandlerEvent) :
    Option RpcStatus :=
  match handlers id, fanout.subscribers id with
  | some h, some q => h.returns onClosed q event
  | _, _ => none

/-- The statuses a step of a book settles. -/
def returns (s : Service) : ServiceEvent → List Returned
  | .l2 id event =>
    ((handlerReturns Stream.l2.onClosed s.symbolBook.l2Fanout s.l2 id event).map
      (⟨.l2, id, ·⟩)).toList
  | .bbo id event =>
    ((handlerReturns Stream.bbo.onClosed s.symbolBook.bboFanout s.bbo id event).map
      (⟨.bbo, id, ·⟩)).toList
  | _ => []

/-- Where the handler of a call stands, if there is one. -/
def phase (s : Service) : Stream → SubscriberId → Option HandlerPhase
  | .l2, id => (s.l2 id).map Handler.phase
  | .bbo, id => (s.bbo id).map Handler.phase

/-- Whether the queue of a call is closed, if one is registered. -/
def queueClosed (s : Service) : Stream → SubscriberId → Option Bool
  | .l2, id => (s.symbolBook.l2Fanout.subscribers id).map SubscriberQueue.closed
  | .bbo, id => (s.symbolBook.bboFanout.subscribers id).map SubscriberQueue.closed

end Service

/-- The step is a drain of the loop, and it finds the queue closed. -/
def Handler.FindsClosed {T : Type*} (q : SubscriberQueue T) (h : Handler T)
    (event : HandlerEvent) : Prop :=
  event = .drain ∧ h.phase = .streaming ∧ h.batch = [] ∧ q.closed = true

namespace Service

/-- The same for a handler of a stream, if there is one. -/
def HandlerFindsClosed {T : Type*} (fanout : Fanout T)
    (handlers : SubscriberId → Option (Handler T)) (id : SubscriberId) (event : HandlerEvent) :
    Prop :=
  ∃ h q, handlers id = some h ∧ fanout.subscribers id = some q ∧ h.FindsClosed q event

/-- The step is a drain of the call, and it finds the queue closed. -/
def FindsClosed (s : Service) : Stream → SubscriberId → ServiceEvent → Prop
  | .l2, id, .l2 id' event =>
    id' = id ∧ HandlerFindsClosed s.symbolBook.l2Fanout s.l2 id' event
  | .bbo, id, .bbo id' event =>
    id' = id ∧ HandlerFindsClosed s.symbolBook.bboFanout s.bbo id' event
  | _, _, _ => False

end Service

/-- The machine of a book, with the statuses of its calls for an output. -/
def callMachine : Machine Service ServiceEvent Returned where
  step s event := ((s.step event).1, s.returns event)

/-- The call has left its loop by a drain that found its queue closed. -/
def LeftOnClosed (events : List ServiceEvent) (stream : Stream) (id : SubscriberId) : Prop :=
  ∃ pre event, pre ++ [event] <+: events ∧
    (callMachine.state {} pre).FindsClosed stream id event

private theorem leftOnClosed_concat (events : List ServiceEvent) (event : ServiceEvent)
    (stream : Stream) (id : SubscriberId) :
    LeftOnClosed (events ++ [event]) stream id ↔
      LeftOnClosed events stream id ∨
        (callMachine.state {} events).FindsClosed stream id event := by
  constructor
  · rintro ⟨pre, event', hpre, hfinds⟩
    rcases List.prefix_concat_iff.mp hpre with heq | hpre
    · obtain ⟨rfl, hlast⟩ := List.append_inj' heq rfl
      obtain rfl := List.head_eq_of_cons_eq hlast
      exact .inr hfinds
    · exact .inl ⟨pre, event', hpre, hfinds⟩
  · rintro (⟨pre, event', hpre, hfinds⟩ | hfinds)
    · exact ⟨pre, event', hpre.trans (List.prefix_append _ _), hfinds⟩
    · exact ⟨events, event, List.prefix_rfl, hfinds⟩

/-! ### The ledger of one call -/

/-- The handler, the queue and the statuses of one call fit together; `left` is whether it left
its loop by finding the queue closed. -/
structure Accounted (onClosed : RpcStatus) (left : Prop) (phase : Option HandlerPhase)
    (queueClosed : Option Bool) (statuses : List RpcStatus) : Prop where
  /-- A queue is registered until the call is over. -/
  registered : queueClosed.isSome = true ↔ ∃ p, phase = some p ∧ p ≠ .finished
  /-- Nothing is returned before the call leaves its loop. -/
  pending : (∀ p, phase = some p → p.left = false) → statuses = [] ∧ ¬ left
  /-- One status is, once it has: `onClosed` if it found its queue closed, `ok` if not. -/
  ended : ∀ p, phase = some p → p.left = true →
    (left → statuses = [onClosed] ∧ queueClosed ≠ some false) ∧ (¬ left → statuses = [.ok])

namespace Accounted

variable {onClosed : RpcStatus} {left left' : Prop} {phase : Option HandlerPhase}
  {queueClosed : Option Bool} {statuses : List RpcStatus} {p p' : HandlerPhase} {closed : Bool}

theorem congr (h : Accounted onClosed left phase queueClosed statuses) (hleft : left' ↔ left) :
    Accounted onClosed left' phase queueClosed statuses := by
  rwa [propext hleft]

theorem start : Accounted onClosed False none none [] where
  registered := by simp
  pending _ := ⟨rfl, id⟩
  ended := by simp

/-- A call that starts. -/
theorem subscribe (h : Accounted onClosed left none queueClosed statuses) :
    Accounted onClosed left (some .registered) (some false) statuses where
  registered := by simp
  pending _ := h.pending (by simp)
  ended p hp hleft := by
    obtain rfl := Option.some.inj hp
    exact absurd hleft (by decide)

/-- A step of a call that stays in its loop. -/
private theorem goes_on (h : Accounted onClosed left (some p) (some closed) statuses)
    (hleft : p.left = false) (hleft' : p'.left = false) :
    Accounted onClosed left (some p') (some closed) statuses where
  registered := by
    have hne : p' ≠ .finished := fun heq => absurd hleft' (by rw [heq]; decide)
    simp [hne]
  pending _ := h.pending fun p₀ hp₀ => Option.some.inj hp₀ ▸ hleft
  ended p₀ hp₀ hleft₀ := by
    obtain rfl := Option.some.inj hp₀
    exact absurd (hleft₀.symm.trans hleft') (by decide)

/-- The step that leaves it, for another reason than a closed queue. -/
theorem leave (h : Accounted onClosed left (some p) (some closed) statuses)
    (hleft : p.left = false) :
    Accounted onClosed left (some .leaving) (some closed) (statuses ++ [.ok]) where
  registered := by simp
  pending hpending := absurd (hpending _ rfl) (by decide)
  ended p₀ hp₀ _ := by
    obtain ⟨rfl, hnot⟩ := h.pending fun p₀ hp₀ => Option.some.inj hp₀ ▸ hleft
    exact ⟨fun hclosed => absurd hclosed hnot, fun _ => rfl⟩

/-- The step that leaves it on a closed queue. -/
private theorem leaveClosed (h : Accounted onClosed left (some p) (some true) statuses)
    (hleft : p.left = false) :
    Accounted onClosed True (some .leaving) (some true) (statuses ++ [onClosed]) where
  registered := by simp
  pending hpending := absurd (hpending _ rfl) (by decide)
  ended p₀ hp₀ _ := by
    obtain ⟨rfl, -⟩ := h.pending fun p₀ hp₀ => Option.some.inj hp₀ ▸ hleft
    exact ⟨fun _ => ⟨rfl, by decide⟩, fun hnot => absurd trivial hnot⟩

/-- The step that ends the call. -/
theorem unsubscribe (h : Accounted onClosed left (some .leaving) (some closed) statuses) :
    Accounted onClosed left (some .finished) none statuses where
  registered := by simp
  pending hpending := absurd (hpending _ rfl) (by decide)
  ended p₀ hp₀ _ := by
    obtain ⟨hclosed, hother⟩ := h.ended _ rfl rfl
    exact ⟨fun hleft => ⟨(hclosed hleft).1, by decide⟩, hother⟩

/-- A push into the queue of a call may close it. -/
theorem push {T : Type*} {queue : Option (SubscriberQueue T)}
    (h : Accounted onClosed left phase (queue.map SubscriberQueue.closed) statuses) (update : T) :
    Accounted onClosed left phase
      ((queue.map fun q => (q.pushOrClose update).2).map SubscriberQueue.closed) statuses where
  registered := by simpa using h.registered
  pending := h.pending
  ended p hp hleft := by
    refine (h.ended p hp hleft).imp_left fun hended hout => ?_
    obtain ⟨hstatuses, hclosed⟩ := hended hout
    refine ⟨hstatuses, ?_⟩
    cases queue with
    | none => exact hclosed
    | some q =>
      have hclosed : q.closed = true := by simpa using hclosed
      simp [SubscriberQueue.pushOrClose_of_closed hclosed, hclosed]

/-- **A step of the handler** keeps the ledger. -/
theorem step {T : Type*} {q : SubscriberQueue T} {h : Handler T}
    (hacc : Accounted onClosed left (some h.phase) (some q.closed) statuses)
    (event : HandlerEvent) :
    Accounted onClosed (left ∨ h.FindsClosed q event) (some (h.step q event).2.phase)
      ((h.step q event).1.map SubscriberQueue.closed)
      (statuses ++ (h.returns onClosed q event).toList) := by
  have hstays : ¬ h.FindsClosed q event →
      Accounted onClosed left (some (h.step q event).2.phase)
        ((h.step q event).1.map SubscriberQueue.closed)
        (statuses ++ (h.returns onClosed q event).toList) →
      Accounted onClosed (left ∨ h.FindsClosed q event) (some (h.step q event).2.phase)
        ((h.step q event).1.map SubscriberQueue.closed)
        (statuses ++ (h.returns onClosed q event).toList) :=
    fun hnot hsame => hsame.congr (or_iff_left hnot)
  cases event with
  | write wrote =>
    refine hstays (fun hfinds => by cases hfinds.1) ?_
    cases hphase : h.phase with
    | registered =>
      simp only [Handler.step, Handler.returns, hphase, reduceCtorEq, false_and, if_false,
        Option.toList_none, List.append_nil]
      exact hacc.goes_on (by rw [hphase]; rfl) rfl
    | streaming =>
      have hleft : h.phase.left = false := by
        rw [hphase]
        rfl
      cases hbatch : h.batch with
      | nil => simpa [Handler.step, Handler.returns, hphase, hbatch] using hphase ▸ hacc
      | cons update batch =>
        cases wrote with
        | true => simpa [Handler.step, Handler.returns, hphase, hbatch] using hphase ▸ hacc
        | false =>
          simpa [Handler.step, Handler.returns, hphase, hbatch] using hacc.leave hleft
    | written | leaving | finished =>
      simpa [Handler.step, Handler.returns, hphase] using hphase ▸ hacc
  | endBootstrap =>
    refine hstays (fun hfinds => by cases hfinds.1) ?_
    cases hphase : h.phase with
    | written wrote =>
      have hleft : h.phase.left = false := by
        rw [hphase]
        rfl
      cases wrote with
      | true =>
        have hstreaming : Accounted onClosed left (some .streaming) (some q.closed) statuses :=
          hacc.goes_on hleft rfl
        simpa [Handler.step, Handler.returns, hphase, SubscriberQueue.endBootstrap] using
          hstreaming
      | false =>
        simpa [Handler.step, Handler.returns, hphase, SubscriberQueue.endBootstrap] using
          hacc.leave hleft
    | registered | streaming | leaving | finished =>
      simpa [Handler.step, Handler.returns, hphase] using hphase ▸ hacc
  | drain =>
    by_cases hready : h.phase = .streaming ∧ h.batch = []
    · obtain ⟨hphase, hbatch⟩ := hready
      have hleft : h.phase.left = false := by
        rw [hphase]
        rfl
      cases hclosed : q.closed with
      | true =>
        have hfinds : h.FindsClosed q .drain := ⟨rfl, hphase, hbatch, hclosed⟩
        rw [hclosed] at hacc
        have hleave := hacc.leaveClosed hleft
        refine Accounted.congr ?_ (iff_true_intro (.inr hfinds))
        simpa [Handler.step, Handler.returns, hphase, hbatch, SubscriberQueue.waitAndDrain,
          hclosed] using hleave
      | false =>
        refine hstays (fun hfinds => ?_) ?_
        · exact absurd (hclosed.symm.trans hfinds.2.2.2) (by decide)
        · simp only [Handler.step, Handler.returns, hphase, hbatch, true_and, and_self, if_true,
            SubscriberQueue.waitAndDrain, hclosed, Bool.false_eq_true, if_false]
          rw [hclosed] at hacc
          split_ifs <;> simpa [hphase, hclosed] using hphase ▸ hacc
    · have hnot : ¬ h.FindsClosed q .drain := fun hfinds => hready ⟨hfinds.2.1, hfinds.2.2.1⟩
      have hreturns : ¬(h.phase = .streaming ∧ h.batch = [] ∧ q.closed = true) :=
        fun h => hready ⟨h.1, h.2.1⟩
      refine hstays hnot ?_
      simpa [Handler.step, Handler.returns, hready, hreturns] using hacc
  | cancelled =>
    refine hstays (fun hfinds => by cases hfinds.1) ?_
    by_cases hready : h.phase = .streaming ∧ h.batch = []
    · have hleft : h.phase.left = false := by
        rw [hready.1]
        rfl
      simpa [Handler.step, Handler.returns, hready] using hacc.leave hleft
    · simpa [Handler.step, Handler.returns, hready] using hacc
  | unsubscribe =>
    refine hstays (fun hfinds => by cases hfinds.1) ?_
    by_cases hphase : h.phase = .leaving
    · simpa [Handler.step, Handler.returns, hphase] using (hphase ▸ hacc).unsubscribe
    · simpa [Handler.step, Handler.returns, hphase] using hacc

end Accounted

/-! ### All calls of a book -/

/-- What a mutating call does to the queues: it broadcasts. -/
private theorem SymbolBook.call_fanouts (sb : SymbolBook) (c : BookCall) :
    ∃ (l2 : List L2Update) (bbo : List BboUpdate),
      (sb.call c).2.l2Fanout = l2.foldl Fanout.broadcast sb.l2Fanout ∧
        (sb.call c).2.bboFanout = bbo.foldl Fanout.broadcast sb.bboFanout := by
  rw [SymbolBook.call_eq]
  split
  · simp only [SymbolBook.publish]
    split
    · exact ⟨[], [], rfl, rfl⟩
    · rw [SymbolBook.publishBbo]
      split
      · exact ⟨[_], [_], rfl, rfl⟩
      · exact ⟨[_], [], rfl, rfl⟩
  · exact ⟨[], [], rfl, rfl⟩

namespace Service

variable {T : Type*} {onClosed : RpcStatus} {left : Prop} {fanout : Fanout T}
  {handlers : SubscriberId → Option (Handler T)} {id : SubscriberId} {statuses : List RpcStatus}

/-- Broadcasts keep the ledger of every call. -/
private theorem accounted_broadcast {phase : Option HandlerPhase}
    (h : Accounted onClosed left phase ((fanout.subscribers id).map SubscriberQueue.closed)
      statuses)
    (updates : List T) :
    Accounted onClosed left phase
      (((updates.foldl Fanout.broadcast fanout).subscribers id).map SubscriberQueue.closed)
      statuses := by
  induction updates generalizing fanout with
  | nil => exact h
  | cons update updates ih => exact ih (h.push update)

/-- A handler's step keeps the ledger of every call, its own with the status it settles. -/
private theorem accounted_stepHandler
    (h : Accounted onClosed left ((handlers id).map Handler.phase)
      ((fanout.subscribers id).map SubscriberQueue.closed) statuses)
    (id' : SubscriberId) (event : HandlerEvent) :
    Accounted onClosed (left ∨ id' = id ∧ HandlerFindsClosed fanout handlers id' event)
      (((stepHandler fanout handlers id' event).2 id).map Handler.phase)
      (((stepHandler fanout handlers id' event).1.subscribers id).map SubscriberQueue.closed)
      (statuses ++ if id' = id then (handlerReturns onClosed fanout handlers id' event).toList
        else []) := by
  rw [stepHandler, handlerReturns, HandlerFindsClosed]
  cases hhandler : handlers id' with
  | none => simpa using h
  | some handler =>
    cases hqueue : fanout.subscribers id' with
    | none => simpa using h
    | some q =>
      simp only [Fanout.put_subscribers]
      by_cases hid : id' = id
      · subst hid
        rw [hhandler, hqueue] at h
        simpa using h.step event
      · simpa [hid, Function.update_of_ne (Ne.symm hid)] using h

/-- A call that starts; the ledgers of the others are as before. -/
private theorem accounted_subscribe
    (h : Accounted onClosed left ((handlers id).map Handler.phase)
      ((fanout.subscribers id).map SubscriberQueue.closed) statuses)
    {id' : SubscriberId} (hnone : handlers id' = none) (initial : T) :
    Accounted onClosed left
      ((Function.update handlers id' (some { initial := initial }) id).map Handler.phase)
      (((fanout.subscribe id').subscribers id).map SubscriberQueue.closed) statuses := by
  simp only [Fanout.subscribe]
  by_cases hid : id' = id
  · subst hid
    rw [hnone] at h
    rw [Function.update_self, Function.update_self]
    exact h.subscribe
  · rw [Function.update_of_ne (Ne.symm hid), Function.update_of_ne (Ne.symm hid)]
    exact h

/-- The ledger of one call. -/
def Accounts (s : Service) (stream : Stream) (id : SubscriberId) (left : Prop)
    (statuses : List RpcStatus) : Prop :=
  Accounted stream.onClosed left (s.phase stream id) (s.queueClosed stream id) statuses

end Service

/-- The status of one call, if it is that. -/
def Returned.of (stream : Stream) (id : SubscriberId) (r : Returned) : Option RpcStatus :=
  if r.stream = stream ∧ r.subscriber = id then some r.status else none

private theorem Returned.filterMap_of {stream stream' : Stream} {id id' : SubscriberId}
    (status : Option RpcStatus) :
    (status.map (⟨stream', id', ·⟩)).toList.filterMap (Returned.of stream id) =
      if stream' = stream ∧ id' = id then status.toList else [] := by
  cases status with
  | none => simp
  | some status =>
    rw [Option.map_some, Option.toList_some, List.filterMap_cons, Returned.of]
    by_cases hcall : stream' = stream ∧ id' = id
    · simp only [if_pos hcall, List.filterMap_nil, Option.toList_some]
    · simp only [if_neg hcall, List.filterMap_nil]

namespace Service

open Returned (filterMap_of)

variable {s : Service} {id : SubscriberId} {left : Prop} {statuses : List RpcStatus}

/-- **A step of a book** keeps the ledger of every call. -/
theorem accounts_step {stream : Stream} (h : s.Accounts stream id left statuses)
    (event : ServiceEvent) :
    (s.step event).1.Accounts stream id (left ∨ s.FindsClosed stream id event)
      (statuses ++ (s.returns event).filterMap (Returned.of stream id)) := by
  cases event with
  | call c =>
    obtain ⟨l2, bbo, hl2, hbbo⟩ := s.symbolBook.call_fanouts c
    simp only [returns, List.filterMap_nil, List.append_nil]
    cases stream with
    | l2 =>
      simp only [Accounts, phase, queueClosed, step, hl2, FindsClosed, or_false]
      exact accounted_broadcast h l2
    | bbo =>
      simp only [Accounts, phase, queueClosed, step, hbbo, FindsClosed, or_false]
      exact accounted_broadcast h bbo
  | sendHeartbeat =>
    simp only [returns, List.filterMap_nil, List.append_nil]
    cases stream with
    | l2 | bbo =>
      simp only [FindsClosed, or_false]
      exact accounted_broadcast h [_]
  | subscribe id' =>
    simp only [returns, List.filterMap_nil, List.append_nil, step]
    cases stream with
    | bbo =>
      simp only [FindsClosed, or_false]
      cases s.l2 id' <;> exact h
    | l2 =>
      simp only [FindsClosed, or_false]
      cases hhandler : s.l2 id' with
      | some _ => exact h
      | none => exact accounted_subscribe h hhandler _
  | subscribeBbo id' =>
    simp only [returns, List.filterMap_nil, List.append_nil, step]
    cases stream with
    | l2 =>
      simp only [FindsClosed, or_false]
      cases s.bbo id' <;> exact h
    | bbo =>
      simp only [FindsClosed, or_false]
      cases hhandler : s.bbo id' with
      | some _ => exact h
      | none => exact accounted_subscribe h hhandler _
  | l2 id' event =>
    cases stream with
    | l2 =>
      rw [returns, filterMap_of]
      simp only [true_and]
      exact accounted_stepHandler h id' event
    | bbo =>
      rw [returns, filterMap_of, if_neg (fun hcall => by cases hcall.1), List.append_nil]
      simp only [FindsClosed, or_false]
      exact h
  | bbo id' event =>
    cases stream with
    | l2 =>
      rw [returns, filterMap_of, if_neg (fun hcall => by cases hcall.1), List.append_nil]
      simp only [FindsClosed, or_false]
      exact h
    | bbo =>
      rw [returns, filterMap_of]
      simp only [true_and]
      exact accounted_stepHandler h id' event

end Service

/-- **The ledgers of a run** fit. -/
theorem callMachine_accounted (stream : Stream) (id : SubscriberId)
    (events : List ServiceEvent) :
    (callMachine.state {} events).Accounts stream id (LeftOnClosed events stream id)
      ((callMachine.output {} events).filterMap (Returned.of stream id)) := by
  induction events using List.reverseRecOn with
  | nil =>
    have hnot : ¬ LeftOnClosed [] stream id := fun ⟨_, _, hpre, _⟩ => by simp at hpre
    have hstart : Accounted stream.onClosed (LeftOnClosed [] stream id) none none [] :=
      Accounted.start.congr (iff_false_intro hnot)
    cases stream <;> exact hstart
  | append_singleton events event ih =>
    rw [Machine.state_concat, Machine.output_concat, List.filterMap_append,
      propext (leftOnClosed_concat events event stream id)]
    exact Service.accounts_step ih event

end Hermeneutic
