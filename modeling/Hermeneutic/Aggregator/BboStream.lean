import Hermeneutic.Aggregator.Publication

/-!
# What a BBO subscriber is given

A `Bbo` is broadcast whenever the best bid or ask moves and a full queue drops its oldest
entry, so a new `Bbo` only ever makes room by dropping an older one or a heartbeat. A
heartbeat makes room in the same way, and what it drops may be the newest `Bbo` there is: no
later one follows until the best bid or ask moves again, and the subscriber keeps the `Bbo`
before it (`LosesTop`).

The last `Bbo` of a subscriber's stream, taken or still queued, states the current best bid
and ask (`BboSubscriberInv`), through every step but such a heartbeat. A subscriber that has
caught up has received that `Bbo`; and one that such a heartbeat has passed is stale when it
catches up next.

Three things can happen to the last `Bbo` of a stream. A new one replaces it, and it states the
new top; an entry in front of it is dropped, and it stays the last; or it is dropped itself, by a
heartbeat pushed into a full queue, which is `LosesTop`. The step lemmas are one for each, and the
run lemma says that the invariant holds as long as the third does not happen (`KeepsTop`). The
other direction needs a run that goes on: a subscriber that has lost the top drains what it still
has, and is then behind with nothing more to come (`catch_up`).
-/

namespace Hermeneutic

/-- What a `Bbo` states: the best bid and the best ask. -/
abbrev Top := Option PriceLevel × Option PriceLevel

/-- The best bid and ask of the book. -/
def SymbolBook.top (sb : SymbolBook) : Top :=
  (sb.bestBid.map fun bid => makeLevel bid.1 bid.2,
    sb.bestAsk.map fun ask => makeLevel ask.1 ask.2)

def BboUpdate.top : BboUpdate → Option Top
  | bbo _ bid ask => some (bid, ask)
  | heartbeat _ => none

/-- What the last `Bbo` among the updates states. -/
def lastTop (updates : List BboUpdate) : Option Top := (updates.filterMap BboUpdate.top).getLast?

@[simp] theorem lastTop_nil : lastTop [] = none := rfl

private theorem lastTop_append (updates updates' : List BboUpdate) :
    lastTop (updates ++ updates') = (lastTop updates').or (lastTop updates) := by
  rw [lastTop, List.filterMap_append, List.getLast?_append, lastTop, lastTop]

private theorem lastTop_singleton (update : BboUpdate) : lastTop [update] = update.top := by
  cases update <;> rfl

private theorem lastTop_cons (update : BboUpdate) (updates : List BboUpdate) :
    lastTop (update :: updates) = (lastTop updates).or update.top := by
  rw [← List.singleton_append, lastTop_append, lastTop_singleton]

private theorem lastTop_replicate_heartbeat (n : ℕ) (venues : List String) :
    lastTop (List.replicate n (.heartbeat venues)) = none := by
  induction n with
  | zero => rfl
  | succ n ih =>
    rw [List.replicate_succ, lastTop_cons, ih]
    rfl

/-! ### Publishing the top -/

namespace SymbolBook

theorem buildBbo_eq (sb : SymbolBook) : sb.buildBbo = .bbo sb.seq sb.top.1 sb.top.2 := rfl

private theorem top_congr {sb sb' : SymbolBook} (h : sb'.book.aggregate = sb.book.aggregate) :
    sb'.top = sb.top := by
  simp only [top, bestBid, bestAsk, h]

/-- The top was broadcast last. -/
structure Announced (sb : SymbolBook) : Prop where
  bid : sb.lastBboBid = sb.bestBid
  ask : sb.lastBboAsk = sb.bestAsk

/-- **A call on the BBO side.** The top is as before and nothing is broadcast, or the new one
is broadcast. -/
theorem call_announced {sb : SymbolBook} (h : sb.Announced) (c : BookCall) :
    (sb.call c).2.Announced ∧
      ((sb.call c).2.top = sb.top ∧ (sb.call c).2.bboFanout = sb.bboFanout ∨
        ∃ bookSeq, (sb.call c).2.bboFanout =
          sb.bboFanout.broadcast (.bbo bookSeq (sb.call c).2.top.1 (sb.call c).2.top.2)) := by
  rcases sb.call_revises c with ⟨haggregate, hsame⟩ | ⟨bids, asks, hnew, -, -⟩
  · generalize (sb.call c).2 = sb' at *
    have hbid : sb'.bestBid = sb.bestBid := by rw [bestBid, haggregate, bestBid]
    have hask : sb'.bestAsk = sb.bestAsk := by rw [bestAsk, haggregate, bestAsk]
    refine ⟨⟨?_, ?_⟩, .inl ⟨top_congr haggregate, by rw [hsame]⟩⟩
    · rw [hbid, ← h.bid, hsame]
    · rw [hask, ← h.ask, hsame]
  · generalize (sb.call c).2 = sb' at *
    rw [publishBbo] at hnew
    split at hnew
    · rw [hnew]
      exact ⟨⟨rfl, rfl⟩, .inr ⟨_, rfl⟩⟩
    · rename_i hsame
      obtain ⟨hbid, hask⟩ := not_or.mp hsame
      have hbid' := not_not.mp hbid
      have hask' := not_not.mp hask
      rw [hnew]
      refine ⟨⟨hbid'.symm, hask'.symm⟩, .inl ⟨?_, rfl⟩⟩
      simp only [top]
      rw [hbid', hask', h.bid, h.ask]

end SymbolBook

/-! ### One subscriber -/

/-- A heartbeat would cost the subscriber its newest `Bbo`: the queue is full, the `Bbo` is
its oldest entry and the only one in it, and the last one taken out of it states another
top. -/
structure LosesTop (q : SubscriberQueue BboUpdate) (h : Handler BboUpdate) : Prop where
  full : q.effectiveCapacity ≤ q.queue.length
  oldest : ∃ bookSeq bid ask rest, q.queue = .bbo bookSeq bid ask :: rest ∧
    lastTop rest = none ∧ lastTop h.taken ≠ some (bid, ask)

/-- Dropping the oldest entry of a stream's queue changes the last `Bbo` of the stream exactly
if it is that one and the one before states another top. -/
private theorem lastTop_tail_iff (taken queue : List BboUpdate) :
    lastTop (taken ++ queue.tail) = lastTop (taken ++ queue) ↔
      ¬ ∃ bookSeq bid ask rest, queue = .bbo bookSeq bid ask :: rest ∧
        lastTop rest = none ∧ lastTop taken ≠ some (bid, ask) := by
  cases queue with
  | nil => simp
  | cons update rest =>
    rw [List.tail_cons, lastTop_append, lastTop_append, lastTop_cons]
    cases update with
    | heartbeat venues => simp [BboUpdate.top]
    | bbo bookSeq bid ask => cases hrest : lastTop rest <;> simp [BboUpdate.top, hrest]

/-- What a heartbeat does to the last `Bbo` of a stream. -/
private theorem lastTop_pushOrClose_heartbeat {q : SubscriberQueue BboUpdate}
    (hpolicy : q.overflowPolicy = .dropOldest) (hopen : q.closed = false)
    (h : Handler BboUpdate) (venues : List String) :
    lastTop (h.taken ++ (q.pushOrClose (.heartbeat venues)).2.queue) =
        lastTop (h.taken ++ q.queue) ↔ ¬ LosesTop q h := by
  have hlast (queue : List BboUpdate) :
      lastTop (h.taken ++ (queue ++ [.heartbeat venues])) = lastTop (h.taken ++ queue) := by
    rw [← List.append_assoc, lastTop_append, lastTop_singleton]
    rfl
  rw [q.pushOrClose_of_dropOldest hpolicy hopen, hlast]
  split
  · rename_i hfull
    rw [lastTop_tail_iff]
    exact not_congr ⟨fun holdest => ⟨hfull, holdest⟩, fun hloses => hloses.oldest⟩
  · rename_i hroom
    exact iff_of_true rfl fun hloses => hroom hloses.full

/-- What holds of a BBO subscriber: while it is active its stream states the top last. -/
structure BboSubscriberInv (top : Top) (queue : Option (SubscriberQueue BboUpdate))
    (h : Handler BboUpdate) : Prop where
  wellFormed : h.WellFormed
  active : h.phase.active = true → ∃ q, queue = some q ∧ q.overflowPolicy = .dropOldest ∧
    q.closed = false ∧ lastTop (h.taken ++ q.queue) = some top

namespace BboSubscriberInv

variable {top top' : Top} {queue : Option (SubscriberQueue BboUpdate)} {h : Handler BboUpdate}

/-- A new subscriber, with the current top. -/
theorem start (bookSeq : UInt64) (top : Top) (capacity : ℕ) :
    BboSubscriberInv top (some { capacity, overflowPolicy := .dropOldest })
      { initial := .bbo bookSeq top.1 top.2 } where
  wellFormed := ⟨fun _ => ⟨rfl, rfl⟩, fun _ hphase => by simp at hphase⟩
  active _ := ⟨_, rfl, rfl, rfl, rfl⟩

/-- A broadcast after which the stream states the new top last. -/
theorem push (hinv : BboSubscriberInv top queue h) {update : BboUpdate}
    (hstates : ∀ q, queue = some q → h.phase.active = true →
      q.overflowPolicy = .dropOldest → q.closed = false →
      lastTop (h.taken ++ q.queue) = some top →
      lastTop (h.taken ++ (q.pushOrClose update).2.queue) = some top') :
    BboSubscriberInv top' (queue.map fun q => (q.pushOrClose update).2) h where
  wellFormed := hinv.wellFormed
  active hactive := by
    obtain ⟨q, hq, hpolicy, hopen, hlast⟩ := hinv.active hactive
    refine ⟨(q.pushOrClose update).2, by rw [hq]; rfl,
      (q.pushOrClose_overflowPolicy update).trans hpolicy, ?_,
      hstates q hq hactive hpolicy hopen hlast⟩
    rw [q.pushOrClose_of_dropOldest hpolicy hopen]
    exact hopen

/-- A new `Bbo`: whatever it drops, it is the last. -/
private theorem push_bbo (hinv : BboSubscriberInv top queue h) (bookSeq : UInt64) (top' : Top) :
    BboSubscriberInv top'
      (queue.map fun q => (q.pushOrClose (.bbo bookSeq top'.1 top'.2)).2) h :=
  hinv.push fun q _ _ hpolicy hopen _ => by
    rw [q.pushOrClose_of_dropOldest hpolicy hopen, ← List.append_assoc, lastTop_append,
      lastTop_singleton]
    rfl

/-- A heartbeat that costs no `Bbo`. -/
private theorem push_heartbeat (hinv : BboSubscriberInv top queue h) (venues : List String)
    (hkeeps : ∀ q, queue = some q → h.phase.active = true → ¬ LosesTop q h) :
    BboSubscriberInv top (queue.map fun q => (q.pushOrClose (.heartbeat venues)).2) h :=
  hinv.push fun q hq hactive hpolicy hopen hlast =>
    ((lastTop_pushOrClose_heartbeat hpolicy hopen h venues).mpr (hkeeps q hq hactive)).trans hlast

/-- A step of the handler. -/
theorem step {q : SubscriberQueue BboUpdate} (hinv : BboSubscriberInv top (some q) h)
    (event : HandlerEvent) : BboSubscriberInv top (h.step q event).1 (h.step q event).2 := by
  have hstepped := Handler.step_stepped hinv.wellFormed q event
  refine ⟨hstepped.wellFormed, fun hactive' => ?_⟩
  have hactive := hstepped.active_before hactive'
  obtain ⟨_, hq, hpolicy, hopen, hlast⟩ := hinv.active hactive
  obtain rfl := Option.some.inj hq
  obtain ⟨q', hq', hcontinues⟩ := hstepped.continues hactive hactive'
  exact ⟨q', hq', hcontinues.overflowPolicy.trans hpolicy, hcontinues.closed.trans hopen,
    (congrArg lastTop hcontinues.stream).trans hlast⟩

end BboSubscriberInv

/-! ### Every run -/

/-- The step is no heartbeat that costs the subscriber its newest `Bbo`. -/
def KeepsTop (id : SubscriberId) (s : Service) (event : ServiceEvent) : Prop :=
  event = .sendHeartbeat → ∀ q h, s.symbolBook.bboFanout.subscribers id = some q →
    s.bbo id = some h → h.phase.active = true → ¬ LosesTop q h

/-- Once the subscriber has caught up, with its queue empty and all it drained written, the
last `Bbo` it has received states the current top. -/
def NotStale (id : SubscriberId) (s : Service) : Prop :=
  ∀ q h, s.symbolBook.bboFanout.subscribers id = some q → s.bbo id = some h →
    h.phase = .written true ∨ h.phase = .streaming → h.batch = [] → q.queue = [] →
    lastTop h.received = some s.symbolBook.top

/-- The service, as one BBO subscriber sees it. -/
structure BboInv (id : SubscriberId) (s : Service) : Prop where
  announced : s.symbolBook.Announced
  overflowPolicy : s.symbolBook.bboFanout.overflowPolicy = .dropOldest
  subscriber : ∀ h, s.bbo id = some h →
    BboSubscriberInv s.symbolBook.top (s.symbolBook.bboFanout.subscribers id) h

namespace BboInv

variable {id : SubscriberId} {s : Service}

theorem start (id : SubscriberId) : BboInv id {} where
  announced := ⟨rfl, rfl⟩
  overflowPolicy := rfl
  subscriber _ hmem := by simp at hmem

/-- **Step lemma.** -/
theorem step (hinv : BboInv id s) (event : ServiceEvent) (hkeeps : KeepsTop id s event) :
    BboInv id (serviceMachine.step s event).1 := by
  cases event with
  | call c =>
    obtain ⟨hannounced, ⟨htop, hfanout⟩ | ⟨bookSeq, hfanout⟩⟩ :=
      SymbolBook.call_announced hinv.announced c
    · refine ⟨hannounced, ?_, fun h hmem => ?_⟩
      · exact (congrArg _ hfanout).trans hinv.overflowPolicy
      · simp only [serviceMachine, Service.step, htop, hfanout]
        exact hinv.subscriber h hmem
    · refine ⟨hannounced, ?_, fun h hmem => ?_⟩
      · exact (congrArg _ hfanout).trans hinv.overflowPolicy
      · simp only [serviceMachine, Service.step]
        rw [hfanout]
        exact (hinv.subscriber h hmem).push_bbo bookSeq _
  | sendHeartbeat =>
    refine ⟨⟨hinv.announced.bid, hinv.announced.ask⟩, hinv.overflowPolicy, fun h hmem => ?_⟩
    exact (hinv.subscriber h hmem).push_heartbeat _ fun q hq => hkeeps rfl q h hq hmem
  | subscribe id' =>
    simp only [serviceMachine, Service.step]
    split
    · exact hinv
    · exact ⟨⟨hinv.announced.bid, hinv.announced.ask⟩, hinv.overflowPolicy, hinv.subscriber⟩
  | subscribeBbo id' =>
    simp only [serviceMachine, Service.step]
    split
    · exact hinv
    · refine ⟨⟨hinv.announced.bid, hinv.announced.ask⟩, hinv.overflowPolicy, fun h hmem => ?_⟩
      by_cases hid : id = id'
      · subst hid
        simp only [Function.update_self, Option.some.injEq, Fanout.subscribe,
          SymbolBook.buildBbo_eq, hinv.overflowPolicy] at hmem ⊢
        exact hmem ▸ .start _ _ _
      · simp only [Function.update_of_ne hid, Fanout.subscribe] at hmem ⊢
        exact hinv.subscriber h hmem
  | l2 id' event =>
    exact ⟨⟨hinv.announced.bid, hinv.announced.ask⟩, hinv.overflowPolicy, hinv.subscriber⟩
  | bbo id' event =>
    refine ⟨⟨hinv.announced.bid, hinv.announced.ask⟩,
      (Service.stepHandler_overflowPolicy _ _ _ _).trans hinv.overflowPolicy, fun h hmem => ?_⟩
    rcases Service.stepHandler_cases hmem with ⟨hsame, hqueue⟩ | ⟨rfl, q, h, hq, hh, rfl, hqueue⟩
    · simp only [serviceMachine, Service.step]
      rw [hqueue]
      exact hinv.subscriber h hsame
    · simp only [serviceMachine, Service.step]
      rw [hqueue]
      exact (hq ▸ hinv.subscriber h hh).step event

/-- A subscriber that has caught up has received the last `Bbo` of its stream. -/
private theorem notStale (hinv : BboInv id s) : NotStale id s := by
  intro q h hq hh hphase hbatch hempty
  have hactive : h.phase.active = true := by
    rcases hphase with hphase | hphase <;> rw [hphase] <;> rfl
  obtain ⟨_, hq', -, -, hlast⟩ := (hinv.subscriber h hh).active hactive
  obtain rfl := Option.some.inj (hq.symm.trans hq')
  have hregistered : h.phase ≠ .registered := by
    rcases hphase with hphase | hphase <;> simp [hphase]
  simpa [Handler.taken, hregistered, hbatch, hempty] using hlast

end BboInv

/-! ### Catching up -/

/-- A BBO subscriber, with its queue and its handler. -/
structure Subscribed (id : SubscriberId) (s : Service) (q : SubscriberQueue BboUpdate)
    (h : Handler BboUpdate) : Prop where
  queue : s.symbolBook.bboFanout.subscribers id = some q
  handler : s.bbo id = some h

namespace Subscribed

variable {id : SubscriberId} {s : Service} {q q' : SubscriberQueue BboUpdate}
  {h h' : Handler BboUpdate}

/-- A step of its own. -/
theorem own (hsub : Subscribed id s q h) (event : HandlerEvent)
    (hstep : h.step q event = (some q', h')) :
    Subscribed id (serviceMachine.step s (.bbo id event)).1 q' h' ∧
      (serviceMachine.step s (.bbo id event)).1.symbolBook.top = s.symbolBook.top := by
  refine ⟨⟨?_, ?_⟩, rfl⟩ <;>
    simp [serviceMachine, Service.step, Service.stepHandler, hsub.queue, hsub.handler, hstep]

/-- It writes what it has drained. -/
private theorem write_batch (hsub : Subscribed id s q h) (hphase : h.phase = .streaming) :
    Subscribed id
        (serviceMachine.state s (.replicate h.batch.length (.bbo id (.write true)))) q
        { h with batch := [], received := h.received ++ h.batch } ∧
      (serviceMachine.state s
        (.replicate h.batch.length (.bbo id (.write true)))).symbolBook.top =
        s.symbolBook.top := by
  induction hbatch : h.batch generalizing s h with
  | nil =>
    refine ⟨⟨hsub.queue, ?_⟩, rfl⟩
    change s.bbo id = some { h with batch := [], received := h.received ++ [] }
    rw [List.append_nil, ← hbatch]
    exact hsub.handler
  | cons update batch ih =>
    have hwrite : h.step q (.write true) =
        (some q, { h with batch, received := h.received ++ [update] }) := by
      simp [Handler.step, hphase, hbatch]
    obtain ⟨hnext, htop⟩ := hsub.own _ hwrite
    obtain ⟨hlast, htop'⟩ := ih hnext hphase rfl
    rw [List.length_cons, List.replicate_succ, Machine.state_cons]
    refine ⟨?_, htop'.trans htop⟩
    simpa only [List.append_assoc, List.singleton_append] using hlast

/-- It drains its queue and writes all of it. -/
private theorem drain_write (hsub : Subscribed id s q h) (hphase : h.phase = .streaming)
    (hbatch : h.batch = []) (hopen : q.closed = false) :
    Subscribed id
        (serviceMachine.state s
          (.bbo id .drain :: .replicate q.queue.length (.bbo id (.write true))))
        { q with queue := [] } { h with received := h.received ++ q.queue } ∧
      (serviceMachine.state s
        (.bbo id .drain :: .replicate q.queue.length (.bbo id (.write true)))).symbolBook.top =
        s.symbolBook.top := by
  have hdrain : h.step q .drain = (some { q with queue := [] }, { h with batch := q.queue }) := by
    cases hqueue : q.queue with
    | nil =>
      have hq : { q with queue := [] } = q := by rw [← hqueue]
      have hh : { h with batch := [] } = h := by rw [← hbatch]
      rw [hq, hh]
      simp [Handler.step, hphase, hbatch, SubscriberQueue.waitAndDrain, hopen, hqueue]
    | cons => simp [Handler.step, hphase, hbatch, SubscriberQueue.waitAndDrain, hopen, hqueue]
  obtain ⟨hnext, htop⟩ := hsub.own _ hdrain
  obtain ⟨hlast, htop'⟩ := hnext.write_batch hphase
  rw [Machine.state_cons]
  refine ⟨?_, htop'.trans htop⟩
  simpa only [hbatch] using hlast

/-- A heartbeat is pushed into its queue. -/
theorem sendHeartbeat (hsub : Subscribed id s q h) :
    Subscribed id (serviceMachine.step s .sendHeartbeat).1
      (q.pushOrClose (.heartbeat s.symbolBook.liveVenues)).2 h where
  queue := by
    simp [serviceMachine, Service.step, SymbolBook.sendHeartbeat, Fanout.broadcast, hsub.queue]
  handler := hsub.handler

/-- Heartbeats that find room are queued. -/
private theorem sendHeartbeats (hsub : Subscribed id s q h)
    (hpolicy : q.overflowPolicy = .dropOldest)
    (hopen : q.closed = false) {n : ℕ} (hroom : q.queue.length + n ≤ q.effectiveCapacity) :
    Subscribed id (serviceMachine.state s (.replicate n .sendHeartbeat))
        { q with queue := q.queue ++ .replicate n (.heartbeat s.symbolBook.liveVenues) } h ∧
      (serviceMachine.state s (.replicate n .sendHeartbeat)).symbolBook.book =
        s.symbolBook.book := by
  induction n generalizing s q with
  | zero => simpa using hsub
  | succ n ih =>
    have hnext := hsub.sendHeartbeat
    have hfits : ¬ q.effectiveCapacity ≤ q.queue.length := by omega
    rw [q.pushOrClose_of_dropOldest hpolicy hopen, if_neg hfits] at hnext
    obtain ⟨hlast, hbook⟩ := ih hnext hpolicy hopen (by
      change (q.queue ++ [_]).length + n ≤ q.effectiveCapacity
      rw [List.length_append, List.length_singleton]
      omega)
    rw [List.replicate_succ, Machine.state_cons, List.replicate_succ]
    refine ⟨?_, hbook⟩
    rw [List.append_assoc, List.singleton_append] at hlast
    exact hlast

/-- In the loop of the call, it catches up: it writes what it has drained, drains the rest and
writes that. -/
private theorem catch_up_streaming (hsub : Subscribed id s q h) (hphase : h.phase = .streaming)
    (hopen : q.closed = false) :
    ∃ own : List HandlerEvent,
      Subscribed id (serviceMachine.state s (own.map (.bbo id))) { q with queue := [] }
        { h with batch := [], received := h.received ++ h.batch ++ q.queue } ∧
      (serviceMachine.state s (own.map (.bbo id))).symbolBook.top = s.symbolBook.top := by
  obtain ⟨hwritten, htop⟩ := hsub.write_batch hphase
  obtain ⟨hdrained, htop'⟩ := hwritten.drain_write hphase rfl hopen
  refine ⟨.replicate h.batch.length (.write true) ++
    .drain :: .replicate q.queue.length (.write true), ?_⟩
  rw [List.map_append, List.map_cons, List.map_replicate, List.map_replicate,
    Machine.state_append]
  exact ⟨hdrained, htop'.trans htop⟩

/-- **Catching up.** By its own steps an active subscriber can get to have received all of its
stream. -/
theorem catch_up (hsub : Subscribed id s q h) (hactive : h.phase.active = true)
    (hopen : q.closed = false) :
    ∃ (own : List HandlerEvent) (q' : SubscriberQueue BboUpdate) (h' : Handler BboUpdate),
      Subscribed id (serviceMachine.state s (own.map (.bbo id))) q' h' ∧
      (serviceMachine.state s (own.map (.bbo id))).symbolBook.top = s.symbolBook.top ∧
      h'.phase = .streaming ∧ h'.batch = [] ∧ q'.queue = [] ∧
      h'.received = h.taken ++ q.queue := by
  cases hphase : h.phase with
  | streaming =>
    obtain ⟨own, hsub', htop⟩ := hsub.catch_up_streaming hphase hopen
    exact ⟨own, _, _, hsub', htop, hphase, rfl, rfl, by simp [Handler.taken, hphase]⟩
  | written wrote =>
    obtain rfl : wrote = true := by
      cases wrote with
      | true => rfl
      | false => simp [hphase, HandlerPhase.active] at hactive
    have hend : h.step q .endBootstrap = (some q.endBootstrap, { h with phase := .streaming }) := by
      simp [Handler.step, hphase]
    obtain ⟨hloop, htop⟩ := hsub.own _ hend
    obtain ⟨own, hsub', htop'⟩ := hloop.catch_up_streaming rfl hopen
    exact ⟨.endBootstrap :: own, _, _, hsub', htop'.trans htop, rfl, rfl, rfl,
      by simp [Handler.taken, hphase, SubscriberQueue.endBootstrap]⟩
  | registered =>
    have hwrite : h.step q (.write true) = (some q,
        { h with phase := .written true, received := h.received ++ [h.initial] }) := by
      simp [Handler.step, hphase]
    obtain ⟨hwritten, htop⟩ := hsub.own _ hwrite
    obtain ⟨hloop, htop'⟩ := hwritten.own .endBootstrap rfl
    obtain ⟨own, hsub', htop''⟩ := hloop.catch_up_streaming rfl hopen
    exact ⟨.write true :: .endBootstrap :: own, _, _, hsub', htop''.trans (htop'.trans htop), rfl,
      rfl, rfl, by simp [Handler.taken, hphase, SubscriberQueue.endBootstrap]⟩
  | leaving | finished => simp [hphase, HandlerPhase.active] at hactive

end Subscribed

/-- A heartbeat that costs a subscriber its newest `Bbo` leaves it to catch up to a state in
which it is stale. -/
private theorem BboInv.stale_of_loses {id : SubscriberId} {s : Service} {event : ServiceEvent}
    (hinv : BboInv id s) (hmiss : ¬ KeepsTop id s event) :
    ∃ own : List HandlerEvent, ¬ NotStale id
      (serviceMachine.state (serviceMachine.step s event).1 (own.map (.bbo id))) := by
  simp only [KeepsTop, not_forall, not_not] at hmiss
  obtain ⟨rfl, q, h, hq, hh, hactive, hloses⟩ := hmiss
  obtain ⟨_, hq', hpolicy, hopen, hlast⟩ := (hinv.subscriber h hh).active hactive
  obtain rfl := Option.some.inj (hq.symm.trans hq')
  have hsub := Subscribed.sendHeartbeat ⟨hq, hh⟩
  have hopen' : (q.pushOrClose (.heartbeat s.symbolBook.liveVenues)).2.closed = false := by
    rw [q.pushOrClose_of_dropOldest hpolicy hopen]
    exact hopen
  obtain ⟨own, q', h', hsub', htop, hphase, hbatch, hempty, hreceived⟩ :=
    hsub.catch_up hactive hopen'
  refine ⟨own, fun hfresh => ?_⟩
  have hstates := hfresh q' h' hsub'.queue hsub'.handler (.inr hphase) hbatch hempty
  rw [hreceived, htop] at hstates
  have hsame : (serviceMachine.step s .sendHeartbeat).1.symbolBook.top = s.symbolBook.top := rfl
  rw [hsame, ← hlast] at hstates
  exact (lastTop_pushOrClose_heartbeat hpolicy hopen h _).mp hstates hloses

/-- **The BBO stream.** While no heartbeat costs the subscriber its newest `Bbo`, it is not
stale in any state of the run. Once one does, it can catch up to a state in which it is. -/
theorem bbo_notStale (id : SubscriberId) (events : List ServiceEvent) :
    (serviceMachine.Throughout (KeepsTop id) {} events →
        serviceMachine.Always (NotStale id) {} events) ∧
      (¬ serviceMachine.Throughout (KeepsTop id) {} events →
        ∃ (pre : List ServiceEvent) (own : List HandlerEvent), pre <+: events ∧
          ¬ NotStale id (serviceMachine.state {} (pre ++ own.map (.bbo id)))) := by
  have hkept : ∀ {events}, serviceMachine.Throughout (KeepsTop id) {} events →
      serviceMachine.Always (BboInv id) {} events :=
    Machine.always_of_throughout (BboInv.start id) fun s event hinv => hinv.step event
  refine ⟨fun hkeeps => (hkept hkeeps).imp fun s => BboInv.notStale, fun hmisses => ?_⟩
  obtain ⟨pre, event, hpre, hkeeps, hmiss⟩ := Machine.exists_of_not_throughout hmisses
  obtain ⟨own, hstale⟩ := (hkept hkeeps).last.stale_of_loses hmiss
  refine ⟨pre ++ [event], own, hpre, ?_⟩
  rwa [Machine.state_append, Machine.state_concat]

/-- A subscriber with one `Bbo` in its queue reads nothing until heartbeats have filled it and
one more has come, and then it catches up: all it receives is heartbeats. -/
private theorem Subscribed.heartbeats_catch_up {id : SubscriberId} {s : Service}
    {q : SubscriberQueue BboUpdate} {h : Handler BboUpdate} (hsub : Subscribed id s q h)
    (hphase : h.phase = .streaming) (hbatch : h.batch = [])
    (hpolicy : q.overflowPolicy = .dropOldest) (hopen : q.closed = false)
    {update : BboUpdate} (hqueue : q.queue = [update]) {n : ℕ}
    (hcapacity : q.effectiveCapacity = n + 1) :
    ∃ s', s' = serviceMachine.state s (.replicate (n + 1) .sendHeartbeat ++
        .bbo id .drain :: .replicate (n + 1) (.bbo id (.write true))) ∧
      Subscribed id s' { q with queue := [] }
        { h with
          received := h.received ++
            List.replicate (n + 1) (.heartbeat s.symbolBook.liveVenues) } ∧
      s'.symbolBook.top = s.symbolBook.top := by
  obtain ⟨hfull, hbook⟩ := hsub.sendHeartbeats hpolicy hopen (n := n)
    (by rw [hqueue, hcapacity, List.length_singleton, Nat.add_comm])
  have hvenues : (serviceMachine.state s (.replicate n .sendHeartbeat)).symbolBook.liveVenues =
      s.symbolBook.liveVenues := by
    rw [SymbolBook.liveVenues, hbook, SymbolBook.liveVenues]
  obtain ⟨full, hdef⟩ : ∃ full, full = { q with
      queue := q.queue ++ List.replicate n (BboUpdate.heartbeat s.symbolBook.liveVenues) } :=
    ⟨_, rfl⟩
  have hentries : full.queue = update :: .replicate n (.heartbeat s.symbolBook.liveVenues) := by
    rw [hdef, hqueue, List.singleton_append]
  have hfits : full.effectiveCapacity ≤ full.queue.length := by
    rw [hentries, List.length_cons, List.length_replicate, ← hcapacity, hdef]
    rfl
  rw [← hdef] at hfull
  have hpushed := hfull.sendHeartbeat
  rw [full.pushOrClose_of_dropOldest (hdef ▸ hpolicy) (hdef ▸ hopen), if_pos hfits, hentries,
    List.tail_cons, hvenues, ← List.replicate_succ'] at hpushed
  obtain ⟨hcaught, htop⟩ := hpushed.drain_write hphase hbatch (hdef ▸ hopen)
  rw [List.length_replicate] at hcaught htop
  refine ⟨_, rfl, ?_, ?_⟩
  · rw [Machine.state_append, List.replicate_succ', Machine.state_concat]
    rw [hdef] at hcaught
    exact hcaught
  · rw [Machine.state_append, List.replicate_succ', Machine.state_concat, htop]
    exact SymbolBook.top_congr (congrArg _ hbook)

/-- A caught-up subscriber is told a new best bid, reads nothing during 256 heartbeats, and
then catches up. -/
def staleRun : List ServiceEvent :=
  [.subscribeBbo 0, .bbo 0 (.write true), .bbo 0 .endBootstrap,
      .call ⟨⟨.binance, .spot⟩, .applyBatch [(⟨100⟩, ⟨5⟩)] []⟩] ++
    (.replicate 256 .sendHeartbeat ++ .bbo 0 .drain :: .replicate 256 (.bbo 0 (.write true)))

/-- After that run it has received no `Bbo` but its initial one, of an empty book. -/
theorem bbo_notStale_counterexample : ¬ NotStale 0 (serviceMachine.state {} staleRun) := by
  intro hfresh
  rw [staleRun, Machine.state_append] at hfresh
  generalize hstart : serviceMachine.state {} _ = s at hfresh
  have hsub : Subscribed 0 s
      { capacity := 256, overflowPolicy := .dropOldest, bootstrapping := false
        queue := [.bbo 1 (some ⟨100, 5⟩) none] }
      { phase := .streaming, initial := .bbo 0 none none, received := [.bbo 0 none none] } :=
    hstart ▸ ⟨rfl, rfl⟩
  have htop : s.symbolBook.top = (some ⟨100, 5⟩, none) := hstart ▸ rfl
  obtain ⟨s', hs', hcaught, htop'⟩ := hsub.heartbeats_catch_up rfl rfl rfl rfl rfl (n := 255) rfl
  rw [← hs'] at hfresh
  have hstates := hfresh _ _ hcaught.queue hcaught.handler (.inr rfl) rfl rfl
  rw [htop', htop, lastTop_append, lastTop_replicate_heartbeat] at hstates
  exact absurd hstates (by decide)

end Hermeneutic
