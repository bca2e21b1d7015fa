import Hermeneutic.Aggregator.SymbolBook

/-!
# Subscribers do not see each other

A subscriber's handler touches nothing but its own queue, and a broadcast pushes into every
queue without looking at the others. Erasing any subscribers of either stream, with all their
steps, therefore leaves the rest of the service exactly as it is: the book, its revisions, and
every other subscriber's queue and handler (`Service.restrict`). A client that stalls,
overflows, disconnects or subscribes a thousand times is not felt by anyone else.

The proof is one lemma per operation, that it commutes with the erasing or is undone by it, and
the projection of runs.

A step of an erased subscriber becomes a step that changes nothing, and a step of a kept one finds
its queue and its handler as they were; a call or a heartbeat pushes into fewer queues, with the
same outcome for each. The revisions are the outputs of the run, and they are the same lists, so
nothing a subscriber does can be noticed in what another one is sent, in whichever order their
steps come.
-/

namespace Hermeneutic

/-! ### Erasing subscribers -/

section Restrict

variable {T : Type*}

/-- Only the entries that are kept. -/
def keepOnly {α : Type*} (keeps : SubscriberId → Bool) (entries : SubscriberId → Option α)
    (id : SubscriberId) : Option α :=
  if keeps id then entries id else none

variable {α : Type*} {keeps : SubscriberId → Bool} {entries : SubscriberId → Option α}
  {id : SubscriberId}

private theorem keepOnly_of_keeps (hkeeps : keeps id = true) :
    keepOnly keeps entries id = entries id :=
  if_pos hkeeps

private theorem keepOnly_update (hkeeps : keeps id = true) (entry : Option α) :
    keepOnly keeps (Function.update entries id entry) =
      Function.update (keepOnly keeps entries) id entry := by
  funext id'
  by_cases hid : id' = id
  · subst hid
    rw [keepOnly_of_keeps hkeeps, Function.update_self, Function.update_self]
  · simp only [keepOnly, Function.update_of_ne hid]

private theorem keepOnly_update_erased (hkeeps : keeps id = false) (entry : Option α) :
    keepOnly keeps (Function.update entries id entry) = keepOnly keeps entries := by
  funext id'
  by_cases hid : id' = id
  · subst hid
    simp [keepOnly, hkeeps]
  · simp only [keepOnly, Function.update_of_ne hid]

namespace Fanout

/-- The fan-out without the queues that are not kept. -/
def restrict (keeps : SubscriberId → Bool) (fanout : Fanout T) : Fanout T :=
  { fanout with subscribers := keepOnly keeps fanout.subscribers }

private theorem restrict_broadcast (fanout : Fanout T) (update : T) :
    (fanout.broadcast update).restrict keeps = (fanout.restrict keeps).broadcast update := by
  have hsubscribers : (keepOnly keeps fun id =>
      (fanout.subscribers id).map fun q => (q.pushOrClose update).2) = fun id =>
        (keepOnly keeps fanout.subscribers id).map fun q => (q.pushOrClose update).2 := by
    funext id
    simp only [keepOnly]
    split <;> rfl
  simp only [restrict, broadcast, hsubscribers]

private theorem restrict_subscribe (fanout : Fanout T) (hkeeps : keeps id = true) :
    (fanout.subscribe id).restrict keeps = (fanout.restrict keeps).subscribe id := by
  simp only [restrict, subscribe, keepOnly_update hkeeps]

private theorem restrict_subscribe_erased (fanout : Fanout T) (hkeeps : keeps id = false) :
    (fanout.subscribe id).restrict keeps = fanout.restrict keeps := by
  simp only [restrict, subscribe, keepOnly_update_erased hkeeps]

private theorem restrict_put (fanout : Fanout T) (hkeeps : keeps id = true)
    (q : Option (SubscriberQueue T)) :
    (fanout.put id q).restrict keeps = (fanout.restrict keeps).put id q := by
  cases q <;> simp only [restrict, put, unsubscribe, keepOnly_update hkeeps]

private theorem restrict_put_erased (fanout : Fanout T) (hkeeps : keeps id = false)
    (q : Option (SubscriberQueue T)) :
    (fanout.put id q).restrict keeps = fanout.restrict keeps := by
  cases q <;> simp only [restrict, put, unsubscribe, keepOnly_update_erased hkeeps]

end Fanout

/-- A step of a handler that is kept. -/
private theorem stepHandler_restrict (fanout : Fanout T)
    (handlers : SubscriberId → Option (Handler T))
    (hkeeps : keeps id = true) (event : HandlerEvent) :
    Service.stepHandler (fanout.restrict keeps) (keepOnly keeps handlers) id event =
      ((Service.stepHandler fanout handlers id event).1.restrict keeps,
        keepOnly keeps (Service.stepHandler fanout handlers id event).2) := by
  have hqueue : (fanout.restrict keeps).subscribers id = fanout.subscribers id :=
    keepOnly_of_keeps hkeeps
  rw [Service.stepHandler, Service.stepHandler, hqueue, keepOnly_of_keeps hkeeps]
  cases handlers id with
  | none => rfl
  | some h =>
    cases fanout.subscribers id with
    | none => rfl
    | some q => simp only [Fanout.restrict_put fanout hkeeps, keepOnly_update hkeeps]

/-- A step of one that is not. -/
private theorem stepHandler_erased (fanout : Fanout T)
    (handlers : SubscriberId → Option (Handler T))
    (hkeeps : keeps id = false) (event : HandlerEvent) :
    (Service.stepHandler fanout handlers id event).1.restrict keeps = fanout.restrict keeps ∧
      keepOnly keeps (Service.stepHandler fanout handlers id event).2 =
        keepOnly keeps handlers := by
  rw [Service.stepHandler]
  split
  · exact ⟨fanout.restrict_put_erased hkeeps _, keepOnly_update_erased hkeeps _⟩
  · exact ⟨rfl, rfl⟩

end Restrict

/-! ### The service without some of its subscribers -/

variable (l2Kept bboKept : SubscriberId → Bool)

namespace SymbolBook

variable {l2Kept bboKept}

/-- The book with the queues that are kept. -/
def restrict (l2Kept bboKept : SubscriberId → Bool) (sb : SymbolBook) : SymbolBook :=
  { sb with
    l2Fanout := sb.l2Fanout.restrict l2Kept
    bboFanout := sb.bboFanout.restrict bboKept }

private theorem restrict_publishBbo (sb : SymbolBook) :
    sb.publishBbo.restrict l2Kept bboKept = (sb.restrict l2Kept bboKept).publishBbo := by
  have hmoved : ((sb.restrict l2Kept bboKept).bestBid ≠ (sb.restrict l2Kept bboKept).lastBboBid ∨
      (sb.restrict l2Kept bboKept).bestAsk ≠ (sb.restrict l2Kept bboKept).lastBboAsk) ↔
      (sb.bestBid ≠ sb.lastBboBid ∨ sb.bestAsk ≠ sb.lastBboAsk) := Iff.rfl
  rw [publishBbo, publishBbo]
  by_cases h : sb.bestBid ≠ sb.lastBboBid ∨ sb.bestAsk ≠ sb.lastBboAsk
  · rw [if_pos h, if_pos (hmoved.mpr h)]
    simp only [restrict, Fanout.restrict_broadcast]
    rfl
  · rw [if_neg h, if_neg (mt hmoved.mp h)]

private theorem restrict_publish (sb : SymbolBook) (changed : List Change) :
    (sb.publish changed).restrict l2Kept bboKept =
      (sb.restrict l2Kept bboKept).publish changed := by
  rw [publish, publish]
  split
  · rfl
  · rw [restrict_publishBbo]
    simp only [restrict, Fanout.restrict_broadcast]

/-- **A call** does the same to the book, and to the queues that are kept. -/
theorem restrict_call (sb : SymbolBook) (c : BookCall) :
    (sb.call c).2.restrict l2Kept bboKept = ((sb.restrict l2Kept bboKept).call c).2 := by
  rw [call_eq, call_eq]
  split
  · exact restrict_publish _ _
  · rfl

private theorem restrict_sendHeartbeat (sb : SymbolBook) :
    sb.sendHeartbeat.restrict l2Kept bboKept = (sb.restrict l2Kept bboKept).sendHeartbeat := by
  simp only [restrict, sendHeartbeat, Fanout.restrict_broadcast]
  rfl

end SymbolBook

/-- Whether an event is one of the book or of a subscriber that is kept. -/
def ServiceEvent.concerns : ServiceEvent → Bool
  | call _ | sendHeartbeat => true
  | subscribe id | l2 id _ => l2Kept id
  | subscribeBbo id | bbo id _ => bboKept id

namespace Service

/-- The service without the subscribers that are not kept. -/
def restrict (s : Service) : Service where
  symbolBook := s.symbolBook.restrict l2Kept bboKept
  l2 := keepOnly l2Kept s.l2
  bbo := keepOnly bboKept s.bbo

variable {l2Kept bboKept}

/-- A step of the book, or of a subscriber that is kept. -/
private theorem restrict_step (s : Service) (event : ServiceEvent)
    (hconcerns : event.concerns l2Kept bboKept = true) :
    (s.step event).1.restrict l2Kept bboKept = ((s.restrict l2Kept bboKept).step event).1 ∧
      (s.step event).2 = ((s.restrict l2Kept bboKept).step event).2 := by
  cases event with
  | call c =>
    have hcall := @SymbolBook.restrict_call l2Kept bboKept s.symbolBook c
    have hbook : ((s.restrict l2Kept bboKept).symbolBook.call c).2.book =
      (s.symbolBook.call c).2.book := (congrArg SymbolBook.book hcall).symm
    have hseq : ((s.restrict l2Kept bboKept).symbolBook.call c).2.seq =
      (s.symbolBook.call c).2.seq := (congrArg SymbolBook.seq hcall).symm
    refine ⟨?_, ?_⟩
    · simp only [step, restrict, hcall]
    · simp only [step, hbook, hseq]
      rfl
  | sendHeartbeat =>
    refine ⟨?_, rfl⟩
    simp only [step, restrict, SymbolBook.restrict_sendHeartbeat]
  | subscribe id =>
    have hkeeps : l2Kept id = true := hconcerns
    have hhandler : (s.restrict l2Kept bboKept).l2 id = s.l2 id := keepOnly_of_keeps hkeeps
    simp only [step, hhandler]
    split
    · exact ⟨rfl, rfl⟩
    · refine ⟨?_, rfl⟩
      simp only [restrict, SymbolBook.restrict, Fanout.restrict_subscribe _ hkeeps,
        keepOnly_update hkeeps]
      rfl
  | subscribeBbo id =>
    have hkeeps : bboKept id = true := hconcerns
    have hhandler : (s.restrict l2Kept bboKept).bbo id = s.bbo id := keepOnly_of_keeps hkeeps
    simp only [step, hhandler]
    split
    · exact ⟨rfl, rfl⟩
    · refine ⟨?_, rfl⟩
      simp only [restrict, SymbolBook.restrict, Fanout.restrict_subscribe _ hkeeps,
        keepOnly_update hkeeps]
      rfl
  | l2 id event =>
    refine ⟨?_, rfl⟩
    simp only [step, restrict, SymbolBook.restrict, stepHandler_restrict _ _ hconcerns]
  | bbo id event =>
    refine ⟨?_, rfl⟩
    simp only [step, restrict, SymbolBook.restrict, stepHandler_restrict _ _ hconcerns]

/-- A step of a subscriber that is not. -/
private theorem restrict_step_erased (s : Service) (event : ServiceEvent)
    (hconcerns : event.concerns l2Kept bboKept = false) :
    (s.step event).1.restrict l2Kept bboKept = s.restrict l2Kept bboKept ∧
      (s.step event).2 = [] := by
  cases event with
  | call | sendHeartbeat => exact absurd hconcerns (by simp [ServiceEvent.concerns])
  | subscribe id | subscribeBbo id =>
    simp only [step]
    split
    · exact ⟨rfl, rfl⟩
    · refine ⟨?_, rfl⟩
      simp only [restrict, SymbolBook.restrict, Fanout.restrict_subscribe_erased _ hconcerns,
        keepOnly_update_erased hconcerns]
  | l2 id event =>
    obtain ⟨hfanout, hhandlers⟩ :=
      stepHandler_erased s.symbolBook.l2Fanout s.l2 hconcerns event
    refine ⟨?_, rfl⟩
    simp only [step, restrict, SymbolBook.restrict, hfanout, hhandlers]
  | bbo id event =>
    obtain ⟨hfanout, hhandlers⟩ :=
      stepHandler_erased s.symbolBook.bboFanout s.bbo hconcerns event
    refine ⟨?_, rfl⟩
    simp only [step, restrict, SymbolBook.restrict, hfanout, hhandlers]

end Service

/-- **Subscribers are isolated.** Whichever subscribers of the two streams are kept, the
service after a run, as far as the book and they go, is the service after the same run without
all the steps of the others, and the revisions are the same. -/
theorem subscribers_isolated (events : List ServiceEvent) :
    (serviceMachine.state {} events).restrict l2Kept bboKept =
        serviceMachine.state {} (events.filter (ServiceEvent.concerns l2Kept bboKept)) ∧
      serviceMachine.output {} events =
        serviceMachine.output {} (events.filter (ServiceEvent.concerns l2Kept bboKept)) := by
  have hstart : ({} : Service).restrict l2Kept bboKept = {} := by
    have hnone : ∀ (α : Type) (keeps : SubscriberId → Bool),
        (keepOnly keeps fun _ => (none : Option α)) = fun _ => none := by
      intro α keeps
      funext id
      exact ite_self none
    simp only [Service.restrict, SymbolBook.restrict, Fanout.restrict, hnone]
  have hrun := @Machine.project _ _ _ serviceMachine _ _ _ serviceMachine
    (Service.restrict l2Kept bboKept) some
    (Option.guard (ServiceEvent.concerns l2Kept bboKept)) (fun s event event' hevent => ?_)
    (fun s event hevent => ?_) {} events
  · simpa only [hstart, List.filterMap_some, List.filterMap_eq_filter] using hrun
  · obtain ⟨rfl, hconcerns⟩ := Option.guard_eq_some_iff.mp hevent
    rw [List.filterMap_some]
    exact Service.restrict_step s _ hconcerns
  · rw [List.filterMap_some]
    exact Service.restrict_step_erased s event (by simpa [Option.guard_eq_none_iff] using hevent)

end Hermeneutic
