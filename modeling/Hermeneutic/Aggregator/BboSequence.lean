import Mathlib.Data.List.GetD
import Hermeneutic.Aggregator.BboStream
import Hermeneutic.Aggregator.L2Stream

/-!
# The book seqs of the BBO stream

The L2 and the BBO stream share one revision counter. A revision broadcasts a `Bbo` exactly
when it moved the best bid or ask, because what was broadcast last is always the current top
(`SymbolBook.call_broadcasts`), and the `Bbo` carries the number of its revision and states
the top of that revision's aggregate.

A subscriber's stream is therefore *dated*: its `Bbo`s are those of a strictly increasing
list of revision numbers (`Dated`). A queue that drops its oldest entry leaves a sublist,
which is dated too. The numbers are natural ones; on the wire they are taken modulo `2 ^ 64`,
so the order of the book seqs themselves holds until the counter has wrapped.

The invariant of one subscriber (`DatedSubscriber`) is about its taken and queued `Bbo`s at once,
so that neither a drain nor a dropped entry needs an argument of its own: both leave a sublist.
Only a call of the book adds a date, the number of the revision it makes, which is above all
earlier ones; a call that makes none is `silent`. The run lemma is `BboSeqInv.run`. The last
section shows why the order of the sequence numbers themselves is stated below `2 ^ 64` revisions:
a run that toggles the best bid that often is given, by induction, and a subscriber of its end
receives `0` after `2 ^ 64 - 1`.
-/

namespace Hermeneutic

/-- The best bid and ask of a book, as a `Bbo` states them. -/
def L2OrderBook.top (book : L2OrderBook) : Top :=
  (book.bids.toList.head?.map fun bid => makeLevel bid.1 bid.2,
    book.asks.toList.head?.map fun ask => makeLevel ask.1 ask.2)

/-- A side is absent from the top exactly if the book has none. -/
private theorem L2OrderBook.top_eq_none (book : L2OrderBook) :
    (book.top.1 = none ↔ book.bids = ∅) ∧ (book.top.2 = none ↔ book.asks = ∅) := by
  simp [top, List.head?_eq_none_iff, Std.ExtTreeMap.toList_eq_nil_iff]

namespace SymbolBook

/-- The best bid or ask of two states differs, in price, size or presence. -/
def TopMoved (sb sb' : SymbolBook) : Prop := sb'.bestBid ≠ sb.bestBid ∨ sb'.bestAsk ≠ sb.bestAsk

/-- What a call broadcasts when it is no revision, and when it is one. -/
inductive Broadcasts (sb sb' : SymbolBook) : Prop
  /-- Nothing, and the aggregate is as before. -/
  | silent (hseq : sb'.seq = sb.seq) (haggregate : sb'.book.aggregate = sb.book.aggregate)
      (hl2 : sb'.l2Fanout = sb.l2Fanout) (hbbo : sb'.bboFanout = sb.bboFanout)
  /-- A diff with the next number, and a `Bbo` with the same one if the top has moved. -/
  | revision (hseq : sb'.seq = sb.seq + 1)
      (hl2 : ∃ bids asks, sb'.l2Fanout = sb.l2Fanout.broadcast (.diff sb'.seq bids asks))
      (hmoved : TopMoved sb sb' →
        sb'.bboFanout = sb.bboFanout.broadcast (.bbo sb'.seq sb'.top.1 sb'.top.2))
      (hkept : ¬ TopMoved sb sb' → sb'.bboFanout = sb.bboFanout)

/-- **A call on both streams.** -/
theorem call_broadcasts {sb : SymbolBook} (h : sb.Announced) (c : BookCall) :
    Broadcasts sb (sb.call c).2 := by
  rcases sb.call_revises c with ⟨haggregate, hsame⟩ | ⟨bids, asks, hnew, -, -⟩
  · exact .silent (by rw [hsame]) haggregate (by rw [hsame]) (by rw [hsame])
  · generalize (sb.call c).2 = sb' at *
    have hseq : sb'.seq = sb.seq + 1 := by
      rw [hnew, publishBbo_seq]
    have hl2 : sb'.l2Fanout = sb.l2Fanout.broadcast (.diff sb'.seq bids asks) := by
      rw [hseq, hnew, publishBbo_l2Fanout]
    -- the top broadcast last is the one before the call
    have hbid : sb.lastBboBid = sb.bestBid := h.bid
    have hask : sb.lastBboAsk = sb.bestAsk := h.ask
    rw [publishBbo] at hnew
    refine .revision hseq ⟨bids, asks, hl2⟩ (fun hmoved => ?_) fun hkept => ?_
    · rw [if_pos (by rw [hbid, hask]; exact hmoved)] at hnew
      rw [hnew]
      rfl
    · rw [if_neg (by rw [hbid, hask]; exact hkept)] at hnew
      rw [hnew]

end SymbolBook

/-! ### Dated streams -/

/-- The `Bbo` that states revision number `n`. -/
def bboAt (revisions : List L2OrderBook) (n : ℕ) : BboUpdate :=
  .bbo (.ofNat n) (revisions.getD n {}).top.1 (revisions.getD n {}).top.2

def BboUpdate.isBbo : BboUpdate → Bool
  | bbo _ _ _ => true
  | heartbeat _ => false

/-- The `Bbo`s among the updates are those of the given revision numbers, which increase
strictly and are none beyond the last revision. -/
structure DatedBy (revisions : List L2OrderBook) (updates : List BboUpdate) (numbers : List ℕ) :
    Prop where
  increasing : numbers.Pairwise (· < ·)
  published : ∀ n ∈ numbers, n < revisions.length
  states : updates.filter BboUpdate.isBbo = numbers.map (bboAt revisions)

def Dated (revisions : List L2OrderBook) (updates : List BboUpdate) : Prop :=
  ∃ numbers, DatedBy revisions updates numbers

section Dated

variable {revisions : List L2OrderBook} {updates updates' : List BboUpdate} {numbers : List ℕ}

/-- Dropping updates leaves a dated stream. -/
theorem Dated.sublist (h : Dated revisions updates) (hsub : updates'.Sublist updates) :
    Dated revisions updates' := by
  obtain ⟨numbers, hincreasing, hpublished, hstates⟩ := h
  have hfilter := hsub.filter BboUpdate.isBbo
  rw [hstates, List.sublist_map_iff] at hfilter
  obtain ⟨numbers', hnumbers, hstates'⟩ := hfilter
  exact ⟨numbers', hincreasing.sublist hnumbers, fun n hn => hpublished n (hnumbers.subset hn),
    hstates'⟩

/-- A heartbeat states nothing. -/
theorem Dated.heartbeat (h : Dated revisions updates) (venues : List String) :
    Dated revisions (updates ++ [.heartbeat venues]) := by
  obtain ⟨numbers, hincreasing, hpublished, hstates⟩ := h
  refine ⟨numbers, hincreasing, hpublished, ?_⟩
  rw [List.filter_append, hstates]
  exact List.append_nil _

/-- A further revision changes nothing. -/
theorem DatedBy.mono (h : DatedBy revisions updates numbers) (book : L2OrderBook) :
    DatedBy (revisions ++ [book]) updates numbers := by
  refine ⟨h.increasing, fun n hn => ?_, h.states.trans (List.map_congr_left fun n hn => ?_)⟩
  · rw [List.length_append]
    exact Nat.lt_add_right _ (h.published n hn)
  · rw [bboAt, bboAt, List.getD_append _ _ _ _ (h.published n hn)]

/-- The `Bbo` of a new revision comes behind those of the ones before. -/
theorem Dated.concat (h : Dated revisions updates) (book : L2OrderBook) :
    Dated (revisions ++ [book]) (updates ++ [bboAt (revisions ++ [book]) revisions.length]) := by
  obtain ⟨numbers, hdated⟩ := h
  have hmono := hdated.mono book
  refine ⟨numbers ++ [revisions.length], ?_, ?_, ?_⟩
  · rw [List.pairwise_append]
    refine ⟨hdated.increasing, List.pairwise_singleton _ _, fun n hn m hm => ?_⟩
    rw [List.mem_singleton.mp hm]
    exact hdated.published n hn
  · intro n hn
    rcases List.mem_append.mp hn with hn | hn
    · exact hmono.published n hn
    · rw [List.mem_singleton.mp hn, List.length_append]
      exact Nat.lt_succ_self _
  · rw [List.filter_append, hmono.states, List.map_append]
    rfl

end Dated

/-! ### One subscriber -/

/-- A handler never forgets what it captured first. -/
private theorem Handler.step_initial {T : Type*} (h : Handler T) (q : SubscriberQueue T)
    (event : HandlerEvent) : (h.step q event).2.initial = h.initial := by
  cases event with
  | write wrote =>
    cases hphase : h.phase with
    | registered => simp only [step, hphase]
    | streaming =>
      cases hbatch : h.batch with
      | nil => simp only [step, hphase, hbatch]
      | cons update batch => cases wrote <;> simp [step, hphase, hbatch]
    | written | leaving | finished => simp only [step, hphase]
  | endBootstrap => cases hphase : h.phase <;> simp only [step, hphase]
  | drain =>
    rw [step]
    split
    · split <;> rfl
    · rfl
  | cancelled | unsubscribe =>
    rw [step]
    split <;> rfl

/-- Part of a list that starts with an element starts with it too, if it starts at all. -/
private theorem starts_of_initial {α : Type*} {a : α} {l l' : List α} (h : [a] <+: l)
    (hpart : l' <+: l) : l' = [] ∨ [a] <+: l' := by
  cases l' with
  | nil => exact .inl rfl
  | cons b l' => exact .inr (List.prefix_of_prefix_length_le h hpart (by simp))

/-- What holds of a BBO subscriber: its stream is dated and starts with its initial `Bbo`, and
so is what it has received. -/
structure DatedSubscriber (revisions : List L2OrderBook)
    (queue : Option (SubscriberQueue BboUpdate)) (h : Handler BboUpdate) : Prop where
  wellFormed : h.WellFormed
  active : h.phase.active = true → [h.initial] <+: h.taken ∧ ∃ q, queue = some q ∧
    q.overflowPolicy = .dropOldest ∧ q.closed = false ∧ Dated revisions (h.taken ++ q.queue)
  received : Dated revisions h.received ∧ (h.received = [] ∨ [h.initial] <+: h.received)

namespace DatedSubscriber

variable {revisions revisions' : List L2OrderBook} {queue : Option (SubscriberQueue BboUpdate)}
  {h : Handler BboUpdate}

/-- A new subscriber, with the `Bbo` of the last revision. -/
theorem start {n : ℕ} (hn : n < revisions.length) (capacity : ℕ) :
    DatedSubscriber revisions (some { capacity, overflowPolicy := .dropOldest })
      { initial := bboAt revisions n } where
  wellFormed := ⟨fun _ => ⟨rfl, rfl⟩, fun _ hphase => by simp at hphase⟩
  active _ := ⟨List.prefix_rfl, _, rfl, rfl, rfl, [n], List.pairwise_singleton _ _,
    fun m hm => List.mem_singleton.mp hm ▸ hn, rfl⟩
  received := ⟨⟨[], List.Pairwise.nil, by simp, rfl⟩, .inl rfl⟩

/-- A broadcast, after which a dated stream is still dated. -/
theorem push (hinv : DatedSubscriber revisions queue h) {update : BboUpdate}
    (hmono : ∀ updates, Dated revisions updates → Dated revisions' updates)
    (hextends : ∀ updates, Dated revisions updates → Dated revisions' (updates ++ [update])) :
    DatedSubscriber revisions' (queue.map fun q => (q.pushOrClose update).2) h where
  wellFormed := hinv.wellFormed
  active hactive := by
    obtain ⟨hinitial, q, hq, hpolicy, hopen, hdated⟩ := hinv.active hactive
    have hpush := q.pushOrClose_of_dropOldest hpolicy hopen update
    refine ⟨hinitial, (q.pushOrClose update).2, by rw [hq]; rfl,
      (q.pushOrClose_overflowPolicy update).trans hpolicy, by rw [hpush]; exact hopen, ?_⟩
    rw [hpush, ← List.append_assoc]
    refine hextends _ (hdated.sublist (List.Sublist.append_left ?_ _))
    -- the queue as it is, or without its oldest entry
    split
    · exact List.tail_sublist q.queue
    · exact List.Sublist.refl q.queue
  received := ⟨hmono _ hinv.received.1, hinv.received.2⟩

/-- A further revision without a broadcast. -/
theorem mono (hinv : DatedSubscriber revisions queue h)
    (hmono : ∀ updates, Dated revisions updates → Dated revisions' updates) :
    DatedSubscriber revisions' queue h where
  wellFormed := hinv.wellFormed
  active hactive := by
    obtain ⟨hinitial, q, hq, hpolicy, hopen, hdated⟩ := hinv.active hactive
    exact ⟨hinitial, q, hq, hpolicy, hopen, hmono _ hdated⟩
  received := ⟨hmono _ hinv.received.1, hinv.received.2⟩

/-- A step of the handler. -/
theorem step {q : SubscriberQueue BboUpdate} (hinv : DatedSubscriber revisions (some q) h)
    (event : HandlerEvent) : DatedSubscriber revisions (h.step q event).1 (h.step q event).2 := by
  have hstepped := Handler.step_stepped hinv.wellFormed q event
  have hinitial' := h.step_initial q event
  have hactiveAfter : (h.step q event).2.phase.active = true →
      [h.initial] <+: (h.step q event).2.taken ∧ ∃ q', (h.step q event).1 = some q' ∧
        q'.overflowPolicy = .dropOldest ∧ q'.closed = false ∧
        Dated revisions ((h.step q event).2.taken ++ q'.queue) := by
    intro hactive'
    have hactive := hstepped.active_before hactive'
    obtain ⟨hinitial, _, hq, hpolicy, hopen, hdated⟩ := hinv.active hactive
    obtain rfl := Option.some.inj hq
    obtain ⟨q', hq', hcontinues⟩ := hstepped.continues hactive hactive'
    refine ⟨hinitial.trans hcontinues.taken, q', hq', hcontinues.overflowPolicy.trans hpolicy,
      hcontinues.closed.trans hopen, ?_⟩
    rw [hcontinues.stream]
    exact hdated
  refine ⟨hstepped.wellFormed, by rw [hinitial']; exact hactiveAfter, ?_⟩
  rw [hinitial']
  cases hactive' : (h.step q event).2.phase.active with
  | true =>
    obtain ⟨hinitial, q', -, -, -, hdated⟩ := hactiveAfter hactive'
    have hpart : (h.step q event).2.received <+: (h.step q event).2.taken :=
      ⟨_, (List.append_assoc _ _ _).symm⟩
    exact ⟨hdated.sublist (hpart.trans (List.prefix_append _ _)).sublist,
      starts_of_initial hinitial hpart⟩
  | false =>
    cases hactive : h.phase.active with
    | true =>
      -- the handler ends with this step: what it has received is part of its stream
      obtain ⟨hinitial, q', -, -, -, hdated⟩ := hinv.active hactive
      have hpart := hstepped.ends hactive hactive'
      exact ⟨hdated.sublist (hpart.trans (List.prefix_append _ _)).sublist,
        starts_of_initial hinitial hpart⟩
    | false =>
      rw [(hstepped.ended hactive).2]
      exact hinv.received

end DatedSubscriber

/-! ### Every run -/

/-- The service, as its BBO subscribers see it, when `revisions` end in the current one. -/
structure BboSeqInv (revisions : List L2OrderBook) (s : Service) : Prop where
  announced : s.symbolBook.Announced
  overflowPolicy : s.symbolBook.bboFanout.overflowPolicy = .dropOldest
  subscriber : ∀ id h, s.bbo id = some h →
    DatedSubscriber revisions (s.symbolBook.bboFanout.subscribers id) h

namespace BboSeqInv

variable {revisions : List L2OrderBook} {s : Service}

/-- A call that is no revision. -/
theorem silent (hinv : BboSeqInv revisions s) {c : BookCall}
    (hbbo : (s.symbolBook.call c).2.bboFanout = s.symbolBook.bboFanout) :
    BboSeqInv revisions (s.step (.call c)).1 where
  announced := (SymbolBook.call_announced hinv.announced c).1
  overflowPolicy := (congrArg _ hbbo).trans hinv.overflowPolicy
  subscriber id h hmem := by
    simp only [Service.step]
    rw [hbbo]
    exact hinv.subscriber id h hmem

/-- A call that is one. -/
theorem revision (hinv : BboSeqInv revisions s) {c : BookCall}
    (hseq : (s.symbolBook.call c).2.seq = .ofNat revisions.length)
    (hmoved : SymbolBook.TopMoved s.symbolBook (s.symbolBook.call c).2 →
      (s.symbolBook.call c).2.bboFanout = s.symbolBook.bboFanout.broadcast
        (.bbo (s.symbolBook.call c).2.seq (s.symbolBook.call c).2.top.1
          (s.symbolBook.call c).2.top.2))
    (hkept : ¬ SymbolBook.TopMoved s.symbolBook (s.symbolBook.call c).2 →
      (s.symbolBook.call c).2.bboFanout = s.symbolBook.bboFanout) :
    BboSeqInv (revisions ++ [(s.symbolBook.call c).2.book.aggregate]) (s.step (.call c)).1 := by
  have hannounced := (SymbolBook.call_announced hinv.announced c).1
  simp only [Service.step]
  generalize (s.symbolBook.call c).2 = sb' at *
  have hmono : ∀ updates, Dated revisions updates →
      Dated (revisions ++ [sb'.book.aggregate]) updates := by
    rintro updates ⟨numbers, hdated⟩
    exact ⟨numbers, hdated.mono _⟩
  by_cases htop : SymbolBook.TopMoved s.symbolBook sb'
  · have hbbo := hmoved htop
    have hupdate : BboUpdate.bbo sb'.seq sb'.top.1 sb'.top.2 =
        bboAt (revisions ++ [sb'.book.aggregate]) revisions.length := by
      rw [bboAt, List.getD_append_right _ _ _ _ le_rfl, Nat.sub_self, hseq]
      rfl
    refine ⟨hannounced, (congrArg _ hbbo).trans hinv.overflowPolicy, fun id h hmem => ?_⟩
    rw [hbbo, hupdate]
    exact (hinv.subscriber id h hmem).push hmono fun updates hdated => hdated.concat _
  · have hbbo := hkept htop
    refine ⟨hannounced, (congrArg _ hbbo).trans hinv.overflowPolicy, fun id h hmem => ?_⟩
    rw [hbbo]
    exact (hinv.subscriber id h hmem).mono hmono

/-- A registration captures the `Bbo` of the current revision. -/
theorem subscribeBbo (hinv : BboSeqInv revisions s) {n : ℕ} (hn : n < revisions.length)
    (hcurrent : s.symbolBook.buildBbo = bboAt revisions n) (id : SubscriberId) :
    BboSeqInv revisions (s.step (.subscribeBbo id)).1 := by
  simp only [Service.step]
  split
  · exact hinv
  · refine ⟨⟨hinv.announced.bid, hinv.announced.ask⟩, hinv.overflowPolicy, fun id' h hmem => ?_⟩
    by_cases hid : id' = id
    · subst hid
      simp only [Function.update_self, Option.some.injEq, Fanout.subscribe, hcurrent,
        hinv.overflowPolicy] at hmem ⊢
      exact hmem ▸ .start hn _
    · simp only [Function.update_of_ne hid, Fanout.subscribe] at hmem ⊢
      exact hinv.subscriber id' h hmem

/-- A step of a subscriber's handler. -/
theorem bbo (hinv : BboSeqInv revisions s) (id : SubscriberId) (event : HandlerEvent) :
    BboSeqInv revisions (s.step (.bbo id event)).1 where
  announced := ⟨hinv.announced.bid, hinv.announced.ask⟩
  overflowPolicy := (Service.stepHandler_overflowPolicy _ _ _ _).trans hinv.overflowPolicy
  subscriber id' h hmem := by
    rcases Service.stepHandler_cases hmem with ⟨hsame, hqueue⟩ | ⟨rfl, q, h, hq, hh, rfl, hqueue⟩
    · simp only [Service.step]
      rw [hqueue]
      exact hinv.subscriber id' h hsame
    · simp only [Service.step]
      rw [hqueue]
      exact (hq ▸ hinv.subscriber _ h hh).step event

/-- The `Bbo` of the current state is that of the last revision. -/
private theorem buildBbo_current (events : List ServiceEvent) :
    (serviceMachine.state {} events).symbolBook.buildBbo =
      bboAt ({} :: serviceMachine.output {} events) (revisionNumber events) := by
  obtain ⟨hrevision, hseq⟩ := current_revision events
  rw [SymbolBook.buildBbo_eq, hseq, bboAt, List.getD_eq_getElem?_getD, hrevision]
  rfl

/-- **Run lemma.** -/
theorem run (events : List ServiceEvent) :
    BboSeqInv ({} :: serviceMachine.output {} events) (serviceMachine.state {} events) := by
  induction events using List.reverseRecOn with
  | nil => exact ⟨⟨rfl, rfl⟩, rfl, fun _ _ hmem => by simp at hmem⟩
  | append_singleton events event ih =>
    have hcurrent := buildBbo_current events
    obtain ⟨-, hseq⟩ := current_revision events
    rw [Machine.state_concat, Machine.output_concat, ← List.cons_append]
    generalize serviceMachine.state {} events = s at *
    have hlength : ({} :: serviceMachine.output {} events).length = revisionNumber events + 1 := rfl
    generalize ({} :: serviceMachine.output {} events) = revisions at *
    cases event with
    | call c =>
      simp only [serviceMachine, Service.step]
      rcases SymbolBook.call_broadcasts ih.announced c with ⟨hsame, -, -, hbbo⟩ |
        ⟨hnext, -, hmoved, hkept⟩
      · rw [if_pos hsame, List.append_nil]
        exact ih.silent hbbo
      · have hne : s.symbolBook.seq + 1 ≠ s.symbolBook.seq := by grind
        rw [if_neg (hnext ▸ hne)]
        refine ih.revision ?_ hmoved hkept
        rw [hnext, hseq, hlength]
        simp [UInt64.ofNat_add]
    | sendHeartbeat =>
      rw [show (serviceMachine.step s .sendHeartbeat).2 = [] from rfl, List.append_nil]
      refine ⟨⟨ih.announced.bid, ih.announced.ask⟩, ih.overflowPolicy, fun id h hmem => ?_⟩
      exact (ih.subscriber id h hmem).push (fun _ hdated => hdated) fun _ hdated =>
        hdated.heartbeat _
    | subscribe id =>
      simp only [serviceMachine, Service.step]
      split
      · rwa [List.append_nil]
      · rw [List.append_nil]
        exact ⟨⟨ih.announced.bid, ih.announced.ask⟩, ih.overflowPolicy, ih.subscriber⟩
    | subscribeBbo id =>
      have hout : (serviceMachine.step s (.subscribeBbo id)).2 = [] := by
        simp only [serviceMachine, Service.step]
        split <;> rfl
      rw [hout, List.append_nil]
      exact ih.subscribeBbo (by omega) hcurrent id
    | l2 id event =>
      rw [show (serviceMachine.step s (.l2 id event)).2 = [] from rfl, List.append_nil]
      exact ⟨⟨ih.announced.bid, ih.announced.ask⟩, ih.overflowPolicy, ih.subscriber⟩
    | bbo id event =>
      rw [show (serviceMachine.step s (.bbo id event)).2 = [] from rfl, List.append_nil]
      exact ih.bbo id event

end BboSeqInv

/-! ### Revisions and what they broadcast -/

/-- Only a call makes a revision. -/
private theorem output_eq_nil_of_not_call (s : Service) {event : ServiceEvent}
    (h : ∀ c, event ≠ .call c) : (serviceMachine.step s event).2 = [] := by
  cases event with
  | call c => exact absurd rfl (h c)
  | subscribe id | subscribeBbo id =>
    simp only [serviceMachine, Service.step]
    split <;> rfl
  | sendHeartbeat | l2 | bbo => rfl

/-- Every revision but the initial one was made by a call. -/
private theorem exists_call_of_revision (events : List ServiceEvent) {n : ℕ} (hpos : 0 < n)
    (hn : n ≤ revisionNumber events) :
    ∃ pre c, pre ++ [.call c] <+: events ∧ revisionNumber pre + 1 = n ∧
      revisionNumber (pre ++ [.call c]) = n := by
  induction events using List.reverseRecOn with
  | nil => exact absurd hn (Nat.not_le.mpr hpos)
  | append_singleton events event ih =>
    rcases Nat.lt_or_ge (revisionNumber events) n with hlt | hle
    · have hstep := length_output_step_le (serviceMachine.state {} events) event
      have hnumber : revisionNumber (events ++ [event]) = revisionNumber events +
          (serviceMachine.step (serviceMachine.state {} events) event).2.length := by
        rw [revisionNumber, Machine.output_concat, List.length_append, revisionNumber]
      obtain ⟨c, rfl⟩ : ∃ c, event = .call c := by
        by_contra hcall
        rw [output_eq_nil_of_not_call _ (not_exists.mp hcall), List.length_nil] at hnumber
        omega
      exact ⟨events, c, List.prefix_rfl, by omega, by omega⟩
    · obtain ⟨pre, c, hpre, hnumber⟩ := ih hle
      exact ⟨pre, c, hpre.trans (List.prefix_append _ _), hnumber⟩

/-- What a call of a run broadcasts. -/
private theorem run_broadcasts (pre : List ServiceEvent) (c : BookCall) :
    SymbolBook.Broadcasts (serviceMachine.state {} pre).symbolBook
      (serviceMachine.state {} (pre ++ [.call c])).symbolBook := by
  rw [Machine.state_concat]
  exact SymbolBook.call_broadcasts (BboSeqInv.run pre).announced c

/-- The book seqs of the `Bbo`s among the updates. -/
def bboSeqs (updates : List BboUpdate) : List UInt64 :=
  updates.filterMap fun
    | .bbo bookSeq _ _ => some bookSeq
    | _ => none

private theorem DatedBy.bboSeqs {revisions : List L2OrderBook} {updates : List BboUpdate}
    {numbers : List ℕ} (h : DatedBy revisions updates numbers) :
    bboSeqs updates = numbers.map UInt64.ofNat := by
  have hfilter : Hermeneutic.bboSeqs updates =
      Hermeneutic.bboSeqs (updates.filter BboUpdate.isBbo) := by
    rw [Hermeneutic.bboSeqs, Hermeneutic.bboSeqs, List.filterMap_filter]
    congr 1
    funext update
    cases update <;> rfl
  rw [hfilter, h.states, Hermeneutic.bboSeqs, List.filterMap_map]
  exact congrFun (List.filterMap_eq_map (f := UInt64.ofNat)) numbers

/-- The update carries the revision's number and states the best bid and ask of its aggregate,
a side absent exactly if it is empty. -/
structure StatesRevision (events : List ServiceEvent) (n : ℕ) (update : BboUpdate) : Prop where
  exists_book : ∃ book, ({} :: serviceMachine.output {} events)[n]? = some book ∧
    update = .bbo (.ofNat n) book.top.1 book.top.2 ∧
    (book.top.1 = none ↔ book.bids = ∅) ∧ (book.top.2 = none ↔ book.asks = ∅)

/-- The `Bbo`s a subscriber has received, by the numbers of their revisions. -/
structure ReceivedBbos (events : List ServiceEvent) (h : Handler BboUpdate) (numbers : List ℕ) :
    Prop where
  increasing : numbers.Pairwise (· < ·)
  states : List.Forall₂ (StatesRevision events) numbers (h.received.filter BboUpdate.isBbo)
  /-- Number zero is the empty book of an initial `Bbo`. -/
  initial : 0 ∈ numbers → [h.initial] <+: h.received
  /-- Every other number is that of an L2 revision. -/
  revision : ∀ n ∈ numbers, 0 < n → ∃ pre c, pre ++ [.call c] <+: events ∧
    revisionNumber pre + 1 = n ∧ ∃ bids asks,
      (serviceMachine.state {} (pre ++ [.call c])).symbolBook.l2Fanout =
        (serviceMachine.state {} pre).symbolBook.l2Fanout.broadcast (.diff (.ofNat n) bids asks)
  /-- The book seqs increase until the counter wraps. -/
  bookSeqs : revisionNumber events < 2 ^ 64 → (bboSeqs h.received).Pairwise (· < ·)

private theorem DatedBy.receivedBbos {events : List ServiceEvent} {h : Handler BboUpdate}
    {numbers : List ℕ}
    (hdated : DatedBy ({} :: serviceMachine.output {} events) h.received numbers)
    (hinitial : h.received = [] ∨ [h.initial] <+: h.received) :
    ReceivedBbos events h numbers := by
  have hle : ∀ n ∈ numbers, n ≤ revisionNumber events := fun n hn =>
    Nat.lt_succ_iff.mp (hdated.published n hn)
  refine ⟨hdated.increasing, ?_, fun hzero => ?_, fun n hn hpos => ?_, fun hbound => ?_⟩
  · rw [hdated.states, List.forall₂_map_right_iff, List.forall₂_same]
    intro n hn
    have hget := List.getElem?_eq_getElem (hdated.published n hn)
    refine ⟨⟨_, hget, ?_, L2OrderBook.top_eq_none _⟩⟩
    rw [bboAt, List.getD_eq_getElem?_getD, hget]
    rfl
  · -- something numbered zero has been received, so the initial `Bbo` has been
    refine hinitial.resolve_left fun hnil => ?_
    have hstates := hdated.states
    rw [hnil, List.filter_nil] at hstates
    rw [List.map_eq_nil_iff.mp hstates.symm] at hzero
    simp at hzero
  · obtain ⟨pre, c, hpre, hnumber, hnumber'⟩ := exists_call_of_revision events hpos (hle n hn)
    refine ⟨pre, c, hpre, hnumber, ?_⟩
    have hseq := (current_revision pre).2
    have hseq' := (current_revision (pre ++ [.call c])).2
    rw [hnumber'] at hseq'
    rcases run_broadcasts pre c with ⟨hsame, -, -, -⟩ | ⟨-, hl2, -, -⟩
    · -- consecutive numbers differ, also modulo `2 ^ 64`
      rw [hseq', hseq, ← hnumber, UInt64.ofNat_add] at hsame
      grind
    · rwa [hseq'] at hl2
  · rw [hdated.bboSeqs, List.pairwise_map]
    refine hdated.increasing.imp_of_mem fun {n m} hn hm hlt => ?_
    rw [UInt64.lt_iff_toNat_lt, UInt64.toNat_ofNat_of_lt' ((hle n hn).trans_lt hbound),
      UInt64.toNat_ofNat_of_lt' ((hle m hm).trans_lt hbound)]
    exact hlt

/-- **The BBO stream.** For every run: a call that makes a revision broadcasts a `Bbo` exactly
if the best bid or ask has moved since the revision before, and no other call does; and what any
subscriber has received are `Bbo`s of revisions with strictly increasing numbers, each stating
the best bid and ask of its revision's aggregate. -/
theorem bbo_sequence (events : List ServiceEvent) :
    (∀ pre c, pre ++ [.call c] <+: events →
      SymbolBook.Broadcasts (serviceMachine.state {} pre).symbolBook
        (serviceMachine.state {} (pre ++ [.call c])).symbolBook) ∧
      ∀ id h, (serviceMachine.state {} events).bbo id = some h →
        ∃ numbers, ReceivedBbos events h numbers := by
  refine ⟨fun pre c _ => run_broadcasts pre c, fun id h hmem => ?_⟩
  obtain ⟨⟨numbers, hdated⟩, hinitial⟩ := ((BboSeqInv.run events).subscriber id h hmem).received
  exact ⟨numbers, hdated.receivedBbos hinitial⟩

/-- A quote, a subscriber, a revision below the best bid, and one at it. -/
def sampleBbos : List ServiceEvent :=
  [.call ⟨⟨.binance, .spot⟩, .applyBatch [(⟨100⟩, ⟨5⟩)] []⟩, .subscribeBbo 0,
    .call ⟨⟨.okx, .spot⟩, .applyBatch [(⟨99⟩, ⟨7⟩)] []⟩,
    .call ⟨⟨.okx, .spot⟩, .applyBatch [(⟨100⟩, ⟨7⟩)] []⟩, .bbo 0 (.write true),
    .bbo 0 .endBootstrap, .bbo 0 .drain, .bbo 0 (.write true)]

theorem bbo_sequence_sample :
    ∃ h numbers, (serviceMachine.state {} sampleBbos).bbo 0 = some h ∧
      bboSeqs h.received = [1, 3] ∧ ReceivedBbos sampleBbos h numbers := by
  have hreceived : ((serviceMachine.state {} sampleBbos).bbo 0).map
      (fun h => bboSeqs h.received) = some [1, 3] := rfl
  obtain ⟨h, hmem, hseqs⟩ := Option.map_eq_some_iff.mp hreceived
  obtain ⟨numbers, hnumbers⟩ := (bbo_sequence sampleBbos).2 0 h hmem
  exact ⟨h, numbers, hmem, hseqs, hnumbers⟩

/-! ### The counter wraps -/

/-- The service without subscribers, and nothing in its book. -/
def idle (n : UInt64) : Service := { symbolBook := { seq := n } }

def quote : ServiceEvent := .call ⟨⟨.binance, .spot⟩, .applyBatch [(⟨100⟩, ⟨5⟩)] []⟩

def withdraw : ServiceEvent := .call ⟨⟨.binance, .spot⟩, .invalidateVenue⟩

/-- The service with one quote. -/
def quoted (n : UInt64) : Service where
  symbolBook :=
    { seq := n
      book :=
        { venues := Function.update (fun _ => none) ⟨.binance, .spot⟩
            (some { bids := (∅ : SideMap greater).insert ⟨100⟩ ⟨5⟩ })
          aggregate := { bids := (∅ : SideMap greater).insert ⟨100⟩ ⟨5⟩ } }
      lastBboBid := some (⟨100⟩, ⟨5⟩) }

private theorem step_quote (n : UInt64) : (serviceMachine.step (idle n) quote).1 = quoted
    (n + 1) := rfl

private theorem step_withdraw (n : UInt64) :
    (serviceMachine.step (quoted n) withdraw).1 = idle (n + 1) := by
  have hvenues : ∀ entry : Option L2OrderBook,
      Function.update (Function.update (fun _ => none) ⟨.binance, .spot⟩ entry)
        ⟨.binance, .spot⟩ none = fun _ : VenueId => none := fun entry => by
    rw [Function.update_idem, Function.update_eq_self_iff]
  have hstep : (serviceMachine.step (quoted n) withdraw).1 =
      { symbolBook :=
          { seq := n + 1
            book :=
              { venues := Function.update (quoted n).symbolBook.book.venues
                  ⟨.binance, .spot⟩ none } } } := rfl
  rw [hstep, quoted, hvenues]
  rfl

/-- The quote comes and goes `k` times: two revisions each. -/
def toggles (k : ℕ) : List ServiceEvent := (List.replicate k [quote, withdraw]).flatten

private theorem state_toggles (n : UInt64) (k : ℕ) :
    serviceMachine.state (idle n) (toggles k) = idle (n + .ofNat (2 * k)) := by
  induction k generalizing n with
  | zero => exact congrArg idle (UInt64.add_zero n).symm
  | succ k ih =>
    have hpair : serviceMachine.state (idle n) [quote, withdraw] = idle (n + 1 + 1) := by
      rw [Machine.state_cons, Machine.state_cons, step_quote, step_withdraw, Machine.state_nil]
    have hseq : n + 1 + 1 + UInt64.ofNat (2 * k) = n + UInt64.ofNat (2 * (k + 1)) := by
      rw [Nat.mul_succ, UInt64.ofNat_add]
      grind
    rw [toggles, List.replicate_succ, List.flatten_cons, Machine.state_append, hpair]
    exact (ih (n + 1 + 1)).trans (congrArg idle hseq)

/-- A subscriber joins at the last revision before the counter wraps, and is told the next. -/
def wrapRun : List ServiceEvent :=
  [quote, .subscribeBbo 0, .bbo 0 (.write true), .bbo 0 .endBootstrap, withdraw, .bbo 0 .drain,
    .bbo 0 (.write true)]

/-- **After `2 ^ 64` revisions** the book seqs a subscriber receives start over. -/
theorem bbo_sequence_counterexample :
    ∃ events h, (serviceMachine.state {} events).bbo 0 = some h ∧
      bboSeqs h.received = [18446744073709551615, 0] ∧
      ¬ (bboSeqs h.received).Pairwise (· < ·) := by
  have hidle : serviceMachine.state {} (toggles (2 ^ 63 - 1)) = idle 18446744073709551614 :=
    state_toggles 0 (2 ^ 63 - 1)
  have hreceived : ((serviceMachine.state (idle 18446744073709551614) wrapRun).bbo 0).map
      (fun h => bboSeqs h.received) = some [18446744073709551615, 0] := rfl
  obtain ⟨h, hmem, hseqs⟩ := Option.map_eq_some_iff.mp hreceived
  refine ⟨toggles (2 ^ 63 - 1) ++ wrapRun, h, ?_, hseqs, ?_⟩
  · rw [Machine.state_append, hidle]
    exact hmem
  · rw [hseqs]
    decide

end Hermeneutic
