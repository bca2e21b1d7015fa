import Hermeneutic.Aggregator.Publication

/-!
# What an L2 subscriber is given

A subscriber captures a snapshot and registers its queue in one critical section, so from then
on every revision is pushed into the queue, or the queue is closed and cleared. Its stream,
what it has been given followed by what is still to come, is therefore a snapshot of some
revision followed, heartbeats aside, by the diffs of the revisions after it, up to the current
one while the queue is open and up to an earlier one once it is closed (`Follows`). Whatever
part of the stream the handler has written is such a sequence itself, and a client that reads
it sees no gap and ends with the aggregate of the revision it was last told.

The invariant of one subscriber (`L2SubscriberInv`) speaks of what its handler has taken followed
by what is queued, so a drain moves updates inside it and changes nothing. A push extends it by
one update, or closes the queue, and from then on the stream ends where it ended. The invariant of
the service (`L2Inv`) adds that the revision counter is the number of revisions made, and which
revision each subscriber registered at (`SubscribedAt`); one lemma for each event of the service
keeps it, and `L2Inv.run` holds of every run. `l2_stream_consistent` reads the facts about the
stream, the replica and the queue off it.
-/

namespace Hermeneutic

open Client (wireLevels)

/-- The updates are a snapshot of revision number `start` and the diffs of the ones after it up
to number `n`, with heartbeats in between. -/
inductive Follows (revisions : List L2OrderBook) (start : ℕ) : ℕ → List L2Update → Prop
  | snapshot {book : L2OrderBook} (hrevision : revisions[start]? = some book) :
      Follows revisions start start
        [.snapshot (.ofNat start) (wireLevels book.bids) (wireLevels book.asks)]
  | diff {n : ℕ} {updates : List L2Update} {book book' : L2OrderBook}
      {bids asks : List PriceLevel} (h : Follows revisions start n updates)
      (hold : revisions[n]? = some book) (hnew : revisions[n + 1]? = some book')
      (hbids : Client.applyLevels book.bids bids = book'.bids)
      (hasks : Client.applyLevels book.asks asks = book'.asks) :
      Follows revisions start (n + 1) (updates ++ [.diff (.ofNat (n + 1)) bids asks])
  | heartbeat {n : ℕ} {updates : List L2Update} {venues : List String}
      (h : Follows revisions start n updates) :
      Follows revisions start n (updates ++ [.heartbeat venues])

/-- The book seqs of the diffs among the updates. -/
def diffSeqs (updates : List L2Update) : List UInt64 :=
  updates.filterMap fun
    | .diff bookSeq _ _ => some bookSeq
    | _ => none

def L2Update.isSnapshot : L2Update → Bool
  | snapshot _ _ _ => true
  | _ => false

namespace Follows

variable {revisions : List L2OrderBook} {start n : ℕ} {updates : List L2Update}

/-- A further revision changes nothing. -/
theorem mono (h : Follows revisions start n updates) (book : L2OrderBook) :
    Follows (revisions ++ [book]) start n updates := by
  have hkeeps : ∀ {i : ℕ} {b : L2OrderBook},
      revisions[i]? = some b → (revisions ++ [book])[i]? = some b := fun {i b} hget => by
    rwa [List.getElem?_append_left (List.getElem?_eq_some_iff.mp hget).1]
  induction h with
  | snapshot hrevision => exact .snapshot (hkeeps hrevision)
  | diff _ hold hnew hbids hasks ih => exact .diff ih (hkeeps hold) (hkeeps hnew) hbids hasks
  | heartbeat _ ih => exact .heartbeat ih

/-- Neither does cutting the stream short, but for the revision it ends at. -/
theorem take (h : Follows revisions start n updates) {pre : List L2Update} (hpart : pre <+: updates)
    (hne : pre ≠ []) : ∃ m, Follows revisions start m pre := by
  induction h with
  | snapshot hrevision =>
    rcases List.prefix_cons_iff.mp hpart with rfl | ⟨pre', rfl, hnil⟩
    · exact absurd rfl hne
    · rw [List.prefix_nil.mp hnil]
      exact ⟨_, .snapshot hrevision⟩
  | diff h hold hnew hbids hasks ih =>
    rcases List.prefix_concat_iff.mp hpart with rfl | hpart
    · exact ⟨_, .diff h hold hnew hbids hasks⟩
    · exact ih hpart
  | heartbeat h ih =>
    rcases List.prefix_concat_iff.mp hpart with rfl | hpart
    · exact ⟨_, .heartbeat h⟩
    · exact ih hpart

/-- The shape of the stream: a snapshot, no second one, and consecutive diffs. -/
theorem shape (h : Follows revisions start n updates) :
    ∃ bids asks rest, updates = .snapshot (.ofNat start) bids asks :: rest ∧ start ≤ n ∧
      (∀ update ∈ rest, update.isSnapshot = false) ∧
      diffSeqs rest = (List.range' (start + 1) (n - start)).map UInt64.ofNat := by
  induction h with
  | snapshot => exact ⟨_, _, [], rfl, le_rfl, by simp, by simp [diffSeqs]⟩
  | @diff n _ _ _ bids' asks' _ _ _ _ _ ih =>
    obtain ⟨bids, asks, rest, rfl, hle, hrest, hseqs⟩ := ih
    refine ⟨bids, asks, rest ++ [.diff (.ofNat (n + 1)) bids' asks'], by simp, by omega,
      ?_, ?_⟩
    · intro update hmem
      rcases List.mem_append.mp hmem with hmem | hmem
      · exact hrest update hmem
      · rw [List.mem_singleton.mp hmem]
        rfl
    · have hsucc : n + 1 - start = (n - start) + 1 := by omega
      have hlast : start + 1 + (n - start) = n + 1 := by omega
      rw [hsucc, List.range'_concat, List.map_append, ← hseqs, Nat.one_mul, hlast]
      simp [diffSeqs]
  | @heartbeat n _ venues _ ih =>
    obtain ⟨bids, asks, rest, rfl, hle, hrest, hseqs⟩ := ih
    refine ⟨bids, asks, rest ++ [.heartbeat venues], by simp, hle, ?_, ?_⟩
    · intro update hmem
      rcases List.mem_append.mp hmem with hmem | hmem
      · exact hrest update hmem
      · rw [List.mem_singleton.mp hmem]
        rfl
    · rw [← hseqs]
      simp [diffSeqs]

/-- **The client's replica.** A client that reads the stream sees no gap and ends with the
aggregate of the last revision. -/
theorem readAll (h : Follows revisions start n updates)
    (hpositive : ∀ book ∈ revisions, book.Positive) :
    ∃ book, revisions[n]? = some book ∧
      Client.readAll {} updates = some { lastSeq := some (.ofNat n), book := book } := by
  induction h with
  | @snapshot book hrevision =>
    refine ⟨book, hrevision, ?_⟩
    have hbook := hpositive book (List.mem_of_getElem? hrevision)
    simp [Client.readAll, Client.read, Client.applyLevels_empty_wireLevels hbook.bids,
      Client.applyLevels_empty_wireLevels hbook.asks]
  | @diff n _ book book' _ _ _ hold hnew hbids hasks ih =>
    obtain ⟨held, hheld, hread⟩ := ih
    obtain rfl := Option.some.inj (hold.symm.trans hheld)
    refine ⟨book', hnew, ?_⟩
    have hgap : isBookSeqGap (some (UInt64.ofNat n)) (.ofNat (n + 1)) = false := by
      simp [isBookSeqGap, UInt64.ofNat_add]
    rw [Client.readAll_concat, hread, Option.bind_some, Client.read, if_neg (by rw [hgap]; decide),
      hbids, hasks]
  | heartbeat _ ih =>
    obtain ⟨book, hbook, hread⟩ := ih
    exact ⟨book, hbook, by rw [Client.readAll_concat, hread]; rfl⟩

end Follows

/-! ### One subscriber -/

/-- What holds of an L2 subscriber that registered at revision number `start` when number
`current` is the last of the revisions. -/
structure L2SubscriberInv (revisions : List L2OrderBook) (start current : ℕ)
    (queue : Option (SubscriberQueue L2Update)) (h : Handler L2Update) : Prop where
  wellFormed : h.WellFormed
  /-- Its stream goes on to the current revision, or its queue is closed and empty. -/
  active : h.phase.active = true → h.taken ≠ [] ∧ ∃ q, queue = some q ∧
    q.overflowPolicy = .close ∧
    (q.closed = false → Follows revisions start current (h.taken ++ q.queue)) ∧
    (q.closed = true → q.queue = [] ∧ ∃ n, Follows revisions start n h.taken)
  ended : h.phase.active = false → h.received = [] ∨ ∃ n, Follows revisions start n h.received

namespace L2SubscriberInv

variable {revisions revisions' : List L2OrderBook} {start current current' : ℕ}
  {queue : Option (SubscriberQueue L2Update)} {h : Handler L2Update}

/-- A new subscriber, with a snapshot of the current revision. -/
theorem registered {book : L2OrderBook} (hrevision : revisions[current]? = some book)
    (capacity : ℕ) :
    L2SubscriberInv revisions current current (some { capacity, overflowPolicy := .close })
      { initial := .snapshot (.ofNat current) (wireLevels book.bids) (wireLevels book.asks) } where
  wellFormed := ⟨fun _ => ⟨rfl, rfl⟩, fun _ hphase => by simp at hphase⟩
  active _ := ⟨by simp [Handler.taken], _, rfl, rfl, fun _ => .snapshot hrevision,
    fun hclosed => absurd hclosed (by simp)⟩
  ended _ := .inl rfl

/-- Whatever has been taken for an active subscriber is a stream. -/
private theorem exists_follows (hinv : L2SubscriberInv revisions start current queue h)
    (hactive : h.phase.active = true) : ∃ n, Follows revisions start n h.taken := by
  obtain ⟨hne, q, -, -, hopen, hclosed⟩ := hinv.active hactive
  cases hcl : q.closed with
  | false => exact (hopen hcl).take (List.prefix_append _ _) hne
  | true => exact (hclosed hcl).2

/-- So is what has been received, if anything has. -/
theorem received (hinv : L2SubscriberInv revisions start current queue h) :
    h.received = [] ∨ ∃ n, Follows revisions start n h.received := by
  cases hphase : h.phase.active with
  | false => exact hinv.ended hphase
  | true =>
    by_cases hnil : h.received = []
    · exact .inl hnil
    · obtain ⟨n, hfollows⟩ := hinv.exists_follows hphase
      exact .inr (hfollows.take ⟨_, (List.append_assoc _ _ _).symm⟩ hnil)

/-- A broadcast: the update extends a stream that is open, and ends one that overflows. -/
theorem push (hinv : L2SubscriberInv revisions start current queue h) {update : L2Update}
    (hextends : ∀ updates, Follows revisions start current updates →
      Follows revisions' start current' (updates ++ [update]))
    (hkeeps : ∀ n updates, Follows revisions start n updates → Follows revisions' start n updates) :
    L2SubscriberInv revisions' start current' (queue.map fun q => (q.pushOrClose update).2) h where
  wellFormed := hinv.wellFormed
  active hactive := by
    obtain ⟨hne, q, rfl, hpolicy, hopen, hclosed⟩ := hinv.active hactive
    refine ⟨hne, (q.pushOrClose update).2, rfl,
      (q.pushOrClose_overflowPolicy update).trans hpolicy, ?_⟩
    obtain ⟨n, htaken⟩ := hinv.exists_follows hactive
    cases hcl : q.closed with
    | true =>
      rw [q.pushOrClose_of_closed hcl update]
      exact ⟨fun hopen' => absurd (hopen'.symm.trans hcl) (by decide),
        fun _ => ⟨(hclosed hcl).1, n, hkeeps n _ htaken⟩⟩
    | false =>
      rcases q.pushOrClose_of_close hpolicy hcl update with ⟨hstill, hqueue⟩ | ⟨hnow, hqueue⟩
      · refine ⟨fun _ => ?_, fun hnow => absurd (hstill.symm.trans hnow) (by decide)⟩
        rw [hqueue, ← List.append_assoc]
        exact hextends _ (hopen hcl)
      · exact ⟨fun hstill => absurd (hstill.symm.trans hnow) (by decide),
          fun _ => ⟨hqueue, n, hkeeps n _ htaken⟩⟩
  ended hover := (hinv.ended hover).imp_right fun ⟨n, hfollows⟩ => ⟨n, hkeeps n _ hfollows⟩

/-- A step of the handler. -/
theorem step {q : SubscriberQueue L2Update}
    (hinv : L2SubscriberInv revisions start current (some q) h)
    (event : HandlerEvent) :
    L2SubscriberInv revisions start current (h.step q event).1 (h.step q event).2 := by
  have hstepped := Handler.step_stepped hinv.wellFormed q event
  refine ⟨hstepped.wellFormed, fun hactive' => ?_, fun hover' => ?_⟩
  · have hactive := hstepped.active_before hactive'
    obtain ⟨hne, _, hq, hpolicy, hopen, hclosed⟩ := hinv.active hactive
    obtain rfl := Option.some.inj hq
    obtain ⟨q', hq', hcontinues⟩ := hstepped.continues hactive hactive'
    refine ⟨fun hnil => hne (List.prefix_nil.mp (hnil ▸ hcontinues.taken)), q', hq',
      hcontinues.overflowPolicy.trans hpolicy, fun hcl => ?_, fun hcl => ?_⟩
    · rw [hcontinues.stream]
      exact hopen (hcontinues.closed.symm.trans hcl)
    · -- Nothing is queued behind what was taken, so the step has taken nothing more.
      obtain ⟨hqueue, n, hfollows⟩ := hclosed (hcontinues.closed.symm.trans hcl)
      have hstream := hcontinues.stream
      rw [hqueue, List.append_nil] at hstream
      obtain ⟨more, hmore⟩ := hcontinues.taken
      have hnil : more ++ q'.queue = [] := by
        rw [← hmore, List.append_assoc] at hstream
        exact List.append_right_eq_self.mp hstream
      obtain ⟨rfl, hqueue'⟩ := List.append_eq_nil_iff.mp hnil
      exact ⟨hqueue', n, by rwa [← hmore, List.append_nil]⟩
  · cases hactive : h.phase.active with
    | false =>
      rw [(hstepped.ended hactive).2]
      exact hinv.ended hactive
    | true =>
      by_cases hnil : (h.step q event).2.received = []
      · exact .inl hnil
      · obtain ⟨n, hfollows⟩ := hinv.exists_follows hactive
        exact .inr (hfollows.take (hstepped.ends hactive hover') hnil)

end L2SubscriberInv

/-! ### All of them -/

/-- The number of the revision that is current after a run. -/
def revisionNumber (events : List ServiceEvent) : ℕ := (serviceMachine.output {} events).length

/-- The subscriber registered when revision number `n` was current. -/
def SubscribedAt (events : List ServiceEvent) (id : SubscriberId) (n : ℕ) : Prop :=
  ∃ pre, pre ++ [.subscribe id] <+: events ∧ (serviceMachine.state {} pre).l2 id = none ∧
    revisionNumber pre = n

theorem SubscribedAt.mono {events : List ServiceEvent} {id : SubscriberId} {n : ℕ}
    (h : SubscribedAt events id n) (event : ServiceEvent) :
    SubscribedAt (events ++ [event]) id n := by
  obtain ⟨pre, hpre, hnone, hnumber⟩ := h
  exact ⟨pre, hpre.trans (List.prefix_append _ _), hnone, hnumber⟩

/-- The service after some events, when `past` are the revisions before the current one. -/
structure L2Inv (events : List ServiceEvent) (past : List L2OrderBook) (s : Service) :
    Prop where
  seq : s.symbolBook.seq = .ofNat past.length
  positive : ∀ book ∈ past ++ [s.symbolBook.book.aggregate], book.Positive
  overflowPolicy : s.symbolBook.l2Fanout.overflowPolicy = .close
  subscriber : ∀ id h, s.l2 id = some h → ∃ start, SubscribedAt events id start ∧
    L2SubscriberInv (past ++ [s.symbolBook.book.aggregate]) start past.length
      (s.symbolBook.l2Fanout.subscribers id) h

namespace L2Inv

theorem start : L2Inv [] [] {} where
  seq := rfl
  positive book hmem := by
    obtain rfl := List.mem_singleton.mp hmem
    exact ⟨positive_empty, positive_empty⟩
  overflowPolicy := rfl
  subscriber _ _ hmem := by simp at hmem

variable {events : List ServiceEvent} {past : List L2OrderBook} {s : Service}

private theorem getElem?_current (past : List L2OrderBook) (book : L2OrderBook) :
    (past ++ [book])[past.length]? = some book := by
  simp

/-- A mutating call. -/
theorem call (hinv : L2Inv events past s) (c : BookCall) :
    ∃ past', past' ++ [(s.step (.call c)).1.symbolBook.book.aggregate] =
        past ++ [s.symbolBook.book.aggregate] ++ (s.step (.call c)).2 ∧
      L2Inv (events ++ [.call c]) past' (s.step (.call c)).1 := by
  have hpositive := s.symbolBook.call_positive
    (hinv.positive _ (List.mem_append_right _ (List.mem_singleton.mpr rfl))) c
  simp only [Service.step]
  rcases s.symbolBook.call_revises c with ⟨haggregate, hsame⟩ | ⟨bids, asks, hnew, hbids, hasks⟩
  · have hseq : (s.symbolBook.call c).2.seq = s.symbolBook.seq := by rw [hsame]
    have hfanout : (s.symbolBook.call c).2.l2Fanout = s.symbolBook.l2Fanout := by rw [hsame]
    refine ⟨past, by simp [hseq, haggregate], hseq.trans hinv.seq, ?_,
      (congrArg _ hfanout).trans hinv.overflowPolicy, ?_⟩
    · simpa only [haggregate] using hinv.positive
    · intro id h hmem
      obtain ⟨start, hsubscribed, hsub⟩ := hinv.subscriber id h hmem
      exact ⟨start, hsubscribed.mono _, by simpa only [haggregate, hfanout] using hsub⟩
  · have hseq : (s.symbolBook.call c).2.seq = s.symbolBook.seq + 1 := by
      rw [hnew, SymbolBook.publishBbo_seq]
    have hfanout : (s.symbolBook.call c).2.l2Fanout =
        s.symbolBook.l2Fanout.broadcast (.diff (s.symbolBook.seq + 1) bids asks) := by
      rw [hnew, SymbolBook.publishBbo_l2Fanout]
    have hne : s.symbolBook.seq + 1 ≠ s.symbolBook.seq := by grind
    have hnext : UInt64.ofNat past.length + 1 = .ofNat (past.length + 1) := by
      simp [UInt64.ofNat_add]
    refine ⟨past ++ [s.symbolBook.book.aggregate], by simp [hseq, hne], ?_, ?_, ?_, ?_⟩
    · rw [hseq, hinv.seq, hnext, List.length_append, List.length_singleton]
    · intro book hmem
      rcases List.mem_append.mp hmem with hmem | hmem
      · exact hinv.positive book hmem
      · exact List.mem_singleton.mp hmem ▸ hpositive
    · rw [hfanout]
      exact hinv.overflowPolicy
    · intro id h hmem
      obtain ⟨start, hsubscribed, hsub⟩ := hinv.subscriber id h hmem
      rw [hfanout]
      refine ⟨start, hsubscribed.mono _, hsub.push (fun updates hfollows => ?_)
        fun n updates hfollows => hfollows.mono _⟩
      rw [hinv.seq, hnext, List.length_append, List.length_singleton]
      refine (hfollows.mono _).diff ?_ ?_ hbids hasks
      · rw [List.getElem?_append_left (by simp)]
        exact getElem?_current past _
      · simp

/-- **Step lemma.** -/
theorem step (hinv : L2Inv events past s) (event : ServiceEvent)
    (hnew : ∀ id, event = .subscribe id → s.l2 id = none →
      SubscribedAt (events ++ [event]) id past.length) :
    ∃ past', past' ++ [(s.step event).1.symbolBook.book.aggregate] =
        past ++ [s.symbolBook.book.aggregate] ++ (s.step event).2 ∧
      L2Inv (events ++ [event]) past' (s.step event).1 := by
  -- Subscribers whose queue and handler are left alone are as they were.
  have hkept : ∀ id h, s.l2 id = some h → ∃ start, SubscribedAt (events ++ [event]) id start ∧
      L2SubscriberInv (past ++ [s.symbolBook.book.aggregate]) start past.length
        (s.symbolBook.l2Fanout.subscribers id) h := fun id h hmem => by
    obtain ⟨start, hsubscribed, hsub⟩ := hinv.subscriber id h hmem
    exact ⟨start, hsubscribed.mono _, hsub⟩
  cases event with
  | call c => exact hinv.call c
  | sendHeartbeat =>
    refine ⟨past, (List.append_nil _).symm, hinv.seq, hinv.positive, hinv.overflowPolicy,
      fun id h hmem => ?_⟩
    obtain ⟨start, hsubscribed, hsub⟩ := hkept id h hmem
    exact ⟨start, hsubscribed, hsub.push (fun updates hfollows => hfollows.heartbeat)
      fun _ _ hfollows => hfollows⟩
  | subscribe id =>
    simp only [Service.step]
    split
    · exact ⟨past, (List.append_nil _).symm, hinv.seq, hinv.positive, hinv.overflowPolicy, hkept⟩
    · rename_i hnone
      refine ⟨past, (List.append_nil _).symm, hinv.seq, hinv.positive, hinv.overflowPolicy,
        fun id' h hmem => ?_⟩
      by_cases hid : id' = id
      · subst hid
        refine ⟨past.length, hnew id' rfl hnone, ?_⟩
        simp only [Function.update_self, Option.some.injEq, Fanout.subscribe,
          SymbolBook.buildSnapshot, hinv.seq, hinv.overflowPolicy] at hmem ⊢
        exact hmem ▸ .registered (getElem?_current past s.symbolBook.book.aggregate) _
      · simp only [Function.update_of_ne hid, Fanout.subscribe] at hmem ⊢
        exact hkept id' h hmem
  | subscribeBbo id =>
    simp only [Service.step]
    split
    · exact ⟨past, (List.append_nil _).symm, hinv.seq, hinv.positive, hinv.overflowPolicy, hkept⟩
    · exact ⟨past, (List.append_nil _).symm, hinv.seq, hinv.positive, hinv.overflowPolicy, hkept⟩
  | l2 id event =>
    refine ⟨past, (List.append_nil _).symm, hinv.seq, hinv.positive,
      (Service.stepHandler_overflowPolicy _ _ _ _).trans hinv.overflowPolicy, fun id' h hmem => ?_⟩
    rcases Service.stepHandler_cases hmem with ⟨hsame, hqueue⟩ | ⟨rfl, q, h, hq, hh, rfl, hqueue⟩
    · simp only [Service.step]
      rw [hqueue]
      exact hkept id' h hsame
    · simp only [Service.step]
      rw [hqueue]
      obtain ⟨start, hsubscribed, hsub⟩ := hkept _ h hh
      exact ⟨start, hsubscribed, (hq ▸ hsub).step event⟩
  | bbo id event =>
    exact ⟨past, (List.append_nil _).symm, hinv.seq, hinv.positive, hinv.overflowPolicy, hkept⟩

/-- **Run lemma.** The aggregates output so far are the revisions after the empty one. -/
theorem run (events : List ServiceEvent) :
    ∃ past, {} :: serviceMachine.output {} events =
        past ++ [(serviceMachine.state {} events).symbolBook.book.aggregate] ∧
      L2Inv events past (serviceMachine.state {} events) := by
  induction events using List.reverseRecOn with
  | nil => exact ⟨[], rfl, start⟩
  | append_singleton events event ih =>
    obtain ⟨past, hout, hinv⟩ := ih
    have hnumber : revisionNumber events = past.length := by
      simpa [revisionNumber] using congrArg List.length hout
    obtain ⟨past', hpast', hinv'⟩ := hinv.step event fun id hevent hnone =>
      ⟨events, by rw [hevent], hnone, hnumber⟩
    rw [Machine.state_concat, Machine.output_concat]
    refine ⟨past', ?_, hinv'⟩
    rw [← List.cons_append, hout]
    exact hpast'.symm

end L2Inv

/-! ### The stream and the server's revisions -/

/-- The current revision of a run, in the list of all of them and as the server has it. -/
theorem current_revision (events : List ServiceEvent) :
    ({} :: serviceMachine.output {} events)[revisionNumber events]? =
        some (serviceMachine.state {} events).symbolBook.book.aggregate ∧
      (serviceMachine.state {} events).symbolBook.seq = .ofNat (revisionNumber events) := by
  obtain ⟨past, hout, hinv⟩ := L2Inv.run events
  have hlength : revisionNumber events = past.length := by
    have h := congrArg List.length hout
    simpa [revisionNumber] using h
  rw [hlength, hout]
  exact ⟨by simp, hinv.seq⟩

/-- The revision that was current after a part of a run. -/
private theorem getElem?_revision {pre events : List ServiceEvent} (hpre : pre <+: events) :
    ({} :: serviceMachine.output {} events)[revisionNumber pre]? =
      some (serviceMachine.state {} pre).symbolBook.book.aggregate := by
  obtain ⟨post, rfl⟩ := hpre
  rw [Machine.output_append, ← List.cons_append, List.getElem?_append_left]
  · exact (current_revision pre).1
  · simp [revisionNumber]

theorem length_output_step_le (s : Service) (event : ServiceEvent) :
    (serviceMachine.step s event).2.length ≤ 1 := by
  cases event with
  | call c =>
    simp only [serviceMachine, Service.step]
    split <;> simp
  | subscribe id | subscribeBbo id =>
    simp only [serviceMachine, Service.step]
    split <;> simp
  | sendHeartbeat | l2 | bbo => simp [serviceMachine, Service.step]

/-- Every revision was once the current one. -/
private theorem exists_revision (events : List ServiceEvent) {n : ℕ}
    (hn : n ≤ revisionNumber events) :
    ∃ pre, pre <+: events ∧ revisionNumber pre = n := by
  induction events using List.reverseRecOn with
  | nil => exact ⟨[], List.prefix_rfl, (Nat.le_zero.mp hn).symm⟩
  | append_singleton events event ih =>
    rcases Nat.lt_or_ge (revisionNumber events) n with hlt | hle
    · have hstep := length_output_step_le (serviceMachine.state {} events) event
      refine ⟨_, List.prefix_rfl, le_antisymm ?_ hn⟩
      rw [revisionNumber] at hlt
      rw [revisionNumber, Machine.output_concat, List.length_append]
      omega
    · obtain ⟨pre, hpre, hnumber⟩ := ih hle
      exact ⟨pre, hpre.trans (List.prefix_append _ _), hnumber⟩

/-- The updates are a snapshot and, heartbeats aside, the diffs of the next revisions up to
number `n`, and a client that reads them sees no gap and holds the book the server had at
that revision. -/
def ConsistentUpTo (events : List ServiceEvent) (n : ℕ) (updates : List L2Update) : Prop :=
  ∃ (start : ℕ) (bids asks : List PriceLevel) (rest : List L2Update) (client : Client),
    updates = .snapshot (.ofNat start) bids asks :: rest ∧ start ≤ n ∧
    (∀ update ∈ rest, update.isSnapshot = false) ∧
    diffSeqs rest = (List.range' (start + 1) (n - start)).map UInt64.ofNat ∧
    Client.readAll {} updates = some client ∧ client.lastSeq = some (.ofNat n) ∧
    (∃ pre, pre <+: events ∧ revisionNumber pre = n) ∧
    ∀ pre, pre <+: events → revisionNumber pre = n →
      (serviceMachine.state {} pre).symbolBook.seq = .ofNat n ∧
        (serviceMachine.state {} pre).symbolBook.book.aggregate = client.book

theorem Follows.consistentUpTo {events : List ServiceEvent} {start n : ℕ}
    {updates : List L2Update}
    (h : Follows ({} :: serviceMachine.output {} events) start n updates) :
    ConsistentUpTo events n updates := by
  obtain ⟨past, hout, hinv⟩ := L2Inv.run events
  obtain ⟨bids, asks, rest, hupdates, hle, hrest, hseqs⟩ := h.shape
  obtain ⟨book, hbook, hread⟩ := h.readAll (by rw [hout]; exact hinv.positive)
  have hn : n ≤ revisionNumber events := by
    have hlt := (List.getElem?_eq_some_iff.mp hbook).1
    simpa [revisionNumber, Nat.lt_succ_iff] using hlt
  refine ⟨start, bids, asks, rest, _, hupdates, hle, hrest, hseqs, hread, rfl,
    exists_revision events hn, fun pre hpre hnumber => ⟨?_, ?_⟩⟩
  · rw [(current_revision pre).2, hnumber]
  · have hpreBook := getElem?_revision hpre
    rw [hnumber, hbook] at hpreBook
    exact (Option.some.inj hpreBook).symm

/-- **The L2 stream.** Whatever the calls, the heartbeats and the subscriber's own steps, what
it has received is consistent up to some revision. While it reads on, its queue is open and
completes the stream up to the current revision, or it is closed and there is nothing left in
it to drain. -/
theorem l2_stream_consistent (events : List ServiceEvent) (id : SubscriberId)
    {h : Handler L2Update} (hsubscriber : (serviceMachine.state {} events).l2 id = some h) :
    (h.received = [] ∨ ∃ n, ConsistentUpTo events n h.received) ∧
      (h.phase.active = true → ∃ q,
        (serviceMachine.state {} events).symbolBook.l2Fanout.subscribers id = some q ∧
        (q.closed = false →
          ConsistentUpTo events (revisionNumber events) (h.taken ++ q.queue)) ∧
        (q.closed = true → q.queue = [] ∧ q.waitAndDrain = (.closed, q))) := by
  obtain ⟨past, hout, hinv⟩ := L2Inv.run events
  have hlength : past.length = revisionNumber events := by
    have hlengths := congrArg List.length hout
    simpa [revisionNumber] using hlengths.symm
  obtain ⟨start, -, hsub⟩ := hinv.subscriber id h hsubscriber
  rw [← hout, hlength] at hsub
  refine ⟨hsub.received.imp_right fun ⟨n, hfollows⟩ => ⟨n, hfollows.consistentUpTo⟩,
    fun hactive => ?_⟩
  obtain ⟨-, q, hq, -, hopen, hclosed⟩ := hsub.active hactive
  refine ⟨q, hq, fun hcl => (hopen hcl).consistentUpTo, fun hcl => ⟨(hclosed hcl).1, ?_⟩⟩
  rw [SubscriberQueue.waitAndDrain, if_pos hcl]

/-- A bid, a subscriber, another bid and a heartbeat before the subscriber's first `Write()`
returns, and then what it drains. -/
def sampleStream : List ServiceEvent :=
  [.call ⟨⟨.binance, .spot⟩, .applyBatch [(⟨100⟩, ⟨5⟩)] []⟩, .subscribe 0,
    .call ⟨⟨.okx, .spot⟩, .applyBatch [(⟨100⟩, ⟨7⟩)] []⟩, .sendHeartbeat, .l2 0 (.write true),
    .l2 0 .endBootstrap, .l2 0 .drain, .l2 0 (.write true), .l2 0 (.write true)]

theorem l2_stream_consistent_sample :
    ∃ n, ConsistentUpTo sampleStream n
      [.snapshot 1 [⟨100, 5⟩] [], .diff 2 [⟨100, 12⟩] [],
        .heartbeat ["binance_spot", "okx_spot"]] := by
  have hreceived : ((serviceMachine.state {} sampleStream).l2 0).map Handler.received =
      some [.snapshot 1 [⟨100, 5⟩] [], .diff 2 [⟨100, 12⟩] [],
        .heartbeat ["binance_spot", "okx_spot"]] := by decide
  obtain ⟨h, hsubscriber, hh⟩ := Option.map_eq_some_iff.mp hreceived
  rw [← hh]
  refine (l2_stream_consistent sampleStream 0 hsubscriber).1.resolve_left fun hnil => ?_
  rw [hh] at hnil
  exact absurd hnil (by simp)

end Hermeneutic
