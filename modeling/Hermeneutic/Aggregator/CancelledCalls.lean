import Hermeneutic.Aggregator.StreamCanceller

/-!
# What a client cancels

The guarantees of the cancellers of a client that do not depend on when they register
(`cancellers_sound`): a call is cancelled only in a stopped client and only once, a thread ends
without cancelling only when its read loop is over, a sweep never notifies a canceller that is
being destroyed, and no destructor joins a thread that sleeps.

`Cancellers.History` relates the calls cancelled so far to the threads that have finished.

The argument is over the history of a run rather than over its last state, which does not tell
which calls were cancelled: each cancellation is charged to a thread that has finished, and as a
thread finishes once, no call is charged twice; whichever thread woke up did so with a reason.
That a destructor never waits in vain is a property of the state (`Inv.joins`): it has set the
flag of its own canceller before it joins, so the thread is awake or will find the predicate true.
-/

namespace Hermeneutic

namespace StreamCanceller

variable {c c' : StreamCanceller} {stop locked : Bool} {action : CancellerAction}

/-- What a step does to the thread and to the flag its predicate reads. -/
private theorem step_thread (hstep : c.step stop locked action = some c') :
    (c'.thread = .awake → c.thread = .awake ∨ stop = true ∨ c.readLoopDone = true) ∧
      (c'.thread = .finished ↔ action = .act ∨ c.thread = .finished) ∧
      (action = .act → c.thread = .awake) ∧ (c.readLoopDone = true → c'.readLoopDone = true) := by
  cases action with
  | register | deregister | setDone | join | act | wakeSpuriously =>
    simp only [StreamCanceller.step, Option.ite_none_right_eq_some, Option.some.injEq] at hstep
    obtain ⟨hguard, rfl⟩ := hstep
    simp_all
  | check =>
    simp only [StreamCanceller.step, Option.ite_none_right_eq_some, Option.some.injEq] at hstep
    obtain ⟨hguard, rfl⟩ := hstep
    cases stop <;> cases c.readLoopDone <;> simp [hguard]
  | notifyDone =>
    simp only [StreamCanceller.step, Option.ite_none_right_eq_some, Option.some.injEq] at hstep
    obtain ⟨hguard, rfl⟩ := hstep
    rw [notify]
    split <;> simp_all

/-- A notification does neither wake a thread for good nor end it. -/
private theorem notify_thread (c : StreamCanceller) :
    (c.notify.thread = .awake ↔ c.thread = .awake) ∧
      (c.notify.thread = .finished ↔ c.thread = .finished) ∧
      c.notify.readLoopDone = c.readLoopDone := by
  rw [notify]
  split <;> simp_all

end StreamCanceller

namespace Cancellers

/-- What has been cancelled fits the threads that have finished. -/
structure History (out : List TryCancel) (s : Cancellers) : Prop extends s.Inv where
  awake : ∀ id c, s.canceller id = some c → c.thread = .awake →
    s.stop = true ∨ c.readLoopDone = true
  once : out.Nodup
  stopped : out ≠ [] → s.stop = true
  cancelled : ∀ call ∈ out, ∃ c, s.canceller call.id = some c ∧ c.thread = .finished
  reason : ∀ id c, s.canceller id = some c → c.thread = .finished →
    ⟨id⟩ ∈ out ∨ c.readLoopDone = true

variable {out : List TryCancel} {s : Cancellers}

/-- The history after a step that changes one canceller, and nothing but the registry beside
it. -/
private theorem History.step_own (h : History out s) {id : CancellerId} {c c' : StreamCanceller}
    {action : CancellerAction} (hc : s.canceller id = some c)
    (hstep : c.step s.stop s.sweep.isSome action = some c')
    (hinv : Inv { s with
      canceller := Function.update s.canceller id (some c')
      registry := action.registry id s.registry }) :
    History (out ++ if action = .act ∧ s.stop then [⟨id⟩] else [])
      { s with
        canceller := Function.update s.canceller id (some c')
        registry := action.registry id s.registry } := by
  obtain ⟨hawake, hfinished, hact, hdone⟩ := StreamCanceller.step_thread hstep
  -- whoever was cancelled has finished, and is not about to act
  have hnew : action = .act → ⟨id⟩ ∉ out := by
    intro haction hmem
    obtain ⟨c₀, hc₀, hthread⟩ := h.cancelled _ hmem
    rw [← Option.some.inj (hc.symm.trans hc₀), hact haction] at hthread
    cases hthread
  refine ⟨hinv, fun id' c₀ hc₀ hthread => ?_, ?_, fun hne => ?_, fun call hcall => ?_,
    fun id' c₀ hc₀ hthread => ?_⟩
  · by_cases hid : id' = id
    · subst hid
      simp only [Function.update_self, Option.some.injEq] at hc₀
      rw [← hc₀] at hthread ⊢
      rcases hawake hthread with hbefore | hstop | hread
      · exact (h.awake id' c hc hbefore).imp_right hdone
      · exact .inl hstop
      · exact .inr (hdone hread)
    · simp only [Function.update_of_ne hid] at hc₀
      exact h.awake id' c₀ hc₀ hthread
  · split
    · rename_i hcancels
      refine List.nodup_append.mpr
        ⟨h.once, List.nodup_singleton _, fun call hcall call' hcall' => ?_⟩
      rw [List.mem_singleton] at hcall'
      rintro rfl
      exact hnew hcancels.1 (hcall' ▸ hcall)
    · rw [List.append_nil]
      exact h.once
  · by_cases hout : out = []
    · by_contra hstop
      exact hne (by simp [hout, show s.stop = false by simpa using hstop])
    · exact h.stopped hout
  · rcases List.mem_append.mp hcall with hold | hlast
    · obtain ⟨c₀, hc₀, hthread⟩ := h.cancelled call hold
      by_cases hid : call.id = id
      · rw [hid] at hc₀ ⊢
        obtain rfl := Option.some.inj (hc.symm.trans hc₀)
        exact ⟨c', Function.update_self _ _ _, hfinished.mpr (.inr hthread)⟩
      · exact ⟨c₀, by simpa only [Function.update_of_ne hid] using hc₀, hthread⟩
    · split at hlast
      · rename_i hcancels
        rw [List.mem_singleton] at hlast
        rw [hlast]
        exact ⟨c', Function.update_self _ _ _, hfinished.mpr (.inl hcancels.1)⟩
      · cases hlast
  · by_cases hid : id' = id
    · subst hid
      simp only [Function.update_self, Option.some.injEq] at hc₀
      rw [← hc₀] at hthread ⊢
      rcases hfinished.mp hthread with haction | hbefore
      · rcases h.awake id' c hc (hact haction) with hstop | hread
        · exact .inl (by simp [haction, hstop])
        · exact .inr (hdone hread)
      · exact (h.reason id' c hc hbefore).imp (List.mem_append_left _) hdone
    · simp only [Function.update_of_ne hid] at hc₀
      exact (h.reason id' c₀ hc₀ hthread).imp_left (List.mem_append_left _)

/-- **A step** keeps the history. -/
theorem History.step (h : History out s) (event : CancellerEvent) :
    History (out ++ (s.step event).2) (s.step event).1 := by
  have hinv := h.toInv.step event
  cases event with
  | construct id =>
    cases hc : s.canceller id with
    | some _ =>
      simp only [Cancellers.step, hc, List.append_nil]
      exact h
    | none =>
      simp only [Cancellers.step, hc, List.append_nil] at hinv ⊢
      have hold : ∀ id' c', Function.update s.canceller id (some {}) id' = some c' →
          s.canceller id' = some c' ∨ c'.thread = .checking := by
        intro id' c' hc'
        by_cases hid : id' = id
        · subst hid
          rw [Function.update_self] at hc'
          rw [← Option.some.inj hc']
          exact .inr rfl
        · rw [Function.update_of_ne hid] at hc'
          exact .inl hc'
      refine ⟨hinv, fun id' c' hc' hthread => ?_, h.once, h.stopped, fun call hcall => ?_,
        fun id' c' hc' hthread => ?_⟩
      · rcases hold id' c' hc' with hc' | hchecking
        · exact h.awake id' c' hc' hthread
        · cases hthread.symm.trans hchecking
      · obtain ⟨c', hc', hthread⟩ := h.cancelled call hcall
        have hid : call.id ≠ id := by
          rintro heq
          rw [heq, hc] at hc'
          cases hc'
        exact ⟨c', by simpa only [Function.update_of_ne hid] using hc', hthread⟩
      · rcases hold id' c' hc' with hc' | hchecking
        · exact h.reason id' c' hc' hthread
        · cases hthread.symm.trans hchecking
  | own id action =>
    rw [Cancellers.step] at hinv ⊢
    cases hbind : (s.canceller id).bind fun c => c.step s.stop s.sweep.isSome action with
    | none =>
      rw [List.append_nil]
      exact h
    | some c' =>
      obtain ⟨c, hc, hstep⟩ := Option.bind_eq_some_iff.mp hbind
      rw [hbind] at hinv
      exact h.step_own hc hstep hinv
  | requestStop =>
    rw [Cancellers.step, List.append_nil]
    exact ⟨hinv, fun _ _ _ _ => .inl rfl, h.once, fun _ => rfl, h.cancelled, h.reason⟩
  | beginSweep =>
    rw [Cancellers.step] at hinv ⊢
    split
    · rename_i hguard
      rw [if_pos hguard] at hinv
      rw [List.append_nil]
      exact ⟨hinv, h.awake, h.once, h.stopped, h.cancelled, h.reason⟩
    · rw [List.append_nil]
      exact h
  | notifyNext =>
    rw [Cancellers.step] at hinv ⊢
    split
    · rename_i id rest hsweep
      rw [hsweep] at hinv
      rw [List.append_nil]
      have hafter : ∀ id' c', Function.update s.canceller id
          ((s.canceller id).map StreamCanceller.notify) id' = some c' →
          ∃ c, s.canceller id' = some c ∧ (c'.thread = .awake ↔ c.thread = .awake) ∧
            (c'.thread = .finished ↔ c.thread = .finished) ∧
            c'.readLoopDone = c.readLoopDone := by
        intro id' c' hc'
        by_cases hid : id' = id
        · subst hid
          rw [Function.update_self] at hc'
          obtain ⟨c, hc, rfl⟩ := Option.map_eq_some_iff.mp hc'
          exact ⟨c, hc, c.notify_thread⟩
        · rw [Function.update_of_ne hid] at hc'
          exact ⟨c', hc', Iff.rfl, Iff.rfl, rfl⟩
      refine ⟨hinv, fun id' c' hc' hthread => ?_, h.once, h.stopped, fun call hcall => ?_,
        fun id' c' hc' hthread => ?_⟩
      · obtain ⟨c, hc, hawake, -, hdone⟩ := hafter id' c' hc'
        rw [hdone]
        exact h.awake id' c hc (hawake.mp hthread)
      · obtain ⟨c, hc, hthread⟩ := h.cancelled call hcall
        by_cases hid : call.id = id
        · rw [hid] at hc ⊢
          refine ⟨c.notify, ?_, c.notify_thread.2.1.mpr hthread⟩
          simp only [Function.update_self, hc, Option.map_some]
        · exact ⟨c, by simpa only [Function.update_of_ne hid] using hc, hthread⟩
      · obtain ⟨c, hc, -, hfinished, hdone⟩ := hafter id' c' hc'
        rw [hdone]
        exact h.reason id' c hc (hfinished.mp hthread)
    · rename_i hsweep
      rw [hsweep] at hinv
      rw [List.append_nil]
      exact ⟨hinv, h.awake, h.once, h.stopped, h.cancelled, h.reason⟩
    · rw [List.append_nil]
      exact h

/-- A destructor that joins its thread waits for two of its steps at most. -/
theorem Inv.joins (h : s.Inv) {id : CancellerId} {c : StreamCanceller}
    (hc : s.canceller id = some c) (howner : c.owner = .joining) :
    ((cancellerMachine.state s [.own id .check, .own id .act, .own id .join]).canceller id).map
      StreamCanceller.owner = some .joined := by
  have hsound := h.sound id c hc
  have hdone : c.readLoopDone = true := by
    rw [hsound.done, howner]
    rfl
  have hasleep := hsound.joining howner
  obtain ⟨thread, owner, readLoopDone⟩ := c
  subst howner hdone
  cases thread with
  | asleep => exact absurd rfl hasleep
  | checking | awake | finished =>
    simp [cancellerMachine, Cancellers.step, StreamCanceller.step, hc]

end Cancellers

/-- **Cancellers are sound.** In every run a call is cancelled once at most, and only in a
stopped client; a canceller's thread ends without cancelling only when its read loop is over;
what a sweep has still to notify is registered and not being destroyed; and a destructor that
joins its thread gets to the end of it, whatever has happened before. -/
theorem cancellers_sound (events : List CancellerEvent) :
    let s := cancellerMachine.state {} events
    let calls := cancellerMachine.output {} events
    (calls.Nodup ∧ (calls ≠ [] → s.stop = true)) ∧
      (∀ id c, s.canceller id = some c → c.thread = .finished →
        ⟨id⟩ ∈ calls ∨ c.readLoopDone = true) ∧
      (∀ rest, s.sweep = some rest → ∀ id ∈ rest,
        ∃ c, s.canceller id = some c ∧ c.owner = .reading) ∧
      ∀ id c, s.canceller id = some c → c.owner = .joining →
        ((cancellerMachine.state s [.own id .check, .own id .act, .own id .join]).canceller
          id).map StreamCanceller.owner = some .joined := by
  have h : Cancellers.History (cancellerMachine.output {} events)
      (cancellerMachine.state {} events) := by
    induction events using List.reverseRecOn with
    | nil => exact ⟨.start, by simp, List.nodup_nil, by simp, by simp, by simp⟩
    | append_singleton events event ih =>
      rw [Machine.state_concat, Machine.output_concat]
      exact ih.step event
  refine ⟨⟨h.once, h.stopped⟩, h.reason, fun rest hrest id hid => ?_, fun id c hc howner => ?_⟩
  · exact (h.registered id).mp (h.swept rest hrest id hid)
  · exact h.toInv.joins hc howner

end Hermeneutic
