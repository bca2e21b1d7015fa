import Mathlib.Data.List.Nodup
import Mathlib.Logic.Function.Basic
import Hermeneutic.ForMathlib.Machine

/-!
# Cancelling the streams of a client

Every stream of a client owns a `StreamCanceller` (`apps/aggregator/client_main.cpp`): a thread
that waits for the read loop to end or for the client to be stopped, and cancels the call if it
was stopped. `request_stop` sets the flag and then notifies every canceller that is registered.

A step of `cancellerMachine` is one critical section, one atomic access or one wait. Checking
the predicate and going to sleep are one step, as the lock of the canceller is held in between
and whoever notifies it takes that lock; a sleeper may also wake for no reason. The registry is
locked while it is swept.

The thread is started before the canceller is registered. If in between it goes to sleep, the
flag is set and the sweep is over, nobody wakes it: `stop_reaches_everyone_iff` says that a
client that is stopped leaves a canceller of a running stream asleep exactly in this case, and
`missed_sleeps_on` that its stream is then not cancelled by this stop.

`Inv` says what each phase of a canceller's owner and thread means for the registry, and is kept
by every step of any thread. `WakeInv` adds that in a stopped client whoever is asleep in its read
loop has a sweep to come; a step can break it only by registering a canceller behind the sweep
with its thread already asleep (`RegistersInTime`). `lateRegistration` is a run that does.
-/

namespace Hermeneutic

/-- A canceller's address. -/
abbrev CancellerId := ℕ

/-- Where the thread of a canceller stands. -/
inductive ThreadPhase
  /-- It is about to evaluate the predicate of its wait. -/
  | checking
  | asleep
  /-- The predicate held; `should_cancel` is read next. -/
  | awake
  | finished
  deriving DecidableEq

/-- Where the call that owns a canceller stands. -/
inductive OwnerPhase
  /-- The thread has been started. -/
  | constructing
  /-- Registered, with the read loop running. -/
  | reading
  /-- In the destructor, out of the registry. -/
  | deregistered
  /-- `read_loop_done_` is set. -/
  | done
  /-- The thread has been notified of it, and is joined next. -/
  | joining
  | joined
  deriving DecidableEq

structure StreamCanceller where
  thread : ThreadPhase := .checking
  owner : OwnerPhase := .constructing
  readLoopDone : Bool := false
  deriving DecidableEq

/-- A step of a canceller's thread or of the call that owns it. -/
inductive CancellerAction
  | register
  /-- The read loop is over, and the destructor takes the canceller out of the registry. -/
  | deregister
  | setDone
  | notifyDone
  | join
  /-- The thread evaluates its predicate. -/
  | check
  /-- The thread reads `should_cancel` and acts on it. -/
  | act
  | wakeSpuriously
  deriving DecidableEq

namespace StreamCanceller

/-- `cv_.notify_all()`. -/
def notify (c : StreamCanceller) : StreamCanceller :=
  if c.thread = .asleep then { c with thread := .checking } else c

/-- One step, if it is possible: `stop` is the flag, `locked` tells that the registry is being
swept. -/
def step (stop locked : Bool) (c : StreamCanceller) : CancellerAction → Option StreamCanceller
  | .register =>
    if c.owner = .constructing ∧ locked = false then some { c with owner := .reading } else none
  | .deregister =>
    if c.owner = .reading ∧ locked = false then some { c with owner := .deregistered } else none
  | .setDone =>
    if c.owner = .deregistered then some { c with owner := .done, readLoopDone := true } else none
  | .notifyDone => if c.owner = .done then some { c.notify with owner := .joining } else none
  | .join =>
    if c.owner = .joining ∧ c.thread = .finished then some { c with owner := .joined } else none
  | .check =>
    if c.thread = .checking then
      some { c with thread := if stop || c.readLoopDone then .awake else .asleep }
    else none
  | .act => if c.thread = .awake then some { c with thread := .finished } else none
  | .wakeSpuriously => if c.thread = .asleep then some { c with thread := .checking } else none

end StreamCanceller

/-- All cancellers of a client. -/
structure Cancellers where
  stop : Bool := false
  /-- The callers of `request_stop` between setting the flag and locking the registry. -/
  requesters : ℕ := 0
  /-- A sweep of the registry, by those it has still to notify. -/
  sweep : Option (List CancellerId) := none
  registry : List CancellerId := []
  canceller : CancellerId → Option StreamCanceller := fun _ => none

inductive CancellerEvent
  /-- The thread of a new canceller is started. -/
  | construct (id : CancellerId)
  | own (id : CancellerId) (action : CancellerAction)
  /-- `*stop = true`. -/
  | requestStop
  | beginSweep
  | notifyNext
  deriving DecidableEq

/-- `TryCancel()` on the call of a canceller. -/
structure TryCancel where
  id : CancellerId
  deriving DecidableEq

/-- What an action does to the registry. -/
def CancellerAction.registry (id : CancellerId) (registry : List CancellerId) :
    CancellerAction → List CancellerId
  | register => registry ++ [id]
  | deregister => registry.erase id
  | _ => registry

namespace Cancellers

/-- One step. One that is not possible changes nothing. -/
def step (s : Cancellers) : CancellerEvent → Cancellers × List TryCancel
  | .construct id =>
    match s.canceller id with
    | some _ => (s, [])
    | none => ({ s with canceller := Function.update s.canceller id (some {}) }, [])
  | .own id action =>
    match (s.canceller id).bind fun c => c.step s.stop s.sweep.isSome action with
    | some c =>
      ({ s with
        canceller := Function.update s.canceller id (some c)
        registry := action.registry id s.registry },
        if action = .act ∧ s.stop then [⟨id⟩] else [])
    | none => (s, [])
  | .requestStop => ({ s with stop := true, requesters := s.requesters + 1 }, [])
  | .beginSweep =>
    if 0 < s.requesters ∧ s.sweep = none then
      ({ s with requesters := s.requesters - 1, sweep := some s.registry }, [])
    else (s, [])
  | .notifyNext =>
    match s.sweep with
    | some (id :: rest) =>
      ({ s with
        canceller := Function.update s.canceller id ((s.canceller id).map StreamCanceller.notify)
        sweep := some rest }, [])
    | some [] => ({ s with sweep := none }, [])
    | none => (s, [])

end Cancellers

/-- The cancellers of a client as a machine. -/
def cancellerMachine : Machine Cancellers CancellerEvent TryCancel where
  step := Cancellers.step

/-! ### What every run keeps -/

/-- The destructor has set `read_loop_done_`. -/
def OwnerPhase.past : OwnerPhase → Bool
  | done | joining | joined => true
  | _ => false

namespace StreamCanceller

/-- A canceller on its own. -/
structure Sound (c : StreamCanceller) : Prop where
  done : c.readLoopDone = c.owner.past
  joining : c.owner = .joining → c.thread ≠ .asleep
  joined : c.owner = .joined → c.thread = .finished

variable {c c' : StreamCanceller} {stop locked : Bool} {action : CancellerAction}

private theorem notify_thread_ne (c : StreamCanceller) : c.notify.thread ≠ .asleep := by
  rw [notify]
  split
  · simp
  · assumption

private theorem notify_owner (c : StreamCanceller) : c.notify.owner = c.owner := by
  rw [notify]
  split <;> rfl

theorem Sound.notify (h : c.Sound) : c.notify.Sound where
  done := by
    rw [notify_owner, ← h.done, StreamCanceller.notify]
    split <;> rfl
  joining _ := c.notify_thread_ne
  joined hjoined := by
    rw [notify_owner] at hjoined
    rw [StreamCanceller.notify, if_neg (by rw [h.joined hjoined]; decide)]
    exact h.joined hjoined

/-- **A step of a canceller** keeps it sound. -/
theorem Sound.step (h : c.Sound) (hstep : c.step stop locked action = some c') : c'.Sound := by
  obtain ⟨hdone, hjoining, hjoined⟩ := h
  cases action with
  | register | deregister | setDone | join | act | wakeSpuriously =>
    simp only [StreamCanceller.step, Option.ite_none_right_eq_some, Option.some.injEq] at hstep
    obtain ⟨hguard, rfl⟩ := hstep
    refine ⟨?_, ?_, ?_⟩ <;> simp_all [OwnerPhase.past]
  | notifyDone =>
    simp only [StreamCanceller.step, Option.ite_none_right_eq_some, Option.some.injEq] at hstep
    obtain ⟨hguard, rfl⟩ := hstep
    refine ⟨?_, fun _ => c.notify_thread_ne, by simp⟩
    have hnotify : c.notify.readLoopDone = c.readLoopDone := by
      rw [StreamCanceller.notify]
      split <;> rfl
    simp [hnotify, hdone, hguard, OwnerPhase.past]
  | check =>
    simp only [StreamCanceller.step, Option.ite_none_right_eq_some, Option.some.injEq] at hstep
    obtain ⟨hguard, rfl⟩ := hstep
    refine ⟨hdone, fun howner => ?_, fun howner => ?_⟩
    · -- the destructor has set the flag the predicate reads
      have : c.readLoopDone = true := by
        rw [hdone]
        simp only at howner
        rw [howner]
        rfl
      simp [this]
    · exact absurd (hguard.symm.trans (hjoined howner)) (by decide)

/-- Whose owner reads after a step. -/
private theorem step_reading (hstep : c.step stop locked action = some c') :
    c'.owner = .reading ↔ action = .register ∨ c.owner = .reading ∧ action ≠ .deregister := by
  cases action with
  | register | deregister | setDone | notifyDone | join | check | act | wakeSpuriously =>
    simp only [StreamCanceller.step, Option.ite_none_right_eq_some, Option.some.injEq] at hstep
    obtain ⟨hguard, rfl⟩ := hstep
    simp_all

/-- The registry is touched by a canceller that is not in it yet, or by one that is, and not
during a sweep. -/
private theorem step_unlocked (hstep : c.step stop locked action = some c')
    (haction : action = .register ∨ action = .deregister) :
    locked = false ∧ (action = .register → c.owner = .constructing) := by
  rcases haction with rfl | rfl <;>
    simp only [StreamCanceller.step, Option.ite_none_right_eq_some] at hstep <;>
    simp_all

end StreamCanceller

private theorem CancellerAction.registry_of_ne {action : CancellerAction} (id : CancellerId)
    (registry : List CancellerId) (hregister : action ≠ .register)
    (hderegister : action ≠ .deregister) : action.registry id registry = registry := by
  cases action <;> first | rfl | contradiction

namespace Cancellers

variable {s : Cancellers}

/-- The registry is that of the running streams, and a sweep stays within it. -/
structure Inv (s : Cancellers) : Prop where
  sound : ∀ id c, s.canceller id = some c → c.Sound
  registered : ∀ id, id ∈ s.registry ↔ ∃ c, s.canceller id = some c ∧ c.owner = .reading
  nodup : s.registry.Nodup
  swept : ∀ rest, s.sweep = some rest → ∀ id ∈ rest, id ∈ s.registry
  quiet : s.stop = false → s.requesters = 0 ∧ s.sweep = none

theorem Inv.start : Inv {} where
  sound := by simp
  registered := by simp
  nodup := List.nodup_nil
  swept := by simp
  quiet _ := ⟨rfl, rfl⟩

private theorem sound_update {cancellers : CancellerId → Option StreamCanceller}
    (h : ∀ id c, cancellers id = some c → c.Sound) (id : CancellerId)
    {next : Option StreamCanceller} (hnext : ∀ c, next = some c → c.Sound) (id' : CancellerId)
    (c' : StreamCanceller) (hc' : Function.update cancellers id next id' = some c') :
    c'.Sound := by
  by_cases hid : id' = id
  · subst hid
    rw [Function.update_self] at hc'
    exact hnext c' hc'
  · rw [Function.update_of_ne hid] at hc'
    exact h id' c' hc'

/-- A step of a canceller keeps the registry that of the running streams. -/
private theorem Inv.registered_own (h : s.Inv) {id : CancellerId} {c c' : StreamCanceller}
    {action : CancellerAction} (hc : s.canceller id = some c)
    (hstep : c.step s.stop s.sweep.isSome action = some c') :
    (∀ id', id' ∈ action.registry id s.registry ↔
        ∃ c, Function.update s.canceller id (some c') id' = some c ∧ c.owner = .reading) ∧
      (action.registry id s.registry).Nodup := by
  have hreading := StreamCanceller.step_reading hstep
  have hself : id ∈ s.registry ↔ c.owner = .reading := by
    rw [h.registered, hc]
    simp
  have hother : ∀ id', id' ≠ id → (id' ∈ s.registry ↔
      ∃ c, Function.update s.canceller id (some c') id' = some c ∧ c.owner = .reading) := by
    intro id' hne
    rw [Function.update_of_ne hne]
    exact h.registered id'
  have hupdated : (∃ c, Function.update s.canceller id (some c') id = some c ∧
      c.owner = .reading) ↔ c'.owner = .reading := by
    rw [Function.update_self]
    simp
  by_cases hregister : action = .register
  · subst hregister
    have hnew : id ∉ s.registry := by
      rw [hself, (StreamCanceller.step_unlocked hstep (.inl rfl)).2 rfl]
      decide
    refine ⟨fun id' => ?_, List.nodup_append.mpr ⟨h.nodup, List.nodup_singleton _, ?_⟩⟩
    · by_cases hid : id' = id
      · subst hid
        simp [CancellerAction.registry, hreading]
      · rw [← hother id' hid]
        simp [CancellerAction.registry, hid]
    · intro id' hid' id'' hid'' heq
      rw [List.mem_singleton] at hid''
      exact hnew (hid'' ▸ heq ▸ hid')
  · by_cases hderegister : action = .deregister
    · subst hderegister
      refine ⟨fun id' => ?_, h.nodup.erase _⟩
      by_cases hid : id' = id
      · subst hid
        rw [hupdated, hreading]
        simp [CancellerAction.registry, h.nodup.mem_erase_iff]
      · rw [← hother id' hid]
        simp [CancellerAction.registry, h.nodup.mem_erase_iff, hid]
    · rw [CancellerAction.registry_of_ne id s.registry hregister hderegister]
      refine ⟨fun id' => ?_, h.nodup⟩
      by_cases hid : id' = id
      · subst hid
        rw [hupdated, hreading, hself]
        simp [hregister, hderegister]
      · exact hother id' hid

/-- **A step** keeps the invariant. -/
theorem Inv.step (h : s.Inv) (event : CancellerEvent) : (s.step event).1.Inv := by
  cases event with
  | construct id =>
    cases hc : s.canceller id with
    | some _ =>
      simp only [Cancellers.step, hc]
      exact h
    | none =>
      simp only [Cancellers.step, hc]
      refine ⟨sound_update h.sound id fun c hc => ?_, fun id' => ?_, h.nodup, h.swept, h.quiet⟩
      · rw [← Option.some.inj hc]
        exact ⟨rfl, by simp, by simp⟩
      · rw [h.registered]
        by_cases hid : id' = id
        · subst hid
          simp [hc]
        · simp only [Function.update_of_ne hid]
  | own id action =>
    rw [Cancellers.step]
    cases hbind : (s.canceller id).bind fun c => c.step s.stop s.sweep.isSome action with
    | none => exact h
    | some c' =>
      obtain ⟨c, hc, hstep⟩ := Option.bind_eq_some_iff.mp hbind
      obtain ⟨hregistered, hnodup⟩ := h.registered_own hc hstep
      refine ⟨sound_update h.sound id fun c₀ hc₀ => ?_, hregistered, hnodup,
        fun rest hrest id' hid' => ?_, h.quiet⟩
      · rw [← Option.some.inj hc₀]
        exact (h.sound id c hc).step hstep
      · -- a sweep keeps the registry locked
        have hkept : action.registry id s.registry = s.registry := by
          have hlocked : s.sweep.isSome = true := by
            rw [show s.sweep = some rest from hrest]
            rfl
          refine CancellerAction.registry_of_ne id s.registry (fun heq => ?_) fun heq => ?_
          · rw [(StreamCanceller.step_unlocked hstep (.inl heq)).1] at hlocked
            cases hlocked
          · rw [(StreamCanceller.step_unlocked hstep (.inr heq)).1] at hlocked
            cases hlocked
        rw [hkept]
        exact h.swept rest hrest id' hid'
  | requestStop =>
    exact ⟨h.sound, h.registered, h.nodup, h.swept, fun hstop => by cases hstop⟩
  | beginSweep =>
    rw [Cancellers.step]
    split
    · rename_i hguard
      refine ⟨h.sound, h.registered, h.nodup, fun rest hrest id hid => ?_, fun hstop => ?_⟩
      · rw [← Option.some.inj hrest] at hid
        exact hid
      · rw [(h.quiet hstop).1] at hguard
        exact absurd hguard.1 (by decide)
    · exact h
  | notifyNext =>
    rw [Cancellers.step]
    split
    · rename_i id rest hsweep
      refine ⟨sound_update h.sound id fun c' hc' => ?_, fun id' => ?_, h.nodup,
        fun rest' hrest' id' hid' => ?_, fun hstop => ?_⟩
      · obtain ⟨c, hc, rfl⟩ := Option.map_eq_some_iff.mp hc'
        exact (h.sound id c hc).notify
      · rw [h.registered]
        by_cases hid : id' = id
        · subst hid
          simp only [Function.update_self]
          cases s.canceller id' <;> simp [StreamCanceller.notify_owner]
        · simp only [Function.update_of_ne hid]
      · rw [← Option.some.inj hrest'] at hid'
        exact h.swept _ hsweep id' (List.mem_cons_of_mem _ hid')
      · rw [(h.quiet hstop).2] at hsweep
        cases hsweep
    · rename_i hsweep
      refine ⟨h.sound, h.registered, h.nodup, by simp, fun hstop => ?_⟩
      exact ⟨(h.quiet hstop).1, rfl⟩
    · exact h

/-! ### Who is woken -/

/-- A stopped client, with no sweep to come, leaves no canceller of a running stream asleep. -/
def NoneMissed (s : Cancellers) : Prop :=
  s.stop = true → s.requesters = 0 → s.sweep = none →
    ∀ id c, s.canceller id = some c → c.owner = .reading → c.thread ≠ .asleep

/-- A canceller that is registered is awake, or a sweep is to come if the client is stopped. -/
def RegistersInTime (s : Cancellers) : CancellerEvent → Prop
  | .own id .register => s.stop = true → s.requesters = 0 → s.sweep = none →
      ∀ c, s.canceller id = some c → c.owner = .constructing → c.thread ≠ .asleep
  | _ => True

/-- Whoever sleeps in a stopped client is going to be notified. -/
structure WakeInv (s : Cancellers) : Prop extends s.Inv where
  woken : s.stop = true → ∀ id c, s.canceller id = some c → c.owner = .reading →
    c.thread = .asleep → 0 < s.requesters ∨ ∃ rest, s.sweep = some rest ∧ id ∈ rest

private theorem WakeInv.noneMissed (h : s.WakeInv) : s.NoneMissed := by
  intro hstop hrequesters hsweep id c hc howner hasleep
  rcases h.woken hstop id c hc howner hasleep with hpos | ⟨rest, hrest, -⟩
  · omega
  · rw [hsweep] at hrest
    cases hrest

end Cancellers

/-- A canceller that sleeps after a step of its own in a stopped client slept before, and its
owner did not move unless it registered. -/
private theorem StreamCanceller.step_asleep {c c' : StreamCanceller} {locked : Bool}
    {action : CancellerAction} (hstep : c.step true locked action = some c')
    (hasleep : c'.thread = .asleep) (howner : c'.owner = .reading) :
    c.thread = .asleep ∧ (c.owner = .reading ∨
      action = .register ∧ c.owner = .constructing ∧ locked = false) := by
  cases action with
  | register | deregister | setDone | join | check | act | wakeSpuriously =>
    simp only [StreamCanceller.step, Option.ite_none_right_eq_some, Option.some.injEq] at hstep
    obtain ⟨hguard, rfl⟩ := hstep
    simp_all
  | notifyDone =>
    simp only [StreamCanceller.step, Option.ite_none_right_eq_some, Option.some.injEq] at hstep
    obtain ⟨hguard, rfl⟩ := hstep
    cases howner

namespace Cancellers

variable {s : Cancellers}

/-- **A step in time** keeps whoever sleeps on the list. -/
theorem WakeInv.step (h : s.WakeInv) {event : CancellerEvent} (hintime : RegistersInTime s event) :
    (s.step event).1.WakeInv := by
  refine ⟨h.toInv.step event, ?_⟩
  cases event with
  | construct id =>
    cases hc : s.canceller id with
    | some _ =>
      simp only [Cancellers.step, hc]
      exact h.woken
    | none =>
      simp only [Cancellers.step, hc]
      intro hstop id' c' hc' howner hasleep
      by_cases hid : id' = id
      · subst hid
        rw [Function.update_self] at hc'
        rw [← Option.some.inj hc'] at howner
        cases howner
      · rw [Function.update_of_ne hid] at hc'
        exact h.woken hstop id' c' hc' howner hasleep
  | own id action =>
    rw [Cancellers.step]
    cases hbind : (s.canceller id).bind fun c => c.step s.stop s.sweep.isSome action with
    | none => exact h.woken
    | some c' =>
      obtain ⟨c, hc, hstep⟩ := Option.bind_eq_some_iff.mp hbind
      intro hstop id' c₀ hc₀ howner hasleep
      have hstop : s.stop = true := hstop
      by_cases hid : id' = id
      · subst hid
        simp only [Function.update_self] at hc₀
        obtain rfl := Option.some.inj hc₀
        rw [hstop] at hstep
        obtain ⟨hslept, hreading | ⟨rfl, hconstructing, hunlocked⟩⟩ :=
          StreamCanceller.step_asleep hstep hasleep howner
        · exact h.woken hstop id' c hc hreading hslept
        · -- registered too late, unless somebody is about to sweep
          have hunswept : s.sweep = none := by simpa using hunlocked
          rcases Nat.eq_zero_or_pos s.requesters with hnone | hpos
          · exact absurd hslept (hintime hstop hnone hunswept c hc hconstructing)
          · exact .inl hpos
      · simp only [Function.update_of_ne hid] at hc₀
        exact h.woken hstop id' c₀ hc₀ howner hasleep
  | requestStop => exact fun _ _ _ _ _ _ => .inl (Nat.succ_pos _)
  | beginSweep =>
    rw [Cancellers.step]
    split
    · intro hstop id c hc howner hasleep
      exact .inr ⟨s.registry, rfl, (h.registered id).mpr ⟨c, hc, howner⟩⟩
    · exact h.woken
  | notifyNext =>
    rw [Cancellers.step]
    split
    · rename_i id rest hsweep
      intro hstop id' c' hc' howner hasleep
      by_cases hid : id' = id
      · subst hid
        simp only [Function.update_self] at hc'
        obtain ⟨c, -, rfl⟩ := Option.map_eq_some_iff.mp hc'
        exact absurd hasleep c.notify_thread_ne
      · simp only [Function.update_of_ne hid] at hc'
        refine (h.woken hstop id' c' hc' howner hasleep).imp_right ?_
        rintro ⟨rest', hrest', hmem⟩
        rw [hsweep] at hrest'
        rw [← Option.some.inj hrest'] at hmem
        exact ⟨rest, rfl, (List.mem_cons.mp hmem).resolve_left hid⟩
    · rename_i hsweep
      intro hstop id' c' hc' howner hasleep
      refine (h.woken hstop id' c' hc' howner hasleep).imp_right ?_
      rintro ⟨rest', hrest', hmem⟩
      rw [hsweep] at hrest'
      rw [← Option.some.inj hrest'] at hmem
      cases hmem
    · exact h.woken

/-- A canceller that registers too late sleeps on. -/
private theorem missed_of_late {event : CancellerEvent} (hlate : ¬RegistersInTime s event) :
    ¬(s.step event).1.NoneMissed := by
  cases event with
  | construct | requestStop | beginSweep | notifyNext => exact absurd trivial hlate
  | own id action =>
    cases action with
    | deregister | setDone | notifyDone | join | check | act | wakeSpuriously =>
      exact absurd trivial hlate
    | register =>
      simp only [RegistersInTime, not_forall, not_not] at hlate
      obtain ⟨hstop, hrequesters, hsweep, c, hc, hconstructing, hasleep⟩ := hlate
      have hstep : c.step s.stop s.sweep.isSome .register = some { c with owner := .reading } := by
        simp [StreamCanceller.step, hconstructing, hsweep]
      have hbind : ((s.canceller id).bind fun c => c.step s.stop s.sweep.isSome .register) =
          some { c with owner := .reading } := by
        rw [hc]
        exact hstep
      intro hnone
      simp only [Cancellers.step, hbind] at hnone
      exact hnone hstop hrequesters hsweep id _ (Function.update_self _ _ _) rfl hasleep

end Cancellers

/-- **Who a stop reaches.** In every state of a run, a stopped client with no sweep to come has
no canceller of a running stream asleep, exactly if every step of the run that registers a
canceller registers one that is awake or that a sweep is still to come for. -/
theorem stop_reaches_everyone_iff (events : List CancellerEvent) :
    cancellerMachine.Always Cancellers.NoneMissed {} events ↔
      cancellerMachine.Throughout Cancellers.RegistersInTime {} events :=
  Machine.always_iff_throughout (M := cancellerMachine) (I := Cancellers.WakeInv)
    ⟨.start, by simp⟩ (fun _ => Cancellers.WakeInv.noneMissed)
    (fun _ _ h => h.step) (fun _ _ _ => Cancellers.missed_of_late)

/-- The thread of a new canceller goes to sleep, the client is stopped and sweeps a registry
that does not hold it yet, and only then is it registered. -/
def lateRegistration : List CancellerEvent :=
  [.construct 0, .own 0 .check, .requestStop, .beginSweep, .notifyNext, .own 0 .register]

example : (cancellerMachine.state {} lateRegistration).canceller 0 =
    some { thread := .asleep, owner := .reading } := by decide

/-- Whoever is missed sleeps until its own stream ends, the client is stopped once more, or it
wakes for no reason. -/
theorem missed_sleeps_on {s : Cancellers} {id : CancellerId} {c : StreamCanceller}
    (hc : s.canceller id = some c) (howner : c.owner = .reading) (hasleep : c.thread = .asleep)
    (hrequesters : s.requesters = 0) (hsweep : s.sweep = none) {events : List CancellerEvent}
    (hquiet : ∀ event ∈ events, event ≠ .requestStop ∧ event ≠ .own id .deregister ∧
      event ≠ .own id .wakeSpuriously) :
    (cancellerMachine.state s events).canceller id = some c ∧
      ⟨id⟩ ∉ cancellerMachine.output s events := by
  induction events generalizing s with
  | nil => exact ⟨hc, by simp⟩
  | cons event events ih =>
    obtain ⟨⟨hrequest, hderegister, hspurious⟩, hquiet⟩ := List.forall_mem_cons.mp hquiet
    have hstep : (s.step event).1.canceller id = some c ∧ (s.step event).1.requesters = 0 ∧
        (s.step event).1.sweep = none ∧ ⟨id⟩ ∉ (s.step event).2 := by
      cases event with
      | construct id' =>
        rw [Cancellers.step]
        cases hc' : s.canceller id' with
        | some _ => exact ⟨hc, hrequesters, hsweep, by simp⟩
        | none =>
          have hid : id ≠ id' := by
            rintro rfl
            cases hc.symm.trans hc'
          exact ⟨by simpa only [Function.update_of_ne hid] using hc, hrequesters, hsweep, by simp⟩
      | own id' action =>
        rw [Cancellers.step]
        cases hbind : (s.canceller id').bind fun c => c.step s.stop s.sweep.isSome action with
        | none => exact ⟨hc, hrequesters, hsweep, by simp⟩
        | some c' =>
          obtain ⟨c₀, hc₀, hown⟩ := Option.bind_eq_some_iff.mp hbind
          by_cases hid : id = id'
          · -- none of its own steps is possible
            subst hid
            obtain rfl := Option.some.inj (hc.symm.trans hc₀)
            cases action <;> simp [StreamCanceller.step, howner, hasleep] at hown <;> simp_all
          · refine ⟨by simpa only [Function.update_of_ne hid] using hc, hrequesters, hsweep, ?_⟩
            split <;> simp [hid]
      | requestStop => exact absurd rfl hrequest
      | beginSweep =>
        rw [Cancellers.step, if_neg (by omega)]
        exact ⟨hc, hrequesters, hsweep, by simp⟩
      | notifyNext =>
        rw [Cancellers.step, hsweep]
        exact ⟨hc, hrequesters, hsweep, by simp⟩
    obtain ⟨hc, hrequesters, hsweep, hout⟩ := hstep
    obtain ⟨hstate, hrest⟩ := ih hc hrequesters hsweep hquiet
    refine ⟨hstate, fun hmem => ?_⟩
    exact (List.mem_append.mp hmem).elim hout hrest

end Hermeneutic
