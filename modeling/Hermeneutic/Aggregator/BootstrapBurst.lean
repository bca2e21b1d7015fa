import Mathlib.Data.List.DropRight
import Mathlib.Data.List.TakeWhile
import Hermeneutic.Aggregator.SubscriberQueue
import Hermeneutic.ForMathlib.ListTraversal
import Hermeneutic.ForMathlib.Machine

/-!
# Bursts during a subscription

One `Close`-policy queue between the broadcasts that push into it and the thread that owns
it. The owner writes the initial snapshot, ends the bootstrap window and then drains over and
over (`OwnerOrder`); the pushes fall anywhere between its steps.

A push compares the whole backlog with the capacity in force (`pushed_iff`). The capacity
drops from `4 * C` to `C` at `end_bootstrap`, while the backlog stays until the first drain,
so a burst that the bootstrap window admitted can close the queue at the next push.
`burst_healthy_iff` is the exact condition under which it does not.

The events are the steps of the owner and the pushes of everybody else, and the result is about
every interleaving of the two. `capacityAfter` and `pending` say, for a prefix of the run, which
capacity is in force and how much has been pushed since the last drain; a push succeeds exactly if
there is room by these (`Room`). `room_iff` turns this into a condition on the bursts: only a push
between `end_bootstrap` and the first drain can fail, where the tight capacity meets what the wide
one took. An owner that has not been pushed out then sees every update once and in order.
-/

namespace Hermeneutic

/-- A step of either thread on one queue. -/
inductive QueueEvent (T : Type*)
  /-- A broadcast pushes an update. -/
  | push (update : T)
  /-- The `Write()` of the initial snapshot returns. -/
  | write
  | endBootstrap
  | drain
  deriving DecidableEq

namespace QueueEvent

variable {T : Type*}

def isOwner : QueueEvent T → Bool
  | push _ => false
  | _ => true

def isEndBootstrap : QueueEvent T → Bool
  | endBootstrap => true
  | _ => false

def isDrain : QueueEvent T → Bool
  | drain => true
  | _ => false

/-- The update an event pushes, if it is a push. -/
def update? : QueueEvent T → Option T
  | push update => some update
  | _ => none

end QueueEvent

/-- What the queue answers. -/
inductive QueueReply (T : Type*)
  | push (result : PushResult)
  | drain (result : DrainResult T)

namespace SubscriberQueue

variable {T : Type*}

/-- A queue under the steps of both threads. -/
def eventStep (q : SubscriberQueue T) : QueueEvent T → SubscriberQueue T × List (QueueReply T)
  | .push update => ((q.pushOrClose update).2, [.push (q.pushOrClose update).1])
  | .write => (q, [])
  | .endBootstrap => (q.endBootstrap, [])
  | .drain => (q.waitAndDrain.2, [.drain q.waitAndDrain.1])

end SubscriberQueue

def queueMachine (T : Type*) : Machine (SubscriberQueue T) (QueueEvent T) (QueueReply T) where
  step := SubscriberQueue.eventStep

section Bursts

variable {T : Type*} {C : ℕ} {es : List (QueueEvent T)}

/-- The queue as it is registered. -/
def freshQueue (T : Type*) (C : ℕ) : SubscriberQueue T where
  capacity := C
  overflowPolicy := .close

/-- The updates pushed, in order. -/
def pushes (es : List (QueueEvent T)) : List T := es.filterMap QueueEvent.update?

/-- The updates pushed since the last drain. -/
def pending (es : List (QueueEvent T)) : List T := pushes (es.rtakeWhile fun e => !e.isDrain)

/-- The updates pushed before the first drain. -/
def beforeDrain (es : List (QueueEvent T)) : List T := pushes (es.takeWhile fun e => !e.isDrain)

/-- Those of them pushed after `end_bootstrap`. -/
def firstWindow (es : List (QueueEvent T)) : List T :=
  pushes ((es.takeWhile fun e => !e.isDrain).dropWhile fun e => !e.isEndBootstrap)

/-- The updates a drain hands out. -/
def QueueReply.out : QueueReply T → List T
  | drain (.drained out) => out
  | _ => []

/-- The updates drained, in order. -/
def drainedUpdates (replies : List (QueueReply T)) : List T := replies.flatMap QueueReply.out

/-- The owner's steps come in the order its code has them. -/
def OwnerOrder (es : List (QueueEvent T)) : Prop :=
  ∃ n, es.filter QueueEvent.isOwner <+: .write :: .endBootstrap :: List.replicate n .drain

/-- The bursts the queue is meant to take: four times the capacity before `end_bootstrap`, and
the capacity in every stretch without a drain after it. -/
structure BurstsWithin (C : ℕ) (es : List (QueueEvent T)) : Prop where
  early : ∀ pre, pre <+: es → pre.any QueueEvent.isEndBootstrap = false →
    (pushes pre).length ≤ C * kBootstrapCapacityMultiplier
  later : ∀ pre mid, pre ++ mid <+: es → pre.any QueueEvent.isEndBootstrap = true →
    mid.any QueueEvent.isDrain = false → (pushes mid).length ≤ C

/-- A stream that is never closed: every push is queued, and a drain takes out everything
pushed so far that was not, in order. -/
structure Healthy (C : ℕ) (es : List (QueueEvent T)) : Prop where
  pushed : ∀ r, .push r ∈ (queueMachine T).output (freshQueue T C) es → r = .pushed
  drained : ∀ pre, pre ++ [.drain] <+: es →
    drainedUpdates ((queueMachine T).output (freshQueue T C) (pre ++ [.drain])) = pushes pre

@[simp] theorem pushes_nil : pushes ([] : List (QueueEvent T)) = [] := rfl

@[simp] theorem pushes_append (es es' : List (QueueEvent T)) :
    pushes (es ++ es') = pushes es ++ pushes es' :=
  List.filterMap_append

private theorem pending_push (es : List (QueueEvent T)) (update : T) :
    pending (es ++ [.push update]) = pending es ++ [update] := by
  rw [pending, List.rtakeWhile_concat_pos _ _ _ rfl, pushes_append]
  rfl

private theorem pending_drain (es : List (QueueEvent T)) : pending (es ++ [.drain]) = [] := by
  rw [pending, List.rtakeWhile_concat_neg _ _ _ (by simp [QueueEvent.isDrain])]
  rfl

/-- An event that pushes nothing and drains nothing. -/
private theorem pending_silent (es : List (QueueEvent T)) {e : QueueEvent T}
    (hdrain : e.isDrain = false)
    (hpush : e.update? = none) : pending (es ++ [e]) = pending es := by
  rw [pending, List.rtakeWhile_concat_pos _ _ _ (by simp [hdrain]), pushes_append]
  simp [pushes, hpush, pending]

private theorem pending_of_no_drain (h : es.any QueueEvent.isDrain = false) :
    pending es = pushes es := by
  rw [pending, List.rtakeWhile_eq_self_iff.mpr]
  intro e he
  rw [List.any_eq_false] at h
  simpa using h e he

/-- After a drain only what comes behind it is pending. -/
private theorem pending_after_drain (pre : List (QueueEvent T)) {mid : List (QueueEvent T)}
    (h : mid.any QueueEvent.isDrain = false) : pending (pre ++ [.drain] ++ mid) = pushes mid := by
  induction mid using List.reverseRecOn with
  | nil => rw [List.append_nil, pending_drain, pushes_nil]
  | append_singleton mid e ih =>
    rw [List.any_append, Bool.or_eq_false_iff] at h
    have hdrain : e.isDrain = false := by simpa using h.2
    rw [← List.append_assoc, pending, List.rtakeWhile_concat_pos _ _ _ (by simp [hdrain]),
      pushes_append, pushes_append]
    exact congrArg (· ++ pushes [e]) (ih h.1)

/-! ### What a push finds -/

/-- The capacity in force after the given events. -/
def capacityAfter (C : ℕ) (es : List (QueueEvent T)) : ℕ :=
  if es.any QueueEvent.isEndBootstrap then C else C * kBootstrapCapacityMultiplier

/-- Every push finds room. -/
def Room (C : ℕ) (es : List (QueueEvent T)) : Prop :=
  ∀ pre update, pre ++ [.push update] <+: es → (pending pre).length < capacityAfter C pre

theorem Room.initial {pre : List (QueueEvent T)} (h : Room C es) (hpre : pre <+: es) :
    Room C pre := fun pre' update hpre' => h pre' update (hpre'.trans hpre)

/-- The queue that has taken in every push so far. -/
def openQueue (C : ℕ) (es : List (QueueEvent T)) : SubscriberQueue T where
  capacity := C
  overflowPolicy := .close
  queue := pending es
  bootstrapping := !es.any QueueEvent.isEndBootstrap

private theorem openQueue_effectiveCapacity (C : ℕ) (es : List (QueueEvent T)) :
    (openQueue C es).effectiveCapacity = capacityAfter C es := by
  rw [SubscriberQueue.effectiveCapacity, capacityAfter, openQueue]
  cases es.any QueueEvent.isEndBootstrap <;> rfl

/-- A push is queued exactly when the whole backlog is below the capacity in force. -/
private theorem openQueue_push (C : ℕ) (es : List (QueueEvent T)) (update : T) :
    if (pending es).length < capacityAfter C es then
      (openQueue C es).pushOrClose update =
        (.pushed, openQueue C (es ++ [.push update]))
    else ((openQueue C es).pushOrClose update).1 = .closedNow := by
  have hopen : ¬ (openQueue C es).closed = true := by simp [openQueue]
  have hqueue : pending es = (openQueue C es).queue := rfl
  rw [← openQueue_effectiveCapacity, hqueue, SubscriberQueue.pushOrClose, if_neg hopen]
  split
  · rename_i hroom
    rw [if_neg (Nat.not_le.mpr hroom)]
    simp [openQueue, pending_push, QueueEvent.isEndBootstrap]
  · rename_i hfull
    rw [if_pos (Nat.le_of_not_lt hfull)]
    simp [openQueue]

/-- A drain of an open queue hands out what is pending and leaves nothing. -/
private theorem openQueue_drain (C : ℕ) (es : List (QueueEvent T)) :
    (openQueue C es).waitAndDrain.2 = openQueue C (es ++ [.drain]) ∧
      (QueueReply.drain (openQueue C es).waitAndDrain.1).out = pending es := by
  have hnext : openQueue C (es ++ [.drain]) = { openQueue C es with queue := [] } := by
    simp [openQueue, pending_drain, QueueEvent.isEndBootstrap]
  rw [hnext, SubscriberQueue.waitAndDrain, if_neg (by simp [openQueue])]
  cases hpending : pending es with
  | nil => simp [openQueue, hpending, QueueReply.out]
  | cons update rest => simp [openQueue, hpending, QueueReply.out]

/-- **Step lemma.** A queue that has taken in every push, and finds room for the next one if
there is one, goes on doing so; what a drain hands out is what was pending. -/
theorem openQueue_step {es : List (QueueEvent T)} {e : QueueEvent T}
    (hroom : ∀ update, e = .push update → (pending es).length < capacityAfter C es) :
    ((queueMachine T).step (openQueue C es) e).1 = openQueue C (es ++ [e]) ∧
      (∀ r, .push r ∈ ((queueMachine T).step (openQueue C es) e).2 → r = .pushed) ∧
      drainedUpdates ((queueMachine T).step (openQueue C es) e).2 ++ pending (es ++ [e]) =
        pending es ++ pushes [e] := by
  cases e with
  | push update =>
    have hpush := (if_pos (hroom update rfl)).mp (openQueue_push C es update)
    have hstep : (queueMachine T).step (openQueue C es) (.push update) =
        (openQueue C (es ++ [.push update]), [.push .pushed]) := by
      simp only [queueMachine, SubscriberQueue.eventStep, hpush]
    rw [hstep]
    refine ⟨rfl, fun r hr => ?_, ?_⟩
    · obtain rfl := QueueReply.push.inj (List.mem_singleton.mp hr)
      rfl
    · rw [pending_push]
      rfl
  | write =>
    refine ⟨?_, fun r hr => absurd hr (by simp [queueMachine, SubscriberQueue.eventStep]), ?_⟩
    · simp [queueMachine, SubscriberQueue.eventStep, openQueue, QueueEvent.isEndBootstrap,
        pending_silent es (e := .write) rfl rfl]
    · rw [pending_silent es rfl rfl]
      exact (List.append_nil _).symm
  | endBootstrap =>
    refine ⟨?_, fun r hr => absurd hr (by simp [queueMachine, SubscriberQueue.eventStep]), ?_⟩
    · simp [queueMachine, SubscriberQueue.eventStep, SubscriberQueue.endBootstrap, openQueue,
        QueueEvent.isEndBootstrap, pending_silent es (e := .endBootstrap) rfl rfl]
    · rw [pending_silent es rfl rfl]
      exact (List.append_nil _).symm
  | drain =>
    obtain ⟨hqueue, hout⟩ := openQueue_drain C es
    refine ⟨hqueue, fun r hr => absurd hr (by simp [queueMachine, SubscriberQueue.eventStep]), ?_⟩
    rw [pending_drain, List.append_nil]
    refine Eq.trans ?_ (List.append_nil _).symm
    simpa [queueMachine, SubscriberQueue.eventStep, drainedUpdates] using hout

/-- What a run leaves when every push has found room: the open queue, no push refused, and
everything pushed either drained, in order, or pending. -/
structure TakenIn (C : ℕ) (es : List (QueueEvent T)) : Prop where
  state : (queueMachine T).state (freshQueue T C) es = openQueue C es
  pushed : ∀ r, .push r ∈ (queueMachine T).output (freshQueue T C) es → r = .pushed
  drained : drainedUpdates ((queueMachine T).output (freshQueue T C) es) ++ pending es = pushes es

/-- **Run lemma.** -/
theorem Room.takenIn (h : Room C es) : TakenIn C es := by
  induction es using List.reverseRecOn with
  | nil => exact ⟨rfl, by simp, rfl⟩
  | append_singleton es e ih =>
    have hes := ih (h.initial (List.prefix_append _ _))
    obtain ⟨hstate, hpushed, hdrained⟩ := @openQueue_step _ C es e fun update he =>
      h es update (he ▸ List.prefix_rfl)
    refine ⟨?_, fun r hr => ?_, ?_⟩
    · rw [Machine.state_concat, hes.state, hstate]
    · rw [Machine.output_concat, hes.state] at hr
      rcases List.mem_append.mp hr with hr | hr
      · exact hes.pushed r hr
      · exact hpushed r hr
    · rw [Machine.output_concat, hes.state, pushes_append, ← hes.drained, List.append_assoc,
        ← hdrained, ← List.append_assoc]
      simp [drainedUpdates]

/-- Only a run whose pushes all find room has none refused. -/
private theorem room_of_pushed
    (h : ∀ r, .push r ∈ (queueMachine T).output (freshQueue T C) es → r = .pushed) :
    Room C es := by
  induction es using List.reverseRecOn with
  | nil =>
    intro pre update hpre
    simp at hpre
  | append_singleton es e ih =>
    rw [Machine.output_concat] at h
    have hroom := ih fun r hr => h r (List.mem_append_left _ hr)
    intro pre update hpre
    rcases concat_initial_concat_iff.mp hpre with ⟨rfl, rfl⟩ | hpre
    · by_contra hfull
      -- up to here every push has found room, so the queue is open and refuses this one
      have hclosed := (if_neg hfull).mp (openQueue_push C pre update)
      have hreply := h ((openQueue C pre).pushOrClose update).1 <| List.mem_append_right _ <| by
        rw [hroom.takenIn.state]
        exact List.mem_singleton.mpr rfl
      rw [hclosed] at hreply
      exact absurd hreply (by decide)
    · exact hroom pre update hpre

/-- A stream is healthy exactly when every push finds room. -/
private theorem healthy_iff_room : Healthy C es ↔ Room C es := by
  refine ⟨fun h => room_of_pushed h.pushed, fun h => ⟨h.takenIn.pushed, fun pre hpre => ?_⟩⟩
  have hdrained := (h.initial hpre).takenIn.drained
  rw [pending_drain, List.append_nil, pushes_append] at hdrained
  exact hdrained.trans (List.append_nil _)

/-! ### When every push finds room -/

/-- The owner drains only after it has ended the bootstrap window. -/
private theorem OwnerOrder.drain_after {pre : List (QueueEvent T)} (h : OwnerOrder es)
    (hpre : pre ++ [.drain] <+: es) : pre.any QueueEvent.isEndBootstrap = true := by
  obtain ⟨n, hn⟩ := h
  have howner := (hpre.filter QueueEvent.isOwner).trans hn
  rw [List.filter_append] at howner
  have hdrain : [QueueEvent.drain].filter (QueueEvent.isOwner (T := T)) = [.drain] := rfl
  rw [hdrain] at howner
  rw [List.any_eq_true]
  cases hfilter : pre.filter QueueEvent.isOwner with
  | nil => simp [hfilter] at howner
  | cons first rest =>
    cases rest with
    | nil => simp [hfilter] at howner
    | cons second rest =>
      simp only [hfilter, List.cons_append, List.cons_prefix_cons] at howner
      have hmem : second ∈ pre.filter QueueEvent.isOwner := by simp [hfilter]
      exact ⟨second, (List.mem_filter.mp hmem).1, by rw [howner.2.1]; rfl⟩

private theorem isDrain_iff {e : QueueEvent T} : e.isDrain = true ↔ e = .drain := by
  cases e <;> simp [QueueEvent.isDrain]

private theorem update?_eq_some {e : QueueEvent T} {update : T} :
    e.update? = some update ↔ e = .push update := by
  cases e <;> simp [QueueEvent.update?]

/-- Until the bootstrap window ends nothing is drained. -/
private theorem OwnerOrder.no_drain {pre : List (QueueEvent T)} (h : OwnerOrder es)
    (hpre : pre <+: es)
    (hboot : pre.any QueueEvent.isEndBootstrap = false) : pre.any QueueEvent.isDrain = false := by
  rw [Bool.eq_false_iff]
  intro hdrain
  obtain ⟨e, he, hedrain⟩ := List.any_eq_true.mp hdrain
  obtain rfl := isDrain_iff.mp hedrain
  obtain ⟨before, after, rfl⟩ := List.append_of_mem he
  have hbefore := @OwnerOrder.drain_after _ _ before h
    ((List.prefix_append (before ++ [.drain]) after).trans (by simpa using hpre))
  rw [List.any_append, hbefore] at hboot
  simp at hboot

/-- Where the last drain is. -/
private theorem exists_last_drain (h : es.any QueueEvent.isDrain = true) :
    ∃ pre mid, es = pre ++ [.drain] ++ mid ∧ mid.any QueueEvent.isDrain = false := by
  induction es using List.reverseRecOn with
  | nil => simp at h
  | append_singleton es e ih =>
    by_cases hdrain : e.isDrain = true
    · obtain rfl := isDrain_iff.mp hdrain
      exact ⟨es, [], (List.append_nil _).symm, rfl⟩
    · rw [List.any_append, Bool.or_eq_true] at h
      obtain ⟨pre, mid, rfl, hmid⟩ := ih (h.resolve_right (by simpa using hdrain))
      refine ⟨pre, mid ++ [e], List.append_assoc .., ?_⟩
      rw [List.any_append, hmid]
      simpa using hdrain

/-- Where the last push is. -/
private theorem exists_last_push (h : pushes es ≠ []) :
    ∃ pre update post, es = pre ++ [.push update] ++ post ∧ pushes post = [] := by
  induction es using List.reverseRecOn with
  | nil => exact absurd rfl h
  | append_singleton es e ih =>
    cases hupdate : e.update? with
    | some update =>
      obtain rfl := update?_eq_some.mp hupdate
      exact ⟨es, update, [], (List.append_nil _).symm, rfl⟩
    | none =>
      have hnone : pushes [e] = [] := by simp [pushes, hupdate]
      rw [pushes_append, hnone, List.append_nil] at h
      obtain ⟨pre, update, post, rfl, hpost⟩ := ih h
      exact ⟨pre, update, post ++ [e], List.append_assoc .., by
        rw [pushes_append, hpost, hnone, List.append_nil]⟩

/-- What is dropped stops at an event that fails the test. -/
private theorem eq_false_of_dropWhile {p : QueueEvent T → Bool} {e : QueueEvent T}
    {rest : List (QueueEvent T)} (h : es.dropWhile p = e :: rest) : p e = false := by
  have hhead := List.head_dropWhile_not p (l := es) (by simp [h])
  simpa only [h, List.head_cons] using hhead

/-- Something is left from `end_bootstrap` on. -/
private theorem kept_of_any (h : es.any QueueEvent.isEndBootstrap = true) :
    es.dropWhile (fun e => !e.isEndBootstrap) ≠ [] := by
  obtain ⟨e, he, hboot⟩ := List.any_eq_true.mp h
  intro hnil
  have hdropped := List.dropWhile_eq_nil_iff.mp hnil e he
  simp [hboot] at hdropped

/-- With room for every push, a push between `end_bootstrap` and the first drain leaves all that
come before that drain within the capacity. -/
private theorem Room.beforeDrain_le (hroom : Room C es) (hwindow : firstWindow es ≠ []) :
    (beforeDrain es).length ≤ C := by
  rw [firstWindow] at hwindow
  rw [beforeDrain]
  have hinit := List.takeWhile_prefix (l := es) fun e => !e.isDrain
  have hnone : (es.takeWhile fun e => !e.isDrain).any QueueEvent.isDrain = false := by
    rw [List.any_eq_false]
    exact fun e he => by simpa using List.mem_takeWhile_imp he
  generalize es.takeWhile (fun e => !e.isDrain) = first at hwindow hinit hnone ⊢
  obtain ⟨pre, update, post, hsplit, hpost⟩ := exists_last_push hwindow
  -- the window starts with `end_bootstrap`, so that lies before its last push
  have hboot : pre.any QueueEvent.isEndBootstrap = true := by
    cases pre with
    | nil => exact absurd (eq_false_of_dropWhile hsplit) (by simp [QueueEvent.isEndBootstrap])
    | cons e pre =>
      have he : e.isEndBootstrap = true := by simpa using eq_false_of_dropWhile hsplit
      rw [List.any_cons, he, Bool.true_or]
  obtain ⟨all, hall, hfirst⟩ : ∃ all, all.any QueueEvent.isEndBootstrap = true ∧
      first = all ++ [.push update] ++ post := by
    refine ⟨first.takeWhile (fun e => !e.isEndBootstrap) ++ pre, ?_, ?_⟩
    · rw [List.any_append, hboot, Bool.or_true]
    · rw [List.append_assoc, List.append_assoc, ← List.append_assoc pre, ← hsplit,
        List.takeWhile_append_dropWhile]
  subst hfirst
  -- that push finds everything before it still in the queue
  have hlast := hroom all update ((List.prefix_append _ _).trans hinit)
  have hdrain : all.any QueueEvent.isDrain = false := by
    simp only [List.any_append, Bool.or_eq_false_iff] at hnone
    exact hnone.1.1
  rw [pending_of_no_drain hdrain, capacityAfter, if_pos hall] at hlast
  rw [pushes_append, pushes_append, hpost, List.append_nil, List.length_append]
  exact hlast

/-- **The exact bound.** Within the bursts the queue is meant to take, every push finds room
exactly when none falls between `end_bootstrap` and the first drain, or the capacity covers all
that come before that drain. -/
theorem room_iff (horder : OwnerOrder es) (hbursts : BurstsWithin C es) :
    Room C es ↔ firstWindow es = [] ∨ (beforeDrain es).length ≤ C := by
  refine ⟨fun hroom => or_iff_not_imp_left.mpr hroom.beforeDrain_le, fun h => ?_⟩
  intro pre update hpre
  have hpre' := (List.prefix_append pre [.push update]).trans hpre
  rw [capacityAfter]
  cases hboot : pre.any QueueEvent.isEndBootstrap with
  | false =>
    -- still bootstrapping: nothing has been drained, and all of it is an early burst
    have hearly := hbursts.early (pre ++ [.push update]) hpre (by
      rw [List.any_append, hboot]
      rfl)
    rw [pushes_append, List.length_append] at hearly
    rw [pending_of_no_drain (horder.no_drain hpre' hboot), if_neg (by simp)]
    exact hearly
  | true =>
    rw [if_pos rfl]
    cases hdrain : pre.any QueueEvent.isDrain with
    | true =>
      -- since the last drain no more than a later burst has come
      obtain ⟨before, mid, rfl, hmid⟩ := exists_last_drain hdrain
      have hafter := @OwnerOrder.drain_after _ _ before horder
        ((List.prefix_append (before ++ [.drain]) (mid ++ [.push update])).trans
          (by simpa using hpre))
      have hlater := hbursts.later (before ++ [.drain]) (mid ++ [.push update])
        (by simpa using hpre) (by rw [List.any_append, hafter, Bool.true_or]) (by
          rw [List.any_append, hmid]
          rfl)
      rw [pushes_append, List.length_append] at hlater
      rw [pending_after_drain before hmid]
      exact hlater
    | false =>
      -- between `end_bootstrap` and the first drain everything pushed is in the queue
      obtain ⟨post, rfl⟩ := hpre
      have hfirst : (pre ++ [QueueEvent.push update] ++ post).takeWhile (fun e => !e.isDrain) =
          pre ++ [.push update] ++ post.takeWhile fun e => !e.isDrain := by
        refine List.takeWhile_append_of_pos fun e he => ?_
        rcases List.mem_append.mp he with he | he
        · simpa using List.any_eq_false.mp hdrain e he
        · obtain rfl := List.mem_singleton.mp he
          rfl
      have hwindow : firstWindow (pre ++ [.push update] ++ post) ≠ [] := by
        rw [firstWindow, hfirst, List.append_assoc, List.dropWhile_append,
          if_neg (by simpa using kept_of_any hboot)]
        simp [pushes, QueueEvent.update?]
      have hle := h.resolve_left hwindow
      rw [beforeDrain, hfirst, pushes_append, pushes_append, List.length_append,
        List.length_append] at hle
      have hone : (pushes [QueueEvent.push update]).length = 1 := rfl
      rw [pending_of_no_drain hdrain]
      omega

/-- **When a burst does not close a healthy stream.** For every interleaving of pushes with the
owner's steps, within the bursts the queue is meant to take: no push is refused and everything
pushed is drained in order, exactly when nothing is pushed between `end_bootstrap` and the first
drain or the capacity covers all that is pushed before that drain. -/
theorem burst_healthy_iff (C : ℕ) (es : List (QueueEvent T)) (horder : OwnerOrder es)
    (hbursts : BurstsWithin C es) :
    Healthy C es ↔ firstWindow es = [] ∨ (beforeDrain es).length ≤ C := by
  rw [healthy_iff_room, room_iff horder hbursts]

/-- Few pushes in all, and few after the bootstrap window, make no burst too large. -/
private theorem BurstsWithin.of_le (hearly : (pushes es).length ≤ C * kBootstrapCapacityMultiplier)
    (hlater : (pushes (es.dropWhile fun e => !e.isEndBootstrap)).length ≤ C) :
    BurstsWithin C es := by
  constructor
  · rintro pre ⟨post, rfl⟩ -
    rw [pushes_append, List.length_append] at hearly
    omega
  · rintro pre mid ⟨post, rfl⟩ hboot -
    rw [List.append_assoc, List.dropWhile_append, if_neg (by simpa using kept_of_any hboot),
      pushes_append, pushes_append, List.length_append, List.length_append] at hlater
    omega

end Bursts

/-- A queue of capacity one, with one update before its first drain and one after it. -/
def drainedBurst : List (QueueEvent ℕ) :=
  [.push 0, .write, .endBootstrap, .drain, .push 1, .drain]

theorem burst_healthy_iff_sample :
    OwnerOrder drainedBurst ∧ BurstsWithin 1 drainedBurst ∧
      (Healthy 1 drainedBurst ↔
        firstWindow drainedBurst = [] ∨ (beforeDrain drainedBurst).length ≤ 1) := by
  have horder : OwnerOrder drainedBurst := ⟨2, by decide⟩
  have hbursts : BurstsWithin 1 drainedBurst := .of_le (by decide) (by decide)
  exact ⟨horder, hbursts, burst_healthy_iff 1 drainedBurst horder hbursts⟩

/-- A queue of capacity one, with one update before the bootstrap window ends and one between
its end and the first drain. -/
def closingBurst : List (QueueEvent ℕ) := [.push 0, .write, .endBootstrap, .push 1, .drain]

/-- **An ordinary burst closes the stream.** One update within the capacity before
`end_bootstrap`, one after it: the second push closes the queue, and both are lost. -/
theorem burst_closes_counterexample :
    OwnerOrder closingBurst ∧ BurstsWithin 1 closingBurst ∧
      (queueMachine ℕ).output (freshQueue ℕ 1) closingBurst =
        [.push .pushed, .push .closedNow, .drain .closed] ∧
      ¬ Healthy 1 closingBurst := by
  have hreplies : (queueMachine ℕ).output (freshQueue ℕ 1) closingBurst =
      [.push .pushed, .push .closedNow, .drain .closed] := rfl
  refine ⟨⟨1, by decide⟩, .of_le (by decide) (by decide), hreplies, fun h => ?_⟩
  have hpushed := h.pushed .closedNow (by simp [hreplies])
  exact absurd hpushed (by decide)

end Hermeneutic
