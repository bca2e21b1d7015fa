import Hermeneutic.Book.SymbolSync

/-!
# The action stream is well formed

What the stream of actions of a `SymbolSync` looks like, for any policy and any calls. An
action does not name the message it came from, so the statement is about a labelling of the
stream, a *trace* (`SyncEvent`): reading a trace, the *anchor* is the last snapshot or delta
applied since the last invalidation (`anchorAfter`), and a trace is well formed when every
delta finds an anchor that it continues (`WellFormed`).

The proof is a history invariant (`TraceInv`): the deltas of the trace followed by what is
still buffered are among the updates received, in order, so an update that was applied or
dropped is never seen again. Each constructor of `SyncStep` extends it.

Every clause of the result is a projection of that invariant: the anchors come from
well-formedness, the order and the multiplicity of the deltas from the sublist, and what a live
symbol's last id is from the last anchor. `WellFormed.bridge` is the one step that adds several
labels at once, for a snapshot with the tail of the buffer behind it, and it is an induction on
that tail.
-/

namespace Hermeneutic

/-- What the next delta has to continue. -/
inductive Anchor
  | snapshot (message : SnapshotMessage)
  | delta (update : DepthUpdate)

/-- The id an anchor stands for. -/
def Anchor.id : Anchor → UInt64
  | snapshot message => message.lastUpdateId
  | delta update => update.finalId

/-- The anchor after one more event. -/
def nextAnchor (anchor : Option Anchor) : SyncEvent → Option Anchor
  | .requestSnapshot => anchor
  | .applySnapshot snapshot => some (.snapshot snapshot)
  | .applyDelta update => some (.delta update)
  | .invalidateVenue => none

/-- The last snapshot or delta applied since the last invalidation. -/
def anchorAfter (trace : List SyncEvent) : Option Anchor :=
  trace.foldl nextAnchor none

/-- A delta continues a snapshot by bridging it or by being contiguous with its id, and a
delta by being contiguous with its final id. -/
def Continues (policy : SequencePolicy) (update : DepthUpdate) : Anchor → Prop
  | .snapshot message => policy.bridgesSnapshot update message ∨
      policy.isContiguous update message.lastUpdateId
  | .delta last => policy.isContiguous update last.finalId

/-- Every delta of the trace continues a snapshot or delta applied since the last
invalidation. -/
def WellFormed (policy : SequencePolicy) (trace : List SyncEvent) : Prop :=
  ∀ pre update post, trace = pre ++ .applyDelta update :: post →
    ∃ anchor, anchorAfter pre = some anchor ∧ Continues policy update anchor

/-- The updates a trace applies. -/
def deltas (trace : List SyncEvent) : List DepthUpdate :=
  trace.filterMap fun
    | .applyDelta update => some update
    | _ => none

/-- The snapshots a trace applies. -/
def snapshots (trace : List SyncEvent) : List SnapshotMessage :=
  trace.filterMap fun
    | .applySnapshot snapshot => some snapshot
    | _ => none

/-- The updates a run receives. -/
def receivedUpdates (inputs : List SyncInput) : List DepthUpdate :=
  inputs.filterMap fun
    | .depthUpdate update => some update
    | _ => none

/-- The snapshots a run receives. -/
def receivedSnapshots (inputs : List SyncInput) : List SnapshotMessage :=
  inputs.filterMap fun
    | .snapshot snapshot => some snapshot
    | _ => none

section Trace

variable {policy : SequencePolicy}

private theorem anchorAfter_append (trace events : List SyncEvent) :
    anchorAfter (trace ++ events) = events.foldl nextAnchor (anchorAfter trace) :=
  List.foldl_append

private theorem wellFormed_nil : WellFormed policy [] := by
  intro pre update post h
  simp at h

/-- A trace grows by one event, which must continue the anchor if it is a delta. -/
theorem WellFormed.concat {trace : List SyncEvent} {event : SyncEvent}
    (h : WellFormed policy trace)
    (hevent : ∀ update, event = .applyDelta update →
      ∃ anchor, anchorAfter trace = some anchor ∧ Continues policy update anchor) :
    WellFormed policy (trace ++ [event]) := by
  intro pre update post heq
  cases post using List.reverseRecOn with
  | nil =>
    obtain ⟨rfl, hlast⟩ := List.append_inj' heq rfl
    exact hevent update (List.head_eq_of_cons_eq hlast)
  | append_singleton post last =>
    rw [← List.cons_append, ← List.append_assoc] at heq
    exact h pre update post (List.append_inj' heq rfl).1

/-- Deltas that continue the anchor one after the other keep a trace well formed. -/
theorem WellFormed.chain {updates : List DepthUpdate} {trace : List SyncEvent} {last : DepthUpdate}
    (h : WellFormed policy trace) (hanchor : anchorAfter trace = some (.delta last))
    (hchain : Chained policy last.finalId updates) :
    WellFormed policy (trace ++ updates.map .applyDelta) ∧
      ∃ last', anchorAfter (trace ++ updates.map .applyDelta) = some (.delta last') ∧
        last'.finalId = lastId last.finalId updates := by
  induction updates generalizing trace last with
  | nil => exact ⟨by simpa using h, last, by simpa using hanchor, rfl⟩
  | cons update updates ih =>
    obtain ⟨hnext, hchain⟩ := hchain
    have hstep : WellFormed policy (trace ++ [.applyDelta update]) := by
      refine h.concat fun update' heq => ⟨.delta last, hanchor, ?_⟩
      obtain rfl := SyncEvent.applyDelta.inj heq
      exact hnext
    have hafter : anchorAfter (trace ++ [.applyDelta update]) = some (.delta update) := by
      rw [anchorAfter_append]
      rfl
    have hrest := ih hstep hafter hchain
    rw [List.map_cons, ← List.singleton_append, ← List.append_assoc]
    exact hrest

private theorem deltas_append (trace events : List SyncEvent) :
    deltas (trace ++ events) = deltas trace ++ deltas events :=
  List.filterMap_append

private theorem snapshots_append (trace events : List SyncEvent) :
    snapshots (trace ++ events) = snapshots trace ++ snapshots events :=
  List.filterMap_append

@[simp] theorem deltas_map_applyDelta (updates : List DepthUpdate) :
    deltas (updates.map .applyDelta) = updates := by
  simp [deltas]

@[simp] theorem snapshots_map_applyDelta (updates : List DepthUpdate) :
    snapshots (updates.map .applyDelta) = [] := by
  simp [snapshots]

end Trace

/-- What holds of the calls so far, the state and the trace of the emitted actions. -/
structure TraceInv (policy : SequencePolicy) (inputs : List SyncInput) (sync : SymbolSync)
    (trace : List SyncEvent) : Prop where
  wellFormed : WellFormed policy trace
  /-- What was applied and what is buffered arrived in this order. -/
  deltas_sublist : (deltas trace ++ sync.buffer).Sublist (receivedUpdates inputs)
  snapshots_sublist : (snapshots trace).Sublist (receivedSnapshots inputs)
  /-- A live symbol has nothing buffered and stands at its anchor. -/
  live : sync.state = .live → sync.buffer = [] ∧
    ∃ anchor, anchorAfter trace = some anchor ∧ sync.lastFinalId = anchor.id

section Inv

variable {policy : SequencePolicy}

private theorem traceInv_init : TraceInv policy [] {} [] where
  wellFormed := wellFormed_nil
  deltas_sublist := List.Sublist.refl []
  snapshots_sublist := List.Sublist.refl []
  live := by simp

/-- What a call applies and leaves buffered comes from the buffer and the call itself. -/
theorem SyncStep.deltas_sublist {sync sync' : SymbolSync} {input : SyncInput}
    {events : List SyncEvent} (hlive : sync.state = .live → sync.buffer = [])
    (hstep : SyncStep policy sync input sync' events) :
    (deltas events ++ sync'.buffer).Sublist (sync.buffer ++ receivedUpdates [input]) := by
  have hkept : ∀ snapshot, (kept policy sync.buffer snapshot).Sublist sync.buffer :=
    fun snapshot => List.filter_sublist
  cases hstep with
  | request | noRequest => exact List.sublist_append_left _ _
  | buffered => exact List.Sublist.refl _
  | delta hstate =>
    rw [hlive hstate]
    exact List.Sublist.refl _
  | deltaGap => exact List.Sublist.refl _
  | goLive _ hbuffer => exact List.sublist_append_left _ _
  | noBridgeGap | retry => exact (hkept _).trans (List.sublist_append_left _ _)
  | @bridged snapshot skipped tail bridge hsplit =>
    have htail : (bridge :: tail).Sublist (kept policy sync.buffer snapshot) := by
      rw [hsplit]
      exact List.sublist_append_right _ _
    have hdeltas : deltas (.applySnapshot snapshot :: (bridge :: tail).map .applyDelta) =
        bridge :: tail := deltas_map_applyDelta (bridge :: tail)
    rw [hdeltas, List.append_nil]
    exact (htail.trans (hkept snapshot)).trans (List.sublist_append_left _ _)
  | @bridgedGap snapshot skipped applied rest bridge next hsplit =>
    have htail : (bridge :: (applied ++ next :: rest)).Sublist
        (kept policy sync.buffer snapshot) := by
      rw [hsplit]
      exact List.sublist_append_right _ _
    have hdeltas : deltas (.applySnapshot snapshot ::
        ((bridge :: applied).map .applyDelta ++ [.invalidateVenue])) = bridge :: applied := by
      have := deltas_append ((bridge :: applied).map .applyDelta) [.invalidateVenue]
      rw [deltas_map_applyDelta] at this
      exact this.trans (List.append_nil _)
    rw [hdeltas]
    exact (htail.trans (hkept snapshot)).trans (List.sublist_append_left _ _)
  | disconnected => exact List.nil_sublist _

theorem SyncStep.snapshots_sublist {sync sync' : SymbolSync} {input : SyncInput}
    {events : List SyncEvent} (hstep : SyncStep policy sync input sync' events) :
    (snapshots events).Sublist (receivedSnapshots [input]) := by
  cases hstep with
  | @bridged snapshot skipped tail bridge =>
    have : snapshots (.applySnapshot snapshot :: (bridge :: tail).map .applyDelta) =
        [snapshot] :=
      congrArg (snapshot :: ·) (snapshots_map_applyDelta (bridge :: tail))
    rw [this]
    exact List.Sublist.refl _
  | @bridgedGap snapshot skipped applied rest bridge next =>
    have : snapshots (.applySnapshot snapshot ::
        ((bridge :: applied).map .applyDelta ++ [.invalidateVenue])) = [snapshot] := by
      have happend := snapshots_append ((bridge :: applied).map .applyDelta) [.invalidateVenue]
      rw [snapshots_map_applyDelta] at happend
      exact congrArg (snapshot :: ·) happend
    rw [this]
    exact List.Sublist.refl _
  | goLive => exact List.Sublist.refl _
  | _ => exact List.nil_sublist _

/-- A bridge and a contiguous run of updates after it extend a well-formed trace. -/
theorem WellFormed.bridge {trace : List SyncEvent} {snapshot : SnapshotMessage}
    {bridge : DepthUpdate} {applied : List DepthUpdate} (h : WellFormed policy trace)
    (hbridge : policy.bridgesSnapshot bridge snapshot)
    (hchain : Chained policy bridge.finalId applied) :
    WellFormed policy (trace ++ (.applySnapshot snapshot :: (bridge :: applied).map .applyDelta)) ∧
      ∃ last, anchorAfter (trace ++ (.applySnapshot snapshot ::
          (bridge :: applied).map .applyDelta)) = some (.delta last) ∧
        last.finalId = lastId bridge.finalId applied := by
  have hsnapshot : WellFormed policy (trace ++ [.applySnapshot snapshot]) :=
    h.concat (by simp)
  have hdelta : WellFormed policy (trace ++ [.applySnapshot snapshot] ++ [.applyDelta bridge]) := by
    refine hsnapshot.concat fun update heq => ⟨.snapshot snapshot, ?_, .inl ?_⟩
    · rw [anchorAfter_append]
      rfl
    · obtain rfl := SyncEvent.applyDelta.inj heq
      exact hbridge
  have hanchor : anchorAfter (trace ++ [.applySnapshot snapshot] ++ [.applyDelta bridge]) =
      some (.delta bridge) := by
    rw [anchorAfter_append]
    rfl
  have hrest := hdelta.chain hanchor hchain
  simpa only [List.append_assoc, List.singleton_append, List.map_cons, List.cons_append,
    List.nil_append] using hrest

/-- **Step lemma.** Every call extends the trace by the events it emits. -/
theorem TraceInv.step {inputs : List SyncInput} {sync sync' : SymbolSync}
    {trace events : List SyncEvent} {input : SyncInput} (h : TraceInv policy inputs sync trace)
    (hstep : SyncStep policy sync input sync' events) :
    TraceInv policy (inputs ++ [input]) sync' (trace ++ events) := by
  have hdeltas : (deltas (trace ++ events) ++ sync'.buffer).Sublist
      (receivedUpdates (inputs ++ [input])) := by
    have hreceived : receivedUpdates (inputs ++ [input]) =
        receivedUpdates inputs ++ receivedUpdates [input] := List.filterMap_append
    rw [deltas_append, hreceived, List.append_assoc]
    refine ((hstep.deltas_sublist fun hlive => (h.live hlive).1).append_left _).trans ?_
    rw [← List.append_assoc]
    exact h.deltas_sublist.append_right _
  have hsnapshots : (snapshots (trace ++ events)).Sublist
      (receivedSnapshots (inputs ++ [input])) := by
    have hreceived : receivedSnapshots (inputs ++ [input]) =
        receivedSnapshots inputs ++ receivedSnapshots [input] := List.filterMap_append
    rw [snapshots_append, hreceived]
    exact h.snapshots_sublist.append hstep.snapshots_sublist
  refine ⟨?_, hdeltas, hsnapshots, ?_⟩
  · cases hstep with
    | noRequest | buffered => simpa using h.wellFormed
    | delta hstate hnext =>
      refine h.wellFormed.concat fun update heq => ?_
      obtain rfl := SyncEvent.applyDelta.inj heq
      obtain ⟨-, anchor, hanchor, hid⟩ := h.live hstate
      refine ⟨anchor, hanchor, ?_⟩
      rw [hid] at hnext
      cases anchor with
      | snapshot message => exact .inr hnext
      | delta last => exact hnext
    | bridged _ _ hbridge hchain => exact (h.wellFormed.bridge hbridge hchain).1
    | bridgedGap _ _ hbridge hchain =>
      rw [← List.cons_append, ← List.append_assoc]
      exact (h.wellFormed.bridge hbridge hchain).1.concat (by simp)
    | request | deltaGap | goLive | noBridgeGap | retry | disconnected =>
      exact h.wellFormed.concat (by simp)
  · cases hstep with
    | request hstate => exact fun hlive => absurd (hstate.symm.trans hlive) (by decide)
    | buffered hstate => exact fun hlive => absurd (hstate.symm.trans hlive) (by decide)
    | noRequest =>
      intro hlive
      rw [List.append_nil]
      exact h.live hlive
    | retry =>
      intro hlive
      obtain ⟨hbuffer, hanchor⟩ := h.live hlive
      refine ⟨?_, ?_⟩
      · simp [kept, hbuffer]
      · rw [anchorAfter_append]
        exact hanchor
    | @delta update hstate =>
      refine fun _ => ⟨(h.live hstate).1, .delta update, ?_, rfl⟩
      rw [anchorAfter_append]
      rfl
    | @goLive snapshot _ hbuffer =>
      refine fun _ => ⟨hbuffer, .snapshot snapshot, ?_, rfl⟩
      rw [anchorAfter_append]
      rfl
    | bridged _ _ hbridge hchain =>
      obtain ⟨-, last, hanchor, hid⟩ := h.wellFormed.bridge hbridge hchain
      exact fun _ => ⟨rfl, .delta last, hanchor, hid.symm⟩
    | deltaGap | noBridgeGap | bridgedGap | disconnected => simp [gapped]

/-- Every run has a trace of its actions that satisfies the invariant. -/
theorem exists_traceInv (policy : SequencePolicy) (inputs : List SyncInput) :
    ∃ trace, trace.map SyncEvent.action = (syncMachine policy).output {} inputs ∧
      TraceInv policy inputs ((syncMachine policy).state {} inputs) trace := by
  refine Machine.run_induction (M := syncMachine policy) (s := {})
    (motive := fun inputs actions sync => ∃ trace, trace.map SyncEvent.action = actions ∧
      TraceInv policy inputs sync trace) ⟨[], rfl, traceInv_init⟩ ?_ inputs
  rintro inputs actions sync input ⟨trace, rfl, hinv⟩
  obtain ⟨events, hevents, hstep⟩ := step_syncStep policy sync input
  refine ⟨trace ++ events, ?_, hinv.step hstep⟩
  rw [List.map_append, ← hevents]
  rfl

/-- **The action stream is well formed**, for every policy and every sequence of calls. -/
theorem actions_wellFormed (policy : SequencePolicy) (inputs : List SyncInput) :
    ∃ trace, trace.map SyncEvent.action = (syncMachine policy).output {} inputs ∧
      WellFormed policy trace ∧
      (deltas trace).Sublist (receivedUpdates inputs) ∧
      (snapshots trace).Sublist (receivedSnapshots inputs) ∧
      let sync := (syncMachine policy).state {} inputs
      (sync.state = .live → sync.buffer = [] ∧
        ∃ anchor, anchorAfter trace = some anchor ∧ sync.lastFinalId = anchor.id) := by
  obtain ⟨trace, hactions, hinv⟩ := exists_traceInv policy inputs
  exact ⟨trace, hactions, hinv.wellFormed,
    (List.sublist_append_left _ _).trans hinv.deltas_sublist, hinv.snapshots_sublist, hinv.live⟩

end Inv

end Hermeneutic
