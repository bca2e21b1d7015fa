import Mathlib.Algebra.BigOperators.Group.List.Basic
import Mathlib.Data.List.Infix
import Mathlib.Data.Set.Basic
import Mathlib.Tactic.Linarith

/-!
# Runs of a deterministic machine with outputs

A `Machine` is a step function: fed one event in one state it returns the next state and
the outputs it produced on the way. A *run* is a list of events, and every list of events
is one; an event that cannot happen in a state is a step that changes nothing.

Two quantifiers over a run recur: `Always P s es`, every state reached from `s` along `es`
satisfies `P`, and `Throughout C s es`, every step of the run is taken under the condition
`C` on the state before it and the event. The rules that connect them to single steps are

* `invariant`: a predicate kept by every step holds after every run;
* `run_induction`: the same for a predicate that also sees the events and outputs so far;
* `project`: a run seen through a view is a run of what can be seen;
* `amortize`: outputs that make up for a potential at every step do so over a run;
* `always_of_throughout`, `always_iff_throughout` and `always_iff_throughout_under`: a predicate
  kept by the steps that meet a condition, one that is also lost by any step that misses it,
  and the same on the runs that meet a further condition;
* `alwaysAfter_iff_throughout`: the same for a predicate that also sees the events so far.
-/

namespace Hermeneutic

/-- A deterministic machine over states `σ`, fed events `ε`, producing outputs `α`. -/
structure Machine (σ ε α : Type*) where
  /-- One step: the next state, and the outputs produced in order. -/
  step : σ → ε → σ × List α

namespace Machine

variable {σ ε α : Type*} (M : Machine σ ε α)

/-- The state after a run. -/
def state (s : σ) (es : List ε) : σ :=
  es.foldl (fun s e => (M.step s e).1) s

/-- The concatenated outputs of a run. -/
def output : σ → List ε → List α
  | _, [] => []
  | s, e :: es => (M.step s e).2 ++ output (M.step s e).1 es

@[simp] theorem state_nil (s : σ) : M.state s [] = s := rfl

@[simp] theorem state_cons (s : σ) (e : ε) (es : List ε) :
    M.state s (e :: es) = M.state (M.step s e).1 es := rfl

@[simp] theorem output_nil (s : σ) : M.output s [] = [] := rfl

@[simp] theorem output_cons (s : σ) (e : ε) (es : List ε) :
    M.output s (e :: es) = (M.step s e).2 ++ M.output (M.step s e).1 es := rfl

theorem state_append (s : σ) (es es' : List ε) :
    M.state s (es ++ es') = M.state (M.state s es) es' := by
  simp only [state, List.foldl_append]

theorem output_append (s : σ) (es es' : List ε) :
    M.output s (es ++ es') = M.output s es ++ M.output (M.state s es) es' := by
  induction es generalizing s with
  | nil => simp
  | cons e es ih => simp [ih]

/-- The last step of a run. -/
theorem state_concat (s : σ) (es : List ε) (e : ε) :
    M.state s (es ++ [e]) = (M.step (M.state s es) e).1 := by
  rw [state_append, state_cons, state_nil]

theorem output_concat (s : σ) (es : List ε) (e : ε) :
    M.output s (es ++ [e]) = M.output s es ++ (M.step (M.state s es) e).2 := by
  rw [output_append, output_cons, output_nil, List.append_nil]

/-- Where a step outputs one thing at most, what was output at some point of a run was output
by a part of it. -/
theorem exists_initial_of_output (hstep : ∀ s e, (M.step s e).2.length ≤ 1) {s : σ}
    {es : List ε} {out : List α} (hout : out <+: M.output s es) :
    ∃ pre, pre <+: es ∧ M.output s pre = out := by
  induction es using List.reverseRecOn generalizing out with
  | nil => exact ⟨[], List.prefix_rfl, (List.prefix_nil.mp hout).symm⟩
  | append_singleton es e ih =>
    have hlast := hstep (M.state s es) e
    rw [output_concat] at hout
    have hcases : out = M.output s (es ++ [e]) ∨ out <+: M.output s es := by
      rw [output_concat]
      match hnew : (M.step (M.state s es) e).2 with
      | [] => exact .inr (by simpa [hnew] using hout)
      | [a] => exact List.prefix_concat_iff.mp (by simpa [hnew] using hout)
      | _ :: _ :: _ => simp [hnew] at hlast
    rcases hcases with rfl | hout
    · exact ⟨_, List.prefix_rfl, rfl⟩
    · obtain ⟨pre, hpre, heq⟩ := ih hout
      exact ⟨pre, hpre.trans (List.prefix_append _ _), heq⟩

/-- **Projection of runs.** If every step of a machine, seen through `view` and `observe`, is
the step of another machine under the translated event, or no step at all where the event has
no translation, then every run is seen as the other machine's run of the translated events. -/
theorem project {τ ε' β : Type*} {N : Machine τ ε' β} {view : σ → τ} {observe : α → Option β}
    {translate : ε → Option ε'}
    (hsome : ∀ s e e', translate e = some e' → view (M.step s e).1 = (N.step (view s) e').1 ∧
      (M.step s e).2.filterMap observe = (N.step (view s) e').2)
    (hnone : ∀ s e, translate e = none → view (M.step s e).1 = view s ∧
      (M.step s e).2.filterMap observe = []) (s : σ) (es : List ε) :
    view (M.state s es) = N.state (view s) (es.filterMap translate) ∧
      (M.output s es).filterMap observe = N.output (view s) (es.filterMap translate) := by
  induction es generalizing s with
  | nil => exact ⟨rfl, rfl⟩
  | cons e es ih =>
    obtain ⟨hstate, hout⟩ := ih (M.step s e).1
    rw [state_cons, output_cons, List.filterMap_append, hstate, hout]
    cases he : translate e with
    | none =>
      obtain ⟨hview, houtput⟩ := hnone s e he
      rw [List.filterMap_cons_none he, hview, houtput]
      exact ⟨rfl, rfl⟩
    | some e' =>
      obtain ⟨hview, houtput⟩ := hsome s e e' he
      rw [List.filterMap_cons_some he, state_cons, output_cons, hview, houtput]
      exact ⟨rfl, rfl⟩

/-- **Amortization.** If the outputs of every step, weighed and together with the potential they
leave, come to at least `rate` and the potential before, then those of a run come to at least
`rate` for each of its steps and the potential it started with. -/
theorem amortize {weight : α → ℤ} {potential : σ → ℤ} {rate : ℤ}
    (hstep : ∀ s e, rate + potential s ≤
      ((M.step s e).2.map weight).sum + potential (M.step s e).1) (s : σ) (es : List ε) :
    rate * es.length + potential s ≤
      ((M.output s es).map weight).sum + potential (M.state s es) := by
  induction es generalizing s with
  | nil => simp
  | cons e es ih =>
    have hfirst := hstep s e
    have hrest := ih (M.step s e).1
    rw [output_cons, state_cons, List.map_append, List.sum_append, List.length_cons,
      Nat.cast_succ]
    linarith

/-- Every state reached along the run satisfies `P`, its first and last ones included. -/
def Always (P : σ → Prop) (s : σ) (es : List ε) : Prop :=
  ∀ pre, pre <+: es → P (M.state s pre)

/-- Every step of the run is taken under `C`, a condition on the state before it and its
event. -/
def Throughout (C : σ → ε → Prop) (s : σ) (es : List ε) : Prop :=
  ∀ pre e, pre ++ [e] <+: es → C (M.state s pre) e

/-- Every state reached along the run satisfies `P` together with the events that led to it. -/
def AlwaysAfter (P : List ε → σ → Prop) (s : σ) (es : List ε) : Prop :=
  ∀ pre, pre <+: es → P pre (M.state s pre)

variable {M}

@[simp] theorem always_nil {P : σ → Prop} {s : σ} : M.Always P s [] ↔ P s := by
  simp [Always]

@[simp] theorem always_cons {P : σ → Prop} {s : σ} {e : ε} {es : List ε} :
    M.Always P s (e :: es) ↔ P s ∧ M.Always P (M.step s e).1 es := by
  refine ⟨fun h => ⟨h [] (List.nil_prefix), fun pre hpre => ?_⟩, fun ⟨h₀, h⟩ pre hpre => ?_⟩
  · exact h (e :: pre) (List.cons_prefix_cons.mpr ⟨rfl, hpre⟩)
  · cases pre with
    | nil => exact h₀
    | cons a pre =>
      obtain ⟨rfl, htail⟩ := List.cons_prefix_cons.mp hpre
      exact h pre htail

@[simp] theorem throughout_nil {C : σ → ε → Prop} {s : σ} : M.Throughout C s [] := by
  intro pre e hpre
  simp at hpre

@[simp] theorem throughout_cons {C : σ → ε → Prop} {s : σ} {e : ε} {es : List ε} :
    M.Throughout C s (e :: es) ↔ C s e ∧ M.Throughout C (M.step s e).1 es := by
  refine ⟨fun h => ⟨h [] e (by simp), fun pre e' hpre => ?_⟩, fun ⟨h₀, h⟩ pre e' hpre => ?_⟩
  · exact h (e :: pre) e' (List.cons_prefix_cons.mpr ⟨rfl, hpre⟩)
  · cases pre with
    | nil =>
      obtain ⟨rfl, -⟩ := List.cons_prefix_cons.mp hpre
      exact h₀
    | cons a pre =>
      obtain ⟨rfl, htail⟩ := List.cons_prefix_cons.mp hpre
      exact h pre e' htail

/-- A run with a step that misses `C` has a first one. -/
theorem exists_of_not_throughout {C : σ → ε → Prop} {s : σ} {es : List ε}
    (h : ¬ M.Throughout C s es) :
    ∃ pre e, pre ++ [e] <+: es ∧ M.Throughout C s pre ∧ ¬ C (M.state s pre) e := by
  induction es generalizing s with
  | nil => exact absurd throughout_nil h
  | cons e es ih =>
    by_cases hCe : C s e
    · obtain ⟨pre, e', hpre, hC, hmiss⟩ := ih fun hC => h (throughout_cons.mpr ⟨hCe, hC⟩)
      exact ⟨e :: pre, e', List.cons_prefix_cons.mpr ⟨rfl, hpre⟩,
        throughout_cons.mpr ⟨hCe, hC⟩, hmiss⟩
    · exact ⟨[], e, by simp, throughout_nil, hCe⟩

theorem Always.last {P : σ → Prop} {s : σ} {es : List ε} (h : M.Always P s es) :
    P (M.state s es) :=
  h es List.prefix_rfl

theorem Always.imp {P Q : σ → Prop} {s : σ} {es : List ε} (h : M.Always P s es)
    (hPQ : ∀ t, P t → Q t) : M.Always Q s es :=
  fun pre hpre => hPQ _ (h pre hpre)

/-- **Invariants.** A predicate kept by every step holds after every run. -/
theorem invariant {I : σ → Prop} {s : σ} (h₀ : I s)
    (hstep : ∀ t e, I t → I (M.step t e).1) (es : List ε) : I (M.state s es) := by
  induction es generalizing s with
  | nil => exact h₀
  | cons e es ih => exact ih (hstep s e h₀)

/-- **History invariants.** A predicate on the events so far, the outputs so far and the
state, kept by every step taken at the end of a run. -/
theorem run_induction {motive : List ε → List α → σ → Prop} {s : σ} (h₀ : motive [] [] s)
    (hstep : ∀ es out t e, motive es out t →
      motive (es ++ [e]) (out ++ (M.step t e).2) (M.step t e).1) (es : List ε) :
    motive es (M.output s es) (M.state s es) := by
  induction es using List.reverseRecOn with
  | nil => exact h₀
  | append_singleton es e ih =>
    rw [output_concat, state_concat]
    exact hstep _ _ _ _ ih

/-- A predicate kept by the steps that meet `C` holds in every state of a run whose steps
all meet it. -/
theorem always_of_throughout {I : σ → Prop} {C : σ → ε → Prop} {s : σ} (h₀ : I s)
    (hstep : ∀ t e, I t → C t e → I (M.step t e).1) {es : List ε}
    (hC : M.Throughout C s es) : M.Always I s es := by
  induction es generalizing s with
  | nil => exact always_nil.mpr h₀
  | cons e es ih =>
    obtain ⟨hCe, hC⟩ := throughout_cons.mp hC
    exact always_cons.mpr ⟨h₀, ih (hstep s e h₀ hCe) hC⟩

/-- **Exact conditions, on the runs that meet another one.** If under `D` the steps that meet
`C` keep an invariant that implies `P`, and a step that misses `C` out of a state of the
invariant loses `P`, then along a run under `D` the predicate `P` holds exactly when all its
steps meet `C`. -/
theorem always_iff_throughout_under {I P : σ → Prop} {C D : σ → ε → Prop} {s : σ} (h₀ : I s)
    (hP : ∀ t, I t → P t) (hstep : ∀ t e, I t → D t e → C t e → I (M.step t e).1)
    (hlost : ∀ t e, I t → D t e → ¬ C t e → ¬ P (M.step t e).1) {es : List ε}
    (hD : M.Throughout D s es) : M.Always P s es ↔ M.Throughout C s es := by
  induction es generalizing s with
  | nil => exact iff_of_true (always_nil.mpr (hP s h₀)) throughout_nil
  | cons e es ih =>
    obtain ⟨hDe, hD⟩ := throughout_cons.mp hD
    rw [always_cons, throughout_cons]
    by_cases hCe : C s e
    · rw [ih (hstep s e h₀ hDe hCe) hD]
      exact and_congr_left' (iff_of_true (hP s h₀) hCe)
    · refine iff_of_false (fun h => ?_) fun h => hCe h.1
      exact hlost s e h₀ hDe hCe (h.2 [] List.nil_prefix)

/-- **Exact conditions.** If the steps that meet `C` keep an invariant that implies `P`, and
a step that misses `C` out of a state of the invariant loses `P`, then `P` holds along a run
exactly when all its steps meet `C`. -/
theorem always_iff_throughout {I P : σ → Prop} {C : σ → ε → Prop} {s : σ} (h₀ : I s)
    (hP : ∀ t, I t → P t) (hstep : ∀ t e, I t → C t e → I (M.step t e).1)
    (hlost : ∀ t e, I t → ¬ C t e → ¬ P (M.step t e).1) {es : List ε} :
    M.Always P s es ↔ M.Throughout C s es :=
  always_iff_throughout_under h₀ hP (fun t e hI _ => hstep t e hI) (fun t e hI _ => hlost t e hI)
    (D := fun _ _ => True) fun _ _ _ => trivial

/-- A predicate on the events so far and the state that the steps meeting `C` keep holds at the
end of a run whose steps all meet it. -/
private theorem history_of_throughout {I : List ε → σ → Prop} {C : σ → ε → Prop} {s : σ}
    (h₀ : I [] s)
    (hstep : ∀ es t e, I es t → C t e → I (es ++ [e]) (M.step t e).1) {es : List ε}
    (hC : M.Throughout C s es) : I es (M.state s es) := by
  induction es using List.reverseRecOn with
  | nil => exact h₀
  | append_singleton es e ih =>
    rw [state_concat]
    exact hstep _ _ _ (ih fun pre e' hpre => hC pre e' (hpre.trans (List.prefix_append _ _)))
      (hC es e List.prefix_rfl)

/-- **Exact conditions, with the events so far.** If the steps that meet `C` keep an invariant
on the events so far and the state that implies `P`, and a step that misses `C` out of a state
of the invariant loses `P`, then `P` holds all along a run exactly when all its steps meet
`C`. -/
theorem alwaysAfter_iff_throughout {I P : List ε → σ → Prop} {C : σ → ε → Prop} {s : σ}
    (h₀ : I [] s) (hP : ∀ es t, I es t → P es t)
    (hstep : ∀ es t e, I es t → C t e → I (es ++ [e]) (M.step t e).1)
    (hlost : ∀ es t e, I es t → ¬ C t e → ¬ P (es ++ [e]) (M.step t e).1) {es : List ε} :
    M.AlwaysAfter P s es ↔ M.Throughout C s es := by
  constructor
  · intro h
    by_contra hmiss
    -- The first step that misses the condition is taken out of a state of the invariant.
    obtain ⟨pre, e, hpre, hC, hmiss⟩ := exists_of_not_throughout hmiss
    have hlast := h (pre ++ [e]) hpre
    rw [state_concat] at hlast
    exact hlost pre _ e (history_of_throughout h₀ hstep hC) hmiss hlast
  · intro hC pre hpre
    exact hP _ _ (history_of_throughout h₀ hstep fun pre' e hpre' => hC pre' e (hpre'.trans hpre))

end Machine

end Hermeneutic
