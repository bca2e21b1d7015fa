import Mathlib.Data.List.Destutter
import Mathlib.Data.List.Forall2
import Mathlib.Order.Lattice

/-!
# Traversals of a list that can fail

`xs.mapM f` in `Except` either succeeds, and then pointwise, or fails as the first element
that fails does (`mapM_ok_or_error`); it depends on `f` at the elements only (`mapM_congr`).

A success is traced back through a bind (`exists_of_bind_ok`). A fold that can fail is peeled
from its end (`foldlM_concat`), as an invariant that sees the
elements already folded asks for, and so is a condition on every element and those before it
(`forall_step_concat_iff`). `observed` lists what is seen on the way, in the states the fold
gets to and no others (`mem_observed_iff`).

A list without repetitions in a row grows by an element at its end unless that is the last
already (`destutter_ne_concat`).

In a sorted list the elements past a threshold are the ones `dropWhile` leaves
(`lt_of_mem_dropWhile`).
-/

namespace Hermeneutic

universe u v

variable {ε α : Type*} {β : Type u}

private theorem destutter'_ne_concat [DecidableEq α] (xs : List α) (a x : α) :
    (xs ++ [x]).destutter' (· ≠ ·) a =
      if (a :: xs).getLast? = some x then xs.destutter' (· ≠ ·) a
      else xs.destutter' (· ≠ ·) a ++ [x] := by
  induction xs generalizing a with
  | nil =>
    rw [List.nil_append, List.destutter'_singleton, List.destutter'_nil, List.getLast?_singleton]
    by_cases heq : a = x <;> simp [heq]
  | cons b xs ih =>
    rw [List.cons_append, List.getLast?_cons_cons]
    by_cases heq : a = b
    · subst heq
      rw [List.destutter'_cons_neg _ (by simp), List.destutter'_cons_neg _ (by simp)]
      exact ih a
    · rw [List.destutter'_cons_pos _ heq, List.destutter'_cons_pos _ heq, ih b]
      split <;> rfl

/-- One more element at the end is kept unless it repeats the last. -/
theorem destutter_ne_concat [DecidableEq α] (xs : List α) (x : α) :
    (xs ++ [x]).destutter (· ≠ ·) =
      if xs.getLast? = some x then xs.destutter (· ≠ ·) else xs.destutter (· ≠ ·) ++ [x] := by
  cases xs with
  | nil => rfl
  | cons a xs => exact destutter'_ne_concat xs a x

theorem mapM_congr {m : Type u → Type v} [Monad m] [LawfulMonad m] {f g : α → m β}
    {xs : List α} (h : ∀ x ∈ xs, f x = g x) : xs.mapM f = xs.mapM g := by
  induction xs with
  | nil => simp only [List.mapM_nil]
  | cons x xs ih =>
    rw [List.mapM_cons, List.mapM_cons, h x List.mem_cons_self,
      ih fun y hy => h y (List.mem_cons_of_mem x hy)]

/-- An element on the left of a pointwise relation has a partner on the right. -/
theorem exists_of_mem_forall₂ {R : α → β → Prop} {xs : List α} {ys : List β}
    (h : List.Forall₂ R xs ys) {x : α} (hx : x ∈ xs) : ∃ y ∈ ys, R x y := by
  induction h with
  | nil => cases hx
  | cons hxy _ ih =>
    rcases List.mem_cons.mp hx with rfl | hx
    · exact ⟨_, List.mem_cons_self, hxy⟩
    · obtain ⟨y, hy, hxy⟩ := ih hx
      exact ⟨y, List.mem_cons_of_mem _ hy, hxy⟩

/-- A traversal in `Option` succeeds pointwise. -/
theorem mapM_eq_some_iff {f : α → Option β} {xs : List α} {ys : List β} :
    xs.mapM f = some ys ↔ List.Forall₂ (fun x y => f x = some y) xs ys := by
  induction xs generalizing ys with
  | nil => simp [eq_comm]
  | cons x xs ih =>
    rw [List.mapM_cons]
    constructor
    · intro h
      obtain ⟨y, hy, hrest⟩ := Option.bind_eq_some_iff.mp h
      obtain ⟨ys', hys, hcons⟩ := Option.bind_eq_some_iff.mp hrest
      obtain rfl := Option.some.inj hcons
      exact .cons hy (ih.mp hys)
    · rintro (_ | ⟨hy, hys⟩)
      rw [hy, ih.mpr hys]
      rfl

/-- A traversal in `Except` succeeds pointwise. -/
theorem mapM_eq_ok_iff {f : α → Except ε β} {xs : List α} {ys : List β} :
    xs.mapM f = .ok ys ↔ List.Forall₂ (fun x y => f x = .ok y) xs ys := by
  induction xs generalizing ys with
  | nil => simp [pure, Except.pure, eq_comm]
  | cons x xs ih =>
    rw [List.mapM_cons]
    constructor
    · intro h
      cases hx : f x with
      | error e =>
        rw [hx] at h
        cases h
      | ok y =>
        rw [hx] at h
        cases hxs : xs.mapM f with
        | error e =>
          rw [hxs] at h
          cases h
        | ok ys' =>
          rw [hxs] at h
          obtain rfl := Except.ok.inj h
          exact .cons hx (ih.mp hxs)
    · rintro (_ | ⟨hy, hys⟩)
      rw [hy, ih.mpr hys]
      rfl

/-- A pointwise relation that also asks for a property on the right. -/
theorem forall₂_and_right {R : α → β → Prop} {Q : β → Prop} {xs : List α} {ys : List β} :
    List.Forall₂ (fun x y => R x y ∧ Q y) xs ys ↔ List.Forall₂ R xs ys ∧ ∀ y ∈ ys, Q y := by
  induction xs generalizing ys with
  | nil => simp +contextual
  | cons x xs ih =>
    cases ys with
    | nil => simp
    | cons y ys =>
      rw [List.forall₂_cons, List.forall₂_cons, ih, List.forall_mem_cons]
      tauto

/-- A pointwise relation that asks for a property on the left and for equal images. -/
theorem forall₂_and_eq_iff {γ : Type*} {P : α → Prop} {f : α → γ} {g : β → γ} {xs : List α}
    {ys : List β} : List.Forall₂ (fun x y => P x ∧ g y = f x) xs ys ↔
      (∀ x ∈ xs, P x) ∧ ys.map g = xs.map f := by
  have heq : List.Forall₂ (fun x y => g y = f x) xs ys ↔ ys.map g = xs.map f := by
    rw [eq_comm, ← List.forall₂_eq_eq_eq, List.forall₂_map_left_iff, List.forall₂_map_right_iff]
    simp only [eq_comm]
  rw [List.forall₂_and_left, heq]

/-- A traversal succeeds pointwise, or fails as its first failing element does. -/
theorem mapM_ok_or_error (f : α → Except ε β) (xs : List α) :
    (∃ ys, xs.mapM f = .ok ys ∧ List.Forall₂ (fun x y => f x = .ok y) xs ys) ∨
      ∃ pre x post e, xs = pre ++ x :: post ∧ (∀ x' ∈ pre, ∃ y, f x' = .ok y) ∧
        f x = .error e ∧ xs.mapM f = .error e := by
  induction xs with
  | nil => exact .inl ⟨[], rfl, .nil⟩
  | cons x xs ih =>
    rw [List.mapM_cons]
    cases hx : f x with
    | error e => exact .inr ⟨[], x, xs, e, rfl, by simp, hx, rfl⟩
    | ok y =>
      rcases ih with ⟨ys, hys, hall⟩ | ⟨pre, x', post, e, rfl, hpre, hx', he⟩
      · exact .inl ⟨y :: ys, by rw [hys]; rfl, .cons hx hall⟩
      · refine .inr ⟨x :: pre, x', post, e, rfl, ?_, hx', by rw [he]; rfl⟩
        exact List.forall_mem_cons.mpr ⟨⟨y, hx⟩, hpre⟩

/-- A computation that succeeds did so in its first part, and then in the rest. -/
theorem exists_of_bind_ok {γ δ : Type u} {x : Except ε γ} {f : γ → Except ε δ} {y : δ}
    (h : x >>= f = .ok y) : ∃ a, x = .ok a ∧ f a = .ok y := by
  cases x with
  | error e => cases h
  | ok a => exact ⟨a, rfl, h⟩

/-- Reporting an error otherwise does not change a success. -/
theorem mapError_ok_iff {ε ε' α : Type} {f : ε → ε'} {x : Except ε α} {a : α} :
    x.mapError f = .ok a ↔ x = .ok a := by
  cases x <;> simp [Except.mapError]

/-- An error that neither part reports is not reported. -/
theorem bind_ne_error {γ δ : Type u} {x : Except ε γ} {f : γ → Except ε δ} {e : ε}
    (hx : x ≠ .error e) (hf : ∀ a, f a ≠ .error e) : x >>= f ≠ .error e := by
  cases x with
  | error e' => exact fun h => hx (congrArg Except.error (Except.error.inj h))
  | ok a => exact hf a

/-- An error that no step reports is not reported. -/
theorem foldlM_ne_error {σ : Type u} {f : σ → α → Except ε σ} {e : ε}
    (h : ∀ s x, f s x ≠ .error e) (xs : List α) (s : σ) : xs.foldlM f s ≠ .error e := by
  induction xs generalizing s with
  | nil => exact fun h => nomatch h
  | cons x xs ih =>
    rw [List.foldlM_cons]
    exact bind_ne_error (h s x) ih

theorem foldlM_concat {σ : Type*} (f : σ → α → Except ε σ) (s : σ) (xs : List α) (x : α) :
    (xs ++ [x]).foldlM f s = xs.foldlM f s >>= fun t => f t x := by
  rw [List.foldlM_append]
  refine bind_congr fun t => ?_
  rw [List.foldlM_cons]
  exact bind_pure _

/-- An element of a list, with those before it, is its last one or one of the rest. -/
theorem concat_initial_concat_iff {xs pre : List α} {x y : α} :
    pre ++ [y] <+: xs ++ [x] ↔ (pre = xs ∧ y = x) ∨ pre ++ [y] <+: xs := by
  rw [List.prefix_concat_iff]
  refine or_congr ⟨fun heq => ?_, fun ⟨hpre, hlast⟩ => by rw [hpre, hlast]⟩ Iff.rfl
  obtain ⟨hpre, hlast⟩ := List.append_inj' heq rfl
  exact ⟨hpre, List.head_eq_of_cons_eq hlast⟩

/-- What holds of every element and those before it, peeled from the end of the list. -/
theorem forall_step_concat_iff {P : List α → α → Prop} {xs : List α} {x : α} :
    (∀ pre y, pre ++ [y] <+: xs ++ [x] → P pre y) ↔
      (∀ pre y, pre ++ [y] <+: xs → P pre y) ∧ P xs x := by
  constructor
  · intro h
    exact ⟨fun pre y hpre => h pre y (hpre.trans (List.prefix_append xs [x])),
      h xs x List.prefix_rfl⟩
  · rintro ⟨hxs, hx⟩ pre y hpre
    rcases concat_initial_concat_iff.mp hpre with ⟨rfl, rfl⟩ | hpre
    · exact hx
    · exact hxs pre y hpre

/-- What `see` sees along a fold that can fail, until it does. -/
def observed {σ γ : Type*} (f : σ → α → Except ε σ) (see : σ → α → List γ) :
    List α → σ → List γ
  | [], _ => []
  | x :: xs, s => see s x ++ (match f s x with
    | .ok t => observed f see xs t
    | .error _ => [])

theorem mem_observed_iff {σ γ : Type*} (f : σ → α → Except ε σ) (see : σ → α → List γ)
    (xs : List α) (s : σ) (y : γ) :
    y ∈ observed f see xs s ↔ ∃ pre x t, pre ++ [x] <+: xs ∧ pre.foldlM f s = .ok t ∧
      y ∈ see t x := by
  induction xs generalizing s with
  | nil => simp [observed]
  | cons x xs ih =>
    rw [observed, List.mem_append]
    constructor
    · rintro (hy | hy)
      · exact ⟨[], x, s, by simp, rfl, hy⟩
      · cases hx : f s x with
        | error e => simp [hx] at hy
        | ok t =>
          rw [hx] at hy
          obtain ⟨pre, x', t', hinit, hfold, hy⟩ := (ih t).mp hy
          refine ⟨x :: pre, x', t', List.cons_prefix_cons.mpr ⟨rfl, hinit⟩, ?_, hy⟩
          rw [List.foldlM_cons, hx]
          exact hfold
    · rintro ⟨pre, x', t', hinit, hfold, hy⟩
      cases pre with
      | nil =>
        obtain rfl := (List.cons_prefix_cons.mp hinit).1
        cases hfold
        exact .inl hy
      | cons first pre =>
        obtain ⟨rfl, hrest⟩ := List.cons_prefix_cons.mp hinit
        rw [List.foldlM_cons] at hfold
        cases hx : f s first with
        | error e =>
          rw [hx] at hfold
          cases hfold
        | ok t =>
          rw [hx] at hfold
          exact .inr ((ih t).mpr ⟨pre, x', t', hrest, hfold, hy⟩)

/-- What is left of a sorted list after the elements up to `b` lies past `b`. -/
theorem lt_of_mem_dropWhile {γ : Type*} [LinearOrder γ] {b x : γ} {xs : List γ}
    (hsorted : xs.Pairwise (· ≤ ·)) (hx : x ∈ xs.dropWhile (· ≤ b)) : b < x := by
  induction xs with
  | nil => simp at hx
  | cons y ys ih =>
    obtain ⟨hhead, htail⟩ := List.pairwise_cons.mp hsorted
    by_cases hy : y ≤ b
    · exact ih htail (by simpa [List.dropWhile_cons, hy] using hx)
    · have hmem : x ∈ y :: ys := by simpa [List.dropWhile_cons, hy] using hx
      rcases List.mem_cons.mp hmem with rfl | hmem
      · exact not_le.mp hy
      · exact lt_of_lt_of_le (not_le.mp hy) (hhead x hmem)

end Hermeneutic
