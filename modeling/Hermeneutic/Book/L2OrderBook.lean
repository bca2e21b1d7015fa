import Std.Data.ExtTreeMap
import Hermeneutic.Core.FixedPoint

/-!
# The level-2 order book

`L2OrderBook` keeps one `std::map<Price, Size>` a side (`book/l2_order_book.hpp`), the asks
ordered by `std::less` and the bids by `std::greater`, so that `begin()` is the best level
of either. A `std::map` is an extensional `Std.ExtTreeMap` here: its `toList` is the
iteration order, and two maps are equal when every lookup agrees.

`sizeAt` reads a side as a total function, an absent price having size `0`. A side is
`Positive` when it stores no size that is not; such a side is determined by its sizes
(`Positive.ext`), which is the form in which the aggregate's sums are proved.
-/

namespace Hermeneutic

/-- One price level of a wire message: a price and an absolute size. -/
abbrev Level := Price × Size

/-- A comparator a side can be ordered by: a total order in which only equal prices tie. -/
class SideOrder (cmp : Price → Price → Ordering) : Prop
  extends Std.TransCmp cmp, Std.LawfulEqCmp cmp

/-- `std::less<Price>`. -/
def less (p q : Price) : Ordering := compare p q

/-- `std::greater<Price>`. -/
def greater (p q : Price) : Ordering := compare q p

instance : Std.LawfulEqCmp (compare : Price → Price → Ordering) where
  eq_of_compare h := compare_eq_iff_eq.mp h
  compare_self := compare_eq_iff_eq.mpr rfl

instance : SideOrder less where
  toTransCmp := inferInstanceAs (Std.TransCmp (compare : Price → Price → Ordering))
  toLawfulEqCmp := inferInstanceAs (Std.LawfulEqCmp (compare : Price → Price → Ordering))

instance : SideOrder greater where
  toTransCmp := inferInstanceAs (Std.TransCmp fun p q : Price => compare q p)
  toLawfulEqCmp := inferInstanceAs (Std.LawfulEqCmp fun p q : Price => compare q p)

/-- One side of a book: a map from prices to sizes, iterated in the order of `cmp`. -/
abbrev SideMap (cmp : Price → Price → Ordering) [SideOrder cmp] := Std.ExtTreeMap Price Size cmp

/-- A book keyed by price level: asks ascending, bids descending. -/
@[ext]
structure L2OrderBook where
  asks : SideMap less := ∅
  bids : SideMap greater := ∅

/-- Whether the book machinery accepts a level: a positive price, a non-negative size. -/
def isValidLevel (level : Level) : Bool := 0 < level.1 && 0 ≤ level.2

theorem isValidLevel_iff {level : Level} :
    isValidLevel level ↔ 0 < level.1.val ∧ 0 ≤ level.2.val := by
  simp only [isValidLevel, Bool.and_eq_true, decide_eq_true_eq]
  exact Iff.rfl

section Side

variable {cmp : Price → Price → Ordering} [SideOrder cmp]

/-- The size a side holds at a price, `0` when it holds none. -/
def sizeAt (side : SideMap cmp) (p : Price) : ℤ := (side[p]?).elim 0 BasicFixedPoint.val

@[simp] theorem sizeAt_empty (p : Price) : sizeAt (∅ : SideMap cmp) p = 0 := by
  simp [sizeAt]

theorem sizeAt_insert (side : SideMap cmp) (p : Price) (s : Size) (q : Price) :
    sizeAt (side.insert p s) q = if p = q then s.val else sizeAt side q := by
  simp only [sizeAt, Std.ExtTreeMap.getElem?_insert, Std.LawfulEqCmp.compare_eq_iff_eq]
  split <;> rfl

theorem sizeAt_erase (side : SideMap cmp) (p q : Price) :
    sizeAt (side.erase p) q = if p = q then 0 else sizeAt side q := by
  simp only [sizeAt, Std.ExtTreeMap.getElem?_erase, Std.LawfulEqCmp.compare_eq_iff_eq]
  split <;> rfl

/-- Every stored size is strictly positive. -/
def Positive (side : SideMap cmp) : Prop :=
  ∀ (p : Price) (s : Size), side[p]? = some s → 0 < s.val

theorem positive_empty : Positive (∅ : SideMap cmp) := by
  intro p s h
  simp at h

theorem Positive.insert {side : SideMap cmp} (h : Positive side) {p : Price} {s : Size}
    (hs : 0 < s.val) : Positive (side.insert p s) := by
  intro q t hq
  rw [Std.ExtTreeMap.getElem?_insert] at hq
  split at hq
  · obtain rfl := Option.some.inj hq
    exact hs
  · exact h q t hq

theorem Positive.erase {side : SideMap cmp} (h : Positive side) (p : Price) :
    Positive (side.erase p) := by
  intro q t hq
  rw [Std.ExtTreeMap.getElem?_erase] at hq
  split at hq
  · simp at hq
  · exact h q t hq

theorem Positive.sizeAt_nonneg {side : SideMap cmp} (h : Positive side) (p : Price) :
    0 ≤ sizeAt side p := by
  rw [sizeAt]
  cases hp : side[p]? with
  | none => simp
  | some s => exact (h p s hp).le

/-- A positive side holds a price exactly when its size there is not zero. -/
theorem Positive.mem_iff {side : SideMap cmp} (h : Positive side) {p : Price} :
    p ∈ side ↔ 0 < sizeAt side p := by
  rw [Std.ExtTreeMap.mem_iff_isSome_getElem?, sizeAt]
  cases hp : side[p]? with
  | none => simp
  | some s => simpa using h p s hp

/-- Positive sides with the same sizes are the same map. -/
theorem Positive.ext {side side' : SideMap cmp} (h : Positive side) (h' : Positive side')
    (hsize : ∀ p, sizeAt side p = sizeAt side' p) : side = side' := by
  refine Std.ExtTreeMap.ext_getElem? fun p => ?_
  have hp := hsize p
  simp only [sizeAt] at hp
  cases hs : side[p]? with
  | none =>
    cases hs' : side'[p]? with
    | none => rfl
    | some s' =>
      have := h' p s' hs'
      simp only [hs, hs', Option.elim] at hp
      omega
  | some s =>
    have hpos := h p s hs
    cases hs' : side'[p]? with
    | none =>
      simp only [hs, hs', Option.elim] at hp
      omega
    | some s' =>
      simp only [hs, hs', Option.elim] at hp
      rw [BasicFixedPoint.val_inj.mp hp]

end Side

end Hermeneutic
