import Mathlib.Algebra.BigOperators.Group.List.Basic
import Mathlib.Algebra.Order.Field.Basic
import Mathlib.Tactic.Linarith
import Mathlib.Tactic.Ring

/-!
# The average price of a fill

A fill takes some offers `(price, quantity)` whole and a further quantity at one more price.
Its average price lies between any bounds on the prices paid (`le_cost_add`,
`cost_add_le`), and going on at prices that are no better than the last one does not improve
it (`average_mono`). Selling is buying at negated prices.
-/

namespace Hermeneutic

variable {α : Type*} [Field α] [LinearOrder α] [IsStrictOrderedRing α]

/-- The total cost of a list of offers `(price, quantity)`. -/
def cost (offers : List (α × α)) : α := (offers.map fun offer => offer.1 * offer.2).sum

/-- The total quantity of a list of offers. -/
def quantity (offers : List (α × α)) : α := (offers.map Prod.snd).sum

variable {offers : List (α × α)} {bound price extra : α}

omit [LinearOrder α] [IsStrictOrderedRing α] in
theorem cost_append (offers offers' : List (α × α)) :
    cost (offers ++ offers') = cost offers + cost offers' := by
  simp [cost]

theorem quantity_nonneg (hquantity : ∀ offer ∈ offers, 0 ≤ offer.2) : 0 ≤ quantity offers := by
  induction offers with
  | nil => exact le_rfl
  | cons offer offers ih =>
    obtain ⟨hoffer, hoffers⟩ := List.forall_mem_cons.mp hquantity
    have hrest := ih hoffers
    simp only [quantity, List.map_cons, List.sum_cons] at hrest ⊢
    linarith

/-- A fill at no better a price than `bound` costs at least `bound` on average. -/
theorem le_cost_add (hquantity : ∀ offer ∈ offers, 0 ≤ offer.2)
    (hprice : ∀ offer ∈ offers, bound ≤ offer.1) (hextra : 0 ≤ extra) (hlast : bound ≤ price) :
    bound * (quantity offers + extra) ≤ cost offers + price * extra := by
  induction offers with
  | nil =>
    have hmul := mul_le_mul_of_nonneg_right hlast hextra
    simpa [quantity, cost] using hmul
  | cons offer offers ih =>
    obtain ⟨hq, hqs⟩ := List.forall_mem_cons.mp hquantity
    obtain ⟨hp, hps⟩ := List.forall_mem_cons.mp hprice
    have hmul := mul_le_mul_of_nonneg_right hp hq
    have hrest := ih hqs hps
    simp only [quantity, cost, List.map_cons, List.sum_cons] at hrest ⊢
    linarith

/-- A fill at no worse a price than `bound` costs at most `bound` on average. -/
theorem cost_add_le (hquantity : ∀ offer ∈ offers, 0 ≤ offer.2)
    (hprice : ∀ offer ∈ offers, offer.1 ≤ bound) (hextra : 0 ≤ extra) (hlast : price ≤ bound) :
    cost offers + price * extra ≤ bound * (quantity offers + extra) := by
  induction offers with
  | nil =>
    have hmul := mul_le_mul_of_nonneg_right hlast hextra
    simpa [quantity, cost] using hmul
  | cons offer offers ih =>
    obtain ⟨hq, hqs⟩ := List.forall_mem_cons.mp hquantity
    obtain ⟨hp, hps⟩ := List.forall_mem_cons.mp hprice
    have hmul := mul_le_mul_of_nonneg_right hp hq
    have hrest := ih hqs hps
    simp only [quantity, cost, List.map_cons, List.sum_cons] at hrest ⊢
    linarith

/-- A fill whose average is at most `price`, extended at `price` or worse, gets no cheaper on
average. -/
theorem average_mono {paid paid' filled filled' : α} (hpos : 0 < filled)
    (hle : filled ≤ filled') (haverage : paid ≤ price * filled)
    (hmore : price * (filled' - filled) ≤ paid' - paid) :
    paid / filled ≤ paid' / filled' := by
  have hpos' : 0 < filled' := hpos.trans_le hle
  rw [div_le_div_iff₀ hpos hpos']
  calc paid * filled'
      = paid * filled + paid * (filled' - filled) := by ring
    _ ≤ paid * filled + price * filled * (filled' - filled) := by
        have := mul_le_mul_of_nonneg_right haverage (sub_nonneg.mpr hle)
        linarith
    _ = paid * filled + price * (filled' - filled) * filled := by ring
    _ ≤ paid * filled + (paid' - paid) * filled := by
        have := mul_le_mul_of_nonneg_right hmore hpos.le
        linarith
    _ = paid' * filled := by ring

end Hermeneutic
