import Hermeneutic.Book.PriceBands

/-!
# The reported boundary selects the same levels

Membership in a price band is decided by cross-multiplying, the boundary that is reported with
it by a rounded division (`book/price_bands.hpp`). Prices are integers, so the division rounded
inward, down on the ask side and up on the bid side, leaves out no price that the exact test
lets in. `Inside` compares a price with a boundary the way a reader of the band would.
-/

namespace Hermeneutic

open BasicFixedPoint

namespace SidePolicy

/-- A price on the reference's side of a boundary, the boundary included. -/
def Inside : SidePolicy → Price → Price → Prop
  | ask, price, boundary => price ≤ boundary
  | bid, price, boundary => boundary ≤ price

variable {side : SidePolicy} {reference price limit limit' : Price} {bps bps' : Int32}

/-- An ask price is within a threshold when it is at most the boundary rounded down. -/
private theorem within_ask_iff : within .ask price reference bps ↔
    price.val ≤ boundary .ask reference bps := by
  rw [within_ask, boundary, Int.le_floor, le_div_iff₀ (by norm_num)]
  norm_cast

/-- A bid price is within a threshold when it is at least the boundary rounded up. -/
private theorem within_bid_iff (hbps : bid.Accepts bps) : within .bid price reference bps ↔
    boundary .bid reference bps ≤ price.val := by
  rw [within_bid hbps, boundary, Int.ceil_le, div_le_iff₀ (by norm_num)]
  norm_cast

/-- The boundary reported is the exact one. -/
private theorem val_of_roundInner (href : 0 < reference.val) (hbps : side.Accepts bps)
    (h : side.roundInner reference bps = .ok limit) :
    limit.val = side.boundary reference bps := by
  rw [roundInner_eq href hbps] at h
  exact val_of_fromRawSafe h

/-- The boundary and the exact test select the same prices. -/
private theorem within_iff_inside (href : 0 < reference.val) (hbps : side.Accepts bps)
    (h : side.roundInner reference bps = .ok limit) :
    side.within price reference bps ↔ side.Inside price limit := by
  have hlimit := val_of_roundInner href hbps h
  cases side with
  | ask => rw [within_ask_iff, ← hlimit, Inside, le_iff_val_le]
  | bid => rw [within_bid_iff hbps, ← hlimit, Inside, le_iff_val_le]

/-- A price inside a boundary is inside every boundary further out: the boundary itself is
within its own threshold, and so within the larger one. -/
private theorem inside_of_le (href : 0 < reference.val) (hbps : side.Accepts bps)
    (hbps' : side.Accepts bps') (hle : bps ≤ bps') (h : side.roundInner reference bps = .ok limit)
    (h' : side.roundInner reference bps' = .ok limit') : side.Inside limit limit' := by
  have hself : side.Inside limit limit := by cases side <;> exact le_rfl
  have hwithin := (within_iff_inside href hbps h).mpr hself
  exact (within_iff_inside href hbps' h').mp (within_of_le href hbps hbps' hle hwithin)

end SidePolicy

/-- **The displayed boundary is the membership test.** A price is within a threshold exactly
when it is inside the reported boundary; a larger threshold moves the boundary outward and
keeps every price that was within. -/
theorem priceBand_boundary_exact {side : SidePolicy} {reference : Price} {bps : Int32}
    (href : 0 < reference.val) (hbps : side.Accepts bps) :
    (∀ limit, side.roundInner reference bps = .ok limit →
      ∀ price, side.within price reference bps ↔ side.Inside price limit) ∧
    ∀ bps', side.Accepts bps' → bps ≤ bps' →
      (∀ limit limit', side.roundInner reference bps = .ok limit →
        side.roundInner reference bps' = .ok limit' → side.Inside limit limit') ∧
      ∀ price, side.within price reference bps → side.within price reference bps' := by
  refine ⟨fun limit h price => SidePolicy.within_iff_inside href hbps h, ?_⟩
  intro bps' hbps' hle
  refine ⟨fun limit limit' h h' => SidePolicy.inside_of_le href hbps hbps' hle h h', ?_⟩
  exact fun price hwithin => SidePolicy.within_of_le href hbps hbps' hle hwithin

/-- A bid boundary that is rounded up: 33 raw units at 10 basis points. -/
theorem priceBand_boundary_exact_bid :
    SidePolicy.roundInner .bid ⟨33⟩ 10 = .ok ⟨33⟩ ∧
      ∀ price, SidePolicy.within .bid price ⟨33⟩ 10 ↔ SidePolicy.Inside .bid price ⟨33⟩ :=
  ⟨by rfl, (priceBand_boundary_exact (by decide) ⟨by decide, by decide⟩).1 ⟨33⟩ (by rfl)⟩

end Hermeneutic
