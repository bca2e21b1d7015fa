import Hermeneutic.Book.L2OrderBook
import Hermeneutic.Core.Notional

/-!
# Price bands

Depth within a number of basis points of a reference price (`book/price_bands.hpp`).
`priceBandDepth` walks the levels of one side once, best price first, with one index into
the sorted thresholds: before a level is added, every threshold it lies outside of is
reported with the depth so far, and the thresholds left after the last level report the
whole book.

The two sides differ in a policy, `SidePolicy`: which way a boundary lies from the reference,
which way it is rounded for display and which levels are within it. Membership is decided by
cross-multiplication (`withinBps`), never through the rounded boundary. The second half of
this module reads the policies in exact arithmetic: `boundary` is the exact one rounded
inward, and membership is monotone along a side in its order (`within_of_before`) and nested
in the threshold (`within_of_le`), the two facts the single index relies on.
-/

namespace Hermeneutic

open BasicFixedPoint

/-- Depth within `bps` basis points of a reference price. -/
structure PriceBand where
  bps : Int32
  boundaryPrice : Price
  cumulativeSize : Size
  cumulativeNotional : Notional
  deriving DecidableEq, Repr

/-- One basis point is `1 / kBpsDenominator`. -/
def kBpsDenominator : Int32 := 10000

/-- Offsets `price` by `signedBps` basis points, rounding down or up. -/
def offsetByBps (price : Price) (signedBps : Int32) (roundDown : Bool) : Except Errc Price :=
  let factor := kBpsDenominator.toInt + signedBps.toInt
  let scaledNumerator := price.val * factor
  let denom := kBpsDenominator.toInt
  -- both factors are non-negative where this is called, so truncation rounds down
  let rounded := if roundDown then scaledNumerator.tdiv denom
    else (scaledNumerator + denom - 1).tdiv denom
  fromRawSafe rounded

/-- Exact membership: `price` against `bestPrice * (10000 + signedBps) / 10000`. -/
def withinBps (price bestPrice : Price) (signedBps : Int32) (ge : Bool) : Bool :=
  let factor := kBpsDenominator.toInt + signedBps.toInt
  let lhs := price.val * kBpsDenominator.toInt
  let rhs := bestPrice.val * factor
  if ge then lhs ≥ rhs else lhs ≤ rhs

/-- The side policies `Ask` and `Bid`. -/
inductive SidePolicy
  | ask
  | bid
  deriving DecidableEq, Repr

namespace SidePolicy

/-- The order a side's levels must be walked in. -/
def expectedKeyCompare : SidePolicy → Price → Price → Ordering
  | ask => less
  | bid => greater

/-- The boundary to report, rounded inward. -/
def roundInner : SidePolicy → Price → Int32 → Except Errc Price
  | ask, price, bps => offsetByBps price bps true
  | bid, price, bps => offsetByBps price (-bps) false

/-- Whether a price is within `bps` of the reference. -/
def within : SidePolicy → Price → Price → Int32 → Bool
  | ask, price, reference, bps => withinBps price reference bps false
  | bid, price, reference, bps => withinBps price reference (-bps) true

end SidePolicy

/-- Sorted ascending, non-negative and, for bids, strictly under `kBpsDenominator`. -/
def bpsThresholdsValid (side : SidePolicy) (bpsThresholds : List Int32) : Bool :=
  let kBidUpperBoundApplies : Bool := side = .bid
  bpsThresholds.Pairwise (· ≤ ·) && bpsThresholds.all (0 ≤ ·) &&
    (!kBidUpperBoundApplies || bpsThresholds.all (· < kBpsDenominator))

/-- An empty side has no price to offset from and reports no bands. -/
def emptySideBands (side : SidePolicy) (bpsThresholds : List Int32) :
    Except Errc (List PriceBand) :=
  if !bpsThresholdsValid side bpsThresholds then .error .invalidArgument else .ok []

/-- The variables of the walk. The index `next` is the list of thresholds from it on. -/
structure PriceBandWalk where
  cumSize : Size
  cumNotional : Notional
  next : List Int32
  result : List PriceBand

namespace PriceBandWalk

variable (side : SidePolicy) (reference : Price)

/-- Reports one band for each threshold of `next` up to the first that is not `outside`: the
`while` loop inside a level and, with every threshold outside, the one after the last. -/
def reportWhile (outside : Int32 → Bool) (cumSize : Size) (cumNotional : Notional) :
    List Int32 → List PriceBand → Except Errc PriceBandWalk
  | [], result => .ok ⟨cumSize, cumNotional, [], result⟩
  | bps :: next, result =>
    if !outside bps then .ok ⟨cumSize, cumNotional, bps :: next, result⟩
    else do
      let boundary ← side.roundInner reference bps
      reportWhile outside cumSize cumNotional next
        (result ++ [⟨bps, boundary, cumSize, cumNotional⟩])

/-- Adds one level to the running totals; only the notional is checked. -/
def addLevel (w : PriceBandWalk) (level : Level) : Except Errc PriceBandWalk := do
  let cumSize := w.cumSize + level.2
  let cumNotional ← fromRawSafe (w.cumNotional.val + (level.1 * level.2 : Notional).val)
  pure { w with cumSize, cumNotional }

/-- The loop over the levels, which stops when no threshold is left. -/
def walkLevels : List Level → PriceBandWalk → Except Errc PriceBandWalk
  | [], w => .ok w
  | level :: levels, w =>
    if !isValidLevel level then .error .argumentOutOfDomain
    else do
      let w ← reportWhile side reference (fun bps => !side.within level.1 reference bps)
        w.cumSize w.cumNotional w.next w.result
      -- with every threshold reported the loop breaks, and later levels are not looked at
      if w.next.isEmpty then pure w
      else
        let w ← w.addLevel level
        walkLevels levels w

/-- The thresholds left report the whole book. -/
def flush (w : PriceBandWalk) : Except Errc PriceBandWalk :=
  reportWhile side reference (fun _ => true) w.cumSize w.cumNotional w.next w.result

end PriceBandWalk

/-- Depth within each of `bpsThresholds` of `reference`, in one pass over `levels`. -/
def priceBandDepth (side : SidePolicy) (levels : List Level) (reference : Price)
    (bpsThresholds : List Int32) : Except Errc (List PriceBand) :=
  if !bpsThresholdsValid side bpsThresholds then .error .invalidArgument
  else if reference.val ≤ 0 then .error .argumentOutOfDomain
  else do
    let w ← PriceBandWalk.walkLevels side reference levels ⟨0, 0, bpsThresholds, []⟩
    let w ← w.flush side reference
    pure w.result

/-- Bands against a side's own best price. -/
def bboPriceBandDepths (side : SidePolicy) (levels : List Level) (bpsThresholds : List Int32) :
    Except Errc (List PriceBand) :=
  match levels with
  | [] => emptySideBands side bpsThresholds
  | level :: _ => priceBandDepth side levels level.1 bpsThresholds

/-- Bands against the best bid. -/
def bidPriceBandDepths (book : L2OrderBook) (bpsThresholds : List Int32) :
    Except Errc (List PriceBand) :=
  bboPriceBandDepths .bid book.bids.toList bpsThresholds

/-- Bands against the best ask. -/
def askPriceBandDepths (book : L2OrderBook) (bpsThresholds : List Int32) :
    Except Errc (List PriceBand) :=
  bboPriceBandDepths .ask book.asks.toList bpsThresholds

/-! ### The policies in exact arithmetic -/

namespace SidePolicy

/-- `p` comes strictly before `q` on a side. -/
def Before (side : SidePolicy) (p q : Price) : Prop := side.expectedKeyCompare p q = .lt

/-- A threshold a side accepts. -/
def Accepts (side : SidePolicy) (bps : Int32) : Prop :=
  0 ≤ bps.toInt ∧ (side = .bid → bps.toInt < 10000)

/-- The exact boundary, rounded inward. -/
def boundary (side : SidePolicy) (reference : Price) (bps : Int32) : ℤ :=
  match side with
  | .ask => ⌊((reference.val * (10000 + bps.toInt) : ℤ) / (10000 : ℕ) : ℚ)⌋
  | .bid => ⌈((reference.val * (10000 - bps.toInt) : ℤ) / (10000 : ℕ) : ℚ)⌉

variable {side : SidePolicy} {reference p q : Price} {bps bps' : Int32}

theorem before_ask : Before .ask p q ↔ p.val < q.val :=
  compare_lt_iff_lt

private theorem before_bid : Before .bid p q ↔ q.val < p.val :=
  compare_lt_iff_lt

private theorem Accepts.toInt_neg (h : side.Accepts bps) : (-bps).toInt = -bps.toInt := by
  have hlow := h.1
  have hhigh := bps.toInt_lt
  rw [Int32.toInt_neg]
  exact Int.bmod_eq_of_le (by omega) (by omega)

theorem within_ask : within .ask p reference bps ↔
    p.val * 10000 ≤ reference.val * (10000 + bps.toInt) :=
  decide_eq_true_iff

theorem within_bid (h : side.Accepts bps) : within .bid p reference bps ↔
    reference.val * (10000 - bps.toInt) ≤ p.val * 10000 := by
  rw [sub_eq_add_neg, ← h.toInt_neg]
  exact decide_eq_true_iff

/-- A price before one that is within a threshold is within it too. -/
theorem within_of_before (hbps : side.Accepts bps) (hbefore : side.Before p q)
    (h : side.within q reference bps) : side.within p reference bps := by
  cases side with
  | ask =>
    rw [before_ask] at hbefore
    rw [within_ask] at h ⊢
    omega
  | bid =>
    rw [before_bid] at hbefore
    rw [within_bid hbps] at h ⊢
    omega

/-- A price within a threshold is within every larger one. -/
theorem within_of_le (href : 0 < reference.val) (hbps : side.Accepts bps)
    (hbps' : side.Accepts bps') (hle : bps ≤ bps') (h : side.within p reference bps) :
    side.within p reference bps' := by
  have hle' : reference.val * bps.toInt ≤ reference.val * bps'.toInt :=
    mul_le_mul_of_nonneg_left (Int32.le_iff_toInt_le.mp hle) href.le
  cases side with
  | ask =>
    rw [within_ask] at h ⊢
    linarith
  | bid =>
    rw [within_bid hbps] at h
    rw [within_bid hbps']
    linarith

theorem boundary_nonneg (href : 0 < reference.val) (hbps : side.Accepts bps) :
    0 ≤ side.boundary reference bps := by
  have hlow := hbps.1
  cases side with
  | ask =>
    have hnonneg : (0 : ℚ) ≤ (reference.val * (10000 + bps.toInt) : ℤ) := by
      exact_mod_cast mul_nonneg href.le (by omega)
    exact Int.floor_nonneg.mpr (by positivity)
  | bid =>
    have hhigh := hbps.2 rfl
    have hnonneg : (0 : ℚ) ≤ (reference.val * (10000 - bps.toInt) : ℤ) := by
      exact_mod_cast mul_nonneg href.le (by omega)
    exact Int.ceil_nonneg (by positivity)

/-- The reported boundary is the exact one, when it fits. -/
theorem roundInner_eq (href : 0 < reference.val) (hbps : side.Accepts bps) :
    side.roundInner reference bps = fromRawSafe (side.boundary reference bps) := by
  have hlow := hbps.1
  cases side with
  | ask =>
    have hnonneg : 0 ≤ reference.val * (10000 + bps.toInt) := mul_nonneg href.le (by omega)
    rw [boundary, Rat.floor_intCast_div_natCast, ← Int.tdiv_eq_ediv_of_nonneg hnonneg]
    rfl
  | bid =>
    have hhigh := hbps.2 rfl
    have hnonneg : 0 ≤ reference.val * (10000 - bps.toInt) := mul_nonneg href.le (by omega)
    have hceil : (reference.val * (10000 + (-bps).toInt) + 10000 - 1).tdiv 10000 =
        boundary .bid reference bps := by
      rw [boundary, Rat.ceil_intCast_div_natCast, hbps.toInt_neg, ← sub_eq_add_neg,
        Int.tdiv_eq_ediv_of_nonneg (by omega)]
      omega
    rw [← hceil]
    rfl

end SidePolicy

theorem accepts_of_bpsThresholdsValid {side : SidePolicy} {bpsThresholds : List Int32}
    (h : bpsThresholdsValid side bpsThresholds) : ∀ bps ∈ bpsThresholds, side.Accepts bps := by
  simp only [bpsThresholdsValid, Bool.and_eq_true, List.all_eq_true, decide_eq_true_eq] at h
  obtain ⟨⟨-, hnonneg⟩, hbid⟩ := h
  intro bps hbps
  refine ⟨Int32.le_iff_toInt_le.mp (hnonneg bps hbps), ?_⟩
  rintro rfl
  have hall : bpsThresholds.all (· < kBpsDenominator) := by simpa using hbid
  exact Int32.lt_iff_toInt_lt.mp (by simpa using List.all_eq_true.mp hall bps hbps)

theorem sorted_of_bpsThresholdsValid {side : SidePolicy} {bpsThresholds : List Int32}
    (h : bpsThresholdsValid side bpsThresholds) : bpsThresholds.Pairwise (· ≤ ·) := by
  simp only [bpsThresholdsValid, Bool.and_eq_true, decide_eq_true_eq] at h
  exact h.1.1

end Hermeneutic
