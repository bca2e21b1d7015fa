import Hermeneutic.Book.L2OrderBook
import Hermeneutic.Core.Notional

/-!
# Volume bands

The volume-weighted average price at which a side of a book can fill given amounts of
notional (`book/volume_bands.hpp`). `volumeBandPrices` walks the levels once, best price
first, with one index into the sorted thresholds. A threshold is reported in the level in
which the running notional reaches it: at the far edge of the level from the exact sizes, and
strictly inside it from the fraction `vwapAtPartialFill` computes. Thresholds left after the
last level report what was filled.

The intermediates of `vwapAtPartialFill` are `__int128` and stay in its range, so they are
integers here; the check before the last multiplication is the one the source makes.
-/

namespace Hermeneutic

open BasicFixedPoint

/-- The average price needed to fill a notional, absent when the side is not deep enough. -/
structure VolumeBand where
  notionalThreshold : Notional
  vwap : Option Price
  filledNotional : Notional
  deriving DecidableEq, Repr

/-- The raw units of a size in one whole unit. -/
def kScale : ℤ := 1000000

/-- The largest `__int128`. -/
def kInt128Max : ℤ := 2 ^ 127 - 1

/-- The average price of filling `remaining` more at `price`, on top of a depth already
taken: one fraction, rounded once. -/
def vwapAtPartialFill (cumNotional : Notional) (cumSize : Size) (remaining : Notional)
    (price : Price) : Except Errc Price :=
  if price.val ≤ 0 then .error .argumentOutOfDomain
  else
    let vwapNotionalRaw := cumNotional.val + remaining.val
    let notionalPriceProduct := vwapNotionalRaw * price.val
    -- checked before the product is scaled, which is the step that could leave `__int128`
    if notionalPriceProduct > kInt128Max.tdiv kScale ||
        notionalPriceProduct < -kInt128Max.tdiv kScale then .error .resultOutOfRange
    else
      let numerator := notionalPriceProduct * kScale
      let denominator := cumSize.val * price.val + remaining.val * kScale
      if denominator ≤ 0 then .error .argumentOutOfDomain
      else .ok (fromRawChecked (roundDivNearestAway numerator denominator))

/-- The variables of the walk. The index `next` is the list of thresholds from it on. -/
structure VolumeBandWalk where
  cumNotional : Notional
  cumSize : Size
  next : List Notional
  result : List VolumeBand

namespace VolumeBandWalk

/-- The average price of a threshold reached in a level. -/
def vwapAt (w : VolumeBandWalk) (level : Level) (threshold : Notional) : Except Errc Price :=
  let levelNotional : Notional := level.1 * level.2
  let remaining := threshold - w.cumNotional
  -- at the far edge of the level its size is known exactly and is used as it is
  if remaining = levelNotional then (w.cumNotional + remaining) / (w.cumSize + level.2)
  else vwapAtPartialFill w.cumNotional w.cumSize remaining level.1

/-- The loop over the thresholds reached in one level; the depth taken does not advance. -/
def crossWhile (w : VolumeBandWalk) (level : Level) (nextCumNotional : Notional) :
    List Notional → List VolumeBand → Except Errc (List Notional × List VolumeBand)
  | [], result => .ok ([], result)
  | threshold :: next, result =>
    if nextCumNotional ≥ threshold then do
      let vwap ← w.vwapAt level threshold
      crossWhile w level nextCumNotional next (result ++ [⟨threshold, some vwap, threshold⟩])
    else .ok (threshold :: next, result)

/-- One level of the walk; only the running notional is checked. -/
def walkLevel (w : VolumeBandWalk) (level : Level) : Except Errc VolumeBandWalk :=
  if !isValidLevel level then .error .argumentOutOfDomain
  else do
    let levelNotional : Notional := level.1 * level.2
    let nextCumNotional ← fromRawSafe (w.cumNotional.val + levelNotional.val)
    let (next, result) ← w.crossWhile level nextCumNotional w.next w.result
    pure { cumNotional := nextCumNotional, cumSize := w.cumSize + level.2, next, result }

/-- The thresholds left report the notional of the whole side. -/
def flush (w : VolumeBandWalk) : List VolumeBand :=
  w.result ++ w.next.map fun threshold => ⟨threshold, none, w.cumNotional⟩

end VolumeBandWalk

/-- Sorted ascending and strictly positive. -/
def volumeThresholdsValid (thresholds : List Notional) : Bool :=
  thresholds.Pairwise (· ≤ ·) && thresholds.all (0 < ·.val)

/-- The average price of each threshold, in one pass over `levels`. -/
def volumeBandPrices (levels : List Level) (thresholds : List Notional) :
    Except Errc (List VolumeBand) :=
  if !volumeThresholdsValid thresholds then .error .invalidArgument
  else do
    let w ← levels.foldlM VolumeBandWalk.walkLevel ⟨0, 0, thresholds, []⟩
    pure w.flush

/-- Bands of the bid side. -/
def bidVolumeBandPrices (book : L2OrderBook) (thresholds : List Notional) :
    Except Errc (List VolumeBand) :=
  volumeBandPrices book.bids.toList thresholds

/-- Bands of the ask side. -/
def askVolumeBandPrices (book : L2OrderBook) (thresholds : List Notional) :
    Except Errc (List VolumeBand) :=
  volumeBandPrices book.asks.toList thresholds

theorem sorted_of_volumeThresholdsValid {thresholds : List Notional}
    (h : volumeThresholdsValid thresholds) : thresholds.Pairwise (· ≤ ·) := by
  simp only [volumeThresholdsValid, Bool.and_eq_true, decide_eq_true_eq] at h
  exact h.1

theorem pos_of_volumeThresholdsValid {thresholds : List Notional}
    (h : volumeThresholdsValid thresholds) : ∀ threshold ∈ thresholds, 0 < threshold.val := by
  simp only [volumeThresholdsValid, Bool.and_eq_true, List.all_eq_true, decide_eq_true_eq] at h
  exact h.2

end Hermeneutic
