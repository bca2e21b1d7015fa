import Mathlib.Data.Fintype.Basic

/-!
# Venue identities

The part of the symbol domain model (`symbol/symbol.hpp`) that the books and the ingestion
sessions are keyed by: an exchange scoped to a market is a *venue*, and each venue names an
instrument by its own wire spelling.
-/

namespace Hermeneutic

/-- Which market a book covers. -/
inductive MarketType
  | spot
  | perp
  deriving DecidableEq, Repr

/-- The exchanges liquidity is sourced from. -/
inductive Exchange
  | binance
  | bybit
  | okx
  deriving DecidableEq, Repr

/-- An exchange scoped to a market: the key of all per-venue bookkeeping. -/
structure VenueId where
  exchange : Exchange
  type : MarketType
  deriving DecidableEq, Repr

/-- An exchange's own vocabulary for its log-facing name and its two market segments. -/
structure VenueNaming where
  exchangePart : String
  spotSuffix : String
  perpSuffix : String

def venueNaming : Exchange → VenueNaming
  | .binance => ⟨"binance", "spot", "futures"⟩
  | .bybit => ⟨"bybit", "spot", "linear"⟩
  | .okx => ⟨"okx", "spot", "swap"⟩

namespace VenueId

/-- The human-readable form of a venue, `to_string(VenueId)`. -/
def toString (id : VenueId) : String :=
  let naming := venueNaming id.exchange
  let marketPart := match id.type with
    | .spot => naming.spotSuffix
    | .perp => naming.perpSuffix
  naming.exchangePart ++ "_" ++ marketPart

/-- Every venue, in declaration order. -/
def all : List VenueId :=
  [⟨.binance, .spot⟩, ⟨.binance, .perp⟩, ⟨.bybit, .spot⟩, ⟨.bybit, .perp⟩, ⟨.okx, .spot⟩,
    ⟨.okx, .perp⟩]

theorem mem_all (id : VenueId) : id ∈ all := by
  obtain ⟨exchange, type⟩ := id
  cases exchange <;> cases type <;> decide

instance : Fintype VenueId := Fintype.ofList all mem_all

end VenueId

/-- A venue's own spelling of an instrument, opaque outside that venue. -/
abbrev NativeSymbol := String

end Hermeneutic
