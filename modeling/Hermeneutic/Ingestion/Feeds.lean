import Hermeneutic.Exchange.Wiring
import Hermeneutic.Ingestion.FeedWire

/-!
# The feeds

The five `VenueFeed` classes (`exchange/binance/`, `exchange/bybit/`, `exchange/okx/`), which parse
and encode and do no I/O, and the feed the server wires each venue to. Fields are looked up in
the source's order, with the getters of the parser `p`. What the two Binance feeds share, and the
two of Bybit, is written once, with what differs as a parameter. Where a feed connects to and
which request it makes for a snapshot are left out: nothing here depends on them, and the two
Bybit feeds differ in nothing else.
-/

namespace Hermeneutic

open Json Json.Reader

/-- What a feed with `kSnapshotViaRest` has besides. -/
structure RestFeed where
  parseSnapshotResponse : NativeSymbol → String → Except FeedErrc SnapshotMessage

/-- A `VenueFeed`. -/
structure Feed where
  subscribeMessage : List NativeSymbol → String
  parseMessage : String → Except FeedErrc (Option ParsedMessage)
  rest : Option RestFeed

/-- The loop of a `subscribe_message`: an element for each symbol, with commas between them. -/
def joined (element : NativeSymbol → String) (symbols : List NativeSymbol) : String :=
  symbols.zipIdx.foldl
    (fun text s => (if s.2 > 0 then text ++ "," else text) ++ element s.1) ""

section Parse

variable (p : OnDemand)

/-! ### Binance -/

namespace Binance

/-- One depth stream a symbol. -/
def subscribeMessage (updateSpeed : String) (symbols : List NativeSymbol) : String :=
  "\x7b\"method\":\"SUBSCRIBE\",\"params\":[" ++
    joined (fun symbol => "\"" ++ symbol.toLower ++ "@depth@" ++ updateSpeed ++ "\"") symbols ++
    "],\"id\":1\x7d"

def readDepthUpdate (readPrevFinalId : Reader p UInt64) : Reader p DepthUpdate := do
  let symbol ← get p.getString "s"
  let firstId ← get p.getUint64 "U"
  let finalId ← get p.getUint64 "u"
  let prevFinalId ← readPrevFinalId
  let bids ← readLevels p "b"
  let asks ← readLevels p "a"
  return { symbol, firstId, finalId, prevFinalId, bids, asks }

def parseMessage (readPrevFinalId : Reader p UInt64) (text : String) :
    Except FeedErrc (Option ParsedMessage) :=
  match p.iterate text with
  | none => .error .badMessage
  | some root => parseObject (get p.getString "e") (fun eventType => do
      if eventType ≠ "depthUpdate" then return none
      return some (.depthUpdate (← readDepthUpdate p readPrevFinalId))) root

def readSnapshot (symbol : NativeSymbol) : Reader p SnapshotMessage := do
  let lastUpdateId ← get p.getUint64 "lastUpdateId"
  let bids ← readLevels p "bids"
  let asks ← readLevels p "asks"
  return { symbol, lastUpdateId, bids, asks }

def parseSnapshotResponse (symbol : NativeSymbol) (body : String) :
    Except FeedErrc SnapshotMessage :=
  match p.iterate body with
  | none => .error .badMessage
  | some root =>
    match (readSnapshot p symbol).read root with
    | none => .error .badMessage
    | some snapshot => .ok snapshot

end Binance

/-- `exchange/binance/binance_futures_feed.hpp` -/
def binanceFuturesFeed : Feed where
  subscribeMessage := Binance.subscribeMessage "100ms"
  parseMessage := Binance.parseMessage p (get p.getUint64 "pu")
  rest := some { parseSnapshotResponse := Binance.parseSnapshotResponse p }

/-- `exchange/binance/binance_spot_feed.hpp`; its updates carry no `pu`. -/
def binanceSpotFeed : Feed where
  subscribeMessage := Binance.subscribeMessage "100ms"
  parseMessage := Binance.parseMessage p (pure 0)
  rest := some { parseSnapshotResponse := Binance.parseSnapshotResponse p }

/-! ### Bybit -/

namespace Bybit

/-- One order book topic a symbol. -/
def subscribeMessage (depth : ℤ) (symbols : List NativeSymbol) : String :=
  "\x7b\"op\":\"subscribe\",\"args\":[" ++
    joined (fun symbol => "\"orderbook." ++ toString depth ++ "." ++ symbol ++ "\"") symbols ++
    "]\x7d"

/-- The `data` of a `snapshot`. -/
def readSnapshot : Reader p SnapshotMessage := do
  let symbol ← get p.getString "s"
  let bids ← readLevels p "b"
  let asks ← readLevels p "a"
  let lastUpdateId ← get p.getUint64 "u"
  return { symbol, bids, asks, lastUpdateId }

/-- The `data` of a `delta`: one id for the first and the last. -/
def readDepthUpdate : Reader p DepthUpdate := do
  let symbol ← get p.getString "s"
  let bids ← readLevels p "b"
  let asks ← readLevels p "a"
  let updateId ← get p.getUint64 "u"
  return { symbol, bids, asks, firstId := updateId, finalId := updateId, prevFinalId := 0 }

def readMessage : Reader p (Option ParsedMessage) := do
  let type ← get p.getString "type"
  let data ← get p.getObject "data"
  if type = "snapshot" then return some (.snapshot (← (readSnapshot p).read data))
  else if type = "delta" then return some (.depthUpdate (← (readDepthUpdate p).read data))
  else return none

def parseMessage (text : String) : Except FeedErrc (Option ParsedMessage) :=
  match p.iterate text with
  | none => .error .badMessage
  | some root => parseObject (get p.getString "topic") (fun _ => readMessage p) root

end Bybit

/-- Either Bybit feed: only the path they connect to differs. -/
def bybitFeed : Feed where
  subscribeMessage := Bybit.subscribeMessage 50
  parseMessage := Bybit.parseMessage p
  rest := none

def bybitLinearFeed : Feed := bybitFeed p

def bybitSpotFeed : Feed := bybitFeed p

/-! ### OKX -/

namespace Okx

/-- The `books` channel of each symbol. -/
def subscribeMessage (symbols : List NativeSymbol) : String :=
  "\x7b\"op\":\"subscribe\",\"args\":[" ++
    joined (fun symbol =>
      "\x7b\"channel\":\"books\",\"instId\":\"" ++ symbol ++ "\"\x7d") symbols ++ "]\x7d"

/-- The entry of a `snapshot`; its id is signed on the wire. -/
def readSnapshot (instId : NativeSymbol) : Reader p SnapshotMessage := do
  let bids ← readLevels p "bids"
  let asks ← readLevels p "asks"
  let seqId ← get p.getInt64 "seqId"
  return { symbol := instId, bids, asks, lastUpdateId := seqId.toUInt64 }

/-- The entry of an `update`: one id for the first and the last. -/
def readDepthUpdate (instId : NativeSymbol) : Reader p DepthUpdate := do
  let bids ← readLevels p "bids"
  let asks ← readLevels p "asks"
  let seqId ← get p.getInt64 "seqId"
  let prevSeqId ← get p.getInt64 "prevSeqId"
  return { symbol := instId, bids, asks, firstId := seqId.toUInt64, finalId := seqId.toUInt64,
           prevFinalId := prevSeqId.toUInt64 }

/-- `arg.instId` and `action`, without either of which it is no message about a book. -/
def readHeader : Reader p (NativeSymbol × String) := do
  let arg ← get p.getObject "arg"
  let instId ← (get p.getString "instId").read arg
  let action ← get p.getString "action"
  return (instId, action)

/-- The first entry of `data`, of which there must be one. -/
def readMessage (instId : NativeSymbol) (action : String) : Reader p (Option ParsedMessage) := do
  let data ← get p.getArray "data"
  let first ← data.head?
  let entry ← p.getObject first
  if action = "snapshot" then return some (.snapshot (← (readSnapshot p instId).read entry))
  else if action = "update" then
    return some (.depthUpdate (← (readDepthUpdate p instId).read entry))
  else return none

def parseMessage (text : String) : Except FeedErrc (Option ParsedMessage) :=
  if text = "pong" then .ok none
  else
    match p.iterate text with
    | none => .error .badMessage
    | some root =>
      parseObject (readHeader p) (fun (instId, action) => readMessage p instId action) root

end Okx

/-- `exchange/okx/okx_feed.hpp` -/
def okxFeed : Feed where
  subscribeMessage := Okx.subscribeMessage
  parseMessage := Okx.parseMessage p
  rest := none

/-- The feed the server instantiates a venue's session with. -/
def wiredFeed (venue : VenueId) : Feed :=
  match venue.exchange, venue.type with
  | .binance, .spot => binanceSpotFeed p
  | .binance, .perp => binanceFuturesFeed p
  | .bybit, .spot => bybitSpotFeed p
  | .bybit, .perp => bybitLinearFeed p
  | .okx, _ => okxFeed p

end Parse

end Hermeneutic
