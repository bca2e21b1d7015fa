import Hermeneutic.ForMathlib.JsonText
import Hermeneutic.Ingestion.Feeds

/-!
# What the feeds read

Of each feed, what an object carries, in terms of the values of its fields: a snapshot, an update,
or nothing about a book (`Carries`, `Ignorable`). The exchanges promise nothing about the order of
the fields, and the feeds look them up one after another in an object they read on demand; that
what they read is what the object carries is `feeds_read_exactly`, for any object that has no name
twice, nor any object in it. Prices and sizes are the numbers their texts spell, rounded to the
decimals of their type.

The parser stays a parameter with the laws it documents, so each reader is followed once, lookup
by lookup, with the lemma of its getter (`finds_string`, `finds_readLevels` and so on); what it
finds is then put into the fields of a structure, `IsUpdate` or `IsSnapshot`, which is what the
statement says of an object. The two nested `try` blocks are `reads_parseObject`: a feed's own
proof only says what the inner one recognises and what the outer one makes of it. The sample reads
an OKX push whose fields stand in another order than OKX sends them in, from its text.
-/

namespace Hermeneutic

open Json Json.Reader

variable {p : OnDemand} {Is : p.Value → Json → Prop} {In : p.Object → Fields → Prop}

namespace Binance

/-- The object carries an update; `HasPrev` says which previous id. -/
structure IsUpdate (HasPrev : (String → Option Json) → UInt64 → Prop)
    (value : String → Option Json) (update : DepthUpdate) : Prop where
  symbol : value "s" = some (.text update.symbol)
  firstId : value "U" = some (.integer update.firstId.toNat)
  finalId : value "u" = some (.integer update.finalId.toNat)
  prevFinalId : HasPrev value update.prevFinalId
  bids : LevelsAt value "b" update.bids
  asks : LevelsAt value "a" update.asks

variable {readPrev : Reader p UInt64} {HasPrev : (String → Option Json) → UInt64 → Prop}

private theorem finds_readDepthUpdate (hp : p.Laws Is In) (hprev : Finds In readPrev HasPrev) :
    Finds In (readDepthUpdate p readPrev) (IsUpdate HasPrev) := by
  refine ((finds_string hp "s").then fun symbol => (finds_uint64 hp "U").then fun firstId =>
    (finds_uint64 hp "u").then fun finalId => hprev.then fun prevFinalId =>
    (finds_readLevels hp "b").then fun bids => (finds_readLevels hp "a").then fun asks =>
    finds_pure _).congr fun value update => ?_
  constructor
  · rintro ⟨symbol, hsymbol, firstId, hfirst, finalId, hfinal, prevFinalId, hprev, bids, hbids,
      asks, hasks, rfl⟩
    exact ⟨hsymbol, hfirst, hfinal, hprev, hbids, hasks⟩
  · rintro ⟨hsymbol, hfirst, hfinal, hprev, hbids, hasks⟩
    exact ⟨_, hsymbol, _, hfirst, _, hfinal, _, hprev, _, hbids, _, hasks, rfl⟩

/-- An event of the depth stream. -/
def Carries (HasPrev : (String → Option Json) → UInt64 → Prop) (value : String → Option Json) :
    ParsedMessage → Prop
  | .snapshot _ => False
  | .depthUpdate update => value "e" = some (.text "depthUpdate") ∧ IsUpdate HasPrev value update

theorem reads_parseMessage (hp : p.Laws Is In) (hprev : Finds In readPrev HasPrev)
    {text : String} {fields : Fields} (htext : Opens In text fields) :
    Reads (parseMessage p readPrev text) (Carries HasPrev fields.value)
      (fields.value "e" ≠ some (.text "depthUpdate")) := by
  obtain ⟨root, hroot, hstands⟩ := htext
  rw [parseMessage, hroot]
  refine (reads_parseObject (finds_string hp "e") (fun eventType => (finds_pure none).ite
    ((finds_readDepthUpdate hp hprev).then fun update => finds_pure _)) hstands).congr
    (fun m => ?_) ?_
  · cases m with
    | snapshot => simp [Carries]
    | depthUpdate update => simp [Carries]
  · constructor
    · intro h heq
      rcases h _ heq with ⟨hne, -⟩ | ⟨-, update, -, hnone⟩
      · exact hne rfl
      · cases hnone
    · intro h eventType htype
      exact .inl ⟨fun heq => h (heq ▸ htype), rfl⟩

/-- The object carries a snapshot. -/
structure IsSnapshot (value : String → Option Json) (snapshot : SnapshotMessage) : Prop where
  lastUpdateId : value "lastUpdateId" = some (.integer snapshot.lastUpdateId.toNat)
  bids : LevelsAt value "bids" snapshot.bids
  asks : LevelsAt value "asks" snapshot.asks

private theorem finds_readSnapshot (hp : p.Laws Is In) (symbol : NativeSymbol) :
    Finds In (readSnapshot p symbol) fun value snapshot =>
      snapshot.symbol = symbol ∧ IsSnapshot value snapshot := by
  refine ((finds_uint64 hp "lastUpdateId").then fun lastUpdateId =>
    (finds_readLevels hp "bids").then fun bids => (finds_readLevels hp "asks").then fun asks =>
    finds_pure _).congr fun value snapshot => ?_
  constructor
  · rintro ⟨lastUpdateId, hid, bids, hbids, asks, hasks, rfl⟩
    exact ⟨rfl, hid, hbids, hasks⟩
  · rintro ⟨rfl, hid, hbids, hasks⟩
    exact ⟨_, hid, _, hbids, _, hasks, rfl⟩

private theorem parseSnapshotResponse_ok_iff (hp : p.Laws Is In) {body : String} {fields : Fields}
    (hbody : Opens In body fields) {symbol : NativeSymbol} {snapshot : SnapshotMessage} :
    parseSnapshotResponse p symbol body = .ok snapshot ↔
      snapshot.symbol = symbol ∧ IsSnapshot fields.value snapshot := by
  obtain ⟨root, hroot, hstands⟩ := hbody
  rw [← (finds_readSnapshot hp symbol).read_eq_some_iff hstands, parseSnapshotResponse, hroot]
  simp only
  cases (readSnapshot p symbol).read root <;> simp

end Binance

namespace Bybit

/-- `data` carries a snapshot. -/
structure IsSnapshot (value : String → Option Json) (snapshot : SnapshotMessage) : Prop where
  symbol : value "s" = some (.text snapshot.symbol)
  bids : LevelsAt value "b" snapshot.bids
  asks : LevelsAt value "a" snapshot.asks
  lastUpdateId : value "u" = some (.integer snapshot.lastUpdateId.toNat)

private theorem finds_readSnapshot (hp : p.Laws Is In) : Finds In (readSnapshot p) IsSnapshot := by
  refine ((finds_string hp "s").then fun symbol => (finds_readLevels hp "b").then fun bids =>
    (finds_readLevels hp "a").then fun asks => (finds_uint64 hp "u").then fun updateId =>
    finds_pure _).congr fun value snapshot => ?_
  constructor
  · rintro ⟨symbol, hsymbol, bids, hbids, asks, hasks, updateId, hid, rfl⟩
    exact ⟨hsymbol, hbids, hasks, hid⟩
  · rintro ⟨hsymbol, hbids, hasks, hid⟩
    exact ⟨_, hsymbol, _, hbids, _, hasks, _, hid, rfl⟩

/-- `data` carries an update, under one id. -/
structure IsUpdate (value : String → Option Json) (update : DepthUpdate) : Prop where
  symbol : value "s" = some (.text update.symbol)
  bids : LevelsAt value "b" update.bids
  asks : LevelsAt value "a" update.asks
  finalId : value "u" = some (.integer update.finalId.toNat)
  firstId : update.firstId = update.finalId
  prevFinalId : update.prevFinalId = 0

private theorem finds_readDepthUpdate (hp : p.Laws Is In) :
    Finds In (readDepthUpdate p) IsUpdate := by
  refine ((finds_string hp "s").then fun symbol => (finds_readLevels hp "b").then fun bids =>
    (finds_readLevels hp "a").then fun asks => (finds_uint64 hp "u").then fun updateId =>
    finds_pure _).congr fun value update => ?_
  constructor
  · rintro ⟨symbol, hsymbol, bids, hbids, asks, hasks, updateId, hid, rfl⟩
    exact ⟨hsymbol, hbids, hasks, hid, rfl, rfl⟩
  · obtain ⟨symbol, firstId, finalId, prevFinalId, bids, asks⟩ := update
    rintro ⟨hsymbol, hbids, hasks, hid, hfirst, hprev⟩
    simp only at hfirst hprev
    subst hfirst hprev
    exact ⟨_, hsymbol, _, hbids, _, hasks, _, hid, rfl⟩

/-- What `type` and `data` carry. -/
def Holds (value : String → Option Json) (parsed : Option ParsedMessage) : Prop :=
  ∃ (type : String) (data : Fields), value "type" = some (.text type) ∧
    value "data" = some (.object data) ∧ match parsed with
      | some (.snapshot snapshot) => type = "snapshot" ∧ IsSnapshot data.value snapshot
      | some (.depthUpdate update) => type = "delta" ∧ IsUpdate data.value update
      | none => type ≠ "snapshot" ∧ type ≠ "delta"

private theorem finds_readMessage (hp : p.Laws Is In) : Finds In (readMessage p) Holds := by
  refine ((finds_string hp "type").then fun type => (locates_object hp "data").bind
    fun o data hdata => (((finds_readSnapshot hp).finds_read hdata).then fun snapshot =>
      finds_pure _).ite ((((finds_readDepthUpdate hp).finds_read hdata).then fun update =>
        finds_pure _).ite (finds_pure _))).congr fun value parsed => ?_
  match parsed with
  | none => simp [Holds]
  | some (.snapshot snapshot) => simp [Holds]
  | some (.depthUpdate update) => simp [Holds]

/-- A push of an order book topic. -/
def Carries (value : String → Option Json) (message : ParsedMessage) : Prop :=
  (∃ topic, value "topic" = some (.text topic)) ∧
    ∃ data : Fields, value "data" = some (.object data) ∧ match message with
      | .snapshot snapshot =>
        value "type" = some (.text "snapshot") ∧ IsSnapshot data.value snapshot
      | .depthUpdate update =>
        value "type" = some (.text "delta") ∧ IsUpdate data.value update

/-- No push of a topic, or one of a type that is neither. -/
def Ignorable (value : String → Option Json) : Prop :=
  (∃ topic, value "topic" = some (.text topic)) →
    (∃ data, value "data" = some (.object data)) ∧
      ∃ type, value "type" = some (.text type) ∧ type ≠ "snapshot" ∧ type ≠ "delta"

theorem reads_parseMessage (hp : p.Laws Is In) {text : String} {fields : Fields}
    (htext : Opens In text fields) :
    Reads (parseMessage p text) (Carries fields.value) (Ignorable fields.value) := by
  obtain ⟨root, hroot, hstands⟩ := htext
  rw [parseMessage, hroot]
  refine (reads_parseObject (finds_string hp "topic") (fun _ => finds_readMessage hp)
    hstands).congr (fun m => ?_) ?_
  · simp only [exists_and_right, Carries]
    refine and_congr_right fun _ => ?_
    cases m with
    | snapshot snapshot =>
      constructor
      · rintro ⟨_, data, htype, hdata, rfl, hsnapshot⟩
        exact ⟨data, hdata, htype, hsnapshot⟩
      · rintro ⟨data, hdata, htype, hsnapshot⟩
        exact ⟨_, data, htype, hdata, rfl, hsnapshot⟩
    | depthUpdate update =>
      constructor
      · rintro ⟨_, data, htype, hdata, rfl, hupdate⟩
        exact ⟨data, hdata, htype, hupdate⟩
      · rintro ⟨data, hdata, htype, hupdate⟩
        exact ⟨_, data, htype, hdata, rfl, hupdate⟩
  · rw [Ignorable, forall_exists_index]
    refine forall₂_congr fun topic _ => ?_
    constructor
    · rintro ⟨type, data, htype, hdata, hother⟩
      exact ⟨⟨data, hdata⟩, type, htype, hother⟩
    · rintro ⟨⟨data, hdata⟩, type, htype, hother⟩
      exact ⟨type, data, htype, hdata, hother⟩

end Bybit

namespace Okx

/-- `seqId` and its like: signed on the wire, unsigned in a message. -/
def IdAt (value : String → Option Json) (name : String) (id : UInt64) : Prop :=
  ∃ seqId : Int64, value name = some (.integer seqId.toInt) ∧ id = seqId.toUInt64

/-- The entry carries a snapshot. -/
structure IsSnapshot (instId : NativeSymbol) (value : String → Option Json)
    (snapshot : SnapshotMessage) : Prop where
  symbol : snapshot.symbol = instId
  bids : LevelsAt value "bids" snapshot.bids
  asks : LevelsAt value "asks" snapshot.asks
  lastUpdateId : IdAt value "seqId" snapshot.lastUpdateId

private theorem finds_readSnapshot (hp : p.Laws Is In) (instId : NativeSymbol) :
    Finds In (readSnapshot p instId) (IsSnapshot instId) := by
  refine ((finds_readLevels hp "bids").then fun bids =>
    (finds_readLevels hp "asks").then fun asks =>
    (finds_int64 hp "seqId").then fun seqId => finds_pure _).congr fun value snapshot => ?_
  constructor
  · rintro ⟨bids, hbids, asks, hasks, seqId, hid, rfl⟩
    exact ⟨rfl, hbids, hasks, seqId, hid, rfl⟩
  · obtain ⟨symbol, bids, asks, lastUpdateId⟩ := snapshot
    rintro ⟨rfl, hbids, hasks, seqId, hid, rfl⟩
    exact ⟨_, hbids, _, hasks, _, hid, rfl⟩

/-- The entry carries an update, under one id. -/
structure IsUpdate (instId : NativeSymbol) (value : String → Option Json) (update : DepthUpdate) :
    Prop where
  symbol : update.symbol = instId
  bids : LevelsAt value "bids" update.bids
  asks : LevelsAt value "asks" update.asks
  finalId : IdAt value "seqId" update.finalId
  firstId : update.firstId = update.finalId
  prevFinalId : IdAt value "prevSeqId" update.prevFinalId

private theorem finds_readDepthUpdate (hp : p.Laws Is In) (instId : NativeSymbol) :
    Finds In (readDepthUpdate p instId) (IsUpdate instId) := by
  refine ((finds_readLevels hp "bids").then fun bids =>
    (finds_readLevels hp "asks").then fun asks =>
    (finds_int64 hp "seqId").then fun seqId => (finds_int64 hp "prevSeqId").then fun prevSeqId =>
    finds_pure _).congr fun value update => ?_
  constructor
  · rintro ⟨bids, hbids, asks, hasks, seqId, hid, prevSeqId, hprev, rfl⟩
    exact ⟨rfl, hbids, hasks, ⟨seqId, hid, rfl⟩, rfl, prevSeqId, hprev, rfl⟩
  · obtain ⟨symbol, firstId, finalId, prevFinalId, bids, asks⟩ := update
    rintro ⟨rfl, hbids, hasks, ⟨seqId, hid, hfinal⟩, hfirst, prevSeqId, hprev, hprevious⟩
    simp only at hfinal hfirst hprevious
    subst hfirst hfinal hprevious
    exact ⟨_, hbids, _, hasks, _, hid, _, hprev, rfl⟩

/-- The instrument and the action. -/
def HasHeader (value : String → Option Json) (header : NativeSymbol × String) : Prop :=
  ∃ arg : Fields, value "arg" = some (.object arg) ∧
    arg.value "instId" = some (.text header.1) ∧ value "action" = some (.text header.2)

private theorem finds_readHeader (hp : p.Laws Is In) : Finds In (readHeader p) HasHeader := by
  refine ((locates_object hp "arg").bind fun o arg harg =>
    ((finds_string hp "instId").finds_read harg).then fun instId =>
    (finds_string hp "action").then fun action => finds_pure (instId, action)).congr
    fun value header => ?_
  constructor
  · rintro ⟨arg, harg, instId, hinst, action, haction, rfl⟩
    exact ⟨arg, harg, hinst, haction⟩
  · rintro ⟨arg, harg, hinst, haction⟩
    exact ⟨arg, harg, _, hinst, _, haction, rfl⟩

/-- The first entry of `data`. -/
def HasEntry (value : String → Option Json) (entry : Fields) : Prop :=
  ∃ rest, value "data" = some (.array (.object entry :: rest))

/-- What the first entry of `data` carries under an action. -/
def Holds (instId : NativeSymbol) (action : String) (value : String → Option Json)
    (parsed : Option ParsedMessage) : Prop :=
  ∃ entry : Fields, HasEntry value entry ∧ match parsed with
    | some (.snapshot snapshot) => action = "snapshot" ∧ IsSnapshot instId entry.value snapshot
    | some (.depthUpdate update) => action = "update" ∧ IsUpdate instId entry.value update
    | none => action ≠ "snapshot" ∧ action ≠ "update"

private theorem finds_readMessage (hp : p.Laws Is In) (instId : NativeSymbol) (action : String) :
    Finds In (readMessage p instId action) (Holds instId action) := by
  refine ((locates_array hp "data").bind fun vs elems hall => (locates_head? hall).bind
    fun v first hfirst => (hfirst.locates_getObject hp).bind fun o entry hentry =>
    (((finds_readSnapshot hp instId).finds_read hentry).then fun snapshot => finds_pure _).ite
      ((((finds_readDepthUpdate hp instId).finds_read hentry).then fun update =>
        finds_pure _).ite (finds_pure _))).congr fun value parsed => ?_
  have hentry : ∀ R : Fields → Prop, (∃ data, value "data" = some (.array data) ∧
      ∃ first, data.head? = some first ∧ ∃ entry, first = .object entry ∧ R entry) ↔
      ∃ entry, HasEntry value entry ∧ R entry := by
    intro R
    simp only [List.head?_eq_some_iff]
    constructor
    · rintro ⟨_, hdata, _, ⟨rest, rfl⟩, entry, rfl, hR⟩
      exact ⟨entry, ⟨rest, hdata⟩, hR⟩
    · rintro ⟨entry, ⟨rest, hdata⟩, hR⟩
      exact ⟨_, hdata, _, ⟨rest, rfl⟩, entry, rfl, hR⟩
  rw [hentry]
  refine exists_congr fun entry => and_congr_right fun _ => ?_
  match parsed with
  | none => simp
  | some (.snapshot snapshot) => simp
  | some (.depthUpdate update) =>
    have hother : action = "update" → action ≠ "snapshot" := by
      rintro rfl
      decide
    simpa using fun haction _ => hother haction

/-- A push of the `books` channel. -/
def Carries (value : String → Option Json) (message : ParsedMessage) : Prop :=
  ∃ (arg entry : Fields) (instId : NativeSymbol), value "arg" = some (.object arg) ∧
    arg.value "instId" = some (.text instId) ∧ HasEntry value entry ∧ match message with
      | .snapshot snapshot =>
        value "action" = some (.text "snapshot") ∧ IsSnapshot instId entry.value snapshot
      | .depthUpdate update =>
        value "action" = some (.text "update") ∧ IsUpdate instId entry.value update

/-- No push of an instrument's channel, or one of an action that is neither. -/
def Ignorable (value : String → Option Json) : Prop :=
  ∀ (arg : Fields) (instId : NativeSymbol) (action : String), value "arg" = some (.object arg) →
    arg.value "instId" = some (.text instId) → value "action" = some (.text action) →
    (∃ entry, HasEntry value entry) ∧ action ≠ "snapshot" ∧ action ≠ "update"

theorem reads_parseMessage (hp : p.Laws Is In) {text : String} {fields : Fields}
    (hpong : text ≠ "pong") (htext : Opens In text fields) :
    Reads (parseMessage p text) (Carries fields.value) (Ignorable fields.value) := by
  obtain ⟨root, hroot, hstands⟩ := htext
  rw [parseMessage, if_neg hpong, hroot]
  refine (reads_parseObject (finds_readHeader hp)
    (fun header => finds_readMessage hp header.1 header.2) hstands).congr (fun m => ?_) ?_
  · constructor
    · rintro ⟨⟨instId, action⟩, ⟨arg, harg, hinst, haction⟩, entry, hentry, hm⟩
      refine ⟨arg, entry, instId, harg, hinst, hentry, ?_⟩
      cases m with
      | snapshot snapshot =>
        obtain ⟨rfl, hsnapshot⟩ := hm
        exact ⟨haction, hsnapshot⟩
      | depthUpdate update =>
        obtain ⟨rfl, hupdate⟩ := hm
        exact ⟨haction, hupdate⟩
    · rintro ⟨arg, entry, instId, harg, hinst, hentry, hm⟩
      cases m with
      | snapshot snapshot =>
        exact ⟨(instId, "snapshot"), ⟨arg, harg, hinst, hm.1⟩, entry, hentry, rfl, hm.2⟩
      | depthUpdate update =>
        exact ⟨(instId, "update"), ⟨arg, harg, hinst, hm.1⟩, entry, hentry, rfl, hm.2⟩
  · constructor
    · intro h arg instId action harg hinst haction
      obtain ⟨entry, hentry, hother⟩ := h (instId, action) ⟨arg, harg, hinst, haction⟩
      exact ⟨⟨entry, hentry⟩, hother⟩
    · rintro h ⟨instId, action⟩ ⟨arg, harg, hinst, haction⟩
      obtain ⟨⟨entry, hentry⟩, hother⟩ := h arg instId action harg hinst haction
      exact ⟨entry, hentry, hother⟩

end Okx

/-! ### The venues -/

/-- The object of a text carries the message. -/
def CarriesFor (venue : VenueId) : (String → Option Json) → ParsedMessage → Prop :=
  match venue.exchange, venue.type with
  | .binance, .spot => Binance.Carries fun _ prevFinalId => prevFinalId = 0
  | .binance, .perp => Binance.Carries fun value prevFinalId =>
      value "pu" = some (.integer prevFinalId.toNat)
  | .bybit, _ => Bybit.Carries
  | .okx, _ => Okx.Carries

/-- The object of a text is no message about a book. -/
def IgnorableFor (venue : VenueId) : (String → Option Json) → Prop :=
  match venue.exchange with
  | .binance => fun value => value "e" ≠ some (.text "depthUpdate")
  | .bybit => Bybit.Ignorable
  | .okx => Okx.Ignorable

section Venue

variable {venue : VenueId} {text : String} {fields : Fields}

theorem reads_wiredFeed (hp : p.Laws Is In) (hpong : p.iterate "pong" = none)
    (htext : Opens In text fields) :
    Reads ((wiredFeed p venue).parseMessage text) (CarriesFor venue fields.value)
      (IgnorableFor venue fields.value) := by
  have hne : text ≠ "pong" := by
    rintro rfl
    obtain ⟨root, hroot, -⟩ := htext
    rw [hpong] at hroot
    cases hroot
  obtain ⟨exchange, type⟩ := venue
  match exchange, type with
  | .binance, .spot => exact Binance.reads_parseMessage hp (finds_pure 0) htext
  | .binance, .perp => exact Binance.reads_parseMessage hp (finds_uint64 hp "pu") htext
  | .bybit, .spot | .bybit, .perp => exact Bybit.reads_parseMessage hp htext
  | .okx, .spot | .okx, .perp => exact Okx.reads_parseMessage hp hne htext

theorem wiredFeed_parseSnapshotResponse (hp : p.Laws Is In) (htext : Opens In text fields)
    {rest : RestFeed} (hrest : (wiredFeed p venue).rest = some rest) (symbol : NativeSymbol)
    (snapshot : SnapshotMessage) : rest.parseSnapshotResponse symbol text = .ok snapshot ↔
      snapshot.symbol = symbol ∧ Binance.IsSnapshot fields.value snapshot := by
  obtain ⟨exchange, type⟩ := venue
  match exchange, type with
  | .binance, .spot | .binance, .perp =>
    obtain rfl := Option.some.inj hrest
    exact Binance.parseSnapshotResponse_ok_iff hp htext
  | .bybit, .spot | .bybit, .perp | .okx, .spot | .okx, .perp => cases hrest

end Venue

/-- **What the feeds read.** With a parser that does what it documents, `"pong"` being no object,
and wherever the fields stand, among whatever others, a feed takes the text of an object for
exactly the message it carries, its prices and sizes rounded to their decimals, ignores exactly
what is no message about a book, and rejects the rest; and a REST feed takes a response for exactly
the snapshot it carries. -/
theorem feeds_read_exactly (p : OnDemand) (Is : p.Value → Json → Prop)
    (In : p.Object → Fields → Prop) (hp : p.Laws Is In) (hpong : p.iterate "pong" = none)
    (venue : VenueId) {text : String} {fields : Fields} (htext : Opens In text fields) :
    Reads ((wiredFeed p venue).parseMessage text) (CarriesFor venue fields.value)
        (IgnorableFor venue fields.value) ∧
      ∀ rest, (wiredFeed p venue).rest = some rest → ∀ symbol snapshot,
        rest.parseSnapshotResponse symbol text = .ok snapshot ↔
          snapshot.symbol = symbol ∧ Binance.IsSnapshot fields.value snapshot :=
  ⟨reads_wiredFeed hp hpong htext,
    fun _ hrest => wiredFeed_parseSnapshotResponse hp htext hrest⟩

/-- A push of the `books` channel in another order than usual, with a level of four elements. -/
def samplePush : Fields :=
  [("action", .text "update"),
    ("data", .array [.object [("prevSeqId", .integer 10), ("seqId", .integer 15),
      ("asks", .array []),
      ("bids", .array [.array [.text "100.5", .text "2", .text "0", .text "4"]])]]),
    ("arg", .object [("channel", .text "books"), ("instId", .text "BTC-USDT")])]

/-- Its text. -/
def samplePushText : String :=
  "\x7b\"action\":\"update\",\"data\":[\x7b\"prevSeqId\":10,\"seqId\":15,\"asks\":[]," ++
    "\"bids\":[[\"100.5\",\"2\",\"0\",\"4\"]]\x7d]," ++
    "\"arg\":\x7b\"channel\":\"books\",\"instId\":\"BTC-USDT\"\x7d\x7d"

theorem feeds_read_exactly_sample :
    CarriesFor ⟨.okx, .spot⟩ samplePush.value
      (.depthUpdate ⟨"BTC-USDT", 15, 15, 10, [(⟨100500000000⟩, ⟨2000000⟩)], []⟩) := by
  have hcompact : (Json.object samplePush).compact = samplePushText.toList := by
    decide +kernel
  have hiterate : (scanning (decodeAmong [samplePush])).iterate samplePushText =
      some samplePush := by
    simp [scanning, decodeAmong, hcompact]
  have hpong : (scanning (decodeAmong [samplePush])).iterate "pong" = none := by
    decide +kernel
  have hopens : Opens (p := scanning (decodeAmong [samplePush]))
      (fun (o : Fields) fields => o.Perm fields) samplePushText samplePush :=
    ⟨samplePush, hiterate, .refl _, by simp [samplePush, Fields.Distinct]⟩
  refine ((feeds_read_exactly _ _ _ (scanning_laws _) hpong ⟨.okx, .spot⟩ hopens).1.message _).mp
    ?_
  simp only [wiredFeed, okxFeed, Okx.parseMessage, hiterate]
  rfl

end Hermeneutic
