import Hermeneutic.Ingestion.FeedMessages
import Hermeneutic.Ingestion.SessionTruth

/-!
# A session on its venue's wire

The session the server runs for a venue, with the venue's own feed and policy: what it is handed
are texts. `HearsExchange` says of a run that the texts are the exchange's, in terms of what their
objects carry; the feeds reading exactly that, the results on sessions apply, and a live symbol's
book is the exchange's own, number for number, as the texts spell it.

The parser and its laws are parameters, as for the feeds. They say nothing of a text that is no
object, and an on-demand parser may well read the start of one that is cut short; of such texts
`HearsExchange` asks that the feed makes no message of them.

Two things have to be shown before the result on sessions applies: that the configuration is one,
which for a REST feed means that it reads no snapshot on the connection, and that an event that
the wire makes acceptable is one that the session may hear. The second is the exactness of the
feeds in both directions. What a message of a symbol says is never assumed of the parsed message,
only of the object that the text is; the sample hands the session the texts themselves.
-/

namespace Hermeneutic

open Json (Fields OnDemand Reader)

/-- The feed of a venue with its policy. -/
def wiredPair (venue : VenueId) : FeedPolicy :=
  match venue.exchange, venue.type with
  | .binance, .spot => binanceSpot
  | .binance, .perp => binanceFutures
  | .bybit, _ => bybit
  | .okx, _ => okx

private theorem wiredPair_policy (venue : VenueId) :
    (wiredPair venue).policy = wiredPolicy venue := by
  obtain ⟨exchange, type⟩ := venue
  cases exchange <;> cases type <;> rfl

section Session

variable (p : OnDemand)

/-- A feed whose snapshots come over REST reads none on the connection. -/
private theorem Binance.parseMessage_ne_snapshot (readPrevFinalId : Reader p UInt64)
    (text : String) (snapshot : SnapshotMessage) :
    Binance.parseMessage p readPrevFinalId text ≠ .ok (some (.snapshot snapshot)) := by
  rw [Binance.parseMessage]
  cases p.iterate text with
  | none => simp
  | some root =>
    simp only [parseObject]
    cases (Reader.get p.getString "e").run root with
    | none => simp
    | some found =>
      obtain ⟨eventType, rest⟩ := found
      by_cases htype : eventType ≠ "depthUpdate"
      · simp [htype]
      · cases hupdate : (Binance.readDepthUpdate p readPrevFinalId).run rest <;>
          simp [htype, hupdate]

/-- The session of a venue. -/
def wiredSession (skippedSnapshot : String → Option NativeSymbol) (venue : VenueId)
    (symbols : List NativeSymbol) (hsymbols : symbols.Nodup)
    (registry : NativeSymbol → Option BookRef) : SessionConfig where
  pair := wiredPair venue
  venue := venue
  symbols := symbols
  symbols_nodup := hsymbols
  registry := registry
  parseMessage text := ((wiredFeed p venue).parseMessage text).toOption.join
  parseSnapshotResponse symbol body :=
    (wiredFeed p venue).rest.bind fun rest => (rest.parseSnapshotResponse symbol body).toOption
  skippedSnapshot := skippedSnapshot
  rest_pushes_none hrest text snapshot hparse := by
    rw [Option.join_eq_some_iff, toOption_eq_some_iff] at hparse
    obtain ⟨exchange, type⟩ := venue
    match exchange, type with
    | .binance, .spot => exact Binance.parseMessage_ne_snapshot p _ text snapshot hparse
    | .binance, .perp => exact Binance.parseMessage_ne_snapshot p _ text snapshot hparse
    | .bybit, .spot | .bybit, .perp | .okx, .spot | .okx, .perp => cases hrest

variable {p} (In : p.Object → Fields → Prop)

/-- The feed makes no message of the next text, or it is an object of the exchange's: no name
stands in it twice, and what it carries of a covered symbol is an event or a snapshot of its
history, with valid levels; the answer to a request counts as one of the symbol it was made for. -/
def HearsExchange (venue : VenueId) (symbols : List NativeSymbol)
    (histories : NativeSymbol → History) (s : Session) : SessionEvent → Prop
  | .read text => (∀ m, (wiredFeed p venue).parseMessage text ≠ .ok (some m)) ∨
      ∃ fields, Opens In text fields ∧
        (∀ snapshot, CarriesFor venue fields.value (.snapshot snapshot) →
          snapshot.symbol ∈ symbols →
            (histories snapshot.symbol).SnapshotFor venue snapshot ∧ snapshot.valid) ∧
        ∀ update, CarriesFor venue fields.value (.depthUpdate update) → update.symbol ∈ symbols →
          update ∈ (histories update.symbol).events ∧ update.valid
  | .fetchResponse i body => ∀ fetch, s.snapshotSigs[i]? = some fetch →
      (∀ rest, (wiredFeed p venue).rest = some rest → ∀ snapshot,
        rest.parseSnapshotResponse fetch.symbol body ≠ .ok snapshot) ∨
      ∃ fields, Opens In body fields ∧ ∀ snapshot, snapshot.symbol = fetch.symbol →
        Binance.IsSnapshot fields.value snapshot →
          (histories fetch.symbol).SnapshotFor venue snapshot ∧ snapshot.valid
  | _ => True

variable {In} {Is : p.Value → Json → Prop}

/-- **What is heard on the wire is heard by the session.** -/
theorem hears_of_hearsExchange (hp : p.Laws Is In) (hpong : p.iterate "pong" = none)
    {skippedSnapshot : String → Option NativeSymbol} {venue : VenueId}
    {symbols : List NativeSymbol} {hsymbols : symbols.Nodup}
    {registry : NativeSymbol → Option BookRef} {histories : NativeSymbol → History} {s : Session}
    {event : SessionEvent} (hears : HearsExchange In venue symbols histories s event) :
    Session.Hears (wiredSession p skippedSnapshot venue symbols hsymbols registry) histories s
      event := by
  cases event with
  | read text =>
    have hread : ∀ m, (wiredSession p skippedSnapshot venue symbols hsymbols
        registry).parseMessage text = some m →
          (wiredFeed p venue).parseMessage text = .ok (some m) := by
      intro m hm
      rwa [wiredSession, Option.join_eq_some_iff, toOption_eq_some_iff] at hm
    simp only [Session.Hears]
    obtain hnone | ⟨fields, hopens, hsnapshots, hupdates⟩ := hears
    · split
      · trivial
      · rename_i hm
        exact absurd (hread _ hm) (hnone _)
      · rename_i hm
        exact absurd (hread _ hm) (hnone _)
    · have hcarries : ∀ m, (wiredFeed p venue).parseMessage text = .ok (some m) →
          CarriesFor venue fields.value m :=
        fun m => ((reads_wiredFeed hp hpong hopens).message m).mp
      split
      · trivial
      · rename_i snapshot hm
        exact hsnapshots snapshot (hcarries _ (hread _ hm))
      · rename_i update hm
        exact hupdates update (hcarries _ (hread _ hm))
  | fetchResponse i body =>
    intro fetch hfetch snapshot hparse
    obtain ⟨rest, hrest, hresponse⟩ := Option.bind_eq_some_iff.mp hparse
    rw [toOption_eq_some_iff] at hresponse
    obtain hnone | ⟨fields, hopens, hgenuine⟩ := hears fetch hfetch
    · exact absurd hresponse (hnone rest hrest snapshot)
    · obtain ⟨hsymbol, hsnapshot⟩ := (wiredFeed_parseSnapshotResponse hp hopens hrest
        fetch.symbol snapshot).mp hresponse
      exact hgenuine snapshot hsymbol hsnapshot
  | _ => trivial

/-- **From the wire to the book.** With a parser that does what it documents, and whatever the
texts that a venue's session is handed, as long as what their objects carry is the exchange's, with
valid levels, and the covered symbols have books of their own: whatever is lost, late, dropped or
reconnected, the venue's entry in a covered symbol's book is the exchange's true book at the
symbol's last id if the symbol is live, and there is none if it is not. -/
theorem wire_to_book (p : OnDemand) (Is : p.Value → Json → Prop)
    (In : p.Object → Fields → Prop) (hp : p.Laws Is In) (hpong : p.iterate "pong" = none)
    (skippedSnapshot : String → Option NativeSymbol) (venue : VenueId)
    (symbols : List NativeSymbol) (hsymbols : symbols.Nodup)
    (registry : NativeSymbol → Option BookRef)
    (hbooks :
      (wiredSession p skippedSnapshot venue symbols hsymbols registry).DistinctBooks)
    (histories : NativeSymbol → History)
    (hnum : ∀ symbol ∈ symbols, (histories symbol).NumberedFor venue) (events : List SessionEvent)
    (hears : (sessionMachine
      (wiredSession p skippedSnapshot venue symbols hsymbols registry)).Throughout
        (HearsExchange In venue symbols histories) {} events) :
    ∀ symbol ∈ symbols, ∀ ref, registry symbol = some ref →
      let s := (sessionMachine
        (wiredSession p skippedSnapshot venue symbols hsymbols registry)).state {} events
      ((s.syncs symbol).state = .buffering → (s.books ref).entry venue = none) ∧
        ((s.syncs symbol).state = .live → ∃ k ≤ (histories symbol).events.length,
          (s.syncs symbol).lastFinalId = (histories symbol).idAt k ∧
          (s.books ref).entry venue = some ((histories symbol).bookAt k)) := by
  intro symbol hsymbol ref hregistry
  have hheard := Session.truthful_state hbooks fun pre event hpre =>
    hears_of_hearsExchange hp hpong (hears pre event hpre)
  exact hheard.shows (wiredPair_policy venue) (hnum symbol hsymbol) hsymbol hregistry

end Session

/-- A level of the sample bid. -/
def sampleBid (size : String) : Json := .array [.text "0.0000001", .text size]

/-- Two events and the answer to a request. -/
def sampleDocs : List Fields :=
  [[("e", .text "depthUpdate"), ("s", .text "BTCUSDT"), ("U", .integer 2), ("u", .integer 3),
      ("pu", .integer 1), ("b", .array [sampleBid "0.000007"]), ("a", .array [])],
    [("a", .array []), ("b", .array [sampleBid "0.000008"]), ("pu", .integer 3),
      ("u", .integer 5), ("U", .integer 4), ("s", .text "BTCUSDT"), ("e", .text "depthUpdate")],
    [("lastUpdateId", .integer 3), ("bids", .array [sampleBid "0.000007"]), ("asks", .array [])]]

/-- A parser of their texts. -/
def sampleParser : OnDemand := Json.scanning (Json.decodeAmong sampleDocs)

def sampleFirstText : String :=
  "\x7b\"e\":\"depthUpdate\",\"s\":\"BTCUSDT\",\"U\":2,\"u\":3,\"pu\":1," ++
    "\"b\":[[\"0.0000001\",\"0.000007\"]],\"a\":[]\x7d"

def sampleSecondText : String :=
  "\x7b\"a\":[],\"b\":[[\"0.0000001\",\"0.000008\"]],\"pu\":3,\"u\":5,\"U\":4," ++
    "\"s\":\"BTCUSDT\",\"e\":\"depthUpdate\"\x7d"

def sampleAnswerText : String :=
  "\x7b\"lastUpdateId\":3,\"bids\":[[\"0.0000001\",\"0.000007\"]],\"asks\":[]\x7d"

/-- A Binance Futures session of one symbol. -/
def sampleWiredSession : SessionConfig :=
  wiredSession sampleParser (fun _ => none) ⟨.binance, .perp⟩ ["BTCUSDT"] (by decide) fun _ =>
    some 0

/-- The connection drops before anything is read; on the next one the answer to the request of
the dropped one arrives between the two events. -/
def sampleWire : List SessionEvent :=
  [.start, .startRun, .runBegin, .connectOk, .sendOk, .fetchBegin 0, .readFailed, .backoffEnded,
    .connectOk, .sendOk, .read sampleFirstText, .fetchResponse 0 sampleAnswerText,
    .read sampleSecondText]

theorem wire_to_book_sample :
    let s := (sessionMachine sampleWiredSession).state {} sampleWire
    (s.syncs "BTCUSDT").state = .live ∧ (s.syncs "BTCUSDT").lastFinalId = 5 ∧
      ∃ k ≤ History.sampleHistory.events.length,
        (s.syncs "BTCUSDT").lastFinalId = History.sampleHistory.idAt k ∧
        (s.books 0).entry ⟨.binance, .perp⟩ = some (History.sampleHistory.bookAt k) := by
  have hdocs : ∀ {text : String} {fields : Fields}, Json.decodeAmong sampleDocs text =
      some fields → fields = sampleDocs[0] ∨ fields = sampleDocs[1] ∨ fields = sampleDocs[2] := by
    intro text fields h
    simpa [sampleDocs] using List.mem_of_find?_eq_some h
  have hopens : ∀ {text : String} {fields : Fields}, Json.decodeAmong sampleDocs text =
      some fields → Opens (p := sampleParser) (fun (o : Fields) fields => o.Perm fields) text
        fields := by
    intro text fields h
    refine ⟨fields, h, .refl _, ?_⟩
    obtain rfl | rfl | rfl := hdocs h <;> simp [sampleDocs, Json.Fields.Distinct, sampleBid]
  have hpong : sampleParser.iterate "pong" = none := by
    change Json.decodeAmong sampleDocs "pong" = none
    decide +kernel
  have hheard : ∀ s event, HearsExchange (p := sampleParser)
      (fun (o : Fields) fields => o.Perm fields) ⟨.binance, .perp⟩ ["BTCUSDT"]
      (fun _ => .sampleHistory) s event := by
    intro s event
    cases event with
    | read text =>
      cases hdecode : Json.decodeAmong sampleDocs text with
      | none =>
        have hiterate : sampleParser.iterate text = none := hdecode
        exact .inl fun m => by
          simp [wiredFeed, binanceFuturesFeed, Binance.parseMessage, hiterate]
      | some fields =>
        refine .inr ⟨fields, hopens hdecode, fun _ hcarries => hcarries.elim,
          fun update hcarries _ => ?_⟩
        have hparsed := ((reads_wiredFeed (p := sampleParser) (Json.scanning_laws _) hpong
          (hopens hdecode)).message _).mpr hcarries
        have hiterate : sampleParser.iterate text = some fields := hdecode
        simp only [wiredFeed, binanceFuturesFeed, Binance.parseMessage, hiterate] at hparsed
        obtain rfl | rfl | rfl := hdocs hdecode
        · cases hparsed
          exact ⟨List.mem_cons_self, by decide⟩
        · cases hparsed
          exact ⟨List.mem_cons_of_mem _ List.mem_cons_self, by decide⟩
        · cases hparsed
    | fetchResponse i body =>
      intro fetch _
      cases hdecode : Json.decodeAmong sampleDocs body with
      | none =>
        have hiterate : sampleParser.iterate body = none := hdecode
        refine .inl fun rest hrest snapshot => ?_
        obtain rfl := Option.some.inj hrest
        simp [Binance.parseSnapshotResponse, hiterate]
      | some fields =>
        refine .inr ⟨fields, hopens hdecode, fun snapshot hsymbol hsnapshot => ?_⟩
        have hrest : (wiredFeed sampleParser ⟨.binance, .perp⟩).rest = some _ := rfl
        have hparsed := (wiredFeed_parseSnapshotResponse (Json.scanning_laws _) (hopens hdecode)
          hrest fetch.symbol snapshot).mpr ⟨hsymbol, hsnapshot⟩
        have hiterate : sampleParser.iterate body = some fields := hdecode
        simp only [Binance.parseSnapshotResponse, hiterate] at hparsed
        obtain rfl | rfl | rfl := hdocs hdecode
        · cases hparsed
        · cases hparsed
        · cases hparsed
          have hlast : 1 ≤ History.sampleHistory.events.length := by decide
          exact ⟨⟨1, hlast, .inl ⟨rfl, rfl⟩⟩, rfl⟩
    | _ => trivial
  have hbooks : sampleWiredSession.DistinctBooks := by
    intro symbol hsymbol symbol' hsymbol' ref _ _
    rw [List.mem_singleton.mp hsymbol, List.mem_singleton.mp hsymbol']
  have hlive : (((sessionMachine sampleWiredSession).state {} sampleWire).syncs
      "BTCUSDT").state = .live := by decide +kernel
  refine ⟨hlive, by decide +kernel, ?_⟩
  exact (wire_to_book sampleParser _ _ (Json.scanning_laws _) hpong (fun _ => none)
    ⟨.binance, .perp⟩ ["BTCUSDT"] (by decide) (fun _ => some 0) hbooks
    (fun _ => .sampleHistory) (fun _ _ => History.forall_events (by decide)) sampleWire
    (fun _ _ _ => hheard _ _) "BTCUSDT" (by decide) 0 rfl).2 hlive

end Hermeneutic
