import Mathlib.Data.List.Dedup
import Hermeneutic.Aggregator.AggregatorService
import Hermeneutic.Ingestion.IdleTimeouts
import Hermeneutic.Ingestion.SymbolRouting

/-!
# Starting a server

`startup` is what `apps/aggregator/server_main.cpp` makes of a config: the books it serves, one
session for each venue that feeds any of them, and a number of threads; or the message it exits
with. A venue that no session is wired for, and an override for a venue without one, are fatal.

`startup_implements` says which configs a server starts with and that it implements them. The
two conditions `AggregatorService` asserts of its books are the fields of `ServedBooks`, proved
here of whatever the config names. `listed_books_are_served` is about a client of such a server:
the books it lists are spelt the way it reads them, and they are the ones it can subscribe to.

A config is checked in three passes over its text and wired in a fourth, and any of them may
refuse it. What the passes accept is in the modules of the parsers; here `Starts` collects what
they have produced when none has refused, `startup_ok_iff` says that a server comes of exactly
that, and `Starts.implements` reads the server's books, sessions, registries and timeouts back in
terms of the config. `SubscriptionConfig.Valid` and `Server.Implements` mention no pass: they
speak of the entries of the config and of what it says feeds which book
(`SubscriptionConfig.Feeds`).
-/

namespace Hermeneutic

/-- A config, by what the accesses to it give. -/
structure SubscriptionConfig where
  books : List BookConfig
  idleTimeoutSeconds : Except SimdjsonError Int64
  venueIdleTimeoutOverrides : Except SimdjsonError (List (Except SimdjsonError OverrideEntry))
  ioThreads : Except SimdjsonError Int64

/-- What a venue's session is added to the runner with. -/
structure WiredSession where
  venue : VenueId
  nativeSymbols : List NativeSymbol
  registry : SymbolRegistry BookId
  idleTimeout : Seconds

/-- A server that has started. -/
structure Server where
  served : ServedBooks
  sessions : List WiredSession
  ioThreads : Int64

/-- The books of the subscriptions, in first-seen order. -/
def bookSymbols (subs : List VenueSubscription) : List BookId :=
  subs.foldl (fun ids sub => if sub.bookId ∈ ids then ids else ids ++ [sub.bookId]) []

/-- The venues there is a feed and a policy for, in the order they are wired. -/
def wireOrder : List VenueId :=
  [⟨.binance, .spot⟩, ⟨.binance, .perp⟩, ⟨.bybit, .spot⟩, ⟨.bybit, .perp⟩, ⟨.okx, .spot⟩,
    ⟨.okx, .perp⟩]

/-- The session of a venue. -/
def sessionFor (subs : List VenueSubscription) (idle : IdleTimeoutConfig) (venue : VenueId) :
    WiredSession where
  venue := venue
  nativeSymbols := (groupSubscriptions subs venue).nativeSymbols
  registry := (groupSubscriptions subs venue).registry
  idleTimeout := idle.forVenue venue

/-- A venue is wired if some subscription is for it. -/
def wireVenue (subs : List VenueSubscription) (idle : IdleTimeoutConfig) (venue : VenueId) :
    Option WiredSession :=
  if subs.any (·.venueId = venue) then some (sessionFor subs idle venue) else none

/-- The venues that are not wired, in their display form. -/
def venuesMissingFrom (candidates wired : List VenueId) : List String :=
  (candidates.filter (· ∉ wired)).map VenueId.toString

def failOnBadVenues (badVenues : List String) (what consequence : String) : Except String Unit :=
  if badVenues.isEmpty then .ok ()
  else .error ("fatal: " ++ what ++ " names " ++ toString badVenues.length ++ " venue(s) " ++
    consequence ++ ":" ++ String.join (badVenues.map (" " ++ ·)))

def invalidConfig (message : String) : String := "invalid subscription config: " ++ message

/-! ### The books -/

private theorem bookSymbols_concat (subs : List VenueSubscription) (sub : VenueSubscription) :
    bookSymbols (subs ++ [sub]) =
      if sub.bookId ∈ bookSymbols subs then bookSymbols subs
      else bookSymbols subs ++ [sub.bookId] := by
  rw [bookSymbols, List.foldl_append]
  rfl

private theorem mem_bookSymbols_iff {subs : List VenueSubscription} {id : BookId} :
    id ∈ bookSymbols subs ↔ ∃ sub ∈ subs, sub.bookId = id := by
  induction subs using List.reverseRecOn with
  | nil => simp [bookSymbols]
  | append_singleton subs sub ih =>
    have hlast : (∃ s ∈ subs ++ [sub], s.bookId = id) ↔
        (∃ s ∈ subs, s.bookId = id) ∨ sub.bookId = id := by
      simp [or_and_right, exists_or]
    rw [bookSymbols_concat, hlast, ← ih]
    split
    · rename_i hseen
      refine ⟨.inl, ?_⟩
      rintro (hmem | rfl)
      · exact hmem
      · exact hseen
    · rw [List.mem_append, List.mem_singleton, eq_comm]

private theorem nodup_bookSymbols (subs : List VenueSubscription) : (bookSymbols subs).Nodup := by
  induction subs using List.reverseRecOn with
  | nil => exact List.nodup_nil
  | append_singleton subs sub ih =>
    rw [bookSymbols_concat]
    split
    · exact ih
    · rename_i hnew
      exact List.nodup_append.mpr ⟨ih, List.nodup_singleton _, by
        intro id hid id' hid' heq
        rw [List.mem_singleton] at hid'
        exact hnew (hid' ▸ heq ▸ hid)⟩

/-- An accepted config subscribes to something. -/
private theorem bookSymbols_ne_nil {books : List BookConfig} {subs : List VenueSubscription}
    (h : parseBookSubscriptions books = .ok subs) : bookSymbols subs ≠ [] := by
  have hsubs : subs ≠ [] := by
    obtain ⟨s, -, hok⟩ := exists_of_bind_ok h
    split_ifs at hok with hempty
    rw [← Except.ok.inj hok]
    simpa using hempty
  obtain ⟨sub, rest, rfl⟩ := List.exists_cons_of_ne_nil hsubs
  exact List.ne_nil_of_mem (mem_bookSymbols_iff.mpr ⟨sub, List.mem_cons_self, rfl⟩)

/-- The startup code behind the parsing of the subscriptions. -/
def startSubscribed (config : SubscriptionConfig) (subs : List VenueSubscription)
    (hsubs : bookSymbols subs ≠ []) : Except String Server := do
  let idle ← (parseIdleTimeoutConfig config.idleTimeoutSeconds
    config.venueIdleTimeoutOverrides).mapError invalidConfig
  let ioThreads ← (parseIoThreads config.ioThreads).mapError invalidConfig
  let sessions := wireOrder.filterMap (wireVenue subs idle)
  let wired := sessions.map WiredSession.venue
  failOnBadVenues (venuesMissingFrom (subs.map (·.venueId)).dedup wired) "subscription config"
    "this binary has no wire_venue<>() call for (they would silently receive zero ingestion)"
  failOnBadVenues (venuesMissingFrom (idle.overrides.map Prod.fst) wired)
    "venue_idle_timeout_overrides"
    "not present in \"books\" (the override would silently do nothing)"
  return ⟨⟨bookSymbols subs, hsubs, nodup_bookSymbols subs⟩, sessions, ioThreads⟩

/-- What the startup code makes of a config. -/
def startup (config : SubscriptionConfig) : Except String Server :=
  match h : parseBookSubscriptions config.books with
  | .error message => .error (invalidConfig message)
  | .ok subs => startSubscribed config subs (bookSymbols_ne_nil h)

private theorem startup_of_error {config : SubscriptionConfig} {message : String}
    (h : parseBookSubscriptions config.books = .error message) :
    startup config = .error (invalidConfig message) := by
  rw [startup]
  split
  · rename_i message' h'
    rw [Except.error.inj (h'.symm.trans h)]
  · rename_i subs h'
    cases h'.symm.trans h

private theorem startup_of_ok {config : SubscriptionConfig} {subs : List VenueSubscription}
    (h : parseBookSubscriptions config.books = .ok subs) :
    startup config = startSubscribed config subs (bookSymbols_ne_nil h) := by
  rw [startup]
  split
  · rename_i message h'
    cases h'.symm.trans h
  · rename_i subs' h'
    obtain rfl := Except.ok.inj (h'.symm.trans h)
    rfl

/-! ### The sessions -/

private theorem venuesMissingFrom_isEmpty_iff {candidates wired : List VenueId} :
    (venuesMissingFrom candidates wired).isEmpty = true ↔ ∀ venue ∈ candidates, venue ∈ wired := by
  simp [venuesMissingFrom]

private theorem failOnBadVenues_ok_iff {badVenues : List String} {what consequence : String} :
    failOnBadVenues badVenues what consequence = .ok () ↔ badVenues.isEmpty = true := by
  rw [failOnBadVenues]
  split <;> simp_all

section Sessions

variable {subs : List VenueSubscription} {idle : IdleTimeoutConfig}

/-- Every venue has its turn. -/
private theorem mem_wireOrder (venue : VenueId) : venue ∈ wireOrder := VenueId.mem_all venue

/-- What a wired session looks like. -/
theorem mem_sessions_iff {session : WiredSession} :
    session ∈ wireOrder.filterMap (wireVenue subs idle) ↔
      (∃ sub ∈ subs, sub.venueId = session.venue) ∧
        session = sessionFor subs idle session.venue := by
  rw [List.mem_filterMap]
  constructor
  · rintro ⟨venue, -, hwire⟩
    rw [wireVenue, Option.ite_none_right_eq_some, List.any_eq_true] at hwire
    obtain ⟨⟨sub, hsub, hvenue⟩, hsession⟩ := hwire
    rw [← Option.some.inj hsession]
    exact ⟨⟨sub, hsub, of_decide_eq_true hvenue⟩, rfl⟩
  · rintro ⟨⟨sub, hsub, hvenue⟩, hsession⟩
    refine ⟨session.venue, mem_wireOrder _, ?_⟩
    rw [wireVenue, if_pos (List.any_eq_true.mpr ⟨sub, hsub, decide_eq_true hvenue⟩), ← hsession]

/-- The venues wired are those subscribed to. -/
private theorem mem_wired_iff {venue : VenueId} :
    venue ∈ (wireOrder.filterMap (wireVenue subs idle)).map WiredSession.venue ↔
      ∃ sub ∈ subs, sub.venueId = venue := by
  rw [List.mem_map]
  constructor
  · rintro ⟨session, hsession, rfl⟩
    exact (mem_sessions_iff.mp hsession).1
  · intro hsub
    exact ⟨sessionFor subs idle venue, mem_sessions_iff.mpr ⟨hsub, rfl⟩, rfl⟩

/-- Venues are wired in order, each once at most. -/
private theorem wired_sublist :
    ((wireOrder.filterMap (wireVenue subs idle)).map WiredSession.venue).Sublist wireOrder := by
  have hwired : (wireOrder.filterMap (wireVenue subs idle)).map WiredSession.venue =
      wireOrder.filter fun venue => subs.any (·.venueId = venue) := by
    rw [List.map_filterMap, ← List.filterMap_eq_filter]
    refine congrFun (congrArg List.filterMap ?_) _
    funext venue
    rw [wireVenue, Option.guard]
    split <;> rfl
  rw [hwired]
  exact List.filter_sublist

end Sessions

/-! ### The server -/

/-- What a server that starts is made of. -/
structure Starts (config : SubscriptionConfig) (server : Server) (subs : List VenueSubscription)
    (idle : IdleTimeoutConfig) : Prop where
  parsed : parseBookSubscriptions config.books = .ok subs
  timeouts : parseIdleTimeoutConfig config.idleTimeoutSeconds config.venueIdleTimeoutOverrides =
    .ok idle
  ioThreads : parseIoThreads config.ioThreads = .ok server.ioThreads
  overrides : ∀ entry ∈ idle.overrides, ∃ sub ∈ subs, sub.venueId = entry.1
  ids : server.served.ids = bookSymbols subs
  sessions : server.sessions = wireOrder.filterMap (wireVenue subs idle)

/-- **Startup.** No other condition is checked: every venue a config can name is wired. -/
theorem startup_ok_iff {config : SubscriptionConfig} {server : Server} :
    startup config = .ok server ↔ ∃ subs idle, Starts config server subs idle := by
  have hunwired : ∀ subs idle, venuesMissingFrom (subs.map VenueSubscription.venueId).dedup
      ((wireOrder.filterMap (wireVenue subs idle)).map WiredSession.venue) = [] := by
    intro subs idle
    refine List.isEmpty_iff.mp (venuesMissingFrom_isEmpty_iff.mpr fun venue hvenue => ?_)
    exact mem_wired_iff.mpr (List.mem_map.mp (List.mem_dedup.mp hvenue))
  cases hsubs : parseBookSubscriptions config.books with
  | error message =>
    rw [startup_of_error hsubs]
    refine iff_of_false (fun h => nomatch h) ?_
    rintro ⟨subs, idle, hstarts⟩
    cases hsubs.symm.trans hstarts.parsed
  | ok subs =>
    rw [startup_of_ok hsubs]
    constructor
    · intro h
      obtain ⟨idle, hidle, h⟩ := exists_of_bind_ok h
      obtain ⟨ioThreads, hthreads, h⟩ := exists_of_bind_ok h
      obtain ⟨_, -, h⟩ := exists_of_bind_ok h
      obtain ⟨_, hoverrides, h⟩ := exists_of_bind_ok h
      obtain rfl := Except.ok.inj h
      rw [failOnBadVenues_ok_iff, venuesMissingFrom_isEmpty_iff] at hoverrides
      refine ⟨subs, idle, hsubs, mapError_ok_iff.mp hidle, mapError_ok_iff.mp hthreads,
        fun entry hmem => ?_, rfl, rfl⟩
      exact mem_wired_iff.mp (hoverrides _ (List.mem_map_of_mem hmem))
    · rintro ⟨subs', idle, hstarts⟩
      obtain rfl := Except.ok.inj (hsubs.symm.trans hstarts.parsed)
      obtain ⟨⟨ids, hne, hnodup⟩, sessions, ioThreads⟩ := server
      obtain rfl : ids = bookSymbols subs := hstarts.ids
      obtain rfl : sessions = wireOrder.filterMap (wireVenue subs idle) := hstarts.sessions
      have hoverrides : venuesMissingFrom (idle.overrides.map Prod.fst)
          ((wireOrder.filterMap (wireVenue subs idle)).map WiredSession.venue) = [] := by
        refine List.isEmpty_iff.mp (venuesMissingFrom_isEmpty_iff.mpr fun venue hvenue => ?_)
        obtain ⟨entry, hmem, rfl⟩ := List.mem_map.mp hvenue
        exact mem_wired_iff.mpr (hstarts.overrides entry hmem)
      rw [startSubscribed, mapError_ok_iff.mpr hstarts.timeouts,
        mapError_ok_iff.mpr hstarts.ioThreads]
      simp only [bind, Except.bind, hunwired, hoverrides]
      rfl

/-! ### What the server implements -/

/-- An entry of the config has a book fed by an exchange. -/
def SubscriptionConfig.Feeds (config : SubscriptionConfig) (id : BookId) (exchange : Exchange) :
    Prop :=
  ∃ book ∈ config.books, ∃ exchanges, book.Denotes id exchanges ∧ exchange ∈ exchanges

/-- A config without a mistake. -/
structure SubscriptionConfig.Valid (config : SubscriptionConfig) : Prop where
  /-- Every entry says which exchanges feed which book, and no book is configured twice. -/
  books : ∃ parsed : List (BookId × List Exchange),
    List.Forall₂ (fun book p => book.Denotes p.1 p.2) config.books parsed ∧
    (parsed.map Prod.fst).Nodup
  /-- There is an entry, and every one has a venue. -/
  nonempty : config.books ≠ [] ∧ ∀ book ∈ config.books, book.venues ≠ []
  idleTimeout : ∃ n,
    NumberDenotes kMaxIdleTimeout kDefaultIdleTimeout config.idleTimeoutSeconds n
  overrides : ∃ overrides, OverridesDenote config.venueIdleTimeoutOverrides overrides ∧
    ∀ entry ∈ overrides, ∃ id, config.Feeds id entry.1.exchange ∧ id.type = entry.1.type
  ioThreads : ∃ n, NumberDenotes kMaxIoThreads 1 config.ioThreads n

/-- A server does what its config says. -/
structure Server.Implements (server : Server) (config : SubscriptionConfig) : Prop where
  /-- It serves the books configured. -/
  books : ∀ id, id ∈ server.served.ids ↔ ∃ exchange, config.Feeds id exchange
  /-- The sessions are those of the venues that feed a book, one each, in the order of
  `wireOrder`. -/
  venues : (server.sessions.map WiredSession.venue).Sublist wireOrder ∧
    ∀ venue, venue ∈ server.sessions.map WiredSession.venue ↔
      ∃ id, config.Feeds id venue.exchange ∧ id.type = venue.type
  /-- The sessions subscribe to what feeds the books, and to nothing else. -/
  subscribed : ∀ venue symbol,
    (∃ session ∈ server.sessions, session.venue = venue ∧ symbol ∈ session.nativeSymbols) ↔
      ∃ id, config.Feeds id venue.exchange ∧ id.type = venue.type ∧
        nativeSymbol venue.exchange id.symbol id.type = symbol
  /-- Each routes what it subscribes to and nothing else. -/
  registered : ∀ session ∈ server.sessions, ∀ symbol,
    (session.registry.book symbol).isSome ↔ symbol ∈ session.nativeSymbols
  /-- It routes that to a book served of that spelling. -/
  routed : ∀ session ∈ server.sessions, ∀ symbol ∈ session.nativeSymbols,
    ∃ id ∈ server.served.ids, session.registry.book symbol = some id ∧
      id.type = session.venue.type ∧ nativeSymbol session.venue.exchange id.symbol id.type = symbol
  /-- Each has the idle timeout configured, which does not overflow; no override is idle. -/
  idle : ∃ idle : IdleTimeoutConfig,
    NumberDenotes kMaxIdleTimeout kDefaultIdleTimeout config.idleTimeoutSeconds
        idle.defaultTimeout ∧
      OverridesDenote config.venueIdleTimeoutOverrides idle.overrides ∧
      (∀ entry ∈ idle.overrides, ∃ session ∈ server.sessions, session.venue = entry.1) ∧
      ∀ session ∈ server.sessions, session.idleTimeout = idle.forVenue session.venue ∧
        0 < session.idleTimeout.toInt ∧
        (session.idleTimeout * 1000000000).toInt = session.idleTimeout.toInt * 1000000000
  ioThreads : NumberDenotes kMaxIoThreads 1 config.ioThreads server.ioThreads

section Implements

variable {config : SubscriptionConfig} {server : Server} {subs : List VenueSubscription}
  {idle : IdleTimeoutConfig}

/-- The subscriptions of an accepted config. -/
private theorem mem_subs_iff (h : parseBookSubscriptions config.books = .ok subs)
    {sub : VenueSubscription} :
    sub ∈ subs ↔ ∃ id exchange, config.Feeds id exchange ∧ subscription id exchange = sub := by
  rw [mem_subscriptions_iff h]
  constructor
  · rintro ⟨book, hbook, id, exchanges, hdenotes, exchange, hexchange, rfl⟩
    exact ⟨id, exchange, ⟨book, hbook, exchanges, hdenotes, hexchange⟩, rfl⟩
  · rintro ⟨id, exchange, ⟨book, hbook, exchanges, hdenotes, hexchange⟩, rfl⟩
    exact ⟨book, hbook, id, exchanges, hdenotes, exchange, hexchange, rfl⟩

/-- A venue is subscribed to when it feeds a book. -/
private theorem exists_sub_venue_iff (h : parseBookSubscriptions config.books = .ok subs)
    {venue : VenueId} : (∃ sub ∈ subs, sub.venueId = venue) ↔
      ∃ id, config.Feeds id venue.exchange ∧ id.type = venue.type := by
  constructor
  · rintro ⟨sub, hsub, rfl⟩
    obtain ⟨id, exchange, hfeeds, rfl⟩ := (mem_subs_iff h).mp hsub
    exact ⟨id, hfeeds, rfl⟩
  · rintro ⟨id, hfeeds, htype⟩
    refine ⟨subscription id venue.exchange, (mem_subs_iff h).mpr ⟨id, _, hfeeds, rfl⟩, ?_⟩
    rw [subscription, htype]

/-- What a session subscribes with. -/
private theorem mem_nativeSymbols_iff {venue : VenueId} {symbol : NativeSymbol} :
    symbol ∈ (sessionFor subs idle venue).nativeSymbols ↔
      ∃ sub ∈ subs, sub.venueId = venue ∧ sub.nativeSymbol = symbol := by
  simp [sessionFor, nativeSymbols_groupSubscriptions, and_assoc]

theorem Starts.mem_sessions_iff (h : Starts config server subs idle) {session : WiredSession} :
    session ∈ server.sessions ↔ (∃ sub ∈ subs, sub.venueId = session.venue) ∧
      session = sessionFor subs idle session.venue := by
  rw [h.sessions, Hermeneutic.mem_sessions_iff]

/-- **A server that starts implements its config.** -/
theorem Starts.implements (h : Starts config server subs idle) : server.Implements config where
  books id := by
    rw [h.ids, mem_bookSymbols_iff]
    constructor
    · rintro ⟨sub, hsub, rfl⟩
      obtain ⟨id, exchange, hfeeds, rfl⟩ := (mem_subs_iff h.parsed).mp hsub
      exact ⟨exchange, hfeeds⟩
    · rintro ⟨exchange, hfeeds⟩
      exact ⟨_, (mem_subs_iff h.parsed).mpr ⟨id, exchange, hfeeds, rfl⟩, rfl⟩
  venues := by
    rw [h.sessions]
    exact ⟨wired_sublist, fun venue => mem_wired_iff.trans (exists_sub_venue_iff h.parsed)⟩
  subscribed venue symbol := by
    simp only [h.mem_sessions_iff]
    constructor
    · rintro ⟨session, ⟨-, hsession⟩, rfl, hsymbol⟩
      rw [hsession, mem_nativeSymbols_iff] at hsymbol
      obtain ⟨sub, hsub, hvenue, rfl⟩ := hsymbol
      obtain ⟨id, exchange, hfeeds, rfl⟩ := (mem_subs_iff h.parsed).mp hsub
      rw [← hvenue]
      exact ⟨id, hfeeds, rfl, rfl⟩
    · rintro ⟨id, hfeeds, htype, rfl⟩
      have hsub := (mem_subs_iff h.parsed).mpr ⟨id, venue.exchange, hfeeds, rfl⟩
      have hvenue : (subscription id venue.exchange).venueId = venue := by
        rw [subscription, htype]
      exact ⟨sessionFor subs idle venue, ⟨⟨_, hsub, hvenue⟩, rfl⟩, rfl,
        mem_nativeSymbols_iff.mpr ⟨_, hsub, hvenue, rfl⟩⟩
  registered session hsession symbol := by
    rw [(h.mem_sessions_iff.mp hsession).2, mem_nativeSymbols_iff, sessionFor,
      book_groupSubscriptions, Option.isSome_map, List.find?_isSome]
    simp [VenueSubscription.isFor]
  routed session hsession symbol hsymbol := by
    have hsession := (h.mem_sessions_iff.mp hsession).2
    rw [hsession, mem_nativeSymbols_iff] at hsymbol
    obtain ⟨sub, hsub, hvenue, hsymbol⟩ := hsymbol
    have hfor : sub.isFor session.venue symbol = true := by
      simp [VenueSubscription.isFor, hvenue, hsymbol]
    rw [hsession, sessionFor, book_groupSubscriptions]
    cases hfind : subs.find? (·.isFor session.venue symbol) with
    | none => exact absurd hfor (List.find?_eq_none.mp hfind sub hsub)
    | some first =>
      have hfirst := List.find?_some hfind
      rw [VenueSubscription.isFor, Bool.and_eq_true, decide_eq_true_eq, decide_eq_true_eq]
        at hfirst
      have hmem := List.mem_of_find?_eq_some hfind
      obtain ⟨id, exchange, hfeeds, rfl⟩ := (mem_subs_iff h.parsed).mp hmem
      refine ⟨id, ?_, rfl, ?_⟩
      · rw [h.ids]
        exact mem_bookSymbols_iff.mpr ⟨_, hmem, rfl⟩
      · rw [← hfirst.1]
        exact ⟨rfl, hfirst.2⟩
  idle := by
    obtain ⟨hdefault, hoverrides⟩ := parseIdleTimeoutConfig_ok_iff.mp h.timeouts
    refine ⟨idle, hdefault, hoverrides, fun entry hmem => ?_, fun session hsession => ?_⟩
    · exact ⟨sessionFor subs idle entry.1,
        h.mem_sessions_iff.mpr ⟨h.overrides entry hmem, rfl⟩, rfl⟩
    · have hidle := congrArg WiredSession.idleTimeout (h.mem_sessions_iff.mp hsession).2
      rw [hidle]
      exact ⟨rfl, nanoseconds_of_withinLimit (forVenue_withinLimit h.timeouts session.venue)⟩
  ioThreads := parseIoThreads_ok_iff.mp h.ioThreads

/-- A valid config is accepted in all its parts. -/
private theorem exists_starts_iff :
    (∃ server subs idle, Starts config server subs idle) ↔ config.Valid := by
  constructor
  · rintro ⟨server, subs, idle, h⟩
    obtain ⟨hdefault, hoverrides⟩ := parseIdleTimeoutConfig_ok_iff.mp h.timeouts
    obtain ⟨hbooks, hnonempty⟩ := parseBookSubscriptions_isOk_iff.mp ⟨subs, h.parsed⟩
    refine ⟨hbooks, hnonempty, ⟨_, hdefault⟩, ⟨_, hoverrides, fun entry hmem => ?_⟩,
      ⟨_, parseIoThreads_ok_iff.mp h.ioThreads⟩⟩
    exact (exists_sub_venue_iff h.parsed).mp (h.overrides entry hmem)
  · rintro ⟨hbooks, hnonempty, ⟨n, hdefault⟩, ⟨overrides, hoverrides, hused⟩,
      ⟨threads, hthreads⟩⟩
    obtain ⟨subs, hsubs⟩ := parseBookSubscriptions_isOk_iff.mpr ⟨hbooks, hnonempty⟩
    let idle : IdleTimeoutConfig := ⟨n, overrides⟩
    exact ⟨⟨⟨bookSymbols subs, bookSymbols_ne_nil hsubs, nodup_bookSymbols subs⟩,
      wireOrder.filterMap (wireVenue subs idle), threads⟩, subs, idle, hsubs,
      parseIdleTimeoutConfig_ok_iff.mpr ⟨hdefault, hoverrides⟩,
      parseIoThreads_ok_iff.mpr hthreads,
      fun entry hmem => (exists_sub_venue_iff hsubs).mpr (hused entry hmem), rfl, rfl⟩

end Implements

/-- **Startup.** A server starts with exactly the valid configs, and implements the one it is
started with. -/
theorem startup_implements (config : SubscriptionConfig) :
    ((∃ server, startup config = .ok server) ↔ config.Valid) ∧
      ∀ server, startup config = .ok server → server.Implements config := by
  simp only [startup_ok_iff, exists_starts_iff, true_and]
  rintro server ⟨subs, idle, hstarts⟩
  exact hstarts.implements

/-! ### Listing the books -/

/-- What the client's `list` prints of a response, one label a line. -/
def listLines (books : List WireBookId) : List String :=
  let labels := (books.map fun wire =>
    match toSymbolBookId wire with
    | some id => id.toString
    | none => "(malformed book in response)").mergeSort
  if labels.isEmpty then ["(server reports no configured books)"] else labels

/-- Every book with plain codes is well formed on the wire. -/
private theorem toSymbolBookId_fillWireBookId {id : BookId} (hplain : id.symbol.Plain) :
    toSymbolBookId (fillWireBookId id) = some id := by
  refine toSymbolBookId_eq_some_iff.mpr ⟨rfl, fun hbase => ?_, fun hquote => ?_⟩
  · exact hplain.base.nonempty (by rw [hbase]; rfl)
  · exact hplain.quote.nonempty (by rw [hquote]; rfl)

/-- Plain books are printed by their spellings, sorted. -/
private theorem listLines_spec {books : List WireBookId} {ids : List BookId}
    (hbooks : books.Perm (ids.map fillWireBookId)) (hne : ids ≠ [])
    (hplain : ∀ id ∈ ids, id.symbol.Plain) :
    (listLines books).Perm (ids.map BookId.toString) ∧ (listLines books).Pairwise (· ≤ ·) := by
  let label : WireBookId → String := fun wire =>
    match toSymbolBookId wire with
    | some id => id.toString
    | none => "(malformed book in response)"
  have hlabels : (ids.map fillWireBookId).map label = ids.map BookId.toString := by
    rw [List.map_map]
    refine List.map_congr_left fun id hid => ?_
    simp only [label, Function.comp_apply, toSymbolBookId_fillWireBookId (hplain id hid)]
  have hperm : (books.map label).mergeSort.Perm (ids.map BookId.toString) :=
    (List.mergeSort_perm _ _).trans (hlabels ▸ hbooks.map label)
  have hlines : listLines books = (books.map label).mergeSort := by
    refine if_neg fun hempty => hne ?_
    rw [List.isEmpty_iff.mp hempty] at hperm
    exact List.map_eq_nil_iff.mp hperm.symm.eq_nil
  rw [hlines]
  refine ⟨hperm, ?_⟩
  have htrans : ∀ s t u : String, decide (s ≤ t) → decide (t ≤ u) → decide (s ≤ u) := by
    intro s t u hst htu
    exact decide_eq_true (String.le_trans (of_decide_eq_true hst) (of_decide_eq_true htu))
  have htotal : ∀ s t : String, decide (s ≤ t) || decide (t ≤ s) := by
    intro s t
    simpa using String.le_total s t
  exact (List.pairwise_mergeSort htrans htotal (books.map label)).imp of_decide_eq_true

/-- **What is listed is served.** The client prints the books of a server sorted and without
repetition. Typed back as an argument, a text is one of these lines exactly when it names a book
the server admits a subscription to; any other book it names is answered `NOT_FOUND`. -/
theorem listed_books_are_served {config : SubscriptionConfig} {server : Server}
    (h : startup config = .ok server) {books : List WireBookId}
    (hbooks : books.Perm server.served.listBooks) :
    ((listLines books).Pairwise (· ≤ ·) ∧ (listLines books).Nodup) ∧
      ∀ token : String,
        (token ∈ listLines books ↔ ∃ id, parseBookId token.toList = some id ∧
          server.served.target (fillWireBookId id) = .ok id) ∧
        ∀ id, parseBookId token.toList = some id → token ∉ listLines books →
          server.served.target (fillWireBookId id) =
            .error (.notFound ("unknown book: " ++ token)) := by
  obtain ⟨subs, idle, hstarts⟩ := startup_ok_iff.mp h
  have hplain : ∀ id ∈ server.served.ids, id.symbol.Plain := by
    intro id hid
    obtain ⟨exchange, book, -, exchanges, hdenotes, -⟩ := (hstarts.implements.books id).mp hid
    exact (splitBaseQuote_eq_some_iff.mp hdenotes.symbol).1
  have hparse : ∀ id ∈ server.served.ids, parseBookId id.toString.toList = some id :=
    fun id hid => parseBookId_eq_some_iff.mpr ⟨hplain id hid, rfl⟩
  obtain ⟨hperm, hsorted⟩ := listLines_spec hbooks server.served.nonempty hplain
  have htarget : ∀ id : BookId, id.symbol.Plain → server.served.target (fillWireBookId id) =
      if id ∈ server.served.ids then .ok id
      else .error (.notFound ("unknown book: " ++ id.toString)) := by
    intro id hid
    rw [ServedBooks.target, toSymbolBookId_fillWireBookId hid]
  have hlisted : ∀ token : String, token ∈ listLines books ↔
      ∃ id, parseBookId token.toList = some id ∧ id ∈ server.served.ids := by
    intro token
    rw [hperm.mem_iff, List.mem_map]
    constructor
    · rintro ⟨id, hid, rfl⟩
      exact ⟨id, hparse id hid, hid⟩
    · rintro ⟨id, hid, hmem⟩
      exact ⟨id, hmem, String.toList_inj.mp (parseBookId_eq_some_iff.mp hid).2⟩
  refine ⟨⟨hsorted, hperm.nodup_iff.mpr ?_⟩, fun token => ⟨?_, fun id hid hnot => ?_⟩⟩
  · refine List.Nodup.map_on (fun id hid id' hid' heq => ?_) server.served.nodup
    exact Option.some.inj ((hparse id hid).symm.trans (heq ▸ hparse id' hid'))
  · rw [hlisted]
    refine exists_congr fun id => and_congr_right fun hid => ?_
    rw [htarget id (parseBookId_eq_some_iff.mp hid).1]
    split <;> simp_all
  · have htoken : id.toString = token := String.toList_inj.mp (parseBookId_eq_some_iff.mp hid).2
    have hunserved : id ∉ server.served.ids :=
      fun hmem => hnot ((hlisted token).mpr ⟨id, hid, hmem⟩)
    rw [htarget id (parseBookId_eq_some_iff.mp hid).1, if_neg hunserved, htoken]

/-- Two markets of one pair, one of them with an override. -/
def sampleConfig : SubscriptionConfig where
  books := [⟨"BTC_USDT", "SPOT", ["BINANCE", "OKX"]⟩, ⟨"BTC_USDT", "PERP", ["OKX"]⟩]
  idleTimeoutSeconds := .error ⟨.noSuchField, ""⟩
  venueIdleTimeoutOverrides := .ok [.ok ⟨"OKX", "PERP", 120⟩]
  ioThreads := .ok 4

/-- The server it starts. -/
def sampleServer : Server where
  served := spotAndPerp
  sessions :=
    [⟨⟨.binance, .spot⟩, ["BTCUSDT"], ⟨[("BTCUSDT", ⟨⟨⟨"BTC"⟩, ⟨"USDT"⟩⟩, .spot⟩)]⟩, 30⟩,
      ⟨⟨.okx, .spot⟩, ["BTC-USDT"], ⟨[("BTC-USDT", ⟨⟨⟨"BTC"⟩, ⟨"USDT"⟩⟩, .spot⟩)]⟩, 30⟩,
      ⟨⟨.okx, .perp⟩, ["BTC-USDT-SWAP"],
        ⟨[("BTC-USDT-SWAP", ⟨⟨⟨"BTC"⟩, ⟨"USDT"⟩⟩, .perp⟩)]⟩, 120⟩]
  ioThreads := 4

private theorem startup_sampleConfig : startup sampleConfig = .ok sampleServer := rfl

theorem startup_implements_sample : sampleConfig.Valid ∧ sampleServer.Implements sampleConfig :=
  ⟨(startup_implements sampleConfig).1.mp ⟨sampleServer, startup_sampleConfig⟩,
    (startup_implements sampleConfig).2 sampleServer startup_sampleConfig⟩

theorem listed_books_are_served_sample :
    "BTC_USDT.PERP" ∈ listLines sampleServer.served.listBooks ↔
      ∃ id, parseBookId "BTC_USDT.PERP".toList = some id ∧
        sampleServer.served.target (fillWireBookId id) = .ok id :=
  ((listed_books_are_served startup_sampleConfig (List.Perm.refl _)).2 "BTC_USDT.PERP").1

end Hermeneutic
