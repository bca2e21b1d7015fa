import Mathlib.Data.List.Pairwise
import Hermeneutic.Ingestion.BookSubscription

/-!
# Routing native symbols to books

The startup code (`apps/aggregator/server_main.cpp`) groups the subscriptions by venue: each
venue gets the list of symbols to subscribe with and a `SymbolRegistry`
(`ingestion/venue_session.hpp`) that routes what its feed receives to a book. A registry keeps
the first book registered under a symbol.

The checks on a config are about books, the routing is about spellings. `routesUniquely_iff`
says which accepted configs are routed as configured: those in which no two books of one market
on one exchange differ by a moved boundary between base and quote (`BoundaryMoved`).
-/

namespace Hermeneutic

/-- Symbol to book, built once at startup. -/
structure SymbolRegistry (Book : Type*) where
  books : List (NativeSymbol × Book)

namespace SymbolRegistry

variable {Book : Type*}

/-- The book a symbol is routed to. -/
def book (registry : SymbolRegistry Book) (symbol : NativeSymbol) : Option Book :=
  registry.books.lookup symbol

/-- `emplace`: a symbol that is registered keeps its book. -/
def add (registry : SymbolRegistry Book) (symbol : NativeSymbol) (book : Book) :
    SymbolRegistry Book :=
  if (registry.book symbol).isSome then registry else ⟨registry.books ++ [(symbol, book)]⟩

end SymbolRegistry

/-- What a venue's session is constructed from. -/
structure VenueGroup where
  nativeSymbols : List NativeSymbol
  registry : SymbolRegistry BookId

/-- Adds a subscription to the group of its venue. -/
def VenueGroup.add (group : VenueGroup) (sub : VenueSubscription) : VenueGroup :=
  ⟨group.nativeSymbols ++ [sub.nativeSymbol], group.registry.add sub.nativeSymbol sub.bookId⟩

/-- The registry-building loop of the startup code, over groups that start empty. -/
def groupSubscriptions (subs : List VenueSubscription) : VenueId → VenueGroup :=
  subs.foldl (fun groups sub venue =>
    if venue = sub.venueId then (groups venue).add sub else groups venue) fun _ => ⟨[], ⟨[]⟩⟩

/-! ### What the registry holds -/

namespace SymbolRegistry

variable {Book : Type*}

/-- The first book registered under a symbol stays. -/
private theorem book_add (registry : SymbolRegistry Book) (symbol symbol' : NativeSymbol)
    (b : Book) :
    (registry.add symbol b).book symbol' =
      (registry.book symbol').or (if symbol' = symbol then some b else none) := by
  rw [add]
  split_ifs with hsome heq heq
  · subst heq
    obtain ⟨b', hb'⟩ := Option.isSome_iff_exists.mp hsome
    rw [hb', Option.some_or]
  · rw [Option.or_none]
  · rw [book, List.lookup_append, heq, List.lookup_cons_self]
    rfl
  · rw [book, List.lookup_append, List.lookup_cons, beq_false_of_ne heq, List.lookup_nil]
    rfl

end SymbolRegistry

/-- Whether a subscription is for a symbol of a venue. -/
def VenueSubscription.isFor (sub : VenueSubscription) (venue : VenueId) (symbol : NativeSymbol) :
    Bool :=
  sub.venueId = venue && sub.nativeSymbol = symbol

private theorem groupSubscriptions_concat (subs : List VenueSubscription) (sub : VenueSubscription)
    (venue : VenueId) : groupSubscriptions (subs ++ [sub]) venue =
      if venue = sub.venueId then (groupSubscriptions subs venue).add sub
      else groupSubscriptions subs venue := by
  simp only [groupSubscriptions, List.foldl_append, List.foldl_cons, List.foldl_nil]

/-- A venue subscribes with the symbols of its own subscriptions, in order. -/
theorem nativeSymbols_groupSubscriptions (subs : List VenueSubscription) (venue : VenueId) :
    (groupSubscriptions subs venue).nativeSymbols =
      (subs.filter (·.venueId = venue)).map (·.nativeSymbol) := by
  induction subs using List.reverseRecOn with
  | nil => rfl
  | append_singleton subs sub ih =>
    rw [groupSubscriptions_concat, List.filter_append, List.map_append, ← ih]
    by_cases hvenue : venue = sub.venueId
    · rw [if_pos hvenue, List.filter_cons_of_pos (by simpa using hvenue.symm)]
      rfl
    · rw [if_neg hvenue, List.filter_cons_of_neg (by simpa using Ne.symm hvenue)]
      exact (List.append_nil _).symm

/-- A symbol of a venue is routed to the book of the first subscription for it. -/
theorem book_groupSubscriptions (subs : List VenueSubscription) (venue : VenueId)
    (symbol : NativeSymbol) : (groupSubscriptions subs venue).registry.book symbol =
      (subs.find? (·.isFor venue symbol)).map (·.bookId) := by
  induction subs using List.reverseRecOn with
  | nil => rfl
  | append_singleton subs sub ih =>
    rw [groupSubscriptions_concat, List.find?_append, Option.map_or, ← ih]
    by_cases hvenue : venue = sub.venueId
    · rw [if_pos hvenue, VenueGroup.add, SymbolRegistry.book_add]
      congr 1
      by_cases hsymbol : symbol = sub.nativeSymbol <;>
        simp [VenueSubscription.isFor, hvenue, hsymbol, eq_comm]
    · have hnot : sub.isFor venue symbol = false := by
        simp [VenueSubscription.isFor, Ne.symm hvenue]
      rw [if_neg hvenue, List.find?_cons_of_neg (by simp [hnot]), List.find?_nil, Option.map_none,
        Option.or_none]

/-! ### Routing as configured -/

/-- Two subscriptions a venue cannot tell apart. -/
def VenueSubscription.SameRoute (sub sub' : VenueSubscription) : Prop :=
  sub.venueId = sub'.venueId ∧ sub.nativeSymbol = sub'.nativeSymbol

private theorem not_sameRoute_symm :
    Std.Symm fun sub sub' : VenueSubscription => ¬sub.SameRoute sub' :=
  ⟨fun _ _ hne hsame => hne ⟨hsame.1.symm, hsame.2.symm⟩⟩

/-- Every symbol of a venue stands for one configured book, and every configured book is
registered under its symbol at each of its venues. -/
structure RoutesUniquely (books : List BookConfig) (subs : List VenueSubscription) : Prop where
  distinct : subs.Pairwise fun sub sub' => ¬sub.SameRoute sub'
  subscribed_once : ∀ venue, (groupSubscriptions subs venue).nativeSymbols.Nodup
  registered : ∀ book ∈ books, ∀ id exchanges, book.Denotes id exchanges →
    ∀ exchange ∈ exchanges, (groupSubscriptions subs ⟨exchange, id.type⟩).registry.book
      (nativeSymbol exchange id.symbol id.type) = some id

/-- No two books of one market on one exchange are spelt alike with the boundary between base
and quote in different places. -/
def BoundariesKept (books : List BookConfig) : Prop :=
  ∀ book ∈ books, ∀ book' ∈ books, book.type = book'.type →
    ∀ exchange, exchangeName exchange ∈ book.venues → exchangeName exchange ∈ book'.venues →
      ∀ symbol symbol', splitBaseQuote book.symbol.toList = some symbol →
        splitBaseQuote book'.symbol.toList = some symbol' → ¬BoundaryMoved exchange symbol symbol'

section Routing

variable {books : List BookConfig} {subs : List VenueSubscription}

/-- Subscriptions told apart by their venues subscribe with each symbol once. -/
private theorem nodup_nativeSymbols (h : subs.Pairwise fun sub sub' => ¬sub.SameRoute sub')
    (venue : VenueId) : (groupSubscriptions subs venue).nativeSymbols.Nodup := by
  rw [nativeSymbols_groupSubscriptions, List.Nodup, List.pairwise_map]
  refine (h.filter _).imp_of_mem fun {sub sub'} hsub hsub' hroute hsymbol => hroute ⟨?_, hsymbol⟩
  have hvenue : sub.venueId = venue := by simpa using (List.mem_filter.mp hsub).2
  have hvenue' : sub'.venueId = venue := by simpa using (List.mem_filter.mp hsub').2
  exact hvenue.trans hvenue'.symm

/-- Subscriptions told apart by their venues are all registered. -/
private theorem book_of_distinct (h : subs.Pairwise fun sub sub' => ¬sub.SameRoute sub')
    {sub : VenueSubscription} (hsub : sub ∈ subs) :
    (groupSubscriptions subs sub.venueId).registry.book sub.nativeSymbol = some sub.bookId := by
  have hfor : sub.isFor sub.venueId sub.nativeSymbol := by simp [VenueSubscription.isFor]
  rw [book_groupSubscriptions]
  cases hfind : subs.find? (·.isFor sub.venueId sub.nativeSymbol) with
  | none => exact absurd hfor (List.find?_eq_none.mp hfind sub hsub)
  | some first =>
    -- the first subscription for the symbol is this one
    have hfirst := List.find?_some hfind
    rw [VenueSubscription.isFor, Bool.and_eq_true, decide_eq_true_eq, decide_eq_true_eq] at hfirst
    have := not_sameRoute_symm
    have heq : first = sub := by
      by_contra hne
      exact h.forall (List.mem_of_find?_eq_some hfind) hsub hne hfirst
    rw [heq, Option.map_some]

/-- What makes two subscriptions the same for a venue. -/
private theorem sameRoute_subscription_iff {id id' : BookId} {exchange exchange' : Exchange} :
    (subscription id exchange).SameRoute (subscription id' exchange') ↔
      exchange = exchange' ∧ id.type = id'.type ∧ (id.symbol = id'.symbol ∨
        BoundaryMoved exchange id.symbol id'.symbol ∨
        BoundaryMoved exchange id'.symbol id.symbol) := by
  simp only [VenueSubscription.SameRoute, subscription, VenueId.mk.injEq, and_assoc]
  refine and_congr_right fun hexchange => and_congr_right fun htype => ?_
  rw [← hexchange, ← htype]
  exact nativeSymbol_eq_iff id.type

/-- Subscriptions are told apart exactly when the boundaries are kept. -/
private theorem distinct_iff_boundariesKept (h : parseBookSubscriptions books = .ok subs) :
    (subs.Pairwise fun sub sub' => ¬sub.SameRoute sub') ↔ BoundariesKept books := by
  constructor
  · intro hdistinct book hbook book' hbook' htype exchange hlisted hlisted' symbol symbol' hsymbol
      hsymbol' hmoved
    obtain ⟨id, exchanges, hdenotes⟩ := exists_denotes h hbook
    obtain ⟨id', exchanges', hdenotes'⟩ := exists_denotes h hbook'
    obtain rfl : id.symbol = symbol := Option.some.inj (hdenotes.symbol.symm.trans hsymbol)
    obtain rfl : id'.symbol = symbol' := Option.some.inj (hdenotes'.symbol.symm.trans hsymbol')
    have htype' : id.type = id'.type :=
      Option.some.inj (hdenotes.type.symm.trans (htype ▸ hdenotes'.type))
    have hsub : subscription id exchange ∈ subs := (mem_subscriptions_iff h).mpr
      ⟨book, hbook, id, exchanges, hdenotes, exchange, hdenotes.mem_iff.mp hlisted, rfl⟩
    have hsub' : subscription id' exchange ∈ subs := (mem_subscriptions_iff h).mpr
      ⟨book', hbook', id', exchanges', hdenotes', exchange, hdenotes'.mem_iff.mp hlisted', rfl⟩
    have hroute : (subscription id exchange).SameRoute (subscription id' exchange) :=
      sameRoute_subscription_iff.mpr ⟨rfl, htype', .inr (.inl hmoved)⟩
    -- a moved boundary makes different books
    have hne : subscription id exchange ≠ subscription id' exchange := by
      intro heq
      have hid : id = id' := congrArg VenueSubscription.bookId heq
      rw [← hid] at hmoved
      exact not_boundaryMoved_self exchange id.symbol hmoved
    have := not_sameRoute_symm
    exact hdistinct.forall hsub hsub' hne hroute
  · intro hkept
    refine (nodup_subscriptions h).pairwise_of_forall_ne fun sub hsub sub' hsub' hne hroute => ?_
    obtain ⟨book, hbook, id, exchanges, hdenotes, exchange, hexchange, rfl⟩ :=
      (mem_subscriptions_iff h).mp hsub
    obtain ⟨book', hbook', id', exchanges', hdenotes', exchange', hexchange', rfl⟩ :=
      (mem_subscriptions_iff h).mp hsub'
    obtain ⟨rfl, htype, hspelling⟩ := sameRoute_subscription_iff.mp hroute
    have hfield : book.type = book'.type :=
      eq_of_parseMarketType hdenotes.type (htype ▸ hdenotes'.type)
    have hlisted := hdenotes.mem_iff.mpr hexchange
    have hlisted' := hdenotes'.mem_iff.mpr hexchange'
    rcases hspelling with hsymbol | hmoved | hmoved
    · exact hne (congrArg (subscription · exchange) (BookId.eq_of_symbol_type hsymbol htype))
    · exact hkept book hbook book' hbook' hfield exchange hlisted hlisted' _ _ hdenotes.symbol
        hdenotes'.symbol hmoved
    · exact hkept book' hbook' book hbook hfield.symm exchange hlisted' hlisted _ _
        hdenotes'.symbol hdenotes.symbol hmoved

/-- **Routing.** An accepted config is routed as configured exactly when no two of its books
are spelt alike by an exchange that both are listed on. -/
theorem routesUniquely_iff (h : parseBookSubscriptions books = .ok subs) :
    RoutesUniquely books subs ↔ BoundariesKept books := by
  rw [← distinct_iff_boundariesKept h]
  refine ⟨RoutesUniquely.distinct, fun hdistinct => ⟨hdistinct, nodup_nativeSymbols hdistinct, ?_⟩⟩
  intro book hbook id exchanges hdenotes exchange hexchange
  exact book_of_distinct hdistinct ((mem_subscriptions_iff h).mpr
    ⟨book, hbook, id, exchanges, hdenotes, exchange, hexchange, rfl⟩)

end Routing

/-- One book at two venues, and its perpetual at one of them. -/
theorem routesUniquely_iff_example :
    RoutesUniquely [⟨"BTC_USDT", "SPOT", ["BINANCE", "OKX"]⟩, ⟨"BTC_USDT", "PERP", ["OKX"]⟩]
        [⟨⟨.binance, .spot⟩, ⟨⟨⟨"BTC"⟩, ⟨"USDT"⟩⟩, .spot⟩, "BTCUSDT"⟩,
          ⟨⟨.okx, .spot⟩, ⟨⟨⟨"BTC"⟩, ⟨"USDT"⟩⟩, .spot⟩, "BTC-USDT"⟩,
          ⟨⟨.okx, .perp⟩, ⟨⟨⟨"BTC"⟩, ⟨"USDT"⟩⟩, .perp⟩, "BTC-USDT-SWAP"⟩] ↔
      BoundariesKept [⟨"BTC_USDT", "SPOT", ["BINANCE", "OKX"]⟩, ⟨"BTC_USDT", "PERP", ["OKX"]⟩] :=
  routesUniquely_iff (by decide)

/-- `AB_C` and `A_BC` are different books, accepted side by side, and Binance calls both `ABC`:
its registry routes the symbol to the first, and the second gets nothing. -/
theorem routesUniquely_fails :
    parseBookSubscriptions [⟨"AB_C", "SPOT", ["BINANCE"]⟩, ⟨"A_BC", "SPOT", ["BINANCE"]⟩] =
        .ok [⟨⟨.binance, .spot⟩, ⟨⟨⟨"AB"⟩, ⟨"C"⟩⟩, .spot⟩, "ABC"⟩,
          ⟨⟨.binance, .spot⟩, ⟨⟨⟨"A"⟩, ⟨"BC"⟩⟩, .spot⟩, "ABC"⟩] ∧
      (groupSubscriptions [⟨⟨.binance, .spot⟩, ⟨⟨⟨"AB"⟩, ⟨"C"⟩⟩, .spot⟩, "ABC"⟩,
        ⟨⟨.binance, .spot⟩, ⟨⟨⟨"A"⟩, ⟨"BC"⟩⟩, .spot⟩, "ABC"⟩] ⟨.binance, .spot⟩).registry.book
          "ABC" = some ⟨⟨⟨"AB"⟩, ⟨"C"⟩⟩, .spot⟩ ∧
      ¬RoutesUniquely [⟨"AB_C", "SPOT", ["BINANCE"]⟩, ⟨"A_BC", "SPOT", ["BINANCE"]⟩]
        [⟨⟨.binance, .spot⟩, ⟨⟨⟨"AB"⟩, ⟨"C"⟩⟩, .spot⟩, "ABC"⟩,
          ⟨⟨.binance, .spot⟩, ⟨⟨⟨"A"⟩, ⟨"BC"⟩⟩, .spot⟩, "ABC"⟩] := by
  refine ⟨by decide, by decide, fun h => ?_⟩
  exact (List.pairwise_cons.mp h.distinct).1 _ List.mem_cons_self ⟨rfl, rfl⟩

end Hermeneutic
