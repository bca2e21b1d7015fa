import Hermeneutic.ForMathlib.ListTraversal
import Hermeneutic.Symbol.NativeSymbol

/-!
# Subscriptions

`parseBookSubscriptions` (`ingestion/book_subscription.hpp`) turns the decoded `"books"` of a
config into one `VenueSubscription` for each venue of each book. It rejects an unknown market
or venue, a malformed symbol, a book configured twice, a venue listed twice for one book and an
empty list, each with a message that names the mistake.

`Denotes` is an entry without a mistake. An accepted config consists of such entries
(`exists_denotes`), its subscriptions are theirs (`mem_subscriptions_iff`), and none of them is
listed twice (`nodup_subscriptions`). What else it takes to be accepted is said without the
parser in `parseBookSubscriptions_isOk_iff`: no book is configured twice, and neither the list of
books nor any list of venues is empty.

The two nested loops of the parser are folds that stop at the first mistake, each with a state
that holds what has been seen; the step of either is a definition of its own, and what an accepted
fold leaves is read off its last element. The messages are those of the source, with the offending
text in them. A market or a venue is matched by its exact spelling, so that an accepted entry
denotes one book and one list of venues (`BookConfig.Denotes.unique`).
-/

namespace Hermeneutic

/-- One venue's contribution to one book. -/
structure VenueSubscription where
  venueId : VenueId
  bookId : BookId
  nativeSymbol : NativeSymbol
  deriving DecidableEq, Repr

/-- One entry of the config's `"books"`, decoded. -/
structure BookConfig where
  symbol : String
  type : String
  venues : List String
  deriving DecidableEq, Repr

/-- A market by its configured name. -/
def parseMarketType (typeField : String) : Option MarketType :=
  if typeField = "SPOT" then some .spot
  else if typeField = "PERP" then some .perp
  else none

/-- The subscription of one exchange to one book. -/
def subscription (id : BookId) (exchange : Exchange) : VenueSubscription :=
  ⟨⟨exchange, id.type⟩, id, nativeSymbol exchange id.symbol id.type⟩

/-- The variables of the loop over a book's venues. -/
structure VenueLoop where
  seenExchanges : List Exchange
  result : List VenueSubscription

/-- One venue of a book. -/
def venueStep (id : BookId) (s : VenueLoop) (venueToken : String) : Except String VenueLoop :=
  match parseExchange venueToken with
  | none => .error ("unknown venue \"" ++ venueToken ++ "\" for \"" ++ id.toString ++ "\"")
  | some exchange =>
    if exchange ∈ s.seenExchanges then
      .error ("venue " ++ exchangeName exchange ++ " listed twice for \"" ++ id.toString ++ "\"")
    else .ok ⟨exchange :: s.seenExchanges, s.result ++ [subscription id exchange]⟩

/-- The variables of the loop over the books. -/
structure BookLoop where
  seenBookIds : List BookId
  result : List VenueSubscription

/-- One entry of the config. -/
def bookStep (s : BookLoop) (book : BookConfig) : Except String BookLoop :=
  match parseMarketType book.type with
  | none => .error ("unknown book type \"" ++ book.type ++
      "\" (expected SPOT or PERP) for symbol \"" ++ book.symbol ++ "\"")
  | some type =>
    match splitBaseQuote book.symbol.toList with
    | none => .error ("malformed symbol (expected \"BASE_QUOTE\", e.g. \"BTC_USDT\"): \"" ++
        book.symbol ++ "\"")
    | some symbol =>
      let id : BookId := ⟨symbol, type⟩
      if id ∈ s.seenBookIds then
        .error ("book \"" ++ id.toString ++ "\" is configured more than once")
      else do
        let venues ← book.venues.foldlM (venueStep id) ⟨[], s.result⟩
        -- no venue token was read
        if book.venues.isEmpty then .error ("empty venue list for \"" ++ id.toString ++ "\"")
        else .ok ⟨id :: s.seenBookIds, venues.result⟩

/-- The flat list of subscriptions of a config, or the first mistake in it. -/
def parseBookSubscriptions (books : List BookConfig) : Except String (List VenueSubscription) := do
  let s ← books.foldlM bookStep ⟨[], []⟩
  if s.result.isEmpty then .error "no book subscriptions configured" else .ok s.result

/-! ### What an accepted config denotes -/

/-- An entry without a mistake, and what it says. -/
structure BookConfig.Denotes (book : BookConfig) (id : BookId) (exchanges : List Exchange) :
    Prop where
  type : parseMarketType book.type = some id.type
  symbol : splitBaseQuote book.symbol.toList = some id.symbol
  venues : book.venues = exchanges.map exchangeName
  nodup : exchanges.Nodup

/-- The inner loop appends one subscription for each venue, all of them different. -/
private theorem venueLoop_ok {id : BookId} {venues : List String} {s t : VenueLoop}
    (h : venues.foldlM (venueStep id) s = .ok t) :
    ∃ exchanges : List Exchange, venues = exchanges.map exchangeName ∧ exchanges.Nodup ∧
      (∀ exchange ∈ exchanges, exchange ∉ s.seenExchanges) ∧
      t.result = s.result ++ exchanges.map (subscription id) := by
  induction venues generalizing s with
  | nil =>
    obtain rfl := Except.ok.inj h
    exact ⟨[], by simp⟩
  | cons venueToken venues ih =>
    rw [List.foldlM_cons, venueStep] at h
    cases hexchange : parseExchange venueToken with
    | none =>
      rw [hexchange] at h
      cases h
    | some exchange =>
      simp only [hexchange] at h
      split_ifs at h with hseen
      · cases h
      · obtain ⟨exchanges, hvenues, hnodup, hfresh, hresult⟩ := ih h
        simp only [List.mem_cons, not_or] at hfresh
        refine ⟨exchange :: exchanges, ?_, ?_, ?_, ?_⟩
        · rw [List.map_cons, hvenues, exchangeName_of_parseExchange hexchange]
        · exact List.nodup_cons.mpr ⟨fun hmem => (hfresh _ hmem).1 rfl, hnodup⟩
        · exact List.forall_mem_cons.mpr ⟨hseen, fun e he => (hfresh e he).2⟩
        · rw [hresult, List.map_cons, List.append_assoc, List.singleton_append]

/-- One entry without a mistake, for a book not seen before. -/
private theorem bookStep_ok {s t : BookLoop} {book : BookConfig} (h : bookStep s book = .ok t) :
    ∃ id exchanges, book.Denotes id exchanges ∧ id ∉ s.seenBookIds ∧
      t = ⟨id :: s.seenBookIds, s.result ++ exchanges.map (subscription id)⟩ := by
  rw [bookStep] at h
  cases htype : parseMarketType book.type with
  | none =>
    rw [htype] at h
    cases h
  | some type =>
    cases hsymbol : splitBaseQuote book.symbol.toList with
    | none =>
      rw [htype, hsymbol] at h
      cases h
    | some symbol =>
      simp only [htype, hsymbol] at h
      by_cases hseen : ⟨symbol, type⟩ ∈ s.seenBookIds
      · rw [if_pos hseen] at h
        cases h
      · rw [if_neg hseen] at h
        obtain ⟨venues, hvenues, hok⟩ := exists_of_bind_ok h
        obtain ⟨exchanges, heq, hnodup, -, hresult⟩ := venueLoop_ok hvenues
        refine ⟨⟨symbol, type⟩, exchanges, ⟨htype, hsymbol, heq, hnodup⟩, hseen, ?_⟩
        split_ifs at hok with hempty
        rw [← Except.ok.inj hok, hresult]

/-- The outer loop reads every entry, each for a different book. -/
private theorem bookLoop_ok {books : List BookConfig} {s t : BookLoop}
    (h : books.foldlM bookStep s = .ok t) :
    ∃ parsed : List (BookId × List Exchange),
      List.Forall₂ (fun book p => book.Denotes p.1 p.2) books parsed ∧
      (parsed.map Prod.fst).Nodup ∧ (∀ p ∈ parsed, p.1 ∉ s.seenBookIds) ∧
      t.result = s.result ++ parsed.flatMap fun p => p.2.map (subscription p.1) := by
  induction books generalizing s with
  | nil =>
    obtain rfl := Except.ok.inj h
    exact ⟨[], .nil, by simp⟩
  | cons book books ih =>
    rw [List.foldlM_cons] at h
    obtain ⟨s', hstep, hrest⟩ := exists_of_bind_ok h
    obtain ⟨id, exchanges, hdenotes, hseen, rfl⟩ := bookStep_ok hstep
    obtain ⟨parsed, hparsed, hnodup, hfresh, hresult⟩ := ih hrest
    simp only [List.mem_cons, not_or] at hfresh
    refine ⟨(id, exchanges) :: parsed, .cons hdenotes hparsed, ?_, ?_, ?_⟩
    · rw [List.map_cons, List.nodup_cons]
      refine ⟨fun hmem => ?_, hnodup⟩
      obtain ⟨p, hp, hid⟩ := List.mem_map.mp hmem
      exact (hfresh p hp).1 hid
    · exact List.forall_mem_cons.mpr ⟨hseen, fun p hp => (hfresh p hp).2⟩
    · rw [hresult, List.flatMap_cons, List.append_assoc]

/-- The subscriptions of an accepted config are those of its entries. -/
private theorem parseBookSubscriptions_ok {books : List BookConfig} {subs : List VenueSubscription}
    (h : parseBookSubscriptions books = .ok subs) :
    ∃ parsed : List (BookId × List Exchange),
      List.Forall₂ (fun book p => book.Denotes p.1 p.2) books parsed ∧
      (parsed.map Prod.fst).Nodup ∧
      subs = parsed.flatMap fun p => p.2.map (subscription p.1) := by
  obtain ⟨s, hloop, hok⟩ := exists_of_bind_ok h
  obtain ⟨parsed, hparsed, hnodup, -, hresult⟩ := bookLoop_ok hloop
  split_ifs at hok with hempty
  exact ⟨parsed, hparsed, hnodup, by rw [← Except.ok.inj hok, hresult, List.nil_append]⟩

/-! ### Which configs are accepted -/

/-- Venues that are all different and not seen before are all read. -/
private theorem exists_venueLoop (id : BookId) {exchanges : List Exchange}
    (hnodup : exchanges.Nodup) {s : VenueLoop}
    (hfresh : ∀ exchange ∈ exchanges, exchange ∉ s.seenExchanges) :
    ∃ t, (exchanges.map exchangeName).foldlM (venueStep id) s = .ok t ∧
      t.result = s.result ++ exchanges.map (subscription id) := by
  induction exchanges generalizing s with
  | nil => exact ⟨s, rfl, by simp⟩
  | cons exchange exchanges ih =>
    obtain ⟨hnew, hnodup⟩ := List.nodup_cons.mp hnodup
    obtain ⟨hseen, hfresh⟩ := List.forall_mem_cons.mp hfresh
    have hstep : venueStep id s (exchangeName exchange) =
        .ok ⟨exchange :: s.seenExchanges, s.result ++ [subscription id exchange]⟩ := by
      rw [venueStep, parseExchange_exchangeName]
      simp only [if_neg hseen]
    obtain ⟨t, hloop, hresult⟩ := ih hnodup
      (s := ⟨exchange :: s.seenExchanges, s.result ++ [subscription id exchange]⟩) fun e he => by
        refine fun hmem => (List.mem_cons.mp hmem).elim (fun heq => ?_) (hfresh e he)
        exact hnew (heq ▸ he)
    refine ⟨t, ?_, ?_⟩
    · rw [List.map_cons, List.foldlM_cons, hstep]
      exact hloop
    · rw [hresult, List.map_cons, List.append_assoc, List.singleton_append]

/-- An entry without a mistake, for a book not seen before, is read. -/
private theorem bookStep_of_denotes {s : BookLoop} {book : BookConfig} {id : BookId}
    {exchanges : List Exchange} (hdenotes : book.Denotes id exchanges)
    (hvenues : book.venues ≠ []) (hseen : id ∉ s.seenBookIds) :
    bookStep s book =
      .ok ⟨id :: s.seenBookIds, s.result ++ exchanges.map (subscription id)⟩ := by
  obtain ⟨t, hloop, hresult⟩ := exists_venueLoop id hdenotes.nodup
    (s := ⟨[], s.result⟩) fun _ _ => List.not_mem_nil
  have hempty : book.venues.isEmpty = false := by simpa using hvenues
  rw [← hdenotes.venues] at hloop
  simp only [bookStep, hdenotes.type, hdenotes.symbol]
  rw [if_neg hseen, hloop, ← hresult]
  simp [bind, Except.bind, hempty]

/-- So are entries for different books. -/
private theorem exists_bookLoop {books : List BookConfig} {parsed : List (BookId × List Exchange)}
    (hparsed : List.Forall₂ (fun book p => book.Denotes p.1 p.2) books parsed)
    (hnodup : (parsed.map Prod.fst).Nodup) (hvenues : ∀ book ∈ books, book.venues ≠ [])
    {s : BookLoop} (hfresh : ∀ p ∈ parsed, p.1 ∉ s.seenBookIds) :
    ∃ t, books.foldlM bookStep s = .ok t ∧
      t.result = s.result ++ parsed.flatMap fun p => p.2.map (subscription p.1) := by
  induction hparsed generalizing s with
  | nil => exact ⟨s, rfl, by simp⟩
  | @cons book p books parsed hdenotes _ ih =>
    rw [List.map_cons, List.nodup_cons] at hnodup
    obtain ⟨hvenue, hvenues⟩ := List.forall_mem_cons.mp hvenues
    obtain ⟨hseen, hfresh⟩ := List.forall_mem_cons.mp hfresh
    obtain ⟨t, hloop, hresult⟩ := ih hnodup.2 hvenues
      (s := ⟨p.1 :: s.seenBookIds, s.result ++ p.2.map (subscription p.1)⟩) fun p' hp' => by
        refine fun hmem => (List.mem_cons.mp hmem).elim (fun heq => ?_) (hfresh p' hp')
        exact hnodup.1 (heq ▸ List.mem_map_of_mem hp')
    refine ⟨t, ?_, ?_⟩
    · rw [List.foldlM_cons, bookStep_of_denotes hdenotes hvenue hseen]
      exact hloop
    · rw [hresult, List.flatMap_cons, List.append_assoc]

/-- No entry that is read has an empty list of venues. -/
private theorem venues_ne_nil_of_ok {books : List BookConfig} {s t : BookLoop}
    (h : books.foldlM bookStep s = .ok t) : ∀ book ∈ books, book.venues ≠ [] := by
  induction books generalizing s with
  | nil => exact List.forall_mem_nil _
  | cons book books ih =>
    rw [List.foldlM_cons] at h
    obtain ⟨s', hstep, hrest⟩ := exists_of_bind_ok h
    refine List.forall_mem_cons.mpr ⟨fun hnil => ?_, ih hrest⟩
    rw [bookStep, hnil] at hstep
    split at hstep
    · cases hstep
    · split at hstep
      · cases hstep
      · simp only at hstep
        split_ifs at hstep with _ hempty
        · obtain ⟨_, -, hok⟩ := exists_of_bind_ok hstep
          cases hok
        · exact absurd rfl hempty

/-- **Acceptance.** A list of books is accepted when every entry is without a mistake, no book is
configured twice and nothing is empty. -/
theorem parseBookSubscriptions_isOk_iff {books : List BookConfig} :
    (∃ subs, parseBookSubscriptions books = .ok subs) ↔
      (∃ parsed : List (BookId × List Exchange),
        List.Forall₂ (fun book p => book.Denotes p.1 p.2) books parsed ∧
        (parsed.map Prod.fst).Nodup) ∧
      books ≠ [] ∧ ∀ book ∈ books, book.venues ≠ [] := by
  constructor
  · rintro ⟨subs, h⟩
    obtain ⟨parsed, hparsed, hnodup, -⟩ := parseBookSubscriptions_ok h
    obtain ⟨s, hloop, hok⟩ := exists_of_bind_ok h
    refine ⟨⟨parsed, hparsed, hnodup⟩, fun hnil => ?_, venues_ne_nil_of_ok hloop⟩
    subst hnil
    obtain rfl := Except.ok.inj hloop
    cases hok
  · rintro ⟨⟨parsed, hparsed, hnodup⟩, hne, hvenues⟩
    obtain ⟨t, hloop, hresult⟩ := exists_bookLoop hparsed hnodup hvenues
      (s := ⟨[], []⟩) fun _ _ => List.not_mem_nil
    have hsubs : t.result ≠ [] := by
      -- The first entry has a first venue.
      obtain ⟨book, rest, rfl⟩ := List.exists_cons_of_ne_nil hne
      cases hparsed with
      | @cons _ p _ parsed hdenotes _ =>
        have hvenue := hvenues book List.mem_cons_self
        rw [hdenotes.venues, ne_eq, List.map_eq_nil_iff] at hvenue
        simp [hresult, hvenue]
    refine ⟨t.result, ?_⟩
    rw [parseBookSubscriptions, hloop]
    simp [bind, Except.bind, hsubs]

/-- A market has one configured name. -/
theorem eq_of_parseMarketType {typeField typeField' : String} {type : MarketType}
    (h : parseMarketType typeField = some type) (h' : parseMarketType typeField' = some type) :
    typeField = typeField' := by
  rw [parseMarketType] at h h'
  split_ifs at h with hspot hperp
  · obtain rfl := Option.some.inj h
    split_ifs at h' with hspot' hperp'
    · exact hspot.trans hspot'.symm
    · cases h'
  · obtain rfl := Option.some.inj h
    split_ifs at h' with hspot' hperp'
    · cases h'
    · exact hperp.trans hperp'.symm

private theorem exchangeName_injective : Function.Injective exchangeName := by
  intro exchange exchange' h
  have hparsed := congrArg parseExchange h
  rw [parseExchange_exchangeName, parseExchange_exchangeName] at hparsed
  exact Option.some.inj hparsed

theorem BookConfig.Denotes.mem_iff {book : BookConfig} {id : BookId} {exchanges : List Exchange}
    (h : book.Denotes id exchanges) {exchange : Exchange} :
    exchangeName exchange ∈ book.venues ↔ exchange ∈ exchanges := by
  rw [h.venues, List.mem_map_of_injective exchangeName_injective]

theorem BookConfig.Denotes.unique {book : BookConfig} {id id' : BookId}
    {exchanges exchanges' : List Exchange} (h : book.Denotes id exchanges)
    (h' : book.Denotes id' exchanges') : id = id' ∧ exchanges = exchanges' := by
  have htype : id.type = id'.type := Option.some.inj (h.type.symm.trans h'.type)
  have hsymbol : id.symbol = id'.symbol := Option.some.inj (h.symbol.symm.trans h'.symbol)
  exact ⟨BookId.eq_of_symbol_type hsymbol htype,
    List.map_injective_iff.mpr exchangeName_injective (h.venues.symm.trans h'.venues)⟩

/-- Every entry of an accepted config is without a mistake. -/
theorem exists_denotes {books : List BookConfig} {subs : List VenueSubscription}
    (h : parseBookSubscriptions books = .ok subs) {book : BookConfig} (hbook : book ∈ books) :
    ∃ id exchanges, book.Denotes id exchanges := by
  obtain ⟨parsed, hparsed, -, -⟩ := parseBookSubscriptions_ok h
  obtain ⟨p, -, hdenotes⟩ := exists_of_mem_forall₂ hparsed hbook
  exact ⟨p.1, p.2, hdenotes⟩

/-- What an accepted config subscribes to: every exchange of every entry. -/
theorem mem_subscriptions_iff {books : List BookConfig} {subs : List VenueSubscription}
    (h : parseBookSubscriptions books = .ok subs) {sub : VenueSubscription} :
    sub ∈ subs ↔ ∃ book ∈ books, ∃ id exchanges, book.Denotes id exchanges ∧
      ∃ exchange ∈ exchanges, subscription id exchange = sub := by
  obtain ⟨parsed, hparsed, -, rfl⟩ := parseBookSubscriptions_ok h
  simp only [List.mem_flatMap, List.mem_map]
  constructor
  · rintro ⟨p, hp, exchange, hexchange, rfl⟩
    obtain ⟨book, hbook, hdenotes⟩ := exists_of_mem_forall₂ hparsed.flip hp
    exact ⟨book, hbook, p.1, p.2, hdenotes, exchange, hexchange, rfl⟩
  · rintro ⟨book, hbook, id, exchanges, hdenotes, exchange, hexchange, rfl⟩
    obtain ⟨p, hp, hdenotes'⟩ := exists_of_mem_forall₂ hparsed hbook
    obtain ⟨rfl, rfl⟩ := hdenotes.unique hdenotes'
    exact ⟨p, hp, exchange, hexchange, rfl⟩

/-- No subscription is listed twice. -/
theorem nodup_subscriptions {books : List BookConfig} {subs : List VenueSubscription}
    (h : parseBookSubscriptions books = .ok subs) : subs.Nodup := by
  obtain ⟨parsed, hparsed, hnodup, rfl⟩ := parseBookSubscriptions_ok h
  rw [List.Nodup, List.pairwise_map] at hnodup
  refine List.nodup_flatMap.mpr ⟨fun p hp => ?_, hnodup.imp fun {p p'} hne => ?_⟩
  · obtain ⟨book, -, hdenotes⟩ := exists_of_mem_forall₂ hparsed.flip hp
    refine List.Nodup.map (fun exchange exchange' heq => ?_) hdenotes.nodup
    exact congrArg (fun sub => sub.venueId.exchange) heq
  · -- subscriptions of different books
    intro sub hsub hsub'
    obtain ⟨exchange, -, rfl⟩ := List.mem_map.mp hsub
    obtain ⟨exchange', -, heq⟩ := List.mem_map.mp hsub'
    exact hne (congrArg VenueSubscription.bookId heq).symm

end Hermeneutic
