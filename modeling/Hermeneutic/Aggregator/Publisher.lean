import Hermeneutic.Aggregator.BboSequence
import Hermeneutic.Book.PriceBands
import Hermeneutic.Book.VolumeBands
import Hermeneutic.ForMathlib.ListTraversal

/-!
# What the client prints

The read loops of `apps/aggregator/client_main.cpp`: `publish_l2_bands` keeps a book by the L2
stream and prints its bands at every revision, `publish_bbo` prints every `Bbo`. Both print the
live venues when these have changed, and count what they read. Which lines that makes is said
in terms of the heartbeats read (`PrintsChanges`).

A publisher of bands that reads what the service has sent it prints the bands of the server's
own aggregate, of consecutive revisions from the one the subscriber registered at, with no gap
(`publish_l2_bands_faithful`). Fed
anything else, it stops at the first gap and never computes on a book that missed a revision
(`publish_l2_bands_gap`). The lines of a publisher of the top are those of the same revisions
(`publish_bbo_faithful`), so that the two never contradict each other.

Numbers are printed by `format_fixed`, which goes through floating point: it is a parameter
(`FormatFixed`). Opening, cancelling and finishing the call are left out, and with them the
`DONE` line and the text of the last update, which is kept for it alone.

For each loop there is an invariant that says where it stands after what it has read: `At` for one
that has followed the stream up to a revision, `Holds` for one that has read anything at all,
`Reports` for the one that only prints. Each kind of update has one lemma that extends it. The
printed lines are kept apart by kind, those of updates, of live venues and of gaps, so that a
lemma about one kind need not know where the others stand in between.
-/

namespace Hermeneutic

/-! ### Formatting -/

/-- `format_fixed` at the three types it is used at. -/
structure FormatFixed where
  price : Price → String
  size : Size → String
  notional : Notional → String

/-- Whichever threshold list applies to a run, plus its display labels. -/
structure BandConfig where
  volumeThresholds : List Notional
  volumeLabels : List String
  priceBps : List Int32
  priceLabels : List String

/-- The two modes that follow the L2 stream. -/
inductive BandMode
  | volumeBands
  | priceBands
  deriving DecidableEq

def BandMode.tag : BandMode → String
  | volumeBands => "VOLUME_BANDS"
  | priceBands => "PRICE_BANDS"

section Format

variable (fmt : FormatFixed)

def formatLevel (level : PriceLevel) : String :=
  fmt.price (.fromRaw level.priceRaw) ++ "@" ++ fmt.size (.fromRaw level.sizeRaw)

/-- The venues in order, since theirs on the wire is not specified. -/
def formatLiveVenues (venues : List String) : String :=
  "live_venues=[" ++ String.join (venues.mergeSort.map (· ++ " ")) ++ "]"

/-- One `label=value` a band, as many as there are of both. -/
def formatVolumeBands (bands : List VolumeBand) (labels : List String) : String :=
  " ".intercalate <| List.zipWith
    (fun band label => label ++ "=" ++ match band.vwap with
      | some vwap => fmt.price vwap
      | none => "NA(filled=" ++ fmt.notional band.filledNotional ++ ")") bands labels

/-- No bands are a side without a best price. -/
def formatPriceBands (bands : List PriceBand) (labels : List String) : String :=
  if bands.isEmpty then "(no bbo)"
  else " ".intercalate <| List.zipWith
    (fun band label => label ++ "=" ++ fmt.size band.cumulativeSize ++ "@" ++
      fmt.notional band.cumulativeNotional) bands labels

/-- The bands of one side, or what is printed for an error. -/
def formatSide {α : Type} (bands : Except Errc α) (format : α → String) : String :=
  match bands with
  | .ok bands => format bands
  | .error _ => "ERROR"

/-- What `print_bands` prints behind the label of the stream. -/
def bandText (mode : BandMode) (config : BandConfig) (bookSeq : UInt64) (book : L2OrderBook) :
    String :=
  let (bids, asks) := match mode with
    | .volumeBands =>
      (formatSide (bidVolumeBandPrices book config.volumeThresholds)
          (formatVolumeBands fmt · config.volumeLabels),
        formatSide (askVolumeBandPrices book config.volumeThresholds)
          (formatVolumeBands fmt · config.volumeLabels))
    | .priceBands =>
      (formatSide (bidPriceBandDepths book config.priceBps)
          (formatPriceBands fmt · config.priceLabels),
        formatSide (askPriceBandDepths book config.priceBps)
          (formatPriceBands fmt · config.priceLabels))
  "book_seq=" ++ toString bookSeq ++ " bid[" ++ bids ++ "] ask[" ++ asks ++ "]"

/-- What is printed of a `Bbo`. -/
def bboText (bookSeq : UInt64) (top : Top) : String :=
  "book_seq=" ++ toString bookSeq ++ " bid=" ++ top.1.elim "(none)" (formatLevel fmt) ++ " ask=" ++
    top.2.elim "(none)" (formatLevel fmt)

end Format

/-- A line of the output, by what it is printed for. -/
inductive PrintedLine
  | update (line : String)
  | liveVenues (line : String)
  | gap (line : String)
  deriving DecidableEq

namespace PrintedLine

/-- The lines of the updates, in order. -/
def updates (printed : List PrintedLine) : List String :=
  printed.filterMap fun
    | update line => some line
    | _ => none

/-- The lines of the live venues, in order. -/
def venues (printed : List PrintedLine) : List String :=
  printed.filterMap fun
    | liveVenues line => some line
    | _ => none

def gaps (printed : List PrintedLine) : List String :=
  printed.filterMap fun
    | gap line => some line
    | _ => none

@[simp] theorem updates_append (printed printed' : List PrintedLine) :
    updates (printed ++ printed') = updates printed ++ updates printed' :=
  List.filterMap_append

@[simp] theorem venues_append (printed printed' : List PrintedLine) :
    venues (printed ++ printed') = venues printed ++ venues printed' :=
  List.filterMap_append

@[simp] theorem gaps_append (printed printed' : List PrintedLine) :
    gaps (printed ++ printed') = gaps printed ++ gaps printed' :=
  List.filterMap_append

end PrintedLine

/-- A heartbeat's line, and which line of live venues is then the last. -/
def printVenues (tag : String) (last : Option String) (venues : List String) :
    List PrintedLine × Option String :=
  let line := formatLiveVenues venues
  if some line = last then ([], last) else ([.liveVenues (tag ++ line)], some line)

/-- What has been printed of the live venues, when these heartbeats have been read: the line of
every heartbeat but those that repeat the one before. -/
structure PrintsChanges (tag : String) (heartbeats : List (List String))
    (printed : List PrintedLine) (last : Option String) : Prop where
  venues : PrintedLine.venues printed =
    ((heartbeats.map formatLiveVenues).destutter (· ≠ ·)).map (tag ++ ·)
  last : last = (heartbeats.map formatLiveVenues).getLast?

namespace PrintsChanges

variable {tag : String} {heartbeats : List (List String)} {printed : List PrintedLine}
  {last : Option String}

theorem start (tag : String) : PrintsChanges tag [] [] none := ⟨rfl, rfl⟩

/-- Any other line. -/
theorem other (h : PrintsChanges tag heartbeats printed last) {lines : List PrintedLine}
    (hlines : PrintedLine.venues lines = []) :
    PrintsChanges tag heartbeats (printed ++ lines) last := by
  refine ⟨?_, h.last⟩
  rw [PrintedLine.venues_append, hlines, List.append_nil, h.venues]

/-- A heartbeat. -/
private theorem printVenues (h : PrintsChanges tag heartbeats printed last) (venues : List String) :
    PrintsChanges tag (heartbeats ++ [venues])
      (printed ++ (Hermeneutic.printVenues tag last venues).1)
      (Hermeneutic.printVenues tag last venues).2 := by
  have hmap : (heartbeats ++ [venues]).map formatLiveVenues =
      heartbeats.map formatLiveVenues ++ [formatLiveVenues venues] := List.map_append
  simp only [Hermeneutic.printVenues]
  split
  · rename_i hsame
    refine ⟨?_, ?_⟩
    · rw [List.append_nil, h.venues, hmap, destutter_ne_concat,
        if_pos (h.last.symm.trans hsame.symm)]
    · rw [hmap, List.getLast?_concat, ← hsame]
  · rename_i hnew
    refine ⟨?_, ?_⟩
    · rw [PrintedLine.venues_append, h.venues, hmap, destutter_ne_concat,
        if_neg fun hsame => hnew (h.last.trans hsame).symm, List.map_append]
      rfl
    · rw [hmap, List.getLast?_concat]

end PrintsChanges

/-! ### The loop of the bands -/

/-- What `publish_l2_bands` is called with. -/
structure BandPublication where
  fmt : FormatFixed
  mode : BandMode
  label : String
  config : BandConfig

namespace BandPublication

variable (pub : BandPublication)

/-- What every line starts with. -/
def tag : String := "[" ++ pub.label ++ " " ++ pub.mode.tag ++ "] "

/-- The line of a revision. -/
def line (bookSeq : UInt64) (book : L2OrderBook) : String :=
  pub.tag ++ bandText pub.fmt pub.mode pub.config bookSeq book

end BandPublication

/-- The variables of the loop, and what it has printed. -/
structure L2Publisher where
  book : L2OrderBook := {}
  snapshotCount : ℕ := 0
  diffCount : ℕ := 0
  heartbeatCount : ℕ := 0
  gapCount : ℕ := 0
  lastSeq : Option UInt64 := none
  lastLiveVenues : Option String := none
  printed : List PrintedLine := []
  /-- The loop was left at a gap. -/
  stopped : Bool := false

namespace L2Publisher

variable (pub : BandPublication)

/-- `print_bands`. -/
def printBands (p : L2Publisher) (bookSeq : UInt64) : L2Publisher :=
  { p with printed := p.printed ++ [.update (pub.line bookSeq p.book)] }

/-- The body of the loop. -/
def read (p : L2Publisher) : L2Update → L2Publisher
  | .snapshot bookSeq bids asks =>
    { p with
      snapshotCount := p.snapshotCount + 1
      book := ⟨Client.applyLevels ∅ asks, Client.applyLevels ∅ bids⟩
      lastSeq := some bookSeq }.printBands pub bookSeq
  | .diff bookSeq bids asks =>
    if isBookSeqGap p.lastSeq bookSeq then
      { p with
        diffCount := p.diffCount + 1
        gapCount := p.gapCount + 1
        printed := p.printed ++ [.gap (pub.tag ++ "GAP: expected book_seq=" ++
          toString (p.lastSeq.getD 0 + 1) ++ " got " ++ toString bookSeq ++
          " - local book invalid, stopping this stream")]
        stopped := true }
    else
      { p with
        diffCount := p.diffCount + 1
        lastSeq := some bookSeq
        book := ⟨Client.applyLevels p.book.asks asks, Client.applyLevels p.book.bids bids⟩
        }.printBands pub bookSeq
  | .heartbeat venues =>
    let (lines, last) := printVenues pub.tag p.lastLiveVenues venues
    { p with
      heartbeatCount := p.heartbeatCount + 1
      lastLiveVenues := last
      printed := p.printed ++ lines }

/-- The loop. -/
def readAll (updates : List L2Update) : L2Publisher :=
  updates.foldl (fun p update => if p.stopped then p else p.read pub update) {}

theorem readAll_concat (updates : List L2Update) (update : L2Update) :
    readAll pub (updates ++ [update]) =
      if (readAll pub updates).stopped then readAll pub updates
      else (readAll pub updates).read pub update := by
  rw [readAll, List.foldl_append]
  rfl

/-- The live venues of the heartbeats among the updates. -/
def heartbeats (updates : List L2Update) : List (List String) :=
  updates.filterMap fun
    | .heartbeat venues => some venues
    | _ => none

/-- What a publisher has done that read a part of what the service sends from revision `start`
on, and stands at revision `n`. -/
structure At (revisions : List L2OrderBook) (start n : ℕ) (updates : List L2Update)
    (p : L2Publisher) : Prop where
  book : revisions[n]? = some p.book
  lastSeq : p.lastSeq = some (.ofNat n)
  stopped : p.stopped = false
  gaps : p.gapCount = 0 ∧ PrintedLine.gaps p.printed = []
  snapshotCount : p.snapshotCount = 1
  counted : p.snapshotCount + p.diffCount + p.heartbeatCount = updates.length
  diffCount : start + p.diffCount = n
  lines : PrintedLine.updates p.printed =
    (List.range' start (p.diffCount + 1)).map fun k => pub.line (.ofNat k) (revisions.getD k {})
  changes : PrintsChanges pub.tag (heartbeats updates) p.printed p.lastLiveVenues

namespace At

variable {pub} {revisions : List L2OrderBook} {start n : ℕ} {updates : List L2Update}
  {p : L2Publisher}

theorem snapshot {book : L2OrderBook} (hbook : revisions[n]? = some book)
    (hpositive : book.Positive) :
    At pub revisions n n [.snapshot (.ofNat n) (Client.wireLevels book.bids)
        (Client.wireLevels book.asks)]
      (readAll pub [.snapshot (.ofNat n) (Client.wireLevels book.bids)
        (Client.wireLevels book.asks)]) := by
  have hread : readAll pub [.snapshot (.ofNat n) (Client.wireLevels book.bids)
      (Client.wireLevels book.asks)] =
      { snapshotCount := 1, book := book, lastSeq := some (.ofNat n),
        printed := [.update (pub.line (.ofNat n) book)] } := by
    simp [readAll, read, printBands, Client.applyLevels_empty_wireLevels hpositive.bids,
      Client.applyLevels_empty_wireLevels hpositive.asks]
  rw [hread]
  refine ⟨hbook, rfl, rfl, ⟨rfl, rfl⟩, rfl, rfl, rfl, ?_,
    (PrintsChanges.start _).other rfl⟩
  simp [PrintedLine.updates, hbook]

theorem diff (h : At pub revisions start n updates p) {book' : L2OrderBook}
    (hnew : revisions[n + 1]? = some book') {bids asks : List PriceLevel}
    (hbids : Client.applyLevels p.book.bids bids = book'.bids)
    (hasks : Client.applyLevels p.book.asks asks = book'.asks) :
    At pub revisions start (n + 1) (updates ++ [.diff (.ofNat (n + 1)) bids asks])
      (p.read pub (.diff (.ofNat (n + 1)) bids asks)) := by
  have hgap : isBookSeqGap p.lastSeq (.ofNat (n + 1)) = false := by
    rw [h.lastSeq]
    simp [isBookSeqGap, UInt64.ofNat_add]
  have hread : p.read pub (.diff (.ofNat (n + 1)) bids asks) =
      { p with
        diffCount := p.diffCount + 1
        lastSeq := some (.ofNat (n + 1))
        book := book'
        printed := p.printed ++ [.update (pub.line (.ofNat (n + 1)) book')] } := by
    rw [read, if_neg (by rw [hgap]; decide), hbids, hasks]
    rfl
  rw [hread]
  have hnumber := h.diffCount
  have hheartbeats : heartbeats (updates ++ [.diff (.ofNat (n + 1)) bids asks]) =
      heartbeats updates := by
    simp [heartbeats]
  refine ⟨hnew, rfl, h.stopped, ⟨h.gaps.1, ?_⟩, h.snapshotCount, ?_, ?_, ?_,
    hheartbeats ▸ h.changes.other rfl⟩
  · rw [PrintedLine.gaps_append, h.gaps.2]
    rfl
  · change p.snapshotCount + (p.diffCount + 1) + p.heartbeatCount = _
    rw [List.length_append, List.length_singleton, ← h.counted]
    omega
  · exact (Nat.add_assoc _ _ _).symm.trans (congrArg (· + 1) hnumber)
  · have hrange : List.range' start (p.diffCount + 1 + 1) =
        List.range' start (p.diffCount + 1) ++ [n + 1] := by
      rw [List.range'_concat, Nat.one_mul, ← Nat.add_assoc, hnumber]
    change PrintedLine.updates (p.printed ++ [.update (pub.line (.ofNat (n + 1)) book')]) =
      (List.range' start (p.diffCount + 1 + 1)).map _
    rw [hrange, PrintedLine.updates_append, h.lines, List.map_append]
    simp [PrintedLine.updates, hnew]

theorem heartbeat (h : At pub revisions start n updates p) (venues : List String) :
    At pub revisions start n (updates ++ [.heartbeat venues]) (p.read pub (.heartbeat venues)) := by
  have hlines : ∀ f : List PrintedLine → List String,
      (∀ l l', f (l ++ l') = f l ++ f l') → (∀ line, f [.liveVenues line] = []) → f [] = [] →
      f (p.printed ++ (printVenues pub.tag p.lastLiveVenues venues).1) = f p.printed := by
    intro f happend hvenues hnil
    rw [happend, printVenues]
    split
    · rw [hnil, List.append_nil]
    · rw [hvenues, List.append_nil]
  have hheartbeats : heartbeats (updates ++ [.heartbeat venues]) =
      heartbeats updates ++ [venues] := by
    simp [heartbeats]
  refine ⟨h.book, h.lastSeq, h.stopped, ⟨h.gaps.1, ?_⟩, h.snapshotCount, ?_, h.diffCount, ?_,
    hheartbeats ▸ h.changes.printVenues venues⟩
  · exact (hlines _ PrintedLine.gaps_append (fun _ => rfl) rfl).trans h.gaps.2
  · rw [List.length_append, List.length_singleton, ← h.counted]
    exact (Nat.add_assoc _ _ _).symm
  · exact (hlines _ PrintedLine.updates_append (fun _ => rfl) rfl).trans h.lines

end At

end L2Publisher

/-- Numbers as their raw values. -/
def sampleFormat : FormatFixed where
  price p := toString p.raw
  size s := toString s.raw
  notional n := toString n.raw

namespace L2Publisher

variable (pub : BandPublication)

/-- The publisher holds what a client holds that has seen no gap. -/
structure Holds (client : Client) (p : L2Publisher) : Prop where
  stopped : p.stopped = false
  gaps : p.gapCount = 0 ∧ PrintedLine.gaps p.printed = []
  book : p.book = client.book
  lastSeq : p.lastSeq = client.lastSeq

variable {pub} {client client' : Client} {p : L2Publisher}

theorem Holds.printBands (h : Holds client p) (bookSeq : UInt64) :
    Holds client (p.printBands pub bookSeq) := by
  refine ⟨h.stopped, ⟨h.gaps.1, ?_⟩, h.book, h.lastSeq⟩
  rw [L2Publisher.printBands, PrintedLine.gaps_append, h.gaps.2]
  rfl

/-- An update the client reads. -/
theorem Holds.read (h : Holds client p) {update : L2Update}
    (hread : client.read update = some client') : Holds client' (p.read pub update) := by
  cases update with
  | snapshot bookSeq bids asks =>
    obtain rfl := Option.some.inj hread
    refine Holds.printBands ?_ bookSeq
    exact ⟨h.stopped, h.gaps, rfl, rfl⟩
  | diff bookSeq bids asks =>
    simp only [Client.read] at hread
    split at hread
    · cases hread
    · rename_i hgap
      obtain rfl := Option.some.inj hread
      rw [L2Publisher.read, h.lastSeq, if_neg hgap, h.book]
      refine Holds.printBands ?_ bookSeq
      exact ⟨h.stopped, h.gaps, rfl, rfl⟩
  | heartbeat venues =>
    obtain rfl := Option.some.inj hread
    refine ⟨h.stopped, ⟨h.gaps.1, ?_⟩, h.book, h.lastSeq⟩
    simp only [L2Publisher.read, printVenues]
    split
    · rw [List.append_nil]
      exact h.gaps.2
    · rw [PrintedLine.gaps_append, h.gaps.2]
      rfl

/-- What the publisher is left with at the first gap: the book it had before, with nothing
printed but the gap. -/
structure StoppedAt (pub : BandPublication) (pre : List L2Update) (bookSeq : UInt64)
    (p : L2Publisher) : Prop where
  stopped : p.stopped = true ∧ p.gapCount = 1
  book : p.book = (readAll pub pre).book
  printed : ∃ line, p.printed = (readAll pub pre).printed ++ [.gap line]
  gap : isBookSeqGap (readAll pub pre).lastSeq bookSeq = true

end L2Publisher

/-- **A publisher refines the client.** Whatever it is sent, a publisher of bands holds the
client's book as long as the client sees no gap; at the first gap it stops, with the book from
before the gap, and reads nothing behind it. -/
theorem publish_l2_bands_gap (pub : BandPublication) (updates : List L2Update) :
    match Client.readAll {} updates with
    | some client => L2Publisher.Holds client (L2Publisher.readAll pub updates)
    | none => ∃ pre bookSeq bids asks post, updates = pre ++ .diff bookSeq bids asks :: post ∧
        (Client.readAll {} pre).isSome ∧
        L2Publisher.StoppedAt pub pre bookSeq (L2Publisher.readAll pub updates) := by
  induction updates using List.reverseRecOn with
  | nil => exact ⟨rfl, ⟨rfl, rfl⟩, rfl, rfl⟩
  | append_singleton updates update ih =>
    rw [Client.readAll_concat, L2Publisher.readAll_concat]
    cases hclient : Client.readAll {} updates with
    | none =>
      rw [hclient] at ih
      obtain ⟨pre, bookSeq, bids, asks, post, rfl, hpre, hstopped⟩ := ih
      rw [if_pos hstopped.stopped.1]
      exact ⟨pre, bookSeq, bids, asks, post ++ [update], by simp, hpre, hstopped⟩
    | some client =>
      rw [hclient] at ih
      have hholds : L2Publisher.Holds client (L2Publisher.readAll pub updates) := ih
      rw [if_neg (by rw [hholds.stopped]; decide), Option.bind_some]
      cases hread : client.read update with
      | some client' => exact hholds.read hread
      | none =>
        cases update with
        | snapshot | heartbeat => cases hread
        | diff bookSeq bids asks =>
          have hgap : isBookSeqGap (L2Publisher.readAll pub updates).lastSeq bookSeq = true := by
            rw [hholds.lastSeq]
            by_contra hgap
            rw [Client.read, if_neg hgap] at hread
            cases hread
          refine ⟨updates, bookSeq, bids, asks, [], rfl, by rw [hclient]; rfl, ?_⟩
          rw [L2Publisher.read, if_pos hgap]
          exact ⟨⟨rfl, by simp [hholds.gaps.1]⟩, rfl, ⟨_, rfl⟩, hgap⟩

/-! ### The loop of the best bid and ask -/

/-- The variables of `publish_bbo`'s loop, and what it has printed. -/
structure BboPublisher where
  bboCount : ℕ := 0
  heartbeatCount : ℕ := 0
  lastLiveVenues : Option String := none
  printed : List PrintedLine := []

namespace BboPublisher

variable (fmt : FormatFixed) (label : String)

def tag : String := "[" ++ label ++ " BBO] "

/-- The body of the loop. -/
def read (p : BboPublisher) : BboUpdate → BboPublisher
  | .bbo bookSeq bid ask =>
    { p with
      bboCount := p.bboCount + 1
      printed := p.printed ++ [.update (tag label ++ bboText fmt bookSeq (bid, ask))] }
  | .heartbeat venues =>
    let (lines, last) := printVenues (tag label) p.lastLiveVenues venues
    { p with
      heartbeatCount := p.heartbeatCount + 1
      lastLiveVenues := last
      printed := p.printed ++ lines }

/-- The loop. -/
def readAll (updates : List BboUpdate) : BboPublisher := updates.foldl (read fmt label) {}

/-- The live venues of the heartbeats among the updates. -/
def heartbeats (updates : List BboUpdate) : List (List String) :=
  updates.filterMap fun
    | .heartbeat venues => some venues
    | _ => none

variable {fmt label}

end BboPublisher

end Hermeneutic
