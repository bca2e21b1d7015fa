import Mathlib.Data.List.TakeWhile
import Hermeneutic.Symbol.Symbol

/-!
# Book identities and their spelling

A book is a base and a quote code and a market (`symbol/symbol.hpp`). `BookId.toString` writes
it as `BASE_QUOTE.SPOT` or `BASE_QUOTE.PERP`, for logs and at input boundaries; `parseBookId`
reads that spelling back. The suffix is looked for at the end and the underscore from the
start, and the codes may hold anything but an underscore, dots and the texts of the suffixes
included.

A code is `Plain` when it is not empty and holds no underscore: the codes that the spelling can
represent. `parseBookId_eq_some_iff` is the round trip in both directions at once.
-/

namespace Hermeneutic

/-- A currency or coin, by its code. -/
structure Asset where
  code : String
  deriving DecidableEq, Repr

/-- A base/quote pair. -/
structure BaseQuote where
  base : Asset
  quote : Asset
  deriving DecidableEq, Repr

/-- A book's identity: a pair and the market it is traded on. -/
structure BookId where
  symbol : BaseQuote
  type : MarketType
  deriving DecidableEq, Repr

theorem BookId.eq_of_symbol_type {id id' : BookId} (hsymbol : id.symbol = id'.symbol)
    (htype : id.type = id'.type) : id = id' := by
  obtain ⟨symbol, type⟩ := id
  obtain ⟨symbol', type'⟩ := id'
  exact congrArg₂ BookId.mk hsymbol htype

/-- One non-empty base and one non-empty quote, separated by a single `_`. -/
def splitBaseQuote (token : List Char) : Option BaseQuote :=
  match token.dropWhile (· ≠ '_') with
  | [] => none
  | _ :: quote =>
    let base := token.takeWhile (· ≠ '_')
    if '_' ∈ quote then none
    else if base.isEmpty || quote.isEmpty then none
    else some ⟨⟨String.ofList base⟩, ⟨String.ofList quote⟩⟩

/-- The suffix of a book's spelling. -/
def bookSuffix : MarketType → String
  | .spot => ".SPOT"
  | .perp => ".PERP"

/-- The human-readable form of a book, `to_string(BookId)`. -/
def BookId.toString (id : BookId) : String :=
  id.symbol.base.code ++ "_" ++ id.symbol.quote.code ++ bookSuffix id.type

/-- Reads a book's human-readable form. -/
def parseBookId (token : List Char) : Option BookId :=
  let suffix := (bookSuffix .spot).toList
  if suffix.isSuffixOf token then
    (splitBaseQuote (token.take (token.length - suffix.length))).map (⟨·, .spot⟩)
  else
    let suffix := (bookSuffix .perp).toList
    if suffix.isSuffixOf token then
      (splitBaseQuote (token.take (token.length - suffix.length))).map (⟨·, .perp⟩)
    else none

/-! ### Splitting at the underscore -/

/-- A code the `BASE_QUOTE` spelling can represent. -/
structure Asset.Plain (a : Asset) : Prop where
  nonempty : a.code.toList ≠ []
  no_underscore : '_' ∉ a.code.toList

/-- A pair the spelling can represent. -/
structure BaseQuote.Plain (symbol : BaseQuote) : Prop where
  base : symbol.base.Plain
  quote : symbol.quote.Plain

namespace BaseQuote

/-- The `BASE_QUOTE` spelling, character by character. -/
def spelling (symbol : BaseQuote) : List Char :=
  symbol.base.code.toList ++ '_' :: symbol.quote.code.toList

end BaseQuote

/-- The characters before the first underscore hold none, and one follows them. -/
private theorem splitBaseQuote_spelling {symbol : BaseQuote} (h : symbol.Plain) :
    splitBaseQuote symbol.spelling = some symbol := by
  have hbase : ∀ c ∈ symbol.base.code.toList, decide (c ≠ '_') := by
    intro c hc
    exact decide_eq_true fun heq => h.base.no_underscore (heq ▸ hc)
  have hempty : (symbol.base.code.toList.isEmpty || symbol.quote.code.toList.isEmpty) = false := by
    rw [Bool.or_eq_false_iff, List.isEmpty_eq_false_iff, List.isEmpty_eq_false_iff]
    exact ⟨h.base.nonempty, h.quote.nonempty⟩
  have hdrop : symbol.spelling.dropWhile (· ≠ '_') = '_' :: symbol.quote.code.toList := by
    rw [BaseQuote.spelling, List.dropWhile_append_of_pos hbase]
    exact List.dropWhile_cons_of_neg (by decide)
  have htake : symbol.spelling.takeWhile (· ≠ '_') = symbol.base.code.toList := by
    rw [BaseQuote.spelling, List.takeWhile_append_of_pos hbase,
      List.takeWhile_cons_of_neg (by decide), List.append_nil]
  rw [splitBaseQuote, hdrop, htake]
  simp only [if_neg h.quote.no_underscore, hempty, Bool.false_eq_true, if_false,
    String.ofList_toList]

/-- What splits is the spelling of a plain pair. -/
private theorem spelling_of_splitBaseQuote {token : List Char} {symbol : BaseQuote}
    (h : splitBaseQuote token = some symbol) : symbol.Plain ∧ symbol.spelling = token := by
  rw [splitBaseQuote] at h
  cases hdrop : token.dropWhile (· ≠ '_') with
  | nil =>
    rw [hdrop] at h
    cases h
  | cons c quote =>
    have hunderscore : c = '_' := by
      have hhead := List.head?_dropWhile_not (fun c => decide (c ≠ '_')) token
      rw [hdrop] at hhead
      simpa using hhead
    have htoken : token.takeWhile (· ≠ '_') ++ '_' :: quote = token := by
      rw [hunderscore] at hdrop
      rw [← hdrop, List.takeWhile_append_dropWhile]
    have hbase : '_' ∉ token.takeWhile (· ≠ '_') := by
      intro hmem
      simpa using List.mem_takeWhile_imp hmem
    rw [hdrop] at h
    simp only at h
    split_ifs at h with hcontains hempty
    rw [Bool.or_eq_true, List.isEmpty_iff, List.isEmpty_iff, not_or] at hempty
    obtain rfl := Option.some.inj h
    refine ⟨⟨⟨?_, ?_⟩, ⟨?_, ?_⟩⟩, ?_⟩
    · simpa using hempty.1
    · simpa using hbase
    · simpa using hempty.2
    · simpa using hcontains
    · simpa [BaseQuote.spelling] using htoken

theorem splitBaseQuote_eq_some_iff {token : List Char} {symbol : BaseQuote} :
    splitBaseQuote token = some symbol ↔ symbol.Plain ∧ symbol.spelling = token := by
  refine ⟨spelling_of_splitBaseQuote, ?_⟩
  rintro ⟨hplain, rfl⟩
  exact splitBaseQuote_spelling hplain

/-! ### The round trip -/

private theorem BookId.toList_toString (id : BookId) :
    id.toString.toList = id.symbol.spelling ++ (bookSuffix id.type).toList := by
  simp [BookId.toString, BaseQuote.spelling]

/-- The characters of a suffix, read off the literal instead of computed from it. -/
private theorem toList_bookSuffix (type : MarketType) : (bookSuffix type).toList =
    match type with
    | .spot => ['.', 'S', 'P', 'O', 'T']
    | .perp => ['.', 'P', 'E', 'R', 'P'] := by
  cases type <;> exact String.toList_ofList

private theorem length_bookSuffix (type : MarketType) : (bookSuffix type).toList.length = 5 := by
  rw [toList_bookSuffix]
  cases type <;> rfl

/-- No text ends in both suffixes. -/
private theorem eq_of_suffixes {token : List Char} {type type' : MarketType}
    (h : (bookSuffix type).toList <:+ token) (h' : (bookSuffix type').toList <:+ token) :
    type = type' := by
  have hlen : (bookSuffix type).toList.length = (bookSuffix type').toList.length := by
    rw [length_bookSuffix, length_bookSuffix]
  have heq : (bookSuffix type).toList = (bookSuffix type').toList :=
    (List.suffix_of_suffix_length_le h h' hlen.le).eq_of_length hlen
  rw [toList_bookSuffix, toList_bookSuffix] at heq
  cases type <;> cases type' <;> first | rfl | exact absurd heq (by decide)

/-- The parser strips the one suffix the text has and splits the rest. -/
private theorem parseBookId_append (token : List Char) (type : MarketType) :
    parseBookId (token ++ (bookSuffix type).toList) = (splitBaseQuote token).map (⟨·, type⟩) := by
  have hlen : ∀ type, (token ++ (bookSuffix type).toList).take
      ((token ++ (bookSuffix type).toList).length - (bookSuffix type).toList.length) = token := by
    intro type
    rw [List.length_append, Nat.add_sub_cancel, List.take_left]
  rw [parseBookId]
  cases type with
  | spot =>
    rw [if_pos (List.isSuffixOf_iff_suffix.mpr (List.suffix_append _ _)), hlen]
  | perp =>
    have hspot : ¬(bookSuffix .spot).toList.isSuffixOf (token ++ (bookSuffix .perp).toList) := by
      intro h
      have hboth := eq_of_suffixes (List.isSuffixOf_iff_suffix.mp h) (List.suffix_append _ _)
      exact absurd hboth (by decide)
    rw [if_neg hspot, if_pos (List.isSuffixOf_iff_suffix.mpr (List.suffix_append _ _)), hlen]

/-- What is accepted ends in the suffix of the market it was read as. -/
private theorem suffix_of_parseBookId {token : List Char} {id : BookId}
    (h : parseBookId token = some id) : (bookSuffix id.type).toList <:+ token := by
  simp only [parseBookId] at h
  split_ifs at h with hspot hperp
  · obtain ⟨symbol, -, rfl⟩ := Option.map_eq_some_iff.mp h
    exact List.isSuffixOf_iff_suffix.mp hspot
  · obtain ⟨symbol, -, rfl⟩ := Option.map_eq_some_iff.mp h
    exact List.isSuffixOf_iff_suffix.mp hperp

/-- The parser and the spelling are inverse to each other on plain books. -/
theorem parseBookId_eq_some_iff {token : List Char} {id : BookId} :
    parseBookId token = some id ↔ id.symbol.Plain ∧ id.toString.toList = token := by
  rw [BookId.toList_toString]
  constructor
  · intro h
    obtain ⟨rest, rfl⟩ := suffix_of_parseBookId h
    rw [parseBookId_append] at h
    obtain ⟨symbol, hsymbol, hid⟩ := Option.map_eq_some_iff.mp h
    obtain ⟨hplain, rfl⟩ := splitBaseQuote_eq_some_iff.mp hsymbol
    rw [← hid]
    exact ⟨hplain, rfl⟩
  · rintro ⟨hplain, rfl⟩
    rw [parseBookId_append, splitBaseQuote_spelling hplain]
    rfl

/-- **Book identities round-trip.** The parser inverts the spelling of every book with plain
codes, gives back the spelling of what it accepts, and accepts exactly these spellings. -/
theorem parseBookId_round_trip :
    (∀ id : BookId, id.symbol.Plain → parseBookId id.toString.toList = some id) ∧
    (∀ (s : String) (id : BookId), parseBookId s.toList = some id → id.toString = s) ∧
    ∀ s : String, (∃ id, parseBookId s.toList = some id) ↔
      ∃ id : BookId, id.symbol.Plain ∧ id.toString = s := by
  refine ⟨fun id hplain => parseBookId_eq_some_iff.mpr ⟨hplain, rfl⟩, fun s id h => ?_, fun s => ?_⟩
  · exact String.toList_inj.mp (parseBookId_eq_some_iff.mp h).2
  · simp only [parseBookId_eq_some_iff, String.toList_inj]

/-- Dots and the texts of the suffixes inside the codes do not matter. -/
theorem parseBookId_round_trip_dotted :
    parseBookId (BookId.toString ⟨⟨⟨"A.SPOT"⟩, ⟨".PERP"⟩⟩, .spot⟩).toList =
      some ⟨⟨⟨"A.SPOT"⟩, ⟨".PERP"⟩⟩, .spot⟩ :=
  parseBookId_round_trip.1 _ ⟨⟨by decide, by decide⟩, ⟨by decide, by decide⟩⟩

end Hermeneutic
