import Hermeneutic.Core.DecimalString
import Hermeneutic.ForMathlib.ListTraversal
import Hermeneutic.ForMathlib.OnDemand
import Hermeneutic.Ingestion.VenueSession

/-!
# What the feeds share

The vocabulary of every `VenueFeed` (`exchange/feed_wire.hpp`): prices and sizes sent as decimal
strings, level arrays of which the first two elements count, and the two nested `try` blocks of
a `parse_message`, of which the inner one tells what is not a message about a book and the
outer one what is malformed.

`simdjson` is not part of the repository: the on-demand parser is a parameter of the feeds
(`Json.OnDemand`), and what they rely on is what it documents (`Json.OnDemand.Laws`). `root[name]`
is a lookup that goes on behind what it has found, `get_string()` and its like are its getters, and
an object is read field by field (`Json.Reader`); a `simdjson_error` leaves the `try` block, with
nothing read. Before anything is parsed, a text is one that the parser iterates over as an object
(`Opens`).

`IsLevel` and `LevelsAt` say what a level and a level array carry, without a reader:
`finds_readLevels` is what connects the two.
-/

namespace Hermeneutic

open Json Json.Reader

/-- `std::errc::bad_message`, the only error of a feed. -/
inductive FeedErrc
  | badMessage
  deriving DecidableEq

/-! ### Levels -/

def parseDecimalStringToFixed (decimals : ℕ) (text : String) : Option (BasicFixedPoint decimals) :=
  (fromDecimalString decimals text.toList).toOption

/-- Reads the first two elements; any further ones are left alone. -/
def parseLevel (p : OnDemand) (level : List p.Value) : Option Level := do
  let price :: rest := level | none
  let priceText ← p.getString price
  let size :: _ := rest | none
  let sizeText ← p.getString size
  return (← parseDecimalStringToFixed 9 priceText, ← parseDecimalStringToFixed 6 sizeText)

def parseLevels (p : OnDemand) (levels : List p.Value) : Option (List Level) :=
  levels.mapM fun level => p.getArray level >>= parseLevel p

theorem toOption_eq_some_iff {ε α : Type} {e : Except ε α} {a : α} :
    e.toOption = some a ↔ e = .ok a := by
  cases e <;> simp [Except.toOption]

/-- The text spells a number that is `x` once rounded to its decimals, ties away from zero. -/
def Denotes {decimals : ℕ} (text : String) (x : BasicFixedPoint decimals) : Prop :=
  ∃ n : DecimalNumeral, n.spelling = text.toList ∧
    roundHalfAway (n.magnitude * 10 ^ decimals) ≤ int64Max ∧
    x.val = roundHalfAway (n.value * 10 ^ decimals)

private theorem parseDecimalStringToFixed_eq_some_iff {decimals : ℕ} {text : String}
    {x : BasicFixedPoint decimals} :
    parseDecimalStringToFixed decimals text = some x ↔ Denotes text x := by
  rw [parseDecimalStringToFixed, toOption_eq_some_iff]
  constructor
  · intro h
    obtain ⟨n, hn⟩ := exists_spelling_of_ok h
    rw [← hn] at h
    exact ⟨n, hn, (fromDecimalString_ok_iff n).mp h⟩
  · rintro ⟨n, hn, hvalue⟩
    rw [← hn]
    exact (fromDecimalString_ok_iff n).mpr hvalue

/-- The array starts with a price and a size. -/
def IsLevel (j : Json) (level : Level) : Prop :=
  ∃ price size rest, j = .array (.text price :: .text size :: rest) ∧
    Denotes price level.1 ∧ Denotes size level.2

variable {p : OnDemand} {Is : p.Value → Json → Prop} {In : p.Object → Fields → Prop}

private theorem parseLevel_eq_some_iff (hp : p.Laws Is In) {v : p.Value} {j : Json} (hv : Is v j)
    {level : Level} : (p.getArray v >>= parseLevel p) = some level ↔ IsLevel j level := by
  constructor
  · intro h
    obtain ⟨vs, hvs, hlevel⟩ := Option.bind_eq_some_iff.mp h
    obtain ⟨elems, rfl⟩ : ∃ elems, j = .array elems := by
      by_contra hne
      rw [hp.getArray_of_ne hv fun elems heq => hne ⟨elems, heq⟩] at hvs
      cases hvs
    obtain ⟨vs', hvs', hall⟩ := hp.getArray_array hv
    obtain rfl := Option.some.inj (hvs'.symm.trans hvs)
    match hall with
    | .nil => cases hlevel
    | .cons hprice .nil =>
      obtain ⟨priceText, -, hsize⟩ := Option.bind_eq_some_iff.mp hlevel
      cases hsize
    | .cons hprice (.cons hsize _) =>
      obtain ⟨priceText, hpriceText, hbehind⟩ := Option.bind_eq_some_iff.mp hlevel
      obtain ⟨sizeText, hsizeText, hnumbers⟩ := Option.bind_eq_some_iff.mp hbehind
      obtain ⟨x, hx, hsecond⟩ := Option.bind_eq_some_iff.mp hnumbers
      obtain ⟨y, hy, hpair⟩ := Option.bind_eq_some_iff.mp hsecond
      obtain rfl := Option.some.inj hpair
      obtain rfl := (hp.getString hprice _).mp hpriceText
      obtain rfl := (hp.getString hsize _).mp hsizeText
      exact ⟨priceText, sizeText, _, rfl, parseDecimalStringToFixed_eq_some_iff.mp hx,
        parseDecimalStringToFixed_eq_some_iff.mp hy⟩
  · rintro ⟨priceText, sizeText, rest, rfl, hx, hy⟩
    rw [← parseDecimalStringToFixed_eq_some_iff] at hx hy
    obtain ⟨vs, hvs, hall⟩ := hp.getArray_array hv
    match hall with
    | .cons hprice (.cons hsize _) =>
      simp [hvs, parseLevel, (hp.getString hprice _).mpr rfl, (hp.getString hsize _).mpr rfl, hx,
        hy]

private theorem parseLevels_eq_some_iff (hp : p.Laws Is In) {vs : List p.Value}
    {elems : List Json} (hall : List.Forall₂ Is vs elems) {levels : List Level} :
    parseLevels p vs = some levels ↔ List.Forall₂ IsLevel elems levels := by
  rw [parseLevels, mapM_eq_some_iff]
  induction hall generalizing levels with
  | nil => simp
  | cons hv _ ih =>
    simp only [List.forall₂_cons_left_iff, parseLevel_eq_some_iff hp hv, ih]

/-- The levels of a field, as many as its array has elements. -/
def LevelsAt (value : String → Option Json) (name : String) (levels : List Level) : Prop :=
  ∃ elems, value name = some (.array elems) ∧ List.Forall₂ IsLevel elems levels

/-- `parse_levels(object[name].get_array())` -/
def readLevels (p : OnDemand) (name : String) : Reader p (List Level) := do
  let levels ← get p.getArray name
  parseLevels p levels

theorem finds_readLevels (hp : p.Laws Is In) (name : String) :
    Finds In (readLevels p name) fun value levels => LevelsAt value name levels := by
  refine (locates_array hp name).bind fun vs elems hall => ?_
  have hparse : ∀ levels, parseLevels p vs = some levels ↔ List.Forall₂ IsLevel elems levels :=
    fun _ => parseLevels_eq_some_iff hp (hall.imp fun _ _ hv => hv.1)
  exact (finds_lift (parseLevels p vs)).congr fun _ levels => hparse levels

/-! ### The two `try` blocks -/

/-- What a feed makes of a message: one about a book that it carries, one to ignore, or else a
malformed one. -/
structure Reads (parsed : Except FeedErrc (Option ParsedMessage)) (Carries : ParsedMessage → Prop)
    (Ignorable : Prop) : Prop where
  message : ∀ m, parsed = .ok (some m) ↔ Carries m
  ignored : parsed = .ok none ↔ Ignorable
  malformed : parsed = .error .badMessage ↔ ¬Ignorable ∧ ∀ m, ¬Carries m

theorem Reads.congr {parsed : Except FeedErrc (Option ParsedMessage)}
    {Carries Carries' : ParsedMessage → Prop} {Ignorable Ignorable' : Prop}
    (h : Reads parsed Carries Ignorable) (hcarries : ∀ m, Carries m ↔ Carries' m)
    (hignorable : Ignorable ↔ Ignorable') : Reads parsed Carries' Ignorable' :=
  ⟨fun m => (h.message m).trans (hcarries m), h.ignored.trans hignorable,
    by simpa only [← hcarries, ← hignorable] using h.malformed⟩

section Parse

variable {α : Type} (recognize : Reader p α) (body : α → Reader p (Option ParsedMessage))

/-- A `parse_message` on the object of a text: an error of `recognize` means that the message is
none of ours, an error behind it that it is malformed. -/
def parseObject (root : p.Object) : Except FeedErrc (Option ParsedMessage) :=
  match recognize.run root with
  | none => .ok none
  | some (a, root) =>
    match (body a).run root with
    | none => .error .badMessage
    | some (message, _) => .ok message

variable {recognize body} {P : (String → Option Json) → α → Prop}
  {Q : α → (String → Option Json) → Option ParsedMessage → Prop}

/-- **The two `try` blocks**: what the inner one finds decides what the outer one makes of the
message. -/
theorem reads_parseObject (hrecognize : Finds In recognize P)
    (hbody : ∀ a, Finds In (body a) (Q a)) {root : p.Object} {fields : Fields}
    (hroot : Stands In root fields) :
    Reads (parseObject recognize body root)
      (fun m => ∃ a, P fields.value a ∧ Q a fields.value (some m))
      (∀ a, P fields.value a → Q a fields.value none) := by
  rw [parseObject]
  rcases hrecognize.run_cases hroot with ⟨hrun, hnone⟩ | ⟨a, rest, hrun, hrest, hsome⟩
  · rw [hrun]
    exact ⟨fun m => by simp [hnone], by simp [hnone], by simp [hnone]⟩
  · simp only [hrun, hsome, forall_eq, exists_eq_left]
    rcases (hbody a).run_cases hrest with ⟨hrun', hnone⟩ | ⟨parsed, rest', hrun', -, hsome'⟩
    · rw [hrun']
      exact ⟨fun m => by simp [hnone], by simp [hnone], by simp [hnone]⟩
    · simp only [hrun', hsome']
      exact ⟨fun m => by simp [eq_comm], by simp [eq_comm], by cases parsed <;> simp⟩

end Parse

/-- The text is the object of these fields, in which no name stands twice, nor in any object in
it, and the parser iterates over it. -/
def Opens (In : p.Object → Fields → Prop) (text : String) (fields : Fields) : Prop :=
  ∃ root, p.iterate text = some root ∧ Stands In root fields

end Hermeneutic
