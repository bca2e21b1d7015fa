import Hermeneutic.Aggregator.SymbolBook

/-!
# The client's book

What a client of the L2 stream does with its messages (`apps/aggregator/client_book.hpp`, and
the read loop of `client_main.cpp`): a snapshot replaces both sides, a diff is applied to them
if its `book_seq` follows the last one, and the stream is given up if it does not.

The levels the server sends are those of a map, each price once, so applying them is an
overlay: a price among them gets its size, or is removed if that is zero, and every other
price is left alone (`getElem?_applyLevels_wireLevels`).
-/

namespace Hermeneutic

section Side

variable {cmp : Price → Price → Ordering} [SideOrder cmp]

/-- Applies one side of a snapshot or diff to the local book. -/
def Client.applyLevels (side : SideMap cmp) (levels : List PriceLevel) : SideMap cmp :=
  levels.foldl
    (fun side level =>
      let price : Price := .fromRaw level.priceRaw
      let size : Size := .fromRaw level.sizeRaw
      if size.raw = 0 then side.erase price else side.insert price size) side

end Side

/-- Whether `bookSeq` does not follow `lastSeq`. -/
def isBookSeqGap (lastSeq : Option UInt64) (bookSeq : UInt64) : Bool :=
  match lastSeq with
  | none => false
  | some lastSeq => bookSeq ≠ lastSeq + 1

/-- The client of one L2 stream. -/
structure Client where
  lastSeq : Option UInt64 := none
  book : L2OrderBook := {}

namespace Client

/-- One message; `none` is a gap, after which the client reads no more. -/
def read (client : Client) : L2Update → Option Client
  | .snapshot bookSeq bids asks =>
    some { lastSeq := some bookSeq, book := ⟨applyLevels ∅ asks, applyLevels ∅ bids⟩ }
  | .diff bookSeq bids asks =>
    if isBookSeqGap client.lastSeq bookSeq then none
    else some
      { lastSeq := some bookSeq
        book := ⟨applyLevels client.book.asks asks, applyLevels client.book.bids bids⟩ }
  | .heartbeat _ => some client

/-- The read loop. -/
def readAll (client : Client) (updates : List L2Update) : Option Client :=
  updates.foldlM read client

theorem readAll_concat (client : Client) (updates : List L2Update) (update : L2Update) :
    client.readAll (updates ++ [update]) = (client.readAll updates).bind (·.read update) := by
  simp [readAll, List.foldlM_append]

section Side

variable {cmp : Price → Price → Ordering} [SideOrder cmp]

/-- The levels of a map, as they are sent. -/
def wireLevels (side : SideMap cmp) : List PriceLevel :=
  side.toList.map fun level => makeLevel level.1 level.2

/-- Applying a level. -/
private def applyOne (side : SideMap cmp) (level : Level) : SideMap cmp :=
  if level.2 = 0 then side.erase level.1 else side.insert level.1 level.2

private theorem applyLevels_map (levels : List Level) (side : SideMap cmp) :
    applyLevels side (levels.map fun level => makeLevel level.1 level.2) =
      levels.foldl applyOne side := by
  have hone : ∀ (side : SideMap cmp) (level : Level),
      (if (makeLevel level.1 level.2).sizeRaw = 0 then side.erase level.1
        else side.insert level.1 level.2) = applyOne side level := by
    intro side level
    have hzero : (makeLevel level.1 level.2).sizeRaw = 0 ↔ level.2 = 0 :=
      ⟨fun h => congrArg BasicFixedPoint.mk h, fun h => congrArg BasicFixedPoint.raw h⟩
    simp only [applyOne, hzero]
  rw [applyLevels, List.foldl_map]
  exact congrArg (fun f => List.foldl f side levels) (funext₂ hone)

private theorem getElem?_applyOne (side : SideMap cmp) (level : Level) (p : Price) :
    (applyOne side level)[p]? =
      if level.1 = p then if level.2 = 0 then none else some level.2 else side[p]? := by
  rw [applyOne]
  split
  · simp only [Std.ExtTreeMap.getElem?_erase, Std.LawfulEqCmp.compare_eq_iff_eq]
  · simp only [Std.ExtTreeMap.getElem?_insert, Std.LawfulEqCmp.compare_eq_iff_eq]

/-- What applying levels leaves at a price they do not mention. -/
private theorem getElem?_foldl_applyOne_of_ne {levels : List Level} {p : Price}
    (h : ∀ level ∈ levels, level.1 ≠ p) (side : SideMap cmp) :
    (levels.foldl applyOne side)[p]? = side[p]? := by
  induction levels generalizing side with
  | nil => rfl
  | cons level levels ih =>
    obtain ⟨hne, h⟩ := List.forall_mem_cons.mp h
    rw [List.foldl_cons, ih h, getElem?_applyOne, if_neg hne]

/-- What applying levels with distinct prices leaves at a price among them. -/
private theorem getElem?_foldl_applyOne_of_mem {levels : List Level}
    (hdistinct : levels.Pairwise fun l l' => l.1 ≠ l'.1) {p : Price} {size : Size}
    (h : (p, size) ∈ levels) (side : SideMap cmp) :
    (levels.foldl applyOne side)[p]? = if size = 0 then none else some size := by
  induction levels generalizing side with
  | nil => simp at h
  | cons level levels ih =>
    obtain ⟨hfirst, hdistinct⟩ := List.pairwise_cons.mp hdistinct
    rw [List.foldl_cons]
    rcases List.mem_cons.mp h with rfl | h
    · rw [getElem?_foldl_applyOne_of_ne (fun level hmem => (hfirst level hmem).symm),
        getElem?_applyOne, if_pos rfl]
    · exact ih hdistinct h _

/-- What a side holds at a price once a level is laid over it: the level's size, nothing if
that is zero, and what it held before if there is no level. -/
def overlay : Option Size → Option Size → Option Size
  | some size, _ => if size = 0 then none else some size
  | none, old => old

/-- **Applying the levels of a map** overlays them. -/
theorem getElem?_applyLevels_wireLevels (side changes : SideMap cmp) (p : Price) :
    (applyLevels side (wireLevels changes))[p]? = overlay changes[p]? side[p]? := by
  obtain ⟨hdistinct, hheld⟩ := lists_toList changes
  rw [wireLevels, applyLevels_map]
  cases hp : changes[p]? with
  | some size =>
    exact getElem?_foldl_applyOne_of_mem hdistinct
      (Std.ExtTreeMap.mem_toList_iff_getElem?_eq_some.mpr hp) side
  | none =>
    refine getElem?_foldl_applyOne_of_ne (fun level hmem heq => ?_) side
    have hlevel := hheld level hmem
    rw [heq, hp] at hlevel
    simp at hlevel

/-- A positive side is rebuilt from its levels. -/
theorem applyLevels_empty_wireLevels {side : SideMap cmp} (h : Positive side) :
    applyLevels ∅ (wireLevels side) = side := by
  refine Std.ExtTreeMap.ext_getElem? fun p => ?_
  rw [getElem?_applyLevels_wireLevels]
  cases hp : side[p]? with
  | none => simp [overlay]
  | some size =>
    have hne : size ≠ 0 := by
      rintro rfl
      exact absurd (h p 0 hp) (by decide)
    simp [overlay, hne]

end Side

end Client

end Hermeneutic
