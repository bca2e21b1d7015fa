import Hermeneutic.Book.BookCall

/-!
# A venue's book, replayed

What one venue's calls mean, stated without the code of the book. Each side of a venue is a
plain map (`setPlain`): a snapshot side describes a map of its own (`firstsOf`), a batch side
updates the one there is (`lastsOn`), and a venue's entry is what its own accepted calls
leave (`replay`).

The code reaches the same map another way. It resyncs a side by removing what is absent and
then setting what is present, and it removes a venue level by level. `lastsOn_levels` shows
that the levels it puts on a side, whatever the operation, leave the plain map.

The plain maps are the abstract side of every result about the aggregate: `replay` folds the
venue's accepted calls, and no other venue's, from nothing. A resync and a batch differ in where
they start, not in how they put a level, so the lemmas about levels put in order
(`getElem?_lastsOn_of_forall_ne`, `sizeAt_lastsOn_of_mem`) serve both. Where the code puts a level
once for each price its levels are `DistinctPrices`; a batch may repeat one, and then the last one
stands.
-/

namespace Hermeneutic

/-! ### Plain per-venue maps -/

section Plain

variable {cmp : Price → Price → Ordering} [SideOrder cmp]

/-- Sets one level of a plain map; size zero removes it. -/
def setPlain (side : SideMap cmp) (level : Level) : SideMap cmp :=
  if level.2 = 0 then side.erase level.1 else side.insert level.1 level.2

/-- The map a snapshot side describes: a repeated price takes its first size. -/
def firstsOf (levels : List Level) : SideMap cmp :=
  levels.foldr (fun level side => setPlain side level) ∅

/-- The map a batch side leaves: a repeated price takes its last size. -/
def lastsOn (side : SideMap cmp) (levels : List Level) : SideMap cmp :=
  levels.foldl setPlain side

/-- What an operation does to a plain side. -/
def SideOp.replay (side : SideMap cmp) : SideOp → SideMap cmp
  | resync levels => firstsOf levels
  | apply levels => lastsOn side levels
  | remove => ∅

end Plain

/-- What an accepted call does to its venue's entry. -/
def BookOp.replay (entry : Option L2OrderBook) : BookOp → Option L2OrderBook
  | applySnapshot bids asks => some ⟨firstsOf asks, firstsOf bids⟩
  | applyBatch bids asks =>
    some ⟨lastsOn (entry.getD {}).asks asks, lastsOn (entry.getD {}).bids bids⟩
  | invalidateVenue => none

/-- A venue's own accepted calls. -/
def ownCalls (venue : VenueId) (calls : List BookCall) : List BookOp :=
  (calls.filter fun c => c.venue = venue && c.op.valid).map BookCall.op

/-- A venue's entry, replayed from its own accepted calls alone. -/
def replay (venue : VenueId) (calls : List BookCall) : Option L2OrderBook :=
  (ownCalls venue calls).foldl BookOp.replay none

theorem replay_concat (venue : VenueId) (calls : List BookCall) (c : BookCall) :
    replay venue (calls ++ [c]) =
      if c.venue = venue ∧ c.op.valid then c.op.replay (replay venue calls)
      else replay venue calls := by
  simp only [replay, ownCalls, List.filter_append, List.map_append, List.foldl_append]
  by_cases h : c.venue = venue ∧ c.op.valid
  · rw [if_pos h]
    simp [h]
  · rw [if_neg h]
    have : (decide (c.venue = venue) && c.op.valid) = false := by
      simpa only [Bool.eq_false_iff, ne_eq, Bool.and_eq_true, decide_eq_true_eq] using h
    simp [this]

section Side

variable {cmp : Price → Price → Ordering} [SideOrder cmp]

theorem sizeAt_setPlain (side : SideMap cmp) (level : Level) (p : Price) :
    sizeAt (setPlain side level) p = if level.1 = p then level.2.val else sizeAt side p := by
  rw [setPlain]
  split
  · rename_i hzero
    rw [sizeAt_erase, hzero, BasicFixedPoint.val_zero]
  · exact sizeAt_insert side _ _ p

theorem getElem?_setPlain (side : SideMap cmp) (level : Level) (p : Price) :
    (setPlain side level)[p]? =
      if level.1 = p then (if level.2 = 0 then none else some level.2) else side[p]? := by
  rw [setPlain]
  split
  · rw [Std.ExtTreeMap.getElem?_erase]
    simp only [Std.LawfulEqCmp.compare_eq_iff_eq]
  · rw [Std.ExtTreeMap.getElem?_insert]
    simp only [Std.LawfulEqCmp.compare_eq_iff_eq]

theorem getElem?_lastsOn_of_forall_ne (side : SideMap cmp) {levels : List Level} {p : Price}
    (h : ∀ l ∈ levels, l.1 ≠ p) : (lastsOn side levels)[p]? = side[p]? := by
  induction levels generalizing side with
  | nil => rfl
  | cons level levels ih =>
    have htail := ih (setPlain side level) fun l hl => h l (List.mem_cons_of_mem _ hl)
    rw [getElem?_setPlain, if_neg (h level List.mem_cons_self)] at htail
    exact htail

/-- Absolute levels overwrite what was at their prices: only the rest of a side matters. -/
theorem lastsOn_congr {side side' : SideMap cmp} {levels : List Level}
    (h : ∀ p, (∀ l ∈ levels, l.1 ≠ p) → side[p]? = side'[p]?) :
    lastsOn side levels = lastsOn side' levels := by
  induction levels generalizing side side' with
  | nil => exact Std.ExtTreeMap.ext_getElem? fun p => h p (by simp)
  | cons level levels ih =>
    refine ih fun p hp => ?_
    rw [getElem?_setPlain, getElem?_setPlain]
    by_cases heq : level.1 = p
    · rw [if_pos heq, if_pos heq]
    · rw [if_neg heq, if_neg heq]
      exact h p (List.forall_mem_cons.mpr ⟨heq, hp⟩)

theorem Positive.setPlain {side : SideMap cmp} (h : Positive side) {level : Level}
    (hsize : 0 ≤ level.2.val) : Positive (setPlain side level) := by
  rw [Hermeneutic.setPlain]
  split
  · exact h.erase _
  · rename_i hne
    have : level.2.val ≠ 0 := fun heq => hne (BasicFixedPoint.val_eq_zero_iff.mp heq)
    exact h.insert (by omega)

theorem Positive.lastsOn {side : SideMap cmp} (h : Positive side) {levels : List Level}
    (hsize : ∀ l ∈ levels, 0 ≤ l.2.val) : Positive (lastsOn side levels) := by
  induction levels generalizing side with
  | nil => exact h
  | cons level levels ih =>
    exact ih (h.setPlain (hsize level List.mem_cons_self))
      fun l hl => hsize l (List.mem_cons_of_mem _ hl)

theorem positive_firstsOf {levels : List Level} (hsize : ∀ l ∈ levels, 0 ≤ l.2.val) :
    Positive (firstsOf levels : SideMap cmp) := by
  induction levels with
  | nil => exact positive_empty
  | cons level levels ih =>
    exact (ih fun l hl => hsize l (List.mem_cons_of_mem _ hl)).setPlain
      (hsize level List.mem_cons_self)

/-- The size a list gives a price first. -/
private def firstSize (levels : List Level) (p : Price) : Option Size :=
  (levels.find? fun l => l.1 = p).map Prod.snd

private theorem firstSize_cons (level : Level) (levels : List Level) (p : Price) :
    firstSize (level :: levels) p =
      if level.1 = p then some level.2 else firstSize levels p := by
  simp only [firstSize, List.find?_cons]
  by_cases h : level.1 = p <;> simp [h]

private theorem sizeAt_firstsOf_eq (levels : List Level) (p : Price) :
    sizeAt (firstsOf levels : SideMap cmp) p = (firstSize levels p).elim 0 BasicFixedPoint.val := by
  induction levels with
  | nil => exact sizeAt_empty p
  | cons level levels ih =>
    rw [firstSize_cons, firstsOf, List.foldr_cons, sizeAt_setPlain]
    split
    · rfl
    · exact ih

private theorem getElem?_insertIfNews (levels : List Level) (side : SideMap cmp) (p : Price) :
    (levels.foldl (fun side level => side.insertIfNew level.1 level.2) side)[p]? =
      side[p]?.or (firstSize levels p) := by
  induction levels generalizing side with
  | nil => simp [firstSize]
  | cons level levels ih =>
    rw [List.foldl_cons, ih, firstSize_cons, Std.ExtTreeMap.getElem?_insertIfNew]
    simp only [Std.LawfulEqCmp.compare_eq_iff_eq]
    by_cases h : level.1 = p
    · subst h
      by_cases hmem : level.1 ∈ side
      · simp [hmem]
      · simp [hmem]
    · simp [h]

private theorem getElem?_ofLevels (levels : List Level) (p : Price) :
    (ofLevels levels : SideMap cmp)[p]? = firstSize levels p := by
  rw [ofLevels, getElem?_insertIfNews]
  simp

/-- The code's map of a snapshot side has the sizes of the plain one. -/
theorem sizeAt_ofLevels (levels : List Level) (p : Price) :
    sizeAt (ofLevels levels : SideMap cmp) p = sizeAt (firstsOf levels : SideMap cmp) p := by
  rw [sizeAt_firstsOf_eq, sizeAt, getElem?_ofLevels]

theorem mem_of_mem_ofLevels {levels : List Level} {level : Level}
    (h : level ∈ (ofLevels levels : SideMap cmp).toList) : level ∈ levels := by
  have hget := Std.ExtTreeMap.mem_toList_iff_getElem?_eq_some.mp h
  rw [getElem?_ofLevels, firstSize] at hget
  obtain ⟨l, hl, hsnd⟩ := Option.map_eq_some_iff.mp hget
  have hfst : l.1 = level.1 := by simpa using List.find?_some hl
  have heq : l = level := Prod.ext hfst hsnd
  exact heq ▸ List.mem_of_find?_eq_some hl

/-! ### What an operation leaves on the venue's side -/

theorem sizeAt_lastsOn_of_forall_ne (side : SideMap cmp) {levels : List Level} {p : Price}
    (h : ∀ l ∈ levels, l.1 ≠ p) : sizeAt (lastsOn side levels) p = sizeAt side p := by
  induction levels generalizing side with
  | nil => rfl
  | cons level levels ih =>
    have htail := ih (setPlain side level) fun l hl => h l (List.mem_cons_of_mem _ hl)
    have hne : level.1 ≠ p := h level List.mem_cons_self
    rw [sizeAt_setPlain, if_neg hne] at htail
    exact htail

/-- Levels with distinct prices. -/
def DistinctPrices (levels : List Level) : Prop := levels.Pairwise fun l l' => l.1 ≠ l'.1

/-- Of levels with distinct prices each ends at its own size. -/
theorem sizeAt_lastsOn_of_mem {side : SideMap cmp} {levels : List Level} {level : Level}
    (hdistinct : DistinctPrices levels) (h : level ∈ levels) :
    sizeAt (lastsOn side levels) level.1 = level.2.val := by
  induction levels generalizing side with
  | nil => simp at h
  | cons head levels ih =>
    obtain ⟨hhead, hdistinct⟩ := List.pairwise_cons.mp hdistinct
    rcases List.mem_cons.mp h with rfl | h
    · have := sizeAt_lastsOn_of_forall_ne (setPlain side level) (p := level.1)
        fun l hl => (hhead l hl).symm
      rw [sizeAt_setPlain, if_pos rfl] at this
      exact this
    · exact ih hdistinct h

/-- Zeroes clear the prices they name. -/
private theorem sizeAt_lastsOn_zeroes (side : SideMap cmp) (levels : List Level) (p : Price) :
    sizeAt (lastsOn side (levels.map fun l => (l.1, 0))) p =
      if p ∈ levels.map Prod.fst then 0 else sizeAt side p := by
  induction levels generalizing side with
  | nil => simp [lastsOn]
  | cons level levels ih =>
    have := ih (setPlain side (level.1, 0))
    rw [sizeAt_setPlain] at this
    rw [List.map_cons, lastsOn, List.foldl_cons]
    refine this.trans ?_
    by_cases hp : level.1 = p
    · simp [hp]
    · have hmem : p ∈ (level :: levels).map Prod.fst ↔ p ∈ levels.map Prod.fst := by
        rw [List.map_cons, List.mem_cons, or_iff_right fun heq => hp heq.symm]
      simp only [hp, if_false, hmem]

theorem mem_map_fst_toList {side : SideMap cmp} {p : Price} :
    p ∈ side.toList.map Prod.fst ↔ p ∈ side := by
  rw [Std.ExtTreeMap.map_fst_toList_eq_keys, Std.ExtTreeMap.mem_keys]

theorem sizeAt_of_not_mem {side : SideMap cmp} {p : Price} (h : p ∉ side) :
    sizeAt side p = 0 := by
  rw [sizeAt, Std.ExtTreeMap.getElem?_eq_none h]
  rfl

/-- Every level the operation names has a non-negative size. -/
def SideOp.Valid : SideOp → Prop
  | resync levels => ∀ l ∈ levels, 0 ≤ l.2.val
  | apply levels => ∀ l ∈ levels, 0 ≤ l.2.val
  | remove => True

theorem SideOp.Valid.levels {op : SideOp} (h : op.Valid) (side : SideMap cmp) :
    ∀ l ∈ op.levels side, 0 ≤ l.2.val := by
  have hzeroes : ∀ (ls : List Level), ∀ l ∈ ls.map (fun l => (l.1, (0 : Size))), 0 ≤ l.2.val := by
    intro ls l hl
    obtain ⟨l', -, rfl⟩ := List.mem_map.mp hl
    exact le_rfl
  cases op with
  | resync levels =>
    intro l hl
    rcases List.mem_append.mp hl with hl | hl
    · exact hzeroes _ l hl
    · exact h l (mem_of_mem_ofLevels hl)
  | apply levels => exact h
  | remove => exact hzeroes _

/-- A resync, removals first, and a removal leave the plain map. -/
theorem lastsOn_levels {op : SideOp} (h : op.Valid) {side : SideMap cmp} (hpos : Positive side) :
    lastsOn side (op.levels side) = op.replay side := by
  cases op with
  | apply levels => rfl
  | resync levels =>
    refine (hpos.lastsOn (SideOp.Valid.levels h side)).ext (positive_firstsOf h) fun p => ?_
    simp only [SideOp.levels, resyncLevels, lastsOn, List.foldl_append, SideOp.replay]
    rw [← sizeAt_ofLevels]
    by_cases hnew : p ∈ (ofLevels levels : SideMap cmp)
    · obtain ⟨s, hs⟩ := Option.isSome_iff_exists.mp
        (Std.ExtTreeMap.mem_iff_isSome_getElem?.mp hnew)
      have hmem := Std.ExtTreeMap.mem_toList_iff_getElem?_eq_some.mpr hs
      refine (sizeAt_lastsOn_of_mem (lists_toList (ofLevels levels)).1 hmem).trans ?_
      rw [sizeAt, hs]
      rfl
    · have habsent : ∀ l ∈ (ofLevels levels : SideMap cmp).toList, l.1 ≠ p := by
        rintro l hl rfl
        exact hnew (mem_map_fst_toList.mp (List.mem_map_of_mem hl))
      refine (sizeAt_lastsOn_of_forall_ne _ habsent).trans ?_
      refine (sizeAt_lastsOn_zeroes side _ p).trans ?_
      rw [sizeAt_of_not_mem hnew]
      split
      · rfl
      · rename_i hkept
        refine sizeAt_of_not_mem fun hp => hkept ?_
        obtain ⟨l, hl, rfl⟩ := List.mem_map.mp (mem_map_fst_toList.mpr hp)
        refine List.mem_map_of_mem (List.mem_filter.mpr ⟨hl, ?_⟩)
        rw [Bool.not_eq_true', Bool.eq_false_iff]
        exact fun hcontains => hnew (Std.ExtTreeMap.mem_iff_contains.mpr hcontains)
  | remove =>
    refine (hpos.lastsOn (SideOp.Valid.levels h side)).ext positive_empty fun p => ?_
    refine (sizeAt_lastsOn_zeroes side _ p).trans ?_
    rw [SideOp.replay, sizeAt_empty]
    split
    · rfl
    · rename_i hp
      exact sizeAt_of_not_mem fun hmem => hp (mem_map_fst_toList.mpr hmem)

end Side

end Hermeneutic
