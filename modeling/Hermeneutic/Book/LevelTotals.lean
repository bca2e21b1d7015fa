import Mathlib.Algebra.BigOperators.Group.List.Basic
import Mathlib.Algebra.Order.BigOperators.Group.List
import Hermeneutic.Book.L2OrderBook
import Hermeneutic.Core.Notional

/-!
# The totals of a list of levels

The band functions walk the levels of one side and keep a running size and a running
notional. In exact arithmetic these are `sizeTotal` and `notionalTotal` of the levels walked
so far; each level's notional is rounded before it is added.
-/

namespace Hermeneutic

/-- The total size of a list of levels. -/
def sizeTotal (levels : List Level) : ℤ := (levels.map fun level => level.2.val).sum

/-- The total of the rounded notionals of a list of levels. -/
def notionalTotal (levels : List Level) : ℤ :=
  (levels.map fun level => notionalOf level.1 level.2).sum

@[simp] theorem sizeTotal_nil : sizeTotal [] = 0 := rfl

@[simp] theorem notionalTotal_nil : notionalTotal [] = 0 := rfl

@[simp] theorem sizeTotal_cons (level : Level) (levels : List Level) :
    sizeTotal (level :: levels) = level.2.val + sizeTotal levels := by
  simp [sizeTotal]

@[simp] theorem notionalTotal_cons (level : Level) (levels : List Level) :
    notionalTotal (level :: levels) = notionalOf level.1 level.2 + notionalTotal levels := by
  simp [notionalTotal]

@[simp] theorem sizeTotal_append (levels levels' : List Level) :
    sizeTotal (levels ++ levels') = sizeTotal levels + sizeTotal levels' := by
  simp [sizeTotal]

@[simp] theorem notionalTotal_append (levels levels' : List Level) :
    notionalTotal (levels ++ levels') = notionalTotal levels + notionalTotal levels' := by
  simp [notionalTotal]

/-- Every level is one the band functions accept. -/
def ValidLevels (levels : List Level) : Prop := ∀ level ∈ levels, isValidLevel level

theorem notionalOf_nonneg_of_valid {level : Level} (h : isValidLevel level) :
    0 ≤ notionalOf level.1 level.2 :=
  notionalOf_nonneg (isValidLevel_iff.mp h).1.le (isValidLevel_iff.mp h).2

theorem sizeTotal_nonneg {levels : List Level} (h : ValidLevels levels) : 0 ≤ sizeTotal levels := by
  refine List.sum_nonneg fun x hx => ?_
  obtain ⟨level, hlevel, rfl⟩ := List.mem_map.mp hx
  exact (isValidLevel_iff.mp (h level hlevel)).2

theorem notionalTotal_nonneg {levels : List Level} (h : ValidLevels levels) :
    0 ≤ notionalTotal levels := by
  refine List.sum_nonneg fun x hx => ?_
  obtain ⟨level, hlevel, rfl⟩ := List.mem_map.mp hx
  exact notionalOf_nonneg_of_valid (h level hlevel)

theorem ValidLevels.initial {levels levels' : List Level} (h : ValidLevels levels')
    (hinit : levels <+: levels') : ValidLevels levels :=
  fun level hlevel => h level (hinit.subset hlevel)

theorem sizeTotal_mono {levels levels' : List Level} (h : ValidLevels levels')
    (hinit : levels <+: levels') : sizeTotal levels ≤ sizeTotal levels' := by
  obtain ⟨rest, rfl⟩ := hinit
  have hrest : 0 ≤ sizeTotal rest :=
    sizeTotal_nonneg fun level hlevel => h level (List.mem_append_right levels hlevel)
  rw [sizeTotal_append]
  omega

theorem notionalTotal_mono {levels levels' : List Level} (h : ValidLevels levels')
    (hinit : levels <+: levels') : notionalTotal levels ≤ notionalTotal levels' := by
  obtain ⟨rest, rfl⟩ := hinit
  have hrest : 0 ≤ notionalTotal rest :=
    notionalTotal_nonneg fun level hlevel => h level (List.mem_append_right levels hlevel)
  rw [notionalTotal_append]
  omega

end Hermeneutic
