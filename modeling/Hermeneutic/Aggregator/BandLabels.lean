import Mathlib.Data.List.DropRight
import Hermeneutic.Aggregator.BandFlags
import Hermeneutic.Aggregator.Publisher

/-!
# The labels of the bands

The client labels a notional threshold in whole units, behind a `K`, `M` or `B` where it is a
round number of them, and a threshold in basis points behind `bps`; the last label of a list has
a `+` (`format_notional_label`, `format_bps_label` and `build_labels` of
`apps/aggregator/band_config.hpp`).

`labelValue` reads a label back. What the flags accept comes back as it was typed
(`readsAs_notional` and `readsAs_bps`), so no two bands of a line have the same label.

A label is printed from a number and read back through its digits, with the letter as a power of
ten to multiply by (`labelUnit`). Labels of different thresholds differ because they read back to
different numbers, and the mark of the last one is not a digit.
-/

namespace Hermeneutic

open BasicFixedPoint

/-- Drops the zeros at the end, and the point where no other decimal is left. -/
def trimTrailingZeros (decimal : List Char) : List Char :=
  if '.' ∈ decimal then
    let significant := decimal.rdropWhile (· = '0')
    if significant.getLast? = some '.' ∧ significant.count '.' = 1 then significant.dropLast
    else significant
  else decimal

/-- The label of a notional threshold. -/
def formatNotionalLabel (fmt : FormatFixed) (value : Notional) : String :=
  if value.val.tmod (10 ^ 9) ≠ 0 then
    -- not reached by what the flag accepts
    String.ofList (trimTrailingZeros (fmt.notional value).toList)
  else
    let units := value.val.tdiv (10 ^ 9)
    if units ≠ 0 ∧ units.tmod 1000000000 = 0 then toString (units.tdiv 1000000000) ++ "B"
    else if units ≠ 0 ∧ units.tmod 1000000 = 0 then toString (units.tdiv 1000000) ++ "M"
    else if units ≠ 0 ∧ units.tmod 1000 = 0 then toString (units.tdiv 1000) ++ "K"
    else toString units

def formatBpsLabel (bps : Int32) : String := toString bps.toInt ++ "bps"

/-- One label a threshold, the last one marked. -/
def buildLabels {α : Type} (thresholds : List α) (labelFn : α → String) : List String :=
  thresholds.mapIdx fun i threshold =>
    if i + 1 = thresholds.length then labelFn threshold ++ "+" else labelFn threshold

/-! ### Reading a label back -/

/-- What a suffix multiplies by. -/
def labelUnit (suffix : List Char) : ℕ :=
  match suffix.head? with
  | some 'K' => 1000
  | some 'M' => 1000000
  | some 'B' => 1000000000
  | _ => 1

/-- The number a label denotes. -/
def labelValue (label : String) : ℕ :=
  digitsValue (label.toList.takeWhile Char.isDigit) *
    labelUnit (label.toList.dropWhile Char.isDigit)

/-- The labels of a list of numbers: one for each, and a mark on the last. -/
structure ReadsAs (labels : List String) (numbers : List ℕ) : Prop where
  values : labels.map labelValue = numbers
  marked : ∃ plain : List String, (∀ label ∈ plain, '+' ∉ label.toList) ∧
    labels = plain.dropLast ++ plain.getLast?.toList.map (· ++ "+")
  distinct : labels.Nodup

private theorem buildLabels_concat {α : Type} (thresholds : List α) (threshold : α)
    (labelFn : α → String) :
    buildLabels (thresholds ++ [threshold]) labelFn =
      thresholds.map labelFn ++ [labelFn threshold ++ "+"] := by
  rw [buildLabels, List.mapIdx_concat]
  congr 1
  · refine List.ext_getElem (by simp) fun i hi _ => ?_
    rw [List.length_mapIdx] at hi
    rw [List.getElem_mapIdx, List.getElem_map, if_neg]
    rw [List.length_append, List.length_singleton]
    omega
  · simp

/-- A label that begins with a number, and what follows it is no digit. -/
private theorem labelValue_of_toList {label : String} {n : ℕ} {suffix : List Char}
    (hlabel : label.toList = Nat.toDigits 10 n ++ suffix)
    (hsuffix : suffix.head?.all fun c => !c.isDigit) :
    labelValue label = n * labelUnit suffix := by
  have hdigits : ∀ c ∈ Nat.toDigits 10 n, c.isDigit = true := fun c hc =>
    Nat.isDigit_of_mem_toDigits (by decide) (by decide) hc
  have hvalue : digitsValue (Nat.toDigits 10 n) = n :=
    Nat.ofDigitChars_toDigits (by decide) (by decide)
  rw [labelValue, hlabel, List.takeWhile_append_of_pos hdigits,
    List.dropWhile_append_of_pos hdigits]
  cases suffix with
  | nil => rw [List.takeWhile_nil, List.append_nil, List.dropWhile_nil, hvalue]
  | cons c suffix =>
    have hc : ¬ c.isDigit = true := by simpa using hsuffix
    rw [List.takeWhile_cons_of_neg hc, List.append_nil, List.dropWhile_cons_of_neg hc, hvalue]

/-- A label without a mark, of a numeral and a suffix. -/
def LabelOf (label : String) (n : ℕ) : Prop :=
  ∃ numeral suffix, label.toList = Nat.toDigits 10 numeral ++ suffix ∧
    (∀ c ∈ suffix, c.isDigit = false ∧ c ≠ '+') ∧ numeral * labelUnit suffix = n

namespace LabelOf

variable {label : String} {n : ℕ}

private theorem labelValue_eq (h : LabelOf label n) : labelValue label = n := by
  obtain ⟨numeral, suffix, hlabel, hsuffix, rfl⟩ := h
  refine labelValue_of_toList hlabel ?_
  cases suffix with
  | nil => rfl
  | cons c suffix => simp [(hsuffix c List.mem_cons_self).1]

/-- The mark does not change the number. -/
private theorem labelValue_marked (h : LabelOf label n) : labelValue (label ++ "+") = n := by
  obtain ⟨numeral, suffix, hlabel, hsuffix, rfl⟩ := h
  have hmarked : (label ++ "+").toList = Nat.toDigits 10 numeral ++ (suffix ++ ['+']) := by
    simp [hlabel]
  cases suffix with
  | nil =>
    rw [List.nil_append] at hmarked
    have hvalue := labelValue_of_toList hmarked rfl
    exact hvalue
  | cons c suffix =>
    have hunit : labelUnit (c :: suffix ++ ['+']) = labelUnit (c :: suffix) := rfl
    rw [← hunit]
    exact labelValue_of_toList hmarked (by simp [(hsuffix c List.mem_cons_self).1])

private theorem unmarked (h : LabelOf label n) : '+' ∉ label.toList := by
  obtain ⟨numeral, suffix, hlabel, hsuffix, -⟩ := h
  rw [hlabel, List.mem_append]
  rintro (hmem | hmem)
  · exact absurd (Nat.isDigit_of_mem_toDigits (b := 10) (by decide) (by decide) hmem) (by decide)
  · exact (hsuffix _ hmem).2 rfl

end LabelOf

/-- Labels of ascending numbers read as these. -/
private theorem readsAs_buildLabels {α : Type} {thresholds : List α} {labelFn : α → String}
    {numbers : List ℕ}
    (hlabels : List.Forall₂ (fun threshold n => LabelOf (labelFn threshold) n) thresholds numbers)
    (hascending : numbers.Pairwise (· < ·)) :
    ReadsAs (buildLabels thresholds labelFn) numbers := by
  -- the numbers are those of the labels without the mark, which does not change one
  have hplain : (thresholds.map labelFn).map labelValue = numbers := by
    rw [List.map_map, ← List.forall₂_eq_eq_eq, List.forall₂_map_left_iff]
    exact hlabels.imp fun _ _ => LabelOf.labelValue_eq
  have hlabel : ∀ threshold ∈ thresholds, ∃ n, LabelOf (labelFn threshold) n := by
    intro threshold hmem
    obtain ⟨n, -, hn⟩ := exists_of_mem_forall₂ hlabels hmem
    exact ⟨n, hn⟩
  clear hlabels
  induction thresholds using List.reverseRecOn with
  | nil => exact ⟨hplain, ⟨[], by simp, rfl⟩, List.nodup_nil⟩
  | append_singleton thresholds last _ =>
    have hvalues : (buildLabels (thresholds ++ [last]) labelFn).map labelValue = numbers := by
      obtain ⟨n, hlast⟩ := hlabel last (by simp)
      rw [← hplain, buildLabels_concat, List.map_append, List.map_append, List.map_append,
        List.map_singleton, List.map_singleton, List.map_singleton, hlast.labelValue_marked,
        hlast.labelValue_eq]
    refine ⟨hvalues, ⟨(thresholds ++ [last]).map labelFn, ?_, ?_⟩, ?_⟩
    · refine List.forall_mem_map.mpr fun threshold hmem => ?_
      obtain ⟨n, hn⟩ := hlabel threshold hmem
      exact hn.unmarked
    · rw [buildLabels_concat]
      simp
    · refine List.Nodup.of_map labelValue ?_
      rw [hvalues]
      exact hascending.imp fun hlt => hlt.ne

/-! ### The labels of the flags -/

/-- The label of a positive number in units that divide it. -/
private theorem labelOf_units {n unit : ℕ} {suffix : String}
    (hunit : labelUnit suffix.toList = unit)
    (hsuffix : ∀ c ∈ suffix.toList, c.isDigit = false ∧ c ≠ '+') (hdvd : unit ∣ n) :
    LabelOf (toString ((n : ℤ).tdiv unit) ++ suffix) n := by
  refine ⟨n / unit, suffix.toList, ?_, hsuffix, ?_⟩
  · rw [Int.tdiv_eq_ediv_of_nonneg (Int.natCast_nonneg n), ← Int.natCast_ediv, String.toList_append]
    congr 1
    exact Nat.toList_repr
  · rw [hunit]
    exact Nat.div_mul_cancel hdvd

/-- A whole number of units is labelled in one of the suffixes that divides it. -/
private theorem labelOf_formatNotionalLabel (fmt : FormatFixed) {value : Notional} {n : ℕ}
    (hvalue : value.val = n * 10 ^ 9) : LabelOf (formatNotionalLabel fmt value) n := by
  have hmod : value.val.tmod (10 ^ 9) = 0 := by
    rw [hvalue, Int.mul_tmod_left]
  have hdiv : value.val.tdiv (10 ^ 9) = n := by
    rw [hvalue, Int.mul_tdiv_cancel _ (by decide)]
  have hdvd : ∀ unit : ℕ, (n : ℤ).tmod unit = 0 → unit ∣ n := fun unit h =>
    Int.natCast_dvd_natCast.mp (Int.dvd_of_tmod_eq_zero h)
  simp only [formatNotionalLabel, hmod, hdiv, ne_eq, not_true_eq_false, if_false]
  split_ifs with hbillion hmillion hthousand
  · exact labelOf_units rfl (by simp) (hdvd 1000000000 hbillion.2)
  · exact labelOf_units rfl (by simp) (hdvd 1000000 hmillion.2)
  · exact labelOf_units rfl (by simp) (hdvd 1000 hthousand.2)
  · exact ⟨n, [], by rw [List.append_nil]; exact Nat.toList_repr, by simp, Nat.mul_one n⟩

private theorem labelOf_formatBpsLabel {bps : Int32} {n : ℕ} (hbps : bps.toInt = n) :
    LabelOf (formatBpsLabel bps) n := by
  refine ⟨n, "bps".toList, ?_, by simp, Nat.mul_one n⟩
  rw [formatBpsLabel, hbps, String.toList_append]
  congr 1
  exact Nat.toList_repr

/-- **The labels of the volume bands** are the numbers of the flag. -/
theorem readsAs_notional (fmt : FormatFixed) {thresholds : List Notional} {numbers : List ℕ}
    (hvalues : thresholds.map val = numbers.map fun n : ℕ => (n : ℤ) * 10 ^ 9)
    (hascending : numbers.Pairwise (· < ·)) :
    ReadsAs (buildLabels thresholds (formatNotionalLabel fmt)) numbers := by
  rw [← List.forall₂_eq_eq_eq, List.forall₂_map_left_iff, List.forall₂_map_right_iff] at hvalues
  exact readsAs_buildLabels (hvalues.imp fun _ _ => labelOf_formatNotionalLabel fmt) hascending

/-- **The labels of the price bands** are the numbers of the flag. -/
theorem readsAs_bps {thresholds : List Int32} {numbers : List ℕ}
    (hvalues : thresholds.map Int32.toInt = numbers.map fun n : ℕ => (n : ℤ))
    (hascending : numbers.Pairwise (· < ·)) :
    ReadsAs (buildLabels thresholds formatBpsLabel) numbers := by
  rw [← List.forall₂_eq_eq_eq, List.forall₂_map_left_iff, List.forall₂_map_right_iff] at hvalues
  exact readsAs_buildLabels (hvalues.imp fun _ _ => labelOf_formatBpsLabel) hascending

end Hermeneutic
