import Mathlib.Data.List.Basic
import Hermeneutic.ForMathlib.Json

/-!
# JSON documents as text

`compact` is the text of a document without blanks, with an escape for the characters that a
string must not hold as they are. A string is its own escape exactly if it holds none of them,
which shows in the length alone (`flatMap_escape_eq_self_iff`); and as every element of a list is
at least as long with escapes as without, so do the lists (`intercalate_map_eq_iff`).
-/

namespace Hermeneutic

namespace Json

/-- A character that a string in a JSON text must not hold as it is. -/
def mustEscape (c : Char) : Bool := c = '\x22' || c = '\x5c' || c.toNat < 32

def escape (c : Char) : List Char :=
  if c = '\x22' || c = '\x5c' then ['\x5c', c]
  else if c.toNat < 32 then
    ['\x5c', 'u', '0', '0', Nat.digitChar (c.toNat / 16), Nat.digitChar (c.toNat % 16)]
  else [c]

/-- A string in quotes. -/
def quoteText (s : String) : List Char := '\x22' :: (s.toList.flatMap escape ++ ['\x22'])

mutual

/-- The text of a document, without any blank. -/
def compact : Json → List Char
  | .null => "null".toList
  | .bool b => (toString b).toList
  | .integer n => (toString n).toList
  | .real token => token.toList
  | .text s => quoteText s
  | .array elems => '[' :: (compactElems elems ++ [']'])
  | .object fields => '\x7b' :: (compactFields fields ++ ['\x7d'])

def compactElems : List Json → List Char
  | [] => []
  | [j] => j.compact
  | j :: j' :: js => j.compact ++ ',' :: compactElems (j' :: js)

def compactFields : List (String × Json) → List Char
  | [] => []
  | [(name, j)] => quoteText name ++ ':' :: j.compact
  | (name, j) :: p :: ps => quoteText name ++ ':' :: (j.compact ++ ',' :: compactFields (p :: ps))

end

/-- The object that has the text, of some objects. -/
def decodeAmong (docs : List Fields) (text : String) : Option Fields :=
  docs.find? fun fields => (Json.object fields).compact = text.toList

theorem compactElems_eq (elems : List Json) :
    compactElems elems = [','].intercalate (elems.map compact) := by
  induction elems with
  | nil => rfl
  | cons j js ih =>
    cases js with
    | nil => simp [compactElems]
    | cons j' js =>
      rw [compactElems, ih, List.map_cons, List.map_cons, List.map_cons,
        List.intercalate_cons_cons]
      simp

/-! ### Strings that need no escape -/

private theorem escape_of_not_mustEscape {c : Char} (h : mustEscape c = false) : escape c =
    [c] := by
  simp only [mustEscape, Bool.or_eq_false_iff, decide_eq_false_iff_not] at h
  simp [escape, h]

private theorem one_lt_length_escape {c : Char} (h : mustEscape c = true) : 1 <
    (escape c).length := by
  simp only [escape]
  split
  · simp
  · split
    · simp
    · simp_all [mustEscape]

theorem length_le_flatMap_escape (cs : List Char) : cs.length ≤ (cs.flatMap escape).length := by
  induction cs with
  | nil => simp
  | cons c cs ih =>
    have hone : 1 ≤ (escape c).length := by
      cases h : mustEscape c with
      | false => rw [escape_of_not_mustEscape h, List.length_singleton]
      | true => exact (one_lt_length_escape h).le
    rw [List.flatMap_cons, List.length_append, List.length_cons]
    omega

/-- **Escaping shows in the length**: a text is its own escape only if nothing in it is
escaped. -/
theorem flatMap_escape_eq_self_iff {cs : List Char} :
    cs.flatMap escape = cs ↔ ∀ c ∈ cs, mustEscape c = false := by
  constructor
  · intro h c hc
    by_contra hescape
    rw [Bool.not_eq_false] at hescape
    obtain ⟨pre, post, rfl⟩ := List.append_of_mem hc
    have hlength := congrArg List.length h
    have hpre := length_le_flatMap_escape pre
    have hpost := length_le_flatMap_escape post
    have hone := one_lt_length_escape hescape
    simp only [List.flatMap_append, List.flatMap_cons, List.length_append,
      List.length_cons] at hlength
    omega
  · intro h
    induction cs with
    | nil => rfl
    | cons c cs ih =>
      rw [List.flatMap_cons, escape_of_not_mustEscape (h c List.mem_cons_self),
        ih fun c' hc' => h c' (List.mem_cons_of_mem c hc')]
      rfl

private theorem mustEscape_of_toNat {c : Char} (hlow : 65 ≤ c.toNat) (hne : c.toNat ≠ 92) :
    mustEscape c = false := by
  have hquote : c ≠ '\x22' := by
    rintro rfl
    exact absurd hlow (by decide)
  have hslash : c ≠ '\x5c' := by
    rintro rfl
    exact hne rfl
  have hcontrol : ¬c.toNat < 32 := by omega
  simp [mustEscape, hquote, hslash, hcontrol]

/-- Letters need no escape, whatever their case. -/
theorem mustEscape_toLower (c : Char) : mustEscape c.toLower = mustEscape c := by
  unfold Char.toLower
  split
  · rename_i hupper
    have hlow : 65 ≤ c.toNat := UInt32.le_iff_toNat_le.mp hupper.1
    have hhigh : c.toNat ≤ 90 := UInt32.le_iff_toNat_le.mp hupper.2
    have hval : (c.val + ('a'.val - 'A'.val)).toNat = c.toNat + 32 := by
      rw [UInt32.toNat_add]
      refine Nat.mod_eq_of_lt ?_
      change c.toNat + 32 < _
      omega
    rw [mustEscape_of_toNat hlow (by omega)]
    refine mustEscape_of_toNat ?_ ?_
    · change 65 ≤ (c.val + ('a'.val - 'A'.val)).toNat
      omega
    · change (c.val + ('a'.val - 'A'.val)).toNat ≠ 92
      omega
  · rfl

end Json

/-! ### Lists with separators -/

section Intercalate

variable {α β : Type*} {sep : List β} {f g : α → List β}

private theorem length_intercalate_map_le (hle : ∀ x, (f x).length ≤ (g x).length) (xs : List α) :
    (sep.intercalate (xs.map f)).length ≤ (sep.intercalate (xs.map g)).length := by
  induction xs with
  | nil => simp
  | cons x xs ih =>
    cases xs with
    | nil => simpa using hle x
    | cons y ys =>
      have hx := hle x
      simp only [List.map_cons, List.intercalate_cons_cons, List.length_append] at ih ⊢
      omega

/-- Two lists whose elements are written out with the same separator, those of one never longer
than those of the other, are written alike only if they are alike. -/
theorem intercalate_map_eq_iff (hle : ∀ x, (f x).length ≤ (g x).length) (xs : List α) :
    sep.intercalate (xs.map f) = sep.intercalate (xs.map g) ↔ ∀ x ∈ xs, f x = g x := by
  refine ⟨fun h => ?_, fun h => by rw [List.map_congr_left h]⟩
  induction xs with
  | nil => simp
  | cons x xs ih =>
    cases xs with
    | nil => simpa using h
    | cons y ys =>
      have hx := hle x
      have hrest := @length_intercalate_map_le _ _ sep _ _ hle (y :: ys)
      simp only [List.map_cons, List.intercalate_cons_cons] at h ih hrest
      have hlength := congrArg List.length h
      simp only [List.length_append] at hlength
      rw [List.append_assoc, List.append_assoc] at h
      obtain ⟨hhead, htail⟩ := List.append_inj h (by omega)
      exact List.forall_mem_cons.mpr ⟨hhead, ih (List.append_cancel_left htail)⟩

end Intercalate

end Hermeneutic
