import Mathlib.Algebra.Order.Ring.Int
import Mathlib.Data.List.Nodup

/-!
# JSON documents

A document as its text spells it: integers apart from other numbers, and an object as the list of
its fields in the order they stand in the text. JSON promises nothing about that order, and says
nothing of an object that has a name twice. `Unambiguous` is a document without such an object;
there the fields are a map (`Fields.value`), whatever their order.
-/

namespace Hermeneutic

/-- A JSON document. -/
inductive Json
  | null
  | bool (b : Bool)
  | integer (n : ℤ)
  /-- A number that is not an integer, as written. -/
  | real (token : String)
  | text (s : String)
  | array (elems : List Json)
  | object (fields : List (String × Json))

namespace Json

/-- The fields of an object. -/
abbrev Fields := List (String × Json)

/-- No object in the document has a name twice. -/
inductive Unambiguous : Json → Prop
  | null : Unambiguous .null
  | bool (b : Bool) : Unambiguous (.bool b)
  | integer (n : ℤ) : Unambiguous (.integer n)
  | real (token : String) : Unambiguous (.real token)
  | text (s : String) : Unambiguous (.text s)
  | array {elems : List Json} : (∀ j ∈ elems, Unambiguous j) → Unambiguous (.array elems)
  | object {fields : Fields} : (fields.map Prod.fst).Nodup →
      (∀ p ∈ fields, Unambiguous p.2) → Unambiguous (.object fields)

/-! ### Fields -/

/-- No name twice. -/
def Fields.Distinct (fields : Fields) : Prop := (fields.map Prod.fst).Nodup

instance (fields : Fields) : Decidable fields.Distinct :=
  inferInstanceAs (Decidable (fields.map Prod.fst).Nodup)

theorem Fields.Distinct.perm {fields fields' : Fields} (h : fields.Distinct)
    (hperm : fields'.Perm fields) : fields'.Distinct :=
  (hperm.map Prod.fst).nodup_iff.mpr h

@[simp] theorem unambiguous_object_iff {fields : Fields} :
    (Json.object fields).Unambiguous ↔ fields.Distinct ∧ ∀ p ∈ fields, p.2.Unambiguous := by
  constructor
  · rintro (_ | _ | _ | _ | _ | _ | ⟨hdistinct, hvalues⟩)
    exact ⟨hdistinct, hvalues⟩
  · rintro ⟨hdistinct, hvalues⟩
    exact .object hdistinct hvalues

@[simp] theorem unambiguous_array_iff {elems : List Json} :
    (Json.array elems).Unambiguous ↔ ∀ j ∈ elems, j.Unambiguous := by
  constructor
  · rintro (_ | _ | _ | _ | _ | helems)
    exact helems
  · exact .array

attribute [simp] Unambiguous.null Unambiguous.bool Unambiguous.integer Unambiguous.real
  Unambiguous.text

/-- Two fields of one name are one. -/
theorem Fields.Distinct.eq {fields : Fields} (h : fields.Distinct) {name : String} {v w : Json}
    (hv : (name, v) ∈ fields) (hw : (name, w) ∈ fields) : v = w :=
  congrArg Prod.snd (List.inj_on_of_nodup_map h hv hw rfl)

/-- The value of the field of a name. -/
def Fields.value (fields : Fields) (name : String) : Option Json :=
  (fields.find? (·.1 = name)).map Prod.snd

theorem Fields.Distinct.value_eq_some_iff {fields : Fields} (h : fields.Distinct) {name : String}
    {v : Json} : fields.value name = some v ↔ (name, v) ∈ fields := by
  rw [Fields.value, Option.map_eq_some_iff]
  constructor
  · rintro ⟨⟨name', v'⟩, hfind, rfl⟩
    obtain rfl : name' = name := by simpa using List.find?_some hfind
    exact List.mem_of_find?_eq_some hfind
  · intro hmem
    cases hfind : fields.find? (·.1 = name) with
    | none => simpa using List.find?_eq_none.mp hfind _ hmem
    | some found =>
      obtain rfl : found.1 = name := by simpa using List.find?_some hfind
      exact ⟨found, rfl, h.eq (List.mem_of_find?_eq_some hfind) hmem⟩

end Json

end Hermeneutic
