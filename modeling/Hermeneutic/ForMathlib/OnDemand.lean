import Mathlib.Data.List.TakeWhile
import Hermeneutic.ForMathlib.Json

/-!
# Reading JSON on demand

An on-demand parser hands out where it stands in a text and looks at a value only when it is
asked for one. `OnDemand` is the interface that the readers of objects use; the parser itself is
not given, and `OnDemand.Laws` is what it documents. A field is looked up by its name from where
one stands in the object and then from its start, so that the lookup finds it wherever it stands
and leaves the object to be read further; a typed getter returns the value if it is one of its
type, and an error otherwise. The laws speak of what a position in the text stands for, which is
the parser's to say: `Is v j` when the value `v` is the document `j`, and `In o fields` when `o`
stands somewhere in an object of these fields. They promise nothing of an object that has a name
twice.

A `Reader` reads the fields of one object one after another, and stops at the first error. What it
returns might depend on the order of the fields and of the lookups. `Finds` says that it does not,
in a document that is unambiguous: it holds of a lookup and is kept by sequencing, so every reader
built from lookups has it, and what the reader returns is a condition on which fields the object
has. `scanning` is a parser that has the laws, whatever texts it is to read.

The notion behind the lemmas is a simulation. `Stands` and `Shows` relate a position to the part
of the document it stands for; a reader that keeps to them moves from one position in an object to
another one in the same object, so the document does not change under it. `Locates` is the version
for readers that return a position, as the start of a nested object or the elements of an array,
and `Finds` the one for those that return a value; `Locates.bind` is the rule of sequencing for
both, and `Locates.read_eq_some_iff` what is left of it in the end, a reader read as a condition
on the fields.
-/

namespace Hermeneutic

namespace Json

/-- An on-demand parser, as far as the readers of objects use it; an error is `none`. -/
structure OnDemand where
  /-- Where a value stands. -/
  Value : Type
  /-- Where one stands in an object. -/
  Object : Type
  /-- The start of the object that a text is. -/
  iterate : String → Option Object
  /-- The value of a field, and the object to be read further. -/
  field : Object → String → Option (Value × Object)
  getString : Value → Option String
  getUint64 : Value → Option UInt64
  getInt64 : Value → Option Int64
  getArray : Value → Option (List Value)
  getObject : Value → Option Object

namespace OnDemand

/-- What an on-demand parser documents. -/
structure Laws (p : OnDemand) (Is : p.Value → Json → Prop) (In : p.Object → Fields → Prop) :
    Prop where
  /-- A field is found wherever it stands. -/
  field_of_mem {o : p.Object} {fields : Fields} {name : String} {j : Json} : In o fields →
    fields.Distinct → (name, j) ∈ fields → ∃ v o', p.field o name = some (v, o') ∧ Is v j ∧
      In o' fields
  /-- No field is found that is not there. -/
  field_of_notMem {o : p.Object} {fields : Fields} {name : String} : In o fields →
    fields.Distinct → name ∉ fields.map Prod.fst → p.field o name = none
  /-- A string is read as what it spells. -/
  getString {v : p.Value} {j : Json} : Is v j → ∀ s, p.getString v = some s ↔ j = .text s
  /-- An integer is read as itself if it fits. -/
  getUint64 {v : p.Value} {j : Json} : Is v j →
    ∀ n, p.getUint64 v = some n ↔ j = .integer n.toNat
  getInt64 {v : p.Value} {j : Json} : Is v j → ∀ n, p.getInt64 v = some n ↔ j = .integer n.toInt
  /-- An array is read element by element. -/
  getArray_array {v : p.Value} {elems : List Json} : Is v (.array elems) →
    ∃ vs, p.getArray v = some vs ∧ List.Forall₂ Is vs elems
  getArray_of_ne {v : p.Value} {j : Json} : Is v j → (∀ elems, j ≠ .array elems) →
    p.getArray v = none
  /-- An object is read from its start. -/
  getObject_object {v : p.Value} {fields : Fields} : Is v (.object fields) →
    ∃ o, p.getObject v = some o ∧ In o fields
  getObject_of_ne {v : p.Value} {j : Json} : Is v j → (∀ fields, j ≠ .object fields) →
    p.getObject v = none

end OnDemand

/-! ### Readers -/

/-- A reader of an object's fields, from where it stands; it fails with an error that nobody
looks at. -/
abbrev Reader (p : OnDemand) := StateT p.Object Option

variable {p : OnDemand} {Is : p.Value → Json → Prop} {In : p.Object → Fields → Prop}

/-- The value of the field of a name. -/
def field (name : String) : Reader p p.Value := fun o => p.field o name

namespace Reader

variable {α β γ δ : Type}

/-- What the reader returns of an object. -/
def read (r : Reader p α) (o : p.Object) : Option α := (r.run o).map Prod.fst

/-- The value of a field as one of a type. -/
def get (as : p.Value → Option α) (name : String) : Reader p α := do
  as (← field name)

/-- The value is an unambiguous document. -/
def Shows (Is : p.Value → Json → Prop) (v : p.Value) (j : Json) : Prop := Is v j ∧ j.Unambiguous

/-- One stands in an unambiguous object. -/
def Stands (In : p.Object → Fields → Prop) (o : p.Object) (fields : Fields) : Prop :=
  In o fields ∧ (Json.object fields).Unambiguous

theorem Stands.distinct {o : p.Object} {fields : Fields} (h : Stands In o fields) :
    fields.Distinct :=
  (unambiguous_object_iff.mp h.2).1

/-- In an unambiguous object, the reader returns what stands (`R`) for something that `P` says of
the values of the names, and it fails if there is nothing that `P` says. -/
structure Locates (In : p.Object → Fields → Prop) (r : Reader p α) (R : α → γ → Prop)
    (P : (String → Option Json) → γ → Prop) : Prop where
  sound {o : p.Object} {fields : Fields} (ho : Stands In o fields) {a : α} {o' : p.Object}
    (hrun : r.run o = some (a, o')) : (∃ c, R a c ∧ P fields.value c) ∧ Stands In o' fields
  complete {o : p.Object} {fields : Fields} (ho : Stands In o fields) {c : γ}
    (hc : P fields.value c) : ∃ a o', r.run o = some (a, o') ∧ R a c

/-- In an unambiguous object, what the reader returns is what `P` says of the values of the
names, and it fails if there is nothing that `P` says. -/
abbrev Finds (In : p.Object → Fields → Prop) (r : Reader p α)
    (P : (String → Option Json) → α → Prop) : Prop :=
  Locates In r (· = ·) P

variable {r : Reader p α} {R : α → γ → Prop} {P P' : (String → Option Json) → γ → Prop}

theorem Locates.congr (hr : Locates In r R P) (h : ∀ value c, P value c ↔ P' value c) :
    Locates In r R P' := by
  obtain rfl : P = P' := funext fun value => funext fun c => propext (h value c)
  exact hr

theorem Locates.bind {next : α → Reader p β} {S : β → δ → Prop}
    {Q : γ → (String → Option Json) → δ → Prop} (hr : Locates In r R P)
    (hnext : ∀ a c, R a c → Locates In (next a) S (Q c)) :
    Locates In (r >>= next) S fun value d => ∃ c, P value c ∧ Q c value d := by
  constructor
  · intro o fields ho b o'' hrun
    rw [StateT.run_bind] at hrun
    obtain ⟨⟨a, o'⟩, hfirst, hsecond⟩ := Option.bind_eq_some_iff.mp hrun
    obtain ⟨⟨c, hac, hc⟩, ho'⟩ := hr.sound ho hfirst
    obtain ⟨⟨d, hbd, hd⟩, ho''⟩ := (hnext a c hac).sound ho' hsecond
    exact ⟨⟨d, hbd, c, hc, hd⟩, ho''⟩
  · rintro o fields ho d ⟨c, hc, hd⟩
    obtain ⟨a, o', hfirst, hac⟩ := hr.complete ho hc
    obtain ⟨-, ho'⟩ := hr.sound ho hfirst
    obtain ⟨b, o'', hsecond, hbd⟩ := (hnext a c hac).complete ho' hd
    exact ⟨b, o'', by rw [StateT.run_bind, hfirst]; exact hsecond, hbd⟩

theorem Locates.then {r : Reader p α} {P : (String → Option Json) → α → Prop}
    {next : α → Reader p β} {S : β → δ → Prop} {Q : α → (String → Option Json) → δ → Prop}
    (hr : Finds In r P) (hnext : ∀ a, Locates In (next a) S (Q a)) :
    Locates In (r >>= next) S fun value d => ∃ a, P value a ∧ Q a value d := by
  refine hr.bind ?_
  rintro a _ rfl
  exact hnext a

theorem Locates.ite {p' : Prop} [Decidable p'] {r' : Reader p α} (hr : Locates In r R P)
    (hr' : Locates In r' R P') : Locates In (if p' then r else r') R fun value c =>
      (p' ∧ P value c) ∨ (¬p' ∧ P' value c) := by
  split
  · rename_i h
    exact hr.congr fun value c => by simp [h]
  · rename_i h
    exact hr'.congr fun value c => by simp [h]

/-- **A lookup is a lookup**, wherever the reader stands. -/
theorem locates_field (hp : p.Laws Is In) (name : String) :
    Locates In (field name) (Shows Is) fun value j => value name = some j := by
  have hmem : ∀ {o : p.Object} {fields : Fields} {j : Json}, Stands In o fields →
      (name, j) ∈ fields → ∃ v o', p.field o name = some (v, o') ∧ Shows Is v j ∧
        Stands In o' fields := by
    intro o fields j ho hj
    obtain ⟨v, o', hrun, hv, ho'⟩ := hp.field_of_mem ho.1 ho.distinct hj
    exact ⟨v, o', hrun, ⟨hv, (unambiguous_object_iff.mp ho.2).2 _ hj⟩, ho', ho.2⟩
  constructor
  · intro o fields ho v o' hrun
    change p.field o name = some (v, o') at hrun
    by_cases hname : name ∈ fields.map Prod.fst
    · obtain ⟨⟨_, j⟩, hj, rfl⟩ := List.mem_map.mp hname
      obtain ⟨v', o'', hrun', hv, ho'⟩ := hmem ho hj
      obtain ⟨rfl, rfl⟩ := Prod.mk.inj (Option.some.inj (hrun'.symm.trans hrun))
      exact ⟨⟨j, hv, ho.distinct.value_eq_some_iff.mpr hj⟩, ho'⟩
    · rw [hp.field_of_notMem ho.1 ho.distinct hname] at hrun
      cases hrun
  · intro o fields ho j hj
    obtain ⟨v, o', hrun, hv, -⟩ := hmem ho (ho.distinct.value_eq_some_iff.mp hj)
    exact ⟨v, o', hrun, hv⟩

/-- A getter that returns something exactly for the documents `doc c`, and what stands for `c`,
locates these documents. -/
private theorem locates_get (hp : p.Laws Is In) {as : p.Value → Option α} {doc : γ → Json}
    (hsound : ∀ {v j a}, Shows Is v j → as v = some a → ∃ c, R a c ∧ j = doc c)
    (hcomplete : ∀ {v c}, Shows Is v (doc c) → ∃ a, as v = some a ∧ R a c) (name : String) :
    Locates In (get as name) R fun value c => value name = some (doc c) := by
  constructor
  · intro o fields ho a o' hrun
    rw [get, StateT.run_bind] at hrun
    obtain ⟨⟨v, o''⟩, hfield, has⟩ := Option.bind_eq_some_iff.mp hrun
    obtain ⟨⟨j, hv, hj⟩, ho'⟩ := (locates_field hp name).sound ho hfield
    cases hget : as v with
    | none =>
      simp only [hget] at has
      cases has
    | some a' =>
      simp only [hget] at has
      obtain ⟨rfl, rfl⟩ := Prod.mk.inj (Option.some.inj has)
      obtain ⟨c, hc, rfl⟩ := hsound hv hget
      exact ⟨⟨c, hc, hj⟩, ho'⟩
  · intro o fields ho c hc
    obtain ⟨v, o', hfield, hv⟩ := (locates_field hp name).complete ho hc
    obtain ⟨a, hget, ha⟩ := hcomplete hv
    refine ⟨a, o', ?_, ha⟩
    rw [get, StateT.run_bind, hfield]
    change (liftM (as v) : Reader p α).run o' = _
    rw [hget]
    rfl

private theorem Shows.getObject_sound (hp : p.Laws Is In) {v : p.Value} {j : Json}
    (hv : Shows Is v j) {o : p.Object} (hget : p.getObject v = some o) :
    ∃ fields, Stands In o fields ∧ j = .object fields := by
  by_cases hj : ∀ fields, j ≠ .object fields
  · rw [hp.getObject_of_ne hv.1 hj] at hget
    cases hget
  · push Not at hj
    obtain ⟨fields, rfl⟩ := hj
    obtain ⟨o', hget', ho⟩ := hp.getObject_object hv.1
    obtain rfl := Option.some.inj (hget'.symm.trans hget)
    exact ⟨fields, ⟨ho, hv.2⟩, rfl⟩

private theorem Shows.getObject_complete (hp : p.Laws Is In) {v : p.Value} {fields : Fields}
    (hv : Shows Is v (.object fields)) : ∃ o, p.getObject v = some o ∧ Stands In o fields := by
  obtain ⟨o, hget, ho⟩ := hp.getObject_object hv.1
  exact ⟨o, hget, ho, hv.2⟩

theorem locates_object (hp : p.Laws Is In) (name : String) :
    Locates In (get p.getObject name) (Stands In) fun value fields =>
      value name = some (.object fields) :=
  locates_get hp (fun hv hget => hv.getObject_sound hp hget) (fun hv => hv.getObject_complete hp)
    name

theorem locates_array (hp : p.Laws Is In) (name : String) :
    Locates In (get p.getArray name) (List.Forall₂ (Shows Is)) fun value elems =>
      value name = some (.array elems) := by
  have hshows : ∀ {vs elems}, List.Forall₂ Is vs elems → (∀ j ∈ elems, j.Unambiguous) →
      List.Forall₂ (Shows Is) vs elems := by
    intro vs elems h
    induction h with
    | nil => exact fun _ => .nil
    | cons hv _ ih =>
      intro hall
      obtain ⟨hj, hall⟩ := List.forall_mem_cons.mp hall
      exact .cons ⟨hv, hj⟩ (ih hall)
  have hget : ∀ {v elems}, Shows Is v (.array elems) →
      ∃ vs, p.getArray v = some vs ∧ List.Forall₂ (Shows Is) vs elems := by
    intro v elems hv
    obtain ⟨vs, hvs, hall⟩ := hp.getArray_array hv.1
    exact ⟨vs, hvs, hshows hall (unambiguous_array_iff.mp hv.2)⟩
  refine locates_get hp (fun {v j vs} hv hvs => ?_) hget name
  by_cases hj : ∀ elems, j ≠ .array elems
  · rw [hp.getArray_of_ne hv.1 hj] at hvs
    cases hvs
  · push Not at hj
    obtain ⟨elems, rfl⟩ := hj
    obtain ⟨vs', hvs', hall⟩ := hget hv
    obtain rfl := Option.some.inj (hvs'.symm.trans hvs)
    exact ⟨elems, hall, rfl⟩

/-- A getter under which every value is that of one document finds that document. -/
private theorem finds_get (hp : p.Laws Is In) {as : p.Value → Option α} {doc : α → Json}
    (has : ∀ {v j}, Is v j → ∀ a, as v = some a ↔ j = doc a) (name : String) :
    Finds In (get as name) fun value a => value name = some (doc a) :=
  locates_get hp (fun hv hget => ⟨_, rfl, (has hv.1 _).mp hget⟩)
    (fun hv => ⟨_, (has hv.1 _).mpr rfl, rfl⟩) name

theorem finds_string (hp : p.Laws Is In) (name : String) :
    Finds In (get p.getString name) fun value s => value name = some (.text s) :=
  finds_get hp hp.getString name

theorem finds_uint64 (hp : p.Laws Is In) (name : String) :
    Finds In (get p.getUint64 name) fun value n => value name = some (.integer n.toNat) :=
  finds_get hp hp.getUint64 name

theorem finds_int64 (hp : p.Laws Is In) (name : String) :
    Finds In (get p.getInt64 name) fun value n => value name = some (.integer n.toInt) :=
  finds_get hp hp.getInt64 name

theorem finds_pure (a : α) : Finds In (pure a : Reader p α) fun _ b => b = a := by
  refine ⟨fun ho b o' hrun => ?_, fun {o _} _ b hb => ⟨a, o, rfl, hb.symm⟩⟩
  obtain ⟨rfl, rfl⟩ := Prod.mk.inj (Option.some.inj hrun)
  exact ⟨⟨_, rfl, rfl⟩, ho⟩

/-- A step that looks at no field. -/
private theorem locates_lift {x : Option α} {Q : γ → Prop}
    (hsound : ∀ {a}, x = some a → ∃ c, R a c ∧ Q c)
    (hcomplete : ∀ {c}, Q c → ∃ a, x = some a ∧ R a c) :
    Locates In (liftM x : Reader p α) R fun _ c => Q c := by
  refine ⟨fun ho a o' hrun => ?_, fun {o _} _ c hc => ?_⟩
  · cases x with
    | none => cases hrun
    | some b =>
      obtain ⟨rfl, rfl⟩ := Prod.mk.inj (Option.some.inj hrun)
      exact ⟨hsound rfl, ho⟩
  · obtain ⟨a, rfl, ha⟩ := hcomplete hc
    exact ⟨a, o, rfl, ha⟩

theorem finds_lift (x : Option α) : Finds In (liftM x : Reader p α) fun _ a => x = some a :=
  locates_lift (fun ha => ⟨_, rfl, ha⟩) (fun ha => ⟨_, ha, rfl⟩)

/-- The object that a value is. -/
theorem Shows.locates_getObject (hp : p.Laws Is In) {v : p.Value} {j : Json}
    (hv : Shows Is v j) :
    Locates In (liftM (p.getObject v) : Reader p p.Object) (Stands In) fun _ fields =>
      j = .object fields := by
  refine locates_lift (fun hget => hv.getObject_sound hp hget) (fun {fields} hj => ?_)
  subst hj
  exact hv.getObject_complete hp

/-- The first of the elements of an array. -/
theorem locates_head? {vs : List α} {elems : List γ} (hall : List.Forall₂ R vs elems) :
    Locates In (liftM vs.head? : Reader p α) R fun _ j => elems.head? = some j := by
  cases hall with
  | nil => exact locates_lift (fun h => nomatch h) (fun h => nomatch h)
  | @cons v j _ _ hv _ =>
    refine locates_lift (fun {v'} h => ⟨j, ?_, rfl⟩) (fun {j'} h => ⟨v, rfl, ?_⟩)
    · obtain rfl := Option.some.inj h
      exact hv
    · obtain rfl := Option.some.inj h
      exact hv

section Finds

variable {r : Reader p α} {P : (String → Option Json) → α → Prop} {o : p.Object} {fields : Fields}

/-- Where one stands does not matter. -/
theorem Locates.read_eq_some_iff (hr : Finds In r P) (ho : Stands In o fields) {a : α} :
    r.read o = some a ↔ P fields.value a := by
  rw [read, Option.map_eq_some_iff]
  constructor
  · rintro ⟨⟨_, o'⟩, hrun, rfl⟩
    obtain ⟨⟨_, rfl, ha⟩, -⟩ := hr.sound ho hrun
    exact ha
  · intro ha
    obtain ⟨_, o', hrun, rfl⟩ := hr.complete ho ha
    exact ⟨_, hrun, rfl⟩

/-- Reading another object on the way. -/
theorem Locates.finds_read (hr : Finds In r P) (ho : Stands In o fields) :
    Finds In (liftM (r.read o) : Reader p α) fun _ a => P fields.value a :=
  (finds_lift _).congr fun _ _ => hr.read_eq_some_iff ho

/-- It fails, and there is nothing to find, or it finds the one thing there is. -/
theorem Locates.run_cases (hr : Finds In r P) (ho : Stands In o fields) :
    (r.run o = none ∧ ∀ a, ¬P fields.value a) ∨
      ∃ a o', r.run o = some (a, o') ∧ Stands In o' fields ∧
        ∀ b, P fields.value b ↔ b = a := by
  cases hrun : r.run o with
  | none =>
    refine .inl ⟨rfl, fun a ha => ?_⟩
    obtain ⟨_, o', hfound, -⟩ := hr.complete ho ha
    rw [hrun] at hfound
    cases hfound
  | some found =>
    obtain ⟨a, o'⟩ := found
    obtain ⟨⟨_, rfl, ha⟩, ho'⟩ := hr.sound ho hrun
    refine .inr ⟨_, o', rfl, ho', fun b => ⟨fun hb => ?_, fun h => h ▸ ha⟩⟩
    obtain ⟨_, o'', hfound, rfl⟩ := hr.complete ho hb
    rw [hrun] at hfound
    exact (congrArg Prod.fst (Option.some.inj hfound)).symm

end Finds

end Reader

/-! ### A parser that has the laws -/

section Scanning

/-- The parser of the texts that `decode` knows, which stands in an object as in the list of its
fields from there round to there again: a lookup scans the list and turns it. -/
def scanning (decode : String → Option Fields) : OnDemand where
  Value := Json
  Object := Fields
  iterate := decode
  field fields name :=
    match fields.dropWhile (·.1 ≠ name) with
    | [] => none
    | found :: rest => some (found.2, rest ++ (fields.takeWhile (·.1 ≠ name) ++ [found]))
  getString
    | .text s => some s
    | _ => none
  getUint64
    | .integer n => if 0 ≤ n ∧ n < 2 ^ 64 then some (.ofNat n.toNat) else none
    | _ => none
  getInt64
    | .integer n => if -2 ^ 63 ≤ n ∧ n < 2 ^ 63 then some (.ofInt n) else none
    | _ => none
  getArray
    | .array elems => some elems
    | _ => none
  getObject
    | .object fields => some fields
    | _ => none

variable {decode : String → Option Fields}

private theorem scanning_field_of_mem {o : Fields} {name : String} {j : Json}
    (hdistinct : o.Distinct) (hj : (name, j) ∈ o) :
    ∃ o', (scanning decode).field o name = some (j, o') ∧ o'.Perm o := by
  cases hrest : o.dropWhile (·.1 ≠ name) with
  | nil => exact absurd (List.dropWhile_eq_nil_iff.mp hrest _ hj) (by simp)
  | cons found behind =>
    have hname : found.1 = name := by
      have hhead := List.head?_dropWhile_not (fun f : String × Json => decide (f.1 ≠ name)) o
      rw [hrest] at hhead
      simpa using hhead
    have hsplit : o = o.takeWhile (·.1 ≠ name) ++ ([found] ++ behind) := by
      rw [List.singleton_append, ← hrest, List.takeWhile_append_dropWhile]
    have hfound : found ∈ o := by
      rw [hsplit]
      simp
    obtain rfl : found.2 = j := hdistinct.eq (hname ▸ hfound) hj
    refine ⟨behind ++ (o.takeWhile (·.1 ≠ name) ++ [found]), ?_, ?_⟩
    · simp only [scanning]
      rw [hrest]
    · conv_rhs => rw [hsplit, ← List.append_assoc]
      exact List.perm_append_comm

private theorem scanning_getUint64 {j : Json} {n : UInt64} :
    (scanning decode).getUint64 j = some n ↔ j = .integer n.toNat := by
  cases j with
  | integer m =>
    simp only [scanning, Option.ite_none_right_eq_some, Option.some.injEq, integer.injEq]
    constructor
    · rintro ⟨⟨hnonneg, hlt⟩, rfl⟩
      have hsize : m.toNat < UInt64.size := by
        rw [UInt64.size]
        omega
      rw [UInt64.toNat_ofNat_of_lt' hsize, Int.toNat_of_nonneg hnonneg]
    · rintro rfl
      have hlt := n.toNat_lt
      exact ⟨⟨by omega, by omega⟩, by simp⟩
  | _ => simp [scanning]

private theorem scanning_getInt64 {j : Json} {n : Int64} :
    (scanning decode).getInt64 j = some n ↔ j = .integer n.toInt := by
  cases j with
  | integer m =>
    simp only [scanning, Option.ite_none_right_eq_some, Option.some.injEq, integer.injEq]
    constructor
    · rintro ⟨⟨hle, hlt⟩, rfl⟩
      rw [Int64.toInt_ofInt_of_le hle hlt]
    · rintro rfl
      exact ⟨⟨n.le_toInt, n.toInt_lt⟩, Int64.ofInt_toInt n⟩
  | _ => simp [scanning]

/-- The laws can be had. -/
theorem scanning_laws (decode : String → Option Fields) :
    (scanning decode).Laws (· = ·) fun (o : Fields) fields => o.Perm fields where
  field_of_mem hperm hdistinct hj := by
    obtain ⟨o', hfield, hperm'⟩ :=
      scanning_field_of_mem (hdistinct.perm hperm) (hperm.mem_iff.mpr hj)
    exact ⟨_, o', hfield, rfl, hperm'.trans hperm⟩
  field_of_notMem {o fields name} hperm _ hname := by
    have hnil : o.dropWhile (·.1 ≠ name) = [] := by
      refine List.dropWhile_eq_nil_iff.mpr fun f hf => ?_
      rw [decide_eq_true_iff]
      rintro rfl
      exact hname (List.mem_map_of_mem (hperm.mem_iff.mp hf))
    simp only [scanning]
    rw [hnil]
  getString := by
    rintro j _ rfl s
    cases j <;> simp [scanning]
  getUint64 := by
    rintro j _ rfl n
    exact scanning_getUint64
  getInt64 := by
    rintro j _ rfl n
    exact scanning_getInt64
  getArray_array := by
    rintro _ elems rfl
    exact ⟨elems, rfl, List.forall₂_same.mpr fun _ _ => rfl⟩
  getArray_of_ne := by
    rintro j _ rfl hne
    cases j with
    | array elems => exact absurd rfl (hne elems)
    | _ => rfl
  getObject_object := by
    rintro _ fields rfl
    exact ⟨fields, rfl, .refl _⟩
  getObject_of_ne := by
    rintro j _ rfl hne
    cases j with
    | object fields => exact absurd rfl (hne fields)
    | _ => rfl

end Scanning

end Json

end Hermeneutic
