import TofuSdk.Decode

namespace TofuSdk

open ValueOf

namespace Ty

mutual

def everywhere (p : Ty → Bool) (ty : Ty) : Bool :=
  p ty && match ty with
  | .list elem | .set elem | .map elem => everywhere p elem
  | .object attrs => everywhereAttrs p attrs
  | .tuple elems => everywhereIn p elems
  | _ => true
termination_by structural ty

def everywhereIn (p : Ty → Bool) (elems : List Ty) : Bool :=
  match elems with
  | [] => true
  | t :: ts => everywhere p t && everywhereIn p ts
termination_by structural elems

def everywhereAttrs (p : Ty → Bool) (attrs : List ObjectAttr) : Bool :=
  match attrs with
  | [] => true
  | ⟨_, ty, _⟩ :: attrs => everywhere p ty && everywhereAttrs p attrs
termination_by structural attrs

end

theorem everywhereIn_iff {p : Ty → Bool} {elems : List Ty} :
    everywhereIn p elems = true ↔ ∀ t ∈ elems, everywhere p t = true := by
  induction elems with
  | nil => simp [everywhereIn]
  | cons t ts ih => simp [everywhereIn, ih]

theorem everywhereAttrs_iff {p : Ty → Bool} {attrs : List ObjectAttr} :
    everywhereAttrs p attrs = true ↔ ∀ attr ∈ attrs, everywhere p attr.ty = true := by
  induction attrs with
  | nil => simp [everywhereAttrs]
  | cons attr attrs ih => simp [everywhereAttrs, ih]

/-- No dynamic slot at any depth. -/
def isStatic (ty : Ty) : Bool := ty.everywhere fun
  | .dynamic => false
  | _ => true

/-- The attribute names of each object type differ from each other. -/
def distinctNames (ty : Ty) : Bool := ty.everywhere fun
  | .object attrs => decide (attrs.map (·.name)).Nodup
  | _ => true

theorem isStatic_tuple {elems : List Ty} : (Ty.tuple elems).isStatic = true ↔ ∀ t ∈ elems, t.isStatic = true := by
  change (true && everywhereIn _ elems) = true ↔ _
  rw [Bool.true_and, everywhereIn_iff]
  rfl

theorem isStatic_object {attrs : List ObjectAttr} :
    (Ty.object attrs).isStatic = true ↔ ∀ attr ∈ attrs, attr.ty.isStatic = true := by
  change (true && everywhereAttrs _ attrs) = true ↔ _
  rw [Bool.true_and, everywhereAttrs_iff]
  rfl

theorem distinctNames_tuple {elems : List Ty} :
    (Ty.tuple elems).distinctNames = true ↔ ∀ t ∈ elems, t.distinctNames = true := by
  change (true && everywhereIn _ elems) = true ↔ _
  rw [Bool.true_and, everywhereIn_iff]
  rfl

theorem distinctNames_object {attrs : List ObjectAttr} :
    (Ty.object attrs).distinctNames = true ↔
      (attrs.map (·.name)).Nodup ∧ ∀ attr ∈ attrs, attr.ty.distinctNames = true := by
  change (decide (attrs.map (·.name)).Nodup && everywhereAttrs _ attrs) = true ↔ _
  rw [Bool.and_eq_true, everywhereAttrs_iff, decide_eq_true_iff]
  rfl

end Ty

/-- A value conforms to a type when each node is null, unknown, or of the
variant the type names. `slot` is what is demanded of a dynamic slot. -/
inductive ConformsWith (slot : Value → Prop) : Ty → Value → Prop
  | null (ty : Ty) : ConformsWith slot ty .null
  | unknown (ty : Ty) : ConformsWith slot ty .unknown
  | bool (b : Bool) : ConformsWith slot .bool (.bool b)
  | number (n : Number) : n.isFinite = true → ConformsWith slot .number (.number n)
  | string (s : String) : ConformsWith slot .string (.string s)
  | list (elem : Ty) (items : List Value) :
      (∀ v ∈ items, ConformsWith slot elem v) → ConformsWith slot (.list elem) (.list items)
  | set (elem : Ty) (items : List Value) :
      (∀ v ∈ items, ConformsWith slot elem v) → ConformsWith slot (.set elem) (.set items)
  | tuple (elems : List Ty) (items : List Value) : items.length = elems.length →
      (∀ p ∈ items.zip elems, ConformsWith slot p.2 p.1) →
      ConformsWith slot (.tuple elems) (.tuple items)
  | map (elem : Ty) (entries : Fields) :
      (∀ k v, entries.get? k = some v → ConformsWith slot elem v) →
      ConformsWith slot (.map elem) (.map entries)
  | object (attrs : List ObjectAttr) (fields : Fields) :
      (∀ k ∈ fields.keys, k ∈ attrs.map (·.name)) →
      (∀ attr ∈ attrs, ConformsWith slot attr.ty ((fields.get? attr.name).getD .null)) →
      ConformsWith slot (.object attrs) (.object fields)
  | dynamic (v : Value) : slot v → ConformsWith slot .dynamic v

/-- A dynamic slot holds a value of some concrete type. -/
def Conforms : Ty → Value → Prop :=
  ConformsWith fun v => ∃ ty, ty.isStatic = true ∧ ty.distinctNames = true ∧ ConformsWith (fun _ => False) ty v

section

variable {slot : Value → Prop}

theorem conformsWith_list {elem : Ty} {items : List Value} :
    ConformsWith slot (.list elem) (.list items) ↔ ∀ v ∈ items, ConformsWith slot elem v := by
  constructor
  · rintro ⟨⟩
    assumption
  · exact .list elem items

theorem conformsWith_set {elem : Ty} {items : List Value} :
    ConformsWith slot (.set elem) (.set items) ↔ ∀ v ∈ items, ConformsWith slot elem v := by
  constructor
  · rintro ⟨⟩
    assumption
  · exact .set elem items

theorem conformsWith_tuple {elems : List Ty} {items : List Value} (hlen : items.length = elems.length) :
    ConformsWith slot (.tuple elems) (.tuple items) ↔ ∀ p ∈ items.zip elems, ConformsWith slot p.2 p.1 := by
  constructor
  · rintro ⟨⟩
    assumption
  · exact .tuple elems items hlen

theorem conformsWith_map {elem : Ty} {entries : Fields} :
    ConformsWith slot (.map elem) (.map entries) ↔ ∀ k v, entries.get? k = some v → ConformsWith slot elem v := by
  constructor
  · rintro ⟨⟩
    assumption
  · exact .map elem entries

theorem conformsWith_object {attrs : List ObjectAttr} {fields : Fields}
    (hkeys : ∀ k ∈ fields.keys, k ∈ attrs.map (·.name)) :
    ConformsWith slot (.object attrs) (.object fields) ↔
      ∀ attr ∈ attrs, ConformsWith slot attr.ty ((fields.get? attr.name).getD .null) := by
  constructor
  · rintro ⟨⟩
    assumption
  · exact .object attrs fields hkeys

/-- A dynamic slot that may hold nothing is only ever null or unknown, so a
static type and a type whose slots are empty are encoded alike. -/
theorem ConformsWith.of_isStatic {ty : Ty} {v : Value} (hs : ty.isStatic = true)
    (hv : ConformsWith slot ty v) : ConformsWith (fun _ => False) ty v := by
  rw [Ty.isStatic] at hs
  induction hv with
  | null ty => exact .null ty
  | unknown ty => exact .unknown ty
  | bool b => exact .bool b
  | number n hn => exact .number n hn
  | string s => exact .string s
  | list elem items _ ih => exact .list elem items fun v hv => ih v hv (by simpa [Ty.everywhere] using hs)
  | set elem items _ ih => exact .set elem items fun v hv => ih v hv (by simpa [Ty.everywhere] using hs)
  | tuple elems items hlen _ ih =>
      rw [Ty.everywhere, Bool.and_eq_true, Ty.everywhereIn_iff] at hs
      exact .tuple elems items hlen fun p hp => ih p hp (hs.2 p.2 (List.of_mem_zip hp).2)
  | map elem entries _ ih =>
      exact .map elem entries fun k v hv => ih k v hv (by simpa [Ty.everywhere] using hs)
  | object attrs fields hk _ ih =>
      rw [Ty.everywhere, Bool.and_eq_true, Ty.everywhereAttrs_iff] at hs
      exact .object attrs fields hk fun attr ha => ih attr ha (hs.2 attr ha)
  | dynamic v _ => simp [Ty.everywhere] at hs

theorem ConformsWith.everyNumber {p : Number → Bool} (hp : ∀ n : Number, n.isFinite = true → p n = true)
    (hslot : ∀ v, slot v → ValueOf.everyNumber p v = true) {ty : Ty} {v : Value}
    (hv : ConformsWith slot ty v) : ValueOf.everyNumber p v = true := by
  unfold ValueOf.everyNumber at hslot ⊢
  induction hv with
  | null ty => rfl
  | unknown ty => rfl
  | bool b => rfl
  | number n hn => simpa using hp n hn
  | string s => rfl
  | list elem items _ ih => simpa using ih
  | set elem items _ ih => simpa using ih
  | tuple elems items hlen _ ih =>
      simp only [everywhere_tuple, true_and]
      intro v hv
      rw [← List.map_fst_zip hlen.le, List.mem_map] at hv
      obtain ⟨q, hq, rfl⟩ := hv
      exact ih q hq
  | map elem entries _ ih => simpa using ih
  | object attrs fields hk _ ih =>
      simp only [everywhere_object, true_and]
      intro k v hv
      obtain ⟨attr, ha, rfl⟩ := List.mem_map.mp (hk k (OrdMap.get?_isSome.mp (by rw [hv]; rfl)))
      have hattr := ih attr ha
      rwa [hv] at hattr
  | dynamic v hv => exact hslot v hv

theorem Conforms.isNaNFree {ty : Ty} {v : Value} (hv : Conforms ty v) : v.isNaNFree = true := by
  have hfinite : ∀ n : Number, n.isFinite = true → (!n.isNaN) = true := by
    intro n hn
    cases n with
    | f64 f =>
        have hf : f.isFinite = true := hn
        simp [Number.isNaN, BinaryFloat.isNaN, hf]
    | _ => rfl
  refine ConformsWith.everyNumber (p := fun n => !n.isNaN) hfinite ?_ hv
  rintro w ⟨ty, -, -, hw⟩
  exact hw.everyNumber hfinite fun _ h => h.elim

end

end TofuSdk
