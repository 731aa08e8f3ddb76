import TofuSdk.Typed

namespace TofuSdk

open ValueOf

/-- A map from values to their canonical representatives. -/
inductive Canonicalizer
  | throughShape {α : Type} (shape : Shape α)
  | stringQuotient {α : Type} (parse : String → Option α) (render : α → Option String)
  /-- Any other function that an author registers. -/
  | custom (f : Value → Value)

namespace Canonicalizer

def stringQuotientApply {α : Type} (parse : String → Option α) (render : α → Option String) : Value → Value
  | .string s => ((parse s).bind render).elim (.string s) .string
  | other => other

def apply : Canonicalizer → Value → Value
  | throughShape shape, value => canonicalizeThroughShape shape value
  | stringQuotient parse render, value => stringQuotientApply parse render value
  | custom f, value => f value

end Canonicalizer

structure Canon where
  fields : OrdMap String Canonicalizer
  blocks : OrdMap String Canon

namespace Canon

@[elab_as_elim] theorem induct {P : Canon → Prop}
    (mk : ∀ fields blocks, (∀ name nested, OrdMap.get? blocks name = some nested → P nested) →
      P ⟨fields, blocks⟩) (canon : Canon) : P canon :=
  Canon.rec (motive_1 := P) (motive_2 := fun m => ∀ name nested, OrdMap.get? m name = some nested → P nested)
    mk (fun _ _ _ h => OrdMap.forall_val.mp h) canon

def new : Canon := ⟨OrdMap.empty, OrdMap.empty⟩

def withField (canon : Canon) (name : String) (canonicalizer : Canonicalizer) : Canon :=
  ⟨canon.fields.insert name canonicalizer, canon.blocks⟩

def isEmpty (canon : Canon) : Bool := canon.fields.keys.isEmpty && canon.blocks.keys.isEmpty

end Canon

namespace Shape

def hasAnyProxy {α : Type} : Shape α → Bool
  | .proxy _ _ _ | .formatProxy _ => true
  | _ => false

def quotientInner {α : Type} (shape : Shape α) : Bool :=
  shape.hasAnyProxy || match shape with
    | .option t => quotientInner t
    | _ => false
termination_by structural shape

mutual

def harvestShape {α : Type} (shape : Shape α) : Canon :=
  match shape with
  | .struct fields => harvestFields fields Canon.new
  | .formatProxy shape => harvestShape shape
  | _ => Canon.new
termination_by structural shape

def harvestFields {φ : Type} (fields : StructFields φ) (canon : Canon) : Canon :=
  match fields with
  | .nil => canon
  | .cons field shape rest =>
      harvestFields rest <|
        if shape.quotientInner then canon.withField field.key (.throughShape shape)
        else match harvestSingleStruct shape with
          | some nested => if nested.isEmpty then canon else ⟨canon.fields, canon.blocks.insert field.key nested⟩
          | none => canon
termination_by structural fields

def harvestSingleStruct {α : Type} (shape : Shape α) : Option Canon :=
  match shape with
  | .option t => harvestSingleStruct t
  | .struct fields => some (harvestFields fields Canon.new)
  | .formatProxy shape => harvestSingleStruct shape
  | _ => none
termination_by structural shape

end

end Shape

/-- Put the prior value back into a field that is present on both sides, when
the two are equal after canonicalization. -/
def keepField (priorFields fields : Fields) (name : String) (canonicalize : Canonicalizer) : Fields :=
  match priorFields.get? name, fields.get? name with
  | some priorValue, some proposedValue =>
      if (canonicalize.apply priorValue).eq (canonicalize.apply proposedValue) then fields.insert name priorValue
      else fields
  | _, _ => fields

mutual

def keepPrior (prior proposed : Value) (canon : Canon) : Value :=
  match canon with
  | ⟨fields, blocks⟩ =>
      if fields.keys.isEmpty && blocks.keys.isEmpty then proposed
      else match prior, proposed with
        | .object priorFields, .object proposedFields =>
            .object (keepBlocks priorFields (fields.toList.foldl
              (fun kept entry => keepField priorFields kept entry.1 entry.2) proposedFields) blocks)
        | _, proposed => proposed
termination_by structural canon

def keepBlocks (priorFields proposedFields : Fields) (blocks : OrdMap String Canon) : Fields :=
  match blocks with
  | ⟨keys, _, val⟩ =>
      (List.finRange keys.length).foldl (fun kept i =>
        match priorFields.get? (keys.get i) with
        | some priorBlock => kept.modify (keys.get i) fun proposedBlock => keepPrior priorBlock proposedBlock (val i)
        | none => kept) proposedFields
termination_by structural blocks

end

def keptField (prior : Option Value) (canonicalize : Canonicalizer) (proposed : Option Value) : Option Value :=
  match prior, proposed with
  | some p, some q => some (if (canonicalize.apply p).eq (canonicalize.apply q) then p else q)
  | _, proposed => proposed

def keptBlock (prior : Option Value) (nested : Canon) (proposed : Option Value) : Option Value :=
  match prior with
  | some p => proposed.map fun q => keepPrior p q nested
  | none => proposed

def keptSlot (canon : Canon) (name : String) (prior proposed : Option Value) : Option Value :=
  let kept := (canon.fields.get? name).elim proposed fun canonicalize => keptField prior canonicalize proposed
  (canon.blocks.get? name).elim kept fun nested => keptBlock prior nested kept

theorem keepField_eq_alter (priorFields fields : Fields) (name : String) (canonicalize : Canonicalizer) :
    keepField priorFields fields name canonicalize =
      fields.alter name (keptField (priorFields.get? name) canonicalize) := by
  rw [keepField]
  cases hp : priorFields.get? name with
  | none => exact (OrdMap.alter_eq_self rfl).symm
  | some p =>
      cases hq : fields.get? name with
      | none => exact (OrdMap.alter_eq_self (by rw [hq]; rfl)).symm
      | some q =>
          by_cases h : (canonicalize.apply p).eq (canonicalize.apply q) = true
          · simp [OrdMap.alter, hq, keptField, h]
          · have hself : keptField (some p) canonicalize (fields.get? name) = fields.get? name := by
              simp [hq, keptField, h]
            simp [OrdMap.alter_eq_self hself, h]

theorem get?_keepBlocks (priorFields proposedFields : Fields) (blocks : OrdMap String Canon) (name : String) :
    (keepBlocks priorFields proposedFields blocks).get? name =
      (blocks.get? name).elim (proposedFields.get? name) fun nested =>
        keptBlock (priorFields.get? name) nested (proposedFields.get? name) := by
  have hstep : (fun (kept : Fields) (entry : String × Canon) =>
      match priorFields.get? entry.1 with
      | some priorBlock => kept.modify entry.1 fun proposedBlock => keepPrior priorBlock proposedBlock entry.2
      | none => kept) =
      fun kept entry => kept.alter entry.1 (keptBlock (priorFields.get? entry.1) entry.2) := by
    funext kept entry
    cases priorFields.get? entry.1 with
    | none => exact (OrdMap.alter_eq_self rfl).symm
    | some p => exact (OrdMap.alter_map_eq_modify _ _ _).symm
  have hfold := OrdMap.get?_foldl_toList blocks
    (fun name nested => keptBlock (priorFields.get? name) nested) proposedFields name
  rw [← hfold, ← hstep]
  obtain ⟨keys, sorted, val⟩ := blocks
  rw [keepBlocks, OrdMap.toList, List.ofFn_eq_map, List.foldl_map]

theorem keepPrior_object (canon : Canon) (priorFields proposedFields : Fields) :
    ∃ kept : Fields, keepPrior (.object priorFields) (.object proposedFields) canon = .object kept ∧
      ∀ name, kept.get? name = keptSlot canon name (priorFields.get? name) (proposedFields.get? name) := by
  obtain ⟨fields, blocks⟩ := canon
  by_cases hempty : (fields.keys.isEmpty && blocks.keys.isEmpty) = true
  · have hnone : ∀ name, fields.get? name = none ∧ blocks.get? name = none := by
      simp only [Bool.and_eq_true, List.isEmpty_iff] at hempty
      intro name
      simp [OrdMap.get?, hempty]
    refine ⟨proposedFields, by rw [keepPrior, if_pos hempty], fun name => ?_⟩
    simp [keptSlot, hnone name]
  · refine ⟨_, by rw [keepPrior, if_neg hempty], fun name => ?_⟩
    rw [get?_keepBlocks]
    simp only [keepField_eq_alter]
    rw [OrdMap.get?_foldl_toList fields fun name canonicalize => keptField (priorFields.get? name) canonicalize]
    rfl

theorem keepPrior_of_not_object (canon : Canon) {prior proposed : Value}
    (h : ∀ priorFields proposedFields, prior = .object priorFields → proposed = .object proposedFields → False) :
    keepPrior prior proposed canon = proposed := by
  obtain ⟨fields, blocks⟩ := canon
  rw [keepPrior]
  · exact ite_self proposed
  · exact h

theorem keepPrior_of_isUnknown (canon : Canon) {prior proposed : Value}
    (h : prior.isUnknown = true ∨ proposed.isUnknown = true) : keepPrior prior proposed canon = proposed := by
  apply keepPrior_of_not_object
  rintro priorFields proposedFields rfl rfl
  simp [isUnknown] at h

theorem keepPrior_self (canon : Canon) (prior : Value) : keepPrior prior prior canon = prior := by
  induction canon using Canon.induct generalizing prior with
  | mk fields blocks ih =>
      cases prior with
      | object priorFields =>
          obtain ⟨kept, hkept, hget⟩ := keepPrior_object ⟨fields, blocks⟩ priorFields priorFields
          rw [hkept]
          congr 1
          apply OrdMap.ext_get?
          intro name
          have hfield : ∀ canonicalize, keptField (priorFields.get? name) canonicalize (priorFields.get? name) =
              priorFields.get? name := by
            intro canonicalize
            cases priorFields.get? name <;> simp [keptField]
          have hslot : (fields.get? name).elim (priorFields.get? name)
              (fun canonicalize => keptField (priorFields.get? name) canonicalize (priorFields.get? name)) =
              priorFields.get? name := by
            cases fields.get? name with
            | none => rfl
            | some canonicalize => exact hfield canonicalize
          rw [hget, keptSlot, hslot]
          cases hblock : blocks.get? name with
          | none => rfl
          | some nested => cases priorFields.get? name <;> simp [keptBlock, ih name nested hblock]
      | _ => exact keepPrior_of_not_object _ fun _ _ h => by cases h

def valueAt (value : Value) : List String → Option Value
  | [] => some value
  | name :: path => match value with
    | .object fields => (fields.get? name).bind (valueAt · path)
    | _ => none

/-- The canonicalizer registered for a field, at the top or inside single
nested blocks. -/
inductive QuotientAt : Canon → List String → Canonicalizer → Prop
  | field (canon : Canon) (name : String) (canonicalize : Canonicalizer)
      (h : canon.fields.get? name = some canonicalize) : QuotientAt canon [name] canonicalize
  | block (canon : Canon) (name : String) (nested : Canon) (path : List String) (canonicalize : Canonicalizer)
      (h : canon.blocks.get? name = some nested) (hnested : QuotientAt nested path canonicalize) :
      QuotientAt canon (name :: path) canonicalize

/-- The two values of a quotient position are equal after canonicalization. -/
def EquatedAt (canon : Canon) (prior proposed : Value) (path : List String) : Prop :=
  ∃ canonicalize p q, QuotientAt canon path canonicalize ∧ valueAt prior path = some p ∧
    valueAt proposed path = some q ∧ (canonicalize.apply p).eq (canonicalize.apply q) = true

theorem valueAt_cons {value v : Value} {name : String} {path : List String}
    (h : valueAt value (name :: path) = some v) :
    ∃ fields child, value = .object fields ∧ fields.get? name = some child ∧ valueAt child path = some v := by
  cases value with
  | object fields =>
      obtain ⟨child, hchild, hv⟩ := Option.bind_eq_some_iff.mp h
      exact ⟨fields, child, rfl, hchild, hv⟩
  | _ => cases h

theorem valueAt_object {fields : Fields} {name : String} {child : Value} (path : List String)
    (h : fields.get? name = some child) : valueAt (.object fields) (name :: path) = valueAt child path := by
  rw [valueAt, h]
  rfl

theorem QuotientAt.ne_nil {canon : Canon} {path : List String} {canonicalize : Canonicalizer}
    (h : QuotientAt canon path canonicalize) : path ≠ [] := by
  cases h <;> exact List.cons_ne_nil _ _

section

variable {canon nested : Canon} {priorFields proposedFields : Fields} {name : String} {p q a b : Value}

theorem equatedAt_field : EquatedAt canon (.object priorFields) (.object proposedFields) [name] ↔
    ∃ canonicalize p q, canon.fields.get? name = some canonicalize ∧ priorFields.get? name = some p ∧
      proposedFields.get? name = some q ∧ (canonicalize.apply p).eq (canonicalize.apply q) = true := by
  constructor
  · rintro ⟨canonicalize, p, q, hat, hp, hq, heq⟩
    cases hat with
    | field _ _ _ h => exact ⟨canonicalize, p, q, h, by simpa [valueAt] using hp, by simpa [valueAt] using hq, heq⟩
    | block _ _ nested _ _ _ hnested => exact absurd rfl hnested.ne_nil
  · rintro ⟨canonicalize, p, q, h, hp, hq, heq⟩
    exact ⟨canonicalize, p, q, .field canon name canonicalize h, by simp [valueAt, hp], by simp [valueAt, hq], heq⟩

theorem equatedAt_block {path : List String} (hpath : path ≠ []) (h : canon.blocks.get? name = some nested)
    (ha : priorFields.get? name = some a) (hb : proposedFields.get? name = some b) :
    EquatedAt canon (.object priorFields) (.object proposedFields) (name :: path) ↔ EquatedAt nested a b path := by
  rw [EquatedAt]
  simp only [valueAt_object path ha, valueAt_object path hb]
  constructor
  · rintro ⟨canonicalize, p, q, hat, hrest⟩
    cases hat with
    | field => exact absurd rfl hpath
    | block _ _ nested' _ _ h' hnested =>
        obtain rfl : nested = nested' := Option.some.inj (h.symm.trans h')
        exact ⟨canonicalize, p, q, hnested, hrest⟩
  · rintro ⟨canonicalize, p, q, hat, hrest⟩
    exact ⟨canonicalize, p, q, .block canon name nested path canonicalize h hat, hrest⟩

theorem not_equatedAt_nil {prior proposed : Value} : ¬EquatedAt canon prior proposed [] := by
  rintro ⟨canonicalize, p, q, hat, -⟩
  exact hat.ne_nil rfl

theorem keptSlot_of_equated (h : EquatedAt canon (.object priorFields) (.object proposedFields) [name]) :
    keptSlot canon name (priorFields.get? name) (proposedFields.get? name) = priorFields.get? name := by
  obtain ⟨canonicalize, p, q, hfield, hp, hq, heq⟩ := equatedAt_field.mp h
  rw [keptSlot, hfield, hp, hq]
  cases canon.blocks.get? name <;> simp [keptField, keptBlock, heq, keepPrior_self]

theorem keptSlot_of_not_equated (h : ¬EquatedAt canon (.object priorFields) (.object proposedFields) [name])
    (hp : priorFields.get? name = some p) (hq : proposedFields.get? name = some q) :
    keptSlot canon name (some p) (some q) =
      some ((canon.blocks.get? name).elim q fun nested => keepPrior p q nested) := by
  have hfield : ∀ canonicalize, canon.fields.get? name = some canonicalize →
      (canonicalize.apply p).eq (canonicalize.apply q) = false := by
    intro canonicalize hc
    rw [← Bool.not_eq_true]
    exact fun heq => h (equatedAt_field.mpr ⟨canonicalize, p, q, hc, hp, hq, heq⟩)
  rw [keptSlot]
  cases hc : canon.fields.get? name with
  | none => cases canon.blocks.get? name <;> rfl
  | some canonicalize =>
      cases canon.blocks.get? name <;> simp [keptField, keptBlock, hfield canonicalize hc]

end

/-- Where exactly one side is unknown, the proposed value stays exactly when
neither the position nor anything above it is equated. -/
theorem valueAt_keepPrior {canon : Canon} {path : List String} {canonicalize : Canonicalizer}
    (h : QuotientAt canon path canonicalize) {prior proposed p q : Value} (hp : valueAt prior path = some p)
    (hq : valueAt proposed path = some q) (hone : p.isUnknown ≠ q.isUnknown) :
    valueAt (keepPrior prior proposed canon) path = some q ↔
      ∀ upper, upper <+: path → ¬EquatedAt canon prior proposed upper := by
  have hne : p ≠ q := fun h => hone (congrArg isUnknown h)
  induction h generalizing prior proposed with
  | field canon name canonicalize h =>
      obtain ⟨priorFields, a, rfl, ha, hp⟩ := valueAt_cons hp
      obtain ⟨proposedFields, b, rfl, hb, hq⟩ := valueAt_cons hq
      obtain rfl := Option.some.inj hp
      obtain rfl := Option.some.inj hq
      obtain ⟨kept, hkept, hget⟩ := keepPrior_object canon priorFields proposedFields
      rw [hkept]
      by_cases heq : EquatedAt canon (.object priorFields) (.object proposedFields) [name]
      · have hval : kept.get? name = some a := by rw [hget, keptSlot_of_equated heq, ha]
        rw [valueAt_object [] hval]
        exact iff_of_false (fun h => hne (Option.some.inj h)) fun h => h [name] (List.prefix_refl _) heq
      · have hval : kept.get? name = some b := by
          rw [hget, ha, hb, keptSlot_of_not_equated heq ha hb]
          have hunknown : a.isUnknown = true ∨ b.isUnknown = true := by
            cases hau : a.isUnknown <;> cases hbu : b.isUnknown <;> simp_all
          cases canon.blocks.get? name <;> simp [keepPrior_of_isUnknown _ hunknown]
        rw [valueAt_object [] hval]
        refine iff_of_true rfl fun upper hupper => ?_
        obtain rfl | ⟨rest, rfl, hrest⟩ := List.prefix_cons_iff.mp hupper
        · exact not_equatedAt_nil
        · rwa [List.prefix_nil.mp hrest]
  | block canon name nested path canonicalize h hnested ih =>
      obtain ⟨priorFields, a, rfl, ha, hp⟩ := valueAt_cons hp
      obtain ⟨proposedFields, b, rfl, hb, hq⟩ := valueAt_cons hq
      obtain ⟨kept, hkept, hget⟩ := keepPrior_object canon priorFields proposedFields
      rw [hkept]
      by_cases heq : EquatedAt canon (.object priorFields) (.object proposedFields) [name]
      · have hval : kept.get? name = some a := by rw [hget, keptSlot_of_equated heq, ha]
        rw [valueAt_object path hval, hp]
        refine iff_of_false (fun h => hne (Option.some.inj h)) fun h => ?_
        exact h [name] (List.prefix_cons_iff.mpr (.inr ⟨[], rfl, List.nil_prefix⟩)) heq
      · have hval : kept.get? name = some (keepPrior a b nested) := by
          rw [hget, ha, hb, keptSlot_of_not_equated heq ha hb, h]
          rfl
        rw [valueAt_object path hval]
        refine (ih hp hq).trans ?_
        constructor
        · intro hall upper hupper
          obtain rfl | ⟨rest, rfl, hrest⟩ := List.prefix_cons_iff.mp hupper
          · exact not_equatedAt_nil
          · by_cases hnil : rest = []
            · rwa [hnil]
            · rw [equatedAt_block hnil h ha hb]
              exact hall rest hrest
        · intro hall upper hupper heq'
          by_cases hnil : upper = []
          · exact not_equatedAt_nil (hnil ▸ heq')
          · exact hall (name :: upper) (List.prefix_cons_inj name |>.mpr hupper)
              ((equatedAt_block hnil h ha hb).mpr heq')

end TofuSdk
