import TofuSdk.Normalize
import TofuSdk.Replace

namespace TofuSdk

open ValueOf

/-- The prior values are put back before planning. -/
def suppressBefore (canon : Canon) (block : Block) (prior proposed : Value) : Plan :=
  plan prior (keepPrior prior proposed canon) block

def PlanModifications.keeping (names : List String) : PlanModifications := ⟨[], [], names.map Path.ofName⟩

def suppressAfter (names : List String) (block : Block) (prior proposed : Value) : Plan :=
  applyModifications (plan prior proposed block) (.keeping names) prior

/-- The names are those of the top-level attributes whose values are equal
after canonicalization. -/
structure EquatesAttributes (canon : Canon) (block : Block) (prior proposed : Value) (names : List String) :
    Prop where
  flat : canon.blocks = OrdMap.empty
  mem_iff : ∀ name, name ∈ names ↔ EquatedAt canon prior proposed [name]
  isAttribute : ∀ name ∈ names, name ∈ block.attributes.map (·.name)
  notNested : ∀ name ∈ names, name ∉ block.nestedBlocks.map (·.name)

/-- The same planned state, and the same set of replacement paths. -/
structure Plan.Agree (p q : Plan) : Prop where
  planned : p.planned = q.planned
  requiresReplace : ∀ path, path ∈ p.requiresReplace ↔ path ∈ q.requiresReplace

def Block.named (block : Block) (name : String) : List AttributeSchema :=
  block.attributes.filter fun attr => attr.name = name

def plannedField (replacing : Bool) (attrs : List AttributeSchema) (x : Option Value) : Option Value :=
  attrs.foldl (fun x attr => stripSlot attr x) (attrs.foldl (fun x attr => markSlot replacing attr x) x)

def plannedFields (block : Block) (replacing : Bool) (fields : Fields) : Fields :=
  updateFields WriteOnly.walkBlock stripSlot block (updateFields walkNesting (markSlot replacing) block fields)

section

variable {block : Block} {fields fields' : Fields} {k : String}

theorem get?_updateFields_congr {walk : Walk} {f : Update} (h : fields.get? k = fields'.get? k) :
    (updateFields walk f block fields).get? k = (updateFields walk f block fields').get? k := by
  rw [updateFields, updateFields, updateNested_eq, updateNested_eq]
  iterate 4 rw [OrdMap.get?_foldl_alter_filter]
  rw [h]

theorem get?_updateFields_named {walk : Walk} {f : Update} (hk : k ∉ block.nestedBlocks.map (·.name)) :
    (updateFields walk f block fields).get? k =
      (block.named k).foldl (fun x attr => f attr x) (fields.get? k) := by
  rw [updateFields, updateNested_eq, OrdMap.get?_foldl_alter_of_notMem _ _ hk, OrdMap.get?_foldl_alter_filter]
  rfl

theorem get?_plannedFields_congr {replacing : Bool} (h : fields.get? k = fields'.get? k) :
    (plannedFields block replacing fields).get? k = (plannedFields block replacing fields').get? k :=
  get?_updateFields_congr (get?_updateFields_congr h)

theorem get?_plannedFields {replacing : Bool} (hk : k ∉ block.nestedBlocks.map (·.name)) :
    (plannedFields block replacing fields).get? k = plannedField replacing (block.named k) (fields.get? k) := by
  rw [plannedFields, get?_updateFields_named hk, get?_updateFields_named hk, plannedField]

theorem planned_object (prior : Value) :
    (plan prior (.object fields) block).planned =
      .object (plannedFields block (!(plan prior (.object fields) block).requiresReplace.isEmpty) fields) := by
  simp only [plan, isNull, Bool.false_eq_true, if_false, strip_eq, markComputedUnknown_eq, updateAttrs_object]
  rfl

end

/-- A null of the attribute stays null. -/
def AttributeSchema.LeavesNull (attr : AttributeSchema) : Prop :=
  attr.required = true ∨ match attr.default with
    | some default => default.isNull = true
    | none => attr.computed = false

/-- The attributes of one name let a value through the planner. -/
def Keepable (replacing : Prop) (attrs : List AttributeSchema) (v : Value) : Prop :=
  if v.isNull then (∃ attr ∈ attrs, attr.writeOnly = true) ∨ ∀ attr ∈ attrs, attr.LeavesNull
  else ∀ attr ∈ attrs, attr.writeOnly = false ∧
    (replacing → attr.computed = true → attr.required = true ∨ v.isUnknown = true)

section

variable {replacing : Bool} {attr : AttributeSchema} {attrs : List AttributeSchema} {v : Value}

theorem markSlot_null : markSlot replacing attr (some .null) = some .null ↔ attr.LeavesNull := by
  rw [markSlot, AttributeSchema.LeavesNull]
  cases attr.required with
  | true => simp
  | false =>
      cases attr.default with
      | none => cases attr.computed <;> simp [isNullSlot]
      | some default => cases default <;> simp [isNullSlot, isNull]

theorem markSlot_of_not_null (hv : v.isNull = false) : markSlot replacing attr (some v) =
    if replacing = true ∧ attr.computed = true ∧ attr.required = false then some .unknown else some v := by
  have hslot : isNullSlot (some v) = false := by
    cases v <;> first | rfl | cases hv
  rw [markSlot, hslot]
  cases attr.required <;> cases attr.computed <;> cases replacing <;> simp

theorem isSome_markSlot (v : Value) : ∃ w, markSlot replacing attr (some v) = some w := by
  cases v with
  | null =>
      rw [markSlot]
      cases attr.required <;> cases attr.default <;> cases attr.computed <;> simp [isNullSlot]
  | _ =>
      rw [markSlot_of_not_null rfl]
      split_ifs <;> exact ⟨_, rfl⟩

theorem isSome_foldl_markSlot (v : Value) :
    ∃ w, attrs.foldl (fun x attr => markSlot replacing attr x) (some v) = some w := by
  induction attrs generalizing v with
  | nil => exact ⟨v, rfl⟩
  | cons attr attrs ih =>
      obtain ⟨w, hw⟩ := @isSome_markSlot replacing attr v
      rw [List.foldl_cons, hw]
      exact ih w

theorem foldl_markSlot_of_not_null (hv : v.isNull = false) :
    ∃ w, attrs.foldl (fun x attr => markSlot replacing attr x) (some v) = some w ∧ w.isNull = false := by
  induction attrs generalizing v with
  | nil => exact ⟨v, rfl, hv⟩
  | cons attr attrs ih =>
      rw [List.foldl_cons, markSlot_of_not_null hv]
      split_ifs
      · exact ih rfl
      · exact ih hv

theorem foldl_markSlot_null : attrs.foldl (fun x attr => markSlot replacing attr x) (some .null) = some .null ↔
    ∀ attr ∈ attrs, attr.LeavesNull := by
  induction attrs with
  | nil => simp
  | cons attr attrs ih =>
      rw [List.foldl_cons, List.forall_mem_cons]
      by_cases h : attr.LeavesNull
      · rw [markSlot_null.mpr h, ih]
        exact (and_iff_right h).symm
      · refine iff_of_false (fun hfold => h ?_) fun hall => h hall.1
        obtain ⟨w, hw⟩ := @isSome_markSlot replacing attr .null
        rw [hw] at hfold
        cases hnull : w.isNull with
        | false =>
            obtain ⟨w', hw', hnull'⟩ := @foldl_markSlot_of_not_null replacing attrs w hnull
            rw [hw'] at hfold
            rw [Option.some.inj hfold] at hnull'
            cases hnull'
        | true =>
            cases w with
            | null => exact markSlot_null.mp hw
            | _ => cases hnull

theorem foldl_markSlot_unknown :
    attrs.foldl (fun x attr => markSlot replacing attr x) (some .unknown) = some .unknown := by
  induction attrs with
  | nil => rfl
  | cons attr attrs ih => rw [List.foldl_cons, markSlot_of_not_null rfl, ite_self, ih]

theorem foldl_markSlot_known (hv : v.isNull = false) :
    attrs.foldl (fun x attr => markSlot replacing attr x) (some v) = some v ↔
      ∀ attr ∈ attrs, replacing = true → attr.computed = true → attr.required = true ∨ v.isUnknown = true := by
  induction attrs with
  | nil => simp
  | cons attr attrs ih =>
      rw [List.foldl_cons, List.forall_mem_cons, markSlot_of_not_null hv]
      split_ifs with hmark
      · rw [foldl_markSlot_unknown]
        cases v with
        | unknown => simp [isUnknown]
        | _ => simp [isUnknown, hmark]
      · rw [ih, iff_and_self]
        intro _ hreplacing hcomputed
        left
        by_contra hrequired
        exact hmark ⟨hreplacing, hcomputed, by simpa using hrequired⟩

theorem foldl_stripSlot (x : Option Value) : attrs.foldl (fun x attr => stripSlot attr x) x =
    if ∃ attr ∈ attrs, attr.writeOnly = true then x.map fun _ => .null else x := by
  induction attrs generalizing x with
  | nil => simp
  | cons attr attrs ih =>
      rw [List.foldl_cons, ih, stripSlot]
      cases hw : attr.writeOnly with
      | false => simp [hw]
      | true => cases x <;> simp [hw]

theorem isSome_plannedField (v : Value) : ∃ w, plannedField replacing attrs (some v) = some w := by
  obtain ⟨w, hmark⟩ := @isSome_foldl_markSlot replacing attrs v
  rw [plannedField, hmark, foldl_stripSlot]
  split_ifs
  · exact ⟨_, rfl⟩
  · exact ⟨w, rfl⟩

/-- The planner leaves a value alone exactly when every attribute of its name
lets it through. -/
theorem plannedField_eq_self : plannedField replacing attrs (some v) = some v ↔
    Keepable (replacing = true) attrs v := by
  rw [plannedField, foldl_stripSlot, Keepable]
  by_cases hw : ∃ attr ∈ attrs, attr.writeOnly = true
  · obtain ⟨w, hmark⟩ := @isSome_foldl_markSlot replacing attrs v
    rw [if_pos hw, hmark, Option.map_some]
    cases v with
    | null => exact iff_of_true rfl (.inl hw)
    | _ =>
        refine iff_of_false (fun h => by cases h) fun h => ?_
        obtain ⟨attr, ha, hattr⟩ := hw
        rw [(h attr ha).1] at hattr
        cases hattr
  · rw [if_neg hw]
    cases hnull : v.isNull with
    | true =>
        cases v with
        | null => simp [hw, foldl_markSlot_null]
        | _ => cases hnull
    | false =>
        rw [foldl_markSlot_known hnull]
        refine forall₂_congr fun attr ha => (and_iff_right ?_).symm
        rw [← Bool.not_eq_true]
        exact fun hattr => hw ⟨attr, ha, hattr⟩

end

theorem valueAt_singleton (fields : Fields) (name : String) : valueAt (.object fields) [name] = fields.get? name := by
  cases h : fields.get? name <;> simp [valueAt, h]

theorem keepPriorAt_ofName (priorFields fields : Fields) (name : String) :
    keepPriorAt (.object priorFields) (.object fields) (Path.ofName name) =
      .object (fields.alter name (Option.map fun v => (priorFields.get? name).getD v)) := by
  rw [keepPriorAt, Path.ofName]
  cases h : priorFields.get? name with
  | none => simp [getAtPath, h, OrdMap.alter_eq_self]
  | some p => simp [getAtPath, setAtPath, h, OrdMap.alter_map_eq_modify]

theorem foldl_keepPriorAt (priorFields fields : Fields) (names : List String) : ∃ kept : Fields,
    (names.map Path.ofName).foldl (keepPriorAt (.object priorFields)) (.object fields) = .object kept ∧
      ∀ name, kept.get? name = if name ∈ names then
        (fields.get? name).map fun v => (priorFields.get? name).getD v else fields.get? name := by
  induction names generalizing fields with
  | nil => exact ⟨fields, rfl, fun _ => rfl⟩
  | cons first names ih =>
      rw [List.map_cons, List.foldl_cons, keepPriorAt_ofName]
      obtain ⟨kept, hkept, hget⟩ := ih (fields.alter first (Option.map fun v => (priorFields.get? first).getD v))
      refine ⟨kept, hkept, fun name => ?_⟩
      rw [hget, OrdMap.get?_alter]
      by_cases hfirst : name = first
      · subst hfirst
        rw [if_pos rfl, if_pos List.mem_cons_self]
        cases fields.get? name <;> cases priorFields.get? name <;> simp
      · simp [hfirst]

theorem planned_keeping {p : Plan} {fields : Fields} (hp : p.planned = .object fields) (priorFields : Fields)
    (names : List String) : ∃ kept : Fields,
      (applyModifications p (.keeping names) (.object priorFields)).planned = .object kept ∧
      ∀ name, kept.get? name = if name ∈ names then
        (fields.get? name).map fun v => (priorFields.get? name).getD v else fields.get? name := by
  rw [applyModifications, hp]
  exact foldl_keepPriorAt priorFields fields names

/-- Before the plan, the prior values of the equated attributes replace the
proposed ones. -/
theorem keepPrior_equated {canon : Canon} {block : Block} {priorFields proposedFields : Fields} {names : List String}
    (h : EquatesAttributes canon block (.object priorFields) (.object proposedFields) names) :
    ∃ kept : Fields, keepPrior (.object priorFields) (.object proposedFields) canon = .object kept ∧
      ∀ name, kept.get? name = if name ∈ names then priorFields.get? name else proposedFields.get? name := by
  obtain ⟨kept, hkept, hget⟩ := keepPrior_object canon priorFields proposedFields
  refine ⟨kept, hkept, fun name => ?_⟩
  rw [hget]
  by_cases hname : name ∈ names
  · rw [if_pos hname]
    exact keptSlot_of_equated ((h.mem_iff name).mp hname)
  · rw [if_neg hname]
    have hnot : ¬EquatedAt canon (.object priorFields) (.object proposedFields) [name] :=
      fun hat => hname ((h.mem_iff name).mpr hat)
    cases hp : priorFields.get? name with
    | none => cases hc : canon.fields.get? name <;> simp [keptSlot, keptField, h.flat, hc]
    | some p =>
        cases hq : proposedFields.get? name with
        | none => cases hc : canon.fields.get? name <;> simp [keptSlot, keptField, h.flat, hc]
        | some q =>
            rw [keptSlot_of_not_equated hnot hp hq, h.flat]
            rfl

/-- Some attribute that forces a replacement differs from the prior state. -/
def Replaces (block : Block) (prior proposed : Value) : Prop :=
  ∃ attr ∈ block.attributes, attr.forceNew = true ∧
    slotEq (valueAt prior [attr.name]) (valueAt proposed [attr.name]) = false

/-- A kept attribute that forces a replacement does not differ in its raw
values, and the planner leaves its prior value alone. A NaN differs from
itself, whichever route it takes. -/
def RoutesMeet (block : Block) (prior proposed : Value) (names : List String) : Prop :=
  ∀ name ∈ names, ∀ p q, valueAt prior [name] = some p → valueAt proposed [name] = some q →
    ((∃ attr ∈ block.named name, attr.forceNew = true) → p.isNaNFree = true → p.eq q = true) ∧
      Keepable (Replaces block prior proposed) (block.named name) p

theorem replaces_iff {block : Block} {priorFields proposedFields : Fields} :
    Replaces block (.object priorFields) (.object proposedFields) ↔
      (!(plan (.object priorFields) (.object proposedFields) block).requiresReplace.isEmpty) = true := by
  rw [Bool.not_eq_true', List.isEmpty_eq_false_iff_exists_mem]
  simp only [Replaces, valueAt_singleton, mem_requiresReplace]
  constructor
  · rintro ⟨attr, ha, hforce, hslot⟩
    exact ⟨_, attr, ha, hforce, hslot, rfl⟩
  · rintro ⟨_, attr, ha, hforce, hslot, -⟩
    exact ⟨attr, ha, hforce, hslot⟩

section

variable {canon : Canon} {block : Block} {prior proposed : Value} {priorFields proposedFields kept : Fields}
  {names : List String}

theorem EquatesAttributes.present
    (h : EquatesAttributes canon block (.object priorFields) (.object proposedFields) names) {name : String}
    (hname : name ∈ names) : ∃ p q, priorFields.get? name = some p ∧ proposedFields.get? name = some q := by
  obtain ⟨_, p, q, -, hp, hq, -⟩ := equatedAt_field.mp ((h.mem_iff name).mp hname)
  exact ⟨p, q, hp, hq⟩

theorem mem_named {name : String} {attr : AttributeSchema} :
    attr ∈ block.named name ↔ attr ∈ block.attributes ∧ attr.name = name := by
  rw [Block.named, List.mem_filter, decide_eq_true_iff]

/-- The replacement paths agree when no kept attribute that forces a
replacement differs. -/
theorem requiresReplace_agree (h : EquatesAttributes canon block (.object priorFields) (.object proposedFields) names)
    (hkept : ∀ name, kept.get? name = if name ∈ names then priorFields.get? name else proposedFields.get? name) :
    (∀ path, path ∈ (plan (.object priorFields) (.object kept) block).requiresReplace ↔
        path ∈ (plan (.object priorFields) (.object proposedFields) block).requiresReplace) ↔
      ∀ name ∈ names, ∀ p q, priorFields.get? name = some p → proposedFields.get? name = some q →
        (∃ attr ∈ block.named name, attr.forceNew = true) → p.isNaNFree = true → p.eq q = true := by
  constructor
  · rintro hpaths name hname p q hp hq ⟨attr, hattr, hforce⟩ hnan
    obtain ⟨ha, rfl⟩ := mem_named.mp hattr
    by_contra hne
    have hslot : slotEq (priorFields.get? attr.name) (proposedFields.get? attr.name) = false := by
      rw [hp, hq]
      exact Bool.not_eq_true _ ▸ hne
    obtain ⟨attr', -, -, hslot', hpath⟩ :=
      mem_requiresReplace.mp ((hpaths _).mpr (mem_requiresReplace.mpr ⟨attr, ha, hforce, hslot, rfl⟩))
    have hname' : attr'.name = attr.name := by
      simpa [Path.ofName] using toAttributePath_injective hpath
    rw [hname', hkept, if_pos hname, hp, slotEq, Value.eq_self_iff.mpr hnan] at hslot'
    cases hslot'
  · intro hsame path
    rw [mem_requiresReplace, mem_requiresReplace]
    refine exists_congr fun attr => and_congr_right fun ha => and_congr_right fun hforce => and_congr_left fun _ => ?_
    rw [hkept]
    split_ifs with hname
    · obtain ⟨p, q, hp, hq⟩ := h.present hname
      rw [hp, hq, slotEq, slotEq, ← Bool.not_eq_true, ← Bool.not_eq_true, Value.eq_self_iff]
      refine not_congr ⟨fun hnan => ?_, Value.isNaNFree_of_eq⟩
      exact hsame attr.name hname p q hp hq ⟨attr, mem_named.mpr ⟨ha, rfl⟩, hforce⟩ hnan
    · rfl

/-- With the same replacement, the planned states agree when the planner leaves
the kept values alone. -/
theorem planned_agree (h : EquatesAttributes canon block (.object priorFields) (.object proposedFields) names)
    (hkept : ∀ name, kept.get? name = if name ∈ names then priorFields.get? name else proposedFields.get? name)
    {replacing : Bool} {after : Fields} (hafter : ∀ name, after.get? name = if name ∈ names then
      ((plannedFields block replacing proposedFields).get? name).map fun v => (priorFields.get? name).getD v
      else (plannedFields block replacing proposedFields).get? name) :
    plannedFields block replacing kept = after ↔
      ∀ name ∈ names, ∀ p q, priorFields.get? name = some p → proposedFields.get? name = some q →
        Keepable (replacing = true) (block.named name) p := by
  have hfield : ∀ name ∈ names, ∀ p q, priorFields.get? name = some p → proposedFields.get? name = some q →
      (plannedFields block replacing kept).get? name = plannedField replacing (block.named name) (some p) ∧
        after.get? name = some p := by
    intro name hname p q hp hq
    rw [hafter, if_pos hname, get?_plannedFields (h.notNested name hname), get?_plannedFields (h.notNested name hname),
      hkept, if_pos hname, hp, hq]
    obtain ⟨w, hw⟩ := @isSome_plannedField replacing (block.named name) q
    rw [hw]
    exact ⟨rfl, rfl⟩
  constructor
  · intro heq name hname p q hp hq
    obtain ⟨hbefore, hafter⟩ := hfield name hname p q hp hq
    rw [← plannedField_eq_self, ← hbefore, heq, hafter]
  · intro hkeepable
    apply OrdMap.ext_get?
    intro name
    by_cases hname : name ∈ names
    · obtain ⟨p, q, hp, hq⟩ := h.present hname
      obtain ⟨hbefore, hafter⟩ := hfield name hname p q hp hq
      rw [hbefore, hafter, plannedField_eq_self]
      exact hkeepable name hname p q hp hq
    · rw [hafter, if_neg hname]
      apply get?_plannedFields_congr
      rw [hkept, if_neg hname]

theorem EquatesAttributes.eq_nil (h : EquatesAttributes canon block prior proposed names)
    (hobject : ∀ priorFields proposedFields, prior = .object priorFields → proposed = .object proposedFields → False) :
    names = [] := by
  rw [List.eq_nil_iff_forall_not_mem]
  intro name hname
  obtain ⟨_, p, q, -, hp, hq, -⟩ := (h.mem_iff name).mp hname
  obtain ⟨priorFields, _, hprior, -, -⟩ := valueAt_cons hp
  obtain ⟨proposedFields, _, hproposed, -, -⟩ := valueAt_cons hq
  exact hobject priorFields proposedFields hprior hproposed

theorem suppress_agree_object
    (h : EquatesAttributes canon block (.object priorFields) (.object proposedFields) names) :
    (suppressBefore canon block (.object priorFields) (.object proposedFields)).Agree
        (suppressAfter names block (.object priorFields) (.object proposedFields)) ↔
      RoutesMeet block (.object priorFields) (.object proposedFields) names := by
  obtain ⟨kept, hkeep, hkept⟩ := keepPrior_equated h
  obtain ⟨after, hplanned, hafter⟩ :=
    planned_keeping (@planned_object block proposedFields (.object priorFields)) priorFields names
  have hpaths := requiresReplace_agree h hkept
  have hstates := planned_agree h hkept hafter
  have hreplacing : (∀ path, path ∈ (plan (.object priorFields) (.object kept) block).requiresReplace ↔
      path ∈ (plan (.object priorFields) (.object proposedFields) block).requiresReplace) →
      (plan (.object priorFields) (.object kept) block).planned = .object (plannedFields block
        (!(plan (.object priorFields) (.object proposedFields) block).requiresReplace.isEmpty) kept) := by
    intro hpath
    rw [planned_object]
    congr 3
    rw [Bool.eq_iff_iff, List.isEmpty_iff, List.isEmpty_iff, List.eq_nil_iff_forall_not_mem,
      List.eq_nil_iff_forall_not_mem]
    simp only [hpath]
  rw [suppressBefore, hkeep]
  constructor
  · rintro ⟨hplan, hpath⟩ name hname p q hp hq
    rw [valueAt_singleton] at hp hq
    refine ⟨hpaths.mp hpath name hname p q hp hq, ?_⟩
    rw [replaces_iff]
    refine hstates.mp ?_ name hname p q hp hq
    exact ValueOf.object.inj ((hreplacing hpath).symm.trans (hplan.trans hplanned))
  · intro hmeet
    have hpath := hpaths.mpr fun name hname p q hp hq =>
      (hmeet name hname p q ((valueAt_singleton _ _).trans hp) ((valueAt_singleton _ _).trans hq)).1
    refine ⟨(hreplacing hpath).trans (Eq.trans ?_ hplanned.symm), hpath⟩
    rw [hstates.mpr]
    intro name hname p q hp hq
    rw [← replaces_iff]
    exact (hmeet name hname p q ((valueAt_singleton _ _).trans hp) ((valueAt_singleton _ _).trans hq)).2

/-- The two routes of a diff suppression agree exactly when they meet at the
attributes whose diff they suppress. -/
theorem suppress_agree_iff (h : EquatesAttributes canon block prior proposed names) :
    (suppressBefore canon block prior proposed).Agree (suppressAfter names block prior proposed) ↔
      RoutesMeet block prior proposed names := by
  rcases Value.objects_or_not prior proposed with ⟨priorFields, proposedFields, rfl, rfl⟩ | hnot
  · exact suppress_agree_object h
  · obtain rfl := h.eq_nil hnot
    refine iff_of_true ?_ fun _ hname => nomatch hname
    rw [suppressBefore, keepPrior_of_not_object canon hnot]
    exact ⟨rfl, fun _ => Iff.rfl⟩

end

def zoneCanon : Canon :=
  Canon.new.withField "zone" (.stringQuotient (fun s => some (if s = "EU" then "eu" else s)) some)

def zoned (name : String) : Value := .object (OrdMap.empty.insert "zone" (.string name))

theorem equatesAttributes_zoned {attr : AttributeSchema} (hname : attr.name = "zone") :
    EquatesAttributes zoneCanon ⟨[attr], []⟩ (zoned "eu") (zoned "EU") ["zone"] where
  flat := rfl
  mem_iff name := by
    rw [List.mem_singleton, zoned, zoned, equatedAt_field]
    constructor
    · rintro rfl
      exact ⟨_, _, _, OrdMap.get?_insert_self _ _ _, OrdMap.get?_insert_self _ _ _, OrdMap.get?_insert_self _ _ _,
        by decide⟩
    · rintro ⟨_, _, _, -, hp, -⟩
      by_contra hne
      rw [OrdMap.get?_insert_of_ne _ _ hne] at hp
      cases hp
  isAttribute name h := by
    rw [List.mem_singleton.mp h, ← hname]
    exact List.mem_singleton_self _
  notNested _ _ := List.not_mem_nil

def moved : AttributeSchema := { zone with forceNew := false }

theorem suppress_agree_zoned : (suppressBefore zoneCanon ⟨[moved], []⟩ (zoned "eu") (zoned "EU")).Agree
    (suppressAfter ["zone"] ⟨[moved], []⟩ (zoned "eu") (zoned "EU")) := by
  refine (suppress_agree_iff (equatesAttributes_zoned rfl)).mpr fun name hname p q hp _ => ?_
  obtain rfl := List.mem_singleton.mp hname
  obtain rfl : .string "eu" = p := Option.some.inj hp
  constructor
  · rintro ⟨attr, hattr, hforce⟩
    obtain rfl := List.mem_singleton.mp (mem_named.mp hattr).1
    cases hforce
  · intro attr hattr
    obtain rfl := List.mem_singleton.mp (mem_named.mp hattr).1
    exact ⟨rfl, fun _ h => nomatch h⟩

/-- The plan that is modified afterwards still replaces the resource. -/
theorem suppress_disagree : EquatesAttributes zoneCanon ⟨[zone], []⟩ (zoned "eu") (zoned "EU") ["zone"] ∧
    ¬(suppressBefore zoneCanon ⟨[zone], []⟩ (zoned "eu") (zoned "EU")).Agree
      (suppressAfter ["zone"] ⟨[zone], []⟩ (zoned "eu") (zoned "EU")) := by
  refine ⟨equatesAttributes_zoned rfl, fun h => ?_⟩
  have hbefore : (suppressBefore zoneCanon ⟨[zone], []⟩ (zoned "eu") (zoned "EU")).requiresReplace = [] := by
    decide
  have hafter : toAttributePath (Path.ofName "zone") ∈
      (suppressAfter ["zone"] ⟨[zone], []⟩ (zoned "eu") (zoned "EU")).requiresReplace := by
    decide
  rw [← h.requiresReplace, hbefore] at hafter
  cases hafter

end TofuSdk
