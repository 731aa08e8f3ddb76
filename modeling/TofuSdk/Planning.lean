import TofuSdk.Replace

namespace TofuSdk

open ValueOf

section

variable {via : NestingMode → Prop} {block : Block} {p : Path} {attr attr' : AttributeSchema}
  {x x' : Option Value}

theorem nested_eq_of_name (hd : block.distinctNames = true) {nested nested' : NestedBlock}
    (hn : nested ∈ block.nestedBlocks) (hn' : nested' ∈ block.nestedBlocks) (h : nested.name = nested'.name) :
    nested = nested' :=
  List.inj_on_of_nodup_map (List.nodup_append.mp (Block.names_nodup hd)).2.1 hn hn' h

theorem attribute_eq_of_name (hd : block.distinctNames = true)
    (ha : attr ∈ block.attributes) (ha' : attr' ∈ block.attributes) (h : attr.name = attr'.name) : attr = attr' :=
  List.inj_on_of_nodup_map (List.nodup_append.mp (Block.names_nodup hd)).1 ha ha' h

theorem elementAt_append {nesting : NestingMode} {child child' : Value} {s s' q q' : Path} {elem elem' : Value}
    (h : elementAt nesting child s = some elem) (h' : elementAt nesting child' s' = some elem')
    (happ : s ++ q = s' ++ q') : s = s' ∧ q = q' := by
  have hlen : s.length = s'.length := by
    unfold elementAt at h h'
    split at h <;> split at h' <;> simp_all
  exact List.append_inj happ hlen

theorem AttrAtVia.unique (hd : block.distinctNames = true) {value : Value}
    (h : AttrAtVia via block value p attr x) (h' : AttrAtVia via block value p attr' x') :
    attr = attr' ∧ x = x' := by
  induction h with
  | here block fields attr ha =>
      obtain ⟨ha', hp, rfl⟩ := h'.top rfl
      obtain rfl := attribute_eq_of_name hd ha ha' (by simpa [Path.ofName] using hp)
      exact ⟨rfl, rfl⟩
  | nested block fields nested child elem s p attr x hn hv hchild helem h ih =>
      obtain ⟨-, hp, -⟩ | ⟨nested', hn', -, child', s', elem', q', hchild', helem', hq', hp⟩ := attrAt_object.mp h'
      · have hnil : s ++ p = [] := (List.cons.inj hp).2
        exact absurd (List.append_eq_nil_iff.mp hnil).2 h.ne_nil
      · obtain ⟨hname, happ⟩ := List.cons.inj hp
        obtain rfl := nested_eq_of_name hd hn hn' (PathStep.attribute.inj hname)
        obtain rfl : child = child' := Option.some.inj (hchild.symm.trans hchild')
        obtain ⟨rfl, rfl⟩ := elementAt_append helem helem' happ
        obtain rfl : elem = elem' := Option.some.inj (helem.symm.trans helem')
        exact ih (Block.distinctNames_of_mem hd hn) hq'

end

/-- A configured value survives: the planner keeps what is set, unless the
attribute is write-only, or computed while the resource is replaced. -/
theorem plannedSlot_of_known {replacing : Bool} {attr : AttributeSchema} {v : Value}
    (hw : attr.writeOnly = false) (hnull : v.isNull = false)
    (hc : replacing = true → attr.computed = true → attr.required = true) :
    plannedSlot replacing attr (some v) = some v := by
  have hslot : isNullSlot (some v) = false := by
    cases v <;> first | rfl | cases hnull
  have hmark : markSlot replacing attr (some v) = some v := by
    cases replacing <;> cases hcomp : attr.computed <;> cases hreq : attr.required <;>
      simp_all [markSlot]
  rw [plannedSlot, hmark, stripSlot, hw]
  rfl

/-- The proposed state carries the configuration's value wherever that is set. -/
def Carries (block : Block) (config proposed : Value) : Prop :=
  ∀ p attr c, AlignedAt block config p attr (some c) → c.isNull = false →
    AlignedAt block proposed p attr (some c)

/-- Every known configured value that is not write-only, at the attributes that
`keeps` selects, is in the planned state. -/
def KeepsConfigured (keeps : AttributeSchema → Prop) (block : Block) (prior config proposed : Value) : Prop :=
  ∀ p attr c, keeps attr → AlignedAt block config p attr (some c) → attr.writeOnly = false →
    c.isNull = false → c.isUnknown = false →
    AlignedAt block (plan prior proposed block).planned p attr (some c)

theorem configured_survives (block : Block) (prior config proposed : Value)
    (hd : block.distinctNames = true) (hcarry : Carries block config proposed) :
    KeepsConfigured (fun attr => (plan prior proposed block).requiresReplace = [] ∨ attr.computed = false ∨
      attr.required = true) block prior config proposed := by
  intro p attr c hkeeps hconfig hw hnull _
  refine (attrAt_plan hd prior proposed).mpr ⟨_, hcarry p attr c hconfig hnull, ?_⟩
  symm
  apply plannedSlot_of_known hw hnull
  intro hreplacing hcomp
  obtain hnil | hcomp' | hreq := hkeeps
  · simp [hnil] at hreplacing
  · simp [hcomp] at hcomp'
  · exact hreq

theorem conforms_flat {attributes : List AttributeSchema} {values : List (String × Value)}
    (hnames : values.map Prod.fst = attributes.map (·.name)) (hnodup : (attributes.map (·.name)).Nodup)
    (h : ∀ attr ∈ attributes, ∀ v, (attr.name, v) ∈ values → Conforms attr.ty v) :
    Conforms (Block.ctyType ⟨attributes, []⟩) (.object (OrdMap.ofList values)) := by
  refine .object _ _ (fun k hk => ?_) fun attr ha => ?_
  · rw [OrdMap.mem_keys_ofList, hnames] at hk
    simpa [Block.nestedCtyTypes] using hk
  · rw [Block.nestedCtyTypes, List.append_nil] at ha
    obtain ⟨schema, hs, rfl⟩ := List.mem_map.mp ha
    cases hv : (OrdMap.ofList values).get? schema.name with
    | none => exact .null schema.ty
    | some v => exact h schema hs v ((OrdMap.get?_ofList_of_nodup (hnames ▸ hnodup) _ v).mp hv)

/-- A bucket is replaced when it is renamed, has an owner that may be left to
the provider, and a tier with a default. -/
def bucketBlock : Block where
  attributes := [
    { AttributeSchema.new "name" .string with required := true, forceNew := true },
    { AttributeSchema.new "owner" .string with optional := true, computed := true },
    { AttributeSchema.new "tier" .string with optional := true, forceNew := true, default := some (.string "a") }]
  nestedBlocks := []

def bucketFields (name : String) (owner tier : Value) : Fields :=
  OrdMap.ofList [("name", .string name), ("owner", owner), ("tier", tier)]

def bucket (name : String) (owner tier : Value) : Value := .object (bucketFields name owner tier)

theorem conforms_bucket (name : String) {owner tier : Value} (howner : Conforms .string owner)
    (htier : Conforms .string tier) : Conforms bucketBlock.ctyType (bucket name owner tier) := by
  apply conforms_flat rfl (by decide)
  intro attr ha v hv
  have hty : attr.ty = .string := by
    simp only [List.mem_cons, List.not_mem_nil, or_false] at ha
    obtain rfl | rfl | rfl := ha <;> rfl
  rw [hty]
  simp only [List.mem_cons, Prod.mk.injEq, List.not_mem_nil, or_false] at hv
  obtain ⟨-, rfl⟩ | ⟨-, rfl⟩ | ⟨-, rfl⟩ := hv
  · exact .string name
  · exact howner
  · exact htier

theorem attrAt_bucket {via : NestingMode → Prop} {name : String} {owner tier : Value} {p : Path}
    {attr : AttributeSchema} {x : Option Value} (h : AttrAtVia via bucketBlock (bucket name owner tier) p attr x) :
    attr ∈ bucketBlock.attributes ∧ p = [.attribute attr.name] ∧
      ∃ v, x = some v ∧ (attr.name, v) ∈ [("name", .string name), ("owner", owner), ("tier", tier)] := by
  obtain ⟨ha, hp, hx⟩ := attrAt_flat.mp h
  refine ⟨ha, hp, ?_⟩
  cases hv : x with
  | some v => exact ⟨v, rfl, (OrdMap.get?_ofList_of_nodup (by simp) _ v).mp (hx.symm.trans hv)⟩
  | none =>
      have hmem : attr.name ∈ ["name", "owner", "tier"] := by
        simp only [List.mem_cons, List.not_mem_nil, or_false] at ha
        obtain rfl | rfl | rfl := ha <;> decide
      exact absurd (OrdMap.mem_keys_ofList.mpr hmem) (OrdMap.get?_eq_none_iff.mp (hx.symm.trans hv))

def twinBlock : Block where
  attributes := [{ AttributeSchema.new "id" .string with optional := true },
    { AttributeSchema.new "id" .string with optional := true, writeOnly := true }]
  nestedBlocks := []

def twin : Value := .object (OrdMap.ofList [("id", .string "x")])

theorem conforms_twin : Conforms twinBlock.ctyType twin := by
  refine .object _ _ (by decide) ?_
  intro attr ha
  have hty : attr.name = "id" ∧ attr.ty = .string := by
    simp only [List.mem_append, List.mem_map, List.mem_cons, List.not_mem_nil, or_false,
      Block.nestedCtyTypes] at ha
    obtain ⟨_, rfl | rfl, rfl⟩ := ha <;> exact ⟨rfl, rfl⟩
  rw [hty.1, hty.2]
  exact .string "x"

theorem getAtPath_of_flat {via : NestingMode → Prop} {attributes : List AttributeSchema} {value : Value}
    {p : Path} {attr : AttributeSchema} {x : Option Value}
    (h : AttrAtVia via ⟨attributes, []⟩ value p attr x) : getAtPath value p = x := by
  obtain ⟨fields, rfl⟩ := h.object
  obtain ⟨-, rfl, rfl⟩ := attrAt_flat.mp h
  cases hv : fields.get? attr.name <;> simp [getAtPath, hv]

/-- A configured owner becomes unknown when the name changes. Without any
replacement, a configured value is lost to a twin of its attribute. -/
theorem configured_lost :
    (¬ ∀ (block : Block) (prior config proposed : Value), block.distinctNames = true →
      Conforms block.ctyType prior → Conforms block.ctyType config → Conforms block.ctyType proposed →
      Carries block config proposed → KeepsConfigured (fun _ => True) block prior config proposed) ∧
    ¬ ∀ (block : Block) (prior config proposed : Value), (plan prior proposed block).requiresReplace = [] →
      Conforms block.ctyType prior → Conforms block.ctyType config → Conforms block.ctyType proposed →
      Carries block config proposed → KeepsConfigured (fun _ => True) block prior config proposed := by
  constructor
  · intro h
    have hconforms := fun name owner => conforms_bucket name (.string owner) (.string "a")
    have hkept := h bucketBlock (bucket "n" (.string "x") (.string "a")) (bucket "m" (.string "y") (.string "a"))
      (bucket "m" (.string "y") (.string "a")) (by decide) (hconforms "n" "x") (hconforms "m" "y")
      (hconforms "m" "y") (fun _ _ _ hc _ => hc) (Path.ofName "owner") bucketBlock.attributes[1] (.string "y")
      trivial (attrAt_flat.mpr ⟨List.getElem_mem _, rfl, rfl⟩) rfl rfl rfl
    cases getAtPath_of_flat hkept
  · intro h
    have hkept := h twinBlock twin twin twin (by decide +kernel) conforms_twin conforms_twin conforms_twin
      (fun _ _ _ hc _ => hc) (Path.ofName "id") twinBlock.attributes[0] (.string "x") trivial
      (attrAt_flat.mpr ⟨List.getElem_mem _, rfl, rfl⟩) rfl rfl rfl
    cases getAtPath_of_flat hkept

theorem configured_survives_bucket :
    AlignedAt bucketBlock (plan (bucket "n" (.string "x") (.string "a")) (bucket "n" (.string "y") (.string "a"))
      bucketBlock).planned (Path.ofName "owner") bucketBlock.attributes[1] (some (.string "y")) :=
  configured_survives bucketBlock (bucket "n" (.string "x") (.string "a"))
    (bucket "n" (.string "y") (.string "a")) (bucket "n" (.string "y") (.string "a")) (by decide)
    (fun _ _ _ hc _ => hc) (Path.ofName "owner") bucketBlock.attributes[1] (.string "y")
    (.inl (by decide +kernel)) (attrAt_flat.mpr ⟨List.getElem_mem _, rfl, rfl⟩) rfl rfl rfl

def effective (attr : AttributeSchema) (proposed : Option Value) : Option Value :=
  if attr.writeOnly then some .null
  else if !attr.required && isNullSlot proposed && attr.default.isSome then attr.default
  else proposed

def Differ (x y : Option Value) : Prop := x.map Value.exact ≠ y.map Value.exact

/-- Two values are told apart from a third alike when they are one value or
neither is the third. -/
theorem differ_iff {x y z : Option Value} :
    (Differ y z ↔ Differ x z) ↔ (Differ x y → Differ y z ∧ Differ x z) := by
  unfold Differ
  constructor
  · intro h hxy
    by_cases hyz : y.map Value.exact = z.map Value.exact
    · have hxz : x.map Value.exact = z.map Value.exact := not_not.mp fun hne => h.mpr hne hyz
      exact absurd (hxz.trans hyz.symm) hxy
    · exact ⟨hyz, h.mp hyz⟩
  · intro h
    by_cases hxy : x.map Value.exact = y.map Value.exact
    · rw [hxy]
    · exact iff_of_true (h hxy).1 (h hxy).2

theorem slotEq_eq_false_iff {x y : Option Value} (hx : ∀ v, x = some v → v.isNaNFree = true)
    (hy : ∀ v, y = some v → v.isNaNFree = true) : slotEq x y = false ↔ Differ x y := by
  cases x with
  | none => cases y <;> simp [slotEq, Differ]
  | some v =>
      cases y with
      | none => simp [slotEq, Differ]
      | some w =>
          rw [slotEq, Differ, Option.map_some, Option.map_some, ne_eq, Option.some.injEq,
            ← Value.eq_iff_exact (hx v rfl) (hy w rfl), Bool.not_eq_true]

theorem isNaNFree_of_get? {fields : Fields} (h : Value.isNaNFree (.object fields) = true) {k : String} {v : Value}
    (hv : fields.get? k = some v) : v.isNaNFree = true := by
  simp only [Value.isNaNFree, everyNumber, everywhere_object] at h
  exact h.2 k v hv

theorem mem_requiresReplace_of_name {block : Block} {priorFields proposedFields : Fields}
    (hd : block.distinctNames = true) (hp : Value.isNaNFree (.object priorFields) = true)
    (hq : Value.isNaNFree (.object proposedFields) = true) {attr : AttributeSchema}
    (ha : attr ∈ block.attributes) :
    toAttributePath (Path.ofName attr.name) ∈
        (plan (.object priorFields) (.object proposedFields) block).requiresReplace ↔
      attr.forceNew = true ∧ Differ (proposedFields.get? attr.name) (priorFields.get? attr.name) := by
  have hslot : slotEq (priorFields.get? attr.name) (proposedFields.get? attr.name) = false ↔
      Differ (proposedFields.get? attr.name) (priorFields.get? attr.name) := by
    rw [slotEq_eq_false_iff (fun v hv => isNaNFree_of_get? hp hv) (fun v hv => isNaNFree_of_get? hq hv)]
    exact ne_comm
  rw [mem_requiresReplace, ← hslot]
  constructor
  · rintro ⟨attr', ha', hforce, hne, hpath⟩
    have hname : attr'.name = attr.name := by
      simpa [Path.ofName] using toAttributePath_injective hpath
    obtain rfl := attribute_eq_of_name hd ha' ha hname
    exact ⟨hforce, hne⟩
  · rintro ⟨hforce, hne⟩
    exact ⟨attr, ha, hforce, hne, rfl⟩

/-- The replacement paths are those of the changed effective values. -/
def ReplacesEffective (block : Block) (priorFields proposedFields : Fields) : Prop :=
  ∀ attr ∈ block.attributes, toAttributePath (Path.ofName attr.name) ∈
      (plan (.object priorFields) (.object proposedFields) block).requiresReplace ↔
    attr.forceNew = true ∧ Differ (effective attr (proposedFields.get? attr.name)) (priorFields.get? attr.name)

/-- Without a changed effective value nothing known becomes unknown. -/
def KeepsKnown (block : Block) (priorFields proposedFields : Fields) : Prop :=
  (∀ attr ∈ block.attributes, attr.forceNew = true →
    ¬ Differ (effective attr (proposedFields.get? attr.name)) (priorFields.get? attr.name)) →
  ∀ p attr v, AttrAt block (.object proposedFields) p attr (some v) → attr.writeOnly = false →
    v.isNull = false → v.isUnknown = false →
    ¬ AttrAt block (plan (.object priorFields) (.object proposedFields) block).planned p attr (some .unknown)

theorem requiresReplace_eq_nil_of_effective {block : Block} {priorFields proposedFields : Fields}
    (h : ReplacesEffective block priorFields proposedFields)
    (hsame : ∀ attr ∈ block.attributes, attr.forceNew = true →
      ¬ Differ (effective attr (proposedFields.get? attr.name)) (priorFields.get? attr.name)) :
    (plan (.object priorFields) (.object proposedFields) block).requiresReplace = [] := by
  rw [List.eq_nil_iff_forall_not_mem]
  intro path hmem
  obtain ⟨attr, ha, hforce, -, rfl⟩ := mem_requiresReplace.mp hmem
  exact hsame attr ha hforce ((h attr ha).mp hmem).2

theorem replace_on_effective_iff (block : Block) (priorFields proposedFields : Fields)
    (hd : block.distinctNames = true) (hp : Conforms block.ctyType (.object priorFields))
    (hq : Conforms block.ctyType (.object proposedFields)) :
    ReplacesEffective block priorFields proposedFields ∧ KeepsKnown block priorFields proposedFields ↔
      ∀ attr ∈ block.attributes, attr.forceNew = true →
        Differ (effective attr (proposedFields.get? attr.name)) (proposedFields.get? attr.name) →
        Differ (proposedFields.get? attr.name) (priorFields.get? attr.name) ∧
          Differ (effective attr (proposedFields.get? attr.name)) (priorFields.get? attr.name) := by
  have hmem := fun (attr : AttributeSchema) (ha : attr ∈ block.attributes) =>
    mem_requiresReplace_of_name hd hp.isNaNFree hq.isNaNFree ha
  have hiff : ReplacesEffective block priorFields proposedFields ↔
      ∀ attr ∈ block.attributes, attr.forceNew = true →
        (Differ (proposedFields.get? attr.name) (priorFields.get? attr.name) ↔
          Differ (effective attr (proposedFields.get? attr.name)) (priorFields.get? attr.name)) := by
    refine forall₂_congr fun attr ha => ?_
    rw [hmem attr ha]
    exact and_congr_right_iff
  have hkeeps : ReplacesEffective block priorFields proposedFields → KeepsKnown block priorFields proposedFields := by
    intro h hsame p attr v hv hw hnull hunknown hplanned
    obtain ⟨x, hx, hslot⟩ := (attrAt_plan hd _ _).mp hplanned
    obtain ⟨-, rfl⟩ := AttrAtVia.unique hd hx hv
    rw [requiresReplace_eq_nil_of_effective h hsame, plannedSlot_of_known hw hnull (by simp)] at hslot
    cases hslot
    cases hunknown
  rw [and_iff_left_of_imp hkeeps, hiff]
  exact forall₃_congr fun attr _ _ => differ_iff

/-- An unset tier is planned as its default, which it has already, and yet the
bucket is replaced. -/
theorem replace_on_unset_default :
    ¬ ∀ (block : Block) (priorFields proposedFields : Fields), block.distinctNames = true →
      Conforms block.ctyType (.object priorFields) → Conforms block.ctyType (.object proposedFields) →
      (∀ p attr x, AttrAt block (.object priorFields) p attr x → x ≠ none) →
      (∀ p attr x, AttrAt block (.object proposedFields) p attr x → x ≠ none) →
      ReplacesEffective block priorFields proposedFields ∧ KeepsKnown block priorFields proposedFields := by
  intro h
  have hpresent : ∀ tier p attr x, AttrAt bucketBlock (bucket "n" (.string "x") tier) p attr x → x ≠ none := by
    intro tier p attr x hx
    obtain ⟨-, -, v, rfl, -⟩ := attrAt_bucket hx
    exact Option.some_ne_none v
  have hreplace := h bucketBlock (bucketFields "n" (.string "x") (.string "a"))
    (bucketFields "n" (.string "x") .null) (by decide) (conforms_bucket "n" (.string "x") (.string "a"))
    (conforms_bucket "n" (.string "x") (.null _)) (hpresent _) (hpresent _)
  have hmem := (hreplace.1 bucketBlock.attributes[2] (List.getElem_mem _)).mp (by decide +kernel)
  exact hmem.2 rfl

theorem replace_on_effective_bucket :
    ReplacesEffective bucketBlock (bucketFields "n" (.string "x") (.string "a"))
        (bucketFields "m" (.string "x") (.string "b")) ∧
      KeepsKnown bucketBlock (bucketFields "n" (.string "x") (.string "a"))
        (bucketFields "m" (.string "x") (.string "b")) := by
  refine (replace_on_effective_iff bucketBlock (bucketFields "n" (.string "x") (.string "a"))
    (bucketFields "m" (.string "x") (.string "b")) (by decide) (conforms_bucket "n" (.string "x") (.string "a"))
    (conforms_bucket "m" (.string "x") (.string "b"))).mpr ?_
  intro attr ha hforce hdiffer
  simp only [bucketBlock, List.mem_cons, List.not_mem_nil, or_false] at ha
  obtain rfl | rfl | rfl := ha
  · exact absurd rfl hdiffer
  · cases hforce
  · exact absurd rfl hdiffer

theorem AttrAtVia.everywhere {via : NestingMode → Prop} {q : Value → Bool} {block : Block} {value : Value}
    {p : Path} {attr : AttributeSchema} {x : Option Value} (h : AttrAtVia via block value p attr x) {v : Value}
    (hx : x = some v) (hq : ValueOf.everywhere q value = true) : ValueOf.everywhere q v = true := by
  induction h with
  | here block fields attr ha => exact (everywhere_object.mp hq).2 _ v hx
  | nested block fields nested child elem s p attr x hn hv hchild helem h ih =>
      have hqchild := (everywhere_object.mp hq).2 _ child hchild
      refine ih hx ?_
      cases hmode : nested.nesting with
      | single =>
          rw [hmode] at helem
          exact elementAt_single helem ▸ hqchild
      | list =>
          rw [hmode] at helem
          obtain ⟨items, rfl, hmem⟩ := elementAt_list helem
          exact (everywhere_list.mp hqchild).2 elem hmem
      | set =>
          rw [hmode] at helem
          obtain ⟨items, rfl, hmem⟩ := elementAt_set helem
          exact (everywhere_set.mp hqchild).2 elem hmem
      | map =>
          rw [hmode] at helem
          obtain ⟨entries, rfl, k, hk⟩ := elementAt_map helem
          exact (everywhere_map.mp hqchild).2 k elem hk

/-- A state that an apply can have stored: every attribute is present and
known, write-only ones are null, those with a default are set. -/
structure Stored (block : Block) (s : Value) : Prop where
  object : ∃ fields, s = .object fields
  conforms : Conforms block.ctyType s
  present : ∀ p attr x, AttrAt block s p attr x → x ≠ none
  known : s.isWhollyKnown = true
  writeOnly : ∀ p attr v, AttrAt block s p attr (some v) → attr.writeOnly = true → v.isNull = true
  default : ∀ p attr v, AttrAt block s p attr (some v) → attr.default.isSome = true → v.isNull = false

/-- No attribute that the planner marks is null. -/
def ComputedSet (block : Block) (s : Value) : Prop :=
  ∀ p attr v, AttrAt block s p attr (some v) → attr.computed = true → attr.required = false →
    attr.writeOnly = false → v.isNull = false

theorem slotEq_self {x : Option Value} (h : ∀ v, x = some v → v.isNaNFree = true) : slotEq x x = true := by
  rw [← Bool.not_eq_false, slotEq_eq_false_iff h h]
  exact fun hne => hne rfl

theorem requiresReplace_self (block : Block) {s : Value} (h : s.isNaNFree = true) :
    requiresReplace s s block = [] := by
  cases s with
  | object fields =>
      rw [requiresReplace, List.map_eq_nil_iff, List.filter_eq_nil_iff]
      intro attr _
      rw [slotEq_self fun v hv => isNaNFree_of_get? h hv]
      simp
  | _ => rfl

theorem plan_stored {block : Block} {s : Value} (hd : block.distinctNames = true) (h : Stored block s) :
    plan s s block = ⟨updateAttrs walkNesting (plannedSlot false) block s, []⟩ := by
  have hpass : updateAttrs walkNesting (plannedSlot false) block s =
      WriteOnly.strip (markComputedUnknown s block false) block := by
    rw [strip_eq, markComputedUnknown_eq, updateAttrs_updateAttrs hd h.conforms.tidy]
    rfl
  obtain ⟨fields, rfl⟩ := h.object
  rw [hpass]
  simp [plan, isNull, requiresReplace_self block h.conforms.isNaNFree]

theorem markSlot_some (replacing : Bool) (attr : AttributeSchema) (v : Value) :
    ∃ w, markSlot replacing attr (some v) = some w := by
  cases hreq : attr.required <;> cases hnull : isNullSlot (some v) <;> cases hdef : attr.default <;>
    cases hcomp : attr.computed <;> cases replacing <;> simp [markSlot, hreq, hnull, hdef, hcomp]

/-- A value in a stored state is replanned as itself unless it is a null that
the planner marks. -/
theorem plannedSlot_eq_self {attr : AttributeSchema} {v : Value}
    (hw : attr.writeOnly = true → v.isNull = true) (hdef : attr.default.isSome = true → v.isNull = false)
    (hc : attr.computed = true → attr.required = false → attr.writeOnly = false → v.isNull = false) :
    plannedSlot false attr (some v) = some v := by
  cases hwo : attr.writeOnly with
  | true =>
      have hnull : v = .null := by
        have := hw hwo
        cases v <;> first | rfl | cases this
      obtain ⟨w, hmark⟩ := markSlot_some false attr v
      rw [plannedSlot, hmark, stripSlot, hwo, hnull]
      rfl
  | false =>
      cases hnull : v.isNull with
      | false => exact plannedSlot_of_known hwo hnull (by simp)
      | true =>
          have hdefault : attr.default = none := by
            rw [← Option.not_isSome_iff_eq_none]
            intro h
            rw [hdef h] at hnull
            cases hnull
          have hcomputed : attr.computed = true → attr.required = true := by
            intro hcomp
            by_contra hreq
            rw [hc hcomp (by simpa using hreq) hwo] at hnull
            cases hnull
          have hmark : markSlot false attr (some v) = some v := by
            cases hcomp : attr.computed <;> cases hreq : attr.required <;> simp_all [markSlot]
          rw [plannedSlot, hmark, stripSlot, hwo]
          rfl

/-- Planning a stored state again changes nothing exactly when no computed
attribute of it is null. -/
theorem plan_converges_iff (block : Block) (s : Value) (hd : block.distinctNames = true) (h : Stored block s) :
    plan s s block = ⟨s, []⟩ ↔ ComputedSet block s := by
  rw [plan_stored hd h]
  constructor
  · intro hplan p attr v hv hcomp hreq hw
    by_contra hnull
    have hplanned : AttrAt block s p attr (plannedSlot false attr (some v)) := by
      have hpos := (attrAt_updateAttrs walkNesting_elementwise (plannedSlot false) hd).mpr ⟨some v, hv, rfl⟩
      rwa [(Plan.mk.inj hplan).1] at hpos
    have hslot : plannedSlot false attr (some v) = some .unknown := by
      have hdefault : attr.default = none := by
        rw [← Option.not_isSome_iff_eq_none]
        exact fun hdef => hnull (h.default p attr v hv hdef)
      have hv' : v = .null := by
        cases v <;> first | rfl | exact absurd rfl hnull
      simp [plannedSlot, markSlot, stripSlot, isNullSlot, hv', hcomp, hreq, hw, hdefault]
    rw [hslot] at hplanned
    have hknown := hplanned.everywhere rfl h.known
    simp [everywhere, isUnknown] at hknown
  · intro hset
    congr 1
    apply updateAttrs_eq_self hd
    intro p attr x hx
    cases x with
    | none => exact absurd rfl (h.present p attr none hx)
    | some v =>
        exact plannedSlot_eq_self (h.writeOnly p attr v hx) (h.default p attr v hx) (hset p attr v hx)

theorem stored_bucket (name : String) {owner : Value} (howner : Conforms .string owner)
    (hknown : owner.isWhollyKnown = true) : Stored bucketBlock (bucket name owner (.string "a")) where
  object := ⟨_, rfl⟩
  conforms := conforms_bucket name howner (.string "a")
  present p attr x hx := by
    obtain ⟨-, -, v, rfl, -⟩ := attrAt_bucket hx
    exact Option.some_ne_none v
  known := by
    refine everywhere_object.mpr ⟨rfl, fun k v hv => ?_⟩
    have hmem := (OrdMap.get?_ofList_of_nodup (by simp) k v).mp hv
    simp only [List.mem_cons, Prod.mk.injEq, List.not_mem_nil, or_false] at hmem
    obtain ⟨-, rfl⟩ | ⟨-, rfl⟩ | ⟨-, rfl⟩ := hmem
    · rfl
    · exact hknown
    · rfl
  writeOnly p attr v hv hw := by
    obtain ⟨ha, -⟩ := attrAt_bucket hv
    simp only [bucketBlock, List.mem_cons, List.not_mem_nil, or_false] at ha
    obtain rfl | rfl | rfl := ha <;> cases hw
  default p attr v hv hdef := by
    obtain ⟨ha, -, w, hw, hmem⟩ := attrAt_bucket hv
    obtain rfl := Option.some.inj hw
    simp only [bucketBlock, List.mem_cons, List.not_mem_nil, or_false] at ha
    obtain rfl | rfl | rfl := ha
    · cases hdef
    · cases hdef
    · simp only [AttributeSchema.new, List.mem_cons, Prod.mk.injEq, List.not_mem_nil, or_false] at hmem
      obtain ⟨h, -⟩ | ⟨h, -⟩ | ⟨-, rfl⟩ := hmem
      · simp at h
      · simp at h
      · rfl

/-- A bucket without an owner shows a diff on every plan. -/
theorem plan_diverges_on_null_owner :
    ¬ ∀ (block : Block) (s : Value), block.distinctNames = true → Stored block s → plan s s block = ⟨s, []⟩ := by
  intro h
  have hplan := h bucketBlock (bucket "n" .null (.string "a")) (by decide) (stored_bucket "n" (.null _) rfl)
  have howner := congrArg (fun p : Plan => getAtPath p.planned (Path.ofName "owner")) hplan
  cases howner

theorem plan_converges_bucket :
    plan (bucket "n" (.string "x") (.string "a")) (bucket "n" (.string "x") (.string "a")) bucketBlock =
      ⟨bucket "n" (.string "x") (.string "a"), []⟩ := by
  refine (plan_converges_iff bucketBlock (bucket "n" (.string "x") (.string "a")) (by decide)
    (stored_bucket "n" (.string "x") rfl)).mpr ?_
  intro p attr v hv _ _ _
  obtain ⟨-, -, w, hw, hmem⟩ := attrAt_bucket hv
  obtain rfl := Option.some.inj hw
  simp only [List.mem_cons, Prod.mk.injEq, List.not_mem_nil, or_false] at hmem
  obtain ⟨-, rfl⟩ | ⟨-, rfl⟩ | ⟨-, rfl⟩ := hmem <;> rfl

end TofuSdk
