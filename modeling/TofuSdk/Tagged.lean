import TofuSdk.ValueType

namespace TofuSdk

mutual

/-- Is each set tag in a type one the derivation reads? It reads the one at the
top of the type, which tells whether the type is rewritten to a set. -/
def tagsRead (isSet : Bool) (outer : Option Bool) (t : Zod) : Bool :=
  match t with
  | .leaf _ _ | .set _ _ => true
  | .array m element => isSet == (outer.or m.set == some true) && tagsRead false none element
  | .record _ _ element => tagsRead false none element
  | .object _ shape => (shapeTagsRead shape).toList.all fun p => p.1 == protoKey || p.2
  | .pipe m _ input _ => tagsRead isSet (outer.or m.set) input
  | .wrapper m _ innerType => tagsRead isSet (outer.or m.set) innerType
termination_by structural t

def shapeTagsRead (shape : ZodShape) : Entries Bool :=
  match shape with
  | ⟨keys, nodup, val⟩ => ⟨keys, nodup, fun i => tagsRead false none (val i)⟩
termination_by structural shape

end

/-- The contents of a block are the fields of an object. A type of another kind
has none to give, so its values must be objects without attributes. -/
def contentsRead (outer : Option Bool) (obj : Zod) : Bool :=
  match obj.peel.core with
  | .object _ shape => shape.toList.all fun p =>
      p.1 != protoKey && tagsRead (p.2.peel.tfMeta.set == some true) none p.2
  | _ => match valueType true outer obj with
      | .ok (.object []) => true
      | _ => false

def blockRead (outer : Option Bool) (ft : Zod) : Bool :=
  match ft.peel.core with
  | .array _ element => contentsRead none element
  | _ => contentsRead outer ft

def typesKept (dispositions : Dispositions) (schema : ZodShape) : Bool :=
  schema.toList.all fun p => p.1 != protoKey &&
    if dispositions.isBlock p.1 p.2 then blockRead (dispositions.outerSet p.1) p.2
    else tagsRead (dispositions.isSet p.1 p.2) (dispositions.outerSet p.1) p.2

section

variable {isSet : Bool} {outer : Option Bool} {t : Zod} {shape : ZodShape} {ty : Ty}

theorem shapeTagsRead_eq (shape : ZodShape) : shapeTagsRead shape = shape.map (tagsRead false none) := by
  cases shape
  rfl

theorem tagsRead_object {m : TfMeta} : tagsRead isSet outer (.object m shape) = true ↔
    ∀ p ∈ shape.toList, p.1 ≠ protoKey → tagsRead false none p.2 = true := by
  rw [tagsRead, shapeTagsRead_eq, Entries.toList_map, List.all_map, List.all_eq_true]
  simp [or_iff_not_imp_left]

def rewritten (isSet : Bool) (ty : Ty) : Ty := if isSet then ty.asSet else ty

theorem rewritten_of_asSet (h : ty.asSet = ty) : rewritten isSet ty = ty := by
  rw [rewritten, h, ite_self]

theorem rewritten_list_iff {elem ref : Ty} {marked : Bool} :
    Ty.Agree (rewritten isSet (.list elem)) ((if marked then Ty.set else Ty.list) ref) ↔
      isSet = marked ∧ Ty.Agree elem ref := by
  cases isSet <;> cases marked
  · simpa [rewritten] using Ty.Agree.list_iff
  · exact iff_of_false (fun h => by cases h) (by simp)
  · exact iff_of_false (fun h => by cases h) (by simp)
  · simpa [rewritten, Ty.asSet] using Ty.Agree.set_iff

/-- The type an attribute is given, rewritten when it is marked as a set, agrees
with the type of the values exactly when the tags in it are read. -/
theorem rewritten_agree_iff (isSet : Bool) (outer : Option Bool) {outer' : Option Bool}
    (h : valueType false outer' t = .ok ty) :
    ∃ ref, valueType true outer t = .ok ref ∧
      (Ty.Agree (rewritten isSet ty) ref ↔ tagsRead isSet outer t = true) := by
  induction t using Zod.induct generalizing ty outer outer' isSet with
  | leaf m type =>
      rw [valueType] at h ⊢
      obtain ⟨json, hjson, hty⟩ := Outcome.bind_eq_ok.mp h
      obtain ⟨-, -, ty', hty', hasSet⟩ := LeafType.cty_ok hjson
      obtain rfl := Except.ok.inj (hty.symm.trans hty')
      refine ⟨ty, h, ?_⟩
      rw [rewritten_of_asSet hasSet, tagsRead]
      exact iff_of_true (.refl ty) rfl
  | array m element ih =>
      obtain ⟨elem, helem, rfl⟩ := Outcome.map_eq_ok.mp h
      obtain ⟨ref, href, hagree⟩ := ih false none helem
      refine ⟨(if outer.or m.set == some true then Ty.set else Ty.list) ref, ?_, ?_⟩
      · rw [valueType, href]
        rfl
      · have hhead : tagsRead isSet outer (.array m element) = true ↔
            isSet = (outer.or m.set == some true) ∧ tagsRead false none element = true := by
          rw [tagsRead, Bool.and_eq_true, beq_iff_eq]
        rw [hhead, ← hagree]
        exact rewritten_list_iff
  | set m element ih =>
      rw [valueType] at h ⊢
      split_ifs at h with hscalar
      obtain ⟨elem, helem, rfl⟩ := Outcome.map_eq_ok.mp h
      rw [if_pos hscalar, valueType_scalar hscalar, helem]
      refine ⟨.set elem, rfl, ?_⟩
      rw [rewritten_of_asSet rfl, tagsRead]
      exact iff_of_true (.refl _) rfl
  | record m keyType element _ ih =>
      obtain ⟨elem, helem, rfl⟩ := Outcome.map_eq_ok.mp h
      obtain ⟨ref, href, hagree⟩ := ih false none helem
      rw [valueType, href, tagsRead, ← hagree, rewritten_of_asSet rfl]
      exact ⟨_, rfl, Ty.Agree.map_iff⟩
  | object m shape ih =>
      rw [valueType_object] at h ⊢
      obtain ⟨types, htypes, rfl⟩ := Outcome.map_eq_ok.mp h
      have : Nonempty Ty := ⟨.dynamic⟩
      obtain ⟨g, hg, rfl⟩ := Outcome.mapM_keyed htypes
      have href : ∀ p ∈ shape.toList, ∃ ref, valueType true none p.2 = .ok ref ∧
          (Ty.Agree (g p) ref ↔ tagsRead false none p.2 = true) :=
        fun p hp => ih p hp false none (hg p hp)
      choose! r hr hagree using href
      rw [Outcome.mapM_eq_ok_map (g := fun p => (p.1, r p)) fun p hp => by rw [hr p hp, Outcome.map_ok], Outcome.map_ok,
        rewritten_of_asSet rfl]
      refine ⟨_, rfl, ?_⟩
      rw [agree_objectType shape.nodup_toList, tagsRead_object]
      exact forall₂_congr fun p hp => imp_congr_right fun _ => hagree p hp
  | pipe m codec input output ih _ => exact ih _ _ h
  | wrapper m type innerType ih => exact ih _ _ h

end

section

variable {crates : Crates} {isSet : Bool} {outer : Option Bool} {t obj ft : Zod} {fields : List (String × Zod)}
  {json : Json} {ty : Ty} {attributes : List AttributeJson}

theorem attributeFromValue_field (hc : crates.ReadsPlain) {attr : AttributeJson} (h : ctyFromZod ft = .ok json)
    (htype : attr.type = if isSet then asSet json else json) :
    ∃ ty, valueType false none ft = .ok ty ∧
      attributeFromValue crates attr.toJson = .ok (attr.toSchema (rewritten isSet ty)) := by
  obtain ⟨ty, hval, hty, hasSet⟩ := valueType_untagged none h
  have hplain := plain_ctyFromZod h
  refine ⟨ty, hval, ?_⟩
  apply attributeFromValue_toJson hc
  · rw [htype]
    split_ifs
    · exact plain_asSet hplain
    · exact hplain
  · rw [htype, rewritten]
    split_ifs
    · exact hasSet
    · exact hty

def AttributeSchema.member (attr : AttributeSchema) : ObjectAttr := ⟨attr.name, attr.ty, !attr.required⟩

def WritesField (build : String × Zod → Except String AttributeJson) (isSet : String × Zod → Bool) : Prop :=
  ∀ p attr, build p = .ok attr → attr.name = p.1 ∧
    ∃ json, ctyFromZod p.2 = .ok json ∧ attr.type = if isSet p then asSet json else json

theorem attributes_read (hc : crates.ReadsPlain) {build : String × Zod → Except String AttributeJson}
    {marked : String × Zod → Bool} (hbuild : WritesField build marked) (h : fields.mapM build = .ok attributes) :
    ∃ schemas, (attributes.map AttributeJson.toJson).mapM (attributeFromValue crates) = .ok schemas ∧
      ∃ (ty : String × Zod → Ty) (o : String × Zod → Bool), (∀ p ∈ fields, valueType false none p.2 = .ok (ty p)) ∧
        schemas.map AttributeSchema.member = fields.map fun p => ⟨p.1, rewritten (marked p) (ty p), o p⟩ := by
  have : Nonempty AttributeJson := ⟨⟨"", .null, false, false, false, false, false, false, false, false⟩⟩
  have : Nonempty Ty := ⟨.dynamic⟩
  obtain ⟨attr, hattr, rfl⟩ := Outcome.mapM_eq_map h
  have hread : ∀ p ∈ fields, ∃ ty, valueType false none p.2 = .ok ty ∧
      attributeFromValue crates (attr p).toJson = .ok ((attr p).toSchema (rewritten (marked p) ty)) := by
    intro p hp
    obtain ⟨-, json, hjson, htype⟩ := hbuild p (attr p) (hattr p hp)
    exact attributeFromValue_field hc hjson htype
  choose! ty hval hschema using hread
  refine ⟨fields.map fun p => (attr p).toSchema (rewritten (marked p) (ty p)), ?_, ty, fun p => !(attr p).required,
    hval, ?_⟩
  · rw [List.map_map, List.mapM_map]
    exact Outcome.mapM_eq_ok_map hschema
  · rw [List.map_map]
    apply List.map_congr_left
    intro p hp
    rw [← (hbuild p (attr p) (hattr p hp)).1]
    rfl

theorem attributeFromField_writes :
    WritesField (fun p => attributeFromField p.1 p.2) fun p => p.2.peel.tfMeta.set == some true := by
  intro p attr h
  change attributeFromField p.1 p.2 = _ at h
  rw [attributeFromField] at h
  obtain ⟨json, hjson, h⟩ := Outcome.bind_eq_ok.mp h
  cases h
  exact ⟨rfl, json, hjson, rfl⟩

theorem attributeFromSchema_writes (dispositions : Dispositions) :
    WritesField (fun p => attributeFromSchema dispositions p.1 p.2) fun p => dispositions.isSet p.1 p.2 := by
  intro p attr h
  change attributeFromSchema dispositions p.1 p.2 = _ at h
  rw [attributeFromSchema] at h
  obtain ⟨json, hjson, h⟩ := Outcome.bind_eq_ok.mp h
  cases h
  exact ⟨rfl, json, hjson, rfl⟩

theorem Block.ctyType_leaf (schemas : List AttributeSchema) :
    Block.ctyType ⟨schemas, []⟩ = .object (schemas.map AttributeSchema.member) := by
  rw [Block.ctyType_eq, List.map_nil, List.append_nil]
  rfl

/-- The contents of a block have the type of the object they are derived from
exactly when nothing in it is lost. -/
theorem contents_agree_iff (hc : crates.ReadsPlain) (h : attributesFromObject obj = .ok attributes) :
    ∃ schemas, (attributes.map AttributeJson.toJson).mapM (attributeFromValue crates) = .ok schemas ∧
      ∀ outer, (∃ ref, valueType true outer obj = .ok ref ∧ Ty.Agree (Block.ctyType ⟨schemas, []⟩) ref) ↔
        contentsRead outer obj = true := by
  obtain ⟨schemas, hschemas, ty, o, hty, hmembers⟩ := attributes_read hc attributeFromField_writes h
  refine ⟨schemas, hschemas, ?_⟩
  intro outer
  rw [Block.ctyType_leaf, hmembers, contentsRead]
  cases hcore : obj.peel.core with
  | object m shape =>
      rw [hcore] at hty
      have hagree : ∀ p ∈ shape.toList, (∃ ref, valueType true none p.2 = .ok ref ∧
          Ty.Agree (rewritten (p.2.peel.tfMeta.set == some true) (ty p)) ref) ↔
            tagsRead (p.2.peel.tfMeta.set == some true) none p.2 = true := by
        intro p hp
        obtain ⟨ref, href, hagree⟩ := rewritten_agree_iff (p.2.peel.tfMeta.set == some true) none (hty p hp)
        rw [← hagree, href]
        simp
      rw [valueType_peel, hcore]
      simp only [valueType_object, Zod.fields, List.all_eq_true, Bool.and_eq_true, bne_iff_ne]
      rw [agree_published shape.nodup_toList (.refl _)]
      exact forall₂_congr fun p hp => and_congr_right fun _ => hagree p hp
  | _ =>
      simp only [Zod.fields, List.map_nil, Ty.Agree.empty_iff]
      split
      · rename_i heq
        simp [heq]
      · rename_i hne
        simpa using hne

theorem blockFromField_array {m : TfMeta} {element : Zod} (hcore : ft.peel.core = .array m element) (name : String)
    (markedSet : Bool) : blockFromField name ft markedSet =
      (fun attributes => ⟨name, if markedSet then .set else .list, 0, 0, attributes⟩) <$>
        attributesFromObject element := by
  simp only [blockFromField, hcore]

theorem attributesFromObject_core (t : Zod) : attributesFromObject t.peel.core = attributesFromObject t := by
  have hcore : t.peel.core.peel.core = t.peel.core := by
    induction t using Zod.induct with
    | wrapper m type innerType ih =>
        rw [Zod.peel_core_wrapper]
        exact ih
    | _ => rfl
  rw [attributesFromObject, attributesFromObject, hcore]

theorem blockFromField_single (hcore : ∀ m element, ft.peel.core ≠ .array m element) (name : String)
    (markedSet : Bool) : blockFromField name ft markedSet =
      (fun attributes => ⟨name, .single, if ft.peel.optional then 0 else 1, 1, attributes⟩) <$>
        attributesFromObject ft := by
  rw [← attributesFromObject_core ft]
  unfold blockFromField
  split
  · exact absurd ‹_› (hcore _ _)
  · rfl

/-- A nested block has the type of the field it is made of exactly when
nothing of the field is lost. -/
theorem block_agree_iff (hc : crates.ReadsPlain) {name : String} {block : BlockJson}
    (hset : (outer.or ft.peel.tfMeta.set == some true) = isSet) (h : blockFromField name ft isSet = .ok block) :
    ∃ nested, nestedBlockFromValue crates block.toJson = .ok nested ∧ nested.name = name ∧
      ((∃ ref, valueType true outer ft = .ok ref ∧ Ty.Agree nested.ctyType ref) ↔ blockRead outer ft = true) := by
  by_cases harray : ∃ m element, ft.peel.core = .array m element
  · obtain ⟨m, element, hcore⟩ := harray
    rw [blockFromField_array hcore] at h
    obtain ⟨attributes, hattrs, rfl⟩ := Outcome.map_eq_ok.mp h
    obtain ⟨schemas, hschemas, hagree⟩ := contents_agree_iff hc hattrs
    refine ⟨_, nestedBlockFromValue_toJson hc hschemas, rfl, ?_⟩
    have hvalue : valueType true outer ft = (if isSet then Ty.set else Ty.list) <$> valueType true none element := by
      have hmeta := Zod.peel_set_core ft
      rw [hcore] at hmeta
      rw [valueType_peel, hcore, valueType, Option.or_assoc]
      simp only [Zod.ownMeta] at hmeta
      rw [hmeta, Bool.true_and, hset]
    simp only [blockRead, hcore]
    rw [← hagree none, hvalue]
    cases isSet with
    | false => exact Ty.Agree.exists_map_iff fun _ _ => Ty.Agree.list_iff
    | true => exact Ty.Agree.exists_map_iff fun _ _ => Ty.Agree.set_iff
  · push Not at harray
    rw [blockFromField_single harray] at h
    obtain ⟨attributes, hattrs, rfl⟩ := Outcome.map_eq_ok.mp h
    obtain ⟨schemas, hschemas, hagree⟩ := contents_agree_iff hc hattrs
    refine ⟨_, nestedBlockFromValue_toJson hc hschemas, rfl, ?_⟩
    have hread : blockRead outer ft = contentsRead outer ft := by
      unfold blockRead
      split
      · exact absurd ‹_› (harray _ _)
      · rfl
    rw [hread]
    exact hagree outer

theorem Dispositions.outerSet_or (dispositions : Dispositions) (name : String) (ft : Zod) :
    ((dispositions.outerSet name).or ft.peel.tfMeta.set == some true) = dispositions.isSet name ft := by
  rw [outerSet, isSet]
  cases dispositions.set.contains name <;> simp

theorem split_perm {ι κ : Type} (l : List ι) (b : ι → Bool) (f : ι → κ) :
    ((l.filter fun i => !b i).map f ++ (l.filter b).map f).Perm (l.map f) := by
  rw [← List.map_append]
  exact (List.perm_append_comm.trans (List.filter_append_perm b l)).map f

theorem blocks_read (hc : crates.ReadsPlain) {dispositions : Dispositions} {blocks : List BlockJson}
    (h : fields.mapM (fun p => blockFromField p.1 p.2 (dispositions.isSet p.1 p.2)) = .ok blocks) :
    ∃ nested : String × Zod → NestedBlock,
      (blocks.map BlockJson.toJson).mapM (nestedBlockFromValue crates) = .ok (fields.map nested) ∧
      ∀ p ∈ fields, (nested p).name = p.1 ∧
        ((∃ ref, valueType true (dispositions.outerSet p.1) p.2 = .ok ref ∧ Ty.Agree (nested p).ctyType ref) ↔
          blockRead (dispositions.outerSet p.1) p.2 = true) := by
  have : Nonempty BlockJson := ⟨⟨"", .single, 0, 0, []⟩⟩
  have : Nonempty NestedBlock := ⟨⟨"", .single, ⟨[], []⟩, 0, 0⟩⟩
  obtain ⟨block, hblock, rfl⟩ := Outcome.mapM_eq_map h
  have hread : ∀ p ∈ fields, ∃ nested, nestedBlockFromValue crates (block p).toJson = .ok nested ∧
      nested.name = p.1 ∧
      ((∃ ref, valueType true (dispositions.outerSet p.1) p.2 = .ok ref ∧ Ty.Agree nested.ctyType ref) ↔
        blockRead (dispositions.outerSet p.1) p.2 = true) :=
    fun p hp => block_agree_iff hc (dispositions.outerSet_or p.1 p.2) (hblock p hp)
  choose! nested hnested hmember using hread
  refine ⟨nested, ?_, hmember⟩
  rw [List.map_map, List.mapM_map, Function.comp_def, Function.comp_def]
  exact Outcome.mapM_eq_ok_map hnested

/-- The published schema is accepted, and it has the type of the values exactly
when every tag is one that is read. -/
theorem published_agrees_iff (hc : crates.ReadsPlain) {dispositions : Dispositions} {schema : ZodShape}
    (h : schemaJson schema dispositions = .ok json) :
    ∃ block, blockFromSchemaValue crates json = .ok block ∧
      ((∃ ref, referenceType dispositions schema = .ok ref ∧ Ty.Agree block.ctyType ref) ↔
        typesKept dispositions schema = true) := by
  obtain ⟨out, hout, hjson⟩ := Outcome.bind_eq_ok.mp h
  obtain ⟨attributes, blocks, rfl, hattrs, hblocks⟩ := schemaField_foldlM hout
  obtain rfl := Except.ok.inj hjson
  simp only [List.nil_append]
  obtain ⟨schemas, hschemas, ty, o, hty, hmembers⟩ :=
      attributes_read hc (attributeFromSchema_writes dispositions) hattrs
  obtain ⟨nested, hnested, hmember⟩ := blocks_read hc hblocks
  refine ⟨_, blockFromSchemaValue_contents hschemas hnested, ?_⟩
  let g := fun p : String × Zod => if dispositions.isBlock p.1 p.2 then (nested p).ctyType
    else rewritten (dispositions.isSet p.1 p.2) (ty p)
  let optional := fun p : String × Zod => if dispositions.isBlock p.1 p.2 then true else o p
  have hperm : (schemas.map AttributeSchema.member ++
      ((schema.toList.filter fun p => dispositions.isBlock p.1 p.2).map nested).map fun nested =>
        (⟨nested.name, nested.ctyType, true⟩ : ObjectAttr)).Perm
      (schema.toList.map fun p => ⟨p.1, g p, optional p⟩) := by
    refine .trans (.of_eq ?_) (split_perm schema.toList (fun p => dispositions.isBlock p.1 p.2) _)
    rw [hmembers, List.map_map]
    congr 1
    · apply List.map_congr_left
      intro p hp
      have hattr : dispositions.isBlock p.1 p.2 = false := by simpa using (List.mem_filter.mp hp).2
      simp only [g, optional, hattr, Bool.false_eq_true, if_false]
    · apply List.map_congr_left
      intro p hp
      simp only [g, optional, (List.mem_filter.mp hp).2, if_true, Function.comp, (hmember p hp).1]
  rw [Block.ctyType_eq, referenceType, typesKept, List.all_eq_true]
  refine (agree_published schema.nodup_toList hperm).trans ?_
  apply forall₂_congr
  intro p hp
  rw [Bool.and_eq_true, bne_iff_ne]
  apply and_congr_right
  intro _
  cases hblock : dispositions.isBlock p.1 p.2 with
  | true =>
      simp only [g, hblock, if_true]
      exact (hmember p (List.mem_filter.mpr ⟨hp, hblock⟩)).2
  | false =>
      obtain ⟨ref, href, hiff⟩ := rewritten_agree_iff (dispositions.isSet p.1 p.2)
        (dispositions.outerSet p.1) (hty p (List.mem_filter.mpr ⟨hp, by rw [hblock]; rfl⟩))
      simp only [g, hblock, Bool.false_eq_true, if_false]
      rw [← hiff, href]
      simp

end

def firewallSchema : ZodShape :=
  .ofList [("tags", .wrapper {} .optional (.array { set := some true } (.leaf {} .string))),
    ("rules", .array { block := some true } (.object {} (.ofList
      [("port", .leaf {} .number), ("cidrs", .array { set := some true } (.leaf {} .string))] (by decide))))]
        (by decide)

theorem firewall_published : ∃ json block ref, schemaJson firewallSchema {} = .ok json ∧
    blockFromSchemaValue Crates.real json = .ok block ∧ referenceType {} firewallSchema = .ok ref ∧
    Ty.Agree block.ctyType ref := by
  obtain ⟨json, hjson⟩ : ∃ json, schemaJson firewallSchema {} = .ok json := ⟨_, rfl⟩
  obtain ⟨block, hblock, hiff⟩ := published_agrees_iff Crates.real_readsPlain hjson
  obtain ⟨ref, href, hagree⟩ := hiff.mpr (by rfl)
  exact ⟨json, block, ref, hjson, hblock, href, hagree⟩

def limitsSchema : ZodShape :=
  .ofList [("limits", .record { block := some true } (.leaf {} .string) (.leaf {} .number))] (by decide)

/-- The block is published without attributes, the map is lost. -/
theorem limits_lost : ∃ json block ref, schemaJson limitsSchema {} = .ok json ∧
    blockFromSchemaValue Crates.real json = .ok block ∧ referenceType {} limitsSchema = .ok ref ∧
    ¬Ty.Agree block.ctyType ref := by
  have hnested : nestedBlockFromValue Crates.real (BlockJson.toJson ⟨"limits", .single, 1, 1, []⟩) =
      .ok ⟨"limits", .single, ⟨[], []⟩, 1, 1⟩ := nestedBlockFromValue_toJson Crates.real_readsPlain rfl
  have hblocks : [BlockJson.toJson ⟨"limits", .single, 1, 1, []⟩].mapM (nestedBlockFromValue Crates.real) =
      .ok [⟨"limits", .single, ⟨[], []⟩, 1, 1⟩] := by
    rw [List.mapM_cons, hnested]
    rfl
  have hattrs : (([] : List AttributeJson).map AttributeJson.toJson).mapM (attributeFromValue Crates.real) =
      .ok [] := rfl
  refine ⟨_, _, .object [⟨"limits", .map .number, false⟩], rfl,
    blockFromSchemaValue_contents hattrs hblocks, rfl, ?_⟩
  intro h
  rw [Block.ctyType_eq] at h
  have hagree := ((Ty.Agree.object_iff (by simp)).mp h).2 ⟨"limits", .object [], true⟩ (List.mem_singleton_self _)
    ⟨"limits", .map .number, false⟩ (List.mem_singleton_self _) rfl
  cases hagree

end TofuSdk
