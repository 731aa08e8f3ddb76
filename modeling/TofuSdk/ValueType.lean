import TofuSdk.NativeBlock
import TofuSdk.Agree
import TofuSdk.Constraint

namespace TofuSdk

def Ty.asSet : Ty → Ty
  | .list elem => .set elem
  | ty => ty

def optionalFields (shape : ZodShape) : List String := (shape.toList.filter (·.2.peel.optional)).map Prod.fst

def objectType (shape : ZodShape) (types : List (String × Ty)) : Ty :=
  .object ((OrdMap.ofList (types.filter (·.1 ≠ protoKey))).toList.map fun p =>
    ⟨p.1, p.2, (optionalFields shape).contains p.1⟩)

mutual

/-- The type of a schema's values. With tags an array is a set where it is
tagged as one, by itself or by what is around it. -/
def valueType (tags : Bool) (outer : Option Bool) (t : Zod) : Except String Ty :=
  match t with
  | .leaf _ type => type.cty >>= Ty.fromCtyJson
  | .array m element =>
      (if tags && outer.or m.set == some true then Ty.set else Ty.list) <$> valueType tags none element
  | .set _ element =>
      if isScalar element then Ty.set <$> valueType tags none element else .error "z.set(...) of collections"
  | .record _ _ element => Ty.map <$> valueType tags none element
  | .object _ shape => objectType shape <$> (shapeTypes tags shape).toList.mapM fun p => (p.1, ·) <$> p.2
  | .pipe m _ input _ => valueType tags (outer.or m.set) input
  | .wrapper m _ innerType => valueType tags (outer.or m.set) innerType
termination_by structural t

def shapeTypes (tags : Bool) (shape : ZodShape) : Entries (Except String Ty) :=
  match shape with
  | ⟨keys, nodup, val⟩ => ⟨keys, nodup, fun i => valueType tags none (val i)⟩
termination_by structural shape

end

def Dispositions.outerSet (dispositions : Dispositions) (name : String) : Option Bool :=
  if dispositions.set.contains name then some true else none

def referenceType (dispositions : Dispositions) (schema : ZodShape) : Except String Ty :=
  objectType schema <$> schema.toList.mapM fun p => (p.1, ·) <$> valueType true (dispositions.outerSet p.1) p.2

section

variable {tags : Bool} {outer : Option Bool} {t : Zod} {shape shape' : ZodShape} {l : List (String × Zod)}
  {g r : String × Zod → Ty} {json : Json} {ty : Ty}

theorem shapeTypes_eq (tags : Bool) (shape : ZodShape) : shapeTypes tags shape = shape.map (valueType tags none) := by
  cases shape
  rfl

theorem valueType_object (m : TfMeta) (shape : ZodShape) : valueType tags outer (.object m shape) =
    objectType shape <$> shape.toList.mapM fun p => (p.1, ·) <$> valueType tags none p.2 := by
  rw [valueType, shapeTypes_eq, Entries.toList_map, List.mapM_map]
  rfl

theorem objectType_perm (shape : ZodShape) (hl : (l.map Prod.fst).Nodup) (g : String × Zod → Ty) :
    ∃ attrs, objectType shape (l.map fun p => (p.1, g p)) = .object attrs ∧
      attrs.Perm ((l.filter (·.1 ≠ protoKey)).map fun p => ⟨p.1, g p, (optionalFields shape).contains p.1⟩) := by
  refine ⟨_, rfl, ?_⟩
  have hnodup : (((l.filter (·.1 ≠ protoKey)).map fun p => (p.1, g p)).map Prod.fst).Nodup := by
    rw [List.map_map]
    exact hl.sublist (List.filter_sublist.map _)
  have hperm := (OrdMap.toList_ofList_perm hnodup).map fun p : String × Ty =>
    (⟨p.1, p.2, (optionalFields shape).contains p.1⟩ : ObjectAttr)
  rw [List.map_map] at hperm
  rwa [List.filter_map]

theorem nodup_names (hl : (l.map Prod.fst).Nodup) {f : String × Zod → ObjectAttr} (hf : ∀ p, (f p).name = p.1) :
    ((l.map f).map (·.name)).Nodup := by
  rw [List.map_map]
  exact (congrArg List.Nodup (List.map_congr_left fun p _ => hf p)).mpr hl

theorem agree_objectType (hl : (l.map Prod.fst).Nodup) :
    Ty.Agree (objectType shape (l.map fun p => (p.1, g p))) (objectType shape' (l.map fun p => (p.1, r p))) ↔
      ∀ p ∈ l, p.1 ≠ protoKey → Ty.Agree (g p) (r p) := by
  obtain ⟨attrs, hattrs, hp⟩ := objectType_perm shape hl g
  obtain ⟨attrs', hattrs', hp'⟩ := objectType_perm shape' hl r
  have hown : ((l.filter (·.1 ≠ protoKey)).map Prod.fst).Nodup := hl.sublist (List.filter_sublist.map _)
  rw [hattrs, hattrs', Ty.Agree.object_perm_left ((hp.map _).nodup_iff.mpr (nodup_names hown fun _ => rfl)) hp,
    Ty.Agree.object_perm_right ((hp'.map _).nodup_iff.mpr (nodup_names hown fun _ => rfl)) hp',
    Ty.Agree.object_map_iff hown]
  simp [List.mem_filter]

/-- The attributes that a block publishes, one for each field, against the
object type of the fields, if all of them have a type. -/
theorem agree_published {attrs : List ObjectAttr} {o : String × Zod → Bool} {read : String × Zod → Except String Ty}
    (hl : (l.map Prod.fst).Nodup) (hattrs : attrs.Perm (l.map fun p => ⟨p.1, g p, o p⟩)) :
    (∃ ref, objectType shape <$> (l.mapM fun p => (p.1, ·) <$> read p) = .ok ref ∧ Ty.Agree (.object attrs) ref) ↔
      ∀ p ∈ l, p.1 ≠ protoKey ∧ ∃ ty, read p = .ok ty ∧ Ty.Agree (g p) ty := by
  have hnodup := (hattrs.map (·.name)).nodup_iff.mpr (nodup_names hl fun _ => rfl)
  constructor
  · rintro ⟨ref, href, hagree⟩
    obtain ⟨types, htypes, rfl⟩ := Outcome.map_eq_ok.mp href
    have : Nonempty Ty := ⟨.dynamic⟩
    obtain ⟨r, hr, rfl⟩ := Outcome.mapM_keyed htypes
    obtain ⟨attrs', hattrs', hp'⟩ := objectType_perm shape hl r
    rw [hattrs'] at hagree
    have hnames := ((hattrs.map _).symm.trans ((Ty.Agree.object_iff hnodup).mp hagree).1).trans (hp'.map _)
    rw [List.map_map, List.map_map] at hnames
    have hown : ∀ p ∈ l, p.1 ≠ protoKey := by
      intro p hp
      obtain ⟨q, hq, heq⟩ := List.mem_map.mp (hnames.mem_iff.mp (List.mem_map_of_mem hp))
      have hne := (List.mem_filter.mp hq).2
      rw [decide_eq_true_eq] at hne
      exact fun h => hne (heq.trans h)
    intro p hp
    refine ⟨hown p hp, r p, hr p hp, ?_⟩
    exact ((Ty.Agree.object_iff hnodup).mp hagree).2 _ (hattrs.mem_iff.mpr (List.mem_map_of_mem hp)) _
      (hp'.mem_iff.mpr (List.mem_map_of_mem (List.mem_filter.mpr ⟨hp, decide_eq_true (hown p hp)⟩))) rfl
  · intro h
    have hty : ∀ p ∈ l, ∃ ty, read p = .ok ty ∧ Ty.Agree (g p) ty := fun p hp => (h p hp).2
    have : Nonempty Ty := ⟨.dynamic⟩
    choose! r hr hagree using hty
    refine ⟨objectType shape (l.map fun p => (p.1, r p)), ?_, ?_⟩
    · rw [Outcome.mapM_eq_ok_map (g := fun p => (p.1, r p)) fun p hp => by rw [hr p hp, Outcome.map_ok],
        Outcome.map_ok]
    · obtain ⟨attrs', hattrs', hp'⟩ := objectType_perm shape hl r
      have hall : l.filter (·.1 ≠ protoKey) = l := List.filter_eq_self.mpr fun p hp => decide_eq_true (h p hp).1
      rw [hall] at hp'
      rw [hattrs', Ty.Agree.object_perm_left hnodup hattrs,
        Ty.Agree.object_perm_right ((hp'.map _).nodup_iff.mpr (nodup_names hl fun _ => rfl)) hp',
        Ty.Agree.object_map_iff hl]
      exact hagree

theorem LeafType.cty_ok {type : LeafType} (h : type.cty = .ok json) :
    json.plain = true ∧ asSet json = json ∧ ∃ ty, Ty.fromCtyJson json = .ok ty ∧ ty.asSet = ty := by
  cases type with
  | literal values =>
      cases h
      rcases values with _ | ⟨v, values⟩
      · exact ⟨rfl, rfl, .string, rfl, rfl⟩
      · cases v with
        | bool b => exact ⟨rfl, rfl, .bool, rfl, rfl⟩
        | number x => exact ⟨rfl, rfl, .number, rfl, rfl⟩
        | _ => exact ⟨rfl, rfl, .string, rfl, rfl⟩
  | _ =>
      cases h <;> exact ⟨rfl, rfl, _, rfl, rfl⟩

theorem fromCtyJson_fields {f : String × Zod → Json} (rest : List Json)
    (h : ∀ p ∈ l, Ty.fromCtyJson (f p) = .ok (r p)) :
    Ty.fromCtyJson (.array (.string "object" :: .object (OrdMap.ofList (l.map fun p => (p.1, f p))) :: rest)) =
      .ok (.object ((OrdMap.ofList (l.map fun p => (p.1, r p))).toList.map fun p =>
        ⟨p.1, p.2, (Ty.optionalNames rest).contains p.1⟩)) := by
  change (fun types : List (String × Ty) => Ty.object (types.map fun p =>
    ⟨p.1, p.2, (Ty.optionalNames rest).contains p.1⟩)) <$>
      (Ty.fieldsFromCtyJson (OrdMap.ofList (l.map fun p => (p.1, f p)))).toList.mapM (fun p => (p.1, ·) <$> p.2) = _
  have hmap : ∀ {α : Type} (w : String × Zod → α), OrdMap.ofList (l.map fun p => (p.1, w p)) =
      (OrdMap.ofList (l.map fun p => (p.1, p))).map w := by
    intro α w
    rw [OrdMap.map_ofList, List.map_map]
    rfl
  rw [Ty.fieldsFromCtyJson_eq, hmap f, hmap r, OrdMap.toList_map, OrdMap.toList_map, OrdMap.toList_map, List.map_map,
    List.mapM_map, Outcome.mapM_eq_ok_map (g := fun p => (p.1, r p.2)), Outcome.map_ok]
  intro p hp
  obtain ⟨q, hq, heq⟩ := List.mem_map.mp (OrdMap.mem_of_get?_ofList (OrdMap.mem_toList.mp hp))
  obtain ⟨-, rfl⟩ := Prod.mk.inj heq
  simp [h _ hq]

theorem fromCtyJson_objectCty {f : String × Zod → Json} (h : ∀ p ∈ l, Ty.fromCtyJson (f p) = .ok (r p)) :
    Ty.fromCtyJson (objectCty shape (l.map fun p => (p.1, f p))) =
        .ok (objectType shape (l.map fun p => (p.1, r p))) := by
  have hread : ∀ rest, Ty.optionalNames rest = optionalFields shape →
      Ty.fromCtyJson (.array (.string "object" ::
        .object (OrdMap.ofList ((l.map fun p => (p.1, f p)).filter (·.1 ≠ protoKey))) :: rest)) =
        .ok (objectType shape (l.map fun p => (p.1, r p))) := by
    intro rest hrest
    rw [objectType, List.filter_map, List.filter_map, ← hrest]
    exact fromCtyJson_fields rest fun p hp => h p (List.mem_filter.mp hp).1
  rw [objectCty]
  split_ifs with hempty
  · apply hread []
    rw [List.isEmpty_iff, List.map_eq_nil_iff] at hempty
    rw [optionalFields, hempty]
    rfl
  · apply hread [_]
    simp [Ty.optionalNames, optionalFields, List.filterMap_map, Function.comp_def, Json.asString]

theorem asSet_objectCty (shape : ZodShape) (types : List (String × Json)) :
    asSet (objectCty shape types) = objectCty shape types := by
  rw [objectCty]
  split_ifs <;> rfl

theorem valueType_untagged (outer : Option Bool) (h : ctyFromZod t = .ok json) :
    ∃ ty, valueType false outer t = .ok ty ∧
    Ty.fromCtyJson json = .ok ty ∧ Ty.fromCtyJson (asSet json) = .ok ty.asSet := by
  induction t using Zod.induct generalizing json outer with
  | leaf m type =>
      rw [ctyFromZod] at h
      obtain ⟨-, hasSet, ty, hty, hasSetTy⟩ := LeafType.cty_ok h
      rw [hasSet, valueType, h]
      exact ⟨ty, hty, hty, hasSetTy.symm ▸ hty⟩
  | array m element ih =>
      obtain ⟨elem, helem, rfl⟩ := Outcome.map_eq_ok.mp h
      obtain ⟨ty, hval, hty, -⟩ := ih none helem
      refine ⟨.list ty, ?_, ?_, ?_⟩
      · rw [valueType, hval]
        rfl
      · rw [Ty.fromCtyJson, Ty.firstType, hty]
        rfl
      · rw [asSet, Ty.fromCtyJson, Ty.firstType, hty]
        rfl
  | set m element ih =>
      rw [ctyFromZod] at h
      split_ifs at h with hscalar
      obtain ⟨elem, helem, rfl⟩ := Outcome.map_eq_ok.mp h
      obtain ⟨ty, hval, hty, -⟩ := ih none helem
      have hread : Ty.fromCtyJson (.array [.string "set", elem]) = .ok (.set ty) := by
        rw [Ty.fromCtyJson, Ty.firstType, hty]
        rfl
      refine ⟨.set ty, ?_, hread, hread⟩
      rw [valueType, if_pos hscalar, hval]
      rfl
  | record m keyType element _ ih =>
      obtain ⟨elem, helem, rfl⟩ := Outcome.map_eq_ok.mp h
      obtain ⟨ty, hval, hty, -⟩ := ih none helem
      have hread : Ty.fromCtyJson (.array [.string "map", elem]) = .ok (.map ty) := by
        rw [Ty.fromCtyJson, Ty.firstType, hty]
        rfl
      refine ⟨.map ty, ?_, hread, hread⟩
      rw [valueType, hval]
      rfl
  | object m shape ih =>
      rw [ctyFromZod_object] at h
      obtain ⟨types, htypes, rfl⟩ := Outcome.map_eq_ok.mp h
      obtain ⟨f, hf, rfl⟩ := Outcome.mapM_keyed htypes
      have hty : ∀ p ∈ shape.toList, ∃ ty, valueType false none p.2 = .ok ty ∧ Ty.fromCtyJson (f p) = .ok ty := by
        intro p hp
        obtain ⟨ty, hval, hread, -⟩ := ih p hp none (hf p hp)
        exact ⟨ty, hval, hread⟩
      have : Nonempty Ty := ⟨.dynamic⟩
      choose! r hval hread using hty
      rw [asSet_objectCty, fromCtyJson_objectCty hread]
      refine ⟨_, ?_, rfl, rfl⟩
      rw [valueType_object, Outcome.mapM_eq_ok_map (g := fun p => (p.1, r p)), Outcome.map_ok]
      intro p hp
      rw [hval p hp, Outcome.map_ok]
  | pipe m codec input output ih _ => exact ih _ h
  | wrapper m type innerType ih => exact ih _ h

theorem plain_asSet (h : json.plain = true) : (asSet json).plain = true := by
  unfold asSet
  split
  · simp only [Json.plain, Json.plainItems, Bool.and_eq_true] at h ⊢
    exact ⟨trivial, h.2.1, trivial⟩
  · exact h

theorem plain_objectCty {f : String × Zod → Json} (h : ∀ p ∈ l, (f p).plain = true) :
    (objectCty shape (l.map fun p => (p.1, f p))).plain = true := by
  have hfields : (Json.object (OrdMap.ofList ((l.map fun p => (p.1, f p)).filter (·.1 ≠ protoKey)))).plain = true := by
    rw [Json.plain, Json.plainFields_iff]
    intro k json hk
    obtain ⟨p, hp, heq⟩ := List.mem_map.mp (List.mem_filter.mp (OrdMap.mem_of_get?_ofList hk)).1
    obtain ⟨-, rfl⟩ := Prod.mk.inj heq
    exact h p hp
  have hnames : Json.plainItems ((shape.toList.filter (·.2.peel.optional)).map fun p => Json.string p.1) = true := by
    rw [Json.plainItems_iff]
    intro json hj
    obtain ⟨p, -, rfl⟩ := List.mem_map.mp hj
    rfl
  rw [objectCty]
  split_ifs <;> simp only [Json.plain, Json.plainItems, hnames, Bool.and_true] <;> exact hfields

theorem plain_ctyFromZod (h : ctyFromZod t = .ok json) : json.plain = true := by
  induction t using Zod.induct generalizing json with
  | leaf m type =>
      obtain ⟨hplain, -⟩ := LeafType.cty_ok h
      exact hplain
  | array m element ih =>
      obtain ⟨elem, helem, rfl⟩ := Outcome.map_eq_ok.mp h
      simp [Json.plain, Json.plainItems, ih helem]
  | set m element ih =>
      rw [ctyFromZod] at h
      split_ifs at h
      obtain ⟨elem, helem, rfl⟩ := Outcome.map_eq_ok.mp h
      simp [Json.plain, Json.plainItems, ih helem]
  | record m keyType element _ ih =>
      obtain ⟨elem, helem, rfl⟩ := Outcome.map_eq_ok.mp h
      simp [Json.plain, Json.plainItems, ih helem]
  | object m shape ih =>
      rw [ctyFromZod_object] at h
      obtain ⟨types, htypes, rfl⟩ := Outcome.map_eq_ok.mp h
      obtain ⟨f, hf, rfl⟩ := Outcome.mapM_keyed htypes
      exact plain_objectCty fun p hp => ih p hp (hf p hp)
  | pipe m codec input output ih _ => exact ih h
  | wrapper m type innerType ih => exact ih h

theorem distinctNames_valueType (h : valueType tags outer t = .ok ty) : ty.distinctNames = true := by
  induction t using Zod.induct generalizing outer ty with
  | leaf m type =>
      rw [valueType] at h
      cases type with
      | literal values =>
          rcases values with _ | ⟨v, values⟩
          · cases h
            rfl
          · cases v <;> cases h <;> rfl
      | _ => cases h <;> rfl
  | array m element ih =>
      obtain ⟨elem, helem, rfl⟩ := Outcome.map_eq_ok.mp h
      have hdistinct := ih helem
      split_ifs <;> exact hdistinct
  | set m element ih =>
      rw [valueType] at h
      split_ifs at h
      obtain ⟨elem, helem, rfl⟩ := Outcome.map_eq_ok.mp h
      have hdistinct := ih helem
      exact hdistinct
  | record m keyType element _ ih =>
      obtain ⟨elem, helem, rfl⟩ := Outcome.map_eq_ok.mp h
      have hdistinct := ih helem
      exact hdistinct
  | object m shape ih =>
      rw [valueType_object] at h
      obtain ⟨types, htypes, rfl⟩ := Outcome.map_eq_ok.mp h
      refine Ty.distinctNames_object.mpr ⟨?_, ?_⟩
      · rw [List.map_map]
        have hkeys := (OrdMap.ofList (types.filter (·.1 ≠ protoKey))).keys_nodup
        rw [← OrdMap.map_fst_toList] at hkeys
        exact hkeys
      · intro attr hattr
        obtain ⟨p, hp, rfl⟩ := List.mem_map.mp hattr
        have hmem := (List.mem_filter.mp (OrdMap.mem_of_get?_ofList (OrdMap.mem_toList.mp hp))).1
        obtain ⟨q, hq, hty⟩ := Outcome.exists_of_mem_results htypes p hmem
        obtain ⟨ty, hval, rfl⟩ := Outcome.map_eq_ok.mp hty
        exact ih q hq hval
  | pipe m codec input output ih _ => exact ih h
  | wrapper m type innerType ih => exact ih h

theorem valueType_peel (tags : Bool) :
    valueType tags outer t = valueType tags (outer.or t.peel.tfMeta.set) t.peel.core := by
  induction t using Zod.induct generalizing outer with
  | wrapper m type innerType ih =>
      rw [valueType, ih, Zod.peel_core_wrapper, Zod.peel_tfMeta_wrapper, TfMeta.spread, Option.or_assoc]
  | _ => simp [Zod.peel, Zod.peelFrom, TfMeta.spread, Zod.ownMeta, valueType, Option.or_assoc]

theorem valueType_scalar (h : isScalar t = true) : valueType true outer t = valueType false none t := by
  rw [valueType_peel true, valueType_peel false]
  rw [isScalar] at h
  cases hcore : t.peel.core with
  | leaf m type => rw [valueType, valueType]
  | _ => simp [hcore] at h

end

end TofuSdk
