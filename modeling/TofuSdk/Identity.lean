import TofuSdk.Reflect
import TofuSdk.Sent
import TofuSdk.Upgrade

namespace TofuSdk

open ValueOf

def IdentitySchema.ctyType (identity : IdentitySchema) : Ty :=
  .object (identity.attributes.map fun attr => ⟨attr.name, attr.ty, false⟩)

namespace Shape

def identityAttributes {φ : Type} (fields : StructFields φ) : Except ReflectError (List IdentityAttribute) :=
  match fields with
  | .nil => .ok []
  | .cons field shape rest =>
      if field.attrs.identity then do
        let ty ← shape.mapType field.key
        let attributes ← identityAttributes rest
        pure (⟨field.key, ty⟩ :: attributes)
      else identityAttributes rest

/-- The identity of a model: its marked fields, none if no field is marked. -/
def identityFromShape {α : Type} (shape : Shape α) : Except ReflectError (Option IdentitySchema) :=
  match shape with
  | .struct fields => (fun attributes => if attributes.isEmpty then none else some ⟨attributes⟩) <$>
      identityAttributes fields
  | .formatProxy shape => identityFromShape shape
  | _ => .error .notAStruct
termination_by structural shape

theorem reflects_identityAttributes {φ : Type} {fields : StructFields φ} {attributes : List IdentityAttribute}
    (h : identityAttributes fields = .ok attributes) :
    (attributes.map (·.name)).Sublist fields.keys ∧ ∀ attr ∈ attributes, Reflects (distinctFields fields) attr.ty := by
  induction fields using StructFields.rec (motive_1 := fun _ _ => True) generalizing attributes with
  | nil =>
      obtain rfl := Except.ok.inj h
      exact ⟨.slnil, by simp⟩
  | cons field shape rest _ ih =>
      rw [identityAttributes] at h
      split_ifs at h with hmarked
      · obtain ⟨ty, hty, h⟩ := Outcome.bind_eq_ok.mp h
        obtain ⟨attributes', hattributes, h⟩ := Outcome.bind_eq_ok.mp h
        obtain rfl := Except.ok.inj h
        obtain ⟨hnames, hall⟩ := ih hattributes
        have hfield := reflects_mapType shape hty
        refine ⟨hnames.cons_cons field.key, ?_⟩
        intro attr ha
        rcases List.mem_cons.mp ha with rfl | ha
        · exact ⟨hfield.isStatic, fun hd => hfield.distinctNames (Bool.and_eq_true _ _ ▸ hd).1⟩
        · exact ⟨(hall attr ha).isStatic, fun hd => (hall attr ha).distinctNames (Bool.and_eq_true _ _ ▸ hd).2⟩
      · obtain ⟨hnames, hall⟩ := ih h
        refine ⟨hnames.cons field.key, ?_⟩
        exact fun attr ha =>
          ⟨(hall attr ha).isStatic, fun hd => (hall attr ha).distinctNames (Bool.and_eq_true _ _ ▸ hd).2⟩
  | _ => trivial

theorem reflects_identity {α : Type} {shape : Shape α} {identity : IdentitySchema} (hd : shape.distinctNames = true)
    (h : shape.identityFromShape = .ok (some identity)) :
    identity.ctyType.isStatic = true ∧ identity.ctyType.distinctNames = true := by
  induction shape using Shape.rec (motive_2 := fun _ _ => True) with
  | struct fields =>
      obtain ⟨attributes, hattributes, h⟩ := Outcome.map_eq_ok.mp h
      split_ifs at h
      obtain rfl := Option.some.inj h
      obtain ⟨hnames, hall⟩ := reflects_identityAttributes hattributes
      obtain ⟨hnodup, hfields⟩ := Bool.and_eq_true _ _ ▸ hd
      have hnodup : (attributes.map (·.name)).Nodup := (of_decide_eq_true hnodup).sublist hnames
      rw [IdentitySchema.ctyType, Ty.isStatic_object, Ty.distinctNames_object, List.map_map]
      refine ⟨List.forall_mem_map.mpr fun attr ha => (hall attr ha).isStatic, hnodup, ?_⟩
      exact List.forall_mem_map.mpr fun attr ha => (hall attr ha).distinctNames hfields
  | formatProxy shape ih => exact ih hd h
  | nil | cons => trivial
  | _ => cases h

theorem identityAttributes_objectType {φ : Type} {fields : StructFields φ} {attributes : List IdentityAttribute}
    (h : identityAttributes fields = .ok attributes) {path : String} {attrs : List ObjectAttr}
    (hattrs : objectType fields path = .ok attrs) :
    ∀ attr ∈ attributes, ∃ attr' ∈ attrs, attr'.name = attr.name ∧ attr'.ty = attr.ty := by
  induction fields using StructFields.rec (motive_1 := fun _ _ => True) generalizing attributes attrs with
  | nil =>
      obtain rfl := Except.ok.inj h
      simp
  | cons field shape rest _ ih =>
      rw [objectType] at hattrs
      obtain ⟨ty, hty, hattrs⟩ := Outcome.bind_eq_ok.mp hattrs
      obtain ⟨attrs', hrest, hattrs⟩ := Outcome.bind_eq_ok.mp hattrs
      obtain rfl := Except.ok.inj hattrs
      rw [identityAttributes] at h
      have hmem : ∀ attributes', identityAttributes rest = .ok attributes' → ∀ attr ∈ attributes', ∃ attr' ∈
          (⟨field.key, ty, shape.isNullable || field.attrs.optional⟩ :: attrs' : List ObjectAttr),
            attr'.name = attr.name ∧ attr'.ty = attr.ty := by
        intro attributes' h' attr ha
        obtain ⟨attr', ha', hsame⟩ := ih h' hrest attr ha
        exact ⟨attr', List.mem_cons_of_mem _ ha', hsame⟩
      by_cases hmarked : field.attrs.identity = true
      · rw [if_pos hmarked] at h
        obtain ⟨ty', hty', h⟩ := Outcome.bind_eq_ok.mp h
        obtain ⟨attributes', h', h⟩ := Outcome.bind_eq_ok.mp h
        obtain rfl := Except.ok.inj h
        obtain rfl : ty = ty' := Except.ok.inj (hty.symm.trans (mapType_path shape hty'))
        intro attr ha
        rcases List.mem_cons.mp ha with rfl | ha
        · exact ⟨_, List.mem_cons_self, rfl, rfl⟩
        · exact hmem attributes' h' attr ha
      · rw [if_neg hmarked] at h
        exact hmem attributes h
  | _ => trivial

theorem identity_members {α : Type} {shape : Shape α} (hd : shape.distinctNames = true) {block : Block}
    (hblock : shape.blockFromShape = .ok block) {identity : IdentitySchema}
    (h : shape.identityFromShape = .ok (some identity)) :
    ∀ attr ∈ identity.attributes, ∃ attr' ∈ block.members, attr'.name = attr.name ∧ attr.ty.Agree attr'.ty := by
  induction shape using Shape.rec (motive_2 := fun _ _ => True) with
  | struct fields =>
      obtain ⟨attributes, hattributes, h⟩ := Outcome.map_eq_ok.mp h
      split_ifs at h
      obtain rfl := Option.some.inj h
      obtain ⟨ty, hty, hagree⟩ := (agree_blockFromShape _ hd "").1 block hblock
      obtain ⟨attrs, hattrs, rfl⟩ := Outcome.map_eq_ok.mp hty
      obtain ⟨members, hmembers, hall⟩ := hagree.object_left
      obtain rfl := Ty.object.inj (block.ctyType_eq_members.symm.trans hmembers)
      intro attr ha
      obtain ⟨attr', ha', hname, hty'⟩ := identityAttributes_objectType hattributes hattrs attr ha
      obtain ⟨member, hmember, hname', hagree'⟩ := hall attr' ha'
      exact ⟨member, hmember, hname'.trans hname, hty' ▸ hagree'⟩
  | formatProxy shape ih => exact ih hd hblock h
  | nil | cons => trivial
  | _ => cases h

end Shape

namespace CtyJson

variable {crates : Crates} {ty : Ty} {v u : Value} {json : Json}

theorem conforms (h : CtyJson ty v json) (hs : ty.isStatic = true) : ConformsWith (fun _ => False) ty v := by
  induction h with
  | null ty => exact .null ty
  | bool b => exact .bool b
  | number n _ hfinite _ => exact .number n hfinite
  | string s => exact .string s
  | list elem items jsons hlen _ ih =>
      rw [conformsWith_list, ← forall_mem_zip_fst hlen]
      exact fun p hp => ih p hp hs
  | set elem items jsons hlen _ ih =>
      rw [conformsWith_set, ← forall_mem_zip_fst hlen]
      exact fun p hp => ih p hp hs
  | tuple elems items jsons hlen hlen' _ ih =>
      rw [conformsWith_tuple hlen, zip_zip_fst hlen', List.forall_mem_map]
      exact fun p hp => ih p hp (Ty.isStatic_tuple.mp hs p.2 (List.of_mem_zip hp).2)
  | map elem entries jsons hkeys _ ih =>
      rw [conformsWith_map]
      intro k v hv
      obtain ⟨json, hjson⟩ := OrdMap.exists_of_keys_eq hkeys.symm hv
      exact ih k v json hv hjson hs
  | object attrs fields jsons hkeys hjsons _ ih =>
      rw [conformsWith_object hkeys]
      intro attr ha
      obtain ⟨json, hjson⟩ := Option.isSome_iff_exists.mp (OrdMap.get?_isSome.mpr
        ((hjsons attr.name).mpr (List.mem_map_of_mem ha)))
      exact ih attr ha json hjson (Ty.isStatic_object.mp hs attr ha)
  | dynamic => cases hs

theorem untyped_of_toMp (hnum : crates.CountsNumbers) (h : CtyJson ty v json) (hs : ty.isStatic = true)
    (hread : decodeJsonDynamic crates json = .ok u)
    {mp : Mp} (henc : toMp crates u ty = .ok mp) : Untyped v := by
  induction h generalizing u mp with
  | null ty => exact .null
  | bool b => exact .bool b
  | number n _ hfinite _ => exact .number n hfinite
  | string s => exact .string s
  | list | set =>
      obtain ⟨us, -, rfl⟩ := Outcome.map_eq_ok.mp hread
      cases henc
  | map =>
      obtain ⟨us, -, rfl⟩ := Outcome.map_eq_ok.mp hread
      cases henc
  | tuple elems items jsons hlen hlen' _ ih =>
      obtain ⟨us, hus, rfl⟩ := Outcome.map_eq_ok.mp hread
      rw [decodeJsonItems_eq] at hus
      choose! w hw using Outcome.ok_of_mem hus
      obtain rfl : jsons.map w = us := Except.ok.inj ((Outcome.mapM_eq_ok_map hw).symm.trans hus)
      obtain ⟨-, hencs⟩ := exists_toMp_tuple.mp ⟨mp, henc⟩
      rw [List.zip_map_left, List.forall_mem_map] at hencs
      refine .tuple items ?_
      rw [← forall_mem_zip_fst hlen, zip_zip_fst hlen', List.forall_mem_map]
      intro p hp
      have hmem : (p.1.2, p.2) ∈ jsons.zip elems := by
        rw [zip_zip_snd hlen' elems]
        exact List.mem_map_of_mem hp
      obtain ⟨mp', hmp'⟩ := hencs _ hmem
      exact ih p hp (Ty.isStatic_tuple.mp hs p.2 (List.of_mem_zip hp).2) (hw _ (List.of_mem_zip hmem).1) hmp'
  | object attrs fields jsons hkeys hjsons hall ih =>
      obtain ⟨entries, hread', hmembers⟩ :=
          (CtyJson.object attrs fields jsons hkeys hjsons hall).document.decodeJsonDynamic_object hnum
      obtain rfl := Except.ok.inj (hread'.symm.trans hread)
      refine .object fields ?_
      intro k v hv
      obtain ⟨attr, ha, rfl⟩ := List.mem_map.mp (hkeys k (OrdMap.get?_isSome.mp (by rw [hv]; rfl)))
      obtain ⟨json, hjson⟩ := Option.isSome_iff_exists.mp (OrdMap.get?_isSome.mpr
        ((hjsons attr.name).mpr (List.mem_map_of_mem ha)))
      obtain ⟨x, hx, hreadx⟩ := hmembers attr.name json hjson
      obtain ⟨mp', hmp'⟩ := exists_toMp_object.mp ⟨mp, henc⟩ attr ha
      rw [hx] at hmp'
      have huntyped := ih attr ha json hjson (Ty.isStatic_object.mp hs attr ha) hreadx hmp'
      rwa [hv] at huntyped
  | dynamic => cases hs

theorem decodeJson_of_untyped (hnum : crates.CountsNumbers) (h : CtyJson ty v json) (hs : ty.isStatic = true)
    (hn : ty.distinctNames = true)
    (hv : Untyped v) : decodeJson crates json ty = decodeJsonDynamic crates json := by
  induction h with
  | null ty => cases ty <;> rfl
  | bool | number | string => rfl
  | list | set | map => cases hv
  | dynamic => cases hs
  | tuple elems items jsons hlen hlen' _ ih =>
      have hlen'' : jsons.length = elems.length := hlen'.symm.trans hlen
      change (if jsons.length ≠ elems.length then _ else _ : Except CodecError Value) = _
      rw [if_neg (not_not.mpr hlen''), decodeJsonDynamic, decodeJsonItems_eq, decodeJsonZip_eq]
      congr 1
      have hfst : jsons.mapM (decodeJsonDynamic crates) =
          (jsons.zip elems).mapM fun p => decodeJsonDynamic crates p.1 := by
        conv_lhs => rw [← List.map_fst_zip hlen''.le, List.mapM_map]
        rfl
      rw [hfst]
      apply Outcome.mapM_congr
      rw [zip_zip_snd hlen' elems, List.forall_mem_map]
      intro p hp
      have huntyped : Untyped p.1.1 := by
        cases hv with
        | tuple _ hitems => exact hitems _ (List.of_mem_zip (List.of_mem_zip hp).1).1
      have ht := (List.of_mem_zip hp).2
      exact ih p hp (Ty.isStatic_tuple.mp hs p.2 ht) (Ty.distinctNames_tuple.mp hn p.2 ht) huntyped
  | object attrs fields jsons hkeys hjsons hall ih =>
      obtain ⟨hnodup, hattrs⟩ := Ty.distinctNames_object.mp hn
      have hmember : ∀ k json, jsons.get? k = some json → ∃ u, decodeJsonDynamic crates json = .ok u := by
        intro k json hk
        obtain ⟨entries, -, hmembers⟩ :=
            (CtyJson.object attrs fields jsons hkeys hjsons hall).document.decodeJsonDynamic_object hnum
        obtain ⟨u, -, hu⟩ := hmembers k json hk
        exact ⟨u, hu⟩
      choose! w hw using hmember
      have hdynamic : decodeJsonFields crates jsons = .ok (jsons.mapWithKey w) := by
        rw [decodeJsonFields_eq]
        apply foldlM_insert_toList (jsons.mapWithKey w) (decodeJsonDynamic crates) rfl
        intro k json u hjson hu
        rw [OrdMap.get?_mapWithKey, hjson] at hu
        rw [hw k json hjson, ← Option.some.inj hu]
      have hread : ∀ attr ∈ attrs, decodeJsonAttr crates jsons attr =
          .ok (((jsons.mapWithKey w).get? attr.name).getD .null) := by
        intro attr ha
        obtain ⟨json, hjson⟩ := Option.isSome_iff_exists.mp (OrdMap.get?_isSome.mpr
          ((hjsons attr.name).mpr (List.mem_map_of_mem ha)))
        have huntyped : Untyped ((fields.get? attr.name).getD .null) := by
          cases hfield : fields.get? attr.name with
          | none => exact .null
          | some x =>
              cases hv with
              | object _ hfields => exact hfields _ x hfield
        rw [decodeJsonAttr, hjson, OrdMap.get?_mapWithKey, hjson]
        change decodeJson crates json attr.ty = _
        rw [ih attr ha json hjson (Ty.isStatic_object.mp hs attr ha) (hattrs attr ha) huntyped]
        exact hw _ json hjson
      change _ <$> decodeJsonAttrs crates jsons attrs OrdMap.empty = _ <$> decodeJsonFields crates jsons
      rw [hdynamic, decodeJsonAttrs_eq, Outcome.foldlM_insert, Outcome.mapM_eq_ok_map
        (g := fun attr => (attr.name, ((jsons.mapWithKey w).get? attr.name).getD .null))]
      · have hrebuilt := OrdMap.ofList_getD hnodup (m := jsons.mapWithKey w) hjsons .null
        exact congrArg (fun m => Except.ok (ValueOf.object m)) hrebuilt
      · intro attr ha
        rw [hread attr ha, Outcome.map_ok]

end CtyJson

def isSet (fields : Fields) (name : String) : Bool :=
  match fields.get? name with
  | some v => !(v.isUnknown || v.isNull)
  | none => false

theorem isSet_iff {fields : Fields} {name : String} :
    isSet fields name = true ↔
      (fields.get? name).getD .null ≠ .null ∧ (fields.get? name).getD .null ≠ .unknown := by
  rw [isSet]
  cases fields.get? name with
  | none => simp
  | some v => cases v <;> simp [isUnknown, isNull]

theorem isSet_of_exact_eq {fields fields' : Fields} (h : fields.map Value.exact = fields'.map Value.exact)
    (name : String) : isSet fields name = isSet fields' name := by
  have hk := congrArg (OrdMap.get? · name) h
  simp only [OrdMap.get?_map] at hk
  unfold isSet
  cases hv : fields.get? name with
  | none =>
      rw [hv, Option.map_none, eq_comm, Option.map_eq_none_iff] at hk
      rw [hk]
  | some v =>
      rw [hv, Option.map_some, eq_comm, Option.map_eq_some_iff] at hk
      obtain ⟨v', hv', he⟩ := hk
      rw [hv']
      cases v <;> cases v' <;> simp at he <;> rfl

def IdentitySchema.project (identity : IdentitySchema) (fields : Fields) : Fields :=
  OrdMap.ofList (identity.attributes.map fun attr => (attr.name, (fields.get? attr.name).getD .null))

theorem IdentitySchema.get?_project {identity : IdentitySchema} (hn : (identity.attributes.map (·.name)).Nodup)
    (fields : Fields) {attr : IdentityAttribute} (ha : attr ∈ identity.attributes) :
    (identity.project fields).get? attr.name = some ((fields.get? attr.name).getD .null) :=
  OrdMap.get?_ofList_map hn _ ha

theorem toMp_object_congr {crates : Crates} {attrs : List ObjectAttr} {fields fields' : Fields}
    (h : ∀ attr ∈ attrs, (fields.get? attr.name).getD .null = (fields'.get? attr.name).getD .null) :
    toMp crates (.object fields) (.object attrs) = toMp crates (.object fields') (.object attrs) := by
  change encodeObject crates fields attrs = encodeObject crates fields' attrs
  rw [encodeObject_eq, encodeObject_eq]
  congr 1
  apply Outcome.mapM_congr
  intro attr ha
  rw [h attr (mem_sortedByName.mp ha)]

namespace Service

variable {crates : Crates}

theorem identityValues_eq {fields : Fields} {attributes : List IdentityAttribute} :
    identityValues fields attributes =
      if attributes.all fun attr => isSet fields attr.name then
        some (attributes.map fun attr => (attr.name, (fields.get? attr.name).getD .null))
      else none := by
  have hstep : ∀ name, ((fields.get? name).bind fun value =>
      if value.isUnknown || value.isNull then none else some (name, value)) =
        if isSet fields name then some (name, (fields.get? name).getD .null) else none := by
    intro name
    rw [isSet]
    cases fields.get? name with
    | none => rfl
    | some v => cases v <;> rfl
  rw [identityValues]
  induction attributes with
  | nil => rfl
  | cons attr attributes ih =>
      rw [List.mapM_cons, ih, hstep, List.all_cons, List.map_cons]
      by_cases hset : isSet fields attr.name = true
      · simp only [hset, if_true, Bool.true_and]
        split_ifs <;> rfl
      · simp only [hset, Bool.false_and]
        rfl

/-- The identity that accompanies a state is the state's encoding under the
type of the identity. -/
theorem knownIdentityData_eq {fields : Fields} {identity : IdentitySchema}
    (hn : (identity.attributes.map (·.name)).Nodup) :
    knownIdentityData crates (.object fields) identity =
      if identity.attributes.all fun attr => isSet fields attr.name then
        (encodeDynamic crates (.object fields) identity.ctyType).toOption.map fun dv => ⟨some dv⟩
      else none := by
  rw [knownIdentityData, identityValues_eq]
  split_ifs with hset
  · have hdata : toMp crates (.object (identity.project fields)) identity.ctyType =
        toMp crates (.object fields) identity.ctyType := by
      apply toMp_object_congr
      rw [List.forall_mem_map]
      intro attr ha
      rw [identity.get?_project hn fields ha, Option.getD_some]
    have henc : encodeDynamic crates (.object (identity.project fields)) identity.ctyType =
        encodeDynamic crates (.object fields) identity.ctyType := by
      rw [encodeDynamic, encodeDynamic, encodeMsgpack, encodeMsgpack, hdata]
    change ((encodeDynamic crates (.object (identity.project fields)) identity.ctyType).toOption.bind fun dv =>
      some (ResourceIdentityData.mk (some dv))) = _
    rw [henc]
    cases encodeDynamic crates (.object fields) identity.ctyType <;> rfl
  · rfl

variable (crates) in
/-- A response carries an identity that stands for a value. -/
def Identifies (data : Option ResourceIdentityData) (ty : Ty) (v : Value) : Prop :=
  ∃ d, data = some d ∧ DecodesTo crates d.identityData ty v

theorem knownIdentityData_eq_some {state : Value} {identity : IdentitySchema} {data : ResourceIdentityData}
    (hn : (identity.attributes.map (·.name)).Nodup) (h : knownIdentityData crates state identity = some data) :
    ∃ fields dv, state = .object fields ∧ data = ⟨some dv⟩ ∧
      encodeDynamic crates (.object fields) identity.ctyType = .ok dv ∧
        ∀ attr ∈ identity.attributes, isSet fields attr.name = true := by
  cases state with
  | object fields =>
      rw [knownIdentityData_eq hn] at h
      split_ifs at h with hset
      obtain ⟨dv, henc, rfl⟩ := Option.map_eq_some_iff.mp h
      exact ⟨fields, dv, rfl, rfl, Outcome.toOption_eq_some.mp henc, List.all_eq_true.mp hset⟩
  | _ => cases h

theorem nodup_of_distinctNames {identity : IdentitySchema} (hn : identity.ctyType.distinctNames = true) :
    (identity.attributes.map (·.name)).Nodup := by
  simpa [List.map_map, Function.comp_def] using (Ty.distinctNames_object.mp hn).1

/-- An identity that the service has emitted is complete, and each of its
attributes is set. -/
theorem emitted (hc : crates.Lawful) (ht : crates.ReadsTypes) {identity : IdentitySchema}
    (hn : identity.ctyType.distinctNames = true) {state v : Value} {data : ResourceIdentityData}
    (hdata : knownIdentityData crates state identity = some data)
    (hv : decodeDynamic crates data.identityData identity.ctyType = .ok v) :
    complete identity.ctyType v = v ∧ ∃ fields, v = .object fields ∧
      ∀ attr ∈ identity.attributes, isSet fields attr.name = true := by
  obtain ⟨fields, dv, rfl, rfl, henc, hset⟩ := knownIdentityData_eq_some (nodup_of_distinctNames hn) hdata
  obtain ⟨mp, hmp, -, hdecode⟩ := decodeDynamic_of_encodeDynamic hc henc
  obtain ⟨w, hw, hattrs⟩ := Readable.attributes (fun _ v _ => readable ht v) hn hmp
  rw [hdecode, IdentitySchema.ctyType, hw] at hv
  obtain rfl := Except.ok.inj hv
  have hnodup := (Ty.distinctNames_object.mp hn).1
  refine ⟨(ReadsAs.object hnodup fun attr ha => (hattrs attr ha).1).complete, _, rfl, ?_⟩
  intro attr ha
  have hmem : (⟨attr.name, attr.ty, false⟩ : ObjectAttr) ∈
      identity.attributes.map fun attr => ⟨attr.name, attr.ty, false⟩ :=
    List.mem_map_of_mem ha
  obtain ⟨hreads, -⟩ := hattrs _ hmem
  rw [isSet_iff, OrdMap.get?_ofList_map hnodup w hmem, Option.getD_some, ne_eq, ne_eq, hreads.null, hreads.unknown]
  exact isSet_iff.mp (hset attr ha)

variable {provider : Provider} {req : UpgradeIdentityRequest} {identity : IdentitySchema}

theorem upgradeResourceIdentity_eq (ht : crates.ReadsTypes)
    (hidentity : provider.resourceIdentity req.typeName = some identity) {raw : Bytes}
    (hraw : req.rawIdentity.map (·.json) = some raw) {json : Json} (hparse : crates.fromSlice raw = .ok json)
    {u : Value}
    (hread : decodeJsonDynamic crates json = .ok u) :
    (upgradeResourceIdentity crates provider req).upgradedIdentity = knownIdentityData crates u identity := by
  simp only [upgradeResourceIdentity, hidentity, hraw]
  cases raw with
  | nil => exact absurd hparse (ht.eof json)
  | cons byte bytes =>
      simp only [hparse, decodeJsonValue, hread]
      cases knownIdentityData crates u identity <;> rfl

theorem untyped_of_identity (hc : crates.Lawful) (hnum : crates.CountsNumbers) (hs : identity.ctyType.isStatic = true)
    (hn : identity.ctyType.distinctNames = true) {v u : Value} {json : Json} (hjson : CtyJson identity.ctyType v json)
    (hread : decodeJsonDynamic crates json = .ok u) {data : ResourceIdentityData}
    (hdata : knownIdentityData crates u identity = some data) : Untyped v := by
  obtain ⟨entries, dv, rfl, -, henc, -⟩ := knownIdentityData_eq_some (nodup_of_distinctNames hn) hdata
  obtain ⟨mp, hmp, -⟩ := decodeDynamic_of_encodeDynamic hc henc
  exact hjson.untyped_of_toMp hnum hs hread hmp

theorem not_identifies_of_unread (hidentity : provider.resourceIdentity req.typeName = some identity) {raw : Bytes}
    (hne : raw ≠ []) (hraw : req.rawIdentity.map (·.json) = some raw) (hparse : ∀ json, crates.fromSlice raw ≠ .ok json)
    (v : Value) :
    ¬Identifies crates (upgradeResourceIdentity crates provider req).upgradedIdentity identity.ctyType v := by
  rintro ⟨d, hdata, -⟩
  simp only [upgradeResourceIdentity, hidentity, hraw] at hdata
  cases raw with
  | nil => exact hne rfl
  | cons byte bytes =>
      cases hread : crates.fromSlice (byte :: bytes) with
      | ok json => exact hparse json hread
      | error e =>
          simp only [hread] at hdata
          cases hdata

/-- A stored identity survives the upgrade call exactly when its text is read,
no list, set or map is in it and no number of it is held as a float just past
the end of an integer type. -/
theorem upgradeIdentity_iff (hc : crates.Lawful) (ht : crates.ReadsTypes) (hnum : crates.CountsNumbers) {α : Type}
    {shape : Shape α} {identity : IdentitySchema} (hd : shape.distinctNames = true)
    (hshape : shape.identityFromShape = .ok (some identity)) {req : UpgradeIdentityRequest}
    (hidentity : provider.resourceIdentity req.typeName = some identity) {state v : Value} {data : ResourceIdentityData}
    (hdata : knownIdentityData crates state identity = some data)
    (hv : decodeDynamic crates data.identityData identity.ctyType = .ok v) {json : Json} {raw : Bytes}
    (hjson : CtyJson identity.ctyType v json) (hraw : req.rawIdentity.map (·.json) = some raw) (hne : raw ≠ [])
    (hparse : ∀ json', crates.fromSlice raw = .ok json' → json' = json) :
    Identifies crates (upgradeResourceIdentity crates provider req).upgradedIdentity identity.ctyType v ↔
      crates.fromSlice raw = .ok json ∧ Untyped v ∧ json.inRange = true := by
  by_cases hparsed : crates.fromSlice raw = .ok json
  case neg =>
    refine iff_of_false (not_identifies_of_unread hidentity hne hraw (fun json' hread => ?_) v) fun h => hparsed h.1
    exact hparsed (hparse json' hread ▸ hread)
  obtain ⟨hs, hn⟩ := Shape.reflects_identity hd hshape
  have hnodup := nodup_of_distinctNames hn
  obtain ⟨hcomplete, fields, rfl, hset⟩ := emitted hc ht hn hdata hv
  obtain ⟨u, hread, -⟩ := hjson.document.decodeJsonDynamic hnum
  rw [upgradeResourceIdentity_eq ht hidentity hraw hparsed hread, and_iff_right hparsed]
  by_cases huntyped : Untyped (.object fields)
  case neg =>
    refine iff_of_false ?_ fun h => huntyped h.1
    rintro ⟨d, hdata', -⟩
    exact huntyped (untyped_of_identity hc hnum hs hn hjson hread hdata')
  rw [and_iff_right huntyped]
  obtain ⟨u', hread', hu⟩ := hjson.reread hnum hn
  rw [hjson.decodeJson_of_untyped hnum hs hn huntyped, hread] at hread'
  obtain rfl := Except.ok.inj hread'
  have hsame : u.exact = Value.exact (.object fields) ↔ json.inRange = true := by
    rw [← hcomplete, hu.same, and_iff_right (hjson.conforms hs)]
  obtain ⟨dv, henc, hdv⟩ := (survives_iff crates hc (fun v h => Untyped.fromMp_toMp_dynamic ht h) hn hu.conforms
    hu.complete).mpr hu.kept
  rw [← hsame]
  constructor
  · rintro ⟨d, hdata', hdecodes⟩
    obtain ⟨entries, dv', rfl, rfl, henc', -⟩ := knownIdentityData_eq_some hnodup hdata'
    obtain rfl := Except.ok.inj (henc'.symm.trans henc)
    exact (decodesTo_iff_exact hdv).mp hdecodes
  · intro hexact
    obtain ⟨entries, rfl⟩ : ∃ entries, u = .object entries := by
      cases u <;> simp at hexact
      exact ⟨_, rfl⟩
    have hset' : (identity.attributes.all fun attr => isSet entries attr.name) = true := by
      rw [List.all_eq_true]
      intro attr ha
      rw [isSet_of_exact_eq (by simpa using hexact)]
      exact hset attr ha
    refine ⟨⟨some dv⟩, ?_, (decodesTo_iff_exact hdv).mpr hexact⟩
    rw [knownIdentityData_eq hnodup, if_pos hset', henc]
    rfl

def labelled {α : Type} (content : Shape α) : Shape (α × Unit) :=
  .struct (.cons { name := "content", attrs := { identity := true } } content .nil)

def label (ty : Ty) : IdentitySchema := ⟨[⟨"content", ty⟩]⟩

def labelledProvider (ty : Ty) : Provider := { jarProvider ty with
  schema := ⟨[⟨"jar", 0, jarBlock ty, some (label ty)⟩], []⟩ }

def upgradeLabel (content : Json) : UpgradeIdentityRequest where
  typeName := "jar"
  rawIdentity := some ⟨Crates.real.toVec (jarJson content)⟩

section

variable {ty : Ty} {content : Json}

theorem resourceIdentity_labelled :
    (labelledProvider ty).resourceIdentity (upgradeLabel content).typeName = some (label ty) := rfl

theorem rawIdentity_label :
    (upgradeLabel content).rawIdentity.map (·.json) = some (Crates.real.toVec (jarJson content)) := by
  rw [upgradeLabel, Option.map_some]

theorem emits_label (hn : (label ty).ctyType.distinctNames = true) {v : Value}
    (hv : ConformsWith (fun _ => False) (label ty).ctyType (jar v))
    (hset : isSet (OrdMap.empty.insert "content" v) "content" = true)
    (hkept : (complete ty v).mapNumber Number.onWire = v) :
    ∃ data, knownIdentityData Crates.real (jar v) (label ty) = some data ∧
      decodeDynamic Crates.real data.identityData (label ty).ctyType = .ok (jar v) := by
  obtain ⟨mp, henc, hdec⟩ := fromMp_toMp (fun _ h => h.elim) hn hv
  have hsame : (complete (label ty).ctyType (jar v)).mapNumber Number.onWire = jar v := by
    change ValueOf.object (mapNumberFields Number.onWire (OrdMap.ofList [("content", complete ty v)])) = _
    rw [mapNumberFields_eq_map, OrdMap.map_ofList]
    exact congrArg jar hkept
  rw [hsame] at hdec
  have hset' : ((label ty).attributes.all fun attr => isSet (OrdMap.empty.insert "content" v) attr.name) = true := by
    simpa [label] using hset
  have hdv : encodeDynamic Crates.real (jar v) (label ty).ctyType = .ok ⟨MessagePack.write mp, []⟩ := by
    rw [encodeDynamic, encodeMsgpack, henc]
    rfl
  refine ⟨⟨some ⟨MessagePack.write mp, []⟩⟩, ?_, (decodeDynamic_of_write Crates.real_lawful rfl [] _).trans hdec⟩
  rw [jar, knownIdentityData_eq (nodup_of_distinctNames hn), if_pos hset', ← jar, hdv]
  rfl

end

theorem upgradeIdentity_string : Identifies Crates.real
    (upgradeResourceIdentity Crates.real (labelledProvider .string) (upgradeLabel (.string "x"))).upgradedIdentity
      (label .string).ctyType (jar (.string "x")) ↔
    Crates.real.fromSlice (Crates.real.toVec (jarJson (.string "x"))) = .ok (jarJson (.string "x")) ∧
      Untyped (jar (.string "x")) ∧ (jarJson (.string "x")).inRange = true := by
  have hjson : CtyJson (label .string).ctyType (jar (.string "x")) (jarJson (.string "x")) := ctyJson_jar (.string "x")
  have hshape : (labelled (.scalar .string)).identityFromShape = .ok (some (label .string)) := rfl
  obtain ⟨data, hdata, hv⟩ := emits_label rfl (hjson.conforms rfl) rfl rfl
  exact upgradeIdentity_iff Crates.real_lawful Crates.real_readsTypes Crates.real_countsNumbers rfl hshape
    resourceIdentity_labelled hdata hv hjson rawIdentity_label (toVec_jar_ne_nil rfl)
    fun _ hread => Except.ok.inj (hread.symm.trans (fromSlice_jar rfl))

/-- A list in an identity comes back as a tuple, and the answer is an error. -/
theorem list_label_lost :
    ∃ data, knownIdentityData Crates.real (jar (.list [.string "x"])) (label (.list .string)) = some data ∧
    decodeDynamic Crates.real data.identityData (label (.list .string)).ctyType = .ok (jar (.list [.string "x"])) ∧
      (labelled (.list (.scalar .string) ⟨fun items => .ok items, id⟩)).identityFromShape =
        .ok (some (label (.list .string))) ∧
        CtyJson (label (.list .string)).ctyType (jar (.list [.string "x"])) (jarJson (.array [.string "x"])) ∧
          ¬Identifies Crates.real (upgradeResourceIdentity Crates.real (labelledProvider (.list .string))
            (upgradeLabel (.array [.string "x"]))).upgradedIdentity (label (.list .string)).ctyType
              (jar (.list [.string "x"])) := by
  have hcontent : CtyJson (.list .string) (.list [.string "x"]) (.array [.string "x"]) :=
    .list .string [.string "x"] [.string "x"] rfl fun p hp => by
      obtain rfl := List.mem_singleton.mp hp
      exact .string "x"
  have hjson : CtyJson (label (.list .string)).ctyType (jar (.list [.string "x"])) (jarJson (.array [.string "x"])) :=
    ctyJson_jar hcontent
  obtain ⟨data, hdata, hv⟩ := emits_label rfl (hjson.conforms rfl) rfl rfl
  refine ⟨data, hdata, hv, rfl, hjson, ?_⟩
  obtain ⟨u, hread, -⟩ := hjson.document.decodeJsonDynamic Crates.real_countsNumbers
  rw [upgradeResourceIdentity_eq Crates.real_readsTypes resourceIdentity_labelled rawIdentity_label (fromSlice_jar rfl)
    hread]
  rintro ⟨d, hdata', -⟩
  have huntyped := untyped_of_identity Crates.real_lawful Crates.real_countsNumbers rfl rfl hjson hread hdata'
  cases huntyped with
  | object _ hfields => cases hfields "content" (.list [.string "x"]) rfl

end Service

end TofuSdk
