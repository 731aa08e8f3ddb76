import TofuSdk.Failure
import TofuSdk.Stored

namespace TofuSdk

open ValueOf

/-- No number of a document is a float just past the end of an integer type. -/
def Json.inRange (json : Json) : Bool := json.everyNumber fun n => !n.pastEnd

/-- What a stored value is read as. It is a value of the type, complete and
fit for the wire, and it is the value that was stored unless a dynamic slot of
that holds something or a number of it is out of range. -/
structure Reread (ty : Ty) (v : Value) (json : Json) (u : Value) : Prop where
  conforms : ConformsWith Untyped ty u
  complete : complete ty u = u
  kept : everyNumber (fun n => !n.saturates) u = true
  same : u.exact = (TofuSdk.complete ty v).exact ↔ ConformsWith (fun _ => False) ty v ∧ json.inRange = true

namespace Reread

variable {elem : Ty} {items : List Value}

theorem list {jsons : List Json} {u : Value × Json → Value} (hlen : items.length = jsons.length)
    (h : ∀ p ∈ items.zip jsons, Reread elem p.1 p.2 (u p)) :
    Reread (.list elem) (.list items) (.array jsons) (.list ((items.zip jsons).map u)) where
  conforms := conformsWith_list.mpr (List.forall_mem_map.mpr fun p hp => (h p hp).conforms)
  complete := by
    rw [TofuSdk.complete, List.map_map, ValueOf.list.injEq, List.map_inj_left]
    exact fun p hp => (h p hp).complete
  kept := by
    rw [everyNumber, everywhere_list, List.forall_mem_map]
    exact ⟨rfl, fun p hp => (h p hp).kept⟩
  same := by
    rw [conformsWith_list, Json.inRange, Json.everyNumber_array, TofuSdk.complete, Value.exact_list, Value.exact_list,
      ValueOf.list.injEq, List.map_map, List.map_map, map_zip_eq_map_iff hlen, forall_mem_zip_and hlen]
    exact forall₂_congr fun p hp => (h p hp).same

theorem set {jsons : List Json} {u : Value × Json → Value} (hlen : items.length = jsons.length)
    (h : ∀ p ∈ items.zip jsons, Reread elem p.1 p.2 (u p)) :
    Reread (.set elem) (.set items) (.array jsons) (.set ((items.zip jsons).map u)) where
  conforms := conformsWith_set.mpr (List.forall_mem_map.mpr fun p hp => (h p hp).conforms)
  complete := by
    rw [TofuSdk.complete, List.map_map, ValueOf.set.injEq, List.map_inj_left]
    exact fun p hp => (h p hp).complete
  kept := by
    rw [everyNumber, everywhere_set, List.forall_mem_map]
    exact ⟨rfl, fun p hp => (h p hp).kept⟩
  same := by
    rw [conformsWith_set, Json.inRange, Json.everyNumber_array, TofuSdk.complete, Value.exact_set, Value.exact_set,
      ValueOf.set.injEq, List.map_map, List.map_map, map_zip_eq_map_iff hlen, forall_mem_zip_and hlen]
    exact forall₂_congr fun p hp => (h p hp).same

theorem tuple {elems : List Ty} {jsons : List Json} {u : (Value × Json) × Ty → Value}
    (hlen : items.length = elems.length) (hlen' : items.length = jsons.length)
    (h : ∀ p ∈ (items.zip jsons).zip elems, Reread p.2 p.1.1 p.1.2 (u p)) :
    Reread (.tuple elems) (.tuple items) (.array jsons) (.tuple (((items.zip jsons).zip elems).map u)) where
  conforms := by
    rw [conformsWith_tuple (by simp [← hlen, hlen']), zip_map_zip, List.forall_mem_map]
    exact fun p hp => (h p hp).conforms
  complete := by
    rw [TofuSdk.complete, completeZip_eq, zip_map_zip, List.map_map, ValueOf.tuple.injEq, List.map_inj_left]
    exact fun p hp => (h p hp).complete
  kept := by
    rw [everyNumber, everywhere_tuple, List.forall_mem_map]
    exact ⟨rfl, fun p hp => (h p hp).kept⟩
  same := by
    have hjsons : (∀ json ∈ jsons, json.everyNumber (fun n => !n.pastEnd) = true) ↔
        ∀ p ∈ (items.zip jsons).zip elems, p.1.2.everyNumber (fun n => !n.pastEnd) = true := by
      rw [← forall_mem_zip_fst (hlen'.symm.trans hlen), zip_zip_snd hlen', List.forall_mem_map]
    rw [conformsWith_tuple hlen, Json.inRange, Json.everyNumber_array, hjsons, TofuSdk.complete, completeZip_eq,
      zip_zip_fst hlen' elems, Value.exact_tuple, Value.exact_tuple, ValueOf.tuple.injEq, List.map_map, List.map_map,
      List.map_map, List.map_inj_left, List.forall_mem_map, ← forall₂_and]
    exact forall₂_congr fun p hp => (h p hp).same

theorem map {entries : Fields} {jsons : OrdMap String Json} (hkeys : jsons.keys = entries.keys)
    {u : String → Value → Value} (h : ∀ k v json, entries.get? k = some v → jsons.get? k = some json →
      Reread elem v json (u k v)) :
        Reread (.map elem) (.map entries) (.object jsons) (.map (entries.mapWithKey u)) := by
  have hjson : ∀ k v, entries.get? k = some v → ∃ json, jsons.get? k = some json :=
    fun k v hv => OrdMap.exists_of_keys_eq hkeys.symm hv
  have hvalue : ∀ k json, jsons.get? k = some json → ∃ v, entries.get? k = some v :=
    fun k json hk => OrdMap.exists_of_keys_eq hkeys hk
  constructor
  · rw [conformsWith_map]
    intro k w hw
    rw [OrdMap.get?_mapWithKey] at hw
    obtain ⟨v, hv, rfl⟩ := Option.map_eq_some_iff.mp hw
    obtain ⟨json, hk⟩ := hjson k v hv
    exact (h k v json hv hk).conforms
  · rw [TofuSdk.complete, ValueOf.map.injEq]
    change entries.mapWithKey (fun k v => TofuSdk.complete elem (u k v)) = _
    rw [OrdMap.mapWithKey_eq_iff]
    intro k v hv
    obtain ⟨json, hk⟩ := hjson k v hv
    exact (h k v json hv hk).complete
  · rw [everyNumber, everywhere_map]
    refine ⟨rfl, ?_⟩
    intro k w hw
    rw [OrdMap.get?_mapWithKey] at hw
    obtain ⟨v, hv, rfl⟩ := Option.map_eq_some_iff.mp hw
    obtain ⟨json, hk⟩ := hjson k v hv
    exact (h k v json hv hk).kept
  · rw [conformsWith_map, Json.inRange, Json.everyNumber_object, TofuSdk.complete, Value.exact_map, Value.exact_map,
      ValueOf.map.injEq]
    change entries.mapWithKey (fun k v => (u k v).exact) =
      entries.mapWithKey (fun _ v => (TofuSdk.complete elem v).exact) ↔ _
    rw [OrdMap.mapWithKey_eq_iff]
    constructor
    · intro hsame
      constructor
      · intro k v hv
        obtain ⟨json, hk⟩ := hjson k v hv
        exact ((h k v json hv hk).same.mp (hsame k v hv)).1
      · intro k json hk
        obtain ⟨v, hv⟩ := hvalue k json hk
        exact ((h k v json hv hk).same.mp (hsame k v hv)).2
    · rintro ⟨hconforms, hrange⟩ k v hv
      obtain ⟨json, hk⟩ := hjson k v hv
      exact (h k v json hv hk).same.mpr ⟨hconforms k v hv, hrange k json hk⟩

theorem object {attrs : List ObjectAttr} {fields : Fields} {jsons : OrdMap String Json} {u : ObjectAttr → Value}
    (hn : (attrs.map (·.name)).Nodup) (hkeys : ∀ k ∈ fields.keys, k ∈ attrs.map (·.name))
    (hjsons : ∀ k, k ∈ jsons.keys ↔ k ∈ attrs.map (·.name))
    (h : ∀ attr ∈ attrs, ∀ json, jsons.get? attr.name = some json →
      Reread attr.ty ((fields.get? attr.name).getD .null) json (u attr)) :
    Reread (.object attrs) (.object fields) (.object jsons)
      (.object (OrdMap.ofList (attrs.map fun attr => (attr.name, u attr)))) := by
  have hget : ∀ attr ∈ attrs, (OrdMap.ofList (attrs.map fun attr => (attr.name, u attr))).get? attr.name =
      some (u attr) := fun attr ha => OrdMap.get?_ofList_map hn u ha
  have hjson : ∀ attr ∈ attrs, ∃ json, jsons.get? attr.name = some json := fun attr ha =>
    Option.isSome_iff_exists.mp (OrdMap.get?_isSome.mpr ((hjsons attr.name).mpr (List.mem_map_of_mem ha)))
  choose! json hjson using hjson
  have hread := fun attr ha => h attr ha (json attr) (hjson attr ha)
  have hrange : (∀ k json, jsons.get? k = some json → json.everyNumber (fun n => !n.pastEnd) = true) ↔
      ∀ attr ∈ attrs, (json attr).inRange = true := by
    constructor
    · exact fun hall attr ha => hall attr.name _ (hjson attr ha)
    · intro hall k json' hk
      obtain ⟨attr, ha, rfl⟩ := List.mem_map.mp ((hjsons k).mp (OrdMap.get?_isSome.mp (by rw [hk]; rfl)))
      obtain rfl := Option.some.inj ((hjson attr ha).symm.trans hk)
      exact hall attr ha
  constructor
  · rw [conformsWith_object]
    · intro attr ha
      rw [hget attr ha]
      exact (hread attr ha).conforms
    · intro k hk
      rwa [OrdMap.mem_keys_ofList, List.map_map] at hk
  · rw [TofuSdk.complete, completeAttrs_eq, ValueOf.object.injEq, OrdMap.ofList_map_eq_iff hn]
    intro attr ha
    rw [hget attr ha]
    exact (hread attr ha).complete
  · rw [everyNumber, everywhere_object]
    refine ⟨rfl, ?_⟩
    intro k w hw
    obtain ⟨attr, ha, hp⟩ := List.mem_map.mp (OrdMap.mem_of_get?_ofList hw)
    obtain ⟨-, rfl⟩ := Prod.mk.inj hp
    exact (hread attr ha).kept
  · rw [conformsWith_object hkeys, Json.inRange, Json.everyNumber_object, hrange, TofuSdk.complete, completeAttrs_eq,
      Value.exact_object, Value.exact_object, ValueOf.object.injEq, OrdMap.map_ofList, OrdMap.map_ofList, List.map_map,
      List.map_map]
    change OrdMap.ofList (attrs.map fun attr => (attr.name, (u attr).exact)) =
      OrdMap.ofList (attrs.map fun attr =>
        (attr.name, (TofuSdk.complete attr.ty ((fields.get? attr.name).getD .null)).exact)) ↔ _
    rw [OrdMap.ofList_map_eq_iff hn, ← forall₂_and]
    exact forall₂_congr fun attr ha => (hread attr ha).same

end Reread

/-- Stored state is read back, as what was stored exactly where no dynamic slot
holds anything and every number is in range. -/
theorem CtyJson.reread {crates : Crates} (hnum : crates.CountsNumbers) {ty : Ty} {v : Value} {json : Json}
    (h : CtyJson ty v json)
    (hn : ty.distinctNames = true) : ∃ u, decodeJson crates json ty = .ok u ∧ Reread ty v json u := by
  rw [Ty.distinctNames] at hn
  induction h with
  | null ty =>
      refine ⟨.null, ?_, .null ty, complete_null ty, rfl, ?_⟩
      · cases ty <;> rfl
      · rw [complete_null]
        exact iff_of_true rfl ⟨.null ty, rfl⟩
  | bool b => exact ⟨.bool b, rfl, .bool b, rfl, rfl, iff_of_true rfl ⟨.bool b, rfl⟩⟩
  | string s => exact ⟨.string s, rfl, .string s, rfl, rfl, iff_of_true rfl ⟨.string s, rfl⟩⟩
  | number n stored hfinite hexact =>
      have hstored := Number.isFinite_of_exact hexact.symm hfinite
      refine ⟨.number (jsonNumber crates stored), rfl, .number _ (isFinite_jsonNumber hnum hstored), rfl, ?_, ?_⟩
      · simp [everyNumber, saturates_jsonNumber hnum]
      · have hsame : (jsonNumber crates stored).exact = n.exact ↔ (!stored.number.pastEnd) = true := by
          rw [← hexact, exact_jsonNumber_iff hnum, Bool.not_eq_true']
        change ValueOf.number _ = ValueOf.number _ ↔ _
        rw [ValueOf.number.injEq, hsame, and_iff_right (.number n hfinite)]
        rfl
  | list elem items jsons hlen _ ih =>
      choose! u hread hu using fun p hp => ih p hp (Bool.and_eq_true _ _ ▸ hn).2
      refine ⟨_, ?_, .list hlen hu⟩
      change _ <$> jsons.mapM (fun json => decodeJson crates json elem) = _
      rw [mapM_zip_snd hlen hread, Outcome.map_ok]
  | set elem items jsons hlen _ ih =>
      choose! u hread hu using fun p hp => ih p hp (Bool.and_eq_true _ _ ▸ hn).2
      refine ⟨_, ?_, .set hlen hu⟩
      change _ <$> jsons.mapM (fun json => decodeJson crates json elem) = _
      rw [mapM_zip_snd hlen hread, Outcome.map_ok]
  | tuple elems items jsons hlen hlen' _ ih =>
      rw [Ty.everywhere, Bool.and_eq_true, Ty.everywhereIn_iff] at hn
      choose! u hread hu using fun p hp => ih p hp (hn.2 p.2 (List.of_mem_zip hp).2)
      refine ⟨_, ?_, .tuple hlen hlen' hu⟩
      change (if jsons.length ≠ elems.length then _ else _ : Except CodecError Value) = _
      rw [if_neg (not_not.mpr (hlen'.symm.trans hlen)), decodeJsonZip_eq, zip_zip_snd hlen', List.mapM_map]
      exact congrArg (ValueOf.tuple <$> ·) (Outcome.mapM_eq_ok_map hread)
  | map elem entries jsons hkeys _ ih =>
      have hmember : ∀ k v, entries.get? k = some v →
          ∃ u json, jsons.get? k = some json ∧ decodeJson crates json elem = .ok u ∧ Reread elem v json u := by
        intro k v hv
        obtain ⟨json, hjson⟩ := OrdMap.exists_of_keys_eq hkeys.symm hv
        obtain ⟨u, hread, hu⟩ := ih k v json hv hjson (Bool.and_eq_true _ _ ▸ hn).2
        exact ⟨u, json, hjson, hread, hu⟩
      choose! u json hjson hread hu using hmember
      refine ⟨.map (entries.mapWithKey u), ?_, .map hkeys ?_⟩
      · change _ <$> jsons.toList.foldlM
          (fun entries p => (fun v => entries.insert p.1 v) <$> decodeJson crates p.2 elem) OrdMap.empty = _
        rw [foldlM_insert_toList (entries.mapWithKey u) (decodeJson crates · elem) hkeys, Outcome.map_ok]
        intro k json' w hj hw
        rw [OrdMap.get?_mapWithKey] at hw
        obtain ⟨v, hv, rfl⟩ := Option.map_eq_some_iff.mp hw
        rw [Option.some.inj (hj.symm.trans (hjson k v hv)), hread k v hv]
      · intro k v json' hv hk
        obtain rfl := Option.some.inj ((hjson k v hv).symm.trans hk)
        exact hu k v hv
  | object attrs fields jsons hkeys hjsons _ ih =>
      rw [Ty.everywhere, Bool.and_eq_true, Ty.everywhereAttrs_iff] at hn
      have hmember : ∀ attr ∈ attrs, ∃ u, decodeJsonAttr crates jsons attr = .ok u ∧ ∀ json,
          jsons.get? attr.name = some json → Reread attr.ty ((fields.get? attr.name).getD .null) json u := by
        intro attr ha
        obtain ⟨json, hjson⟩ := Option.isSome_iff_exists.mp (OrdMap.get?_isSome.mpr
          ((hjsons attr.name).mpr (List.mem_map_of_mem ha)))
        obtain ⟨u, hread, hu⟩ := ih attr ha json hjson (hn.2 attr ha)
        refine ⟨u, by rw [decodeJsonAttr, hjson]; exact hread, fun json' hk => ?_⟩
        obtain rfl := Option.some.inj (hjson.symm.trans hk)
        exact hu
      choose! u hread hu using hmember
      refine ⟨_, ?_, .object (by simpa using hn.1) hkeys hjsons hu⟩
      change _ <$> decodeJsonAttrs crates jsons attrs OrdMap.empty = _
      rw [decodeJsonAttrs_eq, Outcome.foldlM_insert, Outcome.mapM_eq_ok_map (g := fun attr => (attr.name, u attr))]
      · rfl
      · intro attr ha
        rw [hread attr ha, Outcome.map_ok]
  | dynamic ty v json hne hty hv hjson _ =>
      have hdocument := (CtyJson.dynamic ty v json hne hty hv hjson).document
      obtain ⟨u, hread, huntyped, hkept⟩ := hdocument.decodeJsonDynamic hnum
      obtain ⟨entries, hread', hmembers⟩ := hdocument.decodeJsonDynamic_object hnum
      obtain rfl := Except.ok.inj (hread'.symm.trans hread)
      obtain ⟨x, hx, hvalue⟩ := hmembers "value" json ((OrdMap.get?_ofList_of_nodup (by simp) _ _).mpr (by simp))
      refine ⟨_, hread, .dynamic _ huntyped, rfl, hkept, iff_of_false (hjson.exact_ne hnum hv hvalue hx) ?_⟩
      rintro ⟨hd, -⟩
      cases hd with
      | null => exact hne rfl
      | unknown => exact hjson.ne_unknown rfl
      | dynamic _ hfalse => exact hfalse

namespace Service

section

variable (crates : Crates) (provider : Provider)

/-- An upgrade reports no error and answers with a state that stands for the value. -/
def UpgradesTo (req : UpgradeRequest) (ty : Ty) (v : Value) : Prop :=
  ∃ a, upgradeResourceState crates provider req = some a ∧ hasError a.response.diagnostics = false ∧
    DecodesTo crates a.response.upgradedState ty v

variable {crates provider}

theorem decodesTo_iff_exact {dv : DynamicValue} {ty : Ty} {u v : Value}
    (h : DecodesTo crates (some dv) ty u) : DecodesTo crates (some dv) ty v ↔ u.exact = v.exact := by
  obtain ⟨d, w, hd, hw, hexact⟩ := h
  constructor
  · rintro ⟨d', w', hd', hw', hexact'⟩
    obtain rfl := Option.some.inj (hd.symm.trans hd')
    rw [← hexact, ← hexact', Except.ok.inj (hw.symm.trans hw')]
  · exact fun huv => ⟨d, w, hd, hw, hexact.trans huv⟩

/-- An upgrade at the current version answers with what the stored state is
read as. -/
theorem upgradesTo_reread (hc : crates.Lawful) (ht : crates.ReadsTypes) (hnum : crates.CountsNumbers)
    {req : UpgradeRequest} {block : Block} (hblock : provider.resourceBlock req.typeName = some block)
    (hversion : provider.resourceVersion req.typeName = some req.version)
    (hn : block.ctyType.distinctNames = true) {v : Value} {json : Json} {raw : Bytes}
    (hv : CtyJson block.ctyType v json) (hraw : req.rawState.map (·.json) = some raw)
    (hparse : crates.fromSlice raw = .ok json) :
    ∃ u, Reread block.ctyType v json u ∧ ∀ w, UpgradesTo crates provider req block.ctyType w ↔ u.exact = w.exact := by
  obtain ⟨u, hread, hu⟩ := hv.reread hnum hn
  obtain ⟨dv, henc, hdv⟩ := (survives_iff crates hc (fun v h => Untyped.fromMp_toMp_dynamic ht h) hn hu.conforms
    hu.complete).mpr hu.kept
  have hanswer : upgradeResourceState crates provider req = some ⟨{ upgradedState := some dv }, none⟩ := by
    simp only [upgradeResourceState, Provider.resourceCty_eq hblock, hversion, hraw]
    cases raw with
    | nil => exact absurd hparse (ht.eof json)
    | cons byte bytes =>
        simp only [hparse, le_refl, if_true, hread, Except.mapError, respondUpgraded, Outcome.ok_bind, henc]
        rfl
  refine ⟨u, hu, ?_⟩
  intro w
  rw [← decodesTo_iff_exact hdv, UpgradesTo, hanswer]
  constructor
  · rintro ⟨a, ha, -, hstate⟩
    obtain rfl := Option.some.inj ha
    exact hstate
  · exact fun hstate => ⟨_, rfl, rfl, hstate⟩

theorem not_upgradesTo_of_unread {req : UpgradeRequest} {block : Block}
    (hblock : provider.resourceBlock req.typeName = some block)
    (hversion : provider.resourceVersion req.typeName = some req.version) {raw : Bytes} (hne : raw ≠ [])
    (hraw : req.rawState.map (·.json) = some raw) (hparse : ∀ json, crates.fromSlice raw ≠ .ok json) (ty : Ty)
    (v : Value) : ¬UpgradesTo crates provider req ty v := by
  rintro ⟨a, ha, herror, -⟩
  simp only [upgradeResourceState, Provider.resourceCty_eq hblock, hversion, hraw] at ha
  cases raw with
  | nil => exact hne rfl
  | cons byte bytes =>
      cases hread : crates.fromSlice (byte :: bytes) with
      | ok json => exact hparse json hread
      | error e =>
          simp only [hread] at ha
          obtain rfl := Option.some.inj ha
          cases herror

/-- Upgrading state at the current version gives the state back exactly when
its text is read, no dynamic slot of it holds anything and no number of it is
held as a float just past the end of an integer type. -/
theorem upgrade_current_iff (hc : crates.Lawful) (ht : crates.ReadsTypes) (hnum : crates.CountsNumbers)
    {req : UpgradeRequest} {block : Block} (hblock : provider.resourceBlock req.typeName = some block)
    (hversion : provider.resourceVersion req.typeName = some req.version)
    (hn : block.ctyType.distinctNames = true) {v : Value} {json : Json} {raw : Bytes}
    (hv : CtyJson block.ctyType v json) (hraw : req.rawState.map (·.json) = some raw) (hne : raw ≠ [])
    (hparse : ∀ json', crates.fromSlice raw = .ok json' → json' = json) :
    UpgradesTo crates provider req block.ctyType (complete block.ctyType v) ↔
      crates.fromSlice raw = .ok json ∧ ConformsWith (fun _ => False) block.ctyType v ∧ json.inRange = true := by
  by_cases hread : crates.fromSlice raw = .ok json
  · obtain ⟨u, hu, hupgrades⟩ := upgradesTo_reread hc ht hnum hblock hversion hn hv hraw hread
    rw [hupgrades, and_iff_right hread]
    exact hu.same
  · refine iff_of_false (not_upgradesTo_of_unread hblock hversion hne hraw (fun json' hread' => ?_) _ _)
      fun h => hread h.1
    exact hread (hparse json' hread' ▸ hread')

end

def jarBlock (ty : Ty) : Block where
  attributes := [{ AttributeSchema.new "content" ty with optional := true }]
  nestedBlocks := []

def jar (content : Value) : Value := .object (OrdMap.empty.insert "content" content)

def jarJson (content : Json) : Json := .object (OrdMap.empty.insert "content" content)

def jarProvider (ty : Ty) : Provider where
  schema := ⟨[⟨"jar", 0, jarBlock ty, none⟩], []⟩
  eager _ := none
  eagerList _ := none
  configured := none

def upgradeJar (content : Json) : UpgradeRequest where
  typeName := "jar"
  version := 0
  rawState := some ⟨Crates.real.toVec (jarJson content)⟩

theorem ctyJson_jar {ty : Ty} {content : Value} {json : Json} {optional : Bool} (h : CtyJson ty content json) :
    CtyJson (.object [⟨"content", ty, optional⟩]) (jar content) (jarJson json) := by
  refine .object _ _ _ ?_ ?_ ?_
  · intro k hk
    exact hk
  · intro k
    exact Iff.rfl
  · intro attr ha json' hj
    obtain rfl := List.mem_singleton.mp ha
    obtain rfl := Option.some.inj hj
    exact h

theorem plain_jarJson {content : Json} (h : content.plain = true) : (jarJson content).plain = true := by
  rw [jarJson, Json.plain, Json.plainFields_iff]
  intro k json hk
  rw [OrdMap.get?_insert] at hk
  split_ifs at hk with hname
  · rwa [← Option.some.inj hk]
  · cases hk

section

variable {ty : Ty} {content : Json}

theorem resourceBlock_jar : (jarProvider ty).resourceBlock (upgradeJar content).typeName = some (jarBlock ty) := rfl

theorem resourceVersion_jar :
    (jarProvider ty).resourceVersion (upgradeJar content).typeName = some (upgradeJar content).version := rfl

theorem rawState_jar :
    (upgradeJar content).rawState.map (·.json) = some (Crates.real.toVec (jarJson content)) := by
  rw [upgradeJar, Option.map_some]

theorem fromSlice_jar (h : content.plain = true) :
    Crates.real.fromSlice (Crates.real.toVec (jarJson content)) = .ok (jarJson content) :=
  Crates.real_fromSlice_toVec (plain_jarJson h)

theorem toVec_jar_ne_nil (h : content.plain = true) : Crates.real.toVec (jarJson content) ≠ [] := by
  intro hnil
  apply Crates.real_readsTypes.eof (jarJson content)
  rw [← hnil]
  exact fromSlice_jar h

end

theorem upgrade_jar_string : UpgradesTo Crates.real (jarProvider .string) (upgradeJar (.string "x"))
      (jarBlock .string).ctyType (complete (jarBlock .string).ctyType (jar (.string "x"))) ↔
    Crates.real.fromSlice (Crates.real.toVec (jarJson (.string "x"))) = .ok (jarJson (.string "x")) ∧
      ConformsWith (fun _ => False) (jarBlock .string).ctyType (jar (.string "x")) ∧
        (jarJson (.string "x")).inRange = true :=
  upgrade_current_iff Crates.real_lawful Crates.real_readsTypes Crates.real_countsNumbers resourceBlock_jar
    resourceVersion_jar rfl (ctyJson_jar (.string "x")) rawState_jar (toVec_jar_ne_nil rfl)
    fun _ hread => Except.ok.inj (hread.symm.trans (fromSlice_jar rfl))

def wrapped : Json := .object (OrdMap.ofList [("type", .string "string"), ("value", .string "x")])

theorem plain_wrapped : wrapped.plain = true := by
  rw [wrapped, Json.plain, Json.plainFields_iff]
  intro k json hk
  have hmem := OrdMap.mem_of_get?_ofList hk
  simp only [List.mem_cons, Prod.mk.injEq, List.not_mem_nil, or_false] at hmem
  rcases hmem with ⟨-, rfl⟩ | ⟨-, rfl⟩ <;> rfl

theorem ctyJson_wrapped : CtyJson .dynamic (.string "x") wrapped :=
  .dynamic .string (.string "x") (.string "x") (by simp) rfl (.string "x") (.string "x")

theorem wrapped_not_given_back : CtyJson (jarBlock .dynamic).ctyType (jar (.string "x")) (jarJson wrapped) ∧
    Crates.real.fromSlice (Crates.real.toVec (jarJson wrapped)) = .ok (jarJson wrapped) ∧
    ¬UpgradesTo Crates.real (jarProvider .dynamic) (upgradeJar wrapped) (jarBlock .dynamic).ctyType
      (complete (jarBlock .dynamic).ctyType (jar (.string "x"))) := by
  have hstored : CtyJson (jarBlock .dynamic).ctyType (jar (.string "x")) (jarJson wrapped) :=
      ctyJson_jar ctyJson_wrapped
  refine ⟨hstored, fromSlice_jar plain_wrapped, ?_⟩
  obtain ⟨u, hu, hupgrades⟩ := upgradesTo_reread Crates.real_lawful Crates.real_readsTypes Crates.real_countsNumbers
    resourceBlock_jar resourceVersion_jar rfl hstored rawState_jar (fromSlice_jar plain_wrapped)
  rw [hupgrades, hu.same]
  rintro ⟨hempty, -⟩
  cases hempty with
  | object _ _ _ hattrs =>
      have hcontent : ConformsWith (fun _ => False) .dynamic (.string "x") := hattrs _ (List.mem_singleton_self _)
      cases hcontent with
      | dynamic _ hfalse => exact hfalse

end Service

end TofuSdk
