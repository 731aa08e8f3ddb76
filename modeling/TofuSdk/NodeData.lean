import TofuSdk.NodeRoles
import TofuSdk.ValueType
import TofuSdk.Lossless

namespace TofuSdk

namespace Node

structure JsDataSource where
  ty : Ty
  read : RawHandler
  validate : RawHandler

def JsDataSource.erased (crates : Crates) (stop : Stop) (dataSource : JsDataSource) : Plugin.DynDataSource where
  read config := callDocument crates stop dataSource.read (encodeJson crates config) "data source read"
    (readJson crates dataSource.ty "data source read")
  validate := validateWith crates dataSource.validate "data source validate"

structure DataSourceDef where
  schema : Zod
  read (config : Js) : HandlerCtx → Script
  validate : Option (Js → Ending String (Option (List Diagnostic)))

/-- A data source of many results, by the fields that are tagged as search keys
and by those that are listed. -/
structure DataSourceListDef where
  schema : ZodShape
  tagged : String → Bool
  searchKeys : List String
  list (config : Js) : HandlerCtx → Trace HandlerOp String (List Js)

def fieldCty (schema : ZodShape) (key : String) : Except String Json :=
  (schema.get? key).elim (.ok (.string "string")) ctyFromZod

def wrapperAttribute (name : String) (type : Json) (computed : Bool) : AttributeJson where
  name := name
  type := type
  required := false
  optional := !computed
  computed := computed
  forceNew := false
  sensitive := false
  writeOnly := false
  deprecated := false
  identity := false

section

variable (lib : Library) (js : JsText) (typeName : String)

namespace DataSourceDef

variable (dataSource : DataSourceDef)

def readFn (config : Js) (ctx : HandlerCtx) : Script := do
  let state ← dataSource.read config ctx
  lib.validateOut dataSource.schema state ("data source " ++ typeName ++ " read")

def toNative (ty : Ty) : JsDataSource where
  ty := ty
  read := ctxAdapt js (some dataSource.schema) (dataSource.readFn lib typeName)
  validate := validateAdapter js dataSource.validate (some dataSource.schema)

end DataSourceDef

namespace DataSourceListDef

variable (dataSource : DataSourceListDef)

/-- The search keys, the first of each. -/
def keys : List String :=
  (dataSource.schema.keys.filter dataSource.tagged ++ dataSource.searchKeys).reverse.dedup.reverse

def attributes : Except String (List AttributeJson) := do
  let elementType ← ctyFromZod (.object {} dataSource.schema)
  if dataSource.keys.isEmpty then
    .error ("data source list \"" ++ typeName ++ "\" needs at least one search key " ++
      "(tag a field `.meta(\x7b searchKey: true \x7d)` or pass `searchKeys`)")
  else do
    let inputs ← dataSource.keys.mapM fun key => (wrapperAttribute key · false) <$> fieldCty dataSource.schema key
    pure (inputs ++ [wrapperAttribute "results" (.array [.string "list", elementType]) true])

def validItems (items : List Js) (i : Nat) : Trace HandlerOp String (List Js) :=
  match items with
  | [] => pure []
  | item :: rest => do
      let data ← lib.validateOut (.object {} dataSource.schema) item
        ("data source " ++ typeName ++ " list[" ++ toString i ++ "]")
      let validated ← validItems rest (i + 1)
      pure (data :: validated)

def listing (config : Js) (ctx : HandlerCtx) : Trace HandlerOp String (List Js) := do
  let items ← dataSource.list config ctx
  dataSource.validItems lib typeName items 0

def inputs (config : Js) : Except String (List (String × Js)) :=
  (List.filter (·.1 ≠ protoKey)) <$> dataSource.keys.mapM fun key => (key, ·) <$> readProperty config key

def readFn (config : Js) (ctx : HandlerCtx) : Script := do
  let validated ← dataSource.listing lib typeName config ctx
  let inputs ← ⟨[], ofExcept (dataSource.inputs config)⟩
  pure (.object (.ofMembers (inputs ++ [("results", .array validated)])))

def toNative (ty : Ty) : JsDataSource where
  ty := ty
  read := ctxAdapt js (some (.object {} dataSource.schema)) (dataSource.readFn lib typeName)
  validate := validateAdapter js none none

end DataSourceListDef

end

def describedBy (attributes : List AttributeJson) : Json :=
  .object (OrdMap.ofList [("attributes", .array (attributes.map AttributeJson.toJson))])

def fieldType (schema : ZodShape) (key : String) : Except String Ty :=
  (schema.get? key).elim (.ok .string) (valueType false none)

def resultAttrs (keys : List String) (ty : String → Ty) (elem : Ty) : List ObjectAttr :=
  keys.map (fun key => ⟨key, ty key, true⟩) ++ [⟨"results", .list elem, true⟩]

theorem nodup_resultAttrs {keys : List String} (hkeys : keys.Nodup) (hresults : "results" ∉ keys) (ty : String → Ty)
    (elem : Ty) : ((resultAttrs keys ty elem).map (·.name)).Nodup := by
  have hnames : (resultAttrs keys ty elem).map (·.name) = keys ++ ["results"] := by
    rw [resultAttrs, List.map_append, List.map_map]
    exact congrArg (· ++ ["results"]) (List.map_id' keys)
  rw [hnames]
  refine hkeys.append (List.nodup_singleton _) ?_
  rw [List.disjoint_singleton]
  exact hresults

theorem nodup_keys (dataSource : DataSourceListDef) : dataSource.keys.Nodup :=
  List.nodup_reverse.mpr (List.nodup_dedup _)

section

variable {crates : Crates}

theorem attributeFromValue_wrapper (hc : crates.ReadsPlain) {type : Json} {ty : Ty} (hplain : type.plain = true)
    (hty : Ty.fromCtyJson type = .ok ty) (name : String) (computed : Bool) :
    attributeFromValue crates (wrapperAttribute name type computed).toJson =
      .ok ((wrapperAttribute name type computed).toSchema ty) :=
  attributeFromValue_toJson hc hplain hty

theorem blockFromSchemaValue_describedBy {attributes : List AttributeJson} {schemas : List AttributeSchema}
    (h : (attributes.map AttributeJson.toJson).mapM (attributeFromValue crates) = .ok schemas) :
    blockFromSchemaValue crates (describedBy attributes) = .ok ⟨schemas, []⟩ := by
  rw [describedBy, blockFromSchemaValue, blocksOfFields_eq]
  simp [OrdMap.get?_ofList, h]

theorem exists_fieldType {schema : ZodShape} {key : String} {type : Json} (h : fieldCty schema key = .ok type) :
    type.plain = true ∧ ∃ ty, Ty.fromCtyJson type = .ok ty ∧ fieldType schema key = .ok ty := by
  rw [fieldCty] at h
  rw [fieldType]
  cases hfield : schema.get? key with
  | none =>
      rw [hfield] at h
      cases h
      exact ⟨rfl, .string, rfl, rfl⟩
  | some ft =>
      rw [hfield] at h
      obtain ⟨ty, hval, hty, -⟩ := valueType_untagged none h
      exact ⟨plain_ctyFromZod h, ty, hty, hval⟩

theorem distinctNames_fieldType {schema : ZodShape} {key : String} {ty : Ty} (h : fieldType schema key = .ok ty) :
    ty.distinctNames = true := by
  rw [fieldType] at h
  cases hfield : schema.get? key with
  | none =>
      rw [hfield] at h
      cases h
      rfl
  | some ft =>
      rw [hfield] at h
      exact distinctNames_valueType h

theorem exists_resultAttrs (hc : crates.ReadsPlain) {dataSource : DataSourceListDef} {typeName : String}
    {attributes : List AttributeJson} (h : dataSource.attributes typeName = .ok attributes) {block : Block}
    (hblock : blockFromSchemaValue crates (describedBy attributes) = .ok block) :
    ∃ ty elem, block.ctyType = .object (resultAttrs dataSource.keys ty elem) ∧
      (∀ key ∈ dataSource.keys, fieldType dataSource.schema key = .ok (ty key)) ∧
      valueType false none (.object {} dataSource.schema) = .ok elem := by
  obtain ⟨elementType, helement, h⟩ := Outcome.bind_eq_ok.mp h
  split_ifs at h
  obtain ⟨inputs, hinputs, h⟩ := Outcome.bind_eq_ok.mp h
  cases h
  obtain ⟨elem, hval, helem, -⟩ := valueType_untagged none helement
  have hfields : ∀ key ∈ dataSource.keys, ∃ type, fieldCty dataSource.schema key = .ok type := by
    intro key hkey
    obtain ⟨_, hattribute⟩ := Outcome.ok_of_mem hinputs key hkey
    exact Outcome.exists_map_eq_ok.mp ⟨_, hattribute⟩
  choose! type htype using hfields
  have htypes : ∀ key ∈ dataSource.keys, (type key).plain = true ∧
      ∃ ty, Ty.fromCtyJson (type key) = .ok ty ∧ fieldType dataSource.schema key = .ok ty :=
    fun key hkey => exists_fieldType (htype key hkey)
  have : Nonempty Ty := ⟨.dynamic⟩
  choose! hplain ty hty hfield using htypes
  refine ⟨ty, elem, ?_, hfield, hval⟩
  have hinputs' : inputs = dataSource.keys.map fun key => wrapperAttribute key (type key) false := by
    apply Except.ok.inj (hinputs.symm.trans _)
    exact Outcome.mapM_eq_ok_map fun key hkey => by rw [htype key hkey, Outcome.map_ok]
  have hresults : (Json.array [.string "list", elementType]).plain = true ∧
      Ty.fromCtyJson (.array [.string "list", elementType]) = .ok (.list elem) := by
    constructor
    · simp [Json.plain, Json.plainItems, plain_ctyFromZod helement]
    · rw [Ty.fromCtyJson, Ty.firstType, helem]
      rfl
  have hschemas : ((inputs ++ [wrapperAttribute "results" (.array [.string "list", elementType]) true]).map
      AttributeJson.toJson).mapM (attributeFromValue crates) =
      .ok (dataSource.keys.map (fun key => (wrapperAttribute key (type key) false).toSchema (ty key)) ++
        [(wrapperAttribute "results" (.array [.string "list", elementType]) true).toSchema (.list elem)]) := by
    rw [hinputs', List.map_append, List.mapM_append, List.map_map, List.mapM_map,
      Outcome.mapM_eq_ok_map (g := fun key => (wrapperAttribute key (type key) false).toSchema (ty key))]
    · rw [Outcome.ok_bind, List.map_singleton, List.mapM_cons, attributeFromValue_wrapper hc hresults.1 hresults.2]
      rfl
    · exact fun key hkey => attributeFromValue_wrapper hc (hplain key hkey) (hty key hkey) key false
  obtain rfl := Except.ok.inj ((blockFromSchemaValue_describedBy hschemas).symm.trans hblock)
  rw [Block.ctyType_eq, List.map_append, List.map_map, List.map_nil, List.append_nil]
  rfl

end

/-- What JavaScript has of a value is revived without a loss. -/
def Kept (crates : Crates) (schema : ZodShape) (key : String) (c : Value) : Prop :=
  ∀ v, Shows v (encodeJson crates c) → ∀ ft, schema.get? key = some ft → (reviveSets ft v).wireForm = v.wireForm

/-- A value is another, as far as JavaScript has its numbers, with null for what
is unknown or left out. -/
def Echoed (ty : Ty) (c s : Value) : Prop :=
  ∃ w : Value, w.exact = (complete ty c.unknownAsNull).exact ∧ s.rounded = w.rounded

/-- The item that Rust reads of one that is valid. -/
def ReadsItem (crates : Crates) (elem : Ty) (v : Js) (item : Value) : Prop :=
  ∃ text json, stringify v = .ok text ∧ json.rounded = (text.getD .null).toJson ∧ decodeJson crates json elem = .ok item

section

variable {crates : Crates} {dataSource : DataSourceListDef}

theorem exists_revived {schema : ZodShape} {query : Js} {given : Fields}
    (h : Shows query (encodeJson crates (.object given))) :
    ∃ own, reviveSets (.object {} schema) query = .object own ∧ ∀ key,
      Kept crates schema key ((given.get? key).getD .null) →
        (written (getProperty (.object own) key)).map Js.toJson =
          (given.get? key).map fun c => (encodeJson crates c).rounded := by
  obtain ⟨hjson, hround⟩ := h
  rw [encodeJson_object] at hround
  obtain ⟨own, rfl, hown⟩ := Js.exists_properties hjson hround
  refine ⟨_, revive_object {} schema own, fun key hkept => ?_⟩
  have hkey := hown key
  rw [OrdMap.get?_map, Option.map_map] at hkey
  rw [getProperty, Entries.get?_mapWithKey]
  cases hx : own.get? key with
  | none =>
      rw [hx] at hkey
      have hnone : given.get? key = none := Option.map_eq_none_iff.mp hkey.symm
      rw [hnone]
      exact congrArg (Option.map Js.toJson) (written_eq (v := Js.undefined) rfl)
  | some x =>
      rw [hx] at hkey
      obtain ⟨c, hc, hxround⟩ := Option.map_eq_some_iff.mp hkey.symm
      have hxjson : x.isJson = true := Js.fieldsJson_iff.mp hjson (key, x) (Entries.get?_eq_some.mp hx)
      have hxwire := Js.isWire_of_isJson hxjson
      rw [hc, Option.getD_some] at hkept
      have hwritten : written ((schema.get? key).elim x fun ft => revive ft x) = some x.wireForm := by
        cases hft : schema.get? key with
        | none => exact written_eq (stringify_eq_ok hxwire)
        | some ft =>
            have hsame : (revive ft x).wireForm = x.wireForm := hkept x ⟨hxjson, hxround.symm⟩ ft hft
            rw [← hsame]
            exact written_eq (stringify_eq_ok (isWire_revive hxwire))
      rw [Option.map_some, Option.getD_some, hwritten, Option.map_some, hc, Option.map_some]
      exact congrArg some ((toJson_wireForm hxwire).2.trans hxround.symm)

theorem inputs_eq (own : Entries Js) : dataSource.inputs (.object own) =
    .ok ((dataSource.keys.filter (· ≠ protoKey)).map fun key => (key, getProperty (.object own) key)) := by
  have hread : dataSource.keys.mapM (fun key => (key, ·) <$> readProperty (.object own) key) =
      .ok (dataSource.keys.map fun key => (key, getProperty (.object own) key)) :=
    Outcome.mapM_eq_ok_map fun key _ => rfl
  rw [DataSourceListDef.inputs, hread, Outcome.map_ok, List.filter_map]
  rfl

theorem exists_texts {properties : List (String × Js)} (hnodup : (properties.map Prod.fst).Nodup) {text : Option Js}
    (h : stringify (.object (.ofMembers properties)) = .ok text) :
    ∀ p ∈ properties, ∃ text, stringify p.2 = .ok text := by
  cases hall : properties.mapM fun p => stringify p.2 with
  | error e => cases (stringify_members_error hnodup hall).symm.trans h
  | ok texts =>
      intro p hp
      obtain ⟨text, htext⟩ := Outcome.ok_of_mem hall p hp
      exact ⟨text, htext⟩

theorem exists_results {validated : List Js} {text : Option Js} (htext : stringify (.array validated) = .ok text)
    {json : Json} (hround : some json.rounded = text.map Js.toJson) {elem : Ty} {results : Value}
    (h : decodeJson crates json (.list elem) = .ok results) :
    ∃ items, results = .list items ∧ List.Forall₂ (ReadsItem crates elem) validated items := by
  obtain ⟨ws, hws, rfl⟩ := Outcome.map_eq_ok.mp htext
  rw [stringifyItems_eq, Outcome.mapM_eq_ok] at hws
  have hround' : json.rounded = .array (ws.map Js.toJson) := by
    rw [← Js.toJson_array]
    exact Option.some.inj hround
  obtain ⟨jsons, rfl, hjsons⟩ := Json.exists_array_of_rounded hround'
  have hnull : ¬(Json.array jsons).isNull = true := Bool.false_ne_true
  rw [decodeJson, if_neg hnull] at h
  obtain ⟨jsons', harray, hmap⟩ := Outcome.bind_eq_ok.mp h
  obtain rfl := Json.array.inj (Json.asArray_eq_ok.mp harray)
  obtain ⟨items, hitems, rfl⟩ := Outcome.map_eq_ok.mp hmap
  refine ⟨items, rfl, ?_⟩
  rw [Outcome.mapM_eq_ok] at hitems
  clear h hmap harray hnull hround hround' htext
  induction hws generalizing jsons items with
  | nil =>
      obtain rfl := List.map_eq_nil_iff.mp hjsons
      cases hitems
      exact .nil
  | cons hw _ ih =>
      cases hitems with
      | nil => cases hjsons
      | cons hitem hitems =>
          obtain ⟨hjson, hrest⟩ := List.cons_eq_cons.mp hjsons
          obtain ⟨text, htext, rfl⟩ := Outcome.map_eq_ok.mp hw
          exact .cons ⟨text, _, htext, hjson, hitem⟩ (ih _ hrest _ hitems)

theorem exact_of_inRange (hnum : crates.CountsNumbers) (n : Number) (h : (!n.pastEnd) = true) :
    (jsonNumber crates ⟨n⟩).exact = n.exact :=
  (exact_jsonNumber_iff hnum ⟨n⟩).mpr (by rwa [Bool.not_eq_true'] at h)

theorem exists_echoed (hnum : crates.CountsNumbers) {fields : OrdMap String Json} {c : Option Value}
    {key : String} {ty : Ty} {optional : Bool} {s : Value} (hstatic : ty.isStatic = true) (hn : ty.distinctNames = true)
    (hconforms : Conforms ty (c.getD .null)) (hrange : (c.getD .null).everyNumber (fun n => !n.pastEnd) = true)
    (hround : (fields.get? key).map Json.rounded = c.map fun c => (encodeJson crates c).rounded)
    (h : decodeJsonAttr crates fields ⟨key, ty, optional⟩ = .ok s) : Echoed ty (c.getD .null) s := by
  obtain ⟨w, hw, hexact⟩ :=
      decodeJson_encodeJson_of_kept hnum.toHoldsNumbers (exact_of_inRange hnum) hstatic hn hconforms hrange
  refine ⟨w, hexact, ?_⟩
  rw [decodeJsonAttr] at h
  cases c with
  | none =>
      rw [Option.map_none, Option.map_eq_none_iff] at hround
      rw [hround] at h
      have hnull : decodeJson crates (encodeJson crates .null) ty = .ok .null := decodeJson_null ty
      obtain rfl := Except.ok.inj (hnull.symm.trans hw)
      cases h
      rfl
  | some c =>
      obtain ⟨json, hjson, hjsonround⟩ := Option.map_eq_some_iff.mp hround
      rw [hjson] at h
      have hread : Value.rounded <$> decodeJson crates json ty =
          Value.rounded <$> decodeJson crates (encodeJson crates c) ty := by
        rw [← decodeJson_rounded hnum json, hjsonround, decodeJson_rounded hnum]
      have hdecode : decodeJson crates json ty = .ok s := h
      have hsource : decodeJson crates (encodeJson crates c) ty = .ok w := hw
      rw [hdecode, hsource] at hread
      exact Except.ok.inj hread

end

/-- The service has the data source of many results that an author wrote, with
the block that the addon read of its description. -/
structure HostsDataList (crates : Crates) (lib : Library) (js : JsText) (service : Plugin.ProviderService)
    (dataSource : DataSourceListDef) (typeName : String) (block : Block) : Prop where
  described : ∃ attributes, dataSource.attributes typeName = .ok attributes ∧
    blockFromSchemaValue crates (describedBy attributes) = .ok block
  cty : service.provider.dataSourceCty typeName = some block.ctyType
  handler : service.provider.handler .dataSource typeName =
    some ((dataSource.toNative lib js typeName block.ctyType).erased crates .never)

/-- What the state has of the results and of the inputs. -/
structure Echoes (crates : Crates) (lib : Library) (dataSource : DataSourceListDef) (typeName : String) (query : Js)
    (given state : Fields) : Prop where
  results : ∃ elem validated items, valueType false none (.object {} dataSource.schema) = .ok elem ∧
    (dataSource.listing lib typeName (reviveSets (.object {} dataSource.schema) query) ⟨.undefined, false⟩).ending =
      .returned validated ∧ state.get? "results" = some (.list items) ∧
        List.Forall₂ (ReadsItem crates elem) validated items
  inputs : ∀ key ∈ dataSource.keys, key ≠ protoKey → ∀ ty, fieldType dataSource.schema key = .ok ty →
    ty.isStatic = true → Conforms ty ((given.get? key).getD .null) →
      ((given.get? key).getD .null).everyNumber (fun n => !n.pastEnd) = true →
        Kept crates dataSource.schema key ((given.get? key).getD .null) →
          ∃ s, state.get? key = some s ∧ Echoed ty ((given.get? key).getD .null) s

section

variable {crates : Crates} {lib : Library} {js : JsText} {dataSource : DataSourceListDef} {typeName : String}

theorem echoes_readFn (hnum : crates.CountsNumbers) {keys : List String} (hkeys : dataSource.keys = keys)
    (hresults : "results" ∉ keys) {query : Js}
    {given : Fields} (hshows : Shows query (encodeJson crates (.object given))) {ty : String → Ty} {elem : Ty}
    (hty : ∀ key ∈ keys, fieldType dataSource.schema key = .ok (ty key))
    (helem : valueType false none (.object {} dataSource.schema) = .ok elem) {result w : Js} {json : Json}
    {value : Value}
    (hresult : (dataSource.readFn lib typeName (reviveSets (.object {} dataSource.schema) query)
      ⟨.undefined, false⟩).ending = .returned result) (hw : stringify (orElse result .null) = .ok (some w))
    (hround : json.rounded = w.toJson)
    (hread : decodeJson crates json (.object (resultAttrs keys ty elem)) = .ok value) :
    ∃ state, value = .object state ∧ Echoes crates lib dataSource typeName query given state := by
  subst hkeys
  obtain ⟨own, hown, hechoed⟩ := exists_revived hshows
  have hending : (dataSource.readFn lib typeName (reviveSets (.object {} dataSource.schema) query)
      ⟨.undefined, false⟩).ending = (dataSource.listing lib typeName (reviveSets (.object {} dataSource.schema) query)
      ⟨.undefined, false⟩).ending >>= fun validated => .returned (.object (.ofMembers
        ((dataSource.keys.filter (· ≠ protoKey)).map (fun key => (key, getProperty (.object own) key)) ++
          [("results", .array validated)]))) := by
    rw [DataSourceListDef.readFn, Trace.ending_bind]
    refine congrArg (_ >>= ·) ?_
    funext validated
    rw [hown, inputs_eq]
    rfl
  rw [hending] at hresult
  obtain ⟨validated, hvalidated, hresult⟩ := Ending.bind_eq_returned.mp hresult
  obtain rfl := Ending.returned.inj hresult
  rw [orElse_object] at hw
  generalize hlist : (dataSource.keys.filter (· ≠ protoKey)).map (fun key => (key, getProperty (.object own) key)) ++
    [("results", Js.array validated)] = properties at hw
  have hnodup : (properties.map Prod.fst).Nodup := by
    have hnames : properties.map Prod.fst = dataSource.keys.filter (· ≠ protoKey) ++ ["results"] := by
      rw [← hlist, List.map_append, List.map_map]
      exact congrArg (· ++ ["results"]) (List.map_id' _)
    rw [hnames]
    refine ((nodup_keys dataSource).filter _).append (List.nodup_singleton _) ?_
    rw [List.disjoint_singleton]
    exact fun h => hresults (List.mem_filter.mp h).1
  have htexts := exists_texts hnodup hw
  obtain ⟨texts, hobject, hget⟩ := stringify_members htexts
  obtain rfl := Option.some.inj (Except.ok.inj (hobject.symm.trans hw))
  obtain ⟨fields, rfl, hfields⟩ := Json.exists_members hround
  have hfield : ∀ key v, (key, v) ∈ properties → (fields.get? key).map Json.rounded = (written v).map Js.toJson := by
    intro key v hmem
    rw [hfields, hget, (OrdMap.get?_ofList_of_nodup hnodup key v).mpr hmem]
    rfl
  obtain ⟨state, rfl, -, hattrs⟩ := exists_decoded (nodup_resultAttrs (nodup_keys dataSource) hresults ty elem) hread
  refine ⟨state, rfl, ?_, ?_⟩
  · obtain ⟨results, hstate, hdecoded⟩ := hattrs ⟨"results", .list elem, true⟩
      (List.mem_append_right _ (List.mem_singleton_self _))
    have hmem : ("results", Js.array validated) ∈ properties :=
      hlist ▸ List.mem_append_right _ (List.mem_singleton_self _)
    obtain ⟨text, htext⟩ := htexts _ hmem
    have hrounded := hfield _ _ hmem
    rw [written_eq htext] at hrounded
    rw [decodeJsonAttr] at hdecoded
    cases hjson : fields.get? "results" with
    | none =>
        obtain ⟨ws, -, rfl⟩ := Outcome.map_eq_ok.mp htext
        rw [hjson] at hrounded
        cases hrounded
    | some json =>
        rw [hjson] at hdecoded hrounded
        obtain ⟨items, rfl, hitems⟩ := exists_results htext hrounded hdecoded
        exact ⟨elem, validated, items, helem, hvalidated, hstate, hitems⟩
  · intro key hkey hproto keyTy hkeyTy hstatic hconforms hrange hkept
    obtain rfl := Except.ok.inj ((hty key hkey).symm.trans hkeyTy)
    obtain ⟨s, hstate, hdecoded⟩ := hattrs ⟨key, ty key, true⟩ (List.mem_append_left _ (List.mem_map_of_mem hkey))
    have hmem : (key, getProperty (.object own) key) ∈ properties := by
      rw [← hlist]
      exact List.mem_append_left _ (List.mem_map.mpr ⟨key, List.mem_filter.mpr ⟨hkey, decide_eq_true hproto⟩, rfl⟩)
    have hrounded := (hfield _ _ hmem).trans (hechoed key hkept)
    exact ⟨s, hstate, exists_echoed hnum hstatic (distinctNames_fieldType hkeyTy) hconforms hrange hrounded hdecoded⟩

def respondRead (crates : Crates) (ty : Ty) (result : Except Diagnostics Value × CtxOutputs) :
    Plugin.ReadDataResponse :=
  match result.1 with
  | .ok state => Plugin.ProviderService.respondData crates ty state result.2
  | .error diags => { diagnostics := Service.diagsWithWarnings diags result.2 }

def ReadsDocument (crates : Crates) (ty : Ty) (op : String) (json : Json) (res : Except Diagnostics Value) : Prop :=
  Document json ∧ res = readDocument crates ty op json

theorem respondRead_state {ty : Ty} {result : Except Diagnostics Value × CtxOutputs} {sent : Service.DynamicValue}
    (h : (respondRead crates ty result).state = some sent) :
    ∃ state, result.1 = .ok state ∧ Service.encodeDynamic crates state ty = .ok sent := by
  rw [respondRead] at h
  cases hres : result.1 with
  | error diags =>
      rw [hres] at h
      cases h
  | ok state =>
      rw [hres] at h
      refine ⟨state, rfl, ?_⟩
      change (Plugin.ProviderService.respondData crates ty state result.2).state = some sent at h
      rw [Plugin.ProviderService.respondData] at h
      cases hsent : Service.encodeDynamic crates state ty with
      | error e =>
          rw [hsent] at h
          cases h
      | ok dv =>
          rw [hsent] at h
          exact congrArg Except.ok (Option.some.inj h)

theorem reads_document (h : js.Reads crates) (ty : Ty) (op : String) {value : Json} (hdoc : Document value) :
    ∃ json, json.rounded = value.rounded ∧
        ReadsDocument crates ty op json (readJson crates ty op (crates.toVec value)) := by
  obtain ⟨json, hread, hjson, hround⟩ := h.fromSlice_toVec hdoc
  exact ⟨json, hround, hjson, readJson_of_fromSlice hread ty op⟩

theorem Answers.exists_state {op : String} {ty : Ty} {run : Script} {response : Option Plugin.ReadDataResponse}
    (h : Answers op (ReadsDocument crates ty op) run (respondRead crates ty) response) {res : Plugin.ReadDataResponse}
    (hresponse : response = some res) {sent : Service.DynamicValue} (hsent : res.state = some sent) :
    ∃ result w json state, run.ending = .returned result ∧ stringify (orElse result .null) = .ok (some w) ∧
      json.rounded = w.toJson ∧ decodeJson crates json ty = .ok state ∧
        Service.encodeDynamic crates state ty = .ok sent := by
  cases h with
  | pending => cases hresponse
  | thrown e =>
      cases hresponse
      cases hsent
  | unwritten result e =>
      cases hresponse
      cases hsent
  | returned result w json res hresult hw hround hreads =>
      obtain ⟨-, rfl⟩ := hreads
      obtain rfl := Option.some.inj hresponse
      obtain ⟨state, hstate, hencode⟩ := respondRead_state hsent
      exact ⟨result, w, json, state, hresult, hw, hround, Outcome.mapError_eq_ok.mp hstate, hencode⟩

theorem answers_readDataSource (h : Shares js crates) {service : Plugin.ProviderService} {native : JsDataSource}
    (hcty : service.provider.dataSourceCty typeName = some native.ty)
    (hhandler : service.provider.handler .dataSource typeName = some (native.erased crates .never)) {schema : Zod}
    {fn : Js → HandlerCtx → Script} (hfn : native.read = ctxAdapt js (some schema) fn)
    (config : Option Service.DynamicValue) :
    (∀ e, Service.decodeDynamic crates config native.ty = .error e →
      (service.readDataSource crates ⟨typeName, config⟩).ending.toOption =
        some { diagnostics := Service.errorDiag "failed to decode data source config" e.toString }) ∧
      ∀ value, Service.decodeDynamic crates config native.ty = .ok value → value.isFinite = true →
        ∃ query, Shows query (encodeJson crates value) ∧
          Answers "data source read" (ReadsDocument crates native.ty "data source read")
            (fn (reviveSets schema query) ⟨.undefined, false⟩) (respondRead crates native.ty)
            (service.readDataSource crates ⟨typeName, config⟩).ending.toOption := by
  have hread : service.readDataSource crates ⟨typeName, config⟩ = Plugin.ProviderService.runUnder crates
      (some native.ty) (some (native.erased crates .never)) config (Plugin.unknownDataSource typeName)
      "failed to decode data source config" "read data source" ({ diagnostics := · }) Plugin.DynDataSource.read
      (respondRead crates) := by
    rw [Plugin.ProviderService.readDataSource, hcty, hhandler]
    rfl
  rw [hread]
  constructor
  · intro e he
    rw [Plugin.ProviderService.runUnder_of_error he]
    rfl
  · intro value hvalue hfinite
    rw [Plugin.ProviderService.runUnder_of_ok hvalue, JsDataSource.erased, hfn]
    exact answers_callDocument h (some schema) fn (document_encodeJson h.toHoldsNumbers hfinite)
      (fun document hdoc => reads_document h.toReads native.ty "data source read" hdoc) "read data source"
      (respondRead crates native.ty)

/-- The service has the data source that an author wrote. -/
structure HostsData (crates : Crates) (lib : Library) (js : JsText) (service : Plugin.ProviderService)
    (dataSource : DataSourceDef) (typeName : String) (ty : Ty) : Prop where
  cty : service.provider.dataSourceCty typeName = some ty
  handler : service.provider.handler .dataSource typeName =
    some ((dataSource.toNative lib js typeName ty).erased crates .never)

/-- A data source is read as its author reads it. -/
theorem readDataSource_authored (h : Shares js crates) {service : Plugin.ProviderService} {dataSource : DataSourceDef}
    {ty : Ty} (hhosts : HostsData crates lib js service dataSource typeName ty)
    (config : Option Service.DynamicValue) :
    (∀ e, Service.decodeDynamic crates config ty = .error e →
      (service.readDataSource crates ⟨typeName, config⟩).ending.toOption =
        some { diagnostics := Service.errorDiag "failed to decode data source config" e.toString }) ∧
      ∀ value, Service.decodeDynamic crates config ty = .ok value → value.isFinite = true →
        ∃ query, Shows query (encodeJson crates value) ∧
          Answers "data source read" (ReadsDocument crates ty "data source read")
            (dataSource.readFn lib typeName (reviveSets dataSource.schema query) ⟨.undefined, false⟩)
            (respondRead crates ty) (service.readDataSource crates ⟨typeName, config⟩).ending.toOption :=
  answers_readDataSource h hhosts.cty hhosts.handler rfl config

def titleDef : DataSourceDef where
  schema := noteDef.schema
  read config _ := ⟨[.progress "reading"], .returned config⟩
  validate := none

def titleBlock : Block := ⟨[{ AttributeSchema.new "title" .string with optional := true }], []⟩

/-- A provider with one data source. -/
def dataService (block : Block) (native : JsDataSource) : Plugin.ProviderService := .new {
  block := none
  schema := fun
    | .dataSource => [("title", block)]
    | _ => []
  eager := Plugin.HandlerMap.empty.insert .dataSource "title" (native.erased Crates.real .never)
  configureFn := none
  configured := none
  dynConfigure := none
  validateConfig := none }

def titleService : Plugin.ProviderService :=
  dataService titleBlock (titleDef.toNative plainLibrary JsText.real "title" titleBlock.ctyType)

theorem hosts_titleService :
    HostsData Crates.real plainLibrary JsText.real titleService titleDef "title" titleBlock.ctyType := ⟨rfl, rfl⟩

def titleConfig : Service.DynamicValue := ⟨[0x81, 0xA5, 0x74, 0x69, 0x74, 0x6C, 0x65, 0xA1, 0x61], []⟩

def givenTitle : Fields := OrdMap.empty.insert "title" (.string "a")

theorem readDataSource_authored_title : ∃ query, Shows query (encodeJson Crates.real (.object givenTitle)) ∧
    Answers "data source read" (ReadsDocument Crates.real titleBlock.ctyType "data source read")
      (titleDef.readFn plainLibrary "title" (reviveSets titleDef.schema query) ⟨.undefined, false⟩)
      (respondRead Crates.real titleBlock.ctyType)
      (titleService.readDataSource Crates.real ⟨"title", some titleConfig⟩).ending.toOption := by
  obtain ⟨-, hread⟩ := readDataSource_authored real_sharesEnvelopes hosts_titleService (some titleConfig)
  exact hread (.object givenTitle) rfl rfl

def titlesDef : DataSourceListDef where
  schema := .ofList [("title", .leaf {} .string)] (List.nodup_singleton _)
  tagged name := name = "title"
  searchKeys := []
  list _ _ := ⟨[], .returned [.object (.ofMembers [("title", .string "a")]),
    .object (.ofMembers [("title", .string "b")])]⟩

def titlesBlock : Block :=
  ⟨[{ AttributeSchema.new "title" .string with optional := true },
    { AttributeSchema.new "results" (.list (.object [⟨"title", .string, false⟩])) with computed := true }], []⟩

def titlesService : Plugin.ProviderService :=
  dataService titlesBlock (titlesDef.toNative plainLibrary JsText.real "title" titlesBlock.ctyType)

def titleCty : Json := .array [.string "object", .object (OrdMap.ofList [("title", .string "string")])]

def titleAttribute : AttributeJson := wrapperAttribute "title" (.string "string") false

def resultsAttribute : AttributeJson := wrapperAttribute "results" (.array [.string "list", titleCty]) true

theorem hosts_titlesService : HostsDataList Crates.real plainLibrary JsText.real
    titlesService titlesDef "title"
    titlesBlock where
  described := by
    refine ⟨[titleAttribute, resultsAttribute], rfl, blockFromSchemaValue_describedBy ?_⟩
    have htitle : attributeFromValue Crates.real titleAttribute.toJson = .ok (titleAttribute.toSchema .string) :=
      attributeFromValue_toJson Crates.real_readsPlain rfl rfl
    have hresults : attributeFromValue Crates.real resultsAttribute.toJson =
        .ok (resultsAttribute.toSchema (.list (.object [⟨"title", .string, false⟩]))) :=
      attributeFromValue_toJson Crates.real_readsPlain rfl rfl
    rw [List.map_cons, List.map_cons, List.map_nil, List.mapM_cons, htitle, List.mapM_cons, hresults]
    rfl
  cty := rfl
  handler := rfl

def titlesConfig : Service.DynamicValue :=
  ⟨[0x82, 0xA7, 0x72, 0x65, 0x73, 0x75, 0x6C, 0x74, 0x73, 0xC0, 0xA5, 0x74, 0x69, 0x74, 0x6C, 0x65, 0xA1, 0x61], []⟩

def givenTitles : Fields := givenTitle.insert "results" .null

end

end Node

end TofuSdk
