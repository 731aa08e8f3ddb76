import TofuSdk.SchemaJson
import TofuSdk.RealCrates
import TofuSdk.Decode

namespace TofuSdk

namespace Json

def asBool : Json → Option Bool
  | .bool b => some b
  | _ => none

def asNumber : Json → Option VNumber
  | .number n => some n
  | _ => none

end Json

section

variable (crates : Crates)

def attributeFromValue (attr : Json) : Except String AttributeSchema := do
  let ao ← match attr with
    | .object fields => .ok fields
    | _ => .error "each attribute must be an object"
  let name ← match (ao.get? "name").bind Json.asString with
    | some name => .ok name
    | none => .error "attribute is missing a string `name`"
  let typeVal ← match ao.get? "type" with
    | some typeVal => .ok typeVal
    | none => .error ("attribute `" ++ name ++ "` is missing a `type`")
  let ty ← Ty.fromCtyJsonBytes crates (crates.toVec typeVal)
  let flag := fun key => ((ao.get? key).bind Json.asBool).getD false
  pure
    { name := name
      ty := ty
      description := (ao.get? "description").bind Json.asString
      required := flag "required"
      optional := flag "optional"
      computed := flag "computed"
      sensitive := flag "sensitive"
      writeOnly := flag "writeOnly"
      forceNew := flag "forceNew"
      deprecated := if flag "deprecated" then some "" else none
      default := none }

def nestingFromValue (name : String) (nesting : Option String) : Except String NestingMode :=
  match nesting with
  | some "single" => .ok .single
  | some "set" => .ok .set
  | some "map" => .ok .map
  | some "list" | none => .ok .list
  | some other => .error ("block `" ++ name ++ "` has unknown nesting `" ++ other ++ "`")

def nestedBlockFrom (crates : Crates) (bo : OrdMap String Json) (inner : Option (Except String Block)) :
    Except String NestedBlock := do
  let name ← match (bo.get? "name").bind Json.asString with
    | some name => .ok name
    | none => .error "block is missing a string `name`"
  let nesting ← nestingFromValue name ((bo.get? "nesting").bind Json.asString)
  let int := fun key => (bo.get? key).bind fun v => v.asNumber.bind crates.toI64
  let inner ← match inner with
    | some inner => .ok inner
    | none => .error ("block `" ++ name ++ "` is missing a `block` schema")
  let block ← inner
  pure ⟨name, nesting, block, ((int "minItems").map Int64.toInt).getD 0, ((int "maxItems").map Int64.toInt).getD 0⟩

mutual

def blockFromSchemaValue (parsed : Json) : Except String Block :=
  match parsed with
  | .object obj => do
      let attrs ← match obj.get? "attributes" with
        | some (.array attrs) => .ok attrs
        | _ => .error "schema must have an `attributes` array"
      let attributes ← attrs.mapM (attributeFromValue crates)
      let nestedBlocks ← ((blocksOfFields obj).get? "blocks").getD (.ok [])
      pure ⟨attributes, nestedBlocks⟩
  | _ => .error "schema must be a JSON object"
termination_by structural parsed

def blocksOfFields (fields : OrdMap String Json) : OrdMap String (Except String (List NestedBlock)) :=
  match fields with
  | ⟨keys, sorted, val⟩ => ⟨keys, sorted, fun i => blocksFromValue (val i)⟩
termination_by structural fields

def blocksFromValue (blocks : Json) : Except String (List NestedBlock) :=
  match blocks with
  | .array blocks => allFromValue blocks
  | _ => .ok []
termination_by structural blocks

def allFromValue (blocks : List Json) : Except String (List NestedBlock) :=
  match blocks with
  | [] => .ok []
  | b :: rest => do
      let nested ← nestedBlockFromValue b
      let nestedBlocks ← allFromValue rest
      pure (nested :: nestedBlocks)
termination_by structural blocks

def nestedBlockFromValue (value : Json) : Except String NestedBlock :=
  match value with
  | .object bo => nestedBlockFrom crates bo ((innerOfFields bo).get? "block")
  | _ => .error "each block must be an object"
termination_by structural value

def innerOfFields (fields : OrdMap String Json) : OrdMap String (Except String Block) :=
  match fields with
  | ⟨keys, sorted, val⟩ => ⟨keys, sorted, fun i => blockFromSchemaValue (val i)⟩
termination_by structural fields

end

end

/-- A document without numbers is read back from its text, and an integer that a
number was built from is the one it holds. -/
structure Crates.ReadsPlain (crates : Crates) : Prop where
  read : ∀ json : Json, json.plain = true → crates.fromSlice (crates.toVec json) = .ok json
  toI64 : ∀ i, crates.toI64 ⟨.i64 i⟩ = some i

theorem Crates.real_readsPlain : Crates.real.ReadsPlain where
  read _ := Crates.real_fromSlice_toVec
  toI64 _ := rfl

section

variable {crates : Crates}

def AttributeJson.toSchema (attr : AttributeJson) (ty : Ty) : AttributeSchema where
  name := attr.name
  ty := ty
  description := none
  required := attr.required
  optional := attr.optional
  computed := attr.computed
  sensitive := attr.sensitive
  writeOnly := attr.writeOnly
  forceNew := attr.forceNew
  deprecated := if attr.deprecated then some "" else none
  default := none

theorem attributeFromValue_toJson (hc : crates.ReadsPlain) {attr : AttributeJson} {ty : Ty}
    (hplain : attr.type.plain = true)
    (hty : Ty.fromCtyJson attr.type = .ok ty) :
    attributeFromValue crates attr.toJson = .ok (attr.toSchema ty) := by
  have hread : Ty.fromCtyJsonBytes crates (crates.toVec attr.type) = .ok ty := by
    rw [Ty.fromCtyJsonBytes, hc.read _ hplain]
    exact hty
  simp [attributeFromValue, AttributeJson.toJson, OrdMap.get?_ofList, Json.asString, Json.asBool, hread,
    AttributeJson.toSchema]

theorem blocksOfFields_eq (fields : OrdMap String Json) :
    blocksOfFields crates fields = fields.map (blocksFromValue crates) := by
  obtain ⟨keys, sorted, val⟩ := fields
  rfl

theorem innerOfFields_eq (fields : OrdMap String Json) :
    innerOfFields crates fields = fields.map (blockFromSchemaValue crates) := by
  obtain ⟨keys, sorted, val⟩ := fields
  rfl

theorem allFromValue_eq (blocks : List Json) :
    allFromValue crates blocks = blocks.mapM (nestedBlockFromValue crates) := by
  induction blocks with
  | nil => rfl
  | cons b rest ih => rw [allFromValue, ih, List.mapM_cons]

@[simp] theorem Json.asString_string (s : String) : (Json.string s).asString = some s := rfl

theorem blockFromSchemaValue_contents {attributes : List AttributeJson} {schemas : List AttributeSchema}
    {blocks : List Json}
    {nestedBlocks : List NestedBlock}
    (hattrs : (attributes.map AttributeJson.toJson).mapM (attributeFromValue crates) = .ok schemas)
    (hblocks : blocks.mapM (nestedBlockFromValue crates) = .ok nestedBlocks) :
    blockFromSchemaValue crates (.object (OrdMap.ofList
      [("attributes", .array (attributes.map AttributeJson.toJson)), ("blocks", .array blocks)])) =
      .ok ⟨schemas, nestedBlocks⟩ := by
  rw [blockFromSchemaValue, blocksOfFields_eq]
  simp [OrdMap.get?_ofList, hattrs, blocksFromValue, allFromValue_eq, hblocks]

theorem nestingFromValue_toJson (name : String) (nesting : NestingMode) :
    nestingFromValue name nesting.toJson.asString = .ok nesting := by
  cases nesting <;> rfl

theorem nestedBlockFromValue_toJson (hc : crates.ReadsPlain) {block : BlockJson} {attributes : List AttributeSchema}
    (hattrs : (block.attributes.map AttributeJson.toJson).mapM (attributeFromValue crates) = .ok attributes) :
    nestedBlockFromValue crates block.toJson =
      .ok ⟨block.name, block.nesting, ⟨attributes, []⟩, block.minItems.toInt, block.maxItems.toInt⟩ := by
  have hinner : blockFromSchemaValue crates (blockContentsJson block.attributes) = .ok ⟨attributes, []⟩ :=
    blockFromSchemaValue_contents hattrs rfl
  rw [BlockJson.toJson, nestedBlockFromValue, innerOfFields_eq]
  simp [nestedBlockFrom, OrdMap.get?_ofList, integerJson, Json.asNumber, hc.toI64,
    nestingFromValue_toJson, hinner]

end

end TofuSdk
