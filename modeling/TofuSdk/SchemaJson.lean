import TofuSdk.Zod
import TofuSdk.Schema

namespace TofuSdk

structure AttributeJson where
  name : String
  type : Json
  required : Bool
  optional : Bool
  computed : Bool
  forceNew : Bool
  sensitive : Bool
  writeOnly : Bool
  deprecated : Bool
  identity : Bool

def AttributeJson.toJson (attr : AttributeJson) : Json :=
  .object (OrdMap.ofList [("name", .string attr.name), ("type", attr.type), ("required", .bool attr.required),
    ("optional", .bool attr.optional), ("computed", .bool attr.computed), ("forceNew", .bool attr.forceNew),
    ("sensitive", .bool attr.sensitive), ("writeOnly", .bool attr.writeOnly),
    ("deprecated", .bool attr.deprecated), ("identity", .bool attr.identity)])

def integerJson (i : Int64) : Json := .number ⟨.i64 i⟩

def NestingMode.toJson : NestingMode → Json
  | .single => .string "single"
  | .list => .string "list"
  | .set => .string "set"
  | .map => .string "map"

def blockContentsJson (attributes : List AttributeJson) : Json :=
  .object (OrdMap.ofList [("attributes", .array (attributes.map AttributeJson.toJson)), ("blocks", .array [])])

structure BlockJson where
  name : String
  nesting : NestingMode
  minItems : Int64
  maxItems : Int64
  attributes : List AttributeJson

def BlockJson.toJson (block : BlockJson) : Json :=
  .object (OrdMap.ofList [("name", .string block.name), ("nesting", block.nesting.toJson),
    ("minItems", integerJson block.minItems), ("maxItems", integerJson block.maxItems),
    ("block", blockContentsJson block.attributes)])

def attributeFromField (name : String) (ft : Zod) : Except String AttributeJson := do
  let ⟨_, optional, tfMeta⟩ := ft.peel
  let computed := tfMeta.computed == some true
  let type ← ctyFromZod ft
  pure
    { name := name
      type := if tfMeta.set == some true then asSet type else type
      required := !optional && !computed
      optional := optional && !computed
      computed := computed
      forceNew := tfMeta.forceNew == some true
      sensitive := tfMeta.sensitive == some true
      writeOnly := tfMeta.writeOnly == some true
      deprecated := tfMeta.deprecated == some true
      identity := tfMeta.identity == some true }

def Zod.fields : Zod → List (String × Zod)
  | .object _ shape => shape.toList
  | _ => []

def attributesFromObject (obj : Zod) : Except String (List AttributeJson) :=
  obj.peel.core.fields.mapM fun p => attributeFromField p.1 p.2

def blockFromField (name : String) (ft : Zod) (markedSet : Bool) : Except String BlockJson :=
  match ft.peel.core with
  | .array _ element =>
      (fun attributes => ⟨name, if markedSet then .set else .list, 0, 0, attributes⟩) <$>
        attributesFromObject element
  | core =>
      (fun attributes => ⟨name, .single, if ft.peel.optional then 0 else 1, 1, attributes⟩) <$>
        attributesFromObject core

/-- The legacy dispositions, each a list of field names. -/
structure Dispositions where
  computed : List String := []
  forceNew : List String := []
  sensitive : List String := []
  writeOnly : List String := []
  deprecated : List String := []
  identity : List String := []
  set : List String := []
  blocks : List String := []

namespace Dispositions

variable (dispositions : Dispositions)

def isBlock (name : String) (ft : Zod) : Bool := ft.peel.tfMeta.block == some true || dispositions.blocks.contains name

def isSet (name : String) (ft : Zod) : Bool := ft.peel.tfMeta.set == some true || dispositions.set.contains name

end Dispositions

def attributeFromSchema (dispositions : Dispositions) (name : String) (ft : Zod) : Except String AttributeJson := do
  let ⟨_, optional, tfMeta⟩ := ft.peel
  let isComputed := tfMeta.computed == some true || dispositions.computed.contains name
  let isRequired := !optional && !isComputed
  let type ← ctyFromZod ft
  pure
    { name := name
      type := if dispositions.isSet name ft then asSet type else type
      required := isRequired
      optional := !isRequired && !isComputed
      computed := isComputed
      forceNew := tfMeta.forceNew == some true || dispositions.forceNew.contains name
      sensitive := tfMeta.sensitive == some true || dispositions.sensitive.contains name
      writeOnly := tfMeta.writeOnly == some true || dispositions.writeOnly.contains name
      deprecated := tfMeta.deprecated == some true || dispositions.deprecated.contains name
      identity := tfMeta.identity == some true || dispositions.identity.contains name }

def schemaField (dispositions : Dispositions) (acc : List AttributeJson × List BlockJson) (field : String × Zod) :
    Except String (List AttributeJson × List BlockJson) :=
  let (name, ft) := field
  if dispositions.isBlock name ft then
    (fun block => (acc.1, acc.2 ++ [block])) <$> blockFromField name ft (dispositions.isSet name ft)
  else (fun attr => (acc.1 ++ [attr], acc.2)) <$> attributeFromSchema dispositions name ft

def schemaJson (schema : ZodShape) (dispositions : Dispositions) : Except String Json := do
  let (attributes, blocks) ← schema.toList.foldlM (schemaField dispositions) ([], [])
  pure (.object (OrdMap.ofList [("attributes", .array (attributes.map AttributeJson.toJson)),
    ("blocks", .array (blocks.map BlockJson.toJson))]))

theorem schemaField_foldlM {dispositions : Dispositions} {fields : List (String × Zod)}
    {acc out : List AttributeJson × List BlockJson} (h : fields.foldlM (schemaField dispositions) acc = .ok out) :
    ∃ attributes blocks, out = (acc.1 ++ attributes, acc.2 ++ blocks) ∧
      (fields.filter fun p => !dispositions.isBlock p.1 p.2).mapM
        (fun p => attributeFromSchema dispositions p.1 p.2) = .ok attributes ∧
      (fields.filter fun p => dispositions.isBlock p.1 p.2).mapM
        (fun p => blockFromField p.1 p.2 (dispositions.isSet p.1 p.2)) = .ok blocks := by
  induction fields generalizing acc with
  | nil =>
      cases h
      exact ⟨[], [], by simp, rfl, rfl⟩
  | cons p fields ih =>
      rw [List.foldlM_cons] at h
      obtain ⟨acc', hstep, h⟩ := Outcome.bind_eq_ok.mp h
      obtain ⟨attributes, blocks, rfl, hattrs, hblocks⟩ := ih h
      rw [schemaField] at hstep
      split_ifs at hstep with hblock
      · obtain ⟨block, hb, rfl⟩ := Outcome.map_eq_ok.mp hstep
        refine ⟨attributes, block :: blocks, by simp, ?_, ?_⟩
        · rw [List.filter_cons_of_neg (by simpa using hblock), hattrs]
        · rw [List.filter_cons_of_pos (by simpa using hblock), List.mapM_cons, hb, hblocks]
          rfl
      · obtain ⟨attr, ha, rfl⟩ := Outcome.map_eq_ok.mp hstep
        refine ⟨attr :: attributes, blocks, by simp, ?_, ?_⟩
        · rw [List.filter_cons_of_pos (by simpa using hblock), List.mapM_cons, ha, hattrs]
          rfl
        · rw [List.filter_cons_of_neg (by simpa using hblock), hblocks]

end TofuSdk
