import TofuSdk.Constraint
import TofuSdk.Dispatch
import TofuSdk.RealCrates

namespace TofuSdk

namespace Tfplugin6

inductive StringKind
  | plain | markdown
deriving DecidableEq

def StringKind.toI32 : StringKind → Int
  | .plain => 0
  | .markdown => 1

namespace Schema

structure ObjectOf (α : Type) where
  attributes : List α
  nesting : Int
  minItems : Int
  maxItems : Int

structure Attribute where
  name : String
  type : Bytes
  nestedType : Option (ObjectOf Attribute)
  description : String
  required : Bool
  optional : Bool
  computed : Bool
  sensitive : Bool
  descriptionKind : Int
  deprecated : Bool
  writeOnly : Bool
  deprecationMessage : String

structure NestedBlockOf (β : Type) where
  typeName : String
  block : Option β
  nesting : Int
  minItems : Int
  maxItems : Int

structure Block where
  version : Int
  attributes : List Attribute
  blockTypes : List (NestedBlockOf Block)
  description : String
  descriptionKind : Int
  deprecated : Bool
  deprecationMessage : String
  computed : Bool

abbrev NestedBlock := NestedBlockOf Block

inductive NestingMode
  | invalid | single | list | set | map | group
deriving DecidableEq

namespace NestingMode

def toI32 : NestingMode → Int
  | invalid => 0
  | single => 1
  | list => 2
  | set => 3
  | map => 4
  | group => 5

def ofI32 (n : Int) : Option NestingMode := [invalid, single, list, set, map, group].find? (·.toI32 == n)

end NestingMode

end Schema

section

variable (crates : Crates)

def emitAttribute (attr : AttributeSchema) : Schema.Attribute where
  name := attr.name
  type := attr.ty.toCtyJsonBytes crates
  nestedType := none
  description := attr.description.getD ""
  required := attr.required
  optional := attr.optional
  computed := attr.computed
  sensitive := attr.sensitive
  descriptionKind := StringKind.plain.toI32
  deprecated := attr.deprecated.isSome
  writeOnly := attr.writeOnly
  deprecationMessage := attr.deprecated.getD ""

def nestingMode : NestingMode → Schema.NestingMode
  | .single => .single
  | .list => .list
  | .set => .set
  | .map => .map

mutual

def emitBlock (block : Block) : Schema.Block :=
  match block with
  | ⟨attributes, nestedBlocks⟩ =>
      { version := 0
        attributes := attributes.map (emitAttribute crates)
        blockTypes := emitNestedBlocks nestedBlocks
        description := ""
        descriptionKind := StringKind.plain.toI32
        deprecated := false
        deprecationMessage := ""
        computed := false }
termination_by structural block

def emitNestedBlocks (nestedBlocks : List NestedBlock) : List Schema.NestedBlock :=
  match nestedBlocks with
  | [] => []
  | ⟨name, nesting, block, minItems, maxItems⟩ :: rest =>
      ⟨name, some (emitBlock block), (nestingMode nesting).toI32, minItems, maxItems⟩ :: emitNestedBlocks rest
termination_by structural nestedBlocks

end

def emitNestedBlock (nested : NestedBlock) : Schema.NestedBlock where
  typeName := nested.name
  block := some (emitBlock crates nested.block)
  nesting := (nestingMode nested.nesting).toI32
  minItems := nested.minItems
  maxItems := nested.maxItems

theorem emitNestedBlocks_eq (nestedBlocks : List NestedBlock) :
    emitNestedBlocks crates nestedBlocks = nestedBlocks.map (emitNestedBlock crates) := by
  induction nestedBlocks with
  | nil => rfl
  | cons nested rest ih => rw [emitNestedBlocks, ih, List.map_cons, emitNestedBlock]

def clientAttribute (attr : Schema.Attribute) : Except String ObjectAttr :=
  (fun ty => ⟨attr.name, ty, !attr.required⟩) <$> Ty.fromCtyJsonBytes crates attr.type

def clientNesting (nesting : Int) (inner : Ty) : Except String Ty :=
  match Schema.NestingMode.ofI32 nesting with
  | some .single => .ok inner
  | some .list => .ok (.list inner)
  | some .set => .ok (.set inner)
  | some .map => .ok (.map inner)
  | _ => .error "unsupported nesting mode"

mutual

/-- The object type of a block's values, from the schema alone. -/
def clientType (block : Schema.Block) : Except String Ty :=
  match block with
  | ⟨_, attributes, blockTypes, _, _, _, _, _⟩ => do
      let attrs ← attributes.mapM (clientAttribute crates)
      let nested ← clientNestedTypes blockTypes
      pure (.object (attrs ++ nested))
termination_by structural block

def clientNestedTypes (blockTypes : List Schema.NestedBlock) : Except String (List ObjectAttr) :=
  match blockTypes with
  | [] => .ok []
  | ⟨typeName, block, nesting, _, _⟩ :: rest => do
      let inner ← clientBody block
      let ty ← clientNesting nesting inner
      let types ← clientNestedTypes rest
      pure (⟨typeName, ty, true⟩ :: types)
termination_by structural blockTypes

def clientBody (block : Option Schema.Block) : Except String Ty :=
  match block with
  | some block => clientType block
  | none => .error "a nested block without a body"
termination_by structural block

end

def clientNestedBlock (nested : Schema.NestedBlock) : Except String ObjectAttr := do
  let inner ← clientBody crates nested.block
  let ty ← clientNesting nested.nesting inner
  pure ⟨nested.typeName, ty, true⟩

theorem clientNestedTypes_eq (blockTypes : List Schema.NestedBlock) :
    clientNestedTypes crates blockTypes = blockTypes.mapM (clientNestedBlock crates) := by
  induction blockTypes with
  | nil => rfl
  | cons nested rest ih =>
      rw [clientNestedTypes, ih, List.mapM_cons, clientNestedBlock]
      simp only [bind_assoc, pure_bind]

variable {crates}

theorem fromCtyJsonBytes_toCtyJsonBytes (hc : crates.ReadsTypes) {ty : Ty} (hn : ty.distinctNames = true) :
    Ty.fromCtyJsonBytes crates (ty.toCtyJsonBytes crates) = .ok ty.ordered := by
  rw [Ty.fromCtyJsonBytes, Ty.toCtyJsonBytes, hc.read]
  exact Ty.fromCtyJson_toCtyJson hn

theorem clientAttribute_emitAttribute (hc : crates.ReadsTypes) {attr : AttributeSchema}
    (hn : attr.ty.distinctNames = true) :
    clientAttribute crates (emitAttribute crates attr) = .ok ⟨attr.name, attr.ty.ordered, !attr.required⟩ := by
  rw [clientAttribute, emitAttribute]
  dsimp only
  rw [fromCtyJsonBytes_toCtyJsonBytes hc hn, Outcome.map_ok]

theorem clientNestedBlock_emitNestedBlock {nested : NestedBlock} {ty : Ty}
    (h : clientType crates (emitBlock crates nested.block) = .ok ty)
    (hty : ty.Reordered nested.block.ctyType) :
    ∃ attr, clientNestedBlock crates (emitNestedBlock crates nested) = .ok attr ∧ attr.name = nested.name ∧
      attr.optional = true ∧ attr.ty.Reordered nested.ctyType := by
  rw [clientNestedBlock, emitNestedBlock, NestedBlockOf.ctyType]
  dsimp only
  rw [clientBody, h, Outcome.ok_bind]
  cases nested.nesting with
  | single => exact ⟨_, rfl, rfl, rfl, hty⟩
  | list => exact ⟨_, rfl, rfl, rfl, .list _ _ hty⟩
  | set => exact ⟨_, rfl, rfl, rfl, .set _ _ hty⟩
  | map => exact ⟨_, rfl, rfl, rfl, .map _ _ hty⟩

theorem clientType_emitBlock (hc : crates.ReadsTypes) {block : Block} (hn : block.ctyType.distinctNames = true) :
    ∃ ty, clientType crates (emitBlock crates block) = .ok ty ∧ ty.Reordered block.ctyType := by
  induction block using Block.induct with
  | mk attributes nestedBlocks ih =>
      rw [Block.ctyType_eq, Ty.distinctNames_object] at hn
      obtain ⟨hnodup, htys⟩ := hn
      have hattributes : (attributes.map (emitAttribute crates)).mapM (clientAttribute crates) =
          .ok (attributes.map fun attr => ⟨attr.name, attr.ty.ordered, !attr.required⟩) := by
        rw [List.mapM_map]
        apply Outcome.mapM_eq_ok_map
        intro attr hattr
        refine clientAttribute_emitAttribute hc (htys ⟨attr.name, attr.ty, !attr.required⟩ ?_)
        exact List.mem_append_left _ (List.mem_map_of_mem hattr)
      have hnested : ∀ nested ∈ nestedBlocks, ∃ attr,
          clientNestedBlock crates (emitNestedBlock crates nested) = .ok attr ∧
            attr.name = nested.name ∧ attr.optional = true ∧ attr.ty.Reordered nested.ctyType := by
        intro nested hmem
        have hdistinct : nested.ctyType.distinctNames = true :=
          htys ⟨nested.name, nested.ctyType, true⟩ (List.mem_append_right _ (List.mem_map_of_mem hmem))
        have hinner : nested.block.ctyType.distinctNames = true := by
          rw [NestedBlockOf.ctyType] at hdistinct
          cases hmode : nested.nesting <;> rw [hmode] at hdistinct <;> exact hdistinct
        obtain ⟨ty, hty, hsame⟩ := ih nested hmem hinner
        exact clientNestedBlock_emitNestedBlock hty hsame
      have : Nonempty ObjectAttr := ⟨⟨"", .dynamic, false⟩⟩
      choose! derived hread hname hoptional hty using hnested
      have hblocks : (nestedBlocks.map (emitNestedBlock crates)).mapM (clientNestedBlock crates) =
          .ok (nestedBlocks.map derived) := by
        rw [List.mapM_map]
        exact Outcome.mapM_eq_ok_map hread
      refine ⟨.object (attributes.map (fun attr => ⟨attr.name, attr.ty.ordered, !attr.required⟩) ++
        nestedBlocks.map derived), ?_, ?_⟩
      · rw [emitBlock, clientType, hattributes, Outcome.ok_bind, emitNestedBlocks_eq, clientNestedTypes_eq, hblocks]
        rfl
      · rw [Block.ctyType_eq]
        have hmembers := @Ty.Reordered.of_map (AttributeSchema ⊕ NestedBlock)
          (attributes.map .inl ++ nestedBlocks.map .inr)
          (Sum.elim (fun attr => ⟨attr.name, attr.ty.ordered, !attr.required⟩) derived)
          (Sum.elim (fun attr => ⟨attr.name, attr.ty, !attr.required⟩)
            fun nested => ⟨nested.name, nested.ctyType, true⟩)
        simp only [List.map_append, List.map_map, List.forall_mem_append, List.forall_mem_map] at hmembers hnodup htys
        refine hmembers ⟨fun _ _ => rfl, hname⟩ hnodup ⟨fun _ _ => rfl, hoptional⟩ ⟨?_, hty⟩
        exact fun attr hattr => Ty.reordered_ordered (htys.1 attr hattr)

end

/-- The blocks that a service has values of, each with the type that it decodes
and encodes them with. -/
inductive Serves (provider : Plugin.Provider Plugin.Parts.real) : Block → Ty → Prop
  | config : Serves provider (provider.block.getD ⟨[], []⟩) provider.providerConfigTy
  | resource (name : String) (block : Block) (ty : Ty) : provider.schemas.resourceBlock name = some block →
      provider.schemas.resourceCty name = some ty → Serves provider block ty
  | dataSource (name : String) (block : Block) (ty : Ty) : provider.decoded .dataSource name = some block →
      provider.dataSourceCty name = some ty → Serves provider block ty
  | ephemeral (name : String) (block : Block) (ty : Ty) : provider.decoded .ephemeral name = some block →
      provider.ephemeralCty name = some ty → Serves provider block ty
  | stateStore (name : String) (block : Block) (ty : Ty) : provider.decoded .stateStore name = some block →
      provider.stateStoreCty name = some ty → Serves provider block ty
  | action (name : String) (block : Block) (ty : Ty) : provider.decoded .action name = some block →
      provider.actionCty name = some ty → Serves provider block ty
  | listResource (name : String) (schema : ListResourceSchema) :
      provider.schemas.listResourceSchema name = some schema → Serves provider schema.config schema.config.ctyType

theorem serves_ctyType {provider : Plugin.Provider Plugin.Parts.real} {block : Block} {ty : Ty}
    (h : Serves provider block ty) : ty = block.ctyType := by
  cases h with
  | config =>
      rw [Plugin.Provider.providerConfigTy]
      cases provider.block <;> rfl
  | resource name block ty hblock hty => exact Option.some.inj (hty.symm.trans (Provider.resourceCty_eq hblock))
  | listResource name schema hschema => rfl
  | dataSource name block ty hblock hty
  | ephemeral name block ty hblock hty
  | stateStore name block ty hblock hty
  | action name block ty hblock hty =>
      refine Option.some.inj (hty.symm.trans ?_)
      exact (congrArg (Option.map _) hblock).trans rfl

/-- The schema says the type that the values are decoded and encoded with. -/
theorem emitted_type (crates : Crates) (hc : crates.ReadsTypes) (block : Block)
    (hn : block.ctyType.distinctNames = true) :
    (∃ ty, clientType crates (emitBlock crates block) = .ok ty ∧ ty.Reordered block.ctyType) ∧
      ∀ provider ty, Serves provider block ty → ty = block.ctyType :=
  ⟨clientType_emitBlock hc hn, fun _ _ => serves_ctyType⟩

def rackBlock : Block :=
  ⟨[{ AttributeSchema.new "labels" (.map .string) with required := true }],
    [⟨"disk", .list, ⟨[.new "size" .number], []⟩, 0, 0⟩]⟩

theorem emitted_type_rack :
    (∃ ty, clientType Crates.real (emitBlock Crates.real rackBlock) = .ok ty ∧ ty.Reordered rackBlock.ctyType) ∧
      ∀ provider ty, Serves provider rackBlock ty → ty = rackBlock.ctyType :=
  emitted_type Crates.real Crates.real_readsTypes rackBlock (by decide)

end Tfplugin6

end TofuSdk
