import TofuSdk.Markers

namespace TofuSdk

inductive SearchKind
  | exclusive
  | shared
deriving DecidableEq

def Field.searchKind (field : Field) : Except ReflectError (Option SearchKind) :=
  match field.attrs.searchKey with
  | none => .ok none
  | some ⟨true, false⟩ => .ok (some .exclusive)
  | some ⟨false, true⟩ => .ok (some .shared)
  | some _ => .error (.invalidSearchKey field.name)

/-- The read-only output that a model attribute is in a data source. -/
def asComputed (attr : AttributeSchema) : AttributeSchema :=
  { attr with required := false, optional := false, computed := true, forceNew := false, writeOnly := false }

def asInput (attr : AttributeSchema) (required : Bool) : AttributeSchema :=
  { attr with required := required, optional := !required, computed := false, forceNew := false, writeOnly := false }

mutual

def computedBlock (block : Block) : Block :=
  match block with
  | ⟨attributes, nestedBlocks⟩ => ⟨attributes.map asComputed, asComputedBlocks nestedBlocks⟩
termination_by structural block

def asComputedBlocks (nestedBlocks : List NestedBlock) : List NestedBlock :=
  match nestedBlocks with
  | [] => []
  | ⟨name, nesting, block, _, maxItems⟩ :: rest =>
      ⟨name, nesting, computedBlock block, 0, maxItems⟩ :: asComputedBlocks rest
termination_by structural nestedBlocks

end

def asComputedBlock (nested : NestedBlock) : NestedBlock :=
  { nested with minItems := 0, block := computedBlock nested.block }

namespace Shape

def dataSourceFields {φ : Type} (fields : StructFields φ) : Except ReflectError Block :=
  match fields with
  | .nil => .ok ⟨[], []⟩
  | .cons field shape rest =>
      if field.attrs.block then do
        let nested ← nestedBlock field.key false shape
        let block ← dataSourceFields rest
        pure ⟨block.attributes, asComputedBlock nested :: block.nestedBlocks⟩
      else do
        let attr ← attributeFromField field shape
        let kind ← field.searchKind
        let block ← dataSourceFields rest
        let attr := if kind = some .exclusive then asInput attr true else asComputed attr
        pure ⟨attr :: block.attributes, block.nestedBlocks⟩

def reflectDataSource {α : Type} (shape : Shape α) : Except ReflectError Block :=
  match shape with
  | .struct fields => dataSourceFields fields
  | .formatProxy shape => reflectDataSource shape
  | _ => .error .notAStruct

def modelAttributes {φ : Type} (fields : StructFields φ) :
    Except ReflectError (List (AttributeSchema × Option SearchKind)) :=
  match fields with
  | .nil => .ok []
  | .cons field shape rest => do
      let attr ← attributeFromField field shape
      let kind ← field.searchKind
      let others ← modelAttributes rest
      pure ((attr, kind) :: others)

/-- The block of a plural data source: shared keys are optional, the objects
found are computed. -/
def reflectDataSourceList {α : Type} (shape : Shape α) : Except ReflectError Block :=
  match shape with
  | .struct fields => do
      let attributes ← modelAttributes fields
      let element := Ty.object (attributes.map fun p => ⟨p.1.name, p.1.ty, true⟩)
      let keys := (attributes.filter fun p => p.2 = some .shared).map fun p => asInput p.1 false
      let results := { asComputed (AttributeSchema.new "results" (.list element)) with
        description := some "Every object matching the search keys." }
      pure ⟨keys ++ [results], []⟩
  | .formatProxy shape => reflectDataSourceList shape
  | _ => .error .notAStruct

end Shape

/-- An attribute is required, or may be left out because it is optional or
computed; and what is never stored is not computed. -/
structure AttributeSchema.Accepted (attr : AttributeSchema) : Prop where
  disposed : attr.required = true ∧ attr.optional = false ∧ attr.computed = false ∨
    attr.required = false ∧ (attr.optional = true ∨ attr.computed = true)
  given : ¬(attr.writeOnly = true ∧ attr.computed = true)

namespace Block

/-- The blocks nested in a block at any depth. -/
inductive HasNested : Block → NestedBlock → Prop
  | here (block : Block) (nested : NestedBlock) : nested ∈ block.nestedBlocks → HasNested block nested
  | within (block : Block) (nested inner : NestedBlock) : nested ∈ block.nestedBlocks →
      HasNested nested.block inner → HasNested block inner

/-- Nothing in a set of blocks is write-only: its elements cannot be paired
with those of the configuration. -/
def Paired (nested : NestedBlock) : Prop :=
  nested.nesting = .set → ∀ attr, nested.block.HasAttribute attr → attr.writeOnly = false

structure Accepted (block : Block) : Prop where
  attributes : ∀ attr, block.HasAttribute attr → attr.Accepted
  sets : ∀ nested, block.HasNested nested → Paired nested

theorem forall_hasNested {P : NestedBlock → Prop} {block : Block} : (∀ nested, block.HasNested nested → P nested) ↔
    ∀ nested ∈ block.nestedBlocks, P nested ∧ ∀ inner, nested.block.HasNested inner → P inner := by
  constructor
  · intro h nested hn
    exact ⟨h nested (.here block nested hn), fun inner hi => h inner (.within block nested inner hn hi)⟩
  · intro h nested hn
    cases hn with
    | here _ _ hn => exact (h nested hn).1
    | within _ outer _ hn hi => exact (h outer hn).2 nested hi

theorem hasAttribute_of_hasNested {block : Block} {nested : NestedBlock} {attr : AttributeSchema}
    (h : block.HasNested nested) (ha : nested.block.HasAttribute attr) : block.HasAttribute attr := by
  induction h with
  | here block _ hn => exact .nested block _ attr hn ha
  | within block outer inner hn _ ih => exact .nested block outer attr hn (ih ha)

theorem accepted_of_notWriteOnly {block : Block}
    (h : ∀ attr, block.HasAttribute attr → attr.Accepted ∧ attr.writeOnly = false) : block.Accepted where
  attributes attr ha := (h attr ha).1
  sets _ hn _ attr ha := (h attr (hasAttribute_of_hasNested hn ha)).2

end Block

theorem accepted_asComputed (attr : AttributeSchema) : (asComputed attr).Accepted where
  disposed := .inr ⟨rfl, .inr rfl⟩
  given h := Bool.false_ne_true h.1

theorem accepted_asInput (attr : AttributeSchema) (required : Bool) : (asInput attr required).Accepted where
  disposed := by cases required <;> simp [asInput]
  given h := Bool.false_ne_true h.1

theorem asComputedBlocks_eq (nestedBlocks : List NestedBlock) :
    asComputedBlocks nestedBlocks = nestedBlocks.map asComputedBlock := by
  induction nestedBlocks with
  | nil => rfl
  | cons nested rest ih => exact congrArg (asComputedBlock nested :: ·) ih

theorem hasAttribute_computedBlock (block : Block) :
    ∀ attr, (computedBlock block).HasAttribute attr → ∃ attr', attr = asComputed attr' := by
  induction block using Block.induct with
  | mk attributes nestedBlocks ih =>
      rw [computedBlock, asComputedBlocks_eq, Block.forall_hasAttribute, List.forall_mem_map, List.forall_mem_map]
      exact ⟨fun attr _ => ⟨attr, rfl⟩, ih⟩

theorem notWriteOnly_asComputedBlock (nested : NestedBlock) :
    ∀ attr, (asComputedBlock nested).block.HasAttribute attr → attr.Accepted ∧ attr.writeOnly = false := by
  intro attr ha
  obtain ⟨attr', rfl⟩ := hasAttribute_computedBlock nested.block attr ha
  exact ⟨accepted_asComputed attr', rfl⟩

theorem accepted_asComputedBlock (nested : NestedBlock) : (asComputedBlock nested).block.Accepted :=
  Block.accepted_of_notWriteOnly (notWriteOnly_asComputedBlock nested)

namespace Shape

mutual

def reflectable {α : Type} (shape : Shape α) : Bool :=
  match shape with
  | .struct fields => reflectableFields fields
  | .formatProxy shape => reflectable shape
  | _ => false
termination_by structural shape

def reflectableFields {φ : Type} (fields : StructFields φ) : Bool :=
  match fields with
  | .nil => true
  | .cons field shape rest =>
      (if field.attrs.block then reflectableNested false shape
        else (shape.mapType field.key).toBool && !(field.attrs.writeOnly && field.attrs.computed)) &&
      reflectableFields rest
termination_by structural fields

def reflectableNested {α : Type} (peeled : Bool) (shape : Shape α) : Bool :=
  match shape with
  | .option t => !peeled && reflectableNested true t
  | .list elem _ => reflectable elem
  | .set elem _ => reflectable elem
  | .map key val _ => key.isStringLike && reflectable val
  | .struct fields => reflectableFields fields
  | .formatProxy shape => reflectableNested peeled shape
  | _ => false
termination_by structural shape

end

mutual

/-- Is no attribute in a set of blocks write-only? -/
def pairsSecrets {α : Type} (shape : Shape α) : Bool :=
  match shape with
  | .option t => pairsSecrets t
  | .list elem _ => pairsSecrets elem
  | .set elem _ => (attributeFields elem).all fun field => !field.attrs.writeOnly
  | .map _ val _ => pairsSecrets val
  | .struct fields => pairSecrets fields
  | .formatProxy shape => pairsSecrets shape
  | _ => true
termination_by structural shape

def pairSecrets {φ : Type} (fields : StructFields φ) : Bool :=
  match fields with
  | .nil => true
  | .cons field shape rest => (!field.attrs.block || pairsSecrets shape) && pairSecrets rest
termination_by structural fields

end

theorem attributeFromField_isOk {α : Type} (field : Field) (shape : Shape α) :
    (∃ attr, attributeFromField field shape = .ok attr) ↔
      ((shape.mapType field.key).toBool && !(field.attrs.writeOnly && field.attrs.computed)) = true := by
  rw [attributeFromField]
  cases hty : shape.mapType field.key with
  | error e => simp [Except.toBool]
  | ok ty => cases hboth : field.attrs.writeOnly && field.attrs.computed <;> simp [Except.toBool]

theorem reflectable_iff {α : Type} (shape : Shape α) :
    ((∃ block, shape.blockFromShape = .ok block) ↔ shape.reflectable = true) ∧
    ∀ name peeled, (∃ nested, nestedBlock name peeled shape = .ok nested) ↔ reflectableNested peeled shape = true := by
  induction shape using Shape.rec (motive_2 := fun _ fields =>
      (∃ block, blockFields fields = .ok block) ↔ reflectableFields fields = true) with
  | scalar | other | tfValue | proxy =>
      exact ⟨iff_of_false (by rintro ⟨_, h⟩; cases h) Bool.false_ne_true,
        fun _ _ => iff_of_false (by rintro ⟨_, h⟩; cases h) Bool.false_ne_true⟩
  | option t ih =>
      refine ⟨iff_of_false (by rintro ⟨_, h⟩; cases h) Bool.false_ne_true, ?_⟩
      intro name peeled
      rw [nestedBlock, reflectableNested]
      cases peeled with
      | true => simp
      | false => simpa using ih.2 name true
  | list elem _ ih | set elem _ ih =>
      refine ⟨iff_of_false (by rintro ⟨_, h⟩; cases h) Bool.false_ne_true, ?_⟩
      intro name peeled
      rw [nestedBlock, reflectableNested, Outcome.exists_map_eq_ok]
      exact ih.1
  | map key val _ _ ih =>
      refine ⟨iff_of_false (by rintro ⟨_, h⟩; cases h) Bool.false_ne_true, ?_⟩
      intro name peeled
      rw [nestedBlock, reflectableNested]
      cases key.isStringLike with
      | true => rw [if_pos rfl, Outcome.exists_map_eq_ok, Bool.true_and, ih.1]
      | false => simp
  | struct fields ih =>
      refine ⟨ih, ?_⟩
      intro name peeled
      rw [nestedBlock, reflectableNested, Outcome.exists_map_eq_ok, ih]
  | formatProxy shape ih => exact ih
  | nil => exact iff_of_true ⟨_, rfl⟩ rfl
  | cons field shape rest ih ihs =>
      rename_i ihs
      rw [blockFields, reflectableFields, Bool.and_eq_true]
      have hrest : ∀ f : Block → Block, (∃ b, (do let block ← blockFields rest; pure (f block)) = .ok b) ↔
          reflectableFields rest = true := by
        intro f
        refine (Outcome.exists_bind_eq_ok fun block _ => iff_of_true ⟨f block, rfl⟩ trivial).trans ?_
        rw [and_true, ihs]
      cases hblock : field.attrs.block with
      | true =>
          rw [if_pos rfl, if_pos rfl, Outcome.exists_bind_eq_ok fun nested _ => hrest _, ih.2]
      | false =>
          rw [if_neg Bool.false_ne_true, if_neg Bool.false_ne_true, Outcome.exists_bind_eq_ok fun attr _ => hrest _,
            attributeFromField_isOk]

/-- The sets of blocks that a model becomes hold no write-only attribute exactly
when those of the model do. -/
theorem paired_iff {α : Type} (shape : Shape α) :
    (∀ block, shape.blockFromShape = .ok block →
      ((∀ nested, block.HasNested nested → Block.Paired nested) ↔ shape.pairsSecrets = true)) ∧
    ∀ name peeled nested, nestedBlock name peeled shape = .ok nested →
      ((Block.Paired nested ∧ ∀ inner, nested.block.HasNested inner → Block.Paired inner) ↔
        shape.pairsSecrets = true) := by
  induction shape using Shape.rec (motive_2 := fun _ fields => ∀ block, blockFields fields = .ok block →
      ((∀ nested, block.HasNested nested → Block.Paired nested) ↔ pairSecrets fields = true)) with
  | scalar | other | tfValue | proxy => exact ⟨fun _ h => (by cases h), fun _ _ _ h => (by cases h)⟩
  | option t ih =>
      refine ⟨fun _ h => (by cases h), ?_⟩
      intro name peeled nested h
      rw [nestedBlock] at h
      split_ifs at h
      exact ih.2 name true nested h
  | list elem _ ih =>
      refine ⟨fun _ h => (by cases h), ?_⟩
      intro name peeled nested h
      obtain ⟨block, hblock, rfl⟩ := Outcome.map_eq_ok.mp h
      rw [pairsSecrets, ← ih.1 block hblock]
      exact and_iff_right fun hset => by cases hset
  | set elem _ ih =>
      refine ⟨fun _ h => (by cases h), ?_⟩
      intro name peeled nested h
      obtain ⟨block, hblock, rfl⟩ := Outcome.map_eq_ok.mp h
      have hfields : (∀ attr, block.HasAttribute attr → attr.writeOnly = false) ↔
          ∀ field ∈ attributeFields elem, field.attrs.writeOnly = false :=
        (forall_onAttribute_iff .writeOnly (· = false) elem).1 block hblock
      simp only [pairsSecrets, List.all_eq_true, Bool.not_eq_true']
      rw [← hfields]
      constructor
      · rintro ⟨hset, -⟩
        exact hset rfl
      · intro hattrs
        refine ⟨fun _ => hattrs, ?_⟩
        intro inner hinner _ attr hattr
        exact hattrs attr (Block.hasAttribute_of_hasNested hinner hattr)
  | map key val _ _ ih =>
      refine ⟨fun _ h => (by cases h), ?_⟩
      intro name peeled nested h
      rw [nestedBlock] at h
      split_ifs at h
      obtain ⟨block, hblock, rfl⟩ := Outcome.map_eq_ok.mp h
      rw [pairsSecrets, ← ih.1 block hblock]
      exact and_iff_right fun hset => by cases hset
  | struct fields ih =>
      refine ⟨ih, ?_⟩
      intro name peeled nested h
      obtain ⟨block, hblock, rfl⟩ := Outcome.map_eq_ok.mp h
      rw [pairsSecrets, ← ih block hblock]
      exact and_iff_right fun hset => by cases hset
  | formatProxy shape ih => exact ih
  | nil =>
      rename_i block h
      obtain rfl := Except.ok.inj h
      rw [Block.forall_hasNested]
      exact iff_of_true (List.forall_mem_nil _) rfl
  | cons field shape rest ih ihs =>
      rename_i block h
      obtain ⟨others, hothers, ⟨hblock, nested, hnested, rfl⟩ | ⟨hblock, attr, -, rfl⟩⟩ := blockFields_cons_eq_ok h
      · rw [pairSecrets, hblock, Block.forall_hasNested, List.forall_mem_cons, ← Block.forall_hasNested,
          ih.2 _ _ nested hnested, ihs others hothers, Bool.and_eq_true]
        rfl
      · rw [pairSecrets, hblock, Block.forall_hasNested, ← @Block.forall_hasNested _ others, ihs others hothers]
        rfl

theorem accepted_attributeFromField {α : Type} {field : Field} {shape : Shape α} {attr : AttributeSchema}
    (h : attributeFromField field shape = .ok attr) : attr.Accepted := by
  rw [attributeFromField] at h
  obtain ⟨ty, -, h⟩ := Outcome.bind_eq_ok.mp h
  split_ifs at h with hboth
  obtain rfl := Except.ok.inj h
  rw [Bool.and_eq_true] at hboth
  refine ⟨?_, hboth⟩
  cases field.attrs.optional <;> cases field.attrs.computed <;> cases shape.isNullable <;> simp

theorem accepted_blockFromShape_iff {α : Type} {shape : Shape α} {block : Block}
    (h : shape.blockFromShape = .ok block) : block.Accepted ↔ shape.pairsSecrets = true := by
  rw [← (paired_iff shape).1 block h]
  refine ⟨fun haccepted => haccepted.sets, fun hsets => ⟨?_, hsets⟩⟩
  intro attr hattr
  obtain ⟨β, field, inner, hmade⟩ := exists_field h hattr
  exact accepted_attributeFromField hmade

theorem accepted_dataSourceFields {φ : Type} {fields : StructFields φ} {block : Block}
    (h : dataSourceFields fields = .ok block) :
    ∀ attr, block.HasAttribute attr → attr.Accepted ∧ attr.writeOnly = false := by
  induction fields using StructFields.rec (motive_1 := fun _ _ => True) generalizing block with
  | nil =>
      obtain rfl := Except.ok.inj h
      rw [Block.forall_hasAttribute]
      exact ⟨List.forall_mem_nil _, List.forall_mem_nil _⟩
  | cons field shape rest _ ih =>
      rw [dataSourceFields] at h
      split_ifs at h
      · obtain ⟨nested, -, h⟩ := Outcome.bind_eq_ok.mp h
        obtain ⟨others, hothers, h⟩ := Outcome.bind_eq_ok.mp h
        obtain rfl := Except.ok.inj h
        exact Block.forall_hasAttribute_nested.mpr ⟨notWriteOnly_asComputedBlock nested, ih hothers⟩
      · obtain ⟨attr, -, h⟩ := Outcome.bind_eq_ok.mp h
        obtain ⟨kind, -, h⟩ := Outcome.bind_eq_ok.mp h
        obtain ⟨others, hothers, h⟩ := Outcome.bind_eq_ok.mp h
        obtain rfl := Except.ok.inj h
        refine Block.forall_hasAttribute_attr.mpr ⟨?_, ih hothers⟩
        split_ifs
        · exact ⟨accepted_asInput attr true, rfl⟩
        · exact ⟨accepted_asComputed attr, rfl⟩
  | _ => trivial

theorem accepted_reflectDataSource {α : Type} (shape : Shape α) {block : Block}
    (h : shape.reflectDataSource = .ok block) : block.Accepted := by
  apply Block.accepted_of_notWriteOnly
  induction shape using Shape.rec (motive_2 := fun _ _ => True) with
  | struct fields _ => exact accepted_dataSourceFields h
  | formatProxy shape ih => exact ih h
  | nil | cons => trivial
  | _ => cases h

theorem accepted_reflectDataSourceList {α : Type} (shape : Shape α) {block : Block}
    (h : shape.reflectDataSourceList = .ok block) : block.Accepted := by
  apply Block.accepted_of_notWriteOnly
  induction shape using Shape.rec (motive_2 := fun _ _ => True) with
  | struct fields _ =>
      obtain ⟨attributes, -, h⟩ := Outcome.bind_eq_ok.mp h
      obtain rfl := Except.ok.inj h
      rw [Block.forall_hasAttribute, List.forall_mem_append, List.forall_mem_map, List.forall_mem_singleton]
      refine ⟨⟨fun p _ => ⟨accepted_asInput p.1 false, rfl⟩, ?_⟩, List.forall_mem_nil _⟩
      obtain ⟨disposed, given⟩ := accepted_asComputed (AttributeSchema.new "results"
        (.list (.object (attributes.map fun p => ⟨p.1.name, p.1.ty, true⟩))))
      exact ⟨⟨disposed, given⟩, rfl⟩
  | formatProxy shape ih => exact ih h
  | nil | cons => trivial
  | _ => cases h

/-- Whatever reflection makes of a model, and whatever its transforms make of a
block, is accepted. -/
structure PublishesAccepted {α : Type} (shape : Shape α) : Prop where
  block : ∀ block, shape.blockFromShape = .ok block → block.Accepted
  dataSource : ∀ block, shape.reflectDataSource = .ok block → block.Accepted
  dataSourceList : ∀ block, shape.reflectDataSourceList = .ok block → block.Accepted
  computed : ∀ attr, (asComputed attr).Accepted
  input : ∀ attr required, (asInput attr required).Accepted
  computedBlock : ∀ nested, (asComputedBlock nested).block.Accepted

/-- Reflection accepts a write-only attribute in a set of blocks, which
Terraform does not. -/
theorem publishesAccepted_iff {α : Type} (shape : Shape α) :
    PublishesAccepted shape ↔ (shape.reflectable = true → shape.pairsSecrets = true) := by
  constructor
  · intro h hreflectable
    obtain ⟨block, hblock⟩ := (reflectable_iff shape).1.mpr hreflectable
    exact (accepted_blockFromShape_iff hblock).mp (h.block block hblock)
  · intro h
    refine ⟨?_, fun _ => accepted_reflectDataSource shape, fun _ => accepted_reflectDataSourceList shape,
      accepted_asComputed, accepted_asInput, accepted_asComputedBlock⟩
    intro block hblock
    exact (accepted_blockFromShape_iff hblock).mpr (h ((reflectable_iff shape).1.mp ⟨block, hblock⟩))

end Shape

def ruleSet : Collection (String × Unit) (List (String × Unit)) := ⟨.ok, id⟩

def gateway : Shape (List (String × Unit) × Unit) :=
  .struct (.cons { name := "rule", attrs := { block := true } } (.set (.struct passwordFields) ruleSet) .nil)

theorem gateway_refused : ¬gateway.PublishesAccepted := by
  intro h
  have hblock : gateway.blockFromShape = .ok ⟨[], [⟨"rule", .set,
      ⟨[{ AttributeSchema.new "password" .string with required := true, writeOnly := true }], []⟩, 0, 0⟩]⟩ := rfl
  have hpaired := (h.block _ hblock).sets _ (.here _ _ (List.mem_singleton_self _)) rfl _
    (.here _ _ (List.mem_singleton_self _))
  cases hpaired

end TofuSdk
