import TofuSdk.Conforms

namespace TofuSdk

structure AttributeSchema where
  name : String
  ty : Ty
  description : Option String
  required : Bool
  optional : Bool
  computed : Bool
  sensitive : Bool
  writeOnly : Bool
  forceNew : Bool
  deprecated : Option String
  default : Option Value

inductive NestingMode
  | single | list | set | map
deriving DecidableEq

structure NestedBlockOf (β : Type) where
  name : String
  nesting : NestingMode
  block : β
  minItems : Int
  maxItems : Int

structure Block where
  attributes : List AttributeSchema
  nestedBlocks : List (NestedBlockOf Block)

abbrev NestedBlock := NestedBlockOf Block

def AttributeSchema.new (name : String) (ty : Ty) : AttributeSchema where
  name := name
  ty := ty
  description := none
  required := false
  optional := false
  computed := false
  sensitive := false
  writeOnly := false
  forceNew := false
  deprecated := none
  default := none

namespace Block

@[elab_as_elim] theorem induct {P : Block → Prop}
    (mk : ∀ attributes nestedBlocks, (∀ nested ∈ nestedBlocks, P nested.block) →
      P ⟨attributes, nestedBlocks⟩) (block : Block) : P block :=
  Block.rec (motive_1 := P) (motive_2 := fun nestedBlocks => ∀ nested ∈ nestedBlocks, P nested.block)
    (motive_3 := fun nested => P nested.block) mk (by simp)
    (fun nested rest h hs => List.forall_mem_cons.mpr ⟨h, hs⟩) (fun _ _ _ _ _ h => h) block

mutual

def ctyType (block : Block) : Ty :=
  match block with
  | ⟨attributes, nestedBlocks⟩ =>
      .object (attributes.map (fun attr => ⟨attr.name, attr.ty, !attr.required⟩) ++
        nestedCtyTypes nestedBlocks)
termination_by structural block

def nestedCtyTypes (nestedBlocks : List NestedBlock) : List ObjectAttr :=
  match nestedBlocks with
  | [] => []
  | ⟨name, nesting, block, _, _⟩ :: rest =>
      let inner := ctyType block
      let ty := match nesting with
        | .single => inner
        | .list => .list inner
        | .set => .set inner
        | .map => .map inner
      ⟨name, ty, true⟩ :: nestedCtyTypes rest
termination_by structural nestedBlocks

end

end Block

def NestedBlockOf.ctyType (nested : NestedBlock) : Ty :=
  match nested.nesting with
  | .single => nested.block.ctyType
  | .list => .list nested.block.ctyType
  | .set => .set nested.block.ctyType
  | .map => .map nested.block.ctyType

namespace Block

theorem nestedCtyTypes_eq (nestedBlocks : List NestedBlock) :
    nestedCtyTypes nestedBlocks = nestedBlocks.map fun nested => ⟨nested.name, nested.ctyType, true⟩ := by
  induction nestedBlocks with
  | nil => rfl
  | cons nested rest ih =>
      obtain ⟨name, nesting, block, minItems, maxItems⟩ := nested
      cases nesting <;> exact congrArg (List.cons _) ih

theorem ctyType_eq (block : Block) : block.ctyType = .object
    (block.attributes.map (fun attr => ⟨attr.name, attr.ty, !attr.required⟩) ++
      block.nestedBlocks.map fun nested => ⟨nested.name, nested.ctyType, true⟩) := by
  obtain ⟨attributes, nestedBlocks⟩ := block
  rw [ctyType, nestedCtyTypes_eq]

def members (block : Block) : List ObjectAttr :=
  block.attributes.map (fun attr => ⟨attr.name, attr.ty, !attr.required⟩) ++
    block.nestedBlocks.map fun nested => ⟨nested.name, nested.ctyType, true⟩

theorem ctyType_eq_members (block : Block) : block.ctyType = .object block.members := block.ctyType_eq

mutual

def distinctNames (block : Block) : Bool :=
  match block with
  | ⟨attributes, nestedBlocks⟩ =>
      decide (attributes.map (·.name) ++ nestedBlocks.map (·.name)).Nodup &&
        nestedDistinctNames nestedBlocks
termination_by structural block

def nestedDistinctNames (nestedBlocks : List NestedBlock) : Bool :=
  match nestedBlocks with
  | [] => true
  | ⟨_, _, block, _, _⟩ :: rest => distinctNames block && nestedDistinctNames rest
termination_by structural nestedBlocks

end

theorem nestedDistinctNames_iff {nestedBlocks : List NestedBlock} :
    nestedDistinctNames nestedBlocks = true ↔ ∀ nested ∈ nestedBlocks, nested.block.distinctNames = true := by
  induction nestedBlocks with
  | nil => simp [nestedDistinctNames]
  | cons nested rest ih => simp [nestedDistinctNames, ih]

theorem distinctNames_iff {attributes : List AttributeSchema} {nestedBlocks : List NestedBlock} :
    distinctNames ⟨attributes, nestedBlocks⟩ = true ↔
      (attributes.map (·.name) ++ nestedBlocks.map (·.name)).Nodup ∧
        ∀ nested ∈ nestedBlocks, nested.block.distinctNames = true := by
  rw [distinctNames, Bool.and_eq_true, decide_eq_true_iff, nestedDistinctNames_iff]

end Block

inductive PathStep
  | attribute (name : String)
  | index (i : Int)
  | key (key : String)
deriving DecidableEq

abbrev Path := List PathStep

def Path.ofName (name : String) : Path := [.attribute name]

/-- The values a nested block stands for, by the step that leads to each: the
object itself, or the elements of the collection its nesting mode names. -/
def elementAt : NestingMode → Value → Path → Option Value
  | .single, v, [] => some v
  | .list, .list items, [.index i] | .set, .set items, [.index i] => if 0 ≤ i then items[i.toNat]? else none
  | .map, .map entries, [.key k] => entries.get? k
  | _, _, _ => none

section

variable {v elem : Value} {s : Path}

theorem elementAt_single (h : elementAt .single v s = some elem) : v = elem := by
  cases s with
  | nil => exact Option.some.inj h
  | cons _ _ => cases h

theorem elementAt_list (h : elementAt .list v s = some elem) : ∃ items, v = .list items ∧ elem ∈ items := by
  unfold elementAt at h
  split at h <;> simp_all
  exact List.mem_of_getElem? h.2

theorem elementAt_set (h : elementAt .set v s = some elem) : ∃ items, v = .set items ∧ elem ∈ items := by
  unfold elementAt at h
  split at h <;> simp_all
  exact List.mem_of_getElem? h.2

theorem elementAt_map (h : elementAt .map v s = some elem) :
    ∃ entries, v = .map entries ∧ ∃ k, entries.get? k = some elem := by
  unfold elementAt at h
  split at h <;> simp_all
  exact ⟨_, h⟩

end

/-- The positions of a block's attributes in a value, through nested blocks of
the given modes, each with what the value holds there. -/
inductive AttrAtVia (via : NestingMode → Prop) : Block → Value → Path → AttributeSchema → Option Value → Prop
  | here (block : Block) (fields : Fields) (attr : AttributeSchema) :
      attr ∈ block.attributes →
      AttrAtVia via block (.object fields) [.attribute attr.name] attr (fields.get? attr.name)
  | nested (block : Block) (fields : Fields) (nested : NestedBlock) (child elem : Value) (s p : Path)
      (attr : AttributeSchema) (x : Option Value) :
      nested ∈ block.nestedBlocks → via nested.nesting → fields.get? nested.name = some child →
      elementAt nested.nesting child s = some elem → AttrAtVia via nested.block elem p attr x →
      AttrAtVia via block (.object fields) (.attribute nested.name :: (s ++ p)) attr x

abbrev AttrAt := AttrAtVia fun _ => True

/-- The positions that two values can be compared at: the elements of a set
have no identity to match them by. -/
abbrev AlignedAt := AttrAtVia (· ≠ .set)

section

variable {via : NestingMode → Prop} {block : Block} {p : Path} {attr : AttributeSchema} {x : Option Value}

theorem attrAt_object {fields : Fields} : AttrAtVia via block (.object fields) p attr x ↔
      (attr ∈ block.attributes ∧ p = [.attribute attr.name] ∧ x = fields.get? attr.name) ∨
      ∃ nested ∈ block.nestedBlocks, via nested.nesting ∧ ∃ child s elem q,
        fields.get? nested.name = some child ∧ elementAt nested.nesting child s = some elem ∧
        AttrAtVia via nested.block elem q attr x ∧ p = .attribute nested.name :: (s ++ q) := by
  constructor
  · intro h
    cases h
    · exact Or.inl ⟨‹_›, rfl, rfl⟩
    · exact Or.inr ⟨_, ‹_›, ‹_›, _, _, _, _, ‹_›, ‹_›, ‹_›, rfl⟩
  · rintro (⟨ha, rfl, rfl⟩ | ⟨nested, hn, hvia, child, s, elem, q, hchild, helem, h, rfl⟩)
    · exact .here block fields attr ha
    · exact .nested block fields nested child elem s q attr x hn hvia hchild helem h

theorem AttrAtVia.object {value : Value} (h : AttrAtVia via block value p attr x) :
    ∃ fields, value = .object fields := by
  cases h
  · exact ⟨_, rfl⟩
  · exact ⟨_, rfl⟩

theorem AttrAtVia.ne_nil {value : Value} (h : AttrAtVia via block value p attr x) : p ≠ [] := by
  cases h <;> exact List.cons_ne_nil _ _

theorem AttrAtVia.top {fields : Fields} (h : AttrAtVia via block (.object fields) p attr x)
    (hlen : p.length = 1) : attr ∈ block.attributes ∧ p = Path.ofName attr.name ∧ x = fields.get? attr.name := by
  obtain h | ⟨nested, -, -, child, s, elem, q, -, -, hq, rfl⟩ := attrAt_object.mp h
  · exact h
  · have hpos := List.length_pos_iff.mpr hq.ne_nil
    simp only [List.length_cons, List.length_append] at hlen
    omega

theorem attrAt_flat {attributes : List AttributeSchema} {fields : Fields} :
    AttrAtVia via ⟨attributes, []⟩ (.object fields) p attr x ↔
      attr ∈ attributes ∧ p = [.attribute attr.name] ∧ x = fields.get? attr.name := by
  rw [attrAt_object]
  simp

end

section

variable {slot : Value → Prop} {block : Block} {fields : Fields}

theorem ConformsWith.nestedBlock (h : ConformsWith slot block.ctyType (.object fields)) {nested : NestedBlock}
    (hn : nested ∈ block.nestedBlocks) {child : Value} (hchild : fields.get? nested.name = some child) :
    ConformsWith slot nested.ctyType child := by
  rw [Block.ctyType_eq] at h
  cases h with
  | object _ _ _ h =>
      have hconf := h ⟨nested.name, nested.ctyType, true⟩ (by simpa using Or.inr ⟨nested, hn, by simp⟩)
      rwa [hchild] at hconf

theorem ConformsWith.element {nested : NestedBlock} {child elem : Value} {s : Path}
    (h : ConformsWith slot nested.ctyType child) (helem : elementAt nested.nesting child s = some elem) :
    ConformsWith slot nested.block.ctyType elem := by
  obtain ⟨name, nesting, block, minItems, maxItems⟩ := nested
  cases nesting with
  | single =>
      obtain rfl := elementAt_single helem
      exact h
  | list =>
      obtain ⟨items, rfl, hmem⟩ := elementAt_list helem
      cases h with
      | list _ _ h => exact h elem hmem
  | set =>
      obtain ⟨items, rfl, hmem⟩ := elementAt_set helem
      cases h with
      | set _ _ h => exact h elem hmem
  | map =>
      obtain ⟨entries, rfl, k, hk⟩ := elementAt_map helem
      cases h with
      | map _ _ h => exact h k elem hk

end

end TofuSdk
