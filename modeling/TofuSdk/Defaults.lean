import TofuSdk.Codable
import TofuSdk.Licensed

namespace TofuSdk

open ValueOf

/-- The attributes of a block and of the blocks nested in it. -/
inductive Block.HasAttribute : Block → AttributeSchema → Prop
  | here (block : Block) (attr : AttributeSchema) : attr ∈ block.attributes → HasAttribute block attr
  | nested (block : Block) (nested : NestedBlock) (attr : AttributeSchema) : nested ∈ block.nestedBlocks →
      HasAttribute nested.block attr → HasAttribute block attr

namespace Block

theorem forall_hasAttribute {P : AttributeSchema → Prop} {block : Block} :
    (∀ attr, block.HasAttribute attr → P attr) ↔ (∀ attr ∈ block.attributes, P attr) ∧
      ∀ nested ∈ block.nestedBlocks, ∀ attr, nested.block.HasAttribute attr → P attr := by
  constructor
  · intro h
    exact ⟨fun attr ha => h attr (.here block attr ha),
      fun nested hn attr hattr => h attr (.nested block nested attr hn hattr)⟩
  · rintro ⟨hattrs, hnested⟩ attr h
    cases h with
    | here _ _ ha => exact hattrs attr ha
    | nested _ nested _ hn h => exact hnested nested hn attr h

theorem forall_hasAttribute_attr {P : AttributeSchema → Prop} {first : AttributeSchema} {others : Block} :
    (∀ attr, HasAttribute ⟨first :: others.attributes, others.nestedBlocks⟩ attr → P attr) ↔
      P first ∧ ∀ attr, others.HasAttribute attr → P attr := by
  rw [forall_hasAttribute, forall_hasAttribute, List.forall_mem_cons, and_assoc]

theorem forall_hasAttribute_nested {P : AttributeSchema → Prop} {nested : NestedBlock} {others : Block} :
    (∀ attr, HasAttribute ⟨others.attributes, nested :: others.nestedBlocks⟩ attr → P attr) ↔
      (∀ attr, nested.block.HasAttribute attr → P attr) ∧ ∀ attr, others.HasAttribute attr → P attr := by
  rw [forall_hasAttribute, @forall_hasAttribute P others, List.forall_mem_cons, and_left_comm]

theorem distinctNames_nested {nested : NestedBlock} (h : nested.ctyType.distinctNames = true) :
    nested.block.ctyType.distinctNames = true := by
  rw [NestedBlockOf.ctyType] at h
  cases hmode : nested.nesting <;> rw [hmode] at h <;> exact h

theorem distinctNames_of_ctyType {block : Block} (h : block.ctyType.distinctNames = true) :
    block.distinctNames = true := by
  induction block using Block.induct with
  | mk attributes nestedBlocks ih =>
      rw [ctyType_eq, Ty.distinctNames_object] at h
      obtain ⟨hnodup, htys⟩ := h
      rw [distinctNames_iff]
      constructor
      · rwa [List.map_append, List.map_map, List.map_map] at hnodup
      · intro nested hn
        have hmember : (⟨nested.name, nested.ctyType, true⟩ : ObjectAttr) ∈
            attributes.map (fun attr => (⟨attr.name, attr.ty, !attr.required⟩ : ObjectAttr)) ++
              nestedBlocks.map fun nested => ⟨nested.name, nested.ctyType, true⟩ :=
          List.mem_append_right _ (List.mem_map_of_mem hn)
        exact ih nested hn (distinctNames_nested (htys _ hmember))

end Block

namespace Shape

theorem exists_field {α : Type} {shape : Shape α} {block : Block} (h : shape.blockFromShape = .ok block)
    {attr : AttributeSchema} (hattr : block.HasAttribute attr) :
    ∃ (β : Type) (field : Field) (inner : Shape β), attributeFromField field inner = .ok attr := by
  refine (reflect_induct (P := fun _ _ block => ∀ attr, block.HasAttribute attr →
      ∃ (β : Type) (field : Field) (inner : Shape β), attributeFromField field inner = .ok attr)
    (Q := fun _ _ block => ∀ attr, block.HasAttribute attr →
      ∃ (β : Type) (field : Field) (inner : Shape β), attributeFromField field inner = .ok attr)
    (fun _ _ _ ih => ih) (fun _ _ _ _ _ ih => ih) (fun _ _ _ _ _ ih => ih) (fun _ _ _ _ _ _ _ ih => ih)
    (fun _ _ _ ih => ih) (fun _ _ _ ih => ih) ?_ ?_ ?_ shape).1 block h attr hattr
  · intro attr hattr
    cases hattr <;> contradiction
  · intro β φ field inner rest made others _ hmade ih
    exact Block.forall_hasAttribute_attr.mpr ⟨⟨β, field, inner, hmade⟩, ih⟩
  · intro β φ field inner rest nested others _ _ ih ihs
    exact Block.forall_hasAttribute_nested.mpr ⟨ih, ihs⟩

end Shape

/-- The types that the literal of a default is parsed for. -/
def Ty.isScalar : Ty → Bool
  | .bool | .number | .string => true
  | _ => false

structure Reflected (attr : AttributeSchema) : Prop where
  isStatic : attr.ty.isStatic = true
  scalar : attr.ty.isScalar = true → ∀ default, attr.default = some default →
    ∀ total, WellTyped total attr.ty default
  other : attr.ty.isScalar = false → ∀ default, attr.default = some default → ∃ literal, default = .string literal

theorem reflected {α : Type} {field : Field} {shape : Shape α} {attr : AttributeSchema}
    (h : Shape.attributeFromField field shape = .ok attr) : Reflected attr := by
  have hty := (Shape.attributeFromField_eq_ok h).1
  have hdefault : attr.default = field.default attr.ty := by
    rw [Shape.attributeFromField] at h
    obtain ⟨ty, hty, h⟩ := Outcome.bind_eq_ok.mp h
    split_ifs at h
    obtain rfl := Except.ok.inj h
    rfl
  refine ⟨(Shape.reflects_mapType shape hty).isStatic, ?_, ?_⟩
  · intro hscalar default hsome total
    rw [hdefault, Field.default] at hsome
    obtain ⟨literal, -, hsome⟩ := Option.bind_eq_some_iff.mp hsome
    cases hty : attr.ty with
    | bool =>
        rw [hty] at hsome
        dsimp only at hsome
        split_ifs at hsome
        · exact Option.some.inj hsome ▸ .bool true
        · exact Option.some.inj hsome ▸ .bool false
    | number =>
        rw [hty] at hsome
        obtain ⟨n, -, rfl⟩ := Option.map_eq_some_iff.mp hsome
        exact .number n
    | string =>
        rw [hty] at hsome
        exact Option.some.inj hsome ▸ .string literal
    | _ =>
        rw [hty] at hscalar
        cases hscalar
  · intro hother default hsome
    rw [hdefault, Field.default] at hsome
    obtain ⟨literal, -, hsome⟩ := Option.bind_eq_some_iff.mp hsome
    cases hty : attr.ty with
    | bool | number | string =>
        rw [hty] at hother
        cases hother
    | _ =>
        rw [hty] at hsome
        exact ⟨literal, (Option.some.inj hsome).symm⟩

section

variable {total : Bool} {crates : Crates}

theorem WellTyped.toMp {ty : Ty} {v : Value} (h : WellTyped total ty v) (hs : ty.isStatic = true)
    (hn : ty.distinctNames = true) : ∃ mp, toMp crates v ty = .ok mp := by
  induction h with
  | null ty => exact ⟨_, rfl⟩
  | unknown ty => exact ⟨_, rfl⟩
  | bool b => exact ⟨_, rfl⟩
  | number n => exact ⟨_, rfl⟩
  | string s => exact ⟨_, rfl⟩
  | dynamic ty v => cases hs
  | list elem items hitems ih => exact exists_toMp_list.mpr fun v hv => ih v hv hs hn
  | set elem items hitems ih => exact exists_toMp_set.mpr fun v hv => ih v hv hs hn
  | tuple elems items hlen hitems ih =>
      rw [Ty.isStatic_tuple] at hs
      rw [Ty.distinctNames_tuple] at hn
      refine exists_toMp_tuple.mpr ⟨hlen, ?_⟩
      intro p hp
      have hmem := (List.of_mem_zip hp).2
      exact ih p hp (hs p.2 hmem) (hn p.2 hmem)
  | map elem entries hentries ih => exact exists_toMp_map.mpr fun k v hk => ih k v hk hs hn
  | object attrs fields tys hkeys htotal hfields ih =>
      rw [Ty.isStatic_object] at hs
      obtain ⟨hnodup, hn⟩ := Ty.distinctNames_object.mp hn
      apply exists_toMp_object.mpr
      intro attr hattr
      cases hget : fields.get? attr.name with
      | none => exact ⟨.nil, rfl⟩
      | some v =>
          obtain ⟨attr', hattr', hname, hty⟩ := hkeys attr.name (OrdMap.get?_isSome.mp (hget ▸ rfl))
          obtain rfl := List.inj_on_of_nodup_map hnodup hattr' hattr hname
          rw [hty, Option.getD_some]
          exact ih attr'.name v hget (hty ▸ hs attr' hattr) (hty ▸ hn attr' hattr)

theorem wellTyped_walkNesting {nested : NestedBlock} {op : Value → Value} {child : Value}
    (h : WellTyped total nested.ctyType child)
    (hop : ∀ s elem, elementAt nested.nesting child s = some elem → WellTyped total nested.block.ctyType (op elem)) :
    WellTyped total nested.ctyType (walkNesting nested.nesting op child) := by
  obtain ⟨name, nesting, block, minItems, maxItems⟩ := nested
  cases nesting with
  | single => exact hop [] child rfl
  | list =>
      cases h with
      | null => exact .null _
      | unknown => exact .unknown _
      | list _ items _ =>
          refine .list _ (items.map op) (List.forall_mem_map.mpr ?_)
          intro v hv
          obtain ⟨s, hs, -⟩ := exists_elementAt_list hv
          exact hop s v hs
  | set =>
      cases h with
      | null => exact .null _
      | unknown => exact .unknown _
      | set _ items _ =>
          refine .set _ (items.map op) (List.forall_mem_map.mpr ?_)
          intro v hv
          obtain ⟨s, -, hs⟩ := exists_elementAt_list hv
          exact hop s v hs
  | map =>
      cases h with
      | null => exact .null _
      | unknown => exact .unknown _
      | map _ entries _ =>
          refine .map _ (entries.map op) ?_
          intro k v hv
          rw [OrdMap.get?_map] at hv
          obtain ⟨w, hw, rfl⟩ := Option.map_eq_some_iff.mp hv
          exact hop [.key k] w hw

structure Update.KeepsType (total : Bool) (f : Update) (attr : AttributeSchema) : Prop where
  typed : ∀ x, (∀ v, x = some v → WellTyped total attr.ty v) → ∀ w, f attr x = some w → WellTyped total attr.ty w
  present : ∀ v, (f attr (some v)).isSome

theorem wellTyped_updateAttrs {f : Update} {block : Block} (hd : block.distinctNames = true)
    (hf : ∀ attr, block.HasAttribute attr → f.KeepsType total attr) {value : Value}
    (hty : WellTyped total block.ctyType value) :
    WellTyped total block.ctyType (updateAttrs walkNesting f block value) := by
  induction block using Block.induct generalizing value with
  | mk attributes nestedBlocks ih =>
      obtain rfl | rfl | ⟨fields, rfl⟩ := hty.block_cases
      · exact .null _
      · exact .unknown _
      · rw [updateAttrs_object, Block.ctyType_eq_members, wellTyped_object]
        have hmembers := hty
        rw [Block.ctyType_eq_members, wellTyped_object] at hmembers
        constructor
        · intro k w hget
          rcases Block.name_cases ⟨attributes, nestedBlocks⟩ k with ⟨attr, ha, rfl⟩ | ⟨nested, hn, rfl⟩ | hk
          · rw [get?_updateFields_attr hd ha] at hget
            refine ⟨_, List.mem_append_left _ (List.mem_map_of_mem ha), rfl, ?_⟩
            refine (hf attr (.here _ attr ha)).typed _ ?_ w hget
            exact fun v hv => hty.attribute hd ha hv
          · rw [get?_updateFields_nested hd hn] at hget
            obtain ⟨child, hchild, rfl⟩ := Option.map_eq_some_iff.mp hget
            refine ⟨_, List.mem_append_right _ (List.mem_map_of_mem hn), rfl, ?_⟩
            have hconf := hty.nestedBlock hd hn hchild
            refine wellTyped_walkNesting hconf ?_
            intro s elem helem
            refine ih nested hn (Block.distinctNames_of_mem hd hn) ?_ (hconf.element helem)
            exact fun attr h => hf attr (.nested _ nested attr hn h)
          · rw [get?_updateFields_other hk] at hget
            exact hmembers.1 k w hget
        · intro htotal member hmember
          have hpresent := hmembers.2 htotal member hmember
          rw [← OrdMap.get?_isSome] at hpresent ⊢
          obtain ⟨v, hv⟩ := Option.isSome_iff_exists.mp hpresent
          rcases List.mem_append.mp hmember with hmem | hmem
          · obtain ⟨attr, ha, rfl⟩ := List.mem_map.mp hmem
            dsimp only at hv ⊢
            rw [get?_updateFields_attr hd ha, hv]
            exact (hf attr (.here _ attr ha)).present v
          · obtain ⟨nested, hn, rfl⟩ := List.mem_map.mp hmem
            dsimp only at hv ⊢
            rw [get?_updateFields_nested hd hn, hv]
            rfl

theorem plannedSlot_cases {replacing : Bool} {attr : AttributeSchema} {x : Option Value} {w : Value}
    (h : plannedSlot replacing attr x = some w) :
    w = .null ∨ w = .unknown ∨ x = some w ∨
      attr.default = some w ∧ attr.required = false ∧ attr.writeOnly = false := by
  rw [plannedSlot, stripSlot] at h
  by_cases hwriteOnly : attr.writeOnly = true
  · rw [if_pos hwriteOnly] at h
    obtain ⟨v, -, rfl⟩ := Option.map_eq_some_iff.mp h
    exact .inl rfl
  · rw [if_neg hwriteOnly, markSlot] at h
    by_cases hrequired : attr.required = true
    · rw [if_pos hrequired] at h
      exact .inr (.inr (.inl h))
    · rw [if_neg hrequired] at h
      split at h
      next default hdefault =>
        cases h
        exact .inr (.inr (.inr
          ⟨hdefault, Bool.eq_false_of_not_eq_true hrequired, Bool.eq_false_of_not_eq_true hwriteOnly⟩))
      next =>
        split_ifs at h
        · cases h
          exact .inr (.inl rfl)
        · exact .inr (.inr (.inl h))

theorem plannedSlot_keepsType {attr : AttributeSchema} (replacing : Bool)
    (hdefault : ∀ default, attr.default = some default → attr.required = false → attr.writeOnly = false →
      WellTyped total attr.ty default) : (plannedSlot replacing).KeepsType total attr where
  typed x hx w hw := by
    obtain rfl | rfl | hsame | ⟨hsome, hrequired, hwriteOnly⟩ := plannedSlot_cases hw
    · exact .null _
    · exact .unknown _
    · exact hx w hsame
    · exact hdefault w hsome hrequired hwriteOnly
  present v := by
    rw [plannedSlot_some]
    rfl

def blank (block : Block) : Fields := .ofList (block.members.map fun member => (member.name, .null))

theorem get?_blank {block : Block} {member : ObjectAttr} (h : member ∈ block.members) :
    (blank block).get? member.name = some .null := by
  have hkey : member.name ∈ (blank block).keys := by
    rw [blank, OrdMap.mem_keys_ofList, List.map_map]
    exact List.mem_map_of_mem h
  obtain ⟨v, hv⟩ := Option.isSome_iff_exists.mp (OrdMap.get?_isSome.mpr hkey)
  obtain ⟨_, -, hnull⟩ := List.mem_map.mp (OrdMap.mem_of_get?_ofList hv)
  rw [hv, (Prod.mk.inj hnull).2]

theorem wellTyped_insert_blank {block : Block} {member : ObjectAttr} (h : member ∈ block.members) {v : Value}
    (hv : WellTyped total member.ty v) :
    WellTyped total block.ctyType (.object ((blank block).insert member.name v)) := by
  rw [Block.ctyType_eq_members, wellTyped_object]
  constructor
  · intro k w hget
    rw [OrdMap.get?_insert] at hget
    split_ifs at hget with hk
    · cases hget
      exact ⟨member, h, hk.symm, hv⟩
    · obtain ⟨other, hother, hnull⟩ := List.mem_map.mp (OrdMap.mem_of_get?_ofList hget)
      obtain ⟨rfl, rfl⟩ := Prod.mk.inj hnull
      exact ⟨other, hother, rfl, .null _⟩
  · intro _ other hother
    rw [← OrdMap.get?_isSome, OrdMap.get?_insert]
    split_ifs
    · rfl
    · rw [get?_blank hother]
      rfl

def single (nesting : NestingMode) (elem : Value) : Value :=
  match nesting with
  | .single => elem
  | .list => .list [elem]
  | .set => .set [elem]
  | .map => .map (.ofList [("", elem)])

theorem exists_elementAt_single (nesting : NestingMode) (elem : Value) :
    ∃ s, elementAt nesting (single nesting elem) s = some elem := by
  cases nesting with
  | single => exact ⟨[], rfl⟩
  | list | set => exact ⟨[.index 0], rfl⟩
  | map => exact ⟨[.key ""], rfl⟩

theorem wellTyped_single {nested : NestedBlock} {elem : Value} (h : WellTyped total nested.block.ctyType elem) :
    WellTyped total nested.ctyType (single nested.nesting elem) := by
  obtain ⟨name, nesting, block, minItems, maxItems⟩ := nested
  cases nesting with
  | single => exact h
  | list => exact wellTyped_list.mpr (List.forall_mem_singleton.mpr h)
  | set => exact wellTyped_set.mpr (List.forall_mem_singleton.mpr h)
  | map =>
      refine wellTyped_map.mpr ?_
      intro k v hv
      obtain ⟨-, rfl⟩ := Prod.mk.inj (List.mem_singleton.mp (OrdMap.mem_of_get?_ofList hv))
      exact h

theorem exists_null_at {block : Block} {attr : AttributeSchema} (h : block.HasAttribute attr) :
    ∃ fields p, WellTyped total block.ctyType (.object fields) ∧ AttrAt block (.object fields) p attr (some .null) := by
  induction h with
  | here block attr ha =>
      have hmember : ⟨attr.name, attr.ty, !attr.required⟩ ∈ block.members :=
        List.mem_append_left _ (List.mem_map_of_mem ha)
      refine ⟨_, [.attribute attr.name], wellTyped_insert_blank hmember (.null _), ?_⟩
      have hat := @AttrAtVia.here (fun _ => True) block ((blank block).insert attr.name .null) attr ha
      rwa [OrdMap.get?_insert_self] at hat
  | nested block nested attr hn _ ih =>
      obtain ⟨fields, p, hty, hat⟩ := ih
      have hmember : ⟨nested.name, nested.ctyType, true⟩ ∈ block.members :=
        List.mem_append_right _ (List.mem_map_of_mem hn)
      obtain ⟨s, hs⟩ := exists_elementAt_single nested.nesting (.object fields)
      refine ⟨_, .attribute nested.name :: (s ++ p), wellTyped_insert_blank hmember (wellTyped_single hty), ?_⟩
      exact .nested block _ nested _ _ s p attr _ hn trivial (OrdMap.get?_insert_self _ _ _) hs hat

theorem WellTyped.attrAt {via : NestingMode → Prop} {block : Block} {value : Value} {p : Path} {attr : AttributeSchema}
    {x : Option Value} (hd : block.distinctNames = true) (h : WellTyped total block.ctyType value)
    (hx : AttrAtVia via block value p attr x) : ∀ v, x = some v → WellTyped total attr.ty v := by
  induction hx with
  | here block fields attr ha => exact fun v hv => h.attribute hd ha hv
  | nested block fields nested child elem s p attr x hn hvia hchild helem hx ih =>
      exact ih (Block.distinctNames_of_mem hd hn) ((h.nestedBlock hd hn hchild).element helem)

end

/-- Planning keeps types: from conforming states it makes one that conforms,
and can be sent. -/
def KeepsTypes (crates : Crates) (total : Bool) (block : Block) : Prop :=
  ∀ prior proposed, WellTyped total block.ctyType prior → WellTyped total block.ctyType proposed →
    WellTyped total block.ctyType (plan prior proposed block).planned ∧
      ∃ bytes, encodeMsgpack crates (plan prior proposed block).planned block.ctyType = .ok bytes

theorem isStatic_of_hasAttribute {block : Block} (h : ∀ attr, block.HasAttribute attr → attr.ty.isStatic = true) :
    block.ctyType.isStatic = true := by
  induction block using Block.induct with
  | mk attributes nestedBlocks ih =>
      rw [Block.ctyType_eq, Ty.isStatic_object, List.forall_mem_append, List.forall_mem_map, List.forall_mem_map]
      refine ⟨fun attr ha => h attr (.here _ attr ha), ?_⟩
      intro nested hn
      have hinner : nested.block.ctyType.isStatic = true :=
        ih nested hn fun attr hattr => h attr (.nested _ nested attr hn hattr)
      dsimp only
      rw [NestedBlockOf.ctyType]
      cases nested.nesting <;> exact hinner

/-- Planning keeps types exactly when no default that it may fill in is a
literal for a type that is not a scalar. -/
theorem keepsTypes_iff {crates : Crates} (hc : crates.Lawful) (total : Bool) {α : Type} (shape : Shape α)
    {block : Block}
    (hb : shape.blockFromShape = .ok block) (hn : block.ctyType.distinctNames = true) :
    KeepsTypes crates total block ↔ ∀ attr, block.HasAttribute attr → attr.required = false → attr.writeOnly = false →
      attr.default.isSome = true → attr.ty.isScalar = true := by
  have hd := Block.distinctNames_of_ctyType hn
  have hreflected : ∀ attr, block.HasAttribute attr → Reflected attr := by
    intro attr hattr
    obtain ⟨β, field, inner, hfield⟩ := Shape.exists_field hb hattr
    exact reflected hfield
  constructor
  · intro h attr hattr hrequired hwriteOnly hsome
    by_contra hother
    rw [Bool.not_eq_true] at hother
    obtain ⟨default, hdefault⟩ := Option.isSome_iff_exists.mp hsome
    obtain ⟨literal, rfl⟩ := (hreflected attr hattr).other hother default hdefault
    obtain ⟨fields, p, hty, hat⟩ := exists_null_at hattr
    have hplanned : AttrAt block (plan .null (.object fields) block).planned p attr (some (.string literal)) := by
      refine (attrAt_plan hd .null (.object fields)).mpr ⟨_, hat, ?_⟩
      rw [plannedSlot_some, licensedValue, hwriteOnly, hrequired, hdefault]
      rfl
    have hliteral := (h .null (.object fields) (.null _) hty).1.attrAt hd hplanned _ rfl
    have hstatic := (hreflected attr hattr).isStatic
    cases hty : attr.ty with
    | bool | number | string =>
        rw [hty] at hother
        cases hother
    | dynamic =>
        rw [hty] at hstatic
        cases hstatic
    | _ =>
        rw [hty] at hliteral
        cases hliteral
  · intro h prior proposed _ hproposed
    have hplanned : WellTyped total block.ctyType (plan prior proposed block).planned := by
      cases hnull : proposed.isNull with
      | true =>
          rw [plan, if_pos hnull]
          exact .null _
      | false =>
          rw [planned_eq hd prior hnull hproposed]
          refine wellTyped_updateAttrs hd ?_ hproposed
          intro attr hattr
          apply plannedSlot_keepsType
          intro default hdefault hrequired hwriteOnly
          have hscalar := h attr hattr hrequired hwriteOnly (by rw [hdefault]; rfl)
          exact (hreflected attr hattr).scalar hscalar default hdefault total
    have hstatic : block.ctyType.isStatic = true :=
        isStatic_of_hasAttribute fun attr hattr => (hreflected attr hattr).isStatic
    obtain ⟨mp, hmp⟩ := hplanned.toMp hstatic hn
    obtain ⟨bytes, hbytes, -⟩ := hc.encodeMsgpack_of_toMp hmp
    exact ⟨hplanned, bytes, hbytes⟩

def labelled : Shape (Option (List String) × Unit) :=
  .struct (.cons { name := "labels", attrs := { default := some "spare" } }
    (.option (.list (.scalar .string) (Shape.vec String))) .nil)

def labelsBlock : Block :=
  ⟨[{ AttributeSchema.new "labels" (.list .string) with optional := true, default := some (.string "spare") }], []⟩

def noLabels : Fields := .ofList [("labels", .null)]

/-- The default of the list is text, and the plan that holds it cannot be sent. -/
theorem labels_text : labelled.blockFromShape = .ok labelsBlock ∧
    WellTyped true labelsBlock.ctyType (.object noLabels) ∧
    (plan .null (.object noLabels) labelsBlock).planned = .object (.ofList [("labels", .string "spare")]) ∧
    encodeMsgpack Crates.real (plan .null (.object noLabels) labelsBlock).planned labelsBlock.ctyType =
      .error (.typeMismatch "list" "string") ∧ ¬KeepsTypes Crates.real true labelsBlock := by
  have hty : WellTyped true labelsBlock.ctyType (.object noLabels) :=
    @wellTyped_decodeJson Crates.real (.object .empty) _ _ rfl
  have hmismatch : encodeMsgpack Crates.real (plan .null (.object noLabels) labelsBlock).planned labelsBlock.ctyType =
      .error (.typeMismatch "list" "string") := by
    change (encodeObject Crates.real _ [⟨"labels", .list .string, true⟩] >>= _) = _
    rw [encodeObject_eq, sortedByName, List.mergeSort_singleton]
    rfl
  refine ⟨rfl, hty, rfl, hmismatch, fun h => ?_⟩
  obtain ⟨-, bytes, hbytes⟩ := h .null (.object noLabels) (.null _) hty
  rw [hmismatch] at hbytes
  cases hbytes

def counted : Shape (Option Int64 × Unit) :=
  .struct (.cons { name := "count", attrs := { default := some "3" } } (.option (.scalar .i64)) .nil)

def countBlock : Block :=
  ⟨[{ AttributeSchema.new "count" .number with optional := true, default := some (.number (.i64 3)) }], []⟩

theorem keepsTypes_counted : KeepsTypes Crates.real true countBlock ↔
    ∀ attr, countBlock.HasAttribute attr → attr.required = false → attr.writeOnly = false →
      attr.default.isSome = true → attr.ty.isScalar = true :=
  keepsTypes_iff Crates.real_lawful true counted rfl (by decide)

end TofuSdk
