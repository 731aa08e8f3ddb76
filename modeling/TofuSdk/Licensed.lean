import TofuSdk.Traverse
import TofuSdk.WellTyped

namespace TofuSdk

open ValueOf

section

variable {total : Bool} {block : Block} {fields : Fields}

theorem WellTyped.member (hd : block.distinctNames = true) (h : WellTyped total block.ctyType (.object fields))
    {member : ObjectAttr} (hmember : member ∈ block.members) {v : Value} (hv : fields.get? member.name = some v) :
    WellTyped total member.ty v := by
  rw [Block.ctyType_eq_members, wellTyped_object] at h
  obtain ⟨member', hmember', hname, hv⟩ := h.1 member.name v hv
  have hnodup : (block.members.map (·.name)).Nodup := by
    have hnames := Block.names_nodup hd
    rwa [Block.members, List.map_append, List.map_map, List.map_map]
  exact List.inj_on_of_nodup_map hnodup hmember' hmember hname ▸ hv

theorem WellTyped.attribute (hd : block.distinctNames = true) (h : WellTyped total block.ctyType (.object fields))
    {attr : AttributeSchema} (ha : attr ∈ block.attributes) {v : Value} (hv : fields.get? attr.name = some v) :
    WellTyped total attr.ty v :=
  h.member hd (List.mem_append_left _ (List.mem_map_of_mem ha)) hv

theorem WellTyped.nestedBlock (hd : block.distinctNames = true) (h : WellTyped total block.ctyType (.object fields))
    {nested : NestedBlock} (hn : nested ∈ block.nestedBlocks) {child : Value}
    (hchild : fields.get? nested.name = some child) : WellTyped total nested.ctyType child :=
  h.member hd (List.mem_append_right _ (List.mem_map_of_mem hn)) hchild

theorem WellTyped.element {nested : NestedBlock} {child elem : Value} {s : Path}
    (h : WellTyped total nested.ctyType child) (helem : elementAt nested.nesting child s = some elem) :
    WellTyped total nested.block.ctyType elem := by
  obtain ⟨name, nesting, block, minItems, maxItems⟩ := nested
  cases nesting with
  | single =>
      obtain rfl := elementAt_single helem
      exact h
  | list =>
      obtain ⟨items, rfl, hmem⟩ := elementAt_list helem
      exact wellTyped_list.mp h elem hmem
  | set =>
      obtain ⟨items, rfl, hmem⟩ := elementAt_set helem
      exact wellTyped_set.mp h elem hmem
  | map =>
      obtain ⟨entries, rfl, k, hk⟩ := elementAt_map helem
      exact wellTyped_map.mp h k elem hk

theorem WellTyped.block_cases {v : Value} (h : WellTyped total block.ctyType v) :
    v = .null ∨ v = .unknown ∨ ∃ fields, v = .object fields := by
  rw [Block.ctyType_eq] at h
  cases h with
  | null => exact .inl rfl
  | unknown => exact .inr (.inl rfl)
  | object _ fields => exact .inr (.inr ⟨fields, rfl⟩)

theorem WellTyped.present {via : NestingMode → Prop} {value : Value} {p : Path} {attr : AttributeSchema}
    {x : Option Value} (hd : block.distinctNames = true) (h : WellTyped true block.ctyType value)
    (hx : AttrAtVia via block value p attr x) : x ≠ none := by
  induction hx with
  | here block fields attr ha =>
      rw [Block.ctyType_eq_members, wellTyped_object] at h
      have hmember : ⟨attr.name, attr.ty, !attr.required⟩ ∈ block.members :=
        List.mem_append_left _ (List.mem_map_of_mem ha)
      rw [Option.ne_none_iff_isSome, OrdMap.get?_isSome]
      exact h.2 rfl _ hmember
  | nested block fields nested child elem s p attr x hn hvia hchild helem hx ih =>
      exact ih (Block.distinctNames_of_mem hd hn) ((h.nestedBlock hd hn hchild).element helem)

theorem WellTyped.tidy {value : Value} (hd : block.distinctNames = true) (h : WellTyped total block.ctyType value) :
    Tidy block value := by
  induction block using Block.induct generalizing value with
  | mk attributes nestedBlocks ih =>
      obtain rfl | rfl | ⟨fields, rfl⟩ := h.block_cases
      · exact .other _ _ nofun
      · exact .other _ _ nofun
      · refine .object _ fields ?_ ?_
        · intro nested hn child hchild
          have hconf := h.nestedBlock hd hn hchild
          obtain ⟨name, nesting, block, minItems, maxItems⟩ := nested
          cases nesting with
          | single | map => trivial
          | list | set => cases hconf <;> trivial
        · intro nested hn child s elem hchild helem
          exact ih nested hn (Block.distinctNames_of_mem hd hn) ((h.nestedBlock hd hn hchild).element helem)

theorem planned_eq (hd : block.distinctNames = true) (prior : Value) {proposed : Value} (hne : proposed.isNull = false)
    (h : WellTyped total block.ctyType proposed) : (plan prior proposed block).planned =
      updateAttrs walkNesting (plannedSlot (!(plan prior proposed block).requiresReplace.isEmpty)) block proposed := by
  rw [plan, if_neg (by rw [hne]; exact Bool.false_ne_true)]
  dsimp only
  rw [strip_eq, markComputedUnknown_eq, updateAttrs_updateAttrs hd (h.tidy hd)]
  rfl

end

def licensedValue (replacing : Bool) (attr : AttributeSchema) (proposed : Value) : Value :=
  if attr.writeOnly then .null
  else
    match !attr.required && proposed.isNull, attr.default with
    | true, some default => default
    | _, _ => if attr.computed && !attr.required && (proposed.isNull || replacing) then .unknown else proposed

/-- The elements of a nested block's value stay where they are, and a value of
no elements stays as it is. -/
def SameElements : NestingMode → Value → Value → Prop
  | .single, _, _ => True
  | .list, .list items, .list items' | .set, .set items, .set items' => items'.length = items.length
  | .map, .map entries, .map entries' => entries'.keys = entries.keys
  | _, child, child' => child' = child

/-- What becomes of a block's value, position by position. -/
inductive Licensed (replacing : Bool) : Block → Value → Value → Prop
  | null (block : Block) : Licensed replacing block .null .null
  | unknown (block : Block) : Licensed replacing block .unknown .unknown
  | object (block : Block) (proposed planned : Fields) : planned.keys = proposed.keys →
      (∀ attr ∈ block.attributes, ∀ v, proposed.get? attr.name = some v →
        planned.get? attr.name = some (licensedValue replacing attr v)) →
      (∀ nested ∈ block.nestedBlocks, ∀ child child', proposed.get? nested.name = some child →
        planned.get? nested.name = some child' → SameElements nested.nesting child child') →
      (∀ nested ∈ block.nestedBlocks, ∀ child child' s elem elem', proposed.get? nested.name = some child →
        planned.get? nested.name = some child' → elementAt nested.nesting child s = some elem →
        elementAt nested.nesting child' s = some elem' → Licensed replacing nested.block elem elem') →
      Licensed replacing block (.object proposed) (.object planned)

theorem plannedSlot_some (replacing : Bool) (attr : AttributeSchema) (v : Value) :
    plannedSlot replacing attr (some v) = some (licensedValue replacing attr v) := by
  have hnull : isNullSlot (some v) = v.isNull := by cases v <;> rfl
  rw [plannedSlot, stripSlot, licensedValue, markSlot, hnull]
  cases attr.writeOnly with
  | true =>
      cases attr.required <;> cases v.isNull <;> cases attr.default <;> cases attr.computed <;> cases replacing <;> rfl
  | false =>
      cases attr.required <;> cases v.isNull <;> cases attr.default <;> cases attr.computed <;> cases replacing <;> rfl

section

variable {total : Bool}

theorem sameElements_walkNesting {nested : NestedBlock} {child : Value} (h : WellTyped total nested.ctyType child)
    (op : Value → Value) : SameElements nested.nesting child (walkNesting nested.nesting op child) := by
  obtain ⟨name, nesting, block, minItems, maxItems⟩ := nested
  cases nesting with
  | single => trivial
  | list =>
      cases h with
      | null => rfl
      | unknown => rfl
      | list _ items _ => exact List.length_map op
  | set =>
      cases h with
      | null => rfl
      | unknown => rfl
      | set _ items _ => exact List.length_map op
  | map =>
      cases h with
      | null => rfl
      | unknown => rfl
      | map _ entries _ => rfl

theorem licensed_pass {replacing : Bool} {block : Block} (hd : block.distinctNames = true) {value : Value}
    (hty : WellTyped total block.ctyType value) (hpresent : ∀ p attr x, AttrAt block value p attr x → x ≠ none) :
    Licensed replacing block value (updateAttrs walkNesting (plannedSlot replacing) block value) := by
  induction block using Block.induct generalizing value with
  | mk attributes nestedBlocks ih =>
      obtain rfl | rfl | ⟨fields, rfl⟩ := hty.block_cases
      · exact .null _
      · exact .unknown _
      · rw [updateAttrs_object]
        refine .object _ fields _ ?_ ?_ ?_ ?_
        · apply OrdMap.keys_eq
          intro k
          rcases Block.name_cases ⟨attributes, nestedBlocks⟩ k with ⟨attr, ha, rfl⟩ | ⟨nested, hn, rfl⟩ | hk
          · obtain ⟨v, hv⟩ := Option.ne_none_iff_exists'.mp (hpresent _ attr _ (.here _ fields attr ha))
            rw [get?_updateFields_attr hd ha, hv, plannedSlot_some]
            rfl
          · rw [get?_updateFields_nested hd hn, Option.isSome_map]
          · rw [get?_updateFields_other hk]
        · intro attr ha v hv
          rw [get?_updateFields_attr hd ha, hv]
          exact plannedSlot_some replacing attr v
        · intro nested hn child child' hchild hchild'
          rw [get?_updateFields_nested hd hn, hchild] at hchild'
          cases hchild'
          exact sameElements_walkNesting (hty.nestedBlock hd hn hchild) _
        · intro nested hn child child' s elem elem' hchild hchild' helem helem'
          rw [get?_updateFields_nested hd hn, hchild] at hchild'
          cases hchild'
          rw [walkNesting_elementwise, helem] at helem'
          cases helem'
          refine ih nested hn (Block.distinctNames_of_mem hd hn) ((hty.nestedBlock hd hn hchild).element helem) ?_
          intro p attr x hx
          exact hpresent _ attr x (.nested _ fields nested child elem s p attr x hn trivial hchild helem hx)

end

/-- The planner changes what the schema licenses, and nothing else. -/
theorem plan_licensed (block : Block) (hd : block.distinctNames = true) (prior : Value) (proposed : Fields)
    (hty : WellTyped false block.ctyType (.object proposed))
    (hpresent : ∀ p attr x, AttrAt block (.object proposed) p attr x → x ≠ none) :
    Licensed (!(plan prior (.object proposed) block).requiresReplace.isEmpty) block (.object proposed)
      (plan prior (.object proposed) block).planned := by
  rw [planned_eq hd prior rfl hty]
  exact licensed_pass hd hty hpresent

def caseBlock : Block :=
  ⟨[{ AttributeSchema.new "label" .string with default := some (.string "spare") }],
    [⟨"disk", .list, ⟨[{ AttributeSchema.new "serial" .string with computed := true }], []⟩, 0, 0⟩]⟩

def newDisk : Value := .object (.ofList [("serial", .null)])

def newCase : Fields := .ofList [("label", .null), ("disk", .list [newDisk])]

theorem wellTyped_newCase : WellTyped true caseBlock.ctyType (.object newCase) :=
  @wellTyped_decodeJson Crates.real (.object (.ofList [("disk", .array [.object .empty])])) _ _ rfl

theorem plan_licensed_newCase :
    Licensed (!(plan .null (.object newCase) caseBlock).requiresReplace.isEmpty) caseBlock (.object newCase)
      (plan .null (.object newCase) caseBlock).planned :=
  plan_licensed caseBlock (by decide) .null newCase wellTyped_newCase.mono
    fun _ _ _ => wellTyped_newCase.present (by decide)

end TofuSdk
