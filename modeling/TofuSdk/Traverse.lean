import TofuSdk.Plan

namespace TofuSdk

open ValueOf

abbrev Walk := NestingMode → (Value → Value) → Value → Value

abbrev Update := AttributeSchema → Option Value → Option Value

mutual

def updateAttrs (walk : Walk) (f : Update) (block : Block) (value : Value) : Value :=
  match block, value with
  | ⟨attributes, nestedBlocks⟩, .object fields =>
      .object (updateNested walk f nestedBlocks
        (attributes.foldl (fun fields attr => fields.alter attr.name (f attr)) fields))
  | _, value => value
termination_by structural block

def updateNested (walk : Walk) (f : Update) (nestedBlocks : List NestedBlock) (fields : Fields) : Fields :=
  match nestedBlocks with
  | [] => fields
  | ⟨name, nesting, block, _, _⟩ :: rest =>
      updateNested walk f rest (fields.modify name (walk nesting (updateAttrs walk f block)))
termination_by structural nestedBlocks

end

theorem updateNested_eq (walk : Walk) (f : Update) (nestedBlocks : List NestedBlock) (fields : Fields) :
    updateNested walk f nestedBlocks fields = nestedBlocks.foldl
      (fun fields nested => fields.alter nested.name
        (Option.map (walk nested.nesting (updateAttrs walk f nested.block)))) fields := by
  induction nestedBlocks generalizing fields with
  | nil => rfl
  | cons nested rest ih =>
      rw [updateNested, ih, List.foldl_cons, OrdMap.alter_map_eq_modify]

theorem updateAttrs_of_not_object (walk : Walk) (f : Update) (block : Block) {value : Value}
    (h : ∀ fields, value ≠ .object fields) : updateAttrs walk f block value = value := by
  obtain ⟨attributes, nestedBlocks⟩ := block
  cases value with
  | object fields => exact absurd rfl (h fields)
  | _ => rfl

/-- A function of blocks and values that updates the attributes and recurses
the same way is the pass. -/
theorem eq_updateAttrs {walk : Walk} {f : Update} (pass : Block → Value → Value)
    (hobject : ∀ block fields, pass block (.object fields) = .object (block.nestedBlocks.foldl
      (fun fields nested => fields.modify nested.name (walk nested.nesting (pass nested.block)))
      (block.attributes.foldl (fun fields attr => fields.alter attr.name (f attr)) fields)))
    (hother : ∀ block value, (∀ fields, value ≠ .object fields) → pass block value = value)
    (block : Block) : pass block = updateAttrs walk f block := by
  induction block using Block.induct with
  | mk attributes nestedBlocks ih =>
      funext value
      cases value with
      | object fields =>
          have hnested : ∀ l : List NestedBlock, (∀ nested ∈ l, nested ∈ nestedBlocks) → ∀ fields : Fields,
              l.foldl (fun fields nested =>
                fields.modify nested.name (walk nested.nesting (pass nested.block))) fields =
              updateNested walk f l fields := by
            intro l hl
            induction l with
            | nil =>
                intro fields
                rfl
            | cons nested rest ihl =>
                intro fields
                rw [List.foldl_cons, updateNested, ih nested (hl nested (by simp))]
                exact ihl (fun n hn => hl n (by simp [hn])) _
          rw [hobject, updateAttrs, hnested nestedBlocks fun _ h => h]
      | _ => exact hother _ _ (fun _ h => by cases h)

def stripSlot : Update := fun attr x => if attr.writeOnly then x.map fun _ => .null else x

theorem stripAttribute_eq (fields : Fields) (attr : AttributeSchema) :
    WriteOnly.stripAttribute fields attr = fields.alter attr.name (stripSlot attr) := by
  rw [WriteOnly.stripAttribute]
  split_ifs with h
  · rw [← OrdMap.alter_map_eq_modify]
    congr 1
    funext x
    simp [stripSlot, h]
  · symm
    apply OrdMap.alter_eq_self
    simp [stripSlot, h]

theorem stripNested_eq (nestedBlocks : List NestedBlock) (fields : Fields) :
    WriteOnly.stripNested fields nestedBlocks = nestedBlocks.foldl (fun fields nested =>
      fields.modify nested.name (WriteOnly.walkBlock nested.nesting fun v => WriteOnly.strip v nested.block))
      fields := by
  induction nestedBlocks generalizing fields with
  | nil => rfl
  | cons nested rest ih => rw [WriteOnly.stripNested, ih, List.foldl_cons]

theorem strip_eq (value : Value) (block : Block) :
    WriteOnly.strip value block = updateAttrs WriteOnly.walkBlock stripSlot block value := by
  refine congrFun (eq_updateAttrs (fun block value => WriteOnly.strip value block) ?_ ?_ block) value
  · intro block fields
    obtain ⟨attributes, nestedBlocks⟩ := block
    have hattrs : WriteOnly.stripAttribute = fun fields attr => fields.alter attr.name (stripSlot attr) := by
      funext fields attr
      exact stripAttribute_eq fields attr
    rw [WriteOnly.strip, stripNested_eq, hattrs]
  · intro block value h
    obtain ⟨attributes, nestedBlocks⟩ := block
    cases value with
    | object fields => exact absurd rfl (h fields)
    | _ => rfl

def markSlot (replacing : Bool) : Update := fun attr x =>
  if attr.required then x
  else
    match isNullSlot x, attr.default with
    | true, some default => some default
    | _, _ => if attr.computed && (replacing || isNullSlot x) then some .unknown else x

theorem markAttribute_eq (replacing : Bool) (fields : Fields) (attr : AttributeSchema) :
    markAttribute replacing fields attr = fields.alter attr.name (markSlot replacing attr) := by
  apply OrdMap.ext_get?
  intro k
  rw [OrdMap.get?_alter, markAttribute, markSlot]
  by_cases hk : k = attr.name
  · subst hk
    rw [if_pos rfl]
    cases isNullSlot (fields.get? attr.name) <;> cases attr.default <;> simp only [] <;> split_ifs <;> simp
  · rw [if_neg hk]
    cases isNullSlot (fields.get? attr.name) <;> cases attr.default <;> simp only [] <;> split_ifs <;>
      simp [OrdMap.get?_insert_of_ne _ _ hk]

theorem markNestedBlocks_eq (replacing : Bool) (nestedBlocks : List NestedBlock) (fields : Fields) :
    markNestedBlocks fields nestedBlocks replacing = nestedBlocks.foldl (fun fields nested =>
      fields.modify nested.name (walkNesting nested.nesting fun v =>
        markComputedUnknown v nested.block replacing)) fields := by
  induction nestedBlocks generalizing fields with
  | nil => rfl
  | cons nested rest ih =>
      rw [markNestedBlocks, ih, List.foldl_cons]
      congr 1
      cases h : fields.get? nested.name with
      | some value => exact OrdMap.insert_erase fields h _
      | none => exact (OrdMap.modify_of_get?_eq_none fields h _).symm

theorem markComputedUnknown_eq (proposed : Value) (block : Block) (replacing : Bool) :
    markComputedUnknown proposed block replacing =
      updateAttrs walkNesting (markSlot replacing) block proposed := by
  refine congrFun (eq_updateAttrs (fun block v => markComputedUnknown v block replacing) ?_ ?_ block)
    proposed
  · intro block fields
    obtain ⟨attributes, nestedBlocks⟩ := block
    have hattrs : markAttribute replacing = fun fields attr => fields.alter attr.name (markSlot replacing attr) := by
      funext fields attr
      exact markAttribute_eq replacing fields attr
    rw [markComputedUnknown, markNestedBlocks_eq, hattrs]
  · intro block value h
    obtain ⟨attributes, nestedBlocks⟩ := block
    cases value with
    | object fields => exact absurd rfl (h fields)
    | _ => rfl

/-- A walk acts on the elements of a nested block's value, and makes no others. -/
def Walk.Elementwise (walk : Walk) : Prop :=
  ∀ (nesting : NestingMode) (op : Value → Value) (value : Value) (s : Path),
    elementAt nesting (walk nesting op value) s = (elementAt nesting value s).map op

theorem elementAt_index_map {items : List Value} (op : Value → Value) (i : Int) :
    (if 0 ≤ i then (items.map op)[i.toNat]? else none) =
      (if 0 ≤ i then items[i.toNat]? else none).map op := by
  split_ifs
  · exact List.getElem?_map
  · rfl

theorem walkNesting_elementwise : Walk.Elementwise walkNesting := by
  intro nesting op value s
  cases nesting with
  | single => cases s <;> rfl
  | list =>
      cases value with
      | list items =>
          rcases s with _ | ⟨_ | i | _, _ | _⟩ <;> first | rfl | exact elementAt_index_map op i
      | _ => rfl
  | set =>
      cases value with
      | set items =>
          rcases s with _ | ⟨_ | i | _, _ | _⟩ <;> first | rfl | exact elementAt_index_map op i
      | _ => rfl
  | map =>
      cases value with
      | map entries =>
          rcases s with _ | ⟨_ | _ | k, _ | _⟩ <;> first | rfl | exact OrdMap.get?_map op entries k
      | _ => rfl

theorem walkBlock_elementwise : Walk.Elementwise WriteOnly.walkBlock := by
  intro nesting op value s
  cases nesting with
  | single => cases s <;> rfl
  | list =>
      cases value with
      | list items =>
          rcases s with _ | ⟨_ | i | _, _ | _⟩ <;> first | rfl | exact elementAt_index_map op i
      | _ => rfl
  | set =>
      cases value with
      | set items =>
          rcases s with _ | ⟨_ | i | _, _ | _⟩ <;> first | rfl | exact elementAt_index_map op i
      | _ => rfl
  | map =>
      cases value with
      | map entries =>
          rcases s with _ | ⟨_ | _ | k, _ | _⟩ <;> first | rfl | exact OrdMap.get?_map op entries k
      | _ => rfl

def updateFields (walk : Walk) (f : Update) (block : Block) (fields : Fields) : Fields :=
  updateNested walk f block.nestedBlocks
    (block.attributes.foldl (fun fields attr => fields.alter attr.name (f attr)) fields)

@[simp] theorem updateAttrs_object (walk : Walk) (f : Update) (block : Block) (fields : Fields) :
    updateAttrs walk f block (.object fields) = .object (updateFields walk f block fields) := by
  obtain ⟨attributes, nestedBlocks⟩ := block
  rfl

section

variable {walk : Walk} {f : Update} {block : Block} {fields : Fields}

theorem Block.names_nodup (hd : block.distinctNames = true) :
    (block.attributes.map (·.name) ++ block.nestedBlocks.map (·.name)).Nodup := by
  obtain ⟨attributes, nestedBlocks⟩ := block
  exact (Block.distinctNames_iff.mp hd).1

/-- A name is that of an attribute or of a nested block, or the block has no
such name. -/
theorem Block.name_cases (block : Block) (k : String) : (∃ attr ∈ block.attributes, attr.name = k) ∨
    (∃ nested ∈ block.nestedBlocks, nested.name = k) ∨
      k ∉ block.attributes.map (·.name) ++ block.nestedBlocks.map (·.name) := by
  by_cases ha : ∃ attr ∈ block.attributes, attr.name = k
  · exact .inl ha
  · by_cases hn : ∃ nested ∈ block.nestedBlocks, nested.name = k
    · exact .inr (.inl hn)
    · refine .inr (.inr ?_)
      rw [List.mem_append, List.mem_map, List.mem_map]
      exact fun hk => hk.elim ha hn

theorem Block.distinctNames_of_mem (hd : block.distinctNames = true) {nested : NestedBlock}
    (hn : nested ∈ block.nestedBlocks) : nested.block.distinctNames = true := by
  obtain ⟨attributes, nestedBlocks⟩ := block
  exact (Block.distinctNames_iff.mp hd).2 nested hn

theorem get?_updateFields_attr (hd : block.distinctNames = true) {attr : AttributeSchema}
    (ha : attr ∈ block.attributes) :
    (updateFields walk f block fields).get? attr.name = f attr (fields.get? attr.name) := by
  obtain ⟨hattrs, -, hdisj⟩ := List.nodup_append.mp (Block.names_nodup hd)
  have hnot : attr.name ∉ block.nestedBlocks.map (·.name) := fun h =>
    hdisj _ (List.mem_map_of_mem ha) _ h rfl
  rw [updateFields, updateNested_eq, OrdMap.get?_foldl_alter_of_notMem _ _ hnot,
    OrdMap.get?_foldl_alter _ f hattrs ha]

theorem get?_updateFields_nested (hd : block.distinctNames = true) {nested : NestedBlock}
    (hn : nested ∈ block.nestedBlocks) :
    (updateFields walk f block fields).get? nested.name =
      (fields.get? nested.name).map (walk nested.nesting (updateAttrs walk f nested.block)) := by
  obtain ⟨-, hnested, hdisj⟩ := List.nodup_append.mp (Block.names_nodup hd)
  have hnot : nested.name ∉ block.attributes.map (·.name) := fun h =>
    hdisj _ h _ (List.mem_map_of_mem hn) rfl
  rw [updateFields, updateNested_eq, OrdMap.get?_foldl_alter (fun n : NestedBlock => n.name)
    (fun n => Option.map (walk n.nesting (updateAttrs walk f n.block))) hnested hn,
    OrdMap.get?_foldl_alter_of_notMem _ _ hnot]

theorem get?_updateFields_other {k : String}
    (hk : k ∉ block.attributes.map (·.name) ++ block.nestedBlocks.map (·.name)) :
    (updateFields walk f block fields).get? k = fields.get? k := by
  rw [List.mem_append, not_or] at hk
  rw [updateFields, updateNested_eq, OrdMap.get?_foldl_alter_of_notMem _ _ hk.2,
    OrdMap.get?_foldl_alter_of_notMem _ _ hk.1]

end

/-- A pass over a block with distinct names changes no position and applies its
update to what each one holds. -/
theorem attrAt_updateAttrs {walk : Walk} (hw : walk.Elementwise) (f : Update) {via : NestingMode → Prop}
    {block : Block} (hd : block.distinctNames = true) {value : Value} {p : Path} {attr : AttributeSchema}
    {y : Option Value} : AttrAtVia via block (updateAttrs walk f block value) p attr y ↔
      ∃ x, AttrAtVia via block value p attr x ∧ y = f attr x := by
  induction block using Block.induct generalizing value p attr y with
  | mk attributes nestedBlocks ih =>
      constructor
      · intro h
        obtain ⟨fields', hobj⟩ := h.object
        cases value with
        | object fields =>
            rw [updateAttrs_object, attrAt_object] at h
            obtain ⟨ha, rfl, rfl⟩ | ⟨nested, hn, hvia, child, s, elem, q, hchild, helem, h, rfl⟩ := h
            · exact ⟨_, .here _ fields attr ha, get?_updateFields_attr hd ha⟩
            · rw [get?_updateFields_nested hd hn] at hchild
              obtain ⟨child', hchild', rfl⟩ := Option.map_eq_some_iff.mp hchild
              rw [hw] at helem
              obtain ⟨elem', helem', rfl⟩ := Option.map_eq_some_iff.mp helem
              obtain ⟨x, hx, rfl⟩ := (ih nested hn (Block.distinctNames_of_mem hd hn)).mp h
              exact ⟨x, .nested _ fields nested child' elem' s q attr x hn hvia hchild' helem' hx, rfl⟩
        | _ =>
            rw [updateAttrs_of_not_object _ _ _ (fun _ h => by cases h)] at hobj
            cases hobj
      · rintro ⟨x, h, rfl⟩
        obtain ⟨fields, rfl⟩ := h.object
        rw [attrAt_object] at h
        rw [updateAttrs_object, attrAt_object]
        obtain ⟨ha, rfl, rfl⟩ | ⟨nested, hn, hvia, child, s, elem, q, hchild, helem, h, rfl⟩ := h
        · exact Or.inl ⟨ha, rfl, (get?_updateFields_attr hd ha).symm⟩
        · have hchild' := @get?_updateFields_nested walk f _ fields hd nested hn
          rw [hchild, Option.map_some] at hchild'
          have helem' := hw nested.nesting (updateAttrs walk f nested.block) child s
          rw [helem, Option.map_some] at helem'
          exact Or.inr ⟨nested, hn, hvia, _, s, _, q, hchild', helem',
            (ih nested hn (Block.distinctNames_of_mem hd hn)).mpr ⟨x, h, rfl⟩, rfl⟩

theorem mapFields_congr {entries : Fields} {f g : Value → Value}
    (h : ∀ k v, entries.get? k = some v → f v = g v) : entries.map f = entries.map g := by
  apply OrdMap.ext_get?
  intro k
  rw [OrdMap.get?_map, OrdMap.get?_map]
  cases hv : entries.get? k with
  | none => rfl
  | some v => rw [Option.map_some, Option.map_some, h k v hv]

theorem exists_elementAt_list {items : List Value} {v : Value} (hv : v ∈ items) :
    ∃ s, elementAt .list (.list items) s = some v ∧ elementAt .set (.set items) s = some v := by
  obtain ⟨i, hi⟩ := List.getElem?_of_mem hv
  exact ⟨[.index i], by simpa [elementAt] using hi⟩

theorem walkNesting_congr {nesting : NestingMode} {child : Value} {op op' : Value → Value}
    (h : ∀ s elem, elementAt nesting child s = some elem → op elem = op' elem) :
    walkNesting nesting op child = walkNesting nesting op' child := by
  cases nesting with
  | single => exact h [] child rfl
  | list =>
      cases child with
      | list items =>
          refine congrArg ValueOf.list (List.map_congr_left ?_)
          intro v hv
          obtain ⟨s, hs, -⟩ := exists_elementAt_list hv
          exact h s v hs
      | _ => rfl
  | set =>
      cases child with
      | set items =>
          refine congrArg ValueOf.set (List.map_congr_left ?_)
          intro v hv
          obtain ⟨s, -, hs⟩ := exists_elementAt_list hv
          exact h s v hs
      | _ => rfl
  | map =>
      cases child with
      | map entries => exact congrArg ValueOf.map (mapFields_congr fun k v hv => h [.key k] v hv)
      | _ => rfl

theorem map_id_fields (entries : Fields) : entries.map id = entries := by
  apply OrdMap.ext_get?
  intro k
  rw [OrdMap.get?_map, Option.map_id, id]

theorem walkNesting_id (nesting : NestingMode) (child : Value) : walkNesting nesting id child = child := by
  cases nesting <;> cases child <;> simp [walkNesting, map_id_fields]

theorem walkNesting_eq_self {nesting : NestingMode} {child : Value} {op : Value → Value}
    (h : ∀ s elem, elementAt nesting child s = some elem → op elem = elem) : walkNesting nesting op child = child :=
  (walkNesting_congr h).trans (walkNesting_id nesting child)

theorem walkNesting_walkNesting (nesting : NestingMode) (op op' : Value → Value) (child : Value) :
    walkNesting nesting op (walkNesting nesting op' child) = walkNesting nesting (fun v => op (op' v)) child := by
  cases nesting <;> cases child <;> simp [walkNesting, OrdMap.map, Function.comp_def]

def Apt : NestingMode → Value → Prop
  | .list, .set _ | .set, .list _ => False
  | _, _ => True

theorem walkBlock_eq_walkNesting {nesting : NestingMode} {child : Value} (h : Apt nesting child) (op : Value → Value) :
    WriteOnly.walkBlock nesting op child = walkNesting nesting op child := by
  cases nesting <;> cases child <;> first | rfl | exact absurd h id

theorem Apt.walkNesting {nesting : NestingMode} {child : Value} (h : Apt nesting child) (op : Value → Value) :
    Apt nesting (walkNesting nesting op child) := by
  cases nesting with
  | single => trivial
  | list | set | map => cases child <;> exact h

/-- A value whose nested blocks are all of that kind, at every depth. -/
inductive Tidy : Block → Value → Prop
  | other (block : Block) (value : Value) : (∀ fields, value ≠ .object fields) → Tidy block value
  | object (block : Block) (fields : Fields) :
      (∀ nested ∈ block.nestedBlocks, ∀ child, fields.get? nested.name = some child → Apt nested.nesting child) →
      (∀ nested ∈ block.nestedBlocks, ∀ child s elem, fields.get? nested.name = some child →
        elementAt nested.nesting child s = some elem → Tidy nested.block elem) →
      Tidy block (.object fields)

theorem ConformsWith.tidy {slot : Value → Prop} {block : Block} {value : Value}
    (hc : ConformsWith slot block.ctyType value) : Tidy block value := by
  induction block using Block.induct generalizing value with
  | mk attributes nestedBlocks ih =>
      cases value with
      | object fields =>
          refine .object _ fields ?_ ?_
          · intro nested hn child hchild
            have hconf := hc.nestedBlock hn hchild
            obtain ⟨name, nesting, block, minItems, maxItems⟩ := nested
            cases nesting with
            | single | map => trivial
            | list | set => cases hconf <;> trivial
          · intro nested hn child s elem hchild helem
            exact ih nested hn ((hc.nestedBlock hn hchild).element helem)
      | _ => exact .other _ _ (fun _ h => by cases h)

section

variable {block : Block} {value : Value}

theorem updateAttrs_eq_self {f : Update} (hd : block.distinctNames = true)
    (h : ∀ p attr x, AttrAt block value p attr x → f attr x = x) : updateAttrs walkNesting f block value = value := by
  induction block using Block.induct generalizing value with
  | mk attributes nestedBlocks ih =>
      cases value with
      | object fields =>
          rw [updateAttrs_object]
          congr 1
          apply OrdMap.ext_get?
          intro k
          rcases Block.name_cases ⟨attributes, nestedBlocks⟩ k with ⟨attr, ha, rfl⟩ | ⟨nested, hn, rfl⟩ | hk
          · rw [get?_updateFields_attr hd ha]
            exact h _ attr _ (.here _ fields attr ha)
          · rw [get?_updateFields_nested hd hn]
            cases hchild : fields.get? nested.name with
            | none => rfl
            | some child =>
                rw [Option.map_some, walkNesting_eq_self]
                intro s elem helem
                apply ih nested hn (Block.distinctNames_of_mem hd hn)
                intro p attr x hx
                exact h _ attr x (.nested _ fields nested child elem s p attr x hn trivial hchild helem hx)
          · exact get?_updateFields_other hk
      | _ => exact updateAttrs_of_not_object _ _ _ (fun _ h => by cases h)

theorem updateAttrs_updateAttrs {f g : Update} (hd : block.distinctNames = true) (ht : Tidy block value) :
    updateAttrs WriteOnly.walkBlock g block (updateAttrs walkNesting f block value) =
      updateAttrs walkNesting (fun attr x => g attr (f attr x)) block value := by
  induction ht with
  | other block value h =>
      rw [updateAttrs_of_not_object walkNesting f block h, updateAttrs_of_not_object _ _ block h,
        updateAttrs_of_not_object _ _ block h]
  | object block fields hapt _ ih =>
      rw [updateAttrs_object, updateAttrs_object, updateAttrs_object]
      congr 1
      apply OrdMap.ext_get?
      intro k
      rcases Block.name_cases block k with ⟨attr, ha, rfl⟩ | ⟨nested, hn, rfl⟩ | hk
      · rw [get?_updateFields_attr hd ha, get?_updateFields_attr hd ha, get?_updateFields_attr hd ha]
      · rw [get?_updateFields_nested hd hn, get?_updateFields_nested hd hn, get?_updateFields_nested hd hn]
        cases hchild : fields.get? nested.name with
        | none => rfl
        | some child =>
            have hsame := (hapt nested hn child hchild).walkNesting (updateAttrs walkNesting f nested.block)
            rw [Option.map_some, Option.map_some, Option.map_some, walkBlock_eq_walkNesting hsame,
              walkNesting_walkNesting]
            congr 1
            apply walkNesting_congr
            intro s elem helem
            exact ih nested hn child s elem hchild helem (Block.distinctNames_of_mem hd hn)
      · rw [get?_updateFields_other hk, get?_updateFields_other hk, get?_updateFields_other hk]

end

def plannedSlot (replacing : Bool) : Update := fun attr x => stripSlot attr (markSlot replacing attr x)

/-- Planning moves nothing: the plan holds at each position what the schema
makes of the proposed value there. -/
theorem attrAt_plan {via : NestingMode → Prop} {block : Block} (hd : block.distinctNames = true)
    (prior proposed : Value) {p : Path} {attr : AttributeSchema} {y : Option Value} :
    AttrAtVia via block (plan prior proposed block).planned p attr y ↔
      ∃ x, AttrAtVia via block proposed p attr x ∧
        y = plannedSlot (!(plan prior proposed block).requiresReplace.isEmpty) attr x := by
  rw [plan]
  split_ifs with hnull
  · cases proposed with
    | null =>
        constructor
        · intro h
          obtain ⟨fields, h⟩ := h.object
          cases h
        · rintro ⟨x, h, -⟩
          obtain ⟨fields, h⟩ := h.object
          cases h
    | _ => cases hnull
  · simp only [strip_eq, markComputedUnknown_eq]
    rw [attrAt_updateAttrs walkBlock_elementwise stripSlot hd]
    constructor
    · rintro ⟨marked, hmarked, rfl⟩
      obtain ⟨x, hx, rfl⟩ := (attrAt_updateAttrs walkNesting_elementwise _ hd).mp hmarked
      exact ⟨x, hx, rfl⟩
    · rintro ⟨x, h, rfl⟩
      exact ⟨_, (attrAt_updateAttrs walkNesting_elementwise _ hd).mpr ⟨x, h, rfl⟩, rfl⟩

end TofuSdk
