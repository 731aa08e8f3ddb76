import TofuSdk.Traverse

namespace TofuSdk

open ValueOf

def mergeSlot (config : Option Value) (attr : AttributeSchema) (state : Option Value) : Option Value :=
  if attr.writeOnly then config <|> state else state

def mergeChild (nesting : NestingMode) (merge : Value → Value → Value) (state config : Value) : Value :=
  match nesting, state, config with
  | .single, state, config => merge state config
  | .list, .list states, .list configs => .list (WriteOnly.zipInPlace merge states configs)
  | .map, .map states, .map configs =>
      .map (states.mapWithKey fun key s => match configs.get? key with
        | some c => merge s c
        | none => s)
  | _, state, _ => state

def mergeNestedSlot (config : Option Value) (nested : NestedBlock) : Option Value → Option Value :=
  Option.map fun state => config.elim state
    (mergeChild nested.nesting (fun s c => WriteOnly.mergeFromConfig s c nested.block) state)

theorem mergeAttribute_eq (config state : Fields) (attr : AttributeSchema) :
    WriteOnly.mergeAttribute config state attr = state.alter attr.name (mergeSlot (config.get? attr.name) attr) := by
  rw [WriteOnly.mergeAttribute]
  split_ifs with h
  · cases hc : config.get? attr.name with
    | some value =>
        apply OrdMap.ext_get?
        intro k
        simp [OrdMap.get?_alter, OrdMap.get?_insert, mergeSlot, h]
    | none =>
        symm
        apply OrdMap.alter_eq_self
        simp [mergeSlot]
  · symm
    apply OrdMap.alter_eq_self
    simp [mergeSlot, h]

theorem mergeNested_eq (state config : Fields) (nestedBlocks : List NestedBlock) :
    WriteOnly.mergeNested state config nestedBlocks = nestedBlocks.foldl (fun fields nested =>
      fields.alter nested.name (mergeNestedSlot (config.get? nested.name) nested)) state := by
  induction nestedBlocks generalizing state with
  | nil => rfl
  | cons nested rest ih =>
      obtain ⟨name, nesting, block, minItems, maxItems⟩ := nested
      rw [WriteOnly.mergeNested, ih, List.foldl_cons]
      congr 1
      rw [mergeNestedSlot]
      cases hc : config.get? name with
      | some child => exact (OrdMap.alter_map_eq_modify state name _).symm
      | none =>
          symm
          apply OrdMap.alter_eq_self
          simp

def mergeFields (block : Block) (state config : Fields) : Fields :=
  WriteOnly.mergeNested (block.attributes.foldl (WriteOnly.mergeAttribute config) state) config block.nestedBlocks

theorem mergeFromConfig_object (block : Block) (state config : Fields) :
    WriteOnly.mergeFromConfig (.object state) (.object config) block = .object (mergeFields block state config) := by
  obtain ⟨attributes, nestedBlocks⟩ := block
  rfl

theorem mergeFromConfig_of_not_object {block : Block} {state config : Value}
    (h : ∀ fields fields', state = .object fields → config = .object fields' → False) :
    WriteOnly.mergeFromConfig state config block = state := by
  obtain ⟨attributes, nestedBlocks⟩ := block
  cases state with
  | object fields =>
      cases config with
      | object fields' => exact (h _ _ rfl rfl).elim
      | _ => rfl
  | _ => rfl

section

variable {block : Block} {state config : Fields}

theorem get?_mergeFields_attr (hd : block.distinctNames = true) {attr : AttributeSchema}
    (ha : attr ∈ block.attributes) : (mergeFields block state config).get? attr.name =
      mergeSlot (config.get? attr.name) attr (state.get? attr.name) := by
  obtain ⟨hattrs, -, hdisj⟩ := List.nodup_append.mp (Block.names_nodup hd)
  have hnot : attr.name ∉ block.nestedBlocks.map (·.name) := fun h =>
    hdisj _ (List.mem_map_of_mem ha) _ h rfl
  rw [mergeFields, mergeNested_eq, OrdMap.get?_foldl_alter_of_notMem _ _ hnot,
    funext fun fields => funext fun attr => mergeAttribute_eq config fields attr,
    OrdMap.get?_foldl_alter (fun attr : AttributeSchema => attr.name)
      (fun attr => mergeSlot (config.get? attr.name) attr) hattrs ha]

theorem get?_mergeFields_nested (hd : block.distinctNames = true) {nested : NestedBlock}
    (hn : nested ∈ block.nestedBlocks) : (mergeFields block state config).get? nested.name =
      mergeNestedSlot (config.get? nested.name) nested (state.get? nested.name) := by
  obtain ⟨-, hnested, hdisj⟩ := List.nodup_append.mp (Block.names_nodup hd)
  have hnot : nested.name ∉ block.attributes.map (·.name) := fun h =>
    hdisj _ h _ (List.mem_map_of_mem hn) rfl
  rw [mergeFields, mergeNested_eq, OrdMap.get?_foldl_alter (fun nested : NestedBlock => nested.name)
      (fun nested => mergeNestedSlot (config.get? nested.name) nested) hnested hn,
    funext fun fields => funext fun attr => mergeAttribute_eq config fields attr,
    OrdMap.get?_foldl_alter_of_notMem _ _ hnot]

theorem get?_mergeFields_other {k : String}
    (hk : k ∉ block.attributes.map (·.name) ++ block.nestedBlocks.map (·.name)) :
    (mergeFields block state config).get? k = state.get? k := by
  rw [List.mem_append, not_or] at hk
  rw [mergeFields, mergeNested_eq, OrdMap.get?_foldl_alter_of_notMem _ _ hk.2,
    funext fun fields => funext fun attr => mergeAttribute_eq config fields attr,
    OrdMap.get?_foldl_alter_of_notMem _ _ hk.1]

end

section

variable {α β γ : Type} {f : α → β → α}

theorem getElem?_zipInPlace (as : List α) (bs : List β) (i : Nat) :
    (WriteOnly.zipInPlace f as bs)[i]? = as[i]?.map fun a => bs[i]?.elim a (f a) := by
  induction as generalizing bs i with
  | nil => cases bs <;> rfl
  | cons a as ih =>
      cases bs with
      | nil => simp [WriteOnly.zipInPlace]
      | cons b bs =>
          cases i with
          | zero => rfl
          | succ i => exact ih bs i

theorem map_zipInPlace {g : α → γ} {as : List α} {bs : List β} (h : ∀ a ∈ as, ∀ b ∈ bs, g (f a b) = g a) :
    (WriteOnly.zipInPlace f as bs).map g = as.map g := by
  induction as generalizing bs with
  | nil => cases bs <;> rfl
  | cons a as ih =>
      cases bs with
      | nil => rfl
      | cons b bs =>
          rw [WriteOnly.zipInPlace, List.map_cons, List.map_cons, h a (by simp) b (by simp)]
          rw [ih fun a ha b hb => h a (by simp [ha]) b (by simp [hb])]

end

/-- The elements of a merged nested block's value are those of the state, each
merged with the configuration's element at the same step, if there is one. A set
pairs none. -/
theorem elementAt_mergeChild {nesting : NestingMode} (hset : nesting ≠ .set) (merge : Value → Value → Value)
    (state config : Value) (s : Path) : elementAt nesting (mergeChild nesting merge state config) s =
      (elementAt nesting state s).map fun elem => (elementAt nesting config s).elim elem (merge elem) := by
  cases nesting with
  | single => cases s <;> rfl
  | set => exact absurd rfl hset
  | list =>
      cases state with
      | list states =>
          cases config with
          | list configs =>
              rcases s with _ | ⟨_ | i | _, _ | _⟩ <;> try rfl
              by_cases hi : 0 ≤ i
              · simp only [mergeChild, elementAt, if_pos hi]
                exact getElem?_zipInPlace states configs i.toNat
              · simp only [mergeChild, elementAt, if_neg hi, Option.map_none]
          | _ => simp [mergeChild, elementAt]
      | _ => rfl
  | map =>
      cases state with
      | map states =>
          cases config with
          | map configs =>
              rcases s with _ | ⟨_ | _ | k, _ | _⟩ <;> try rfl
              simp only [mergeChild, elementAt, OrdMap.get?_mapWithKey]
              congr 1
              funext elem
              cases configs.get? k <;> rfl
          | _ => simp [mergeChild, elementAt]
      | _ => rfl

/-- Every attribute of the block is there, at every depth. -/
def Whole (block : Block) (value : Value) : Prop := ∀ p attr x, AttrAt block value p attr x → x.isSome = true

theorem Whole.attribute {block : Block} {fields : Fields} (h : Whole block (.object fields)) {attr : AttributeSchema}
    (ha : attr ∈ block.attributes) : (fields.get? attr.name).isSome = true := h _ attr _ (.here block fields attr ha)

theorem Whole.element {block : Block} {fields : Fields} (h : Whole block (.object fields)) {nested : NestedBlock}
    (hn : nested ∈ block.nestedBlocks) {child elem : Value} {s : Path} (hchild : fields.get? nested.name = some child)
    (helem : elementAt nested.nesting child s = some elem) : Whole nested.block elem := fun p attr x hx =>
  h _ attr x (.nested block fields nested child elem s p attr x hn trivial hchild helem hx)

theorem walkBlock_walkBlock (nesting : NestingMode) (op op' : Value → Value) (child : Value) :
    WriteOnly.walkBlock nesting op (WriteOnly.walkBlock nesting op' child) =
      WriteOnly.walkBlock nesting (fun v => op (op' v)) child := by
  cases nesting <;> cases child <;> simp [WriteOnly.walkBlock, OrdMap.map, Function.comp_def]

section

variable {block : Block}

theorem strip_object_congr (hd : block.distinctNames = true) {fields fields' : Fields}
    (hattr : ∀ attr ∈ block.attributes,
      stripSlot attr (fields.get? attr.name) = stripSlot attr (fields'.get? attr.name))
    (hnested : ∀ nested ∈ block.nestedBlocks,
      (fields.get? nested.name).map (WriteOnly.walkBlock nested.nesting fun v => WriteOnly.strip v nested.block) =
        (fields'.get? nested.name).map (WriteOnly.walkBlock nested.nesting fun v => WriteOnly.strip v nested.block))
    (hother : ∀ k, k ∉ block.attributes.map (·.name) ++ block.nestedBlocks.map (·.name) →
      fields.get? k = fields'.get? k) :
    WriteOnly.strip (.object fields) block = WriteOnly.strip (.object fields') block := by
  rw [strip_eq, strip_eq, updateAttrs_object, updateAttrs_object]
  congr 1
  apply OrdMap.ext_get?
  intro k
  rcases Block.name_cases block k with ⟨attr, hmem, rfl⟩ | ⟨nested, hmem, rfl⟩ | hk
  · rw [get?_updateFields_attr hd hmem, get?_updateFields_attr hd hmem]
    exact hattr attr hmem
  · rw [get?_updateFields_nested hd hmem, get?_updateFields_nested hd hmem,
      ← funext fun v => strip_eq v nested.block]
    exact hnested nested hmem
  · rw [get?_updateFields_other hk, get?_updateFields_other hk, hother k hk]

theorem strip_strip (hd : block.distinctNames = true) (state : Value) :
    WriteOnly.strip (WriteOnly.strip state block) block = WriteOnly.strip state block := by
  induction block using Block.induct generalizing state with
  | mk attributes nestedBlocks ih =>
      cases state with
      | object fields =>
          conv_lhs => rw [strip_eq (.object fields), updateAttrs_object]
          apply strip_object_congr hd
          · intro attr ha
            rw [get?_updateFields_attr hd ha]
            cases hw : attr.writeOnly <;> cases fields.get? attr.name <;> simp [stripSlot, hw]
          · intro nested hn
            rw [get?_updateFields_nested hd hn, ← funext fun v => strip_eq v nested.block, Option.map_map]
            congr 1
            funext child
            rw [Function.comp_apply, walkBlock_walkBlock]
            congr 1
            funext v
            exact ih nested hn (Block.distinctNames_of_mem hd hn) v
          · exact fun k hk => get?_updateFields_other hk
      | _ => rfl

theorem walkBlock_mergeChild {nesting : NestingMode} {op : Value → Value} {merge : Value → Value → Value}
    {state config : Value} (h : ∀ s elem c, elementAt nesting state s = some elem → op (merge elem c) = op elem) :
    WriteOnly.walkBlock nesting op (mergeChild nesting merge state config) = WriteOnly.walkBlock nesting op state := by
  cases nesting with
  | single => exact h [] state config rfl
  | set => cases state <;> rfl
  | list =>
      cases state with
      | list states =>
          cases config with
          | list configs =>
              refine congrArg ValueOf.list (map_zipInPlace ?_)
              intro elem hmem c _
              obtain ⟨s, hs, -⟩ := exists_elementAt_list hmem
              exact h s elem c hs
          | _ => rfl
      | _ => rfl
  | map =>
      cases state with
      | map states =>
          cases config with
          | map configs =>
              refine congrArg ValueOf.map ?_
              apply OrdMap.ext_get?
              intro k
              rw [OrdMap.get?_map, OrdMap.get?_map, OrdMap.get?_mapWithKey, Option.map_map]
              cases hk : states.get? k with
              | none => rfl
              | some elem =>
                  rw [Option.map_some, Option.map_some, Function.comp_apply]
                  cases configs.get? k with
                  | none => rfl
                  | some c => rw [h [.key k] elem c hk]
          | _ => rfl
      | _ => rfl

theorem strip_mergeFromConfig (hd : block.distinctNames = true) {state : Value} (hs : Whole block state)
    (config : Value) :
    WriteOnly.strip (WriteOnly.mergeFromConfig state config block) block = WriteOnly.strip state block := by
  induction block using Block.induct generalizing state config with
  | mk attributes nestedBlocks ih =>
      rcases Value.objects_or_not state config with ⟨fields, fields', rfl, rfl⟩ | hnot
      · rw [mergeFromConfig_object]
        apply strip_object_congr hd
        · intro attr ha
          obtain ⟨x, hx⟩ := Option.isSome_iff_exists.mp (hs.attribute ha)
          rw [get?_mergeFields_attr hd ha, hx]
          cases hw : attr.writeOnly with
          | false => simp [mergeSlot, hw]
          | true => cases fields'.get? attr.name <;> simp [mergeSlot, stripSlot, hw]
        · intro nested hn
          rw [get?_mergeFields_nested hd hn, mergeNestedSlot]
          cases hchild : fields.get? nested.name with
          | none => rfl
          | some child =>
              cases fields'.get? nested.name with
              | none => rfl
              | some config =>
                  rw [Option.map_some, Option.map_some, Option.map_some, Option.elim_some, walkBlock_mergeChild]
                  intro s elem c helem
                  exact ih nested hn (Block.distinctNames_of_mem hd hn) (hs.element hn hchild helem) c
        · exact fun k hk => get?_mergeFields_other hk
      · rw [mergeFromConfig_of_not_object hnot]

theorem anyBlockHas_eq (nestedBlocks : List NestedBlock) :
    WriteOnly.anyBlockHas nestedBlocks = nestedBlocks.any fun nested => WriteOnly.blockHas nested.block := by
  induction nestedBlocks with
  | nil => rfl
  | cons nested rest ih =>
      rw [List.any_cons, ← ih]
      rfl

theorem blockHas_eq_false {block : Block} (h : WriteOnly.blockHas block = false) :
    (∀ attr ∈ block.attributes, attr.writeOnly = false) ∧
      ∀ nested ∈ block.nestedBlocks, WriteOnly.blockHas nested.block = false := by
  obtain ⟨attributes, nestedBlocks⟩ := block
  rw [WriteOnly.blockHas, Bool.or_eq_false_iff, anyBlockHas_eq, List.any_eq_false, List.any_eq_false] at h
  exact ⟨fun attr ha => Bool.eq_false_of_not_eq_true (h.1 attr ha),
    fun nested hn => Bool.eq_false_of_not_eq_true (h.2 nested hn)⟩

theorem strip_of_blockHas_false (hd : block.distinctNames = true) (h : WriteOnly.blockHas block = false)
    (state : Value) : WriteOnly.strip state block = state := by
  induction block using Block.induct generalizing state with
  | mk attributes nestedBlocks ih =>
      obtain ⟨hattrs, hnested⟩ := blockHas_eq_false h
      cases state with
      | object fields =>
          rw [strip_eq, updateAttrs_object]
          congr 1
          apply OrdMap.ext_get?
          intro k
          rcases Block.name_cases ⟨attributes, nestedBlocks⟩ k with ⟨attr, hmem, rfl⟩ | ⟨nested, hmem, rfl⟩ | hk
          · rw [get?_updateFields_attr hd hmem, stripSlot, hattrs attr hmem]
            rfl
          · have hid : updateAttrs WriteOnly.walkBlock stripSlot nested.block = id := by
              funext v
              rw [← strip_eq]
              exact ih nested hmem (Block.distinctNames_of_mem hd hmem) (hnested nested hmem) v
            have hwalk : WriteOnly.walkBlock nested.nesting id = id := by
              funext child
              cases nested.nesting <;> cases child <;> simp [WriteOnly.walkBlock, map_id_fields]
            rw [get?_updateFields_nested hd hmem, hid, hwalk, Option.map_id, id]
          · exact get?_updateFields_other hk
      | _ => rfl

theorem mergeChild_eq_self {nesting : NestingMode} {merge : Value → Value → Value} {state config : Value}
    (h : ∀ elem c, merge elem c = elem) : mergeChild nesting merge state config = state := by
  cases nesting with
  | single => exact h state config
  | set => rfl
  | list =>
      cases state with
      | list states =>
          cases config with
          | list configs =>
              refine congrArg ValueOf.list ?_
              have hmap : (WriteOnly.zipInPlace merge states configs).map id = states.map id :=
                map_zipInPlace fun a _ b _ => h a b
              rwa [List.map_id, List.map_id] at hmap
          | _ => rfl
      | _ => rfl
  | map =>
      cases state with
      | map states =>
          cases config with
          | map configs =>
              refine congrArg ValueOf.map ?_
              apply OrdMap.ext_get?
              intro k
              rw [OrdMap.get?_mapWithKey]
              cases states.get? k with
              | none => rfl
              | some elem => cases configs.get? k <;> simp [h]
          | _ => rfl
      | _ => rfl

theorem mergeFromConfig_of_blockHas_false (hd : block.distinctNames = true) (h : WriteOnly.blockHas block = false)
    (state config : Value) : WriteOnly.mergeFromConfig state config block = state := by
  induction block using Block.induct generalizing state config with
  | mk attributes nestedBlocks ih =>
      obtain ⟨hattrs, hnested⟩ := blockHas_eq_false h
      rcases Value.objects_or_not state config with ⟨fields, fields', rfl, rfl⟩ | hnot
      · rw [mergeFromConfig_object]
        congr 1
        apply OrdMap.ext_get?
        intro k
        rcases Block.name_cases ⟨attributes, nestedBlocks⟩ k with ⟨attr, hmem, rfl⟩ | ⟨nested, hmem, rfl⟩ | hk
        · rw [get?_mergeFields_attr hd hmem, mergeSlot, hattrs attr hmem]
          rfl
        · rw [get?_mergeFields_nested hd hmem, mergeNestedSlot]
          cases fields.get? nested.name with
          | none => rfl
          | some child =>
              cases fields'.get? nested.name with
              | none => rfl
              | some config =>
                  rw [Option.map_some, Option.elim_some, mergeChild_eq_self]
                  exact ih nested hmem (Block.distinctNames_of_mem hd hmem) (hnested nested hmem)
        · exact get?_mergeFields_other hk
      · exact mergeFromConfig_of_not_object hnot

end

end TofuSdk
