import TofuSdk.Exposure
import TofuSdk.Merge
import TofuSdk.Planning

namespace TofuSdk

open ValueOf

/-- A write-only attribute that is there in the state, with the value that the
configuration has at the same path. -/
def Written (block : Block) (state config : Value) (p : Path) (v : Value) : Prop :=
  ∃ attr x, attr.writeOnly = true ∧ AlignedAt block state p attr x ∧ AlignedAt block config p attr (some v)

section

variable {block : Block} {p : Path} {v : Value}

theorem written_object (hd : block.distinctNames = true) {state config : Fields} :
    Written block (.object state) (.object config) p v ↔
      (∃ attr ∈ block.attributes, attr.writeOnly = true ∧ p = [.attribute attr.name] ∧
        config.get? attr.name = some v) ∨
      ∃ nested ∈ block.nestedBlocks, nested.nesting ≠ .set ∧ ∃ child c s elem e q,
        state.get? nested.name = some child ∧ config.get? nested.name = some c ∧
        elementAt nested.nesting child s = some elem ∧ elementAt nested.nesting c s = some e ∧
        Written nested.block elem e q v ∧ p = .attribute nested.name :: (s ++ q) := by
  constructor
  · rintro ⟨attr, x, hw, hstate, hconfig⟩
    obtain ⟨ha, rfl, rfl⟩ | ⟨nested, hn, hvia, child, s, elem, q, hchild, helem, hq, rfl⟩ :=
      attrAt_object.mp hstate
    · obtain ⟨-, -, hv⟩ := hconfig.top rfl
      exact .inl ⟨attr, ha, hw, rfl, hv.symm⟩
    · obtain ⟨-, hp, -⟩ | ⟨nested', hn', -, c, s', e, q', hc, he, hq', hp⟩ := attrAt_object.mp hconfig
      · have hnil : s ++ q = [] := (List.cons.inj hp).2
        exact absurd (List.append_eq_nil_iff.mp hnil).2 hq.ne_nil
      · obtain ⟨hname, happ⟩ := List.cons.inj hp
        obtain rfl := nested_eq_of_name hd hn hn' (PathStep.attribute.inj hname)
        obtain ⟨rfl, rfl⟩ := elementAt_append helem he happ
        refine .inr ⟨nested, hn, hvia, child, c, s, elem, e, q, hchild, hc, helem, he, ?_, rfl⟩
        exact ⟨attr, x, hw, hq, hq'⟩
  · rintro (⟨attr, ha, hw, rfl, hv⟩ |
      ⟨nested, hn, hvia, child, c, s, elem, e, q, hchild, hc, helem, he, h, rfl⟩)
    · exact ⟨attr, _, hw, .here block state attr ha, hv ▸ .here block config attr ha⟩
    · obtain ⟨attr, x, hw, hq, hq'⟩ := h
      exact ⟨attr, x, hw, .nested block state nested child elem s q attr x hn hvia hchild helem hq,
        .nested block config nested c e s q attr (some v) hn hvia hc he hq'⟩

theorem Written.object {state config : Value} (h : Written block state config p v) :
    ∃ fields fields', state = .object fields ∧ config = .object fields' := by
  obtain ⟨attr, x, -, hstate, hconfig⟩ := h
  obtain ⟨fields, hfields⟩ := hstate.object
  obtain ⟨fields', hfields'⟩ := hconfig.object
  exact ⟨fields, fields', hfields, hfields'⟩

theorem getAtPath_field {fields : Fields} {name : String} {rest : Path} :
    getAtPath (.object fields) (.attribute name :: rest) = (fields.get? name).bind (getAtPath · rest) := rfl

theorem getAtPath_of_elementAt {nesting : NestingMode} {child elem : Value} {s : Path}
    (h : elementAt nesting child s = some elem) (q : Path) : getAtPath child (s ++ q) = getAtPath elem q := by
  rw [getAtPath_append, (elementAt_eq_some.mp h).2.2, Option.bind_some]

theorem getAtPath_written (hd : block.distinctNames = true) {state config : Value}
    (h : Written block state config p v) : getAtPath (WriteOnly.mergeFromConfig state config block) p = some v := by
  induction block using Block.induct generalizing state config p with
  | mk attributes nestedBlocks ih =>
      obtain ⟨fields, fields', rfl, rfl⟩ := h.object
      rw [mergeFromConfig_object]
      obtain ⟨attr, ha, hw, rfl, hv⟩ |
        ⟨nested, hn, hset, child, c, s, elem, e, q, hchild, hc, helem, he, hq, rfl⟩ := (written_object hd).mp h
      · rw [getAtPath_field, get?_mergeFields_attr hd ha, mergeSlot, if_pos hw, hv]
        cases v <;> rfl
      · have hmerged := elementAt_mergeChild hset
          (fun state config => WriteOnly.mergeFromConfig state config nested.block) child c s
        rw [helem, he, Option.map_some, Option.elim_some] at hmerged
        rw [getAtPath_field, get?_mergeFields_nested hd hn, mergeNestedSlot, hchild, hc, Option.map_some,
          Option.bind_some, Option.elim_some, getAtPath_of_elementAt hmerged]
        exact ih nested hn (Block.distinctNames_of_mem hd hn) hq

end

def bare : Value → Value
  | .list items => .list (items.map fun _ => .null)
  | .set items => .set (items.map fun _ => .null)
  | .map entries => .map (entries.map fun _ => .null)
  | .object fields => .object (fields.map fun _ => .null)
  | v => v

def BareAlike (v w : Value) : Prop := ∀ r, (getAtPath v r).map bare = (getAtPath w r).map bare

section

variable {v w c d : Value}

theorem BareAlike.bare_eq (h : BareAlike v w) : bare v = bare w := by
  have hnil := h []
  rw [getAtPath_eq, getAtPath_eq] at hnil
  exact Option.some.inj hnil

theorem BareAlike.child (h : BareAlike v w) {s : PathStep} (hc : PathStep.child v s = some c)
    (hd : PathStep.child w s = some d) : BareAlike c d := by
  intro r
  have hr := h (s :: r)
  rw [getAtPath_eq, getAtPath_eq, TreePath.get_cons, TreePath.get_cons] at hr
  change ((PathStep.child v s).bind _).map bare = ((PathStep.child w s).bind _).map bare at hr
  rwa [hc, hd, Option.bind_some, Option.bind_some, ← getAtPath_eq, ← getAtPath_eq] at hr

theorem items_eq_of_bareAlike (mk : List Value → Value)
    (hchild : ∀ items (i : Nat), PathStep.child (mk items) (.index i) = items[i]?) {items items' : List Value}
    (ih : ∀ v ∈ items, ∀ w, BareAlike v w → v = w) (h : BareAlike (mk items) (mk items'))
    (hlen : items.length = items'.length) : items = items' := by
  apply List.ext_getElem hlen
  intro i hi hi'
  apply ih _ (List.getElem_mem hi)
  apply h.child (s := .index i)
  · rw [hchild, List.getElem?_eq_getElem hi]
  · rw [hchild, List.getElem?_eq_getElem hi']

theorem fields_eq_of_bareAlike (mk : Fields → Value) (step : String → PathStep)
    (hchild : ∀ fields k, PathStep.child (mk fields) (step k) = fields.get? k) {fields fields' : Fields}
    (ih : ∀ k v, fields.get? k = some v → ∀ w, BareAlike v w → v = w) (h : BareAlike (mk fields) (mk fields'))
    (hkeys : fields.map (fun _ => null) = fields'.map fun _ => (null : Value)) : fields = fields' := by
  apply OrdMap.ext_get?
  intro k
  have hk := congrArg (OrdMap.get? · k) hkeys
  simp only [OrdMap.get?_map] at hk
  cases hv : fields.get? k with
  | none =>
      rw [hv, Option.map_none] at hk
      exact (Option.map_eq_none_iff.mp hk.symm).symm
  | some v =>
      rw [hv, Option.map_some] at hk
      obtain ⟨w, hw, -⟩ := Option.map_eq_some_iff.mp hk.symm
      rw [hw, ih k v hv w]
      exact h.child (s := step k) (by rw [hchild, hv]) (by rw [hchild, hw])

theorem BareAlike.eq (h : BareAlike v w) : v = w := by
  have hindex : ∀ (items : List Value) (i : Nat),
      (if 0 ≤ (i : Int) then items[(i : Int).toNat]? else none) = items[i]? := by
    intro items i
    rw [if_pos (Int.natCast_nonneg i), Int.toNat_natCast]
  have hlen : ∀ {items items' : List Value},
      items.map (fun _ => (null : Value)) = items'.map (fun _ => null) → items.length = items'.length := by
    intro items items' h
    simpa using congrArg List.length h
  induction v using ValueOf.induct generalizing w with
  | list items ih =>
      have hbare := h.bare_eq
      cases w with
      | list items' =>
          exact congrArg ValueOf.list (items_eq_of_bareAlike .list hindex ih h (hlen (ValueOf.list.inj hbare)))
      | _ => cases hbare
  | set items ih =>
      have hbare := h.bare_eq
      cases w with
      | set items' =>
          exact congrArg ValueOf.set (items_eq_of_bareAlike .set hindex ih h (hlen (ValueOf.set.inj hbare)))
      | _ => cases hbare
  | map entries ih =>
      have hbare := h.bare_eq
      cases w with
      | map entries' =>
          exact congrArg ValueOf.map (fields_eq_of_bareAlike .map .key (fun _ _ => rfl) ih h (ValueOf.map.inj hbare))
      | _ => cases hbare
  | object fields ih =>
      have hbare := h.bare_eq
      cases w with
      | object fields' =>
          exact congrArg ValueOf.object (fields_eq_of_bareAlike .object .attribute (fun _ _ => rfl) ih h
            (ValueOf.object.inj hbare))
      | _ => cases hbare
  | _ =>
      have hbare := h.bare_eq
      cases w <;> first | exact hbare | cases hbare

end

theorem bare_below {nesting : NestingMode} (hset : nesting ≠ .set) {merge : Value → Value → Value}
    {state config : Value} {p : Path} (s q : Path)
    (hmerged : getAtPath (mergeChild nesting merge state config) p =
      (elementAt nesting (mergeChild nesting merge state config) s).bind (getAtPath · q))
    (hstate : getAtPath state p = (elementAt nesting state s).bind (getAtPath · q))
    (h : ∀ elem c, elementAt nesting state s = some elem → elementAt nesting config s = some c →
      (getAtPath (merge elem c) q).map bare = (getAtPath elem q).map bare) :
    (getAtPath (mergeChild nesting merge state config) p).map bare = (getAtPath state p).map bare := by
  rw [hmerged, hstate, elementAt_mergeChild hset]
  cases helem : elementAt nesting state s with
  | none => rfl
  | some elem =>
      cases hc : elementAt nesting config s with
      | none => rfl
      | some c => exact h elem c helem hc

theorem bare_mergeChild {nesting : NestingMode} {merge : Value → Value → Value} {state config : Value} {p : Path}
    (h : ∀ s elem c q, nesting ≠ .set → elementAt nesting state s = some elem →
      elementAt nesting config s = some c → p = s ++ q →
      (getAtPath (merge elem c) q).map bare = (getAtPath elem q).map bare) :
    (getAtPath (mergeChild nesting merge state config) p).map bare = (getAtPath state p).map bare := by
  cases nesting with
  | single => exact h [] state config p (by simp) rfl rfl rfl
  | set => cases state <;> rfl
  | list =>
      cases state with
      | list states =>
          cases config with
          | list configs =>
              rcases p with _ | ⟨_ | i | _, q⟩
              · exact congrArg (fun items => some (ValueOf.list items)) (map_zipInPlace fun _ _ _ _ => rfl)
              · rfl
              · have hstep : ∀ items : List Value, getAtPath (.list items) (.index i :: q) =
                    (elementAt .list (.list items) [.index i]).bind (getAtPath · q) := by
                  intro items
                  by_cases hi : 0 ≤ i <;> simp [getAtPath, elementAt, hi]
                apply bare_below (by simp) [.index i] q
                · exact hstep _
                · exact hstep states
                · exact fun elem c helem hc => h [.index i] elem c q (by simp) helem hc rfl
              · rfl
          | _ => rfl
      | _ => rfl
  | map =>
      cases state with
      | map states =>
          cases config with
          | map configs =>
              rcases p with _ | ⟨_ | _ | k, q⟩
              · refine congrArg (fun entries => some (ValueOf.map entries)) ?_
                apply OrdMap.ext_get?
                intro k
                rw [OrdMap.get?_map, OrdMap.get?_map, OrdMap.get?_mapWithKey, Option.map_map]
                rfl
              · rfl
              · rfl
              · apply bare_below (by simp) [.key k] q
                · rfl
                · rfl
                · exact fun elem c helem hc => h [.key k] elem c q (by simp) helem hc rfl
          | _ => rfl
      | _ => rfl

section

variable {block : Block} {p : Path}

/-- A merge into a whole value changes no node that is not a secret's place or
below one. -/
theorem bare_mergeFromConfig (hd : block.distinctNames = true) {state config : Value} (hs : Whole block state)
    (h : ∀ q v, Written block state config q v → ¬q <+: p) :
    (getAtPath (WriteOnly.mergeFromConfig state config block) p).map bare = (getAtPath state p).map bare := by
  induction block using Block.induct generalizing state config p with
  | mk attributes nestedBlocks ih =>
      rcases Value.objects_or_not state config with ⟨fields, fields', rfl, rfl⟩ | hnot
      · rw [mergeFromConfig_object]
        rcases p with _ | ⟨name | _ | _, rest⟩
        · refine congrArg (fun fields => some (ValueOf.object fields)) ?_
          apply OrdMap.ext_get?
          intro k
          rw [OrdMap.get?_map, OrdMap.get?_map]
          rcases Block.name_cases ⟨attributes, nestedBlocks⟩ k with ⟨attr, hmem, rfl⟩ | ⟨nested, hmem, rfl⟩ | hk
          · obtain ⟨x, hx⟩ := Option.isSome_iff_exists.mp (hs.attribute hmem)
            rw [get?_mergeFields_attr hd hmem, hx]
            cases hw : attr.writeOnly <;> cases fields'.get? attr.name <;> simp [mergeSlot, hw]
          · rw [get?_mergeFields_nested hd hmem, mergeNestedSlot, Option.map_map]
            rfl
          · rw [get?_mergeFields_other hk]
        · rw [getAtPath_field, getAtPath_field]
          rcases Block.name_cases ⟨attributes, nestedBlocks⟩ name with ⟨attr, hmem, rfl⟩ | ⟨nested, hmem, rfl⟩ | hk
          · rw [get?_mergeFields_attr hd hmem]
            cases hw : attr.writeOnly with
            | false => simp [mergeSlot, hw]
            | true =>
                cases hv : fields'.get? attr.name with
                | none => simp [mergeSlot]
                | some v =>
                    have hwritten : Written _ (.object fields) (.object fields') [.attribute attr.name] v :=
                      (written_object hd).mpr (.inl ⟨attr, hmem, hw, rfl, hv⟩)
                    exact absurd (List.prefix_append [PathStep.attribute attr.name] rest) (h _ v hwritten)
          · rw [get?_mergeFields_nested hd hmem, mergeNestedSlot]
            cases hchild : fields.get? nested.name with
            | none => rfl
            | some child =>
                cases hc : fields'.get? nested.name with
                | none => rfl
                | some c =>
                    apply bare_mergeChild
                    rintro s elem e q hset helem he rfl
                    apply ih nested hmem (Block.distinctNames_of_mem hd hmem) (hs.element hmem hchild helem)
                    intro r v hr hpre
                    have hwritten := (written_object hd).mpr
                      (.inr ⟨nested, hmem, hset, child, c, s, elem, e, r, hchild, hc, helem, he, hr, rfl⟩)
                    apply h _ v hwritten
                    exact List.cons_prefix_cons.mpr ⟨rfl, (List.prefix_append_right_inj s).mpr hpre⟩
          · rw [get?_mergeFields_other hk]
        · rfl
        · rfl
      · rw [mergeFromConfig_of_not_object hnot]

theorem getAtPath_mergeFromConfig (hd : block.distinctNames = true) {state config : Value} (hs : Whole block state)
    (h : ∀ q v, Written block state config q v → ¬q <+: p ∧ ¬p <+: q) :
    getAtPath (WriteOnly.mergeFromConfig state config block) p = getAtPath state p := by
  have hbelow : ∀ r, (getAtPath (WriteOnly.mergeFromConfig state config block) (p ++ r)).map bare =
      (getAtPath state (p ++ r)).map bare := by
    intro r
    apply bare_mergeFromConfig hd hs
    intro q v hq hpre
    obtain hp | hp := List.prefix_or_prefix_of_prefix hpre (List.prefix_append p r)
    · exact (h q v hq).1 hp
    · exact (h q v hq).2 hp
  have hnode := hbelow []
  rw [List.append_nil] at hnode
  cases hx : getAtPath state p with
  | none =>
      rw [hx, Option.map_none] at hnode
      exact Option.map_eq_none_iff.mp hnode
  | some x =>
      rw [hx, Option.map_some] at hnode
      obtain ⟨y, hy, -⟩ := Option.map_eq_some_iff.mp hnode
      rw [hy]
      congr 1
      apply BareAlike.eq
      intro r
      have hr := hbelow r
      rwa [getAtPath_append, getAtPath_append, hx, hy, Option.bind_some, Option.bind_some] at hr

end

/-- How merging and stripping compose over the values of a block. -/
structure MergesAndStrips (block : Block) : Prop where
  strip_strip : ∀ state, WriteOnly.strip (WriteOnly.strip state block) block = WriteOnly.strip state block
  strip_merge : ∀ state config, Whole block state →
    WriteOnly.strip (WriteOnly.mergeFromConfig state config block) block = WriteOnly.strip state block
  /-- A secret arrives where the state and the configuration both have its place. -/
  written : ∀ state config p v, Written block state config p v →
    getAtPath (WriteOnly.mergeFromConfig state config block) p = some v
  /-- No other position changes, -/
  frame : ∀ state config p, Whole block state →
    (∀ q v, Written block state config q v → ¬q <+: p ∧ ¬p <+: q) →
    getAtPath (WriteOnly.mergeFromConfig state config block) p = getAtPath state p
  /-- nor the keys and the length of a node that such a place is in. -/
  nodes : ∀ state config p, Whole block state → (∀ q v, Written block state config q v → ¬q <+: p) →
    (getAtPath (WriteOnly.mergeFromConfig state config block) p).map bare = (getAtPath state p).map bare
  identity : WriteOnly.blockHas block = false → ∀ state config,
    WriteOnly.strip state block = state ∧ WriteOnly.mergeFromConfig state config block = state
  /-- Stripping moves no attribute and nulls the write-only ones. -/
  stripped : ∀ state p attr y, AttrAt block (WriteOnly.strip state block) p attr y ↔
    ∃ x, AttrAt block state p attr x ∧ y = stripSlot attr x

namespace Service

def applyCall (handler : DynResource) (planned prior : Value) : Handler Value :=
  if planned.isNull then deleted (handler.delete prior)
  else if prior.isNull then handler.create planned
  else handler.update planned prior

theorem dispatchApply_eq (handler : DynResource) (planned prior : Value) (limit : Option Duration)
    (privateIn : Bytes) : dispatchApply handler planned prior limit privateIn =
      run (action planned prior) privateIn
        (Timeouts.bounded (action planned prior) limit (applyCall handler planned prior)) := by
  rw [dispatchApply, action, applyCall]
  split_ifs <;> rfl

section

variable (crates : Crates) (provider : Provider) (block : Block)

/-- An apply calls the handler with the secrets and returns its state without them. -/
structure AppliesSecrets : Prop where
  handed : ∀ req handler prior planned config limit, provider.resourceBlock req.typeName = some block →
    provider.resourceHandler req.typeName = some handler →
    decodeDynamic crates req.priorState block.ctyType = .ok prior →
    decodeDynamic crates req.plannedState block.ctyType = .ok planned →
    (WriteOnly.blockHas block = true → planned.isNull = false →
      decodeDynamic crates req.config block.ctyType = .ok config) →
    let merged := WriteOnly.mergeFromConfig planned config block
    Timeouts.forOperation (if merged.isNull then prior else merged) (action merged prior) = .ok limit →
    applyResourceChange crates provider req = (run (action merged prior) req.plannedPrivate
      (Timeouts.bounded (action merged prior) limit (applyCall handler merged prior))).map fun dispatch =>
        answer dispatch (respondApply crates provider req block.ctyType block prior dispatch.result dispatch.outs)
  returned : ∀ req prior new outs,
    (respondApply crates provider req block.ctyType block prior (.ok new) outs).newState =
      (encodeDynamic crates (WriteOnly.strip new block) block.ctyType).toOption

variable {crates provider block}

theorem withConfig_eq (hd : block.distinctNames = true) {req : ApplyRequest} {planned config : Value}
    (h : WriteOnly.blockHas block = true → planned.isNull = false →
      decodeDynamic crates req.config block.ctyType = .ok config) :
    withConfig crates req.config block.ctyType block planned =
      .ok (WriteOnly.mergeFromConfig planned config block) := by
  rw [withConfig]
  cases hhas : WriteOnly.blockHas block with
  | false =>
      rw [mergeFromConfig_of_blockHas_false hd hhas]
      rfl
  | true =>
      cases hnull : planned.isNull with
      | false =>
          rw [h hhas hnull]
          rfl
      | true =>
          obtain rfl := isNull_iff.mp hnull
          rw [mergeFromConfig_of_not_object fun _ _ h _ => by cases h]
          rfl

theorem appliesSecrets (hd : block.distinctNames = true) : AppliesSecrets crates provider block where
  handed req handler prior planned config limit hblock hhandler hprior hplanned hconfig hlimit := by
    simp only [applyResourceChange, Provider.resourceCty_eq hblock, hblock, hhandler, hprior, hplanned,
      withConfig_eq hd hconfig, applyDecoded, hlimit, dispatchApply_eq]
  returned req prior new outs := by
    rw [respondApply]
    exact respondState_state (f := ApplyResponse.newState) fun _ _ _ => rfl

end

end Service

/-- Write-only values reach the handler and nothing else. -/
theorem secrets_merge_and_strip (block : Block) (hd : block.distinctNames = true) :
    MergesAndStrips block ∧ ∀ crates provider, Service.AppliesSecrets crates provider block where
  left := {
    strip_strip := strip_strip hd
    strip_merge := fun _ config hs => strip_mergeFromConfig hd hs config
    written := fun _ _ _ _ h => getAtPath_written hd h
    frame := fun _ _ _ hs h => getAtPath_mergeFromConfig hd hs h
    nodes := fun _ _ _ hs h => bare_mergeFromConfig hd hs h
    identity := fun h state config =>
      ⟨strip_of_blockHas_false hd h state, mergeFromConfig_of_blockHas_false hd h state config⟩
    stripped := fun state p attr y => by
      rw [strip_eq]
      exact attrAt_updateAttrs walkBlock_elementwise stripSlot hd }
  right _ _ := Service.appliesSecrets hd

def passwordAttribute : AttributeSchema :=
  { AttributeSchema.new "password" .string with optional := true, writeOnly := true }

def loginBlock : Block where
  attributes := [{ AttributeSchema.new "user" .string with required := true }, passwordAttribute]
  nestedBlocks := []

def keyringBlock : Block where
  attributes := [{ AttributeSchema.new "name" .string with required := true }]
  nestedBlocks := [⟨"login", .list, loginBlock, 0, 0⟩]

def login (user : String) (password : Value) : Value :=
  .object (OrdMap.ofList [("user", .string user), ("password", password)])

def keyring (logins : List Value) : Value :=
  .object (OrdMap.ofList [("name", .string "main"), ("login", .list logins)])

theorem alignedAt_password (user : String) (password : Value) (rest : List Value) :
    AlignedAt keyringBlock (keyring (login user password :: rest)) [.attribute "login", .index 0, .attribute "password"]
      passwordAttribute (some password) := by
  have hlogin : AlignedAt loginBlock (login user password) [.attribute "password"] passwordAttribute
      (some password) := by
    refine attrAt_flat.mpr ⟨.tail _ (.head _), rfl, ?_⟩
    symm
    apply (OrdMap.get?_ofList_of_nodup (by simp) _ _).mpr
    exact .tail _ (.head _)
  refine .nested keyringBlock _ _ (.list (login user password :: rest)) _ [.index 0] _ _ _
    (List.mem_singleton_self _) (by decide) ?_ rfl hlogin
  apply (OrdMap.get?_ofList_of_nodup (by simp) _ _).mpr
  exact .tail _ (.head _)

/-- A login that is planned, and one that is only configured. -/
theorem keyring_password_merged : MergesAndStrips keyringBlock ∧
    getAtPath (WriteOnly.mergeFromConfig (keyring [login "ada" .null])
        (keyring [login "ada" (.string "a"), login "bob" (.string "b")]) keyringBlock)
      [.attribute "login", .index 0, .attribute "password"] = some (.string "a") := by
  have hlaws := (secrets_merge_and_strip keyringBlock (by decide)).1
  refine ⟨hlaws, hlaws.written _ _ _ _ ?_⟩
  exact ⟨passwordAttribute, some .null, rfl, alignedAt_password "ada" .null [],
    alignedAt_password "ada" (.string "a") [login "bob" (.string "b")]⟩

end TofuSdk
