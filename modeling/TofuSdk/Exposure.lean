import TofuSdk.Redaction
import TofuSdk.Failure

namespace TofuSdk

namespace Service

/-- A call whose response carries resource states or objects. -/
inductive StateRpc
  | plan (req : PlanRequest)
  | read (req : ReadRequest)
  | apply (req : ApplyRequest)
  | import_ (req : ImportRequest)
  | upgrade (req : UpgradeRequest)
  | move (req : MoveRequest)
  | list (req : ListRequest)

section

variable (crates : Crates) (provider : Provider) (block : Block)

namespace StateRpc

/-- The block whose values a call returns. -/
def Describes (rpc : StateRpc) : Prop :=
  match rpc with
  | .plan req => provider.resourceBlock req.typeName = some block
  | .read req => provider.resourceBlock req.typeName = some block
  | .apply req => provider.resourceBlock req.typeName = some block
  | .import_ req => provider.resourceBlock req.typeName = some block
  | .upgrade req => provider.resourceBlock req.typeName = some block
  | .move req => provider.resourceBlock req.targetTypeName = some block
  | .list req => ∃ schema, provider.listResourceSchema req.typeName = some schema ∧ schema.objectType = block.ctyType

def states (rpc : StateRpc) : List DynamicValue :=
  match rpc with
  | .plan req => ((planResourceChange crates provider req).bind (·.response.plannedState)).toList
  | .read req => ((readResource crates provider req).bind (·.response.newState)).toList
  | .apply req => ((applyResourceChange crates provider req).bind (·.response.newState)).toList
  | .import_ req => ((importResourceState crates provider req).map fun a =>
      a.response.importedResources.filterMap (·.state)).getD []
  | .upgrade req => ((upgradeResourceState crates provider req).bind (·.response.upgradedState)).toList
  | .move req => ((moveResourceState crates provider req).bind (·.response.targetState)).toList
  | .list req => ((listResource crates provider req).map fun a =>
      a.response.filterMap (·.resourceObject)).getD []

end StateRpc

/-- The encoding of values without write-only values only. -/
def RedactedState (dv : DynamicValue) : Prop :=
  ∀ v, encodeDynamic crates v block.ctyType = .ok dv → Redacted block v

/-- No write-only value goes out if this one does. -/
def Discreet (v : Value) : Prop :=
  ∀ dv, encodeDynamic crates v block.ctyType = .ok dv → Redacted block v

variable {crates block}

theorem alike_of_encodeDynamic (hc : crates.Lawful) {v w : Value} {ty : Ty} {dv : DynamicValue}
    (hv : encodeDynamic crates v ty = .ok dv) (hw : encodeDynamic crates w ty = .ok dv) : Alike crates ty v w := by
  obtain ⟨mp, hmp, hwrite, -⟩ := decodeDynamic_of_encodeDynamic hc hv
  obtain ⟨mp', hmp', hwrite', -⟩ := decodeDynamic_of_encodeDynamic hc hw
  have hread := hc.read mp _ hwrite
  rw [hc.read mp' _ hwrite'] at hread
  exact ⟨mp, hmp, Except.ok.inj hread ▸ hmp'⟩

theorem redactedState_iff (hc : crates.Lawful) {v : Value} {dv : DynamicValue}
    (h : encodeDynamic crates v block.ctyType = .ok dv) : RedactedState crates block dv ↔ Redacted block v := by
  constructor
  · exact fun hdv => hdv v h
  · intro hv w hw p hp
    exact Alike.blank hp (alike_of_encodeDynamic hc h hw) (hv p hp)

variable {provider}

/-- A handler's call comes back to the service with a value. -/
def Returns {α : Type} (op : String) (privateIn : Bytes) (handler : Handler α) (a : α) : Prop :=
  ∃ dispatch, run op privateIn handler = some dispatch ∧ dispatch.result = .ok a

theorem mem_states_import (req : ImportRequest) (h : provider.resourceBlock req.typeName = some block)
    {dv : DynamicValue} : dv ∈ StateRpc.states crates provider (.import_ req) ↔
      ∃ handler v, provider.resourceHandler req.typeName = some handler ∧
        Returns "import resource state" [] (handler.import_ req.id) v ∧
        encodeDynamic crates v block.ctyType = .ok dv := by
  simp only [StateRpc.states, importResourceState, Provider.resourceCty_eq h]
  cases provider.resourceHandler req.typeName with
  | none => simp [refuse]
  | some handler =>
      cases hrun : run "import resource state" [] (handler.import_ req.id) with
      | none => simp [Returns, hrun]
      | some dispatch =>
          cases hresult : dispatch.result with
          | error diags => simp [Returns, hrun, hresult, answer]
          | ok v =>
              cases henc : encodeDynamic crates v block.ctyType <;>
                simp [Returns, hrun, hresult, answer, respondImported, henc, eq_comm]

theorem mem_states_move (req : MoveRequest) (h : provider.resourceBlock req.targetTypeName = some block)
    {dv : DynamicValue} : dv ∈ StateRpc.states crates provider (.move req) ↔
      ∃ handler raw json source v, provider.resourceHandler req.targetTypeName = some handler ∧
        req.sourceState.map (·.json) = some raw ∧ raw ≠ [] ∧ crates.fromSlice raw = .ok json ∧
        decodeJsonValue crates json = .ok source ∧
        Returns "move resource state" req.sourcePrivate (handler.moveState req.sourceTypeName source) v ∧
        encodeDynamic crates v block.ctyType = .ok dv := by
  simp only [StateRpc.states, moveResourceState, Provider.resourceCty_eq h]
  cases provider.resourceHandler req.targetTypeName with
  | none => simp [refuse]
  | some handler =>
      generalize req.sourceState.map (·.json) = raw
      rcases raw with _ | _ | ⟨byte, bytes⟩
      · simp [refuse]
      · simp [refuse]
      · cases hjson : crates.fromSlice (byte :: bytes) with
        | error e => simp [refuse, hjson]
        | ok json =>
            cases hsource : decodeJsonValue crates json with
            | error e => simp [refuse, hjson, hsource]
            | ok source =>
                cases hrun : run "move resource state" req.sourcePrivate
                    (handler.moveState req.sourceTypeName source) with
                | none => simp [Returns, hrun, hjson, hsource]
                | some dispatch =>
                    cases hresult : dispatch.result with
                    | error diags => simp [Returns, hrun, hresult, answer, hjson, hsource]
                    | ok v =>
                        cases henc : encodeDynamic crates v block.ctyType <;>
                          simp [Returns, hrun, hresult, answer, respondMoved, henc, hjson, hsource, eq_comm]

theorem respondState_state {ρ : Type} {value : Value} {ty : Ty} {private_ : Bytes} {outs : CtxOutputs}
    {build : Option DynamicValue → Bytes → List Diagnostic → ρ} {f : ρ → Option DynamicValue}
    (hf : ∀ state bytes diagnostics, f (build state bytes diagnostics) = state) :
    f (respondState crates value ty private_ outs build) = (encodeDynamic crates value ty).toOption := by
  rw [respondState]
  cases encodeDynamic crates value ty <;> exact hf _ _ _

theorem mem_states_read (req : ReadRequest) (h : provider.resourceBlock req.typeName = some block) {dv : DynamicValue}
    (hdv : dv ∈ StateRpc.states crates provider (.read req)) :
    ∃ v, encodeDynamic crates (WriteOnly.strip v block) block.ctyType = .ok dv := by
  rw [StateRpc.states, Option.mem_toList, Option.bind_eq_some_iff] at hdv
  obtain ⟨a, ha, hstate⟩ := hdv
  simp only [readResource, Provider.resourceCty_eq h, h] at ha
  split at ha
  next hty hblock _ =>
    obtain rfl := Option.some.inj hty
    obtain rfl := Option.some.inj hblock
    split at ha
    · obtain rfl := Option.some.inj ha
      cases hstate
    · split at ha
      · cases ha
      · obtain ⟨dispatch, -, rfl⟩ := Option.map_eq_some_iff.mp ha
        cases hresult : dispatch.result with
        | error diags => simp [answer, hresult] at hstate
        | ok new =>
            simp only [answer, hresult, respondRead] at hstate
            rw [respondState_state (f := ReadResponse.newState) fun _ _ _ => rfl] at hstate
            exact ⟨new.getD .null, Outcome.toOption_eq_some.mp hstate⟩
  next =>
    obtain rfl := Option.some.inj ha
    cases hstate

variable (crates provider block) in
/-- The handler call of an apply comes back, over this prior state. -/
def Applies (req : ApplyRequest) (prior : Value) (dispatch : Dispatch Value) : Prop :=
  ∃ handler planned merged limit, provider.resourceHandler req.typeName = some handler ∧
    decodeDynamic crates req.priorState block.ctyType = .ok prior ∧
    decodeDynamic crates req.plannedState block.ctyType = .ok planned ∧
    withConfig crates req.config block.ctyType block planned = .ok merged ∧
    Timeouts.forOperation (if merged.isNull then prior else merged) (action merged prior) = .ok limit ∧
    dispatchApply handler merged prior limit req.plannedPrivate = some dispatch

theorem applyResourceChange_eq_some (req : ApplyRequest) (h : provider.resourceBlock req.typeName = some block)
    {dv : DynamicValue} : (applyResourceChange crates provider req).bind (·.response.newState) = some dv ↔
      ∃ prior dispatch, Applies crates provider block req prior dispatch ∧
        (respondApply crates provider req block.ctyType block prior dispatch.result dispatch.outs).newState =
            some dv := by
  simp only [applyResourceChange, Provider.resourceCty_eq h, h, Applies]
  cases provider.resourceHandler req.typeName with
  | none => simp [refuse]
  | some handler =>
      cases hprior : decodeDynamic crates req.priorState block.ctyType with
      | error e => simp [refuse, hprior]
      | ok prior =>
          cases hplanned : decodeDynamic crates req.plannedState block.ctyType with
          | error e => simp [refuse, hprior, hplanned]
          | ok planned =>
              cases hmerged : withConfig crates req.config block.ctyType block planned with
              | error e => simp [refuse, hprior, hplanned, hmerged]
              | ok merged =>
                  cases hlimit : Timeouts.forOperation (if merged.isNull then prior else merged)
                      (action merged prior) with
                  | error e => simp [applyDecoded, hprior, hplanned, hmerged, hlimit]
                  | ok limit => simp [applyDecoded, hprior, hplanned, hmerged, hlimit, answer, Option.bind_eq_some_iff]

/-- An apply returns the prior state as it is when its handler fails, and
strips what it returns otherwise. -/
theorem mem_states_apply (req : ApplyRequest) (h : provider.resourceBlock req.typeName = some block)
    {dv : DynamicValue} : dv ∈ StateRpc.states crates provider (.apply req) ↔
      (∃ prior dispatch v, Applies crates provider block req prior dispatch ∧ dispatch.result = .ok v ∧
        encodeDynamic crates (WriteOnly.strip v block) block.ctyType = .ok dv) ∨
      ∃ prior dispatch diags, Applies crates provider block req prior dispatch ∧ dispatch.result = .error diags ∧
        encodeDynamic crates prior block.ctyType = .ok dv := by
  rw [StateRpc.states, Option.mem_toList, applyResourceChange_eq_some req h]
  constructor
  · rintro ⟨prior, dispatch, happlies, hstate⟩
    cases hresult : dispatch.result with
    | ok v =>
        simp only [hresult, respondApply] at hstate
        rw [respondState_state (f := ApplyResponse.newState) fun _ _ _ => rfl] at hstate
        exact .inl ⟨prior, dispatch, v, happlies, hresult, Outcome.toOption_eq_some.mp hstate⟩
    | error diags =>
        simp only [hresult, respondApply] at hstate
        exact .inr ⟨prior, dispatch, diags, happlies, hresult, Outcome.toOption_eq_some.mp hstate⟩
  · rintro (⟨prior, dispatch, v, happlies, hresult, henc⟩ | ⟨prior, dispatch, diags, happlies, hresult, henc⟩)
    · refine ⟨prior, dispatch, happlies, ?_⟩
      simp only [hresult, respondApply]
      rw [respondState_state (f := ApplyResponse.newState) fun _ _ _ => rfl]
      exact Outcome.toOption_eq_some.mpr henc
    · refine ⟨prior, dispatch, happlies, ?_⟩
      simp only [hresult, respondApply]
      exact Outcome.toOption_eq_some.mpr henc

theorem respondUpgraded_eq_some {upgraded : Except String Value} {ty : Ty} {warnings : Diagnostics}
    {dv : DynamicValue} : (respondUpgraded crates upgraded ty warnings).upgradedState = some dv ↔
      ∃ v, upgraded = .ok v ∧ encodeDynamic crates v ty = .ok dv := by
  rw [respondUpgraded]
  cases upgraded with
  | error e => simp
  | ok v => cases henc : encodeDynamic crates v ty <;> simp [henc, Except.mapError]

variable (crates provider block) in
/-- The value that an upgrade returns: the stored one under the current
version, or what the handler makes of an older one. -/
def Upgrades (req : UpgradeRequest) (v : Value) : Prop :=
  ∃ raw json version, req.rawState.map (·.json) = some raw ∧ raw ≠ [] ∧ crates.fromSlice raw = .ok json ∧
    provider.resourceVersion req.typeName = some version ∧
    if version ≤ req.version then decodeJson crates json block.ctyType = .ok v
    else ∃ handler prior, provider.resourceHandler req.typeName = some handler ∧
      decodeJsonValue crates json = .ok prior ∧
      Returns "upgrade resource state" [] (handler.upgrade req.version prior) v

theorem migrate_eq_some (req : UpgradeRequest) (json : Json) {ty : Ty} {dv : DynamicValue} :
    (migrate crates provider req json ty).bind (·.response.upgradedState) = some dv ↔
      ∃ v, (∃ handler prior, provider.resourceHandler req.typeName = some handler ∧
        decodeJsonValue crates json = .ok prior ∧
        Returns "upgrade resource state" [] (handler.upgrade req.version prior) v) ∧
        encodeDynamic crates v ty = .ok dv := by
  rw [migrate]
  cases provider.resourceHandler req.typeName with
  | none => simp [refuse]
  | some handler =>
      cases decodeJsonValue crates json with
      | error e => simp [refuse]
      | ok prior =>
          cases hrun : run "upgrade resource state" [] (handler.upgrade req.version prior) with
          | none => simp [Returns, hrun]
          | some dispatch =>
              cases hresult : dispatch.result with
              | error diags => simp [Returns, hrun, hresult, answer]
              | ok v => simp [Returns, hrun, hresult, answer, respondUpgraded_eq_some]

theorem mem_states_upgrade (req : UpgradeRequest) (h : provider.resourceBlock req.typeName = some block)
    {dv : DynamicValue} : dv ∈ StateRpc.states crates provider (.upgrade req) ↔
      ∃ v, (Upgrades crates provider block req v ∨
        (req.rawState.map (·.json) = none ∨ req.rawState.map (·.json) = some []) ∧ v = .null) ∧
        encodeDynamic crates v block.ctyType = .ok dv := by
  obtain ⟨schema, hschema, -⟩ := Option.map_eq_some_iff.mp h
  have hversion : provider.resourceVersion req.typeName = some schema.version := by
    rw [Provider.resourceVersion, hschema, Option.map_some]
  rw [StateRpc.states, Option.mem_toList]
  simp only [upgradeResourceState, Provider.resourceCty_eq h, hversion, Upgrades]
  generalize req.rawState.map (·.json) = raw
  rcases raw with _ | _ | ⟨byte, bytes⟩
  · simp [refuse, Outcome.toOption_eq_some]
  · simp [refuse, Outcome.toOption_eq_some]
  · cases hjson : crates.fromSlice (byte :: bytes) with
    | error e => simp [refuse, hjson]
    | ok json =>
        by_cases hcurrent : schema.version ≤ req.version
        · simp [refuse, hjson, hcurrent, respondUpgraded_eq_some, Outcome.mapError_eq_ok]
        · simp [hjson, hcurrent, migrate_eq_some]

theorem listEvent_resourceObject {schema : ListResourceSchema} {includeObject : Bool} {item : DynListItem} :
    (listEvent crates schema includeObject item).resourceObject =
      if includeObject then (encodeDynamic crates item.object schema.objectType).toOption else none := by
  cases includeObject with
  | false => rfl
  | true =>
      simp only [listEvent, if_true]
      cases encodeDynamic crates item.object schema.objectType <;> rfl

variable (provider) in
/-- The items of a list call whose objects are asked for. -/
def Lists (crates : Crates) (schema : ListResourceSchema) (req : ListRequest) (item : DynListItem) : Prop :=
  req.includeResourceObject = true ∧ ∃ handler config items, provider.listResourceHandler req.typeName = some handler ∧
    decodeDynamic crates req.config schema.config.ctyType = .ok config ∧
    Returns "list resource" [] (handler.list config) items ∧ item ∈ truncate req.limit items

theorem mem_respondListed {req : ListRequest} {schema : ListResourceSchema} {items : List DynListItem}
    {outs : CtxOutputs} {dv : DynamicValue} :
    (∃ event ∈ respondListed crates req schema items outs, event.resourceObject = some dv) ↔
      req.includeResourceObject = true ∧ ∃ item ∈ truncate req.limit items,
        encodeDynamic crates item.object schema.objectType = .ok dv := by
  have htail : ∀ warnings : Diagnostics, (if warnings.isEmpty then []
      else [({ diagnostic := pbDiagnostics warnings } : ListEvent)]).filterMap (·.resourceObject) = [] := by
    intro warnings
    split_ifs <;> rfl
  rw [← List.mem_filterMap, respondListed, List.filterMap_append, htail, List.append_nil, List.filterMap_map,
    List.mem_filterMap]
  simp only [Function.comp_apply, listEvent_resourceObject]
  cases req.includeResourceObject <;> simp [Outcome.toOption_eq_some]

theorem mem_states_list (req : ListRequest) {schema : ListResourceSchema}
    (h : provider.listResourceSchema req.typeName = some schema) {dv : DynamicValue} :
    dv ∈ StateRpc.states crates provider (.list req) ↔
      ∃ item, Lists provider crates schema req item ∧ encodeDynamic crates item.object schema.objectType = .ok dv := by
  simp only [StateRpc.states, listResource, h, Lists]
  cases provider.listResourceHandler req.typeName with
  | none => simp [refuse]
  | some handler =>
      cases hconfig : decodeDynamic crates req.config schema.config.ctyType with
      | error e => simp [refuse, hconfig]
      | ok config =>
          cases hrun : run "list resource" [] (handler.list config) with
          | none => simp [Returns, hrun, hconfig]
          | some dispatch =>
              cases hresult : dispatch.result with
              | error diags => simp [Returns, hrun, hresult, answer, hconfig]
              | ok items =>
                  simp [Returns, hrun, hresult, answer, hconfig, mem_respondListed, and_assoc]

theorem respondPlan_plannedState {req : PlanRequest} {ty : Ty} {plan : Plan} {bytes : Bytes} {warnings : Diagnostics} :
    (respondPlan crates provider req ty plan bytes warnings).plannedState =
      (encodeDynamic crates plan.planned ty).toOption := by
  rw [respondPlan]
  cases encodeDynamic crates plan.planned ty <;> rfl

variable (crates provider block) in
/-- The handler is asked to modify a plan of this prior state. -/
def Modifies (req : PlanRequest) (prior : Value) (base : Plan) (mods : PlanModifications) : Prop :=
  ∃ handler proposed, provider.resourceHandler req.typeName = some handler ∧
    decodeDynamic crates req.priorState block.ctyType = .ok prior ∧
    decodeDynamic crates req.proposedNewState block.ctyType = .ok proposed ∧
    base = plan prior (keepPrior prior proposed handler.semanticEquality) block ∧
    Returns "modify_plan" req.plannedPrivate (handler.modifyPlan prior base.planned) mods

theorem mem_states_plan (req : PlanRequest) (h : provider.resourceBlock req.typeName = some block)
    {dv : DynamicValue} : dv ∈ StateRpc.states crates provider (.plan req) ↔
      (∃ prior proposed, provider.resourceHandler req.typeName = none ∧
        decodeDynamic crates req.priorState block.ctyType = .ok prior ∧
        decodeDynamic crates req.proposedNewState block.ctyType = .ok proposed ∧
        encodeDynamic crates (plan prior proposed block).planned block.ctyType = .ok dv) ∨
      ∃ prior base mods, Modifies crates provider block req prior base mods ∧
        encodeDynamic crates (applyModifications base mods prior).planned block.ctyType = .ok dv := by
  rw [StateRpc.states, Option.mem_toList]
  simp only [planResourceChange, Provider.resourceCty_eq h, h, planDecoded, Modifies]
  cases decodeDynamic crates req.priorState block.ctyType with
  | error e => simp [refuse]
  | ok prior =>
      cases decodeDynamic crates req.proposedNewState block.ctyType with
      | error e => simp [refuse]
      | ok proposed =>
          cases provider.resourceHandler req.typeName with
          | none => simp [refuse, respondPlan_plannedState, Outcome.toOption_eq_some]
          | some handler =>
              cases hrun : run "modify_plan" req.plannedPrivate (handler.modifyPlan prior
                  (plan prior (keepPrior prior proposed handler.semanticEquality) block).planned) with
              | none => simp [Returns, hrun]
              | some dispatch =>
                  cases hresult : dispatch.result with
                  | error diags => simp [Returns, hrun, hresult, answer]
                  | ok mods =>
                      simp [Returns, hrun, hresult, answer, respondPlan_plannedState,
                        Outcome.toOption_eq_some]

namespace StateRpc

variable (crates provider block) in
/-- The values that a call passes on without stripping them hold no write-only
value, and a handler's modifications fill no write-only attribute of its plan. -/
def Safe (rpc : StateRpc) : Prop :=
  match rpc with
  | .plan req => ∀ prior base mods dv, Modifies crates provider block req prior base mods →
      encodeDynamic crates (applyModifications base mods prior).planned block.ctyType = .ok dv →
      ∀ p, WriteOnlyPath block p → ¬mods.Fills prior base.planned p
  | .read _ => True
  | .apply req => ∀ prior dispatch diags, Applies crates provider block req prior dispatch →
      dispatch.result = .error diags → Discreet crates block prior
  | .import_ req => ∀ handler v, provider.resourceHandler req.typeName = some handler →
      Returns "import resource state" [] (handler.import_ req.id) v → Discreet crates block v
  | .upgrade req => ∀ v, Upgrades crates provider block req v → Discreet crates block v
  | .move req => ∀ handler raw json source v, provider.resourceHandler req.targetTypeName = some handler →
      req.sourceState.map (·.json) = some raw → raw ≠ [] → crates.fromSlice raw = .ok json →
      decodeJsonValue crates json = .ok source →
      Returns "move resource state" req.sourcePrivate (handler.moveState req.sourceTypeName source) v →
      Discreet crates block v
  | .list req => ∀ schema item, provider.listResourceSchema req.typeName = some schema →
      Lists provider crates schema req item → Discreet crates block item.object

end StateRpc

/-- No call returns a write-only value, whatever the handlers do, exactly when
it is safe. -/
theorem redactedStates_iff (hc : crates.Lawful) {rpc : StateRpc} (h : rpc.Describes provider block) :
    (∀ dv ∈ rpc.states crates provider, RedactedState crates block dv) ↔ rpc.Safe crates provider block := by
  cases rpc with
  | plan req =>
      constructor
      · intro hall prior base mods dv hmod henc p hp
        have hredacted := (redactedState_iff hc henc).mp
            (hall dv ((mem_states_plan req h).mpr (.inr ⟨_, _, _, hmod, henc⟩)))
        obtain ⟨handler, proposed, -, -, -, rfl, -⟩ := hmod
        exact (blank_applyModifications_iff (redacted_plan _ _ _ p hp)).mp (hredacted p hp)
      · intro hsafe dv hdv
        obtain ⟨prior, proposed, -, -, -, henc⟩ | ⟨prior, base, mods, hmod, henc⟩ := (mem_states_plan req h).mp hdv
        · exact (redactedState_iff hc henc).mpr (redacted_plan prior proposed block)
        · rw [redactedState_iff hc henc]
          intro p hp
          have hfills := hsafe prior base mods dv hmod henc p hp
          obtain ⟨handler, proposed, -, -, -, rfl, -⟩ := hmod
          exact (blank_applyModifications_iff (redacted_plan _ _ _ p hp)).mpr hfills
  | read req =>
      refine iff_of_true ?_ trivial
      intro dv hdv
      obtain ⟨v, henc⟩ := mem_states_read req h hdv
      exact (redactedState_iff hc henc).mpr (redacted_strip block v)
  | apply req =>
      constructor
      · intro hall prior dispatch diags happlies hresult dv henc
        apply (redactedState_iff hc henc).mp
        exact hall dv ((mem_states_apply req h).mpr (.inr ⟨prior, dispatch, diags, happlies, hresult, henc⟩))
      · intro hsafe dv hdv
        obtain ⟨prior, dispatch, v, -, -, henc⟩ | ⟨prior, dispatch, diags, happlies, hresult, henc⟩ :=
          (mem_states_apply req h).mp hdv
        · exact (redactedState_iff hc henc).mpr (redacted_strip block v)
        · exact (redactedState_iff hc henc).mpr (hsafe prior dispatch diags happlies hresult dv henc)
  | import_ req =>
      constructor
      · intro hall handler v hhandler hreturns dv henc
        apply (redactedState_iff hc henc).mp
        exact hall dv ((mem_states_import req h).mpr ⟨handler, v, hhandler, hreturns, henc⟩)
      · intro hsafe dv hdv
        obtain ⟨handler, v, hhandler, hreturns, henc⟩ := (mem_states_import req h).mp hdv
        exact (redactedState_iff hc henc).mpr (hsafe handler v hhandler hreturns dv henc)
  | upgrade req =>
      constructor
      · intro hall v hv dv henc
        apply (redactedState_iff hc henc).mp
        exact hall dv ((mem_states_upgrade req h).mpr ⟨v, .inl hv, henc⟩)
      · intro hsafe dv hdv
        obtain ⟨v, hv | ⟨-, rfl⟩, henc⟩ := (mem_states_upgrade req h).mp hdv
        · exact (redactedState_iff hc henc).mpr (hsafe v hv dv henc)
        · exact (redactedState_iff hc henc).mpr (redacted_of_not_object fun _ h => by cases h)
  | move req =>
      constructor
      · intro hall handler raw json source v hhandler hraw hne hjson hsource hreturns dv henc
        apply (redactedState_iff hc henc).mp
        exact hall dv ((mem_states_move req h).mpr
          ⟨handler, raw, json, source, v, hhandler, hraw, hne, hjson, hsource, hreturns, henc⟩)
      · intro hsafe dv hdv
        obtain ⟨handler, raw, json, source, v, hhandler, hraw, hne, hjson, hsource, hreturns, henc⟩ :=
          (mem_states_move req h).mp hdv
        apply (redactedState_iff hc henc).mpr
        exact hsafe handler raw json source v hhandler hraw hne hjson hsource hreturns dv henc
  | list req =>
      obtain ⟨schema, hschema, htype⟩ := h
      constructor
      · intro hall schema' item hschema' hitem dv henc
        obtain rfl := Option.some.inj (hschema.symm.trans hschema')
        apply (redactedState_iff hc henc).mp
        exact hall dv ((mem_states_list req hschema).mpr ⟨item, hitem, htype ▸ henc⟩)
      · intro hsafe dv hdv
        obtain ⟨item, hitem, henc⟩ := (mem_states_list req hschema).mp hdv
        rw [htype] at henc
        exact (redactedState_iff hc henc).mpr (hsafe schema item hschema hitem dv henc)

def importing : DynResource := { failing with
  import_ := fun _ _ => ⟨[], .returned (.ok (note "secret"))⟩ }

def importNote : StateRpc := .import_ ⟨"note", "1"⟩

theorem imported_secret_returned : importNote.Describes (noteProvider true importing) (noteBlock true) ∧
    ¬∀ dv ∈ importNote.states Crates.real (noteProvider true importing),
      RedactedState Crates.real (noteBlock true) dv := by
  refine ⟨rfl, fun h => ?_⟩
  have hmem : noteState "secret" ∈ importNote.states Crates.real (noteProvider true importing) := by
    have hblock : (noteProvider true importing).resourceBlock "note" = some (noteBlock true) := rfl
    apply (mem_states_import ⟨"note", "1"⟩ hblock).mpr
    exact ⟨importing, note "secret", rfl, ⟨⟨[], [], .ok (note "secret")⟩, rfl, rfl⟩, encodeDynamic_note "secret" true⟩
  have hredacted := h _ hmem (note "secret") (encodeDynamic_note "secret" true)
  have hpath : WriteOnlyPath (noteBlock true) [.attribute "text"] :=
    .here (noteBlock true) _ (List.mem_singleton_self _) rfl
  cases hredacted _ hpath (.string "secret") rfl

theorem redactedStates_importNote :
    (∀ dv ∈ importNote.states Crates.real (noteProvider true importing),
    RedactedState Crates.real (noteBlock true) dv) ↔
      importNote.Safe Crates.real (noteProvider true importing) (noteBlock true) :=
  redactedStates_iff Crates.real_lawful rfl

end

end Service

end TofuSdk
