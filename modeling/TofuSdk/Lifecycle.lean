import TofuSdk.Dispatch

namespace TofuSdk

namespace Plugin

open TofuSdk.Service

def HandlerMap.lifecycle (resources : String → Option TofuSdk.DynResource)
    (listResources : String → Option TofuSdk.DynListResource) : HandlerMap Parts.real
  | .resource, name => (resources name).map fun handler => DynResource.ofResource handler .clean
  | .listResource, name => (listResources name).map fun handler => DynListResource.ofListResource handler .clean
  | .dataSource, _ | .ephemeral, _ | .stateStore, _ | .action, _ | .function, _ => none

def Provider.ofProvider (provider : TofuSdk.Provider) : Provider Parts.real where
  block := none
  schema
    | .resource => provider.schema.resources.map fun s => (s.name, ⟨s.version, s.block, s.identity⟩)
    | .listResource => provider.schema.listResources.map fun s => (s.name, ⟨s.config, s.identity, s.objectType⟩)
    | .dataSource | .ephemeral | .stateStore | .action | .function => []
  eager := .lifecycle provider.eager provider.eagerList
  configureFn := none
  configured := provider.configured.map fun configured => .lifecycle configured.resources configured.listResources
  dynConfigure := none
  validateConfig := none

namespace Provider

variable (provider : TofuSdk.Provider) (name : String)

theorem schema_schemas : (ofProvider provider).schemas.schema = provider.schema := by
  obtain ⟨⟨resources, listResources⟩, eager, eagerList, configured⟩ := provider
  simp only [ofProvider, schemas, List.map_map]
  congr 1 <;> exact List.map_id' _

theorem resourceBlock_schemas : (ofProvider provider).schemas.resourceBlock name = provider.resourceBlock name := by
  rw [TofuSdk.Provider.resourceBlock, TofuSdk.Provider.resourceSchema, schema_schemas]
  rfl

theorem resourceCty_schemas : (ofProvider provider).schemas.resourceCty name = provider.resourceCty name := by
  rw [TofuSdk.Provider.resourceCty, resourceBlock_schemas]
  rfl

theorem resourceVersion_schemas :
    (ofProvider provider).schemas.resourceVersion name = provider.resourceVersion name := by
  rw [TofuSdk.Provider.resourceVersion, TofuSdk.Provider.resourceSchema, schema_schemas]
  rfl

theorem resourceIdentity_schemas :
    (ofProvider provider).schemas.resourceIdentity name = provider.resourceIdentity name := by
  rw [TofuSdk.Provider.resourceIdentity, TofuSdk.Provider.resourceSchema, schema_schemas]
  rfl

theorem listResourceSchema_schemas :
    (ofProvider provider).schemas.listResourceSchema name = provider.listResourceSchema name := by
  rw [TofuSdk.Provider.listResourceSchema, schema_schemas]
  rfl

theorem handler_resource : (ofProvider provider).handler .resource name =
    (provider.resourceHandler name).map fun handler => DynResource.ofResource handler .clean := by
  obtain ⟨schema, eager, eagerList, configured⟩ := provider
  cases configured with
  | none => rfl
  | some configured => exact Option.map_or.symm

theorem handler_listResource : (ofProvider provider).handler .listResource name =
    (provider.listResourceHandler name).map fun handler => DynListResource.ofListResource handler .clean := by
  obtain ⟨schema, eager, eagerList, configured⟩ := provider
  cases configured with
  | none => rfl
  | some configured => exact Option.map_or.symm

end Provider

section

variable {α β : Type}

theorem run_answer {op : String} {privateIn : Bytes} {handler : Handler α}
    {k : Except Diagnostics α × CtxOutputs → Future β} {respond : Dispatch α → β}
    (h : ∀ dispatch : Dispatch α, k (dispatch.result, dispatch.outs) = pure (respond dispatch)) :
    (run op privateIn handler >>= k).ending.toOption =
      ((TofuSdk.run op privateIn handler).map fun dispatch => answer dispatch (respond dispatch)).map (·.response) := by
  have hk : ∀ result, k (result, intoOutputs (handler privateIn).ops) =
      pure (respond ⟨privateIn, (handler privateIn).ops, result⟩) := fun result => h ⟨privateIn, _, result⟩
  rw [Fut.ending_bind, run, TofuSdk.run]
  cases hfinish : (handler privateIn).finish with
  | returned result =>
      change (k (result, intoOutputs (handler privateIn).ops)).ending.toOption = _
      rw [hk]
      rfl
  | panicked payload =>
      change (k (.error (panicked op payload), intoOutputs (handler privateIn).ops)).ending.toOption = _
      rw [hk]
      rfl
  | pending => rfl

end

section

variable (crates : Crates) {provider : TofuSdk.Provider}

theorem respondPlan_schemas :
    respondPlan crates (Provider.ofProvider provider).schemas = respondPlan crates provider := by
  funext req ty plan plannedPrivate warnings
  rw [respondPlan, respondPlan, Provider.resourceIdentity_schemas]

theorem respondRead_schemas :
    respondRead crates (Provider.ofProvider provider).schemas = respondRead crates provider := by
  funext req ty block new outs
  rw [respondRead, respondRead, Provider.resourceIdentity_schemas]

theorem respondApply_schemas :
    respondApply crates (Provider.ofProvider provider).schemas = respondApply crates provider := by
  funext req ty block prior result outs
  cases result with
  | ok new => rw [respondApply, respondApply, Provider.resourceIdentity_schemas]
  | error diags => rfl

theorem respondImported_schemas :
    respondImported crates (Provider.ofProvider provider).schemas = respondImported crates provider := by
  funext req ty state outs
  rw [respondImported, respondImported, Provider.resourceIdentity_schemas]

theorem upgradeResourceIdentity_schemas :
    upgradeResourceIdentity crates (Provider.ofProvider provider).schemas =
        upgradeResourceIdentity crates provider := by
  funext req
  rw [upgradeResourceIdentity, upgradeResourceIdentity, Provider.resourceIdentity_schemas]

variable {service : ProviderService} (hs : service.provider = Provider.ofProvider provider)

include hs

theorem readResource_response (req : ReadRequest) : (service.readResource crates req).ending.toOption =
    (Service.readResource crates provider req).map (·.response) := by
  rw [ProviderService.readResource, Service.readResource, hs, Provider.resourceCty_schemas,
    Provider.resourceBlock_schemas, Provider.handler_resource, respondRead_schemas]
  cases provider.resourceCty req.typeName with
  | none => rfl
  | some ty =>
      cases provider.resourceBlock req.typeName with
      | none => rfl
      | some block =>
          cases provider.resourceHandler req.typeName with
          | none => rfl
          | some handler =>
              dsimp only [Option.map_some]
              cases Service.decodeDynamic crates req.currentState ty with
              | error e => rfl
              | ok current =>
                  dsimp only
                  cases Timeouts.forOperation current "read" with
                  | error e => rfl
                  | ok limit => exact run_answer fun dispatch => rfl

theorem upgradeResourceState_response (req : UpgradeRequest) :
    (service.upgradeResourceState crates req).ending.toOption =
      (Service.upgradeResourceState crates provider req).map (·.response) := by
  rw [ProviderService.upgradeResourceState, Service.upgradeResourceState, hs, Provider.resourceCty_schemas,
    Provider.resourceVersion_schemas, Provider.handler_resource]
  cases provider.resourceCty req.typeName with
  | none => rfl
  | some ty =>
      cases provider.resourceVersion req.typeName with
      | none => rfl
      | some currentVersion =>
          cases req.rawState.map (·.json) with
          | none => rfl
          | some raw =>
              cases raw with
              | nil => rfl
              | cons b bs =>
                  dsimp only
                  cases crates.fromSlice (b :: bs) with
                  | error e => rfl
                  | ok json =>
                      dsimp only
                      by_cases hversion : currentVersion ≤ req.version
                      · rw [if_pos hversion, if_pos hversion]
                        rfl
                      · rw [if_neg hversion, if_neg hversion, migrate]
                        cases provider.resourceHandler req.typeName with
                        | none => rfl
                        | some handler =>
                            dsimp only [Option.map_some]
                            cases decodeJsonValue crates json with
                            | error e => rfl
                            | ok prior => exact run_answer fun dispatch => rfl

theorem planDecoded_response (req : PlanRequest) (ty : Ty) (block : Block) (prior proposed : Value) :
    (service.planDecoded crates req ty block prior proposed).ending.toOption =
      (Service.planDecoded crates provider req ty block prior proposed).map (·.response) := by
  rw [ProviderService.planDecoded, Service.planDecoded, hs, Provider.handler_resource, respondPlan_schemas]
  cases provider.resourceHandler req.typeName with
  | none => rfl
  | some handler =>
      have hkept : Fut.foreign (do
          let canon ← (DynResource.ofResource handler .clean).semanticEquality
          keepPrior prior proposed canon) =
            (pure (TofuSdk.keepPrior prior proposed handler.semanticEquality) : Future Value) := by
        rw [DynResource.ofResource, pure_bind, keepPrior_ofCanon]
        rfl
      dsimp only [Option.map_some]
      rw [hkept, pure_bind]
      exact run_answer fun dispatch => rfl

theorem planResourceChange_response (req : PlanRequest) :
    (service.planResourceChange crates req).ending.toOption =
      (Service.planResourceChange crates provider req).map (·.response) := by
  rw [ProviderService.planResourceChange, Service.planResourceChange, hs, Provider.resourceCty_schemas,
    Provider.resourceBlock_schemas]
  cases provider.resourceCty req.typeName with
  | none => rfl
  | some ty =>
      cases provider.resourceBlock req.typeName with
      | none => rfl
      | some block =>
          dsimp only
          cases Service.decodeDynamic crates req.priorState ty with
          | error e => rfl
          | ok prior =>
              dsimp only
              cases Service.decodeDynamic crates req.proposedNewState ty with
              | error e => rfl
              | ok proposed => exact planDecoded_response crates hs req ty block prior proposed

theorem applyDecoded_response (req : ApplyRequest) (ty : Ty) (block : Block) (handler : TofuSdk.DynResource)
    (prior planned : Value) :
    (service.applyDecoded crates req ty block (DynResource.ofResource handler .clean) prior planned).ending.toOption =
      (Service.applyDecoded crates provider req ty block handler prior planned).map (·.response) := by
  rw [ProviderService.applyDecoded, Service.applyDecoded, hs, respondApply_schemas]
  cases Timeouts.forOperation (if planned.isNull then prior else planned) (action planned prior) with
  | error e => rfl
  | ok limit =>
      dsimp only
      rw [ProviderService.dispatchApply, Service.dispatchApply]
      by_cases hplanned : planned.isNull = true
      · rw [if_pos hplanned, if_pos hplanned]
        exact run_answer fun dispatch => rfl
      · rw [if_neg hplanned, if_neg hplanned]
        by_cases hprior : prior.isNull = true
        · rw [if_pos hprior, if_pos hprior]
          exact run_answer fun dispatch => rfl
        · rw [if_neg hprior, if_neg hprior]
          exact run_answer fun dispatch => rfl

theorem applyResourceChange_response (req : ApplyRequest) :
    (service.applyResourceChange crates req).ending.toOption =
      (Service.applyResourceChange crates provider req).map (·.response) := by
  rw [ProviderService.applyResourceChange, Service.applyResourceChange, hs, Provider.resourceCty_schemas,
    Provider.resourceBlock_schemas, Provider.handler_resource]
  cases provider.resourceCty req.typeName with
  | none => rfl
  | some ty =>
      cases provider.resourceBlock req.typeName with
      | none => rfl
      | some block =>
          cases provider.resourceHandler req.typeName with
          | none => rfl
          | some handler =>
              dsimp only [Option.map_some]
              cases Service.decodeDynamic crates req.priorState ty with
              | error e => rfl
              | ok prior =>
                  dsimp only
                  cases Service.decodeDynamic crates req.plannedState ty with
                  | error e => rfl
                  | ok planned =>
                      dsimp only
                      cases withConfig crates req.config ty block planned with
                      | error e => rfl
                      | ok planned => exact applyDecoded_response crates hs req ty block handler prior planned

theorem importResourceState_response (req : ImportRequest) :
    (service.importResourceState crates req).ending.toOption =
      (Service.importResourceState crates provider req).map (·.response) := by
  rw [ProviderService.importResourceState, Service.importResourceState, hs, Provider.resourceCty_schemas,
    Provider.handler_resource, respondImported_schemas]
  cases provider.resourceCty req.typeName with
  | none => rfl
  | some ty =>
      cases provider.resourceHandler req.typeName with
      | none => rfl
      | some handler => exact run_answer fun dispatch => rfl

theorem moveResourceState_response (req : MoveRequest) :
    (service.moveResourceState crates req).ending.toOption =
      (Service.moveResourceState crates provider req).map (·.response) := by
  rw [ProviderService.moveResourceState, Service.moveResourceState, hs, Provider.resourceCty_schemas,
    Provider.handler_resource]
  cases provider.resourceCty req.targetTypeName with
  | none => rfl
  | some ty =>
      cases provider.resourceHandler req.targetTypeName with
      | none => rfl
      | some handler =>
          dsimp only [Option.map_some]
          cases req.sourceState.map (·.json) with
          | none => rfl
          | some raw =>
              cases raw with
              | nil => rfl
              | cons b bs =>
                  dsimp only
                  cases crates.fromSlice (b :: bs) with
                  | error e => rfl
                  | ok json =>
                      dsimp only
                      cases decodeJsonValue crates json with
                      | error e => rfl
                      | ok sourceState => exact run_answer fun dispatch => rfl

theorem listResource_response (req : ListRequest) :
    (service.listResource crates req).ending.toOption =
      (Service.listResource crates provider req).map (·.response) := by
  rw [ProviderService.listResource, Service.listResource, hs, Provider.listResourceSchema_schemas,
    Provider.handler_listResource]
  dsimp only
  cases provider.listResourceSchema req.typeName with
  | none => rfl
  | some schema =>
      cases provider.listResourceHandler req.typeName with
      | none => rfl
      | some handler =>
          dsimp only [Option.map_some, ProviderService.runUnder]
          cases Service.decodeDynamic crates req.config schema.config.ctyType with
          | error e => rfl
          | ok config =>
              refine run_answer fun dispatch => ?_
              cases dispatch.result with
              | ok items => rfl
              | error diags => rfl

end

/-- A service answers what is asked of a resource as its model alone does, which
sees no panic of a conversion. -/
structure ServesAlike (crates : Crates) (service : ProviderService) (provider : TofuSdk.Provider) : Prop where
  read : ∀ req, (service.readResource crates req).ending.toOption =
    (Service.readResource crates provider req).map (·.response)
  upgrade : ∀ req, (service.upgradeResourceState crates req).ending.toOption =
    (Service.upgradeResourceState crates provider req).map (·.response)
  upgradeIdentity : ∀ req, upgradeResourceIdentity crates service.provider.schemas req =
    upgradeResourceIdentity crates provider req
  plan : ∀ req, (service.planResourceChange crates req).ending.toOption =
    (Service.planResourceChange crates provider req).map (·.response)
  apply : ∀ req, (service.applyResourceChange crates req).ending.toOption =
    (Service.applyResourceChange crates provider req).map (·.response)
  importState : ∀ req, (service.importResourceState crates req).ending.toOption =
    (Service.importResourceState crates provider req).map (·.response)
  move : ∀ req, (service.moveResourceState crates req).ending.toOption =
    (Service.moveResourceState crates provider req).map (·.response)
  list : ∀ req, (service.listResource crates req).ending.toOption =
    (Service.listResource crates provider req).map (·.response)

/-- Every provider of managed resources is served so, whatever the service has
been asked before. -/
theorem servesAlike_ofProvider (crates : Crates) (provider : TofuSdk.Provider) (cancelled : Bool)
    (backends : String → Option ConfiguredBackend) :
    ServesAlike crates ⟨Provider.ofProvider provider, cancelled, backends⟩ provider where
  read := readResource_response crates rfl
  upgrade := upgradeResourceState_response crates rfl
  upgradeIdentity := congrFun (upgradeResourceIdentity_schemas crates)
  plan := planResourceChange_response crates rfl
  apply := applyResourceChange_response crates rfl
  importState := importResourceState_response crates rfl
  move := moveResourceState_response crates rfl
  list := listResource_response crates rfl

end Plugin

end TofuSdk
