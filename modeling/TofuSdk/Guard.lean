import TofuSdk.Dispatch
import TofuSdk.Failure
import TofuSdk.Wire

namespace TofuSdk

namespace Plugin

open TofuSdk.Service

def Rpc.failed {ρ : Type} : Rpc ρ → ρ → Bool
  | .getMetadata, _ | .getProviderSchema, _ | .getResourceIdentitySchemas, _ | .getFunctions, _ | .stopProvider, _ =>
      false
  | .generateResourceConfig, _ => true
  | .configureProvider _, res | .validateProviderConfig _, res | .validateResourceConfig _, res
  | .validateDataResourceConfig _, res | .validateEphemeralResourceConfig _, res | .validateActionConfig _, res
  | .validateListResourceConfig _, res | .validateStateStoreConfig _, res | .closeEphemeralResource _, res
  | .planAction _, res | .unlockState _, res | .deleteState _, res | .writeStateBytes _, res =>
      hasError res.diagnostics
  | .upgradeResourceState _, res => hasError res.diagnostics
  | .planResourceChange _, res => hasError res.diagnostics
  | .readResource _, res => hasError res.diagnostics
  | .applyResourceChange _, res => hasError res.diagnostics
  | .readDataSource _, res => hasError res.diagnostics
  | .openEphemeralResource _, res => hasError res.diagnostics
  | .renewEphemeralResource _, res => hasError res.diagnostics
  | .importResourceState _, res => hasError res.diagnostics
  | .moveResourceState _, res => hasError res.diagnostics
  | .upgradeResourceIdentity _, res => hasError res.diagnostics
  | .configureStateStore _, res => hasError res.diagnostics
  | .lockState _, res => hasError res.diagnostics
  | .getStates _, res => hasError res.diagnostics
  | .callFunction _, res => res.error.isSome
  | .listResource _, events => events.any fun event => hasError event.diagnostic
  | .readStateBytes _, chunks => chunks.any fun chunk => hasError chunk.diagnostics
  | .invokeAction _, events => events.any fun event => match event with
      | .progress _ => false
      | .completed diagnostics => hasError diagnostics

section

variable {α β : Type} {answers : β → Prop}

/-- A guarded call is contained when what is made of a panic's diagnostic
answers for it. -/
theorem contained_run {op : String} {privateIn : Bytes} {handler : Handler α}
    {g : Except Diagnostics α × CtxOutputs → Future β} (hg : ∀ result, (g result).tripped = false)
    (h : ∀ payload outs, ∃ response, (g (.error (panicked op payload), outs)).ending = .returned response ∧
      answers response) : Fut.Contained answers (run op privateIn handler >>= g) := by
  simp only [run, catch_, bind_assoc]
  apply Fut.contained_catchUnwind
  · intro res
    simp only [pure_bind]
    exact Fut.contained_of_not_tripped (hg _)
  · intro payload
    simp only [pure_bind]
    exact h payload _

theorem contained_run_self {op : String} {privateIn : Bytes} {handler : Handler α}
    {answers : Except Diagnostics α × CtxOutputs → Prop}
    (h : ∀ payload outs, answers (.error (panicked op payload), outs)) :
    Fut.Contained answers (run op privateIn handler) := by
  rw [← bind_pure (run op privateIn handler)]
  exact contained_run (fun _ => rfl) fun payload outs => ⟨_, rfl, h payload outs⟩

theorem toOption_run {ρ : Type} (op : String) (privateIn : Bytes) (handler : Handler α)
    (respond : Except Diagnostics α × CtxOutputs → ρ) :
    (respond <$> run op privateIn handler).ending.toOption = match (handler privateIn).finish with
      | .returned result => some (respond (result, intoOutputs (handler privateIn).ops))
      | .panicked payload => some (respond (.error (panicked op payload), intoOutputs (handler privateIn).ops))
      | .pending => none := by
  rw [run]
  cases (handler privateIn).finish <;> rfl

theorem contained_runDiags {op : String} {hook : Bytes → Validation}
    {g : Diagnostics × CtxOutputs → Future β} (hg : ∀ result, (g result).tripped = false)
    (h : ∀ payload outs, ∃ response, (g (panicked op payload, outs)).ending = .returned response ∧
      answers response) : Fut.Contained answers (runDiags op hook >>= g) := by
  simp only [runDiags, catchDiags, bind_assoc]
  apply Fut.contained_catchUnwind
  · intro diags
    simp only [pure_bind]
    exact Fut.contained_of_not_tripped (hg _)
  · intro payload
    simp only [pure_bind]
    exact h payload _

end

theorem hasError_panicked (op : String) (payload : Option String) (outs : CtxOutputs) :
    hasError (diagsWithWarnings (panicked op payload) outs) = true := rfl

namespace ProviderService

variable (crates : Crates) (service : ProviderService)

theorem contained_validateConfig {ty : Option Ty} {validate : Option Validator} {unknown unbuilt : List Diagnostic}
    {failed op : String} {config : Option DynamicValue} :
    Fut.Contained (fun res => hasError res.diagnostics = true)
      (validateConfig crates ty validate unknown unbuilt failed op config) := by
  unfold validateConfig
  split
  · exact Fut.contained_pure _
  · exact Fut.contained_pure _
  · split
    · exact Fut.contained_pure _
    · exact contained_runDiags (fun _ => rfl) fun payload outs => ⟨_, rfl, hasError_panicked _ payload outs⟩

theorem contained_upgradeResourceState (req : UpgradeRequest) :
    Fut.Contained (fun res => hasError res.diagnostics = true) (service.upgradeResourceState crates req) := by
  rw [upgradeResourceState]
  split
  · split
    · exact Fut.contained_pure _
    · exact Fut.contained_pure _
    · split
      · exact Fut.contained_pure _
      · split
        · exact Fut.contained_pure _
        · split
          · exact Fut.contained_pure _
          · split
            · exact Fut.contained_pure _
            · exact contained_run (fun _ => rfl) fun payload outs => ⟨_, rfl, hasError_panicked _ payload outs⟩
  · exact Fut.contained_pure _

theorem contained_readResource (req : ReadRequest) :
    Fut.Contained (fun res => hasError res.diagnostics = true) (service.readResource crates req) := by
  rw [readResource]
  split
  · split
    · exact Fut.contained_pure _
    · split
      · exact Fut.contained_of_not_tripped rfl
      · exact contained_run (fun _ => rfl) fun payload outs => ⟨_, rfl, hasError_panicked _ payload outs⟩
  · exact Fut.contained_pure _

theorem contained_applyDecoded (req : ApplyRequest) (ty : Ty) (block : Block) (handler : DynResource)
    (prior planned : Value) : Fut.Contained (fun res => hasError res.diagnostics = true)
      (service.applyDecoded crates req ty block handler prior planned) := by
  rw [applyDecoded]
  dsimp only
  split
  · exact Fut.contained_of_not_tripped rfl
  · rw [dispatchApply]
    split_ifs
    all_goals exact contained_run (fun _ => rfl) fun payload outs => ⟨_, rfl, hasError_panicked _ payload outs⟩

theorem contained_applyResourceChange (req : ApplyRequest) :
    Fut.Contained (fun res => hasError res.diagnostics = true) (service.applyResourceChange crates req) := by
  rw [applyResourceChange]
  split
  · split
    · exact Fut.contained_pure _
    · split
      · exact Fut.contained_pure _
      · split
        · exact Fut.contained_pure _
        · exact service.contained_applyDecoded crates req _ _ _ _ _
  · exact Fut.contained_pure _

theorem contained_importResourceState (req : ImportRequest) :
    Fut.Contained (fun res => hasError res.diagnostics = true) (service.importResourceState crates req) := by
  rw [importResourceState]
  split
  · exact contained_run (fun _ => rfl) fun payload outs => ⟨_, rfl, hasError_panicked _ payload outs⟩
  · exact Fut.contained_pure _

theorem contained_moveResourceState (req : MoveRequest) :
    Fut.Contained (fun res => hasError res.diagnostics = true) (service.moveResourceState crates req) := by
  rw [moveResourceState]
  split
  · split
    · exact Fut.contained_pure _
    · exact Fut.contained_pure _
    · split
      · exact Fut.contained_pure _
      · split
        · exact Fut.contained_pure _
        · exact contained_run (fun _ => rfl) fun payload outs => ⟨_, rfl, hasError_panicked _ payload outs⟩
  · exact Fut.contained_pure _

/-- Under a decoded configuration, what answers for a panic is the response to
its diagnostic. -/
theorem contained_runUnder {η α ρ : Type} {answers : ρ → Prop} {ty : Option Ty} {handler : Option η}
    {config : Option DynamicValue} {unknown : List Diagnostic} {failed op : String} {refuse : List Diagnostic → ρ}
    {call : η → Value → Handler α} {respond : Ty → Except Diagnostics α × CtxOutputs → ρ}
    (h : ∀ ty payload outs, answers (respond ty (.error (panicked op payload), outs))) :
    Fut.Contained answers (runUnder crates ty handler config unknown failed op refuse call respond) := by
  unfold runUnder
  split
  · split
    · exact Fut.contained_pure _
    · apply Fut.contained_map.mpr
      exact contained_run_self fun payload outs => h _ payload outs
  · exact Fut.contained_pure _

theorem contained_listResource (req : ListRequest) :
    Fut.Contained (fun events => events.any (fun event => hasError event.diagnostic) = true)
      (service.listResource crates req) := by
  apply contained_runUnder
  intro ty payload outs
  cases service.provider.schemas.listResourceSchema req.typeName <;> rfl

theorem contained_readDataSource (req : ConfigRequest) :
    Fut.Contained (fun res => hasError res.diagnostics = true) (service.readDataSource crates req) :=
  contained_runUnder crates fun _ payload outs => hasError_panicked _ payload outs

theorem contained_openEphemeralResource (req : ConfigRequest) :
    Fut.Contained (fun res => hasError res.diagnostics = true) (service.openEphemeralResource crates req) :=
  contained_runUnder crates fun _ payload outs => hasError_panicked _ payload outs

theorem contained_planAction (req : ConfigRequest) :
    Fut.Contained (fun res => hasError res.diagnostics = true) (service.planAction crates req) :=
  contained_runUnder crates fun _ payload outs => hasError_panicked _ payload outs

theorem contained_invokeAction (req : ConfigRequest) :
    Fut.Contained (fun events => (Rpc.invokeAction req).failed events = true) (service.invokeAction crates req) := by
  apply contained_runUnder
  intro ty payload outs
  rw [Rpc.failed, List.any_append]
  exact Bool.or_eq_true_iff.mpr (.inr rfl)

theorem contained_configureStateStore (req : ConfigureStoreRequest) :
    Fut.Contained (fun res => hasError res.1.diagnostics = true) (service.configureStateStore crates req) :=
  contained_runUnder crates fun _ payload outs => hasError_panicked _ payload outs

theorem contained_renewEphemeralResource (req : EphemeralRequest) :
    Fut.Contained (fun res => hasError res.diagnostics = true) (service.renewEphemeralResource req) := by
  rw [renewEphemeralResource]
  split
  · exact Fut.contained_pure _
  · exact contained_run (fun _ => rfl) fun payload outs => ⟨_, rfl, hasError_panicked _ payload outs⟩

theorem contained_closeEphemeralResource (req : EphemeralRequest) :
    Fut.Contained (fun res => hasError res.diagnostics = true) (service.closeEphemeralResource req) := by
  rw [closeEphemeralResource]
  split
  · exact Fut.contained_pure _
  · exact contained_run (fun _ => rfl) fun payload outs => ⟨_, rfl, hasError_panicked _ payload outs⟩

theorem contained_callFunction (req : CallRequest) :
    Fut.Contained (fun res => res.error.isSome = true) (service.callFunction crates req) := by
  rw [callFunction]
  split
  · exact Fut.contained_pure _
  · exact Fut.contained_pure _
  · split
    · exact Fut.contained_pure _
    · exact Fut.contained_catchUnwind (fun _ => Fut.contained_pure _) fun payload => ⟨_, rfl, rfl⟩

theorem contained_runBackend {α ρ : Type} {answers : ρ → Prop} {typeName op : String} {refuse : List Diagnostic → ρ}
    {call : DynStateBackend → Handler α} {respond : ConfiguredBackend → Except Diagnostics α × CtxOutputs → ρ}
    (h : ∀ backend payload outs, answers (respond backend (.error (panicked op payload), outs))) :
    Fut.Contained answers (service.runBackend typeName op refuse call respond) := by
  rw [runBackend]
  split
  · exact Fut.contained_pure _
  · apply Fut.contained_map.mpr
    exact contained_run_self fun payload outs => h _ payload outs

theorem contained_lockState (req : LockRequest) :
    Fut.Contained (fun res => hasError res.diagnostics = true) (service.lockState req) :=
  service.contained_runBackend fun _ payload outs => hasError_panicked _ payload outs

theorem contained_unlockState (req : UnlockRequest) :
    Fut.Contained (fun res => hasError res.diagnostics = true) (service.unlockState req) :=
  service.contained_runBackend fun _ payload outs => hasError_panicked _ payload outs

theorem contained_getStates (typeName : String) :
    Fut.Contained (fun res => hasError res.diagnostics = true) (service.getStates typeName) :=
  service.contained_runBackend fun _ payload outs => hasError_panicked _ payload outs

theorem contained_deleteState (req : StateRequest) :
    Fut.Contained (fun res => hasError res.diagnostics = true) (service.deleteState req) :=
  service.contained_runBackend fun _ payload outs => hasError_panicked _ payload outs

theorem contained_readStateBytes (req : StateRequest) :
    Fut.Contained (fun chunks => chunks.any (fun chunk => hasError chunk.diagnostics) = true)
      (service.readStateBytes req) :=
  service.contained_runBackend fun _ _ _ => rfl

theorem contained_writeStateStream (chunks : List (Except Status WriteChunk)) :
    Fut.Contained (fun res => hasError res.diagnostics = true) (service.writeStateStream chunks) := by
  rw [writeStateStream]
  split
  · exact Fut.contained_pure _
  · exact Fut.contained_pure _
  · exact service.contained_runBackend fun _ payload outs => hasError_panicked _ payload outs

/-- The configuration callback does not panic, nor do the configure closure and
the factories where they are run after it. -/
def ConfigureCalm (provider : Provider Parts.real) (config : Value) : Prop :=
  (∀ callback, provider.dynConfigure = some callback → (callback config).isPanicked = false) ∧
    ∀ configure, provider.configureFn = some configure → provider.configured = none →
      provider.configureDyn config = .returned (.ok ()) → (configure config).isPanicked = false

/-- The conversions that semantic equality runs on two states do not panic. -/
def ConversionsCalm (handler : DynResource) (prior proposed : Value) : Prop :=
  handler.semanticEquality.isPanicked = false ∧
    ∀ canon, handler.semanticEquality = .returned canon → (keepPrior prior proposed canon).isPanicked = false

/-- The author's code that a request runs without a guard does not panic. -/
def Calm {ρ : Type} : Rpc ρ → Prop
  | .configureProvider config =>
      ∀ value, Service.decodeDynamic crates config service.provider.providerConfigTy = .ok value →
        ConfigureCalm service.provider value
  | .validateProviderConfig config =>
      ∀ value callback, Service.decodeDynamic crates config service.provider.providerConfigTy = .ok value →
        service.provider.validateConfig = some callback → (callback value).isPanicked = false
  | .planResourceChange req => ∀ block handler prior proposed,
      service.provider.schemas.resourceBlock req.typeName = some block →
      service.provider.handler .resource req.typeName = some handler →
      Service.decodeDynamic crates req.priorState block.ctyType = .ok prior →
      Service.decodeDynamic crates req.proposedNewState block.ctyType = .ok proposed →
      ConversionsCalm handler prior proposed
  | _ => True

theorem isPanicked_conversions (handler : DynResource) (prior proposed : Value) :
    (handler.semanticEquality >>= keepPrior prior proposed).isPanicked = false ↔
      ConversionsCalm handler prior proposed := by
  rw [Ending.isPanicked_bind]
  exact Iff.rfl

theorem isPanicked_configureDyn (provider : Provider Parts.real) (config : Value) :
    (provider.configureDyn config).isPanicked = false ↔
      ∀ callback, provider.dynConfigure = some callback → (callback config).isPanicked = false := by
  rw [Provider.configureDyn]
  cases provider.dynConfigure with
  | none => exact iff_of_true rfl fun _ h => nomatch h
  | some callback =>
      constructor
      · rintro h _ ⟨rfl⟩
        exact h
      · exact fun h => h callback rfl

theorem isPanicked_configure (provider : Provider Parts.real) (config : Value) :
    (provider.configure config).isPanicked = false ↔ ConfigureCalm provider config := by
  rw [Provider.configure]
  rw [Ending.isPanicked_bind, isPanicked_configureDyn]
  refine and_congr_right fun _ => ?_
  constructor
  · intro h configure hfn hconfigured hdyn
    have hrest := h (.ok ()) hdyn
    simp only [hfn, hconfigured] at hrest
    exact (Ending.isPanicked_bind.mp hrest).1
  · intro h dyn hdyn
    split
    · rfl
    · rename_i configure hfn hconfigured
      refine Ending.isPanicked_bind.mpr ⟨h configure hfn hconfigured hdyn, fun result _ => ?_⟩
      cases result <;> rfl
    · rfl

theorem isPanicked_validate (provider : Provider Parts.real) (config : Value) :
    (provider.validate config).isPanicked = false ↔
      ∀ callback, provider.validateConfig = some callback → (callback config).isPanicked = false := by
  rw [Provider.validate]
  cases provider.validateConfig with
  | none => exact iff_of_true rfl fun _ h => nomatch h
  | some callback =>
      constructor
      · rintro h _ ⟨rfl⟩
        exact h
      · exact fun h => h callback rfl

theorem contained_configureProvider (config : Option DynamicValue) :
    Fut.Contained (fun res => hasError res.1.diagnostics = true) (service.configureProvider crates config) ↔
      service.Calm crates (.configureProvider config) := by
  rw [configureProvider]
  split
  · rename_i e he
    refine iff_of_true (Fut.contained_pure _) fun value hvalue => ?_
    rw [he] at hvalue
    cases hvalue
  · rename_i value hvalue
    rw [Fut.contained_foreign, isPanicked_configure]
    · constructor
      · intro h other hother
        rwa [← Except.ok.inj (hvalue.symm.trans hother)]
      · exact fun h => h value hvalue
    · intro result _
      cases result <;> exact Fut.contained_pure _

theorem contained_validateProviderConfig (config : Option DynamicValue) :
    Fut.Contained (fun res => hasError res.diagnostics = true) (service.validateProviderConfig crates config) ↔
      service.Calm crates (.validateProviderConfig config) := by
  rw [validateProviderConfig]
  split
  · rename_i e he
    refine iff_of_true (Fut.contained_pure _) fun value _ hvalue => ?_
    rw [he] at hvalue
    cases hvalue
  · rename_i value hvalue
    rw [Fut.contained_foreign fun _ _ => Fut.contained_pure _, isPanicked_validate]
    constructor
    · intro h other callback hother
      rw [← Except.ok.inj (hvalue.symm.trans hother)]
      exact h callback
    · exact fun h callback => h value callback hvalue

theorem contained_planDecoded (req : PlanRequest) (ty : Ty) (block : Block) (prior proposed : Value) :
    Fut.Contained (fun res => hasError res.diagnostics = true)
        (service.planDecoded crates req ty block prior proposed) ↔
      ∀ handler, service.provider.handler .resource req.typeName = some handler →
        ConversionsCalm handler prior proposed := by
  rw [planDecoded]
  split
  · rename_i hnone
    refine iff_of_true (Fut.contained_pure _) fun handler h => ?_
    rw [hnone] at h
    cases h
  · rename_i handler hhandler
    refine (Fut.contained_foreign ?_).trans ((isPanicked_conversions handler prior proposed).trans ?_)
    · intro kept _
      exact contained_run (fun _ => rfl) fun payload outs => ⟨_, rfl, hasError_panicked _ payload outs⟩
    · constructor
      · intro h other hother
        rwa [← Option.some.inj (hhandler.symm.trans hother)]
      · exact fun h => h handler hhandler

theorem contained_planResourceChange (req : PlanRequest) :
    Fut.Contained (fun res => hasError res.diagnostics = true) (service.planResourceChange crates req) ↔
      service.Calm crates (.planResourceChange req) := by
  rw [planResourceChange]
  simp only [Calm]
  cases hblock : service.provider.schemas.resourceBlock req.typeName with
  | none =>
      rw [TofuSdk.Provider.resourceCty, hblock]
      refine iff_of_true (Fut.contained_pure _) ?_
      intro _ _ _ _ h
      cases h
  | some block =>
      rw [Provider.resourceCty_eq hblock]
      dsimp only
      cases hprior : Service.decodeDynamic crates req.priorState block.ctyType with
      | error e =>
          refine iff_of_true (Fut.contained_pure _) fun other _ _ _ hother _ hdecoded => ?_
          rw [← Option.some.inj hother, hprior] at hdecoded
          cases hdecoded
      | ok prior =>
          cases hproposed : Service.decodeDynamic crates req.proposedNewState block.ctyType with
          | error e =>
              refine iff_of_true (Fut.contained_pure _) fun other _ _ _ hother _ _ hdecoded => ?_
              rw [← Option.some.inj hother, hproposed] at hdecoded
              cases hdecoded
          | ok proposed =>
              refine (service.contained_planDecoded crates req block.ctyType block prior proposed).trans ?_
              constructor
              · rintro h other handler prior' proposed' ⟨rfl⟩ hhandler hprior' hproposed'
                cases hprior.symm.trans hprior'
                cases hproposed.symm.trans hproposed'
                exact h handler hhandler
              · exact fun h handler hhandler => h block handler prior proposed rfl hhandler hprior hproposed

/-- An RPC answers every panic of the author's code with an error, exactly
when the code that it runs without a guard does not panic. -/
theorem serve_contained_iff {ρ : Type} (rpc : Rpc ρ) :
    Fut.Contained (fun res => rpc.failed res.1 = true) (service.serve crates rpc) ↔ service.Calm crates rpc := by
  cases rpc with
  | configureProvider config => exact service.contained_configureProvider crates config
  | validateProviderConfig config =>
      exact Fut.contained_map.trans (service.contained_validateProviderConfig crates config)
  | planResourceChange req => exact Fut.contained_map.trans (service.contained_planResourceChange crates req)
  | configureStateStore req => exact iff_of_true (service.contained_configureStateStore crates req) trivial
  | getMetadata | getProviderSchema | getResourceIdentitySchemas | upgradeResourceIdentity | generateResourceConfig
  | getFunctions | stopProvider => exact iff_of_true (Fut.contained_pure _) trivial
  | validateResourceConfig req | validateDataResourceConfig req | validateEphemeralResourceConfig req
  | validateActionConfig req | validateListResourceConfig req | validateStateStoreConfig req =>
      exact iff_of_true (Fut.contained_map.mpr (contained_validateConfig crates)) trivial
  | upgradeResourceState req =>
      exact iff_of_true (Fut.contained_map.mpr (service.contained_upgradeResourceState crates req)) trivial
  | readResource req => exact iff_of_true (Fut.contained_map.mpr (service.contained_readResource crates req)) trivial
  | applyResourceChange req =>
      exact iff_of_true (Fut.contained_map.mpr (service.contained_applyResourceChange crates req)) trivial
  | importResourceState req =>
      exact iff_of_true (Fut.contained_map.mpr (service.contained_importResourceState crates req)) trivial
  | moveResourceState req =>
      exact iff_of_true (Fut.contained_map.mpr (service.contained_moveResourceState crates req)) trivial
  | readDataSource req =>
      exact iff_of_true (Fut.contained_map.mpr (service.contained_readDataSource crates req)) trivial
  | openEphemeralResource req =>
      exact iff_of_true (Fut.contained_map.mpr (service.contained_openEphemeralResource crates req)) trivial
  | renewEphemeralResource req =>
      exact iff_of_true (Fut.contained_map.mpr (service.contained_renewEphemeralResource req)) trivial
  | closeEphemeralResource req =>
      exact iff_of_true (Fut.contained_map.mpr (service.contained_closeEphemeralResource req)) trivial
  | planAction req => exact iff_of_true (Fut.contained_map.mpr (service.contained_planAction crates req)) trivial
  | invokeAction req => exact iff_of_true (Fut.contained_map.mpr (service.contained_invokeAction crates req)) trivial
  | callFunction req => exact iff_of_true (Fut.contained_map.mpr (service.contained_callFunction crates req)) trivial
  | lockState req => exact iff_of_true (Fut.contained_map.mpr (service.contained_lockState req)) trivial
  | unlockState req => exact iff_of_true (Fut.contained_map.mpr (service.contained_unlockState req)) trivial
  | getStates typeName => exact iff_of_true (Fut.contained_map.mpr (service.contained_getStates typeName)) trivial
  | deleteState req => exact iff_of_true (Fut.contained_map.mpr (service.contained_deleteState req)) trivial
  | readStateBytes req => exact iff_of_true (Fut.contained_map.mpr (service.contained_readStateBytes req)) trivial
  | writeStateBytes chunks =>
      exact iff_of_true (Fut.contained_map.mpr (service.contained_writeStateStream chunks)) trivial
  | listResource req => exact iff_of_true (Fut.contained_map.mpr (service.contained_listResource crates req)) trivial

end ProviderService

def regionless : Calls Parts.real Unit :=
  .andThen (.validateConfig fun _ => .panicked (some "no region")) .build

theorem validateConfig_escapes : ∃ built, regionless.run .empty = .ok built ∧
    ((ProviderService.new built).serve Crates.real (.validateProviderConfig none)).ending =
      .panicked (some "no region") ∧
    ¬Fut.Contained (fun res => (Rpc.validateProviderConfig none).failed res.1 = true)
      ((ProviderService.new built).serve Crates.real (.validateProviderConfig none)) := by
  refine ⟨_, rfl, rfl, fun h => ?_⟩
  obtain ⟨res, hres, -⟩ := h rfl
  cases hres

end Plugin

end TofuSdk
