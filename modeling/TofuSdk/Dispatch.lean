import TofuSdk.Service
import TofuSdk.Registration

namespace TofuSdk

namespace Plugin

open TofuSdk.Service

/-- A type name and a configuration under it. -/
structure ConfigRequest where
  typeName : String
  config : Option DynamicValue

structure DiagnosticsResponse where
  diagnostics : List Diagnostic := []
deriving DecidableEq

structure ReadDataResponse where
  state : Option DynamicValue := none
  diagnostics : List Diagnostic := []
deriving DecidableEq

structure Timestamp where
  seconds : Int
  nanos : Int
deriving DecidableEq

structure OpenResponse where
  result : Option DynamicValue := none
  private_ : Option Bytes := none
  renewAt : Option Timestamp := none
  diagnostics : List Diagnostic := []
deriving DecidableEq

structure EphemeralRequest where
  typeName : String
  private_ : Option Bytes

structure RenewResponse where
  private_ : Option Bytes := none
  renewAt : Option Timestamp := none
  diagnostics : List Diagnostic := []
deriving DecidableEq

structure CallRequest where
  name : String
  arguments : List DynamicValue

structure CallResponse where
  result : Option DynamicValue
  error : Option FunctionError

structure ConfigureStoreRequest where
  typeName : String
  config : Option DynamicValue
  chunkSize : Option Int

structure ConfigureStoreResponse where
  diagnostics : List Diagnostic := []
  chunkSize : Option Int := none
deriving DecidableEq

structure StateRequest where
  typeName : String
  stateId : String

structure LockRequest where
  typeName : String
  stateId : String
  operation : String

structure LockResponse where
  lockId : String := ""
  diagnostics : List Diagnostic := []
deriving DecidableEq

structure UnlockRequest where
  typeName : String
  stateId : String
  lockId : String

structure StatesResponse where
  stateId : List String := []
  diagnostics : List Diagnostic := []
deriving DecidableEq

/-- A chunk of a state, or the diagnostics that end the stream. -/
structure ReadChunk where
  bytes : Bytes := []
  totalLength : Int := 0
  range : Option (Int × Int) := none
  diagnostics : List Diagnostic := []
deriving DecidableEq

structure WriteChunk where
  meta_ : Option StateRequest
  bytes : Bytes

inductive InvokeEvent
  | progress (message : String)
  | completed (diagnostics : List Diagnostic)
deriving DecidableEq

/-- The status of an RPC that is not implemented. -/
structure Status where
  message : String
deriving DecidableEq

/-- What the service comes to, and whether the author's code has panicked. -/
abbrev Future := Fut (Option String)

def Finish.ending {α : Type} : Finish α → Authored (Except Diagnostics α)
  | .returned result => .returned result
  | .panicked payload => .panicked payload
  | .pending => .pending

def panicked (op : String) (payload : Option String) : Diagnostics :=
  [Diag.error ("the " ++ op ++ " handler panicked") (panicMessage payload)]

def catch_ {α : Type} (op : String) (fut : Future (Except Diagnostics α)) : Future (Except Diagnostics α) := do
  match ← fut.catchUnwind with
  | .ok res => pure res
  | .error payload => pure (.error (panicked op payload))

def catchDiags (op : String) (fut : Future Diagnostics) : Future Diagnostics := do
  match ← fut.catchUnwind with
  | .ok diags => pure diags
  | .error payload => pure (panicked op payload)

def run {α : Type} (op : String) (privateIn : Bytes) (handler : Handler α) :
    Future (Except Diagnostics α × CtxOutputs) := do
  let call := handler privateIn
  let res ← catch_ op (Fut.foreign (Finish.ending call.finish))
  pure (res, intoOutputs call.ops)

def runDiags (op : String) (hook : Bytes → Validation) : Future (Diagnostics × CtxOutputs) := do
  let validation := hook []
  let diags ← catchDiags op (Fut.foreign validation.ending)
  pure (diags, intoOutputs validation.ops)

def crash {α : Type} : Future α := ⟨false, .panicked none⟩

namespace Provider

variable (provider : Provider Parts.real)

def blockCty (kind : Kind) (block : Parts.real.Schema kind → Block) (name : String) : Option Ty :=
  (provider.decoded kind name).map fun schema => (block schema).ctyType

def dataSourceCty (name : String) : Option Ty := provider.blockCty .dataSource id name

def ephemeralCty (name : String) : Option Ty := provider.blockCty .ephemeral id name

def stateStoreCty (name : String) : Option Ty := provider.blockCty .stateStore id name

def actionCty (name : String) : Option Ty := provider.blockCty .action id name

def schemas : TofuSdk.Provider where
  schema := {
    resources := (provider.schema .resource).map fun entry =>
      ⟨entry.1, entry.2.version, entry.2.block, entry.2.identity⟩
    listResources := (provider.schema .listResource).map fun entry =>
      ⟨entry.1, entry.2.config, entry.2.identity, entry.2.objectType⟩ }
  eager _ := none
  eagerList _ := none
  configured := none

end Provider

structure ConfiguredBackend where
  backend : DynStateBackend
  chunkSize : Int

structure ProviderService where
  provider : Provider Parts.real
  cancelled : Bool
  /-- The state stores that have been connected. -/
  backends : String → Option ConfiguredBackend

def ProviderService.new (provider : Provider Parts.real) : ProviderService := ⟨provider, false, fun _ => none⟩

def unknownDataSource (name : String) : List Diagnostic :=
  errorDiag "unknown data source type" ("the provider has no data source named `" ++ name ++ "`")

def unknownEphemeral (name : String) : List Diagnostic :=
  errorDiag "unknown ephemeral resource type" ("the provider has no ephemeral resource named `" ++ name ++ "`")

def unknownAction (name : String) : List Diagnostic :=
  errorDiag "unknown action type" ("the provider has no action named \"" ++ name ++ "\"")

def toTimestamp (time : SystemTime) : Timestamp := ⟨time.tdiv 1000000000, time.tmod 1000000000⟩

namespace ProviderService

variable (crates : Crates) (service : ProviderService)

def stateStoreUnavailable (name : String) : List Diagnostic :=
  if (service.provider.handler .stateStore name).isSome then
    errorDiag "state store not configured" ("`" ++ name ++ "` must be configured via ConfigureStateStore before use")
  else errorDiag "unknown state store type" ("the provider has no state store named `" ++ name ++ "`")

def configureProvider (config : Option DynamicValue) : Future (DiagnosticsResponse × ProviderService) :=
  match Service.decodeDynamic crates config service.provider.providerConfigTy with
  | .error e => pure (⟨errorDiag "failed to decode provider config" e.toString⟩, service)
  | .ok config => do
      match ← Fut.foreign (service.provider.configure config) with
      | .ok provider => pure ({}, { service with provider := provider })
      | .error diags => pure (⟨pbDiagnostics diags⟩, service)

def validateProviderConfig (config : Option DynamicValue) : Future DiagnosticsResponse :=
  match Service.decodeDynamic crates config service.provider.providerConfigTy with
  | .error e => pure ⟨errorDiag "failed to decode provider config" e.toString⟩
  | .ok config => do
      let diags ← Fut.foreign (service.provider.validate config)
      pure ⟨pbDiagnostics diags⟩

/-- Validation of a configuration under a type that may be unknown, by a
handler that may not exist yet. -/
def validateConfig (ty : Option Ty) (validate : Option Validator) (unknown unbuilt : List Diagnostic)
    (failed op : String) (config : Option DynamicValue) : Future DiagnosticsResponse :=
  match ty, validate with
  | none, _ => pure ⟨unknown⟩
  | some _, none => pure ⟨unbuilt⟩
  | some ty, some validate =>
      match Service.decodeDynamic crates config ty with
      | .error e => pure ⟨errorDiag failed e.toString⟩
      | .ok config => do
          let (diags, outs) ← runDiags op (validate config)
          pure ⟨diagsWithWarnings diags outs⟩

def validateResourceConfig (req : ConfigRequest) : Future DiagnosticsResponse :=
  validateConfig crates (service.provider.schemas.resourceCty req.typeName)
    ((service.provider.handler .resource req.typeName).map DynResource.validate)
    (unknownResource req.typeName) [] "failed to decode config" "validate resource config" req.config

def validateDataResourceConfig (req : ConfigRequest) : Future DiagnosticsResponse :=
  validateConfig crates (service.provider.dataSourceCty req.typeName)
    ((service.provider.handler .dataSource req.typeName).map DynDataSource.validate)
    (unknownDataSource req.typeName) [] "failed to decode config" "validate data source config" req.config

def validateEphemeralResourceConfig (req : ConfigRequest) : Future DiagnosticsResponse :=
  validateConfig crates (service.provider.ephemeralCty req.typeName)
    ((service.provider.handler .ephemeral req.typeName).map DynEphemeral.validate)
    (unknownEphemeral req.typeName) [] "failed to decode config" "validate ephemeral config" req.config

def validateStateStoreConfig (req : ConfigRequest) : Future DiagnosticsResponse :=
  validateConfig crates (service.provider.stateStoreCty req.typeName)
    ((service.provider.handler .stateStore req.typeName).map DynStateStore.validate)
    (service.stateStoreUnavailable req.typeName) [] "failed to decode state store config"
    "validate state store config" req.config

def validateActionConfig (req : ConfigRequest) : Future DiagnosticsResponse :=
  validateConfig crates (service.provider.actionCty req.typeName)
    ((service.provider.handler .action req.typeName).map DynAction.validate)
    (unknownAction req.typeName) (unknownAction req.typeName) "failed to decode action config"
    "validate action config" req.config

def validateListResourceConfig (req : ConfigRequest) : Future DiagnosticsResponse :=
  validateConfig crates ((service.provider.schemas.listResourceSchema req.typeName).map (·.config.ctyType))
    ((service.provider.handler .listResource req.typeName).map DynListResource.validate)
    (unknownListResource req.typeName) (unknownListResource req.typeName) "failed to decode list config"
    "validate list resource config" req.config

def upgradeResourceState (req : UpgradeRequest) : Future UpgradeResponse :=
  match service.provider.schemas.resourceCty req.typeName, service.provider.schemas.resourceVersion req.typeName with
  | some ty, some currentVersion =>
      match req.rawState.map (·.json) with
      | none | some [] => pure { upgradedState := (Service.encodeDynamic crates .null ty).toOption }
      | some raw =>
          match crates.fromSlice raw with
          | .error e => pure { diagnostics := errorDiag "failed to parse prior state" e }
          | .ok json =>
              if currentVersion ≤ req.version then
                pure (respondUpgraded crates ((decodeJson crates json ty).mapError CodecError.toString) ty [])
              else match service.provider.handler .resource req.typeName with
                | none => pure { diagnostics := unknownResource req.typeName }
                | some handler =>
                    match decodeJsonValue crates json with
                    | .error e => pure { diagnostics := errorDiag "failed to read prior state" e.toString }
                    | .ok prior => do
                        let (outcome, outs) ← run "upgrade resource state" []
                          (DynResource.upgrade handler req.version prior)
                        pure <| match outcome with
                          | .ok v => respondUpgraded crates (.ok v) ty outs.warnings
                          | .error diags => { diagnostics := diagsWithWarnings diags outs }
  | _, _ => pure { diagnostics := unknownResource req.typeName }

def planDecoded (req : PlanRequest) (ty : Ty) (block : Block) (prior proposed : Value) : Future PlanResponse :=
  match service.provider.handler .resource req.typeName with
  | none => pure (respondPlan crates service.provider.schemas req ty (plan prior proposed block) req.plannedPrivate [])
  | some handler => do
      let kept ← Fut.foreign do
        let canon ← DynResource.semanticEquality handler
        keepPrior prior proposed canon
      let base := plan prior kept block
      let (outcome, outs) ← run "modify_plan" req.plannedPrivate (DynResource.modifyPlan handler prior base.planned)
      pure <| match outcome with
        | .ok mods => respondPlan crates service.provider.schemas req ty (applyModifications base mods prior)
            (outs.privateOut.getD req.plannedPrivate) outs.warnings
        | .error diags => { diagnostics := diagsWithWarnings diags outs }

def planResourceChange (req : PlanRequest) : Future PlanResponse :=
  match service.provider.schemas.resourceCty req.typeName, service.provider.schemas.resourceBlock req.typeName with
  | some ty, some block =>
      match Service.decodeDynamic crates req.priorState ty with
      | .error e => pure { diagnostics := errorDiag "failed to decode prior state" e.toString }
      | .ok prior =>
          match Service.decodeDynamic crates req.proposedNewState ty with
          | .error e => pure { diagnostics := errorDiag "failed to decode proposed state" e.toString }
          | .ok proposed => service.planDecoded crates req ty block prior proposed
  | _, _ => pure { diagnostics := unknownResource req.typeName }

def readResource (req : ReadRequest) : Future ReadResponse :=
  match service.provider.schemas.resourceCty req.typeName, service.provider.schemas.resourceBlock req.typeName,
      service.provider.handler .resource req.typeName with
  | some ty, some block, some handler =>
      match Service.decodeDynamic crates req.currentState ty with
      | .error e => pure { diagnostics := errorDiag "failed to decode current state" e.toString }
      | .ok current =>
          match Timeouts.forOperation current "read" with
          | .error _ => crash
          | .ok limit => do
              let (outcome, outs) ← run "read resource" req.private_
                (Timeouts.bounded "read" limit (DynResource.read handler current))
              pure <| match outcome with
                | .ok new => respondRead crates service.provider.schemas req ty block new outs
                | .error diags => { diagnostics := diagsWithWarnings diags outs }
  | _, _, _ => pure { diagnostics := unknownResource req.typeName }

def dispatchApply (handler : DynResource) (planned prior : Value) (limit : Option Duration) (privateIn : Bytes) :
    Future (Except Diagnostics Value × CtxOutputs) :=
  if planned.isNull then run "delete" privateIn (Timeouts.bounded "delete" limit (deleted (handler.delete prior)))
  else if prior.isNull then run "create" privateIn (Timeouts.bounded "create" limit (handler.create planned))
  else run "update" privateIn (Timeouts.bounded "update" limit (handler.update planned prior))

def applyDecoded (req : ApplyRequest) (ty : Ty) (block : Block) (handler : DynResource) (prior planned : Value) :
    Future ApplyResponse :=
  let limitSource := if planned.isNull then prior else planned
  match Timeouts.forOperation limitSource (Service.action planned prior) with
  | .error _ => crash
  | .ok limit => do
      let (outcome, outs) ← dispatchApply handler planned prior limit req.plannedPrivate
      pure (respondApply crates service.provider.schemas req ty block prior outcome outs)

def applyResourceChange (req : ApplyRequest) : Future ApplyResponse :=
  match service.provider.schemas.resourceCty req.typeName, service.provider.schemas.resourceBlock req.typeName,
      service.provider.handler .resource req.typeName with
  | some ty, some block, some handler =>
      match Service.decodeDynamic crates req.priorState ty with
      | .error e => pure { diagnostics := errorDiag "failed to decode prior state" e.toString }
      | .ok prior =>
          match Service.decodeDynamic crates req.plannedState ty with
          | .error e => pure { diagnostics := errorDiag "failed to decode planned state" e.toString }
          | .ok planned =>
              match withConfig crates req.config ty block planned with
              | .error e => pure { diagnostics := errorDiag "failed to decode config" e.toString }
              | .ok planned => service.applyDecoded crates req ty block handler prior planned
  | _, _, _ => pure { diagnostics := unknownResource req.typeName }

def importResourceState (req : ImportRequest) : Future ImportResponse :=
  match service.provider.schemas.resourceCty req.typeName, service.provider.handler .resource req.typeName with
  | some ty, some handler => do
      let (outcome, outs) ← run "import resource state" [] (DynResource.import_ handler req.id)
      pure <| match outcome with
        | .ok state => respondImported crates service.provider.schemas req ty state outs
        | .error diags => { diagnostics := diagsWithWarnings diags outs }
  | _, _ => pure { diagnostics := unknownResource req.typeName }

def moveResourceState (req : MoveRequest) : Future MoveResponse :=
  match service.provider.schemas.resourceCty req.targetTypeName,
      service.provider.handler .resource req.targetTypeName with
  | some ty, some handler =>
      match req.sourceState.map (·.json) with
      | none | some [] =>
          pure { diagnostics := errorDiag "missing source state" "MoveResourceState requires JSON source state" }
      | some raw =>
          match crates.fromSlice raw with
          | .error e => pure { diagnostics := errorDiag "failed to parse source state" e }
          | .ok json =>
              match decodeJsonValue crates json with
              | .error e => pure { diagnostics := errorDiag "failed to read source state" e.toString }
              | .ok sourceState => do
                  let (outcome, outs) ← run "move resource state" req.sourcePrivate
                    (DynResource.moveState handler req.sourceTypeName sourceState)
                  pure <| match outcome with
                    | .ok target => respondMoved crates req ty target outs
                    | .error diags => { diagnostics := diagsWithWarnings diags outs }
  | _, _ => pure { diagnostics := unknownResource req.targetTypeName }

def runUnder {η α ρ : Type} (ty : Option Ty) (handler : Option η) (config : Option DynamicValue)
    (unknown : List Diagnostic) (failed op : String) (refuse : List Diagnostic → ρ) (call : η → Value → Handler α)
    (respond : Ty → Except Diagnostics α × CtxOutputs → ρ) : Future ρ :=
  match ty, handler with
  | some ty, some handler =>
      match Service.decodeDynamic crates config ty with
      | .error e => pure (refuse (errorDiag failed e.toString))
      | .ok config => respond ty <$> run op [] (call handler config)
  | _, _ => pure (refuse unknown)

def listResource (req : ListRequest) : Future (List ListEvent) :=
  let schema := service.provider.schemas.listResourceSchema req.typeName
  runUnder crates (schema.map (·.config.ctyType)) (service.provider.handler .listResource req.typeName) req.config
    (unknownListResource req.typeName) "failed to decode list config" "list resource"
    (fun diagnostics => [{ diagnostic := diagnostics }]) DynListResource.list fun _ result =>
      match schema, result.1 with
      | some schema, .ok items => respondListed crates req schema items result.2
      | none, .ok _ => []
      | _, .error diags => [{ diagnostic := diagsWithWarnings diags result.2 }]

def respondData (ty : Ty) (state : Value) (outs : CtxOutputs) : ReadDataResponse :=
  match Service.encodeDynamic crates state ty with
  | .ok dv => { state := some dv, diagnostics := pbDiagnostics outs.warnings }
  | .error e =>
      { diagnostics := pbDiagnostics outs.warnings ++ errorDiag "failed to encode data source state" e.toString }

def readDataSource (req : ConfigRequest) : Future ReadDataResponse :=
  runUnder crates (service.provider.dataSourceCty req.typeName) (service.provider.handler .dataSource req.typeName)
    req.config (unknownDataSource req.typeName) "failed to decode data source config" "read data source"
    ({ diagnostics := · }) DynDataSource.read fun ty result => match result.1 with
      | .ok state => respondData crates ty state result.2
      | .error diags => { diagnostics := diagsWithWarnings diags result.2 }

def respondOpened (ty : Ty) (result : Value) (outs : CtxOutputs) : OpenResponse :=
  match Service.encodeDynamic crates result ty with
  | .ok dv => {
      result := some dv
      private_ := outs.privateOut
      renewAt := outs.renewAt.map toTimestamp
      diagnostics := pbDiagnostics outs.warnings }
  | .error e =>
      { diagnostics := pbDiagnostics outs.warnings ++ errorDiag "failed to encode ephemeral result" e.toString }

def openEphemeralResource (req : ConfigRequest) : Future OpenResponse :=
  runUnder crates (service.provider.ephemeralCty req.typeName) (service.provider.handler .ephemeral req.typeName)
    req.config (unknownEphemeral req.typeName) "failed to decode ephemeral config" "open ephemeral resource"
    ({ diagnostics := · }) DynEphemeral.open_ fun ty value => match value.1 with
      | .ok result => respondOpened crates ty result value.2
      | .error diags => { diagnostics := diagsWithWarnings diags value.2 }

/-- Private bytes that the handler does not rewrite stay. -/
def renewEphemeralResource (req : EphemeralRequest) : Future RenewResponse :=
  match service.provider.handler .ephemeral req.typeName with
  | none => pure { diagnostics := unknownEphemeral req.typeName }
  | some handler => do
      let (outcome, outs) ← run "renew ephemeral resource" (req.private_.getD []) (DynEphemeral.renew handler)
      pure <| match outcome with
        | .ok _ => {
            private_ := outs.privateOut.or req.private_
            renewAt := outs.renewAt.map toTimestamp
            diagnostics := pbDiagnostics outs.warnings }
        | .error diags => { diagnostics := diagsWithWarnings diags outs }

def outcomeDiagnostics (result : Except Diagnostics Unit × CtxOutputs) : List Diagnostic :=
  match result.1 with
  | .ok _ => pbDiagnostics result.2.warnings
  | .error diags => diagsWithWarnings diags result.2

def closeEphemeralResource (req : EphemeralRequest) : Future DiagnosticsResponse :=
  match service.provider.handler .ephemeral req.typeName with
  | none => pure ⟨unknownEphemeral req.typeName⟩
  | some handler => do
      let result ← run "close ephemeral resource" (req.private_.getD []) (DynEphemeral.close handler)
      pure ⟨outcomeDiagnostics result⟩

def planAction (req : ConfigRequest) : Future DiagnosticsResponse :=
  runUnder crates (service.provider.actionCty req.typeName) (service.provider.handler .action req.typeName)
    req.config (unknownAction req.typeName) "failed to decode action config" "plan action"
    (⟨·⟩) DynAction.plan fun _ result => ⟨outcomeDiagnostics result⟩

/-- The progress comes first, then the end with its diagnostics. -/
def invokeAction (req : ConfigRequest) : Future (List InvokeEvent) :=
  runUnder crates (service.provider.actionCty req.typeName) (service.provider.handler .action req.typeName)
    req.config (unknownAction req.typeName) "failed to decode action config" "invoke action"
    (fun diagnostics => [.completed diagnostics]) DynAction.invoke fun _ result =>
      result.2.progress.map .progress ++ [.completed (outcomeDiagnostics result)]

/-- Arguments past the fixed parameters are of the variadic one. -/
def decodeArguments (name : String) (signature : FunctionSignature) (arguments : List DynamicValue) :
    Except FunctionError (List Value) :=
  arguments.zipIdx.mapM fun argument =>
    match signature.parameters[argument.2]?.or signature.variadic with
    | none => .error ⟨"function " ++ name.quote ++ " received more arguments than parameters", some argument.2⟩
    | some param => (decodeArgument crates argument.1 param.ty).mapError fun e =>
        ⟨"failed to decode argument " ++ toString argument.2 ++ ": " ++ e.toString, some argument.2⟩

def respondCalled (ty : Ty) (result : Value) : CallResponse :=
  match Service.encodeDynamic crates result ty with
  | .ok dv => ⟨some dv, none⟩
  | .error e => ⟨none, some ⟨"failed to encode result: " ++ e.toString, none⟩⟩

def callFunction (req : CallRequest) : Future CallResponse :=
  match service.provider.decoded .function req.name, service.provider.handler .function req.name with
  | none, _ => pure ⟨none, some ⟨"function " ++ req.name.quote ++ " is not defined by this provider", none⟩⟩
  | some _, none => pure ⟨none, some ⟨"function " ++ req.name.quote ++ " has no handler", none⟩⟩
  | some signature, some handler =>
      match decodeArguments crates req.name signature req.arguments with
      | .error e => pure ⟨none, some e⟩
      | .ok args => do
          let caught ← (Fut.foreign (DynFunction.call handler args)).catchUnwind
          pure <| match caught with
            | .ok (.ok result) => respondCalled crates (FunctionSignature.returnType signature) result
            | .ok (.error e) => ⟨none, some e⟩
            | .error payload =>
                ⟨none, some ⟨"the " ++ req.name.quote ++ " function panicked: " ++ panicMessage payload, none⟩⟩

def defaultStateChunkSize : Int := 4 * 1024 * 1024

def suggestedChunkSize (suggested : Option Int) : Int := (suggested.filter (0 < ·)).getD defaultStateChunkSize

def configureStateStore (req : ConfigureStoreRequest) : Future (ConfigureStoreResponse × ProviderService) :=
  runUnder crates (service.provider.stateStoreCty req.typeName) (service.provider.handler .stateStore req.typeName)
    req.config (service.stateStoreUnavailable req.typeName) "failed to decode state store config"
    "configure state store" (fun diagnostics => ({ diagnostics := diagnostics }, service))
    DynStateStore.configure fun _ result => match result.1 with
      | .ok backend =>
          let chunkSize := suggestedChunkSize req.chunkSize
          ({ diagnostics := pbDiagnostics result.2.warnings, chunkSize := some chunkSize },
            { service with backends := Function.update service.backends req.typeName (some ⟨backend, chunkSize⟩) })
      | .error diags => ({ diagnostics := diagsWithWarnings diags result.2 }, service)

def runBackend {α ρ : Type} (typeName op : String) (refuse : List Diagnostic → ρ)
    (call : DynStateBackend → Handler α) (respond : ConfiguredBackend → Except Diagnostics α × CtxOutputs → ρ) :
    Future ρ :=
  match service.backends typeName with
  | none => pure (refuse (service.stateStoreUnavailable typeName))
  | some backend => respond backend <$> run op [] (call backend.backend)

def lockState (req : LockRequest) : Future LockResponse :=
  service.runBackend req.typeName "lock state" ({ diagnostics := · }) (·.lock req.stateId req.operation)
    fun _ result => match result.1 with
      | .ok lockId => { lockId := lockId, diagnostics := pbDiagnostics result.2.warnings }
      | .error diags => { diagnostics := diagsWithWarnings diags result.2 }

def unlockState (req : UnlockRequest) : Future DiagnosticsResponse :=
  service.runBackend req.typeName "unlock state" (⟨·⟩) (·.unlock req.stateId req.lockId)
    fun _ result => ⟨outcomeDiagnostics result⟩

def getStates (typeName : String) : Future StatesResponse :=
  service.runBackend typeName "get states" ({ diagnostics := · }) (·.states)
    fun _ result => match result.1 with
      | .ok stateId => { stateId := stateId, diagnostics := pbDiagnostics result.2.warnings }
      | .error diags => { diagnostics := diagsWithWarnings diags result.2 }

def deleteState (req : StateRequest) : Future DiagnosticsResponse :=
  service.runBackend req.typeName "delete state" (⟨·⟩) (·.deleteState req.stateId)
    fun _ result => ⟨outcomeDiagnostics result⟩

def chunksFrom (total size : Nat) : Nat → Nat → Bytes → List ReadChunk
  | 0, _, _ => []
  | fuel + 1, start, bytes =>
      if bytes.isEmpty then []
      else
        let chunk := bytes.take size
        { bytes := chunk, totalLength := total, range := some (start, start + chunk.length) } ::
          chunksFrom total size fuel (start + chunk.length) (bytes.drop size)

/-- An empty state is one empty chunk. -/
def chunkState (bytes : Bytes) (chunkSize : Int) : List ReadChunk :=
  if bytes.isEmpty then [{ range := some (0, 0) }]
  else chunksFrom bytes.length (max chunkSize 1).toNat bytes.length 0 bytes

def readStateBytes (req : StateRequest) : Future (List ReadChunk) :=
  service.runBackend req.typeName "read state" (fun diagnostics => [{ diagnostics := diagnostics }])
    (·.readState req.stateId) fun backend result => match result.1 with
      | .ok bytes => chunkState bytes backend.chunkSize ++
          if result.2.warnings.isEmpty then [] else [{ diagnostics := pbDiagnostics result.2.warnings }]
      | .error diags => [{ diagnostics := diagsWithWarnings diags result.2 }]

/-- Drain the chunks: the last metadata, and all the bytes in order. -/
def drainChunks (chunks : List (Except Status WriteChunk)) : Except Status (Option StateRequest × Bytes) :=
  chunks.foldlM (fun (acc : Option StateRequest × Bytes) chunk => do
    let chunk ← chunk
    pure (chunk.meta_.or acc.1, acc.2 ++ chunk.bytes)) (none, [])

def writeStateStream (chunks : List (Except Status WriteChunk)) : Future DiagnosticsResponse :=
  match drainChunks chunks with
  | .error status => pure ⟨errorDiag "failed to receive state bytes" status.message⟩
  | .ok (none, _) =>
      pure ⟨errorDiag "missing write metadata" "the first WriteStateBytes chunk carried no type_name/state_id"⟩
  | .ok (some req, data) =>
      service.runBackend req.typeName "write state" (⟨·⟩) (·.writeState req.stateId data)
        fun _ result => ⟨outcomeDiagnostics result⟩

end ProviderService

/-- A request, indexed by the type of its response. -/
inductive Rpc : Type → Type
  | getMetadata : Rpc (Kind → List String)
  | getProviderSchema : Rpc ((kind : Kind) → String → Option (Parts.real.Schema kind))
  | configureProvider (config : Option DynamicValue) : Rpc DiagnosticsResponse
  | validateProviderConfig (config : Option DynamicValue) : Rpc DiagnosticsResponse
  | validateResourceConfig (req : ConfigRequest) : Rpc DiagnosticsResponse
  | validateDataResourceConfig (req : ConfigRequest) : Rpc DiagnosticsResponse
  | upgradeResourceState (req : UpgradeRequest) : Rpc UpgradeResponse
  | planResourceChange (req : PlanRequest) : Rpc PlanResponse
  | readResource (req : ReadRequest) : Rpc ReadResponse
  | applyResourceChange (req : ApplyRequest) : Rpc ApplyResponse
  | readDataSource (req : ConfigRequest) : Rpc ReadDataResponse
  | validateEphemeralResourceConfig (req : ConfigRequest) : Rpc DiagnosticsResponse
  | openEphemeralResource (req : ConfigRequest) : Rpc OpenResponse
  | renewEphemeralResource (req : EphemeralRequest) : Rpc RenewResponse
  | closeEphemeralResource (req : EphemeralRequest) : Rpc DiagnosticsResponse
  | importResourceState (req : ImportRequest) : Rpc ImportResponse
  | moveResourceState (req : MoveRequest) : Rpc MoveResponse
  | getResourceIdentitySchemas : Rpc (String → Option IdentitySchema)
  | upgradeResourceIdentity (req : UpgradeIdentityRequest) : Rpc UpgradeIdentityResponse
  | generateResourceConfig : Rpc Status
  | validateActionConfig (req : ConfigRequest) : Rpc DiagnosticsResponse
  | planAction (req : ConfigRequest) : Rpc DiagnosticsResponse
  | validateListResourceConfig (req : ConfigRequest) : Rpc DiagnosticsResponse
  | getFunctions : Rpc (String → Option FunctionSignature)
  | callFunction (req : CallRequest) : Rpc CallResponse
  | stopProvider : Rpc Unit
  | validateStateStoreConfig (req : ConfigRequest) : Rpc DiagnosticsResponse
  | configureStateStore (req : ConfigureStoreRequest) : Rpc ConfigureStoreResponse
  | lockState (req : LockRequest) : Rpc LockResponse
  | unlockState (req : UnlockRequest) : Rpc DiagnosticsResponse
  | getStates (typeName : String) : Rpc StatesResponse
  | deleteState (req : StateRequest) : Rpc DiagnosticsResponse
  | writeStateBytes (chunks : List (Except Status WriteChunk)) : Rpc DiagnosticsResponse
  | listResource (req : ListRequest) : Rpc (List ListEvent)
  | readStateBytes (req : StateRequest) : Rpc (List ReadChunk)
  | invokeAction (req : ConfigRequest) : Rpc (List InvokeEvent)

namespace ProviderService

/-- The response to a request, and the service after it. -/
def serve (crates : Crates) (service : ProviderService) {ρ : Type} : Rpc ρ → Future (ρ × ProviderService)
  | .getMetadata => pure (fun kind => (service.provider.schema kind).map Prod.fst, service)
  | .getProviderSchema => pure (fun kind name => service.provider.published kind name, service)
  | .configureProvider config => service.configureProvider crates config
  | .validateProviderConfig config => (·, service) <$> service.validateProviderConfig crates config
  | .validateResourceConfig req => (·, service) <$> service.validateResourceConfig crates req
  | .validateDataResourceConfig req => (·, service) <$> service.validateDataResourceConfig crates req
  | .upgradeResourceState req => (·, service) <$> service.upgradeResourceState crates req
  | .planResourceChange req => (·, service) <$> service.planResourceChange crates req
  | .readResource req => (·, service) <$> service.readResource crates req
  | .applyResourceChange req => (·, service) <$> service.applyResourceChange crates req
  | .readDataSource req => (·, service) <$> service.readDataSource crates req
  | .validateEphemeralResourceConfig req => (·, service) <$> service.validateEphemeralResourceConfig crates req
  | .openEphemeralResource req => (·, service) <$> service.openEphemeralResource crates req
  | .renewEphemeralResource req => (·, service) <$> service.renewEphemeralResource req
  | .closeEphemeralResource req => (·, service) <$> service.closeEphemeralResource req
  | .importResourceState req => (·, service) <$> service.importResourceState crates req
  | .moveResourceState req => (·, service) <$> service.moveResourceState crates req
  | .getResourceIdentitySchemas => pure (service.provider.publishedIdentity, service)
  | .upgradeResourceIdentity req => pure (upgradeResourceIdentity crates service.provider.schemas req, service)
  | .generateResourceConfig => pure (⟨"generate_resource_config is not implemented yet"⟩, service)
  | .validateActionConfig req => (·, service) <$> service.validateActionConfig crates req
  | .planAction req => (·, service) <$> service.planAction crates req
  | .validateListResourceConfig req => (·, service) <$> service.validateListResourceConfig crates req
  | .getFunctions => pure (service.provider.published .function, service)
  | .callFunction req => (·, service) <$> service.callFunction crates req
  | .stopProvider => pure ((), { service with cancelled := true })
  | .validateStateStoreConfig req => (·, service) <$> service.validateStateStoreConfig crates req
  | .configureStateStore req => service.configureStateStore crates req
  | .lockState req => (·, service) <$> service.lockState req
  | .unlockState req => (·, service) <$> service.unlockState req
  | .getStates typeName => (·, service) <$> service.getStates typeName
  | .deleteState req => (·, service) <$> service.deleteState req
  | .writeStateBytes chunks => (·, service) <$> service.writeStateStream chunks
  | .listResource req => (·, service) <$> service.listResource crates req
  | .readStateBytes req => (·, service) <$> service.readStateBytes req
  | .invokeAction req => (·, service) <$> service.invokeAction crates req

end ProviderService

end Plugin

end TofuSdk
