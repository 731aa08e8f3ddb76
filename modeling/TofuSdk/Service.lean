import TofuSdk.Decode
import TofuSdk.Handler

namespace TofuSdk

namespace Service

structure DynamicValue where
  msgpack : Bytes
  json : Bytes
deriving DecidableEq

structure Diagnostic where
  severity : Severity
  summary : String
  detail : String
  attributePath : Option AttributePath
deriving DecidableEq

structure ResourceIdentityData where
  identityData : Option DynamicValue
deriving DecidableEq

/-- Stored state as cty JSON. -/
structure RawState where
  json : Bytes

structure UpgradeRequest where
  typeName : String
  version : Int
  rawState : Option RawState

structure UpgradeResponse where
  upgradedState : Option DynamicValue := none
  diagnostics : List Diagnostic := []
deriving DecidableEq

structure PlanRequest where
  typeName : String
  priorState : Option DynamicValue
  proposedNewState : Option DynamicValue
  priorPrivate : Bytes
  plannedPrivate : Bytes

structure PlanResponse where
  plannedState : Option DynamicValue := none
  requiresReplace : List AttributePath := []
  plannedPrivate : Bytes := []
  diagnostics : List Diagnostic := []
  plannedIdentity : Option ResourceIdentityData := none
deriving DecidableEq

structure ReadRequest where
  typeName : String
  currentState : Option DynamicValue
  private_ : Bytes

structure ReadResponse where
  newState : Option DynamicValue := none
  private_ : Bytes := []
  diagnostics : List Diagnostic := []
  newIdentity : Option ResourceIdentityData := none
deriving DecidableEq

structure ApplyRequest where
  typeName : String
  priorState : Option DynamicValue
  plannedState : Option DynamicValue
  config : Option DynamicValue
  plannedPrivate : Bytes

structure ApplyResponse where
  newState : Option DynamicValue := none
  private_ : Bytes := []
  diagnostics : List Diagnostic := []
  newIdentity : Option ResourceIdentityData := none
deriving DecidableEq

structure ImportRequest where
  typeName : String
  id : String

structure ImportedResource where
  typeName : String
  state : Option DynamicValue := none
  private_ : Bytes := []
  identity : Option ResourceIdentityData := none
deriving DecidableEq

structure ImportResponse where
  importedResources : List ImportedResource := []
  diagnostics : List Diagnostic := []
deriving DecidableEq

structure MoveRequest where
  sourceTypeName : String
  targetTypeName : String
  sourceState : Option RawState
  sourcePrivate : Bytes

structure MoveResponse where
  targetState : Option DynamicValue := none
  targetPrivate : Bytes := []
  diagnostics : List Diagnostic := []
  targetIdentity : Option ResourceIdentityData := none
deriving DecidableEq

structure UpgradeIdentityRequest where
  typeName : String
  rawIdentity : Option RawState

structure UpgradeIdentityResponse where
  upgradedIdentity : Option ResourceIdentityData := none
  diagnostics : List Diagnostic := []
deriving DecidableEq

structure ListRequest where
  typeName : String
  config : Option DynamicValue
  includeResourceObject : Bool
  limit : Int

structure ListEvent where
  identity : Option ResourceIdentityData := none
  displayName : String := ""
  resourceObject : Option DynamicValue := none
  diagnostic : List Diagnostic := []
deriving DecidableEq

/-- What the context of a handler call showed, what the handler did to it, and
whether the handler returned a value. -/
structure CtxCall where
  privateIn : Bytes
  ops : List CtxOp
  returned : Bool

/-- A response, with the handler call behind it if there was one. -/
structure Answer (ρ : Type) where
  response : ρ
  call : Option CtxCall

def refuse {ρ : Type} (response : ρ) : Option (Answer ρ) := some ⟨response, none⟩

def answer {ρ α : Type} (dispatch : Dispatch α) (response : ρ) : Answer ρ :=
  ⟨response, some ⟨dispatch.privateIn, dispatch.ops, dispatch.result.isOk⟩⟩

def pbDiagnostics (diags : Diagnostics) : List Diagnostic :=
  diags.map fun d => {
    severity := d.severity
    summary := d.summary
    detail := d.detail
    attributePath := if d.attributePath.isEmpty then none
      else some ⟨d.attributePath.map fun name => ⟨some (.attributeName name)⟩⟩ }

def errorDiag (summary detail : String) : List Diagnostic := pbDiagnostics [Diag.error summary detail]

def diagsWithWarnings (diags : Diagnostics) (outs : CtxOutputs) : List Diagnostic :=
  pbDiagnostics (diags ++ outs.warnings)

def unknownResource (name : String) : List Diagnostic :=
  errorDiag "unknown resource type" ("the provider has no resource named `" ++ name ++ "`")

def unknownListResource (name : String) : List Diagnostic :=
  errorDiag "unknown list resource type" ("the provider has no list resource named `" ++ name ++ "`")

section

variable (crates : Crates)

/-- MessagePack first, then cty JSON, then null. -/
def decodeArgument (dv : DynamicValue) (ty : Ty) : Except CodecError Value :=
  if !dv.msgpack.isEmpty then decodeMsgpack crates dv.msgpack ty
  else if !dv.json.isEmpty then do
    let json ← (crates.fromSlice dv.json).mapError .decode
    decodeJson crates json ty
  else .ok .null

def decodeDynamic (dv : Option DynamicValue) (ty : Ty) : Except CodecError Value :=
  match dv with
  | some d => decodeArgument crates d ty
  | none => .ok .null

def encodeDynamic (value : Value) (ty : Ty) : Except CodecError DynamicValue :=
  (⟨·, []⟩) <$> encodeMsgpack crates value ty

def identityValues (fields : Fields) (attributes : List IdentityAttribute) : Option (List (String × Value)) :=
  attributes.mapM fun attr => (fields.get? attr.name).bind fun value =>
    if value.isUnknown || value.isNull then none else some (attr.name, value)

def knownIdentityData (state : Value) (identity : IdentitySchema) : Option ResourceIdentityData :=
  match state with
  | .object fields => do
      let data ← identityValues fields identity.attributes
      let attrs := identity.attributes.map fun attr => ⟨attr.name, attr.ty, false⟩
      let dv ← (encodeDynamic crates (.object (OrdMap.ofList data)) (.object attrs)).toOption
      pure ⟨some dv⟩
  | _ => none

/-- New private state overrides the incoming one, also when the state cannot
be encoded. -/
def respondState {ρ : Type} (value : Value) (ty : Ty) (private_ : Bytes) (outs : CtxOutputs)
    (build : Option DynamicValue → Bytes → List Diagnostic → ρ) : ρ :=
  let private_ := outs.privateOut.getD private_
  let diagnostics := pbDiagnostics outs.warnings
  match encodeDynamic crates value ty with
  | .ok dv => build (some dv) private_ diagnostics
  | .error e => build none private_ (diagnostics ++ errorDiag "failed to encode state" e.toString)

variable (provider : Provider)

def respondUpgraded (upgraded : Except String Value) (ty : Ty) (warnings : Diagnostics) : UpgradeResponse :=
  match (do let v ← upgraded; (encodeDynamic crates v ty).mapError CodecError.toString) with
  | .ok dv => { upgradedState := some dv, diagnostics := pbDiagnostics warnings }
  | .error e => { diagnostics := pbDiagnostics warnings ++ errorDiag "failed to upgrade state" e }

def migrate (req : UpgradeRequest) (json : Json) (ty : Ty) : Option (Answer UpgradeResponse) :=
  match provider.resourceHandler req.typeName with
  | none => refuse { diagnostics := unknownResource req.typeName }
  | some handler =>
      match decodeJsonValue crates json with
      | .error e => refuse { diagnostics := errorDiag "failed to read prior state" e.toString }
      | .ok prior =>
          (run "upgrade resource state" [] (handler.upgrade req.version prior)).map fun dispatch =>
            answer dispatch <| match dispatch.result with
              | .ok v => respondUpgraded crates (.ok v) ty dispatch.outs.warnings
              | .error diags => { diagnostics := diagsWithWarnings diags dispatch.outs }

def upgradeResourceState (req : UpgradeRequest) : Option (Answer UpgradeResponse) :=
  match provider.resourceCty req.typeName, provider.resourceVersion req.typeName with
  | some ty, some currentVersion =>
      match req.rawState.map (·.json) with
      | none | some [] => refuse { upgradedState := (encodeDynamic crates .null ty).toOption }
      | some raw =>
          match crates.fromSlice raw with
          | .error e => refuse { diagnostics := errorDiag "failed to parse prior state" e }
          | .ok json =>
              if currentVersion ≤ req.version then
                refuse (respondUpgraded crates ((decodeJson crates json ty).mapError CodecError.toString) ty [])
              else migrate crates provider req json ty
  | _, _ => refuse { diagnostics := unknownResource req.typeName }

def respondPlan (req : PlanRequest) (ty : Ty) (plan : Plan) (plannedPrivate : Bytes) (warnings : Diagnostics) :
    PlanResponse :=
  match encodeDynamic crates plan.planned ty with
  | .ok dv => {
      plannedState := some dv
      requiresReplace := plan.requiresReplace
      plannedPrivate := plannedPrivate
      diagnostics := pbDiagnostics warnings
      plannedIdentity := (provider.resourceIdentity req.typeName).bind (knownIdentityData crates plan.planned) }
  | .error e => { diagnostics := pbDiagnostics warnings ++ errorDiag "failed to encode planned state" e.toString }

def planDecoded (req : PlanRequest) (ty : Ty) (block : Block) (prior proposed : Value) :
    Option (Answer PlanResponse) :=
  match provider.resourceHandler req.typeName with
  | none => refuse (respondPlan crates provider req ty (plan prior proposed block) req.plannedPrivate [])
  | some handler =>
      let plan := plan prior (keepPrior prior proposed handler.semanticEquality) block
      (run "modify_plan" req.plannedPrivate (handler.modifyPlan prior plan.planned)).map fun dispatch =>
        answer dispatch <| match dispatch.result with
          | .ok mods => respondPlan crates provider req ty (applyModifications plan mods prior)
              (dispatch.outs.privateOut.getD req.plannedPrivate) dispatch.outs.warnings
          | .error diags => { diagnostics := diagsWithWarnings diags dispatch.outs }

def planResourceChange (req : PlanRequest) : Option (Answer PlanResponse) :=
  match provider.resourceCty req.typeName, provider.resourceBlock req.typeName with
  | some ty, some block =>
      match decodeDynamic crates req.priorState ty with
      | .error e => refuse { diagnostics := errorDiag "failed to decode prior state" e.toString }
      | .ok prior =>
          match decodeDynamic crates req.proposedNewState ty with
          | .error e => refuse { diagnostics := errorDiag "failed to decode proposed state" e.toString }
          | .ok proposed => planDecoded crates provider req ty block prior proposed
  | _, _ => refuse { diagnostics := unknownResource req.typeName }

def respondRead (req : ReadRequest) (ty : Ty) (block : Block) (new : Option Value) (outs : CtxOutputs) :
    ReadResponse :=
  let newValue := WriteOnly.strip (new.getD .null) block
  let newIdentity := (provider.resourceIdentity req.typeName).bind (knownIdentityData crates newValue)
  respondState crates newValue ty req.private_ outs fun newState private_ diagnostics =>
    ⟨newState, private_, diagnostics, newIdentity⟩

def readResource (req : ReadRequest) : Option (Answer ReadResponse) :=
  match provider.resourceCty req.typeName, provider.resourceBlock req.typeName,
      provider.resourceHandler req.typeName with
  | some ty, some block, some handler =>
      match decodeDynamic crates req.currentState ty with
      | .error e => refuse { diagnostics := errorDiag "failed to decode current state" e.toString }
      | .ok current =>
          match Timeouts.forOperation current "read" with
          | .error _ => none
          | .ok limit =>
              (run "read resource" req.private_ (Timeouts.bounded "read" limit (handler.read current))).map
                fun dispatch => answer dispatch <| match dispatch.result with
                  | .ok new => respondRead crates provider req ty block new dispatch.outs
                  | .error diags => { diagnostics := diagsWithWarnings diags dispatch.outs }
  | _, _, _ => refuse { diagnostics := unknownResource req.typeName }

/-- The planned value as a handler sees it, its write-only values taken from
the configuration. -/
def withConfig (config : Option DynamicValue) (ty : Ty) (block : Block) (planned : Value) :
    Except CodecError Value :=
  if WriteOnly.blockHas block && !planned.isNull then do
    let config ← decodeDynamic crates config ty
    pure (WriteOnly.mergeFromConfig planned config block)
  else .ok planned

def action (planned prior : Value) : String :=
  if planned.isNull then "delete" else if prior.isNull then "create" else "update"

def deleted (handler : Handler Unit) : Handler Value := fun privateIn =>
  let call := handler privateIn
  ⟨call.ops, match call.finish with
    | .returned result => .returned ((fun _ => .null) <$> result)
    | .panicked payload => .panicked payload
    | .pending => .pending⟩

def dispatchApply (handler : DynResource) (planned prior : Value) (limit : Option Duration) (privateIn : Bytes) :
    Option (Dispatch Value) :=
  if planned.isNull then run "delete" privateIn (Timeouts.bounded "delete" limit (deleted (handler.delete prior)))
  else if prior.isNull then run "create" privateIn (Timeouts.bounded "create" limit (handler.create planned))
  else run "update" privateIn (Timeouts.bounded "update" limit (handler.update planned prior))

def respondApply (req : ApplyRequest) (ty : Ty) (block : Block) (prior : Value)
    (result : Except Diagnostics Value) (outs : CtxOutputs) : ApplyResponse :=
  match result with
  | .ok new =>
      let newValue := WriteOnly.strip new block
      let newIdentity := (provider.resourceIdentity req.typeName).bind (knownIdentityData crates newValue)
      respondState crates newValue ty req.plannedPrivate outs fun newState private_ diagnostics =>
        ⟨newState, private_, diagnostics, newIdentity⟩
  | .error diags =>
      { newState := (encodeDynamic crates prior ty).toOption, diagnostics := diagsWithWarnings diags outs }

/-- The deadline of a destroy is in the prior state, that of any other action
in the planned state. -/
def applyDecoded (req : ApplyRequest) (ty : Ty) (block : Block) (handler : DynResource) (prior planned : Value) :
    Option (Answer ApplyResponse) :=
  let limitSource := if planned.isNull then prior else planned
  match Timeouts.forOperation limitSource (action planned prior) with
  | .error _ => none
  | .ok limit =>
      (dispatchApply handler planned prior limit req.plannedPrivate).map fun dispatch =>
        answer dispatch (respondApply crates provider req ty block prior dispatch.result dispatch.outs)

def applyResourceChange (req : ApplyRequest) : Option (Answer ApplyResponse) :=
  match provider.resourceCty req.typeName, provider.resourceBlock req.typeName,
      provider.resourceHandler req.typeName with
  | some ty, some block, some handler =>
      match decodeDynamic crates req.priorState ty with
      | .error e => refuse { diagnostics := errorDiag "failed to decode prior state" e.toString }
      | .ok prior =>
          match decodeDynamic crates req.plannedState ty with
          | .error e => refuse { diagnostics := errorDiag "failed to decode planned state" e.toString }
          | .ok planned =>
              match withConfig crates req.config ty block planned with
              | .error e => refuse { diagnostics := errorDiag "failed to decode config" e.toString }
              | .ok planned => applyDecoded crates provider req ty block handler prior planned
  | _, _, _ => refuse { diagnostics := unknownResource req.typeName }

def respondImported (req : ImportRequest) (ty : Ty) (state : Value) (outs : CtxOutputs) : ImportResponse :=
  match encodeDynamic crates state ty with
  | .ok dv => {
      importedResources := [{
        typeName := req.typeName
        state := some dv
        identity := (provider.resourceIdentity req.typeName).bind (knownIdentityData crates state) }]
      diagnostics := pbDiagnostics outs.warnings }
  | .error e =>
      { diagnostics := pbDiagnostics outs.warnings ++ errorDiag "failed to encode imported state" e.toString }

def importResourceState (req : ImportRequest) : Option (Answer ImportResponse) :=
  match provider.resourceCty req.typeName, provider.resourceHandler req.typeName with
  | some ty, some handler =>
      (run "import resource state" [] (handler.import_ req.id)).map fun dispatch =>
        answer dispatch <| match dispatch.result with
          | .ok state => respondImported crates provider req ty state dispatch.outs
          | .error diags => { diagnostics := diagsWithWarnings diags dispatch.outs }
  | _, _ => refuse { diagnostics := unknownResource req.typeName }

def respondMoved (req : MoveRequest) (ty : Ty) (target : Value) (outs : CtxOutputs) : MoveResponse :=
  match encodeDynamic crates target ty with
  | .ok dv => {
      targetState := some dv
      targetPrivate := outs.privateOut.getD req.sourcePrivate
      diagnostics := pbDiagnostics outs.warnings }
  | .error e => { diagnostics := errorDiag "failed to encode moved state" e.toString }

def moveResourceState (req : MoveRequest) : Option (Answer MoveResponse) :=
  match provider.resourceCty req.targetTypeName, provider.resourceHandler req.targetTypeName with
  | some ty, some handler =>
      match req.sourceState.map (·.json) with
      | none | some [] =>
          refuse { diagnostics := errorDiag "missing source state" "MoveResourceState requires JSON source state" }
      | some raw =>
          match crates.fromSlice raw with
          | .error e => refuse { diagnostics := errorDiag "failed to parse source state" e }
          | .ok json =>
              match decodeJsonValue crates json with
              | .error e => refuse { diagnostics := errorDiag "failed to read source state" e.toString }
              | .ok sourceState =>
                  (run "move resource state" req.sourcePrivate
                    (handler.moveState req.sourceTypeName sourceState)).map fun dispatch =>
                      answer dispatch <| match dispatch.result with
                        | .ok target => respondMoved crates req ty target dispatch.outs
                        | .error diags => { diagnostics := diagsWithWarnings diags dispatch.outs }
  | _, _ => refuse { diagnostics := unknownResource req.targetTypeName }

/-- Stored identity has no migration: it is read without a schema and goes out
under the current type. -/
def upgradeResourceIdentity (req : UpgradeIdentityRequest) : UpgradeIdentityResponse :=
  match provider.resourceIdentity req.typeName with
  | none => { diagnostics := unknownResource req.typeName }
  | some identity =>
      match req.rawIdentity.map (·.json) with
      | none | some [] =>
          { diagnostics := errorDiag "missing identity" "UpgradeResourceIdentity requires JSON identity" }
      | some raw =>
          match crates.fromSlice raw with
          | .error e => { diagnostics := errorDiag "failed to parse stored identity" e }
          | .ok json =>
              match decodeJsonValue crates json with
              | .error e => { diagnostics := errorDiag "failed to read stored identity" e.toString }
              | .ok value =>
                  match knownIdentityData crates value identity with
                  | some data => { upgradedIdentity := some data }
                  | none => {
                      diagnostics := errorDiag "invalid stored identity"
                        "the stored identity is missing one or more attributes" }

def listEvent (schema : ListResourceSchema) (includeObject : Bool) (item : DynListItem) : ListEvent :=
  let identity := knownIdentityData crates item.object schema.identity
  let missing := if identity.isNone then errorDiag "list result is missing identity data"
      ("the listed instance \"" ++ item.displayName ++ "\" did not yield all identity attributes")
    else []
  if includeObject then
    match encodeDynamic crates item.object schema.objectType with
    | .ok dv => {
        identity := identity
        displayName := item.displayName
        resourceObject := some dv
        diagnostic := missing }
    | .error e => {
        identity := identity
        displayName := item.displayName
        diagnostic := missing ++ errorDiag "failed to encode list resource object" e.toString }
  else { identity := identity, displayName := item.displayName, diagnostic := missing }

def truncate (limit : Int) (items : List DynListItem) : List DynListItem :=
  if 0 < limit ∧ limit < items.length then items.take limit.toNat else items

def respondListed (req : ListRequest) (schema : ListResourceSchema) (items : List DynListItem)
    (outs : CtxOutputs) : List ListEvent :=
  (truncate req.limit items).map (listEvent crates schema req.includeResourceObject) ++
    if outs.warnings.isEmpty then [] else [{ diagnostic := pbDiagnostics outs.warnings }]

def listResource (req : ListRequest) : Option (Answer (List ListEvent)) :=
  match provider.listResourceSchema req.typeName, provider.listResourceHandler req.typeName with
  | some schema, some handler =>
      match decodeDynamic crates req.config schema.config.ctyType with
      | .error e => refuse [{ diagnostic := errorDiag "failed to decode list config" e.toString }]
      | .ok config =>
          (run "list resource" [] (handler.list config)).map fun dispatch =>
            answer dispatch <| match dispatch.result with
              | .ok items => respondListed crates req schema items dispatch.outs
              | .error diags => [{ diagnostic := diagsWithWarnings diags dispatch.outs }]
  | _, _ => refuse [{ diagnostic := unknownListResource req.typeName }]

end

section

variable {crates : Crates}

theorem decodeDynamic_of_write (hc : crates.Lawful) {mp : Mp} {bytes : Bytes} (h : crates.writeValue mp = .ok bytes)
    (json : Bytes) (ty : Ty) : decodeDynamic crates (some ⟨bytes, json⟩) ty = fromMp crates mp ty := by
  have hne : bytes.isEmpty = false := by
    cases bytes with
    | nil => exact absurd (hc.read mp [] h) (hc.eof mp)
    | cons b bs => rfl
  simp [decodeDynamic, decodeArgument, decodeMsgpack, hne, hc.read mp bytes h, Except.mapError]

theorem decodeDynamic_of_encodeDynamic (hc : crates.Lawful) {value : Value} {ty : Ty} {dv : DynamicValue}
    (h : encodeDynamic crates value ty = .ok dv) :
    ∃ mp, toMp crates value ty = .ok mp ∧ crates.writeValue mp = .ok dv.msgpack ∧
      ∀ ty', decodeDynamic crates (some dv) ty' = fromMp crates mp ty' := by
  obtain ⟨bytes, hbytes, rfl⟩ := Outcome.map_eq_ok.mp h
  obtain ⟨mp, hmp, hwrite⟩ := Outcome.bind_eq_ok.mp hbytes
  have hwrite := Outcome.mapError_eq_ok.mp hwrite
  exact ⟨mp, hmp, hwrite, decodeDynamic_of_write hc hwrite []⟩

end

end Service

end TofuSdk
