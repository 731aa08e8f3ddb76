import TofuSdk.MessagePack
import TofuSdk.Plan
import TofuSdk.Normalize
import TofuSdk.Timeouts

namespace TofuSdk

inductive Severity
  | error
  | warning
deriving DecidableEq

structure Diag where
  severity : Severity
  summary : String
  detail : String
  attributePath : List String
deriving DecidableEq

def Diag.error (summary detail : String) : Diag := ⟨.error, summary, detail, []⟩

abbrev Diagnostics := List Diag

abbrev SystemTime := Int

/-- What a handler may do to its context while it runs. -/
inductive CtxOp
  | warning (warning : Diag)
  | setPrivate (bytes : Bytes)
  | setRenewAt (time : SystemTime)
  | progress (message : String)

structure CtxOutputs where
  warnings : Diagnostics
  privateOut : Option Bytes
  renewAt : Option SystemTime
  progress : List String

namespace CtxOutputs

def empty : CtxOutputs := ⟨[], none, none, []⟩

def step (outs : CtxOutputs) : CtxOp → CtxOutputs
  | .warning warning => { outs with warnings := outs.warnings ++ [warning] }
  | .setPrivate bytes => { outs with privateOut := some bytes }
  | .setRenewAt time => { outs with renewAt := some time }
  | .progress message => { outs with progress := outs.progress ++ [message] }

end CtxOutputs

def intoOutputs (ops : List CtxOp) : CtxOutputs := ops.foldl CtxOutputs.step CtxOutputs.empty

/-- How a call ends. A pending one has not returned by its deadline, or never
returns when it has none. A panic carries a message when its payload is a string. -/
inductive Finish (α : Type)
  | returned (result : Except Diagnostics α)
  | panicked (payload : Option String)
  | pending

/-- One run of a handler. -/
structure Call (α : Type) where
  ops : List CtxOp
  finish : Finish α

abbrev Handler (α : Type) := Bytes → Call α

namespace Timeouts

def timedOut (operation : String) (limit : Duration) : Diagnostics :=
  [Diag.error (operation ++ " timed out")
    ("the " ++ operation ++ " operation exceeded its configured timeout of " ++ humanize limit)]

/-- What the handler did to its context before the deadline stays. -/
def bounded {α : Type} (operation : String) (limit : Option Duration) (handler : Handler α) : Handler α :=
  fun privateIn =>
    let call := handler privateIn
    match limit, call.finish with
    | some limit, .pending => ⟨call.ops, .returned (.error (timedOut operation limit))⟩
    | _, _ => call

end Timeouts

def panicMessage : Option String → String
  | some message => message
  | none => "unknown panic"

structure Dispatch (α : Type) where
  privateIn : Bytes
  ops : List CtxOp
  result : Except Diagnostics α

def Dispatch.outs {α : Type} (dispatch : Dispatch α) : CtxOutputs := intoOutputs dispatch.ops

def catchPanic {α : Type} (op : String) : Finish α → Option (Except Diagnostics α)
  | .returned result => some result
  | .panicked payload => some (.error [Diag.error ("the " ++ op ++ " handler panicked") (panicMessage payload)])
  | .pending => none

def run {α : Type} (op : String) (privateIn : Bytes) (handler : Handler α) : Option (Dispatch α) :=
  let call := handler privateIn
  (catchPanic op call.finish).map fun result => ⟨privateIn, call.ops, result⟩

structure DynResource where
  create (planned : Value) : Handler Value
  read (current : Value) : Handler (Option Value)
  update (planned prior : Value) : Handler Value
  delete (prior : Value) : Handler Unit
  import_ (id : String) : Handler Value
  upgrade (fromVersion : Int) (prior : Value) : Handler Value
  modifyPlan (prior proposed : Value) : Handler PlanModifications
  moveState (sourceTypeName : String) (sourceState : Value) : Handler Value
  semanticEquality : Canon

structure DynListItem where
  displayName : String
  object : Value

structure DynListResource where
  list (config : Value) : Handler (List DynListItem)

structure IdentityAttribute where
  name : String
  ty : Ty

structure IdentitySchema where
  attributes : List IdentityAttribute

structure ResourceSchema where
  name : String
  version : Int
  block : Block
  identity : Option IdentitySchema

structure ListResourceSchema where
  name : String
  config : Block
  identity : IdentitySchema
  objectType : Ty

structure ProviderSchema where
  resources : List ResourceSchema
  listResources : List ListResourceSchema

/-- The handlers that exist once the provider is configured. -/
structure Configured where
  resources : String → Option DynResource
  listResources : String → Option DynListResource

structure Provider where
  schema : ProviderSchema
  eager : String → Option DynResource
  eagerList : String → Option DynListResource
  configured : Option Configured

namespace Provider

variable (provider : Provider)

def resourceSchema (name : String) : Option ResourceSchema := provider.schema.resources.find? (·.name == name)

def resourceBlock (name : String) : Option Block := (provider.resourceSchema name).map (·.block)

def resourceCty (name : String) : Option Ty := (provider.resourceBlock name).map Block.ctyType

def resourceVersion (name : String) : Option Int := (provider.resourceSchema name).map (·.version)

def resourceIdentity (name : String) : Option IdentitySchema := (provider.resourceSchema name).bind (·.identity)

variable {provider} in
theorem resourceCty_eq {name : String} {block : Block} (h : provider.resourceBlock name = some block) :
    provider.resourceCty name = some block.ctyType := by
  rw [resourceCty, h, Option.map_some]

def resourceHandler (name : String) : Option DynResource :=
  (provider.configured.bind (·.resources name)).or (provider.eager name)

def listResourceHandler (name : String) : Option DynListResource :=
  (provider.configured.bind (·.listResources name)).or (provider.eagerList name)

def listResourceSchema (name : String) : Option ListResourceSchema :=
  provider.schema.listResources.find? (·.name == name)

end Provider

end TofuSdk
