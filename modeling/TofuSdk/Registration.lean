import TofuSdk.Builder
import TofuSdk.Typed

namespace TofuSdk

def TypedError.toString : TypedError → String
  | .reflect message => "reflection error: " ++ message
  | .nonStringKey => "map key was not a string"
  | .unsupported identifier => "unsupported type for a terraform value: " ++ identifier

namespace Plugin

structure ResourceBody where
  version : Int
  block : Block
  identity : Option IdentitySchema

structure ListResourceBody where
  config : Block
  identity : IdentitySchema
  objectType : Ty

structure Parameter where
  name : String
  ty : Ty
  allowNull : Bool
  allowUnknown : Bool

structure FunctionSignature where
  parameters : List Parameter
  variadic : Option Parameter
  returnType : Ty

def SchemaBody : Kind → Type
  | .resource => ResourceBody
  | .listResource => ListResourceBody
  | .function => FunctionSignature
  | .dataSource | .ephemeral | .stateStore | .action => Block

def DynHandler : Kind → Type
  | .resource => DynResource
  | .dataSource => DynDataSource
  | .ephemeral => DynEphemeral
  | .listResource => DynListResource
  | .stateStore => DynStateStore
  | .action => DynAction
  | .function => DynFunction

abbrev Parts.real : Parts where
  Schema := SchemaBody
  Handler := DynHandler
  Identity := IdentitySchema
  identity := ResourceBody.identity

structure Model where
  resourceName : String
  dataSourceName : String
  ephemeralName : String

def Model.dataSourceListName (model : Model) : String := model.dataSourceName ++ "s"

namespace Call

variable {μ : Type}

def resource (model : Model) (schemaVersion : Int) (reflected : Except String ResourceBody) (handler : DynResource) :
    Call Parts.real μ :=
  .register .resource model.resourceName
    ((fun body : ResourceBody => { body with version := schemaVersion }) <$> reflected) handler

def resourceWith (model : Model) (schemaVersion : Int) (reflected : Except String ResourceBody)
    (factory : μ → Authored DynResource) : Call Parts.real μ :=
  .registerWith .resource (by decide) model.resourceName
    ((fun body : ResourceBody => { body with version := schemaVersion }) <$> reflected) factory

def dataSource (model : Model) (reflected : Except String Block) (handler : DynDataSource) : Call Parts.real μ :=
  .register .dataSource model.dataSourceName reflected handler

def dataSourceWith (model : Model) (reflected : Except String Block) (factory : μ → Authored DynDataSource) :
    Call Parts.real μ :=
  .registerWith .dataSource (by decide) model.dataSourceName reflected factory

def dataSourceList (model : Model) (reflected : Except String (Block × List String))
    (handler : List String → DynDataSource) : Call Parts.real μ :=
  .register .dataSource model.dataSourceListName (Prod.fst <$> reflected)
    (handler ((Prod.snd <$> reflected).toOption.getD []))

def dataSourceListWith (model : Model) (reflected : Except String (Block × List String))
    (factory : μ → Authored (List String → DynDataSource)) : Call Parts.real μ :=
  .registerWith .dataSource (by decide) model.dataSourceListName (Prod.fst <$> reflected) fun shared => do
    let handler ← factory shared
    pure (handler ((Prod.snd <$> reflected).toOption.getD []))

def ephemeral (model : Model) (reflected : Except String Block) (handler : DynEphemeral) : Call Parts.real μ :=
  .register .ephemeral model.ephemeralName reflected handler

def ephemeralWith (model : Model) (reflected : Except String Block) (factory : μ → Authored DynEphemeral) :
    Call Parts.real μ :=
  .registerWith .ephemeral (by decide) model.ephemeralName reflected factory

def listResource (model : Model) (reflected : Except String ListResourceBody) (handler : DynListResource) :
    Call Parts.real μ :=
  .register .listResource model.resourceName reflected handler

def listResourceWith (model : Model) (reflected : Except String ListResourceBody)
    (factory : μ → Authored DynListResource) : Call Parts.real μ :=
  .registerWith .listResource (by decide) model.resourceName reflected factory

def stateStore (name : String) (reflected : Except String Block) (handler : DynStateStore) : Call Parts.real μ :=
  .register .stateStore name reflected handler

def stateStoreWith (name : String) (reflected : Except String Block) (factory : μ → Authored DynStateStore) :
    Call Parts.real μ :=
  .registerWith .stateStore (by decide) name reflected factory

def action (name : String) (reflected : Except String Block) (handler : DynAction) : Call Parts.real μ :=
  .register .action name reflected handler

def actionWith (name : String) (reflected : Except String Block) (factory : μ → Authored DynAction) :
    Call Parts.real μ :=
  .registerWith .action (by decide) name reflected factory

def function (name : String) (reflected : Except String FunctionSignature) (handler : DynFunction) :
    Call Parts.real μ :=
  .register .function name reflected handler

def dynResourceWithIdentity (name : String) (version : Int) (block : Block) (identity : Option IdentitySchema)
    (handler : DynResource) : Call Parts.real μ :=
  .register .resource name (.ok ⟨version, block, identity⟩) handler

def dynResource (name : String) (version : Int) (block : Block) (handler : DynResource) : Call Parts.real μ :=
  dynResourceWithIdentity name version block none handler

def dynDataSource (name : String) (block : Block) (handler : DynDataSource) : Call Parts.real μ :=
  .register .dataSource name (.ok block) handler

def dynEphemeral (name : String) (block : Block) (handler : DynEphemeral) : Call Parts.real μ :=
  .register .ephemeral name (.ok block) handler

def dynListResource (name : String) (config : Block) (identity : IdentitySchema) (objectType : Ty)
    (handler : DynListResource) : Call Parts.real μ :=
  .register .listResource name (.ok ⟨config, identity, objectType⟩) handler

def dynStateStore (name : String) (block : Block) (handler : DynStateStore) : Call Parts.real μ :=
  .register .stateStore name (.ok block) handler

def dynAction (name : String) (block : Block) (handler : DynAction) : Call Parts.real μ :=
  .register .action name (.ok block) handler

def dynFunction (name : String) (signature : FunctionSignature) (handler : DynFunction) : Call Parts.real μ :=
  .register .function name (.ok signature) handler

def typedValidateConfig {α : Type} (shape : Shape α) (f : α → Authored Diagnostics) : Call Parts.real μ :=
  .validateConfig fun config => match shape.fill config with
    | .ok cfg => f cfg
    | .error e => pure [Diag.error "failed to decode provider config for validation" e.toString]

end Call

def MetaFn.typed {α μ : Type} (shape : Shape α) (f : α → Authored (Except Diag μ)) : MetaFn μ := fun config =>
  match shape.fill config with
  | .error e => pure (.error [Diag.error "decode provider config" e.toString])
  | .ok cfg => do
      let configured ← f cfg
      pure (configured.mapError ([·]))

end Plugin

end TofuSdk
