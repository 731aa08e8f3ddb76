import TofuSdk.Traits
import Mathlib.Logic.Function.Basic
import Mathlib.Logic.Relation

namespace TofuSdk

namespace Plugin

inductive Kind
  | resource
  | dataSource
  | ephemeral
  | listResource
  | stateStore
  | action
  | function
deriving DecidableEq

def Kind.backed : List Kind := [.resource, .dataSource, .ephemeral, .listResource, .stateStore, .action]

/-- The schemas and handlers that a builder puts together. The builder looks
at neither. -/
structure Parts where
  Schema : Kind → Type
  Handler : Kind → Type
  Identity : Type
  identity : Schema .resource → Option Identity

abbrev HandlerMap (parts : Parts) := (kind : Kind) → String → Option (parts.Handler kind)

def HandlerMap.empty {parts : Parts} : HandlerMap parts := fun _ _ => none

def HandlerMap.insert {parts : Parts} (handlers : HandlerMap parts) (kind : Kind) (name : String)
    (handler : parts.Handler kind) : HandlerMap parts :=
  Function.update handlers kind (Function.update (handlers kind) name (some handler))

abbrev MetaFn (μ : Type) := Value → Authored (Except Diagnostics μ)

abbrev DynConfigure := Value → Authored (Except Diagnostics Unit)

abbrev DynValidateConfig := Value → Authored Diagnostics

inductive BuildError
  | reflect (name source : String)
  | missingConfigure
deriving DecidableEq

structure Provider (parts : Parts) where
  /-- The provider's own configuration block. -/
  block : Option Block
  schema : (kind : Kind) → List (String × parts.Schema kind)
  eager : HandlerMap parts
  configureFn : Option (Value → Authored (Except Diagnostics (HandlerMap parts)))
  configured : Option (HandlerMap parts)
  dynConfigure : Option DynConfigure
  validateConfig : Option DynValidateConfig

namespace Provider

variable {parts : Parts} (provider : Provider parts)

/-- The schema that a service decodes and encodes with: the first of the name. -/
def decoded (kind : Kind) (name : String) : Option (parts.Schema kind) :=
  ((provider.schema kind).find? (·.1 == name)).map (·.2)

/-- The emitted maps keep the last schema of a name. -/
def published (kind : Kind) (name : String) : Option (parts.Schema kind) :=
  (OrdMap.ofList (provider.schema kind)).get? name

def publishedIdentity (name : String) : Option parts.Identity :=
  (OrdMap.ofList ((provider.schema .resource).filterMap fun entry =>
    (parts.identity entry.2).map (entry.1, ·))).get? name

/-- Configured handlers take precedence over eager ones. -/
def handler (kind : Kind) (name : String) : Option (parts.Handler kind) :=
  match kind with
  | .function => provider.eager .function name
  | kind => (provider.configured.bind (· kind name)).or (provider.eager kind name)

def providerConfigTy : Ty := (provider.block.map Block.ctyType).getD (.object [])

def validate (config : Value) : Authored Diagnostics :=
  match provider.validateConfig with
  | some handler => handler config
  | none => pure []

def configureDyn (config : Value) : Authored (Except Diagnostics Unit) :=
  match provider.dynConfigure with
  | some handler => handler config
  | none => pure (.ok ())

/-- The frontend's own callback first, then the typed meta and what is built
from it, once. -/
def configure (config : Value) : Authored (Except Diagnostics (Provider parts)) := do
  let dyn ← provider.configureDyn config
  match dyn, provider.configureFn, provider.configured with
  | .error diags, _, _ => pure (.error diags)
  | .ok _, some configure, none => do
      match ← configure config with
      | .ok configured => pure (.ok { provider with configured := some configured })
      | .error diags => pure (.error diags)
  | .ok _, _, _ => pure (.ok provider)

/-- A configuration that returned no error, and the provider after it. One
that fails leaves the provider as it was. -/
def ConfiguredTo (provider next : Provider parts) : Prop :=
  ∃ config, provider.configure config = .returned (.ok next)

/-- What a provider may have become. -/
def Reaches : Provider parts → Provider parts → Prop := Relation.ReflTransGen ConfiguredTo

end Provider

structure ProviderBuilder (parts : Parts) (μ : Type) where
  provider : Option Block
  schema : (kind : Kind) → List (String × parts.Schema kind)
  handlers : HandlerMap parts
  factories : (kind : Kind) → List (String × (μ → Authored (parts.Handler kind)))
  configureFn : Option (MetaFn μ)
  dynConfigure : Option DynConfigure
  validateConfig : Option DynValidateConfig
  error : Option BuildError

/-- A call on the builder. A reflected schema may have failed. -/
inductive Call (parts : Parts) (μ : Type)
  | providerConfig (block : Except String Block)
  | register (kind : Kind) (name : String) (schema : Except String (parts.Schema kind))
      (handler : parts.Handler kind)
  | registerWith (kind : Kind) (backed : kind ∈ Kind.backed) (name : String)
      (schema : Except String (parts.Schema kind)) (factory : μ → Authored (parts.Handler kind))
  | dynConfigure (handler : DynConfigure)
  | validateConfig (handler : DynValidateConfig)

namespace ProviderBuilder

variable {parts : Parts} {μ : Type} (builder : ProviderBuilder parts μ)

def empty : ProviderBuilder parts μ where
  provider := none
  schema _ := []
  handlers := HandlerMap.empty
  factories _ := []
  configureFn := none
  dynConfigure := none
  validateConfig := none
  error := none

def record (name source : String) : ProviderBuilder parts μ :=
  { builder with error := builder.error.or (some (.reflect name source)) }

def push (kind : Kind) (name : String) (schema : parts.Schema kind) : ProviderBuilder parts μ :=
  { builder with schema := Function.update builder.schema kind (builder.schema kind ++ [(name, schema)]) }

def install (kind : Kind) (name : String) (handler : parts.Handler kind) : ProviderBuilder parts μ :=
  { builder with handlers := builder.handlers.insert kind name handler }

def defer (kind : Kind) (name : String) (factory : μ → Authored (parts.Handler kind)) : ProviderBuilder parts μ :=
  { builder with
    factories := Function.update builder.factories kind (builder.factories kind ++ [(name, factory)]) }

def call : Call parts μ → ProviderBuilder parts μ
  | .providerConfig (.ok block) => { builder with provider := some block }
  | .providerConfig (.error source) => builder.record "provider" source
  | .register kind name (.ok schema) handler => (builder.push kind name schema).install kind name handler
  | .registerWith kind _ name (.ok schema) factory => (builder.push kind name schema).defer kind name factory
  | .register _ name (.error source) _ | .registerWith _ _ name (.error source) _ => builder.record name source
  | .dynConfigure handler => { builder with dynConfigure := some handler }
  | .validateConfig handler => { builder with validateConfig := some handler }

def configure {ν : Type} (builder : ProviderBuilder parts Unit) (metaFn : MetaFn ν) : ProviderBuilder parts ν :=
  { builder with
    factories := fun _ => []
    configureFn := some metaFn }

def buildKind (shared : μ) (kind : Kind) (handlers : HandlerMap parts) : Authored (HandlerMap parts) :=
  (builder.factories kind).foldlM (fun handlers factory => do
    let handler ← factory.2 shared
    pure (handlers.insert kind factory.1 handler)) handlers

def buildHandlers (shared : μ) : Authored (HandlerMap parts) :=
  Kind.backed.foldlM (fun handlers kind => builder.buildKind shared kind handlers) HandlerMap.empty

def configureHandlers (metaFn : MetaFn μ) (config : Value) : Authored (Except Diagnostics (HandlerMap parts)) := do
  match ← metaFn config with
  | .ok shared => do
      let handlers ← builder.buildHandlers shared
      pure (.ok handlers)
  | .error diags => pure (.error diags)

def build : Except BuildError (Provider parts) :=
  match builder.error, builder.configureFn with
  | some error, _ => .error error
  | none, none =>
      if Kind.backed.all fun kind => (builder.factories kind).isEmpty then .ok (provider none)
      else .error .missingConfigure
  | none, some metaFn => .ok (provider (some (builder.configureHandlers metaFn)))
where
  provider (configureFn : Option (Value → Authored (Except Diagnostics (HandlerMap parts)))) : Provider parts := {
    block := builder.provider
    schema := builder.schema
    eager := builder.handlers
    configureFn := configureFn
    configured := none
    dynConfigure := builder.dynConfigure
    validateConfig := builder.validateConfig }

end ProviderBuilder

/-- A sequence of calls on a builder, up to its build. Only a builder without
a meta type can be given one. -/
inductive Calls (parts : Parts) : Type → Type 1
  | build {μ : Type} : Calls parts μ
  | andThen {μ : Type} (call : Call parts μ) (rest : Calls parts μ) : Calls parts μ
  | configure {ν : Type} (metaFn : MetaFn ν) (rest : Calls parts ν) : Calls parts Unit

def Calls.run {parts : Parts} {μ : Type} (builder : ProviderBuilder parts μ) :
    Calls parts μ → Except BuildError (Provider parts)
  | .build => builder.build
  | .andThen call rest => rest.run (builder.call call)
  | .configure metaFn rest => rest.run (builder.configure metaFn)

end Plugin

end TofuSdk
