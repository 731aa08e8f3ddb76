import TofuSdk.Registration

namespace TofuSdk

namespace Plugin

variable {parts : Parts} {μ : Type}

namespace Call

/-- The kind and name that a call registers. A type that does not reflect is
not registered. -/
def registered : Call parts μ → Option (Kind × String)
  | .register kind name (.ok _) _ | .registerWith kind _ name (.ok _) _ => some (kind, name)
  | _ => none

/-- What a call registers for good: a factory only when no configure step
comes after it. -/
def carried (configures : Bool) : Call parts μ → Option (Kind × String)
  | .register kind name (.ok _) _ => some (kind, name)
  | .registerWith kind _ name (.ok _) _ => if configures then none else some (kind, name)
  | _ => none

end Call

namespace Calls

def registered {μ : Type} : Calls parts μ → List (Kind × String)
  | .build => []
  | .andThen call rest => call.registered.toList ++ rest.registered
  | .configure _ rest => rest.registered

def configures {μ : Type} : Calls parts μ → Bool
  | .build => false
  | .andThen _ rest => rest.configures
  | .configure _ _ => true

def carried {μ : Type} : Calls parts μ → List (Kind × String)
  | .build => []
  | .andThen call rest => (call.carried rest.configures).toList ++ rest.carried
  | .configure _ rest => rest.carried

end Calls

theorem HandlerMap.insert_self (handlers : HandlerMap parts) (kind : Kind) (name : String)
    (handler : parts.Handler kind) : handlers.insert kind name handler kind name = some handler := by
  simp [HandlerMap.insert]

theorem HandlerMap.insert_of_ne (handlers : HandlerMap parts) {kind kind' : Kind} {name name' : String}
    (handler : parts.Handler kind) (h : (kind', name') ≠ (kind, name)) :
    handlers.insert kind name handler kind' name' = handlers kind' name' := by
  rw [HandlerMap.insert]
  by_cases hkind : kind' = kind
  · subst hkind
    have hname : name' ≠ name := fun hname => h (by rw [hname])
    rw [Function.update_self, Function.update_of_ne hname]
  · rw [Function.update_of_ne hkind]

theorem HandlerMap.isSome_insert (handlers : HandlerMap parts) (kind kind' : Kind) (name name' : String)
    (handler : parts.Handler kind) : (handlers.insert kind name handler kind' name').isSome = true ↔
      (kind', name') = (kind, name) ∨ (handlers kind' name').isSome = true := by
  by_cases h : (kind', name') = (kind, name)
  · obtain ⟨rfl, rfl⟩ := Prod.mk.inj h
    simp [HandlerMap.insert_self]
  · rw [handlers.insert_of_ne handler h]
    exact (or_iff_right h).symm

namespace ProviderBuilder

variable (builder : ProviderBuilder parts μ)

def names (kind : Kind) : List String := (builder.schema kind).map Prod.fst

def factoryNames (kind : Kind) : List String := (builder.factories kind).map Prod.fst

theorem names_call (call : Call parts μ) (kind : Kind) : (builder.call call).names kind =
    builder.names kind ++ (call.registered.toList.filter (·.1 = kind)).map Prod.snd := by
  cases call with
  | register kind' name schema handler =>
      cases schema with
      | ok schema =>
          by_cases h : kind = kind'
          · subst h
            simp [ProviderBuilder.call, names, push, install, Call.registered]
          · simp [ProviderBuilder.call, names, push, install, Call.registered, h, Ne.symm h]
      | error source => simp [ProviderBuilder.call, names, record, Call.registered]
  | registerWith kind' backed name schema factory =>
      cases schema with
      | ok schema =>
          by_cases h : kind = kind'
          · subst h
            simp [ProviderBuilder.call, names, push, defer, Call.registered]
          · simp [ProviderBuilder.call, names, push, defer, Call.registered, h, Ne.symm h]
      | error source => simp [ProviderBuilder.call, names, record, Call.registered]
  | providerConfig block => cases block <;> simp [ProviderBuilder.call, names, record, Call.registered]
  | dynConfigure handler => simp [ProviderBuilder.call, names, Call.registered]
  | validateConfig handler => simp [ProviderBuilder.call, names, Call.registered]

def Holds (configures : Bool) (builder : ProviderBuilder parts μ) (kind : Kind) (name : String) : Prop :=
  (builder.handlers kind name).isSome = true ∨ configures = false ∧ name ∈ builder.factoryNames kind

theorem holds_call (call : Call parts μ) (configures : Bool) (kind : Kind) (name : String) :
    (builder.call call).Holds configures kind name ↔
      builder.Holds configures kind name ∨ call.carried configures = some (kind, name) := by
  cases call with
  | register kind' name' schema handler =>
      cases schema with
      | ok schema =>
          simp only [ProviderBuilder.call, Holds, factoryNames, push, install, Call.carried, HandlerMap.isSome_insert,
            Option.some.injEq, eq_comm (a := (kind', name'))]
          tauto
      | error source => simp [ProviderBuilder.call, Holds, factoryNames, record, Call.carried]
  | registerWith kind' backed name' schema factory =>
      cases schema with
      | ok schema =>
          by_cases h : kind = kind'
          · subst h
            cases configures <;>
              simp [ProviderBuilder.call, Holds, factoryNames, push, defer, Call.carried, or_assoc,
                eq_comm (a := name')]
          · cases configures <;>
              simp [ProviderBuilder.call, Holds, factoryNames, push, defer, Call.carried, h, Ne.symm h]
      | error source => simp [ProviderBuilder.call, Holds, factoryNames, record, Call.carried]
  | providerConfig block => cases block <;> simp [ProviderBuilder.call, Holds, factoryNames, record, Call.carried]
  | dynConfigure handler => simp [ProviderBuilder.call, Holds, factoryNames, Call.carried]
  | validateConfig handler => simp [ProviderBuilder.call, Holds, factoryNames, Call.carried]

/-- Functions have no factories. -/
def Backed (builder : ProviderBuilder parts μ) : Prop :=
  ∀ kind, kind ∉ Kind.backed → builder.factories kind = []

theorem backed_call {builder : ProviderBuilder parts μ} (h : builder.Backed) (call : Call parts μ) :
    (builder.call call).Backed := by
  intro kind hkind
  cases call with
  | register kind' name schema handler => cases schema <;> exact h kind hkind
  | registerWith kind' backed name schema factory =>
      cases schema with
      | ok schema =>
          have hne : kind ≠ kind' := fun heq => hkind (heq ▸ backed)
          exact (Function.update_of_ne hne _ _).trans (h kind hkind)
      | error source => exact h kind hkind
  | providerConfig block => cases block <;> exact h kind hkind
  | dynConfigure handler => exact h kind hkind
  | validateConfig handler => exact h kind hkind

end ProviderBuilder

open ProviderBuilder

theorem Calls.exists_final {μ : Type} (calls : Calls parts μ) (builder : ProviderBuilder parts μ)
    (hb : builder.Backed) :
    ∃ (ν : Type) (final : ProviderBuilder parts ν), calls.run builder = final.build ∧ final.Backed ∧
      (∀ kind, final.names kind = builder.names kind ++ (calls.registered.filter (·.1 = kind)).map Prod.snd) ∧
      ∀ kind name, final.Holds false kind name ↔
        builder.Holds calls.configures kind name ∨ (kind, name) ∈ calls.carried := by
  induction calls with
  | build =>
      refine ⟨_, builder, rfl, hb, fun kind => ?_, fun kind name => ?_⟩
      · simp [Calls.registered]
      · simp [Calls.configures, Calls.carried]
  | andThen call rest ih =>
      obtain ⟨ν, final, hrun, hbacked, hnames, hholds⟩ := ih (builder.call call) (backed_call hb call)
      refine ⟨ν, final, hrun, hbacked, fun kind => ?_, fun kind name => ?_⟩
      · rw [hnames, names_call, Calls.registered, List.filter_append, List.map_append, List.append_assoc]
      · rw [hholds, holds_call, Calls.configures, Calls.carried, List.mem_append, Option.mem_toList, or_assoc]
  | configure metaFn rest ih =>
      obtain ⟨ν, final, hrun, hbacked, hnames, hholds⟩ := ih (builder.configure metaFn) fun _ _ => rfl
      refine ⟨ν, final, hrun, hbacked, hnames, fun kind name => ?_⟩
      rw [hholds]
      simp [Holds, factoryNames, ProviderBuilder.configure, Calls.configures, Calls.carried]

theorem buildKind_returned {builder : ProviderBuilder parts μ} {shared : μ} {kind : Kind}
    {handlers handlers' : HandlerMap parts} (h : builder.buildKind shared kind handlers = .returned handlers') :
    (∀ kind' name, (handlers' kind' name).isSome = true ↔
      (handlers kind' name).isSome = true ∨ kind' = kind ∧ name ∈ builder.factoryNames kind) := by
  rw [ProviderBuilder.buildKind] at h
  rw [factoryNames]
  generalize builder.factories kind = factories at h ⊢
  induction factories generalizing handlers with
  | nil =>
      cases h
      simp
  | cons factory factories ih =>
      rw [List.foldlM_cons] at h
      obtain ⟨mid, hmid, h⟩ := Ending.bind_eq_returned.mp h
      obtain ⟨handler, -, hmid⟩ := Ending.bind_eq_returned.mp hmid
      cases hmid
      intro kind' name
      rw [ih h, HandlerMap.isSome_insert]
      simp only [Prod.mk.injEq, List.map_cons, List.mem_cons]
      tauto

theorem buildHandlers_returned {builder : ProviderBuilder parts μ} {shared : μ} {handlers : HandlerMap parts}
    (hb : builder.Backed) (h : builder.buildHandlers shared = .returned handlers) (kind : Kind) (name : String) :
    (handlers kind name).isSome = true ↔ name ∈ builder.factoryNames kind := by
  have hfold : ∀ (kinds : List Kind) (start : HandlerMap parts),
      kinds.foldlM (fun handlers kind => builder.buildKind shared kind handlers) start = .returned handlers →
      ((handlers kind name).isSome = true ↔
        (start kind name).isSome = true ∨ kind ∈ kinds ∧ name ∈ builder.factoryNames kind) := by
    intro kinds
    induction kinds with
    | nil =>
        intro start h
        cases h
        simp
    | cons kind' kinds ih =>
        intro start h
        rw [List.foldlM_cons] at h
        obtain ⟨mid, hmid, h⟩ := Ending.bind_eq_returned.mp h
        rw [ih mid h, buildKind_returned hmid, List.mem_cons]
        by_cases hkind : kind = kind'
        · subst hkind
          tauto
        · tauto
  rw [hfold Kind.backed HandlerMap.empty h]
  by_cases hkind : kind ∈ Kind.backed
  · simp [HandlerMap.empty, hkind]
  · simp [HandlerMap.empty, factoryNames, hb kind hkind]

namespace Provider

structure Served (final : ProviderBuilder parts μ) (served : Provider parts) : Prop where
  schema : served.schema = final.schema
  eager : served.eager = final.handlers
  configureFn : served.configureFn = final.configureFn.map final.configureHandlers
  covered : final.configureFn = none → ∀ kind ∈ Kind.backed, final.factories kind = []
  configured : ∀ handlers, served.configured = some handlers →
    ∃ shared, final.buildHandlers shared = .returned handlers

theorem served_build {final : ProviderBuilder parts μ} {provider : Provider parts} (h : final.build = .ok provider) :
    Served final provider ∧ provider.configured = none := by
  rw [ProviderBuilder.build] at h
  cases herror : final.error with
  | some error =>
      rw [herror] at h
      cases h
  | none =>
      cases hfn : final.configureFn with
      | none =>
          rw [herror, hfn] at h
          by_cases hempty : (Kind.backed.all fun kind => (final.factories kind).isEmpty) = true
          · rw [if_pos hempty] at h
            cases h
            refine ⟨⟨rfl, rfl, by rw [hfn]; rfl, fun _ kind hkind => ?_, fun _ h => by cases h⟩, rfl⟩
            exact List.isEmpty_iff.mp (List.all_eq_true.mp hempty kind hkind)
          · rw [if_neg hempty] at h
            cases h
      | some metaFn =>
          rw [herror, hfn] at h
          cases h
          refine ⟨⟨rfl, rfl, by rw [hfn]; rfl, fun hnone => ?_, fun _ h => by cases h⟩, rfl⟩
          rw [hfn] at hnone
          cases hnone

theorem configuredTo_cases {provider next : Provider parts} (h : provider.ConfiguredTo next) :
    next = provider ∧ (provider.configureFn = none ∨ provider.configured.isSome = true) ∨
    ∃ configure config handlers, provider.configureFn = some configure ∧ provider.configured = none ∧
      configure config = .returned (.ok handlers) ∧ next = { provider with configured := some handlers } := by
  obtain ⟨config, h⟩ := h
  rw [configure] at h
  obtain ⟨dyn, -, h⟩ := Ending.bind_eq_returned.mp h
  cases dyn with
  | error diags => cases h
  | ok _ =>
      cases hfn : provider.configureFn with
      | none =>
          rw [hfn] at h
          cases h
          exact .inl ⟨rfl, .inl rfl⟩
      | some configure =>
          cases hconfigured : provider.configured with
          | some handlers =>
              rw [hfn, hconfigured] at h
              cases h
              exact .inl ⟨rfl, .inr rfl⟩
          | none =>
              rw [hfn, hconfigured] at h
              obtain ⟨out, hout, h⟩ := Ending.bind_eq_returned.mp h
              cases out with
              | error diags => cases h
              | ok handlers =>
                  cases h
                  exact .inr ⟨configure, config, handlers, rfl, rfl, hout, rfl⟩

/-- After a configuration without an error, every handler is there that was
to wait for it. -/
def Ready (served : Provider parts) : Prop := served.configureFn = none ∨ served.configured.isSome = true

theorem Served.configuredTo {final : ProviderBuilder parts μ} {provider next : Provider parts}
    (h : Served final provider) (hnext : provider.ConfiguredTo next) : Served final next ∧ next.Ready := by
  obtain ⟨rfl, hready⟩ | ⟨configure, config, handlers, hfn, -, hrun, rfl⟩ := configuredTo_cases hnext
  · exact ⟨h, hready⟩
  · refine ⟨⟨h.schema, h.eager, h.configureFn, h.covered, fun handlers' heq => ?_⟩, .inr rfl⟩
    cases heq
    rw [h.configureFn] at hfn
    obtain ⟨metaFn, -, rfl⟩ := Option.map_eq_some_iff.mp hfn
    rw [ProviderBuilder.configureHandlers] at hrun
    obtain ⟨shared, -, hrun⟩ := Ending.bind_eq_returned.mp hrun
    cases shared with
    | error diags => cases hrun
    | ok shared =>
        obtain ⟨built, hbuilt, hrun⟩ := Ending.bind_eq_returned.mp hrun
        cases hrun
        exact ⟨shared, hbuilt⟩

theorem Served.reaches {final : ProviderBuilder parts μ} {provider served : Provider parts}
    (h : Served final provider) (hreach : provider.Reaches served) : Served final served := by
  induction hreach with
  | refl => exact h
  | tail _ hnext ih => exact (ih.configuredTo hnext).1

theorem Served.transGen {final : ProviderBuilder parts μ} {provider served : Provider parts}
    (h : Served final provider) (hreach : Relation.TransGen ConfiguredTo provider served) :
    Served final served ∧ served.Ready := by
  obtain ⟨mid, hmid, hlast⟩ := Relation.TransGen.tail'_iff.mp hreach
  exact (h.reaches hmid).configuredTo hlast

theorem Served.handler_isSome {final : ProviderBuilder parts μ} {served : Provider parts} (hb : final.Backed)
    (h : Served final served) (hready : served.Ready) (kind : Kind) (name : String) :
    (served.handler kind name).isSome = true ↔ final.Holds false kind name := by
  have hconfigured : (∃ handlers, served.configured = some handlers ∧ (handlers kind name).isSome = true) ↔
      name ∈ final.factoryNames kind := by
    cases hc : served.configured with
    | some handlers =>
        obtain ⟨shared, hbuilt⟩ := h.configured handlers hc
        simp [buildHandlers_returned hb hbuilt]
    | none =>
        have hfn : served.configureFn = none := hready.resolve_right (by simp [hc])
        rw [h.configureFn, Option.map_eq_none_iff] at hfn
        have hempty : final.factories kind = [] := by
          by_cases hkind : kind ∈ Kind.backed
          · exact h.covered hfn kind hkind
          · exact hb kind hkind
        simp [factoryNames, hempty]
  have hor : ∀ handlers : Option (HandlerMap parts),
      ((handlers.bind (· kind name)).or (served.eager kind name)).isSome = true ↔
        (∃ built, handlers = some built ∧ (built kind name).isSome = true) ∨
          (served.eager kind name).isSome = true := by
    intro handlers
    cases handlers <;> simp [Option.isSome_or]
  rw [Holds, ← h.eager, ← hconfigured]
  by_cases hkind : kind = .function
  · subst hkind
    have hnone : ¬∃ handlers, served.configured = some handlers ∧ (handlers .function name).isSome = true := by
      rw [hconfigured, factoryNames, hb .function (by decide)]
      exact List.not_mem_nil
    simp [handler, hnone]
  · have hhandler : served.handler kind name =
        (served.configured.bind (· kind name)).or (served.eager kind name) := by
      cases kind <;> first | rfl | exact absurd rfl hkind
    rw [hhandler, hor, or_comm]
    simp

end Provider

theorem Provider.published_isSome (provider : Provider parts) (kind : Kind) (name : String) :
    (provider.published kind name).isSome = true ↔ name ∈ (provider.schema kind).map Prod.fst := by
  rw [published, OrdMap.get?_isSome, OrdMap.mem_keys_ofList]

/-- A provider is built. It publishes what was registered, and once it is
configured it has a handler for what was carried over. -/
theorem Calls.run_eq_ok {calls : Calls parts μ} {built later : Provider parts} (h : calls.run .empty = .ok built)
    (hlater : Relation.TransGen Provider.ConfiguredTo built later) (kind : Kind) (name : String) :
    ((later.published kind name).isSome = true ↔ (kind, name) ∈ calls.registered) ∧
      ((later.handler kind name).isSome = true ↔ (kind, name) ∈ calls.carried) := by
  obtain ⟨ν, final, hrun, hbacked, hnames, hholds⟩ := calls.exists_final .empty fun _ _ => rfl
  obtain ⟨hserved, hready⟩ := (Provider.served_build (hrun.symm.trans h)).1.transGen hlater
  constructor
  · have hschema : (later.schema kind).map Prod.fst = final.names kind := by rw [hserved.schema, names]
    rw [later.published_isSome, hschema, hnames]
    simp [names, ProviderBuilder.empty]
  · rw [hserved.handler_isSome hbacked hready, hholds]
    simp [Holds, ProviderBuilder.empty, HandlerMap.empty, factoryNames]

/-- Every published name has a handler, exactly when a factory that a later
configure step drops is made up for by another registration. -/
theorem published_handled_iff {calls : Calls parts μ} {built later : Provider parts}
    (h : calls.run .empty = .ok built) (hlater : Relation.TransGen Provider.ConfiguredTo built later) :
    (∀ kind name, (later.published kind name).isSome = true → (later.handler kind name).isSome = true) ↔
      calls.registered ⊆ calls.carried := by
  constructor
  · rintro hall ⟨kind, name⟩ hmem
    obtain ⟨hpublished, hhandler⟩ := Calls.run_eq_ok h hlater kind name
    exact hhandler.mp (hall kind name (hpublished.mpr hmem))
  · intro hsubset kind name hpublished
    obtain ⟨hregistered, hhandler⟩ := Calls.run_eq_ok h hlater kind name
    exact hhandler.mpr (hsubset (hregistered.mp hpublished))

def unsupported {α : Type} : Handler α := fun _ => ⟨[], .returned (.error [Diag.error "unsupported" ""])⟩

def idle : DynResource where
  create _ := unsupported
  read _ := unsupported
  update _ _ := unsupported
  delete _ := unsupported
  import_ _ := unsupported
  upgrade _ _ := unsupported
  validate := .clean
  modifyPlan _ _ := unsupported
  moveState _ _ := unsupported
  semanticEquality := pure ⟨OrdMap.empty, OrdMap.empty⟩

def note : Model := ⟨"note", "note", "note"⟩

def noteBody : ResourceBody := ⟨0, ⟨[], []⟩, none⟩

def noteWith : Call Parts.real Unit := .resourceWith note 0 (.ok noteBody) fun _ => pure idle

def noMeta : MetaFn Unit := fun _ => pure (.ok ())

def noteKept : Calls Parts.real Unit := .configure noMeta (.andThen noteWith .build)

def noteDropped : Calls Parts.real Unit := .andThen noteWith (.configure noMeta .build)

theorem published_handled_note : ∃ built later, noteKept.run .empty = .ok built ∧
    Relation.TransGen Provider.ConfiguredTo built later ∧
    ∀ kind name, (later.published kind name).isSome = true → (later.handler kind name).isSome = true := by
  have hcarried : noteKept.registered ⊆ noteKept.carried := by decide
  refine ⟨_, _, rfl, .single ⟨.null, rfl⟩, ?_⟩
  have hrun : noteKept.run .empty = .ok _ := rfl
  exact (published_handled_iff hrun (.single ⟨.null, rfl⟩)).mpr hcarried

theorem factory_dropped : ∃ built later, noteDropped.run .empty = .ok built ∧
    Relation.TransGen Provider.ConfiguredTo built later ∧ (later.published .resource "note").isSome = true ∧
    (later.handler .resource "note").isSome = false := by
  refine ⟨_, _, rfl, .single ⟨.null, rfl⟩, rfl, rfl⟩

end Plugin

end TofuSdk
