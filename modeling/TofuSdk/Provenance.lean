import TofuSdk.Registered

namespace TofuSdk

namespace Plugin

variable {parts : Parts} {μ : Type}

/-- What is registered, with the position of the call that registered it. -/
abbrev Parts.traced (parts : Parts) : Parts where
  Schema kind := Nat × parts.Schema kind
  Handler kind := Nat × parts.Handler kind
  Identity := Nat × parts.Identity
  identity schema := (schema.1, ·) <$> parts.identity schema.2

def Call.traced (n : Nat) : Call parts μ → Call parts.traced μ
  | .providerConfig block => .providerConfig block
  | .register kind name schema handler => .register kind name ((n, ·) <$> schema) (n, handler)
  | .registerWith kind backed name schema factory =>
      .registerWith kind backed name ((n, ·) <$> schema) fun shared => (n, ·) <$> factory shared
  | .dynConfigure handler => .dynConfigure handler
  | .validateConfig handler => .validateConfig handler

namespace Calls

/-- The builder cannot tell one position from another. -/
def traced {μ : Type} (n : Nat) : Calls parts μ → Calls parts.traced μ
  | .build => .build
  | .andThen call rest => .andThen (call.traced n) (rest.traced (n + 1))
  | .configure metaFn rest => .configure metaFn (rest.traced (n + 1))

def log {μ : Type} (n : Nat) : Calls parts μ → List (Nat × Kind × String)
  | .build => []
  | .andThen call rest => ((n, ·) <$> call.registered).toList ++ rest.log (n + 1)
  | .configure _ rest => rest.log (n + 1)

theorem map_snd_log {μ : Type} (calls : Calls parts μ) (n : Nat) : (calls.log n).map Prod.snd = calls.registered := by
  induction calls generalizing n with
  | build => rfl
  | andThen call rest ih =>
      rw [log, registered, List.map_append, ih]
      cases call.registered <;> rfl
  | configure metaFn rest ih => exact ih (n + 1)

theorem le_of_mem_log {μ : Type} (calls : Calls parts μ) {n : Nat} {entry : Nat × Kind × String}
    (h : entry ∈ calls.log n) : n ≤ entry.1 := by
  induction calls generalizing n with
  | build => cases h
  | andThen call rest ih =>
      obtain h | h := List.mem_append.mp h
      · rw [Option.mem_toList] at h
        obtain ⟨_, -, rfl⟩ := Option.map_eq_some_iff.mp h
        exact le_refl n
      · exact le_trans n.le_succ (ih h)
  | configure metaFn rest ih => exact le_trans n.le_succ (ih h)

theorem log_nodup {μ : Type} (calls : Calls parts μ) (n : Nat) : (calls.log n).Nodup := by
  induction calls generalizing n with
  | build => exact List.nodup_nil
  | andThen call rest ih =>
      rw [log]
      cases hcall : call.registered with
      | none => exact ih (n + 1)
      | some registered =>
          apply List.nodup_cons.mpr
          exact ⟨fun hmem => absurd (rest.le_of_mem_log hmem) (Nat.not_succ_le_self n), ih (n + 1)⟩
  | configure metaFn rest ih => exact ih (n + 1)

end Calls

def HandlerMap.erase (handlers : HandlerMap parts.traced) : HandlerMap parts := fun kind name =>
  (handlers kind name).map Prod.snd

def ProviderBuilder.erase (builder : ProviderBuilder parts.traced μ) : ProviderBuilder parts μ where
  provider := builder.provider
  schema kind := (builder.schema kind).map fun entry => (entry.1, entry.2.2)
  handlers := builder.handlers.erase
  factories kind := (builder.factories kind).map fun factory =>
    (factory.1, fun shared => Prod.snd <$> factory.2 shared)
  configureFn := builder.configureFn
  dynConfigure := builder.dynConfigure
  validateConfig := builder.validateConfig
  error := builder.error

def Provider.erase (provider : Provider parts.traced) : Provider parts where
  block := provider.block
  schema kind := (provider.schema kind).map fun entry => (entry.1, entry.2.2)
  eager := provider.eager.erase
  configureFn := provider.configureFn.map fun configure config => (HandlerMap.erase <$> ·) <$> configure config
  configured := provider.configured.map HandlerMap.erase
  dynConfigure := provider.dynConfigure
  validateConfig := provider.validateConfig

theorem HandlerMap.erase_insert (handlers : HandlerMap parts.traced) (kind : Kind) (name : String)
    (handler : parts.traced.Handler kind) :
    (handlers.insert kind name handler).erase = handlers.erase.insert kind name handler.2 := by
  funext kind' name'
  rw [erase]
  by_cases h : (kind', name') = (kind, name)
  · obtain ⟨rfl, rfl⟩ := Prod.mk.inj h
    rw [insert_self, insert_self]
    rfl
  · rw [insert_of_ne _ _ h, insert_of_ne _ _ h, erase]

theorem map_update_append {α β : Kind → Type} (f : (kind : Kind) → α kind → β kind)
    (lists : (kind : Kind) → List (α kind))
    (kind : Kind) (last : α kind) :
    (fun kind' => (Function.update lists kind (lists kind ++ [last]) kind').map (f kind')) =
      Function.update (fun kind' => (lists kind').map (f kind')) kind ((lists kind).map (f kind) ++ [f kind last]) := by
  funext kind'
  by_cases h : kind' = kind
  · subst h
    simp
  · simp [h]

namespace ProviderBuilder

theorem erase_push (builder : ProviderBuilder parts.traced μ) (kind : Kind) (name : String)
    (schema : parts.traced.Schema kind) :
    (builder.push kind name schema).erase = builder.erase.push kind name schema.2 := by
  simp only [erase, push]
  rw [map_update_append fun (kind : Kind) (entry : String × parts.traced.Schema kind) => (entry.1, entry.2.2)]

theorem erase_install (builder : ProviderBuilder parts.traced μ) (kind : Kind) (name : String)
    (handler : parts.traced.Handler kind) :
    (builder.install kind name handler).erase = builder.erase.install kind name handler.2 := by
  simp only [erase, install, HandlerMap.erase_insert]

theorem erase_defer (builder : ProviderBuilder parts.traced μ) (kind : Kind) (name : String)
    (factory : μ → Authored (parts.traced.Handler kind)) :
    (builder.defer kind name factory).erase =
      builder.erase.defer kind name fun shared => Prod.snd <$> factory shared := by
  simp only [erase, defer]
  rw [map_update_append fun (kind : Kind) (entry : String × (μ → Authored (parts.traced.Handler kind))) =>
    (entry.1, fun shared => Prod.snd <$> entry.2 shared)]

theorem erase_call (builder : ProviderBuilder parts.traced μ) (n : Nat) (call : Call parts μ) :
    (builder.call (call.traced n)).erase = builder.erase.call call := by
  cases call with
  | providerConfig block => cases block <;> rfl
  | register kind name schema handler =>
      cases schema with
      | ok schema => exact (erase_install _ kind name (n, handler)).trans (by rw [erase_push]; rfl)
      | error source => rfl
  | registerWith kind backed name schema factory =>
      cases schema with
      | ok schema =>
          have hfactory : (fun shared => Prod.snd <$> (n, ·) <$> factory shared) = factory := by
            funext shared
            rw [Functor.map_map]
            exact id_map _
          refine (erase_defer _ kind name fun shared => (n, ·) <$> factory shared).trans ?_
          rw [erase_push, hfactory]
          rfl
      | error source => rfl
  | dynConfigure handler => rfl
  | validateConfig handler => rfl

theorem erase_buildKind (builder : ProviderBuilder parts.traced μ) (shared : μ) (kind : Kind)
    (handlers : HandlerMap parts.traced) : builder.erase.buildKind shared kind handlers.erase =
      HandlerMap.erase <$> builder.buildKind shared kind handlers := by
  rw [buildKind, buildKind, erase, List.foldlM_map]
  generalize builder.factories kind = factories
  induction factories generalizing handlers with
  | nil => rfl
  | cons factory factories ih =>
      simp only [bind_map_left] at ih
      simp only [List.foldlM_cons, map_bind, bind_assoc, bind_map_left, pure_bind, ← HandlerMap.erase_insert, ih]

theorem erase_buildHandlers (builder : ProviderBuilder parts.traced μ) (shared : μ) :
    builder.erase.buildHandlers shared = HandlerMap.erase <$> builder.buildHandlers shared := by
  have hfold : ∀ (kinds : List Kind) (handlers : HandlerMap parts.traced),
      kinds.foldlM (fun handlers kind => builder.erase.buildKind shared kind handlers) handlers.erase =
        HandlerMap.erase <$> kinds.foldlM (fun handlers kind => builder.buildKind shared kind handlers) handlers := by
    intro kinds
    induction kinds with
    | nil => exact fun _ => rfl
    | cons kind kinds ih =>
        intro handlers
        simp only [List.foldlM_cons, erase_buildKind, bind_map_left, map_bind, ih]
  exact hfold Kind.backed HandlerMap.empty

theorem build_erase (builder : ProviderBuilder parts.traced μ) :
    builder.erase.build = Provider.erase <$> builder.build := by
  have hfn : ∀ metaFn : MetaFn μ, builder.erase.configureHandlers metaFn =
      fun config => (HandlerMap.erase <$> ·) <$> builder.configureHandlers metaFn config := by
    intro metaFn
    funext config
    simp only [configureHandlers, map_bind]
    congr 1
    funext shared
    cases shared with
    | ok shared => simp [erase_buildHandlers, Functor.map_map]
    | error diags => rfl
  have hempty : ∀ kind, (builder.erase.factories kind).isEmpty = (builder.factories kind).isEmpty := fun kind => by
    simp [erase]
  rw [build, build]
  cases herror : builder.error with
  | some error =>
      have herror' : builder.erase.error = some error := herror
      rw [herror']
      rfl
  | none =>
      have herror' : builder.erase.error = none := herror
      rw [herror']
      cases hmeta : builder.configureFn with
      | none =>
          have hmeta' : builder.erase.configureFn = none := hmeta
          simp only [hmeta', hempty]
          split_ifs <;> rfl
      | some metaFn =>
          have hmeta' : builder.erase.configureFn = some metaFn := hmeta
          simp only [hmeta', hfn]
          rfl

end ProviderBuilder

theorem Calls.run_erase {μ : Type} (calls : Calls parts μ) (builder : ProviderBuilder parts.traced μ) (n : Nat) :
    calls.run builder.erase = Provider.erase <$> (calls.traced n).run builder := by
  induction calls generalizing n with
  | build => exact builder.build_erase
  | andThen call rest ih => rw [run, traced, run, ← ih, builder.erase_call]
  | configure metaFn rest ih => exact ih (builder.configure metaFn) (n + 1)

namespace Provider

theorem erase_configure (provider : Provider parts.traced) (config : Value) :
    provider.erase.configure config = (Provider.erase <$> ·) <$> provider.configure config := by
  rw [configure, configure, map_bind]
  have hdyn : provider.erase.configureDyn config = provider.configureDyn config := rfl
  rw [hdyn]
  congr 1
  funext dyn
  cases dyn with
  | error diags => rfl
  | ok _ =>
      cases hfn : provider.configureFn with
      | none =>
          have hfn' : provider.erase.configureFn = none := by simp [erase, hfn]
          rw [hfn']
          rfl
      | some configure =>
          have hfn' : provider.erase.configureFn =
              some fun config => (HandlerMap.erase <$> ·) <$> configure config := by simp [erase, hfn]
          cases hconfigured : provider.configured with
          | some handlers =>
              have hconfigured' : provider.erase.configured = some handlers.erase := by simp [erase, hconfigured]
              rw [hfn', hconfigured']
              rfl
          | none =>
              have hconfigured' : provider.erase.configured = none := by simp [erase, hconfigured]
              simp only [hfn', hconfigured', bind_map_left, map_bind]
              congr 1
              funext out
              cases out <;> rfl

theorem configuredTo_erase {provider : Provider parts.traced} {next : Provider parts} :
    provider.erase.ConfiguredTo next ↔ ∃ traced, provider.ConfiguredTo traced ∧ traced.erase = next := by
  have hend : ∀ (f : Authored (Except Diagnostics (Provider parts.traced))),
      (Provider.erase <$> ·) <$> f = .returned (.ok next) ↔
        ∃ traced, f = .returned (.ok traced) ∧ traced.erase = next := by
    intro f
    rw [← bind_pure_comp, Ending.bind_eq_returned]
    constructor
    · rintro ⟨out, hout, hnext⟩
      cases out with
      | error diags => cases hnext
      | ok traced =>
          cases hnext
          exact ⟨traced, hout, rfl⟩
    · rintro ⟨traced, hout, rfl⟩
      exact ⟨.ok traced, hout, rfl⟩
  simp only [ConfiguredTo, erase_configure, hend]
  constructor
  · rintro ⟨config, traced, hout, rfl⟩
    exact ⟨traced, ⟨config, hout⟩, rfl⟩
  · rintro ⟨traced, ⟨config, hout⟩, rfl⟩
    exact ⟨config, traced, hout, rfl⟩

/-- Every state of the provider is that of one whose registrations can be told
apart. -/
theorem reaches_erase {provider : Provider parts.traced} {served : Provider parts} :
    provider.erase.Reaches served ↔ ∃ traced, provider.Reaches traced ∧ traced.erase = served := by
  constructor
  · intro h
    induction h with
    | refl => exact ⟨provider, .refl, rfl⟩
    | tail _ hnext ih =>
        obtain ⟨traced, htraced, rfl⟩ := ih
        obtain ⟨next, hstep, rfl⟩ := configuredTo_erase.mp hnext
        exact ⟨next, htraced.tail hstep, rfl⟩
  · rintro ⟨traced, h, rfl⟩
    induction h with
    | refl => exact .refl
    | tail _ hnext ih => exact ih.tail (configuredTo_erase.mpr ⟨_, hnext, rfl⟩)

end Provider

def HandlerMap.Sourced (log : List (Nat × Kind × String)) (handlers : HandlerMap parts.traced) : Prop :=
  ∀ kind name handler, handlers kind name = some handler → (handler.1, kind, name) ∈ log

theorem HandlerMap.sourced_empty (log : List (Nat × Kind × String)) :
    (HandlerMap.empty : HandlerMap parts.traced).Sourced log := fun _ _ _ h => by cases h

theorem HandlerMap.Sourced.insert {log : List (Nat × Kind × String)} {handlers : HandlerMap parts.traced}
    (h : handlers.Sourced log) {kind : Kind} {name : String} {handler : parts.traced.Handler kind}
    (hmem : (handler.1, kind, name) ∈ log) : (handlers.insert kind name handler).Sourced log := by
  intro kind' name' handler' hhandler
  by_cases heq : (kind', name') = (kind, name)
  · obtain ⟨rfl, rfl⟩ := Prod.mk.inj heq
    obtain rfl := Option.some.inj ((handlers.insert_self kind' name' handler).symm.trans hhandler)
    exact hmem
  · exact h kind' name' handler' ((handlers.insert_of_ne handler heq).symm.trans hhandler)

structure ProviderBuilder.Sourced (log : List (Nat × Kind × String)) (builder : ProviderBuilder parts.traced μ) :
    Prop where
  schema : ∀ kind, (builder.schema kind).map (fun entry => (entry.2.1, kind, entry.1)) =
    log.filter fun entry => entry.2.1 = kind
  handlers : builder.handlers.Sourced log
  factories : ∀ kind, ∀ factory ∈ builder.factories kind,
    ∀ shared handler, factory.2 shared = .returned handler → (handler.1, kind, factory.1) ∈ log

namespace ProviderBuilder

variable {log : List (Nat × Kind × String)} {builder : ProviderBuilder parts.traced μ}

theorem sourced_empty : (empty : ProviderBuilder parts.traced μ).Sourced [] where
  schema _ := rfl
  handlers := HandlerMap.sourced_empty []
  factories _ _ h := by cases h

theorem Sourced.push (h : builder.Sourced log) (kind : Kind) (name : String) (schema : parts.traced.Schema kind) :
    (builder.push kind name schema).Sourced (log ++ [(schema.1, kind, name)]) where
  schema kind' := by
    by_cases hkind : kind' = kind
    · subst hkind
      simp [ProviderBuilder.push, h.schema]
    · simp [ProviderBuilder.push, h.schema, hkind, Ne.symm hkind]
  handlers kind' name' handler hhandler := List.mem_append_left _ (h.handlers kind' name' handler hhandler)
  factories kind' factory hmem shared handler hreturned :=
    List.mem_append_left _ (h.factories kind' factory hmem shared handler hreturned)

theorem Sourced.install (h : builder.Sourced log) {kind : Kind} {name : String} {handler : parts.traced.Handler kind}
    (hmem : (handler.1, kind, name) ∈ log) : (builder.install kind name handler).Sourced log where
  schema := h.schema
  handlers := h.handlers.insert hmem
  factories := h.factories

theorem Sourced.defer (h : builder.Sourced log) {kind : Kind} {name : String}
    {factory : μ → Authored (parts.traced.Handler kind)}
    (hmem : ∀ shared handler, factory shared = .returned handler → (handler.1, kind, name) ∈ log) :
    (builder.defer kind name factory).Sourced log where
  schema := h.schema
  handlers := h.handlers
  factories kind' factory' hfactory' := by
    by_cases hkind : kind' = kind
    · subst hkind
      simp only [ProviderBuilder.defer, Function.update_self] at hfactory'
      obtain hold | hnew := List.mem_append.mp hfactory'
      · exact h.factories kind' factory' hold
      · obtain rfl := List.mem_singleton.mp hnew
        exact hmem
    · simp only [ProviderBuilder.defer, Function.update_of_ne hkind] at hfactory'
      exact h.factories kind' factory' hfactory'

theorem Sourced.same {builder' : ProviderBuilder parts.traced μ} (h : builder.Sourced log)
    (hschema : builder'.schema = builder.schema) (hhandlers : builder'.handlers = builder.handlers)
    (hfactories : builder'.factories = builder.factories) : builder'.Sourced (log ++ []) := by
  rw [List.append_nil]
  exact ⟨by rw [hschema]; exact h.schema, by rw [hhandlers]; exact h.handlers, by rw [hfactories]; exact h.factories⟩

theorem Sourced.call (h : builder.Sourced log) (n : Nat) (call : Call parts μ) :
    (builder.call (call.traced n)).Sourced (log ++ ((n, ·) <$> call.registered).toList) := by
  cases call with
  | providerConfig block => cases block <;> exact h.same rfl rfl rfl
  | register kind name schema handler =>
      cases schema with
      | ok schema =>
          apply (h.push kind name (n, schema)).install
          exact List.mem_append_right _ (List.mem_singleton.mpr rfl)
      | error source => exact h.same rfl rfl rfl
  | registerWith kind backed name schema factory =>
      cases schema with
      | ok schema =>
          apply (h.push kind name (n, schema)).defer
          intro shared handler hreturned
          rw [← bind_pure_comp, Ending.bind_eq_returned] at hreturned
          obtain ⟨inner, -, hinner⟩ := hreturned
          cases hinner
          exact List.mem_append_right _ (List.mem_singleton.mpr rfl)
      | error source => exact h.same rfl rfl rfl
  | dynConfigure handler => exact h.same rfl rfl rfl
  | validateConfig handler => exact h.same rfl rfl rfl

end ProviderBuilder

theorem Calls.exists_sourced {μ : Type} (calls : Calls parts μ) (n : Nat) {log : List (Nat × Kind × String)}
    {builder : ProviderBuilder parts.traced μ} (h : builder.Sourced log) :
    ∃ (ν : Type) (final : ProviderBuilder parts.traced ν), (calls.traced n).run builder = final.build ∧
      final.Sourced (log ++ calls.log n) := by
  induction calls generalizing n log with
  | build => exact ⟨_, builder, rfl, by rwa [Calls.log, List.append_nil]⟩
  | andThen call rest ih =>
      obtain ⟨ν, final, hrun, hfinal⟩ := ih (n + 1) (h.call n call)
      exact ⟨ν, final, hrun, by rwa [Calls.log, ← List.append_assoc]⟩
  | configure metaFn rest ih =>
      have hconfigure : (builder.configure metaFn).Sourced log :=
        ⟨h.schema, h.handlers, fun _ _ hmem => by cases hmem⟩
      exact ih (n + 1) hconfigure

theorem buildHandlers_sourced {log : List (Nat × Kind × String)} {builder : ProviderBuilder parts.traced μ}
    (h : builder.Sourced log) {shared : μ} {handlers : HandlerMap parts.traced}
    (hbuilt : builder.buildHandlers shared = .returned handlers) : handlers.Sourced log := by
  have hkind : ∀ (kind : Kind) (handlers handlers' : HandlerMap parts.traced), handlers.Sourced log →
      builder.buildKind shared kind handlers = .returned handlers' → handlers'.Sourced log := by
    intro kind handlers handlers' hhandlers
    apply Ending.foldlM_invariant (P := HandlerMap.Sourced log) _ hhandlers
    intro handlers factory hmem hhandlers next hnext
    obtain ⟨handler, hhandler, hnext⟩ := Ending.bind_eq_returned.mp hnext
    cases hnext
    exact hhandlers.insert (h.factories kind factory hmem shared handler hhandler)
  apply Ending.foldlM_invariant (P := HandlerMap.Sourced log) _ (HandlerMap.sourced_empty log) hbuilt
  exact fun handlers kind _ hhandlers next hnext => hkind kind handlers next hhandlers hnext

namespace Provider

/-- The registrations that everything under a name comes from: the emitted
schema, the schema that is decoded with (its version and identity included),
the emitted identity and the handler. -/
def origins (provider : Provider parts.traced) (kind : Kind) (name : String) : List Nat :=
  ((provider.published kind name).map Prod.fst).toList ++ ((provider.decoded kind name).map Prod.fst).toList ++
    (if kind = .resource then ((provider.publishedIdentity name).map Prod.fst).toList else []) ++
    ((provider.handler kind name).map Prod.fst).toList

def OneOrigin (provider : Provider parts.traced) (kind : Kind) (name : String) : Prop :=
  ∃ call, ∀ origin ∈ provider.origins kind name, origin = call

theorem Served.mem_log {log : List (Nat × Kind × String)} {final : ProviderBuilder parts.traced μ}
    {served : Provider parts.traced} (h : Served final served) (hlog : final.Sourced log) {kind : Kind} {name : String}
    {origin : Nat} (horigin : origin ∈ served.origins kind name) : (origin, kind, name) ∈ log := by
  have hschema : ∀ {kind : Kind} {entry : String × parts.traced.Schema kind}, entry ∈ served.schema kind →
      (entry.2.1, kind, entry.1) ∈ log := by
    intro kind entry hmem
    rw [h.schema] at hmem
    have hmap := List.mem_map_of_mem (f := fun entry : String × parts.traced.Schema kind =>
      (entry.2.1, kind, entry.1)) hmem
    rw [hlog.schema kind] at hmap
    exact (List.mem_filter.mp hmap).1
  simp only [origins, List.mem_append, Option.mem_toList, or_assoc] at horigin
  obtain hpublished | hdecoded | hidentity | hhandler := horigin
  · obtain ⟨schema, hget, rfl⟩ := Option.map_eq_some_iff.mp hpublished
    exact hschema (OrdMap.mem_of_get?_ofList hget)
  · obtain ⟨schema, hget, rfl⟩ := Option.map_eq_some_iff.mp hdecoded
    obtain ⟨entry, hfind, rfl⟩ := Option.map_eq_some_iff.mp hget
    have hname : entry.1 = name := by simpa using List.find?_some hfind
    exact hname ▸ hschema (List.mem_of_find?_eq_some hfind)
  · by_cases hkind : kind = .resource
    · subst hkind
      rw [if_pos rfl, Option.mem_toList] at hidentity
      obtain ⟨identity, hget, rfl⟩ := Option.map_eq_some_iff.mp hidentity
      obtain ⟨entry, hmem, hentry⟩ := List.mem_filterMap.mp (OrdMap.mem_of_get?_ofList hget)
      obtain ⟨tagged, htagged, heq⟩ := Option.map_eq_some_iff.mp hentry
      obtain ⟨inner, -, rfl⟩ := Option.map_eq_some_iff.mp htagged
      obtain ⟨rfl, rfl⟩ := Prod.mk.inj heq
      exact hschema hmem
    · rw [if_neg hkind] at hidentity
      cases hidentity
  · obtain ⟨handler, hget, rfl⟩ := Option.map_eq_some_iff.mp hhandler
    have heager : served.eager.Sourced log := by
      rw [h.eager]
      exact hlog.handlers
    by_cases hkind : kind = .function
    · subst hkind
      exact heager .function name handler hget
    · have hor : (served.configured.bind (· kind name)).or (served.eager kind name) = some handler := by
        cases kind <;> first | exact hget | exact absurd rfl hkind
      obtain hconfigured | ⟨-, hgot⟩ := Option.or_eq_some_iff.mp hor
      · obtain ⟨handlers, hhandlers, hgot⟩ := Option.bind_eq_some_iff.mp hconfigured
        obtain ⟨shared, hbuilt⟩ := h.configured handlers hhandlers
        exact buildHandlers_sourced hlog hbuilt kind name handler hgot
      · exact heager kind name handler hgot

theorem length_le_one_of_head?_eq_getLast? {α : Type} {l : List α} (hl : l.Nodup) (h : l.head? = l.getLast?) :
    l.length ≤ 1 := by
  cases l with
  | nil => exact Nat.zero_le 1
  | cons first rest =>
      cases hrest : rest.getLast? with
      | none => simp [List.getLast?_eq_none_iff.mp hrest]
      | some last =>
          have hlast : some first = some last := by simpa [List.getLast?_cons, hrest] using h
          obtain rfl := Option.some.inj hlast
          exact absurd (List.mem_of_getLast? hrest) (List.nodup_cons.mp hl).1

/-- The emitted schema and the decoded one are the last and the first of the
name, so that a name registered twice has two origins. -/
theorem Served.nodup_of_oneOrigin {log : List (Nat × Kind × String)} {final : ProviderBuilder parts.traced μ}
    {served : Provider parts.traced} (h : Served final served) (hlog : final.Sourced log) (hnodup : log.Nodup)
    (hone : ∀ kind name, served.OneOrigin kind name) : (log.map Prod.snd).Nodup := by
  rw [List.nodup_iff_count_le_one]
  rintro ⟨kind, name⟩
  obtain ⟨call, hcall⟩ := hone kind name
  let named := (served.schema kind).filter (·.1 == name)
  let f := fun entry : String × parts.traced.Schema kind => (entry.2.1, kind, entry.1)
  have hnamed : named.map f = log.filter fun entry => entry.2 == (kind, name) := by
    have hfilter := congrArg (List.filter fun entry => entry.2.2 == name) (hlog.schema kind)
    rw [← h.schema, List.filter_map, List.filter_filter] at hfilter
    refine hfilter.trans (List.filter_congr fun entry _ => ?_)
    simp only [beq_eq_decide, Prod.ext_iff, Bool.decide_and, Bool.and_comm]
  have hcount : (log.map Prod.snd).count (kind, name) = (named.map f).length := by
    rw [List.count_eq_countP, List.countP_map, List.countP_eq_length_filter, hnamed]
    rfl
  rw [hcount]
  apply length_le_one_of_head?_eq_getLast?
  · rw [hnamed]
    exact hnodup.filter _
  · have hfirst : ∀ first, named.head? = some first → first.1 = name ∧ first.2.1 = call := by
      intro first hfirst
      rw [List.head?_filter] at hfirst
      exact ⟨by simpa using List.find?_some hfirst, hcall _ (by simp [origins, decoded, hfirst])⟩
    have hlast : ∀ last, named.getLast? = some last → last.1 = name ∧ last.2.1 = call := by
      intro last hlast
      rw [List.getLast?_filter] at hlast
      have hlast' : (served.schema kind).reverse.find? (fun p => decide (p.1 = name)) = some last := by
        simpa only [beq_eq_decide] using hlast
      exact ⟨by simpa using List.find?_some hlast, hcall _ (by simp [origins, published, OrdMap.get?_ofList, hlast'])⟩
    rw [List.head?_map, List.getLast?_map]
    cases hhead : named.head? with
    | none => simp [List.head?_eq_none_iff.mp hhead]
    | some first =>
        cases hget : named.getLast? with
        | none => simp [List.getLast?_eq_none_iff.mp hget] at hhead
        | some last =>
            obtain ⟨hname, hcall⟩ := hfirst first hhead
            obtain ⟨hname', hcall'⟩ := hlast last hget
            simp [f, hname, hname', hcall, hcall']

variable (provider : Provider parts.traced)

theorem decoded_erase (kind : Kind) (name : String) :
    provider.erase.decoded kind name = (provider.decoded kind name).map Prod.snd := by
  simp only [decoded, erase, List.find?_map, Option.map_map]
  rfl

theorem published_erase (kind : Kind) (name : String) :
    provider.erase.published kind name = (provider.published kind name).map Prod.snd := by
  simp only [published, erase, OrdMap.get?_ofList, ← List.map_reverse, List.find?_map, Option.map_map]
  rfl

theorem publishedIdentity_erase (name : String) :
    provider.erase.publishedIdentity name = (provider.publishedIdentity name).map Prod.snd := by
  have hentries : (provider.erase.schema .resource).filterMap
        (fun entry => (parts.identity entry.2).map (entry.1, ·)) =
      ((provider.schema .resource).filterMap
        fun entry => (parts.traced.identity entry.2).map (entry.1, ·)).map fun entry => (entry.1, entry.2.2) := by
    rw [erase, List.filterMap_map, List.map_filterMap]
    congr 1
    funext entry
    cases h : parts.identity entry.2.2 <;> simp [h]
  rw [publishedIdentity, hentries, publishedIdentity]
  simp only [OrdMap.get?_ofList, ← List.map_reverse, List.find?_map, Option.map_map]
  rfl

theorem handler_erase (kind : Kind) (name : String) :
    provider.erase.handler kind name = (provider.handler kind name).map Prod.snd := by
  have hor : (provider.erase.configured.bind (· kind name)).or (provider.erase.eager kind name) =
      ((provider.configured.bind (· kind name)).or (provider.eager kind name)).map Prod.snd := by
    cases hconfigured : provider.configured with
    | none => simp [erase, hconfigured, HandlerMap.erase]
    | some handlers => cases h : handlers kind name <;> simp [erase, hconfigured, HandlerMap.erase, h]
  cases kind <;> first | exact hor | rfl

end Provider

/-- Under every name everything comes from one registration, exactly when no
kind registers a name twice. -/
theorem one_registration_iff {calls : Calls parts μ} {built : Provider parts} (h : calls.run .empty = .ok built) :
    ∃ traced, (calls.traced 0).run .empty = .ok traced ∧
      (∀ served, built.Reaches served ↔ ∃ served', traced.Reaches served' ∧ served'.erase = served) ∧
      ((∀ served, traced.Reaches served → ∀ kind name, served.OneOrigin kind name) ↔ calls.registered.Nodup) := by
  have herase := calls.run_erase .empty 0
  obtain ⟨ν, final, hrun, hlog⟩ := calls.exists_sourced 0 (@ProviderBuilder.sourced_empty parts μ)
  obtain ⟨traced, htraced, rfl⟩ := Outcome.map_eq_ok.mp (herase.symm.trans h)
  obtain ⟨hserved, -⟩ := Provider.served_build (hrun.symm.trans htraced)
  rw [List.nil_append] at hlog
  refine ⟨traced, htraced, fun served => Provider.reaches_erase, ?_, ?_⟩
  · intro hone
    rw [← calls.map_snd_log 0]
    exact hserved.nodup_of_oneOrigin hlog (calls.log_nodup 0) (hone traced .refl)
  · intro hnodup served hreaches kind name
    have hnodup : ((calls.log 0).map Prod.snd).Nodup := by rwa [calls.map_snd_log]
    have hmem : ∀ origin ∈ served.origins kind name, (origin, kind, name) ∈ calls.log 0 :=
      fun origin horigin => (hserved.reaches hreaches).mem_log hlog horigin
    cases horigins : served.origins kind name with
    | nil => exact ⟨0, by simp [horigins]⟩
    | cons call rest =>
        refine ⟨call, fun origin horigin => ?_⟩
        have hcall := hmem call (by simp [horigins])
        exact congrArg Prod.fst (List.inj_on_of_nodup_map hnodup (hmem origin horigin) hcall rfl)

def closed : DynDataSource := ⟨fun _ => unsupported, .clean⟩

def bucket : Model := ⟨"bucket", "bucket", "bucket"⟩

def buckets : Model := ⟨"buckets", "buckets", "buckets"⟩

def bucketsBlock : Block := ⟨[.new "region" .string], []⟩

def bucketListBlock : Block := ⟨[.new "results" (.list .string)], []⟩

def bucketIdentity : IdentitySchema := ⟨[⟨"region", .string⟩, ⟨"name", .string⟩]⟩

def bucketBody : ResourceBody := ⟨0, bucketsBlock, some bucketIdentity⟩

def bucketList : ListResourceBody := ⟨bucketsBlock, bucketIdentity, bucketsBlock.ctyType⟩

def unlisted : DynListResource := ⟨fun _ => unsupported, .clean⟩

def regionSignature : FunctionSignature := ⟨[⟨"arn", .string, false, false⟩], none, .string⟩

def regionOf : DynFunction := ⟨fun args => pure (.ok (args.headD .null))⟩

/-- One name for three kinds, two names for each of two, before the configure
step and after it. -/
def bucketRegistry : Calls Parts.real Unit :=
  .andThen (.dataSource bucket (.ok bucketsBlock) closed)
    (.andThen (.dataSourceList bucket (.ok (bucketListBlock, ["region"])) fun _ => closed)
      (.configure noMeta
        (.andThen (.resource bucket 2 (.ok bucketBody) idle)
          (.andThen noteWith
            (.andThen (.listResource bucket (.ok bucketList) unlisted)
              (.andThen (.function "region_of" (.ok regionSignature) regionOf) .build))))))

theorem one_registration_buckets : ∃ traced, (bucketRegistry.traced 0).run .empty = .ok traced ∧
    ∀ served, traced.Reaches served → ∀ kind name, served.OneOrigin kind name := by
  have hrun : bucketRegistry.run .empty = .ok _ := rfl
  have hnodup : bucketRegistry.registered.Nodup := by decide
  obtain ⟨traced, htraced, -, hiff⟩ := one_registration_iff hrun
  exact ⟨traced, htraced, hiff.mpr hnodup⟩

def bucketsTwice : Calls Parts.real Unit :=
  .andThen (.dataSource buckets (.ok bucketsBlock) closed)
    (.andThen (.dataSourceList bucket (.ok (bucketListBlock, [])) fun _ => closed) .build)

theorem buckets_mixed : ∃ traced, (bucketsTwice.traced 0).run .empty = .ok traced ∧
    traced.erase.published .dataSource "buckets" = some bucketListBlock ∧
    traced.erase.decoded .dataSource "buckets" = some bucketsBlock ∧ bucketsBlock ≠ bucketListBlock ∧
    ¬traced.OneOrigin .dataSource "buckets" := by
  refine ⟨_, rfl, ?_, rfl, ?_, ?_⟩
  · rw [Provider.published, OrdMap.get?_ofList]
    rfl
  · intro h
    simp [bucketsBlock, bucketListBlock, AttributeSchema.new] at h
  · rintro ⟨call, hcall⟩
    have hdecoded : 0 = call := hcall 0 (List.mem_append_left _ (List.mem_append_left _
      (List.mem_append_right _ (List.mem_singleton.mpr rfl))))
    have hpublished : 1 = call := by
      apply hcall 1
      rw [Provider.origins, Provider.published, OrdMap.get?_ofList]
      exact List.mem_append_left _ (List.mem_append_left _ (List.mem_append_left _ (List.mem_singleton.mpr rfl)))
    omega

end Plugin

end TofuSdk
