import TofuSdk.Chunks
import TofuSdk.Guard
import TofuSdk.Registered
import TofuSdk.Run
import TofuSdk.Writes

namespace TofuSdk

namespace Plugin

open TofuSdk.Service

/-- A request to the service, and the response to it if there was one. -/
structure Request where
  {ρ : Type}
  rpc : Rpc ρ
  response : Option ρ

namespace Request

def stops : Request → Bool
  | ⟨.stopProvider, some _⟩ => true
  | _ => false

/-- The chunk size that the service agrees on for a state store, when it
connects the store. -/
def agrees : Request → Option (String × Int)
  | ⟨.configureStateStore req, some response⟩ => response.chunkSize.map (req.typeName, ·)
  | _ => none

/-- The chunk sizes that have been agreed on, the last of a store counting. -/
def agreed (sizes : String → Option Int) (request : Request) : String → Option Int :=
  match request.agrees with
  | some (typeName, size) => Function.update sizes typeName (some size)
  | none => sizes

def Discovers (provider : Provider Parts.real) : Request → Prop
  | ⟨.getMetadata, some names⟩ => names = fun kind => (provider.schema kind).map Prod.fst
  | ⟨.getProviderSchema, some schemas⟩ => schemas = fun kind name => provider.published kind name
  | ⟨.getResourceIdentitySchemas, some schemas⟩ => schemas = provider.publishedIdentity
  | ⟨.getFunctions, some signatures⟩ => signatures = provider.published .function
  | _ => True

end Request

namespace ProviderService

/-- The service serves a request. One that is never answered leaves the service
as it was. -/
def Serves (crates : Crates) (service : ProviderService) (request : Request) (next : ProviderService) : Prop :=
  match (service.serve crates request.rpc).ending with
  | .returned (response, changed) => request.response = some response ∧ next = changed
  | _ => request.response = none ∧ next = service

/-- What a request may change of a service. -/
inductive Changes (service : ProviderService) : Request → ProviderService → Prop
  | kept (request : Request) (hstops : request.stops = false) (hagrees : request.agrees = none) :
      Changes service request service
  | configured (config : Option DynamicValue) (response : DiagnosticsResponse) (provider : Provider Parts.real)
      (hprovider : service.provider.ConfiguredTo provider) :
      Changes service ⟨.configureProvider config, some response⟩ { service with provider := provider }
  | connected (req : ConfigureStoreRequest) (diagnostics : List Diagnostic) (backend : DynStateBackend) :
      Changes service
        ⟨.configureStateStore req, some { diagnostics, chunkSize := some (suggestedChunkSize req.chunkSize) }⟩
        { service with backends :=
            Function.update service.backends req.typeName (some ⟨backend, suggestedChunkSize req.chunkSize⟩) }
  | stopped : Changes service ⟨.stopProvider, some ()⟩ { service with cancelled := true }

section

variable {crates : Crates} {service next : ProviderService}

theorem changes_configureProvider {config : Option DynamicValue} {response : DiagnosticsResponse}
    (h : (service.configureProvider crates config).ending = .returned (response, next)) :
    service.Changes ⟨.configureProvider config, some response⟩ next := by
  rw [configureProvider] at h
  cases hconfig : Service.decodeDynamic crates config service.provider.providerConfigTy with
  | error e =>
      rw [hconfig] at h
      cases h
      exact .kept _ rfl rfl
  | ok value =>
      rw [hconfig] at h
      dsimp only at h
      rw [Fut.ending_bind] at h
      obtain ⟨result, hresult, h⟩ := Ending.bind_eq_returned.mp h
      cases result with
      | ok provider =>
          cases h
          exact .configured config {} provider ⟨value, hresult⟩
      | error diags =>
          cases h
          exact .kept _ rfl rfl

theorem changes_configureStateStore {req : ConfigureStoreRequest} {response : ConfigureStoreResponse}
    (h : (service.configureStateStore crates req).ending = .returned (response, next)) :
    service.Changes ⟨.configureStateStore req, some response⟩ next := by
  rw [configureStateStore] at h
  unfold runUnder at h
  split at h
  · split at h
    · cases h
      exact .kept _ rfl rfl
    · next handler _ _ _ value _ =>
        have hsome := congrArg Ending.toOption h
        rw [toOption_run] at hsome
        cases hfinish : (handler.configure value []).finish with
        | returned result =>
            rw [hfinish] at hsome
            cases result with
            | ok backend =>
                cases hsome
                exact .connected req _ backend
            | error diags =>
                cases hsome
                exact .kept _ rfl rfl
        | panicked payload =>
            rw [hfinish] at hsome
            cases hsome
            exact .kept _ rfl rfl
        | pending =>
            rw [hfinish] at hsome
            cases hsome
  · cases h
    exact .kept _ rfl rfl

theorem changes_of_map {ρ : Type} {rpc : Rpc ρ} {answer : Future ρ} {response : ρ}
    (h : ((·, service) <$> answer).ending = .returned (response, next))
    (hstops : Request.stops ⟨rpc, some response⟩ = false) (hagrees : Request.agrees ⟨rpc, some response⟩ = none) :
    service.Changes ⟨rpc, some response⟩ next := by
  rw [← bind_pure_comp, Fut.ending_bind] at h
  obtain ⟨value, -, h⟩ := Ending.bind_eq_returned.mp h
  cases h
  exact .kept _ hstops hagrees

theorem changes_of_serves {request : Request} (h : service.Serves crates request next) :
    service.Changes request next := by
  obtain ⟨rpc, answer⟩ := request
  rw [Serves] at h
  dsimp only at h
  cases hserve : (service.serve crates rpc).ending with
  | returned served =>
      obtain ⟨response, changed⟩ := served
      rw [hserve] at h
      obtain ⟨rfl, rfl⟩ := h
      cases rpc with
      | configureProvider config => exact changes_configureProvider hserve
      | configureStateStore req => exact changes_configureStateStore hserve
      | stopProvider =>
          cases hserve
          exact .stopped
      | getMetadata | getProviderSchema | getResourceIdentitySchemas | upgradeResourceIdentity req
      | generateResourceConfig | getFunctions =>
          cases hserve
          exact .kept _ rfl rfl
      | _ => exact changes_of_map hserve rfl rfl
  | panicked payload =>
      rw [hserve] at h
      obtain ⟨rfl, rfl⟩ := h
      exact .kept _ (by cases rpc <;> rfl) (by cases rpc <;> rfl)
  | pending =>
      rw [hserve] at h
      obtain ⟨rfl, rfl⟩ := h
      exact .kept _ (by cases rpc <;> rfl) (by cases rpc <;> rfl)

end

section

variable {crates : Crates} {first last : ProviderService} {trace : List (ProviderService × Request)}

def sizes (service : ProviderService) (name : String) : Option Int := (service.backends name).map (·.chunkSize)

theorem sizes_of_changes {service next : ProviderService} {request : Request} (h : service.Changes request next) :
    next.sizes = request.agreed service.sizes := by
  cases h with
  | kept _ _ hagrees =>
      rw [Request.agreed, hagrees]
  | configured config response provider _ => rfl
  | connected req diagnostics backend =>
      funext name
      by_cases hname : name = req.typeName
      · subst hname
        simp [sizes, Request.agreed, Request.agrees]
      · simp [sizes, Request.agreed, Request.agrees, hname]
  | stopped => rfl

theorem cancelled_of_changes {service next : ProviderService} {request : Request} (h : service.Changes request next) :
    next.cancelled = (service.cancelled || request.stops) := by
  cases h with
  | kept _ hstops _ => rw [hstops, Bool.or_false]
  | configured config response provider _ => exact (Bool.or_false _).symm
  | connected req diagnostics backend => exact (Bool.or_false _).symm
  | stopped => exact (Bool.or_true _).symm

def Later (provider later : Provider Parts.real) : Prop :=
  (∃ configured, later = { provider with configured }) ∧ (provider.Ready → later = provider)

theorem later_of_changes {service next : ProviderService} {request : Request} (h : service.Changes request next) :
    Later service.provider next.provider := by
  cases h with
  | kept _ _ _ => exact ⟨⟨service.provider.configured, rfl⟩, fun _ => rfl⟩
  | configured config response provider hprovider =>
      obtain ⟨rfl, -⟩ | ⟨configure, config, handlers, hfn, hnone, -, rfl⟩ := Provider.configuredTo_cases hprovider
      · exact ⟨⟨service.provider.configured, rfl⟩, fun _ => rfl⟩
      · refine ⟨⟨some handlers, rfl⟩, ?_⟩
        rintro (hnofn | hconfigured)
        · rw [hfn] at hnofn
          cases hnofn
        · rw [hnone] at hconfigured
          cases hconfigured
  | connected req diagnostics backend => exact ⟨⟨service.provider.configured, rfl⟩, fun _ => rfl⟩
  | stopped => exact ⟨⟨service.provider.configured, rfl⟩, fun _ => rfl⟩

theorem Later.trans {p q r : Provider Parts.real} (hpq : Later p q) (hqr : Later q r) : Later p r := by
  obtain ⟨⟨configured, rfl⟩, hp⟩ := hpq
  obtain ⟨⟨configured', rfl⟩, hq⟩ := hqr
  refine ⟨⟨configured', rfl⟩, fun hready => ?_⟩
  have hsame := hp hready
  rw [hsame] at hq
  exact hq hready

theorem later_of_run (h : Run (Serves crates) first trace last) : Later first.provider last.provider := by
  refine @Run.invariant _ _ _ _ _ _ (fun service => Later first.provider service.provider) (fun _ _ => True) ?_ h
    (fun _ _ => trivial) ⟨⟨first.provider.configured, rfl⟩, fun _ => rfl⟩
  exact fun _ _ _ hserves _ hlater => hlater.trans (later_of_changes (changes_of_serves hserves))

theorem discovers_of_serves {service next : ProviderService} {request : Request}
    (h : service.Serves crates request next) : request.Discovers service.provider := by
  obtain ⟨rpc, response⟩ := request
  rw [Serves] at h
  cases rpc with
  | getMetadata | getProviderSchema | getResourceIdentitySchemas | getFunctions =>
      have hresponse : response = some _ := h.1
      subst hresponse
      rfl
  | _ => trivial

theorem sizes_of_run (h : Run (Serves crates) first trace last) :
    last.sizes = (trace.map Prod.snd).foldl Request.agreed first.sizes := by
  induction h with
  | nil s => rfl
  | cons s t u request rest hserves _ ih =>
      rw [ih, List.map_cons, List.foldl_cons, sizes_of_changes (changes_of_serves hserves)]

/-- What a run of requests, in any order, makes of a service. -/
structure Session (first : ProviderService) (trace : List (ProviderService × Request)) (last : ProviderService) : Prop
    where
  discovers : ∀ p ∈ trace, p.2.Discovers first.provider
  /-- Once a service is ready, no request changes its handlers. -/
  settles : first.provider.Ready → last.provider = first.provider
  cancelled : last.cancelled = (first.cancelled || trace.any fun p => p.2.stops)
  sizes : last.sizes = (trace.map Prod.snd).foldl Request.agreed first.sizes

theorem session_of_run (h : Run (Serves crates) first trace last) : Session first trace last where
  discovers p hp := by
    obtain ⟨before, u, hbefore, hserves, -⟩ := h.reached_of_mem hp
    obtain ⟨⟨configured, hlater⟩, -⟩ := later_of_run hbefore
    have hdiscovers := discovers_of_serves hserves
    rw [hlater] at hdiscovers
    exact hdiscovers
  settles := (later_of_run h).2
  cancelled := by
    induction h with
    | nil s => exact (Bool.or_false _).symm
    | cons s t u request rest hserves _ ih =>
        rw [ih, cancelled_of_changes (changes_of_serves hserves), List.any_cons, Bool.or_assoc]
  sizes := sizes_of_run h

theorem suggestedChunkSize_pos (suggested : Option Int) : 0 < suggestedChunkSize suggested := by
  have hdefault : 0 < defaultStateChunkSize := by decide
  rw [suggestedChunkSize]
  cases suggested with
  | none => exact hdefault
  | some size =>
      by_cases hsize : 0 < size
      · simp [Option.filter, hsize]
      · simp [Option.filter, hsize, hdefault]

theorem sizes_pos_of_run (h : Run (Serves crates) first trace last)
    (hfirst : ∀ name size, first.sizes name = some size → 0 < size) :
    ∀ name size, last.sizes name = some size → 0 < size := by
  refine @Run.invariant _ _ _ _ _ _ (fun service => ∀ name size, service.sizes name = some size → 0 < size)
    (fun _ _ => True) ?_ h (fun _ _ => trivial) hfirst
  intro service request next hserves _ hpos name size hsize
  cases changes_of_serves hserves with
  | kept _ _ _ => exact hpos name size hsize
  | configured config response provider _ => exact hpos name size hsize
  | stopped => exact hpos name size hsize
  | connected req diagnostics backend =>
      by_cases hname : name = req.typeName
      · subst hname
        simp only [sizes, Function.update_self, Option.map_some, Option.some.injEq] at hsize
        rw [← hsize]
        exact suggestedChunkSize_pos req.chunkSize
      · apply hpos name size
        simpa [sizes, hname] using hsize

theorem toOption_of_serves {service next : ProviderService} {ρ : Type} {rpc : Rpc ρ} {answer : Future ρ} {response : ρ}
    (hserve : service.serve crates rpc = (·, service) <$> answer)
    (h : service.Serves crates ⟨rpc, some response⟩ next) : answer.ending.toOption = some response := by
  rw [Serves] at h
  dsimp only at h
  rw [hserve, ← bind_pure_comp, Fut.ending_bind] at h
  cases hending : answer.ending with
  | returned value =>
      rw [hending] at h
      exact h.1.symm
  | panicked payload =>
      rw [hending] at h
      cases h.1
  | pending =>
      rw [hending] at h
      cases h.1

/-- A read is answered in pieces of at most the size that was agreed on, and
with an error when no store is connected. -/
theorem chunks_of_serves {service next : ProviderService} {req : StateRequest} {chunks : List ReadChunk}
    (h : service.Serves crates ⟨.readStateBytes req, some chunks⟩ next) :
    (∀ size, service.sizes req.typeName = some size → 0 < size →
      ∀ chunk ∈ chunks, (chunk.bytes.length : Int) ≤ size) ∧
    (service.sizes req.typeName = none → ∃ chunk ∈ chunks, hasError chunk.diagnostics = true) := by
  have hanswer := toOption_of_serves rfl h
  rw [readStateBytes, runBackend] at hanswer
  rw [sizes]
  cases hbackend : service.backends req.typeName with
  | none =>
      rw [hbackend] at hanswer
      cases hanswer
      refine ⟨fun size hsize => ?_, fun _ => ⟨_, List.mem_singleton_self _, hasError_stateStoreUnavailable _⟩⟩
      cases hsize
  | some configured =>
      rw [hbackend, toOption_run] at hanswer
      refine ⟨?_, fun hnone => by cases hnone⟩
      intro size hsize hpos chunk hchunk
      obtain rfl : configured.chunkSize = size := Option.some.inj hsize
      have hempty : ∀ diagnostics, chunk ∈ [({ diagnostics } : ReadChunk)] →
          (chunk.bytes.length : Int) ≤ configured.chunkSize := by
        intro diagnostics hchunk
        obtain rfl := List.mem_singleton.mp hchunk
        exact hpos.le
      cases hfinish : (configured.backend.readState req.stateId []).finish with
      | returned result =>
          rw [hfinish] at hanswer
          cases result with
          | ok bytes =>
              obtain rfl := Option.some.inj hanswer
              rcases List.mem_append.mp hchunk with hchunk | hchunk
              · have hbounded := (splits_chunkState bytes configured.chunkSize).bounded chunk hchunk
                omega
              · split_ifs at hchunk
                · cases hchunk
                · exact hempty _ hchunk
          | error diags =>
              obtain rfl := Option.some.inj hanswer
              exact hempty _ hchunk
      | panicked payload =>
          rw [hfinish] at hanswer
          obtain rfl := Option.some.inj hanswer
          exact hempty _ hchunk
      | pending =>
          rw [hfinish] at hanswer
          cases hanswer

/-- From a new service on, a state is read in pieces of at most the size that
was last agreed on for its store, and not at all before one was. -/
theorem reads_agreed {provider : Provider Parts.real} {service : ProviderService} {req : StateRequest}
    {chunks : List ReadChunk}
    (h : Run (Serves crates) (.new provider) (trace ++ [(service, ⟨.readStateBytes req, some chunks⟩)]) last) :
    (∀ size, (trace.map Prod.snd).foldl Request.agreed (fun _ => none) req.typeName = some size →
      ∀ chunk ∈ chunks, (chunk.bytes.length : Int) ≤ size) ∧
    ((trace.map Prod.snd).foldl Request.agreed (fun _ => none) req.typeName = none →
      ∃ chunk ∈ chunks, hasError chunk.diagnostics = true) := by
  rw [Run.append_iff] at h
  obtain ⟨u, htrace, h⟩ := h
  rw [Run.cons_iff] at h
  obtain ⟨rfl, v, hserves, -⟩ := h
  have hsizes : service.sizes = (trace.map Prod.snd).foldl Request.agreed fun _ => none := sizes_of_run htrace
  have hpos := sizes_pos_of_run htrace (fun name size hsize => by cases hsize)
  obtain ⟨hbounded, hrefused⟩ := chunks_of_serves hserves
  rw [← hsizes]
  exact ⟨fun size hsize => hbounded size hsize (hpos _ _ hsize), hrefused⟩

end

def stoppedTrace : List (ProviderService × Request) :=
  [(vaultService, ⟨.stopProvider, some ()⟩),
    ({ vaultService with cancelled := true }, ⟨.readStateBytes ⟨"vault", "default"⟩, some [{ range := some (0, 0) }]⟩)]

theorem session_of_run_vault :
    Session vaultService stoppedTrace { vaultService with cancelled := true } := by
  have hstop : vaultService.Serves Crates.real ⟨.stopProvider, some ()⟩ { vaultService with cancelled := true } :=
    ⟨rfl, rfl⟩
  have hread : ({ vaultService with cancelled := true } : ProviderService).Serves Crates.real
      ⟨.readStateBytes ⟨"vault", "default"⟩, some [{ range := some (0, 0) }]⟩
      { vaultService with cancelled := true } := ⟨rfl, rfl⟩
  exact session_of_run (.cons _ _ _ _ _ hstop (.cons _ _ _ _ _ hread (.nil _)))

def fullStore : DynStateBackend := { openStore with readState := fun _ _ => ⟨[], .returned (.ok [1, 2, 3])⟩ }

def vaultStore : DynStateStore := ⟨fun _ _ => ⟨[], .returned []⟩, fun _ _ => ⟨[], .returned (.ok fullStore)⟩⟩

def vaultProvider : Provider Parts.real where
  block := none
  schema
    | .stateStore => [("vault", (⟨[], []⟩ : Block))]
    | _ => []
  eager := HandlerMap.empty.insert .stateStore "vault" vaultStore
  configureFn := none
  configured := none
  dynConfigure := none
  validateConfig := none

def connectedVault : ProviderService :=
  { ProviderService.new vaultProvider with
    backends := Function.update (fun _ => none) "vault" (some ⟨fullStore, 2⟩) }

def connectVault : Request := ⟨.configureStateStore ⟨"vault", none, some 2⟩, some { chunkSize := some 2 }⟩

def vaultChunks : List ReadChunk := chunkState [1, 2, 3] 2

theorem reads_agreed_vault : vaultChunks.length = 2 ∧ ∀ chunk ∈ vaultChunks, (chunk.bytes.length : Int) ≤ 2 := by
  have hconnect : (ProviderService.new vaultProvider).Serves Crates.real connectVault connectedVault := ⟨rfl, rfl⟩
  have hread : connectedVault.Serves Crates.real ⟨.readStateBytes ⟨"vault", "default"⟩, some vaultChunks⟩
      connectedVault := ⟨rfl, rfl⟩
  have hreads := @reads_agreed Crates.real _ [(_, connectVault)] _ _ ⟨"vault", "default"⟩ _
    (.cons _ _ _ _ _ hconnect (.cons _ _ _ _ _ hread (.nil _)))
  exact ⟨rfl, hreads.1 2 rfl⟩

end ProviderService

end Plugin

end TofuSdk
