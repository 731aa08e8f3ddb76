import TofuSdk.Guard
import TofuSdk.Shelf
import TofuSdk.Writes

namespace TofuSdk

namespace Plugin

open TofuSdk.Service

/-- An operation of a connected state store. -/
inductive StoreOp : Type → Type
  | readState (stateId : String) : StoreOp Bytes
  | writeState (stateId : String) (data : Bytes) : StoreOp Unit
  | lock (stateId operation : String) : StoreOp String
  | unlock (stateId lockId : String) : StoreOp Unit
  | states : StoreOp (List String)
  | deleteState (stateId : String) : StoreOp Unit

def StoreOp.label {α : Type} : StoreOp α → String
  | .readState _ => "read state"
  | .writeState _ _ => "write state"
  | .lock _ _ => "lock state"
  | .unlock _ _ => "unlock state"
  | .states => "get states"
  | .deleteState _ => "delete state"

def DynStateBackend.perform (backend : DynStateBackend) {α : Type} : StoreOp α → Handler α
  | .readState stateId => backend.readState stateId
  | .writeState stateId data => backend.writeState stateId data
  | .lock stateId operation => backend.lock stateId operation
  | .unlock stateId lockId => backend.unlock stateId lockId
  | .states => backend.states
  | .deleteState stateId => backend.deleteState stateId

/-- A request to a state store. -/
inductive StoreRpc : Type → Type
  | read (req : StateRequest) : StoreRpc (List ReadChunk)
  | write (chunks : List (Except Status WriteChunk)) : StoreRpc DiagnosticsResponse
  | lock (req : LockRequest) : StoreRpc LockResponse
  | unlock (req : UnlockRequest) : StoreRpc DiagnosticsResponse
  | states (typeName : String) : StoreRpc StatesResponse
  | delete (req : StateRequest) : StoreRpc DiagnosticsResponse

def StoreRpc.toRpc {ρ : Type} : StoreRpc ρ → Rpc ρ
  | .read req => .readStateBytes req
  | .write chunks => .writeStateBytes chunks
  | .lock req => .lockState req
  | .unlock req => .unlockState req
  | .states typeName => .getStates typeName
  | .delete req => .deleteState req

namespace ProviderService

variable {F : Type → Type} [Functor F] [Pure F] (service : ProviderService)
  (perform : String → ConfiguredBackend → {α : Type} → StoreOp α → F (Except Diagnostics α × CtxOutputs))

def runBackendVia {α ρ : Type} (typeName : String) (op : StoreOp α) (refuse : List Diagnostic → ρ)
    (respond : ConfiguredBackend → Except Diagnostics α × CtxOutputs → ρ) : F ρ :=
  match service.backends typeName with
  | none => pure (refuse (service.stateStoreUnavailable typeName))
  | some backend => respond backend <$> perform typeName backend op

def respondChunks (backend : ConfiguredBackend) (result : Except Diagnostics Bytes × CtxOutputs) : List ReadChunk :=
  match result.1 with
  | .ok bytes => chunkState bytes backend.chunkSize ++
      if result.2.warnings.isEmpty then [] else [{ diagnostics := pbDiagnostics result.2.warnings }]
  | .error diags => [{ diagnostics := diagsWithWarnings diags result.2 }]

def respondLock (result : Except Diagnostics String × CtxOutputs) : LockResponse :=
  match result.1 with
  | .ok lockId => { lockId := lockId, diagnostics := pbDiagnostics result.2.warnings }
  | .error diags => { diagnostics := diagsWithWarnings diags result.2 }

def respondStates (result : Except Diagnostics (List String) × CtxOutputs) : StatesResponse :=
  match result.1 with
  | .ok stateId => { stateId := stateId, diagnostics := pbDiagnostics result.2.warnings }
  | .error diags => { diagnostics := diagsWithWarnings diags result.2 }

def serveStoreVia {ρ : Type} : StoreRpc ρ → F ρ
  | .read req => service.runBackendVia perform req.typeName (.readState req.stateId)
      (fun diagnostics => [{ diagnostics := diagnostics }]) respondChunks
  | .write chunks => match drainChunks chunks with
      | .error status => pure ⟨errorDiag "failed to receive state bytes" status.message⟩
      | .ok (none, _) =>
          pure ⟨errorDiag "missing write metadata" "the first WriteStateBytes chunk carried no type_name/state_id"⟩
      | .ok (some req, data) => service.runBackendVia perform req.typeName (.writeState req.stateId data) (⟨·⟩)
          fun _ result => ⟨outcomeDiagnostics result⟩
  | .lock req => service.runBackendVia perform req.typeName (.lock req.stateId req.operation) ({ diagnostics := · })
      fun _ => respondLock
  | .unlock req => service.runBackendVia perform req.typeName (.unlock req.stateId req.lockId) (⟨·⟩)
      fun _ result => ⟨outcomeDiagnostics result⟩
  | .states typeName => service.runBackendVia perform typeName .states ({ diagnostics := · }) fun _ => respondStates
  | .delete req => service.runBackendVia perform req.typeName (.deleteState req.stateId) (⟨·⟩)
      fun _ result => ⟨outcomeDiagnostics result⟩

end ProviderService

/-- What comes of the author's stores, whose calls work on what they store. -/
structure Stores (σ : Type) where
  perform (typeName : String) {α : Type} (op : StoreOp α) : σ → TofuSdk.Call α × σ

def Stateful (σ α : Type) : Type := σ → Future α × σ

instance {σ : Type} : Functor (Stateful σ) where
  map f call := fun s => (f <$> (call s).1, (call s).2)

instance {σ : Type} : Pure (Stateful σ) where
  pure a := fun s => (pure a, s)

namespace Stores

variable {σ : Type} (stores : Stores σ)

def guarded (typeName : String) (_ : ConfiguredBackend) {α : Type} (op : StoreOp α) :
    Stateful σ (Except Diagnostics α × CtxOutputs) := fun s =>
  (run op.label [] fun _ => (stores.perform typeName op s).1, (stores.perform typeName op s).2)

def backendAt (typeName : String) (s : σ) : DynStateBackend where
  readState stateId _ := (stores.perform typeName (.readState stateId) s).1
  writeState stateId data _ := (stores.perform typeName (.writeState stateId data) s).1
  lock stateId operation _ := (stores.perform typeName (.lock stateId operation) s).1
  unlock stateId lockId _ := (stores.perform typeName (.unlock stateId lockId) s).1
  states _ := (stores.perform typeName .states s).1
  deleteState stateId _ := (stores.perform typeName (.deleteState stateId) s).1

def serviceAt (service : ProviderService) (s : σ) : ProviderService :=
  { service with backends := fun name =>
      (service.backends name).map fun configured => { configured with backend := stores.backendAt name s } }

theorem perform_backendAt (typeName : String) (s : σ) {α : Type} (op : StoreOp α) :
    (stores.backendAt typeName s).perform op = fun _ => (stores.perform typeName op s).1 := by
  cases op <;> rfl

theorem runBackend_serviceAt (service : ProviderService) (typeName : String) {α ρ : Type} (op : StoreOp α) (s : σ)
    {label : String} (hlabel : label = op.label) {call : DynStateBackend → Handler α}
    (hcall : ∀ backend, call backend = backend.perform op)
    (refuse : List Diagnostic → ρ) {respond : ConfiguredBackend → Except Diagnostics α × CtxOutputs → ρ}
    (hsize : ∀ backend configured, respond ⟨backend, configured.chunkSize⟩ = respond configured) :
    (stores.serviceAt service s).runBackend typeName label refuse call respond =
      (service.runBackendVia stores.guarded typeName op refuse respond s).1 := by
  rw [hlabel, ProviderService.runBackend, ProviderService.runBackendVia]
  simp only [serviceAt]
  cases service.backends typeName with
  | none => rfl
  | some configured =>
      simp only [Option.map_some]
      rw [hcall, hsize, perform_backendAt]
      rfl

theorem serve_serviceAt (crates : Crates) (service : ProviderService) {ρ : Type} (rpc : StoreRpc ρ) (s : σ) :
    (stores.serviceAt service s).serve crates rpc.toRpc =
      (·, stores.serviceAt service s) <$> (service.serveStoreVia stores.guarded rpc s).1 := by
  have hmap : ∀ {ρ : Type} {response response' : Future ρ}, response = response' →
      (·, stores.serviceAt service s) <$> response = (·, stores.serviceAt service s) <$> response' :=
    fun h => by rw [h]
  cases rpc with
  | read req =>
      apply hmap
      rw [ProviderService.readStateBytes, ProviderService.serveStoreVia]
      exact stores.runBackend_serviceAt service req.typeName (.readState req.stateId) s rfl
        (fun _ => rfl) _ fun _ _ => rfl
  | write chunks =>
      apply hmap
      rw [ProviderService.writeStateStream, ProviderService.serveStoreVia]
      cases ProviderService.drainChunks chunks with
      | error status => rfl
      | ok drained =>
          obtain ⟨_ | req, data⟩ := drained
          · rfl
          · exact stores.runBackend_serviceAt service req.typeName (.writeState req.stateId data) s rfl (fun _ => rfl) _
              fun _ _ => rfl
  | lock req =>
      apply hmap
      rw [ProviderService.lockState, ProviderService.serveStoreVia]
      exact stores.runBackend_serviceAt service req.typeName (.lock req.stateId req.operation) s rfl
        (fun _ => rfl) _ fun _ _ => rfl
  | unlock req =>
      apply hmap
      rw [ProviderService.unlockState, ProviderService.serveStoreVia]
      exact stores.runBackend_serviceAt service req.typeName (.unlock req.stateId req.lockId) s rfl
        (fun _ => rfl) _ fun _ _ => rfl
  | states typeName =>
      apply hmap
      rw [ProviderService.getStates, ProviderService.serveStoreVia]
      exact stores.runBackend_serviceAt service typeName .states s rfl (fun _ => rfl) _ fun _ _ => rfl
  | delete req =>
      apply hmap
      rw [ProviderService.deleteState, ProviderService.serveStoreVia]
      exact stores.runBackend_serviceAt service req.typeName (.deleteState req.stateId) s rfl
        (fun _ => rfl) _ fun _ _ => rfl

end Stores

deriving instance DecidableEq for StateRequest

abbrev StateShelf := Shelf StateRequest Bytes String

abbrev StateEvent := Shelf.Event StateRequest Bytes String

/-- What an operation did that succeeded, in a store that keeps of the bytes
what it can. -/
def StoreOp.event (keep : Bytes → Bytes) (typeName : String) {α : Type} : StoreOp α → α → StateEvent
  | .readState stateId, data => .read ⟨typeName, stateId⟩ data
  | .writeState stateId data, _ => .wrote ⟨typeName, stateId⟩ (keep data)
  | .lock stateId _, lockId => .locked ⟨typeName, stateId⟩ lockId
  | .unlock stateId _, _ => .unlocked ⟨typeName, stateId⟩
  | .states, stateIds => .listed (·.typeName = typeName) (stateIds.map (⟨typeName, ·⟩))
  | .deleteState stateId, _ => .cleared ⟨typeName, stateId⟩

def StoreOp.attempt (typeName : String) {α : Type} : StoreOp α → StateEvent
  | .readState _ => .quiet
  | .writeState stateId _ => .lost ⟨typeName, stateId⟩
  | .lock stateId _ => .contested ⟨typeName, stateId⟩
  | .unlock stateId _ => .loosened ⟨typeName, stateId⟩
  | .states => .quiet
  | .deleteState stateId => .lost ⟨typeName, stateId⟩

/-- What the stores store is a shelf, as far as calls can tell, and a call that
fails says so. -/
structure Stores.Shelves {σ : Type} (stores : Stores σ) (view : σ → StateShelf) (keep : Bytes → Bytes) : Prop where
  succeeds : ∀ (typeName : String) {α : Type} (op : StoreOp α) (s : σ) (a : α),
    (stores.perform typeName op s).1.finish = .returned (.ok a) →
      Shelf.Step (view s) (op.event keep typeName a) (view (stores.perform typeName op s).2)
  fails : ∀ (typeName : String) {α : Type} (op : StoreOp α) (s : σ),
    (∀ a, (stores.perform typeName op s).1.finish ≠ .returned (.ok a)) →
      Shelf.Step (view s) (op.attempt typeName) (view (stores.perform typeName op s).2)
  honest : ∀ (typeName : String) {α : Type} (op : StoreOp α) (s : σ) (diags : Diagnostics),
    (stores.perform typeName op s).1.finish = .returned (.error diags) → hasError (pbDiagnostics diags) = true

def StoreRpc.event (keep : Bytes → Bytes) {ρ : Type} : StoreRpc ρ → ρ → StateEvent
  | .read req, chunks => .read req (chunks.map (·.bytes)).flatten
  | .write chunks, _ => match ProviderService.drainChunks chunks with
      | .ok (some req, data) => .wrote req (keep data)
      | _ => .quiet
  | .lock req, response => .locked ⟨req.typeName, req.stateId⟩ response.lockId
  | .unlock req, _ => .unlocked ⟨req.typeName, req.stateId⟩
  | .states typeName, response => .listed (·.typeName = typeName) (response.stateId.map (⟨typeName, ·⟩))
  | .delete req, _ => .cleared req

def StoreRpc.attempt {ρ : Type} : StoreRpc ρ → StateEvent
  | .read _ => .quiet
  | .write chunks => match ProviderService.drainChunks chunks with
      | .ok (some req, _) => .lost req
      | _ => .quiet
  | .lock req => .contested ⟨req.typeName, req.stateId⟩
  | .unlock req => .loosened ⟨req.typeName, req.stateId⟩
  | .states _ => .quiet
  | .delete req => .lost req

namespace StoreRpc

def Rewrites (req : StateRequest) {ρ : Type} : StoreRpc ρ → Prop
  | .write chunks => ∃ data, ProviderService.drainChunks chunks = .ok (some req, data)
  | .delete req' => req' = req
  | _ => False

/-- What a request leaves of a state. -/
def Leaves (keep : Bytes → Bytes) (req : StateRequest) (content : Option Bytes) {ρ : Type} : StoreRpc ρ → Prop
  | .write chunks => ∃ data, ProviderService.drainChunks chunks = .ok (some req, data) ∧ content = some (keep data)
  | .delete req' => req' = req ∧ content = none
  | _ => False

def Unlocks (req : StateRequest) {ρ : Type} : StoreRpc ρ → Prop
  | .unlock req' => ⟨req'.typeName, req'.stateId⟩ = req
  | _ => False

/-- What an answer tells of a state: its bytes, or whether it is listed. -/
def Shows (req : StateRequest) (content : Option Bytes) {ρ : Type} : StoreRpc ρ → ρ → Prop
  | .read req', chunks => req' = req → (chunks.map (·.bytes)).flatten = content.getD []
  | .states typeName, response => typeName = req.typeName → (req.stateId ∈ response.stateId ↔ content.isSome = true)
  | _, _ => True

variable {ρ : Type} {rpc : StoreRpc ρ} {req : StateRequest}

theorem Leaves.map {content : Option Bytes} (keep : Bytes → Bytes) (h : rpc.Leaves id req content) :
    rpc.Leaves keep req (content.map keep) := by
  cases rpc with
  | write chunks =>
      obtain ⟨data, hdrain, rfl⟩ := h
      exact ⟨data, hdrain, rfl⟩
  | delete req' =>
      obtain ⟨rfl, rfl⟩ := h
      exact ⟨rfl, rfl⟩
  | read req' => cases h
  | lock req' => cases h
  | unlock req' => cases h
  | states typeName => cases h

variable (rpc)

theorem attempt_attempt : rpc.attempt.attempt = rpc.attempt := by
  cases rpc with
  | write chunks =>
      rw [attempt]
      cases ProviderService.drainChunks chunks with
      | error status => rfl
      | ok drained =>
          obtain ⟨_ | req, data⟩ := drained
          · rfl
          · rfl
  | _ => rfl

theorem attempt_event {keep : Bytes → Bytes} (response : ρ) : (rpc.event keep response).attempt = rpc.attempt := by
  cases rpc with
  | write chunks =>
      rw [event, attempt]
      cases ProviderService.drainChunks chunks with
      | error status => rfl
      | ok drained =>
          obtain ⟨_ | req, data⟩ := drained
          · rfl
          · rfl
  | _ => rfl

theorem touches_attempt : rpc.attempt.Touches req ↔ rpc.Rewrites req := by
  cases rpc with
  | write chunks =>
      rw [attempt, Rewrites]
      cases ProviderService.drainChunks chunks with
      | error status => exact ⟨False.elim, fun ⟨_, h⟩ => by cases h⟩
      | ok drained =>
          obtain ⟨_ | req', data⟩ := drained
          · exact ⟨False.elim, fun ⟨_, h⟩ => by cases h⟩
          · constructor
            · rintro rfl
              exact ⟨data, rfl⟩
            · rintro ⟨data', h⟩
              cases h
              rfl
  | _ => exact Iff.rfl

theorem frees_attempt : rpc.attempt.Frees req ↔ rpc.Unlocks req := by
  cases rpc with
  | write chunks =>
      rw [attempt]
      cases ProviderService.drainChunks chunks with
      | error status => exact Iff.rfl
      | ok drained =>
          obtain ⟨_ | req', data⟩ := drained
          · exact Iff.rfl
          · exact Iff.rfl
  | _ => exact Iff.rfl

end StoreRpc

/-- A request, and the response to it if there was one. -/
structure Exchange where
  {ρ : Type}
  rpc : StoreRpc ρ
  response : Option ρ

def seen {ρ : Type} (failed : ρ → Bool) (event : ρ → StateEvent) (attempt : StateEvent) (response : Option ρ) :
    StateEvent :=
  (response.filter (!failed ·)).elim attempt event

def Exchange.event (keep : Bytes → Bytes) (exchange : Exchange) : StateEvent :=
  seen exchange.rpc.toRpc.failed (exchange.rpc.event keep) exchange.rpc.attempt exchange.response

namespace Stores

variable {σ : Type} (stores : Stores σ)

/-- The service serves a request, and its stores store something else. -/
def Serves (crates : Crates) (service : ProviderService) (s : σ) (exchange : Exchange) (t : σ) : Prop :=
  exchange.response =
      (Prod.fst <$> (stores.serviceAt service s).serve crates exchange.rpc.toRpc).ending.toOption ∧
    t = (service.serveStoreVia stores.guarded exchange.rpc s).2

section

variable {keep : Bytes → Bytes} {typeName : String} {α ρ : Type} {op : StoreOp α} {s t : StateShelf}

theorem attempt_event (a : α) : (op.event keep typeName a).attempt = op.attempt typeName := by
  cases op <;> rfl

theorem step_unchanged : Shelf.Step s (op.attempt typeName) s := by
  have hattempt : (op.attempt typeName).attempt = op.attempt typeName := by cases op <;> rfl
  rw [← hattempt]
  exact Shelf.step_attempt s (op.attempt typeName)

variable {failed : ρ → Bool} {event : ρ → StateEvent} {attempt : StateEvent} {response : ρ}

theorem seen_of_failed (h : failed response = true) : seen failed event attempt (some response) = attempt := by
  rw [seen, Option.filter_some, h]
  rfl

theorem seen_of_answered (h : failed response = false) :
    seen failed event attempt (some response) = event response := by
  rw [seen, Option.filter_some, h]
  rfl

theorem step_refused (h : failed response = true) : Shelf.Step s (seen failed event .quiet (some response)) s := by
  rw [seen_of_failed h]
  rfl

theorem step_seen {a : α} (h : Shelf.Step s (op.event keep typeName a) t)
    (hok : failed response = false → event response = op.event keep typeName a) :
    Shelf.Step s (seen failed event (op.attempt typeName) (some response)) t := by
  cases hfailed : failed response with
  | true =>
      rw [seen_of_failed hfailed, ← attempt_event a]
      exact h.attempt
  | false =>
      rw [seen_of_answered hfailed, hok hfailed]
      exact h

end

variable {stores} {view : σ → StateShelf} {keep : Bytes → Bytes} (h : stores.Shelves view keep)
  {service : ProviderService}

include h in
theorem step_runBackendVia {α ρ : Type} (typeName : String) (op : StoreOp α) (s : σ)
    {refuse : List Diagnostic → ρ} {respond : ConfiguredBackend → Except Diagnostics α × CtxOutputs → ρ}
    {failed : ρ → Bool} {event : ρ → StateEvent}
    (hrefuse : ∀ diagnostics, hasError diagnostics = true → failed (refuse diagnostics) = true)
    (herror : ∀ configured diags outs, hasError (diagsWithWarnings diags outs) = true →
      failed (respond configured (.error diags, outs)) = true)
    (hok : ∀ configured a outs, failed (respond configured (.ok a, outs)) = false →
      event (respond configured (.ok a, outs)) = op.event keep typeName a) :
    Shelf.Step (view s)
      (seen failed event (op.attempt typeName)
        (service.runBackendVia stores.guarded typeName op refuse respond s).1.ending.toOption)
      (view (service.runBackendVia stores.guarded typeName op refuse respond s).2) := by
  rw [ProviderService.runBackendVia]
  cases hbackend : service.backends typeName with
  | none =>
      have hrefused := hrefuse _ (service.hasError_stateStoreUnavailable typeName)
      change Shelf.Step (view s) (seen failed event _ (some _)) (view s)
      rw [seen_of_failed hrefused]
      exact step_unchanged
  | some configured =>
      change Shelf.Step (view s)
        (seen failed event _
          (respond configured <$> run op.label [] fun _ => (stores.perform typeName op s).1).ending.toOption)
        (view (stores.perform typeName op s).2)
      have hfails := h.fails typeName op s
      rw [toOption_run]
      cases hfinish : (stores.perform typeName op s).1.finish with
      | returned result =>
          cases result with
          | ok a => exact step_seen (h.succeeds typeName op s a hfinish) (hok configured a _)
          | error diags =>
              have hdiags := h.honest typeName op s diags hfinish
              have hfailed : hasError (diagsWithWarnings diags (intoOutputs (stores.perform typeName op s).1.ops)) =
                  true := by
                rw [diagsWithWarnings, pbDiagnostics, List.map_append, hasError_append]
                exact Bool.or_eq_true_iff.mpr (.inl hdiags)
              rw [seen_of_failed (herror configured diags _ hfailed)]
              apply hfails
              intro a ha
              rw [hfinish] at ha
              cases ha
      | panicked payload =>
          rw [seen_of_failed (herror configured _ _ (hasError_panicked op.label payload _))]
          apply hfails
          intro a ha
          rw [hfinish] at ha
          cases ha
      | pending =>
          apply hfails
          intro a ha
          rw [hfinish] at ha
          cases ha

include h in
theorem step_serveStoreVia {ρ : Type} (rpc : StoreRpc ρ) (s : σ) : Shelf.Step (view s)
    (seen rpc.toRpc.failed (rpc.event keep) rpc.attempt (service.serveStoreVia stores.guarded rpc s).1.ending.toOption)
    (view (service.serveStoreVia stores.guarded rpc s).2) := by
  cases rpc with
  | read req =>
      apply step_runBackendVia h req.typeName (.readState req.stateId)
      · exact fun diagnostics hdiagnostics => by simp [StoreRpc.toRpc, Rpc.failed, hdiagnostics]
      · exact fun configured diags outs hdiags => by
          simp [StoreRpc.toRpc, Rpc.failed, ProviderService.respondChunks, hdiags]
      · intro configured data outs _
        have hflatten := (ProviderService.splits_chunkState data configured.chunkSize).flatten
        have hbytes : ((ProviderService.respondChunks configured (.ok data, outs)).map (·.bytes)).flatten = data := by
          rw [ProviderService.respondChunks, List.map_append, List.flatten_append, hflatten]
          split_ifs <;> exact List.append_nil data
        rw [StoreRpc.event, StoreOp.event, hbytes]
  | write chunks =>
      rw [ProviderService.serveStoreVia]
      cases hdrain : ProviderService.drainChunks chunks with
      | error status =>
          have hattempt : (StoreRpc.write chunks).attempt = .quiet := by rw [StoreRpc.attempt, hdrain]
          rw [hattempt]
          exact step_refused (hasError_errorDiag _ _)
      | ok drained =>
          obtain ⟨_ | req, data⟩ := drained
          · have hattempt : (StoreRpc.write chunks).attempt = .quiet := by rw [StoreRpc.attempt, hdrain]
            rw [hattempt]
            exact step_refused (hasError_errorDiag _ _)
          · have hattempt : (StoreRpc.write chunks).attempt =
                (StoreOp.writeState req.stateId data).attempt req.typeName := by
              rw [StoreRpc.attempt, hdrain]
              rfl
            rw [hattempt]
            apply step_runBackendVia h req.typeName (.writeState req.stateId data)
            · exact fun diagnostics hdiagnostics => hdiagnostics
            · exact fun configured diags outs hdiags => hdiags
            · intro configured _ outs _
              rw [StoreRpc.event, hdrain]
              rfl
  | lock req =>
      apply step_runBackendVia h req.typeName (.lock req.stateId req.operation)
      · exact fun diagnostics hdiagnostics => hdiagnostics
      · exact fun configured diags outs hdiags => hdiags
      · exact fun configured lockId outs _ => rfl
  | unlock req =>
      apply step_runBackendVia h req.typeName (.unlock req.stateId req.lockId)
      · exact fun diagnostics hdiagnostics => hdiagnostics
      · exact fun configured diags outs hdiags => hdiags
      · exact fun configured _ outs _ => rfl
  | states typeName =>
      apply step_runBackendVia h typeName .states
      · exact fun diagnostics hdiagnostics => hdiagnostics
      · exact fun configured diags outs hdiags => hdiags
      · exact fun configured stateIds outs _ => rfl
  | delete req =>
      apply step_runBackendVia h req.typeName (.deleteState req.stateId)
      · exact fun diagnostics hdiagnostics => hdiagnostics
      · exact fun configured diags outs hdiags => hdiags
      · exact fun configured _ outs _ => rfl

include h in
theorem step_serves {crates : Crates} {s t : σ} {exchange : Exchange}
    (hserves : stores.Serves crates service s exchange t) :
    Shelf.Step (view s) (exchange.event keep) (view t) := by
  obtain ⟨hresponse, rfl⟩ := hserves
  rw [serve_serviceAt, ← comp_map, Function.comp_def, id_map'] at hresponse
  rw [Exchange.event, hresponse]
  exact step_serveStoreVia h exchange.rpc s

end Stores

/-- An answer without an error. -/
def Exchange.Answers (exchange : Exchange) (response : exchange.ρ) : Prop :=
  exchange.response = some response ∧ exchange.rpc.toRpc.failed response = false

section

variable {keep : Bytes → Bytes} {req : StateRequest} {exchange : Exchange} {response : exchange.ρ}

theorem event_of_answers (h : exchange.Answers response) : exchange.event keep = exchange.rpc.event keep response := by
  rw [Exchange.event, h.1]
  exact Stores.seen_of_answered h.2

theorem event_of_lock {req : LockRequest} {lock : LockResponse} (h : hasError lock.diagnostics = false) :
    Exchange.event keep ⟨.lock req, some lock⟩ = .locked ⟨req.typeName, req.stateId⟩ lock.lockId :=
  Stores.seen_of_answered h

theorem attempt_exchange (exchange : Exchange) : (exchange.event keep).attempt = exchange.rpc.attempt := by
  obtain ⟨rpc, response⟩ := exchange
  rw [Exchange.event, seen]
  dsimp only
  cases response.filter (!rpc.toRpc.failed ·) with
  | none => exact rpc.attempt_attempt
  | some response => exact rpc.attempt_event response

theorem touches_iff : (exchange.event keep).Touches req ↔ exchange.rpc.Rewrites req := by
  rw [← Shelf.Event.touches_attempt, attempt_exchange]
  exact exchange.rpc.touches_attempt

theorem frees_iff : (exchange.event keep).Frees req ↔ exchange.rpc.Unlocks req := by
  rw [← Shelf.Event.frees_attempt, attempt_exchange]
  exact exchange.rpc.frees_attempt

theorem event_of_leaves {content : Option Bytes} (h : exchange.rpc.Leaves keep req content)
    (hanswers : exchange.Answers response) :
    exchange.event keep = content.elim (.cleared req) (.wrote req) := by
  rw [event_of_answers hanswers]
  obtain ⟨rpc, response⟩ := exchange
  cases rpc with
  | write chunks =>
      obtain ⟨data, hdrain, rfl⟩ := h
      rw [StoreRpc.event, hdrain]
      rfl
  | delete req' =>
      obtain ⟨rfl, rfl⟩ := h
      rfl
  | read req' => cases h
  | lock req' => cases h
  | unlock req' => cases h
  | states typeName => cases h

end

namespace Stores

variable {σ : Type} {stores : Stores σ} {view : σ → StateShelf} {keep : Bytes → Bytes} (h : stores.Shelves view keep)
  {crates : Crates} {service : ProviderService} {s s₁ s₂ t : σ} {before mid after : List (σ × Exchange)}
  {first last : Exchange} {answer : first.ρ} {answer' : last.ρ} {req : StateRequest} {content : Option Bytes}

include h in
theorem shows_of_content (hserves : stores.Serves crates service s last t) (hanswers : last.Answers answer')
    (hcontent : (view s).content req = content) : last.rpc.Shows req content answer' := by
  have hstep := step_serves h hserves
  rw [event_of_answers hanswers] at hstep
  obtain ⟨rpc, response⟩ := last
  cases rpc with
  | read req' =>
      rintro rfl
      rw [← hcontent]
      exact hstep.2.symm
  | states typeName =>
      rintro rfl
      rw [← hcontent, ← hstep.2 req rfl, List.mem_map]
      constructor
      · exact fun hlisted => ⟨req.stateId, hlisted, rfl⟩
      · rintro ⟨stateId, hlisted, hreq⟩
        rw [← hreq]
        exact hlisted
  | write chunks => trivial
  | lock req' => trivial
  | unlock req' => trivial
  | delete req' => trivial

include h in
theorem content_of_leaves (hrun : Run (stores.Serves crates service) s ((s₁, first) :: mid) t)
    (hfirst : first.Answers answer) (hleaves : first.rpc.Leaves keep req content)
    (hmid : ∀ p ∈ mid, ¬p.2.rpc.Rewrites req) : (view t).content req = content := by
  have hshelf := Run.map (fun _ _ _ hserves => step_serves h hserves) hrun
  have htouch : ∀ p ∈ mid.map fun p => (view p.1, p.2.event keep), ¬p.2.Touches req := by
    intro q hq htouches
    obtain ⟨p, hp, rfl⟩ := List.mem_map.mp hq
    exact hmid p hp (touches_iff.mp htouches)
  rw [List.map_cons, event_of_leaves hleaves hfirst] at hshelf
  cases content with
  | none => exact Shelf.content_of_cleared hshelf htouch
  | some data => exact Shelf.content_of_wrote hshelf htouch

include h in
/-- What core last did to a state is what it is shown of it: the bytes that it
wrote, as far as the store keeps them, or none after it deleted them. -/
theorem shows_of_leaves
    (hrun : Run (stores.Serves crates service) s (before ++ (s₁, first) :: mid ++ (s₂, last) :: after) t)
    (hfirst : first.Answers answer) (hleaves : first.rpc.Leaves keep req content)
    (hmid : ∀ p ∈ mid, ¬p.2.rpc.Rewrites req) (hlast : last.Answers answer') :
    last.rpc.Shows req content answer' := by
  obtain ⟨u, v, hkept, hserves⟩ := Run.between hrun
  exact shows_of_content h hserves hlast (content_of_leaves h hkept hfirst hleaves hmid)

include h in
/-- Between two locks of a state that were answered with no error, core asked to
unlock it. -/
theorem unlocks_between {req req' : LockRequest} {lock lock' : LockResponse}
    (hrun : Run (stores.Serves crates service) s
      (before ++ (s₁, ⟨.lock req, some lock⟩) :: mid ++ (s₂, ⟨.lock req', some lock'⟩) :: after) t)
    (hsame : (⟨req'.typeName, req'.stateId⟩ : StateRequest) = ⟨req.typeName, req.stateId⟩)
    (hlock : hasError lock.diagnostics = false) (hlock' : hasError lock'.diagnostics = false) :
    ∃ p ∈ mid, p.2.rpc.Unlocks ⟨req.typeName, req.stateId⟩ := by
  obtain ⟨u, v, hheld, hserves⟩ := Run.between hrun
  have hshelf := Run.map (fun _ _ _ hserves => step_serves h hserves) hheld
  have hagain := step_serves h hserves
  rw [List.map_cons, event_of_lock hlock] at hshelf
  rw [event_of_lock hlock', hsame] at hagain
  obtain ⟨q, hq, hfrees⟩ := Shelf.freed_of_locked hshelf hagain
  obtain ⟨p, hp, rfl⟩ := List.mem_map.mp hq
  exact ⟨p, hp, frees_iff.mp hfrees⟩

end Stores

def memory : Stores StateShelf where
  perform typeName _ op s := match op with
    | .readState stateId => (⟨[], .returned (.ok ((s.content ⟨typeName, stateId⟩).getD []))⟩, s)
    | .writeState stateId data =>
        (⟨[], .returned (.ok ())⟩, { s with content := Function.update s.content ⟨typeName, stateId⟩ (some data) })
    | .lock stateId operation => match s.holder ⟨typeName, stateId⟩ with
        | none => (⟨[], .returned (.ok operation)⟩,
            { s with holder := Function.update s.holder ⟨typeName, stateId⟩ (some operation) })
        | some by_ => (⟨[], .returned (.error [Diag.error "locked" by_])⟩, s)
    | .unlock stateId _ =>
        (⟨[], .returned (.ok ())⟩, { s with holder := Function.update s.holder ⟨typeName, stateId⟩ none })
    | .states => (⟨[], .returned (.error [Diag.error "not listed" ""])⟩, s)
    | .deleteState stateId =>
        (⟨[], .returned (.ok ())⟩, { s with content := Function.update s.content ⟨typeName, stateId⟩ none })

theorem memory_shelves : memory.Shelves id id where
  succeeds typeName α op s a ha := by
    cases op with
    | readState stateId =>
        cases ha
        exact ⟨rfl, rfl⟩
    | writeState stateId data => rfl
    | lock stateId operation =>
        simp only [memory] at ha ⊢
        cases hholder : s.holder ⟨typeName, stateId⟩ with
        | none =>
            rw [hholder] at ha
            cases ha
            exact ⟨hholder, rfl⟩
        | some by_ =>
            rw [hholder] at ha
            cases ha
    | unlock stateId lockId => rfl
    | states => cases ha
    | deleteState stateId => rfl
  fails typeName α op s ha := by
    cases op with
    | readState stateId => exact absurd rfl (ha _)
    | writeState stateId data => exact absurd rfl (ha ())
    | lock stateId operation =>
        simp only [memory] at ha ⊢
        cases hholder : s.holder ⟨typeName, stateId⟩ with
        | none =>
            rw [hholder] at ha
            exact absurd rfl (ha operation)
        | some by_ => exact ⟨rfl, fun _ => rfl, fun _ _ => rfl⟩
    | unlock stateId lockId => exact absurd rfl (ha ())
    | states => rfl
    | deleteState stateId => exact absurd rfl (ha ())
  honest typeName α op s diags hdiags := by
    cases op with
    | readState stateId => cases hdiags
    | writeState stateId data => cases hdiags
    | lock stateId operation =>
        simp only [memory] at hdiags
        cases hholder : s.holder ⟨typeName, stateId⟩ with
        | none =>
            rw [hholder] at hdiags
            cases hdiags
        | some by_ =>
            rw [hholder] at hdiags
            cases hdiags
            rfl
    | unlock stateId lockId => cases hdiags
    | states =>
        cases hdiags
        rfl
    | deleteState stateId => cases hdiags

namespace Stores

def afterVault {ρ : Type} (s : StateShelf) (rpc : StoreRpc ρ) : StateShelf :=
  (ProviderService.vaultService.serveStoreVia memory.guarded rpc s).2

def emptyVault : StateShelf := ⟨fun _ => none, fun _ => none⟩

def vaultReq : StateRequest := ⟨"vault", "default"⟩

def vaultWrite : StoreRpc DiagnosticsResponse := .write [.ok ⟨some vaultReq, [1, 2]⟩, .ok ⟨none, [3]⟩]

theorem shows_of_leaves_vault :
    (StoreRpc.read vaultReq).Shows vaultReq (some [1, 2, 3]) (ProviderService.chunkState [1, 2, 3] 0) := by
  have hwrite : memory.Serves Crates.real ProviderService.vaultService emptyVault ⟨vaultWrite, some ⟨[]⟩⟩
      (afterVault emptyVault vaultWrite) := ⟨rfl, rfl⟩
  have hread : memory.Serves Crates.real ProviderService.vaultService (afterVault emptyVault vaultWrite)
      ⟨.read vaultReq, some (ProviderService.chunkState [1, 2, 3] 0)⟩ _ := ⟨rfl, rfl⟩
  have hrun := Run.cons _ _ _ _ _ hwrite (.cons _ _ _ _ _ hread (.nil _))
  have hanswers : Exchange.Answers ⟨vaultWrite, some ⟨[]⟩⟩ (⟨[]⟩ : DiagnosticsResponse) := ⟨rfl, rfl⟩
  exact @shows_of_leaves _ _ _ _ memory_shelves _ _ _ _ _ _ [] [] [] _ _ _ _ vaultReq _ hrun hanswers
    ⟨[1, 2, 3], rfl, rfl⟩ (List.forall_mem_nil _) ⟨rfl, rfl⟩

def vaultLock : StoreRpc LockResponse := .lock ⟨"vault", "default", "apply"⟩

def vaultUnlock : StoreRpc DiagnosticsResponse := .unlock ⟨"vault", "default", "apply"⟩

theorem unlocks_between_vault : ∃ p ∈ [(afterVault emptyVault vaultLock, (⟨vaultUnlock, some ⟨[]⟩⟩ : Exchange))],
    p.2.rpc.Unlocks vaultReq := by
  have hlock : memory.Serves Crates.real ProviderService.vaultService emptyVault
      ⟨vaultLock, some { lockId := "apply" }⟩ (afterVault emptyVault vaultLock) := ⟨rfl, rfl⟩
  have hunlock : memory.Serves Crates.real ProviderService.vaultService (afterVault emptyVault vaultLock)
      ⟨vaultUnlock, some ⟨[]⟩⟩ (afterVault (afterVault emptyVault vaultLock) vaultUnlock) := ⟨rfl, rfl⟩
  have hagain : memory.Serves Crates.real ProviderService.vaultService
      (afterVault (afterVault emptyVault vaultLock) vaultUnlock) ⟨vaultLock, some { lockId := "apply" }⟩ _ := ⟨rfl, rfl⟩
  have hrun := Run.cons _ _ _ _ _ hlock (.cons _ _ _ _ _ hunlock (.cons _ _ _ _ _ hagain (.nil _)))
  exact @unlocks_between _ _ _ _ memory_shelves _ _ _ _ _ _ [] [(_, _)] [] _ _ _ _ hrun rfl rfl rfl

end Stores

end Plugin

end TofuSdk
