import TofuSdk.Chunks

namespace TofuSdk

namespace Plugin

namespace ProviderService

open TofuSdk.Service

/-- The last metadata among chunks. -/
def lastMeta (chunks : List WriteChunk) : Option StateRequest := (chunks.filterMap (·.meta_)).getLast?

/-- The metadata of the first chunk. -/
def firstMeta (chunks : List WriteChunk) : Option StateRequest := chunks.head?.bind (·.meta_)

def allBytes (chunks : List WriteChunk) : Bytes := (chunks.map (·.bytes)).flatten

section

variable {chunks : List (Except Status WriteChunk)} {received : List WriteChunk}

theorem drainChunks_received (received : List WriteChunk) :
    drainChunks (received.map .ok) = .ok (lastMeta received, allBytes received) := by
  have hfold : ∀ (received : List WriteChunk) (meta_ : Option StateRequest) (data : Bytes),
      (received.map Except.ok).foldlM (fun (acc : Option StateRequest × Bytes) chunk => do
        let chunk : WriteChunk ← (chunk : Except Status WriteChunk)
        pure (chunk.meta_.or acc.1, acc.2 ++ chunk.bytes)) (meta_, data) =
      .ok ((lastMeta received).or meta_, data ++ allBytes received) := by
    intro received
    induction received with
    | nil => exact fun meta_ data => by simp [lastMeta, allBytes, pure, Except.pure]
    | cons chunk received ih =>
        intro meta_ data
        have hlast : (lastMeta (chunk :: received)).or meta_ = (lastMeta received).or (chunk.meta_.or meta_) := by
          rw [lastMeta, lastMeta, List.filterMap_cons]
          cases chunk.meta_ with
          | none => rw [Option.none_or]
          | some req =>
              simp only
              rw [List.getLast?_cons, Option.some_or, Option.some_or]
              cases (received.filterMap (·.meta_)).getLast? <;> rfl
        rw [List.map_cons, List.foldlM_cons, hlast, allBytes, List.map_cons, List.flatten_cons, ← List.append_assoc]
        exact ih (chunk.meta_.or meta_) (data ++ chunk.bytes)
  rw [drainChunks, hfold, Option.or_none, List.nil_append]

theorem received_of_drainChunks {drained : Option StateRequest × Bytes} (h : drainChunks chunks = .ok drained) :
    ∃ received : List WriteChunk, chunks = received.map .ok := by
  rw [drainChunks] at h
  generalize (none, []) = start at h
  induction chunks generalizing start with
  | nil => exact ⟨[], rfl⟩
  | cons chunk chunks ih =>
      cases chunk with
      | error status => cases h
      | ok chunk =>
          obtain ⟨received, rfl⟩ := ih _ h
          exact ⟨chunk :: received, rfl⟩

theorem received_injective {received' : List WriteChunk}
    (h : (received.map .ok : List (Except Status WriteChunk)) = received'.map .ok) : received = received' :=
  List.map_injective_iff.mpr (fun _ _ => Except.ok.inj) h

end

section

variable (service : ProviderService)

def noteCall (backend : DynStateBackend) (stateId : String) (data : Bytes) :
    OptionT (StateM (List WriteCall)) (Except Diagnostics Unit × CtxOutputs) := do
  modify (· ++ [⟨backend, stateId, data⟩])
  match (runWrite backend stateId data).ending with
  | .returned result => pure result
  | _ => failure

/-- The calls of `write_state` that a stream leads to, also those that never
come back. -/
def writeCalls (chunks : List (Except Status WriteChunk)) : List WriteCall :=
  ((service.writeStateStreamVia noteCall chunks).run []).2

def target (req : StateRequest) (data : Bytes) : Option WriteCall :=
  (service.backends req.typeName).map fun backend => ⟨backend.backend, req.stateId, data⟩

/-- A stream is written as its first chunk says, or it is refused. -/
inductive AllOrNothing (chunks : List (Except Status WriteChunk)) : Prop
  | written (received : List WriteChunk) (req : StateRequest) (call : WriteCall) (hok : chunks = received.map .ok)
      (hfirst : firstMeta received = some req) (htarget : service.target req (allBytes received) = some call)
      (hcalls : service.writeCalls chunks = [call])
  | refused (response : DiagnosticsResponse) (hresponse : service.writeStateStream chunks = pure response)
      (herror : hasError response.diagnostics = true) (hcalls : service.writeCalls chunks = [])

end

section

variable {service : ProviderService} {chunks : List (Except Status WriteChunk)} {req : StateRequest} {data : Bytes}

theorem refused_of_error {status : Status} (h : drainChunks chunks = .error status) : service.AllOrNothing chunks := by
  refine .refused ⟨errorDiag "failed to receive state bytes" status.message⟩ ?_ rfl ?_
  · rw [writeStateStream, h]
  · rw [writeCalls, writeStateStreamVia, h]
    rfl

theorem refused_of_none (h : drainChunks chunks = .ok (none, data)) : service.AllOrNothing chunks := by
  refine .refused ⟨errorDiag "missing write metadata"
    "the first WriteStateBytes chunk carried no type_name/state_id"⟩ ?_ rfl ?_
  · rw [writeStateStream, h]
  · rw [writeCalls, writeStateStreamVia, h]
    rfl

theorem hasError_stateStoreUnavailable (name : String) : hasError (service.stateStoreUnavailable name) = true := by
  rw [stateStoreUnavailable]
  split_ifs <;> rfl

theorem refused_of_target (h : drainChunks chunks = .ok (some req, data)) (ht : service.target req data = none) :
    service.AllOrNothing chunks := by
  rw [target, Option.map_eq_none_iff] at ht
  refine .refused ⟨service.stateStoreUnavailable req.typeName⟩ ?_ (hasError_stateStoreUnavailable _) ?_
  · rw [writeStateStream, h]
    simp only [runBackend, ht]
  · rw [writeCalls, writeStateStreamVia, h]
    simp only [ht]
    rfl

theorem writeCalls_of_target {call : WriteCall} (h : drainChunks chunks = .ok (some req, data))
    (ht : service.target req data = some call) : service.writeCalls chunks = [call] := by
  rw [target, Option.map_eq_some_iff] at ht
  obtain ⟨backend, hbackend, rfl⟩ := ht
  rw [writeCalls, writeStateStreamVia, h]
  simp only [hbackend, noteCall]
  cases (runWrite backend.backend req.stateId data).ending with
  | returned result => rfl
  | panicked payload => rfl
  | pending => rfl

theorem AllOrNothing.target_first {call : WriteCall} {received : List WriteChunk}
    (h : service.AllOrNothing (received.map .ok)) (hreq : lastMeta received = some req)
    (hcall : service.target req (allBytes received) = some call) :
    ∃ first ∈ firstMeta received, service.target first (allBytes received) = some call := by
  have hdrain := drainChunks_received received
  rw [hreq] at hdrain
  have hcalls := writeCalls_of_target hdrain hcall
  cases h with
  | written received' first call' hok hfirst htarget hcalls' =>
      obtain rfl := received_injective hok
      rw [hcalls, List.singleton_inj] at hcalls'
      exact ⟨first, hfirst, hcalls' ▸ htarget⟩
  | refused response _ _ hcalls' =>
      rw [hcalls] at hcalls'
      cases hcalls'

/-- A stream is written as its first chunk says, or refused, unless its last
metadata names another place that the service has. -/
theorem allOrNothing_iff (service : ProviderService) (chunks : List (Except Status WriteChunk)) :
    service.AllOrNothing chunks ↔ ∀ received : List WriteChunk, chunks = received.map .ok →
      ∀ req ∈ lastMeta received, ∀ call ∈ service.target req (allBytes received),
        ∃ first ∈ firstMeta received, service.target first (allBytes received) = some call := by
  constructor
  · rintro h received rfl req hreq call hcall
    exact h.target_first hreq hcall
  · intro h
    cases hdrain : drainChunks chunks with
    | error status => exact refused_of_error hdrain
    | ok drained =>
        obtain ⟨received, rfl⟩ := received_of_drainChunks hdrain
        obtain rfl := Except.ok.inj ((drainChunks_received received).symm.trans hdrain)
        cases hlast : lastMeta received with
        | none =>
            rw [hlast] at hdrain
            exact refused_of_none hdrain
        | some req =>
            rw [hlast] at hdrain
            cases htarget : service.target req (allBytes received) with
            | none => exact refused_of_target hdrain htarget
            | some call =>
                obtain ⟨first, hfirst, hcall⟩ := h received rfl req hlast call htarget
                exact .written received first call rfl hfirst hcall (writeCalls_of_target hdrain htarget)

def renamed : List WriteChunk := [⟨some ⟨"vault", "production"⟩, [1]⟩, ⟨some ⟨"vault", "staging"⟩, [2]⟩]

/-- The second chunk renames the state, and the first chunk's bytes go with it. -/
theorem state_overwritten : ¬vaultService.AllOrNothing (renamed.map .ok) := by
  intro h
  have hlast : lastMeta renamed = some ⟨"vault", "staging"⟩ := rfl
  obtain ⟨first, hfirst, htarget⟩ := h.target_first hlast rfl
  obtain rfl : ⟨"vault", "production"⟩ = first := Option.some.inj hfirst
  have hid := congrArg WriteCall.stateId (Option.some.inj htarget)
  revert hid
  decide

end

end ProviderService

end Plugin

end TofuSdk
