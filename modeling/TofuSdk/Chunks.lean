import TofuSdk.Dispatch
import TofuSdk.Failure

namespace TofuSdk

namespace Plugin

open TofuSdk.Service

/-- Each chunk starts where the one before it ends, and holds the bytes of its
range. The end of a range is not in it. -/
def Contiguous : Int → List ReadChunk → Int → Prop
  | start, [], stop => start = stop
  | start, chunk :: chunks, stop =>
      chunk.range = some (start, start + chunk.bytes.length) ∧ Contiguous (start + chunk.bytes.length) chunks stop

/-- The chunks of a state, none larger than the size that was agreed on. -/
structure Splits (bytes : Bytes) (size : Int) (chunks : List ReadChunk) : Prop where
  ne_nil : chunks ≠ []
  contiguous : Contiguous 0 chunks bytes.length
  total : ∀ chunk ∈ chunks, chunk.totalLength = bytes.length
  bounded : ∀ chunk ∈ chunks, (chunk.bytes.length : Int) ≤ max size 1
  quiet : ∀ chunk ∈ chunks, chunk.diagnostics = []
  flatten : (chunks.map (·.bytes)).flatten = bytes

namespace ProviderService

theorem contiguous_chunksFrom {total size : Nat} (hsize : 0 < size) (fuel start : Nat) (bytes : Bytes)
    (hfuel : bytes.length ≤ fuel) :
    Contiguous start (chunksFrom total size fuel start bytes) (start + bytes.length : Nat) := by
  induction fuel generalizing start bytes with
  | zero =>
      have hnil : bytes.length = 0 := by omega
      rw [chunksFrom, Contiguous, hnil, Nat.add_zero]
  | succ fuel ih =>
      rw [chunksFrom]
      by_cases hempty : bytes.isEmpty = true
      · have hnil : bytes.length = 0 := by simpa using hempty
        rw [if_pos hempty, Contiguous, hnil, Nat.add_zero]
      · have hpos : bytes ≠ [] := by simpa using hempty
        have hlen := List.length_pos_iff.mpr hpos
        have hdrop : (bytes.drop size).length ≤ fuel := by
          rw [List.length_drop]
          omega
        have hrest := ih (start + (bytes.take size).length) (bytes.drop size) hdrop
        have hstop : start + (bytes.take size).length + (bytes.drop size).length = start + bytes.length := by
          rw [List.length_take, List.length_drop]
          omega
        rw [if_neg hempty, Contiguous]
        refine ⟨rfl, ?_⟩
        rw [hstop, Nat.cast_add start] at hrest
        exact hrest

theorem mem_chunksFrom {total size fuel start : Nat} {bytes : Bytes} {chunk : ReadChunk}
    (h : chunk ∈ chunksFrom total size fuel start bytes) :
    chunk.totalLength = total ∧ chunk.bytes.length ≤ size ∧ chunk.diagnostics = [] := by
  induction fuel generalizing start bytes with
  | zero => cases h
  | succ fuel ih =>
      rw [chunksFrom] at h
      split_ifs at h with hempty
      · cases h
      · rcases List.mem_cons.mp h with rfl | hrest
        · exact ⟨rfl, List.length_take_le size bytes, rfl⟩
        · exact ih hrest

theorem flatten_chunksFrom {total size : Nat} (hsize : 0 < size) (fuel start : Nat) (bytes : Bytes)
    (hfuel : bytes.length ≤ fuel) :
    ((chunksFrom total size fuel start bytes).map (·.bytes)).flatten = bytes := by
  induction fuel generalizing start bytes with
  | zero =>
      obtain rfl := List.length_eq_zero_iff.mp (Nat.le_zero.mp hfuel)
      rfl
  | succ fuel ih =>
      rw [chunksFrom]
      by_cases hempty : bytes.isEmpty = true
      · obtain rfl := List.isEmpty_iff.mp hempty
        rfl
      · have hlen : 0 < bytes.length := List.length_pos_iff.mpr (by simpa using hempty)
        have hdrop : (bytes.drop size).length ≤ fuel := by
          rw [List.length_drop]
          omega
        rw [if_neg hempty, List.map_cons, List.flatten_cons, ih _ _ hdrop, List.take_append_drop]

theorem splits_chunkState (bytes : Bytes) (size : Int) : Splits bytes size (chunkState bytes size) := by
  rw [chunkState]
  by_cases hempty : bytes.isEmpty = true
  · obtain rfl := List.isEmpty_iff.mp hempty
    rw [if_pos hempty]
    constructor
    · exact List.cons_ne_nil _ _
    · exact ⟨rfl, rfl⟩
    · exact List.forall_mem_singleton.mpr rfl
    · intro chunk h
      obtain rfl := List.mem_singleton.mp h
      rw [List.length_nil]
      omega
    · exact List.forall_mem_singleton.mpr rfl
    · rfl
  · have hsize : 0 < (max size 1).toNat := by omega
    have hne : bytes ≠ [] := by simpa using hempty
    have hflatten := @flatten_chunksFrom bytes.length _ hsize bytes.length 0 bytes le_rfl
    have hcontiguous := @contiguous_chunksFrom bytes.length _ hsize bytes.length 0 bytes le_rfl
    rw [if_neg hempty]
    constructor
    · intro hnil
      rw [hnil] at hflatten
      exact hne hflatten.symm
    · simpa using hcontiguous
    · exact fun chunk h => (mem_chunksFrom h).1
    · intro chunk h
      have hle := (mem_chunksFrom h).2.1
      omega
    · exact fun chunk h => (mem_chunksFrom h).2.2
    · exact hflatten

/-- A call of `write_state` on a backend. -/
structure WriteCall where
  backend : DynStateBackend
  stateId : String
  data : Bytes

section

variable (service : ProviderService)

def writeStateStreamVia {m : Type → Type} [Monad m]
    (write : DynStateBackend → String → Bytes → m (Except Diagnostics Unit × CtxOutputs))
    (chunks : List (Except Status WriteChunk)) : m DiagnosticsResponse :=
  match drainChunks chunks with
  | .error status => pure ⟨errorDiag "failed to receive state bytes" status.message⟩
  | .ok (none, _) =>
      pure ⟨errorDiag "missing write metadata" "the first WriteStateBytes chunk carried no type_name/state_id"⟩
  | .ok (some req, data) => do
      match service.backends req.typeName with
      | none => pure ⟨service.stateStoreUnavailable req.typeName⟩
      | some backend => do
          let result ← write backend.backend req.stateId data
          pure ⟨outcomeDiagnostics result⟩

def runWrite (backend : DynStateBackend) (stateId : String) (data : Bytes) :
    Future (Except Diagnostics Unit × CtxOutputs) :=
  run "write state" [] (backend.writeState stateId data)

theorem writeStateStreamVia_run (chunks : List (Except Status WriteChunk)) :
    service.writeStateStreamVia runWrite chunks = service.writeStateStream chunks := by
  rw [writeStateStreamVia, writeStateStream]
  cases drainChunks chunks with
  | error status => rfl
  | ok drained =>
      obtain ⟨meta_, data⟩ := drained
      cases meta_ with
      | none => rfl
      | some req =>
          dsimp only
          rw [runBackend]
          cases service.backends req.typeName with
          | none => rfl
          | some backend => rfl

def noteWrite (backend : DynStateBackend) (stateId : String) (data : Bytes) :
    StateT (List WriteCall) Future (Except Diagnostics Unit × CtxOutputs) := fun calls =>
  (·, calls ++ [⟨backend, stateId, data⟩]) <$> runWrite backend stateId data

/-- The stream that sends chunks back: the first one says what is written. -/
def sendChunks (req : StateRequest) : List ReadChunk → List (Except Status WriteChunk)
  | [] => []
  | chunk :: chunks => .ok ⟨some req, chunk.bytes⟩ :: chunks.map fun chunk => .ok ⟨none, chunk.bytes⟩

theorem drainChunks_sendChunks (req : StateRequest) {chunks : List ReadChunk} (hne : chunks ≠ []) :
    drainChunks (sendChunks req chunks) = .ok (some req, (chunks.map (·.bytes)).flatten) := by
  have hrest : ∀ (chunks : List ReadChunk) (data : Bytes),
      (chunks.map fun chunk => (.ok ⟨none, chunk.bytes⟩ : Except Status WriteChunk)).foldlM
        (fun (acc : Option StateRequest × Bytes) chunk => do
          let chunk ← chunk
          pure (chunk.meta_.or acc.1, acc.2 ++ chunk.bytes)) (some req, data) =
        .ok (some req, data ++ (chunks.map (·.bytes)).flatten) := by
    intro chunks
    induction chunks with
    | nil => exact fun data => by rw [List.map_nil, List.map_nil, List.flatten_nil, List.append_nil]; rfl
    | cons chunk chunks ih =>
        intro data
        rw [List.map_cons, List.map_cons, List.flatten_cons, List.foldlM_cons, ← List.append_assoc]
        exact ih _
  cases chunks with
  | nil => exact absurd rfl hne
  | cons chunk chunks => exact hrest chunks chunk.bytes

end

/-- A call that returns no error, in its result or among its warnings. -/
structure Succeeds (call : TofuSdk.Call Unit) : Prop where
  finish : call.finish = .returned (.ok ())
  warnings : ∀ diag ∈ (intoOutputs call.ops).warnings, diag.severity = .warning

theorem hasError_warnings {diags : Diagnostics} (h : ∀ diag ∈ diags, diag.severity = .warning) :
    hasError (pbDiagnostics diags) = false := by
  rw [hasError, pbDiagnostics, List.any_map, List.any_eq_false]
  intro diag hdiag
  simp [h diag hdiag]

/-- A state goes through its chunks and comes out as it was: they cover it in
order, and what writes them back writes it once. -/
theorem chunks_reassembled (bytes : Bytes) (size : Int) :
    Splits bytes size (chunkState bytes size) ∧
      ∀ (service : ProviderService) (req : StateRequest) (backend : ConfiguredBackend),
        service.backends req.typeName = some backend →
        Succeeds (backend.backend.writeState req.stateId bytes []) →
        ∃ response, hasError response.diagnostics = false ∧
          service.writeStateStream (sendChunks req (chunkState bytes size)) = pure response ∧
          (service.writeStateStreamVia noteWrite (sendChunks req (chunkState bytes size))).run [] =
            pure (response, [⟨backend.backend, req.stateId, bytes⟩]) := by
  have hsplits := splits_chunkState bytes size
  refine ⟨hsplits, ?_⟩
  intro service req backend hbackend hok
  have hdrain := drainChunks_sendChunks req hsplits.ne_nil
  rw [hsplits.flatten] at hdrain
  have hrun : runWrite backend.backend req.stateId bytes =
      pure (.ok (), intoOutputs (backend.backend.writeState req.stateId bytes []).ops) := by
    rw [runWrite, run, hok.finish]
    rfl
  refine ⟨⟨pbDiagnostics (intoOutputs (backend.backend.writeState req.stateId bytes []).ops).warnings⟩,
    hasError_warnings hok.warnings, ?_, ?_⟩
  · rw [← writeStateStreamVia_run, writeStateStreamVia, hdrain]
    dsimp only
    rw [hbackend]
    dsimp only
    rw [hrun, pure_bind]
    rfl
  · rw [writeStateStreamVia, hdrain]
    dsimp only
    rw [hbackend]
    dsimp only
    rw [StateT.run_bind]
    have hnote : (noteWrite backend.backend req.stateId bytes).run [] =
        pure ((.ok (), intoOutputs (backend.backend.writeState req.stateId bytes []).ops),
          [⟨backend.backend, req.stateId, bytes⟩]) := by
      rw [StateT.run, noteWrite, hrun, map_pure]
      rfl
    rw [hnote, pure_bind]
    rfl

def openStore : DynStateBackend where
  readState _ _ := ⟨[], .returned (.ok [])⟩
  writeState _ _ _ := ⟨[], .returned (.ok ())⟩
  lock _ _ _ := ⟨[], .returned (.ok "")⟩
  unlock _ _ _ := ⟨[], .returned (.ok ())⟩
  states _ := ⟨[], .returned (.ok [])⟩
  deleteState _ _ := ⟨[], .returned (.ok ())⟩

/-- A service with one store connected, which was asked for no size at all. -/
def vaultService : ProviderService where
  provider := ⟨none, fun _ => [], .empty, none, none, none, none⟩
  cancelled := false
  backends name := if name = "vault" then some ⟨openStore, 0⟩ else none

theorem chunks_reassembled_vault :
    Splits [1, 2, 3] 0 (chunkState [1, 2, 3] 0) ∧ ∃ response, hasError response.diagnostics = false ∧
      vaultService.writeStateStream (sendChunks ⟨"vault", "default"⟩ (chunkState [1, 2, 3] 0)) = pure response ∧
      (vaultService.writeStateStreamVia noteWrite
          (sendChunks ⟨"vault", "default"⟩ (chunkState [1, 2, 3] 0))).run [] =
        pure (response, [⟨openStore, "default", [1, 2, 3]⟩]) := by
  have hok : Succeeds (openStore.writeState "default" [1, 2, 3] []) := ⟨rfl, List.forall_mem_nil _⟩
  obtain ⟨hsplits, hwrite⟩ := chunks_reassembled [1, 2, 3] 0
  exact ⟨hsplits, hwrite vaultService ⟨"vault", "default"⟩ ⟨openStore, 0⟩ rfl hok⟩

end ProviderService

end Plugin

end TofuSdk
