import TofuSdk.Dispatch
import TofuSdk.Failure
import TofuSdk.Trace
import TofuSdk.Utf8

namespace TofuSdk

namespace Plugin

open TofuSdk.Service

structure ResourceError where
  summary : String
  detail : String
  attributePath : List String
  warnings : Diagnostics

structure EphemeralError where
  summary : String
  detail : String

namespace EphemeralError

def ofResourceError (e : ResourceError) : EphemeralError := ⟨e.summary, e.detail⟩

def diag (e : EphemeralError) : Diag := .error e.summary e.detail

end EphemeralError

def codecDiag (context : String) (e : TypedError) : Diagnostics := [.error ("failed to " ++ context) e.toString]

abbrev Routine (ρ : Type) := Trace CtxOp (Option String) ρ

abbrev Steps (γ ρ : Type) := Trace (CtxOp ⊕ γ) (Option String) ρ

namespace Steps

variable {γ ρ σ : Type}

def lift (routine : Routine ρ) : Steps γ ρ := routine.mapEvents .inl

def ops (steps : Steps γ ρ) : List CtxOp := steps.events.filterMap Sum.getLeft?

def calls (steps : Steps γ ρ) : List γ := steps.events.filterMap Sum.getRight?

@[simp] theorem ending_lift (routine : Routine ρ) : (lift routine : Steps γ ρ).ending = routine.ending := rfl

@[simp] theorem calls_lift (routine : Routine ρ) : calls (lift routine : Steps γ ρ) = [] := by
  rw [calls, lift, Trace.mapEvents, List.filterMap_map]
  exact List.filterMap_eq_nil_iff.mpr fun _ _ => rfl

@[simp] theorem calls_pure (value : ρ) : calls (pure value : Steps γ ρ) = [] := rfl

theorem calls_bind {steps : Steps γ ρ} {value : ρ} (h : steps.ending = .returned value) (next : ρ → Steps γ σ) :
    calls (steps >>= next) = steps.calls ++ calls (next value) := by
  rw [calls, Trace.events_bind_of_returned h, List.filterMap_append]
  rfl

theorem calls_bind_of_not_returned {steps : Steps γ ρ} (h : ∀ value, steps.ending ≠ .returned value)
    (next : ρ → Steps γ σ) : calls (steps >>= next) = steps.calls := by
  rw [calls, Trace.events_bind_of_not_returned h]
  rfl

theorem ops_bind {steps : Steps γ ρ} {value : ρ} (h : steps.ending = .returned value) (next : ρ → Steps γ σ) :
    ops (steps >>= next) = steps.ops ++ ops (next value) := by
  rw [ops, Trace.events_bind_of_returned h, List.filterMap_append]
  rfl

end Steps

def Finish.ofEnding {ρ : Type} : Authored (Except Diagnostics ρ) → Finish ρ
  | .returned result => .returned result
  | .panicked payload => .panicked payload
  | .pending => .pending

theorem Finish.ofEnding_eq_returned {ρ : Type} {ending : Authored (Except Diagnostics ρ)} {res : Except Diagnostics ρ} :
    Finish.ofEnding ending = .returned res ↔ ending = .returned res := by
  cases ending <;> simp [Finish.ofEnding]

def Steps.erased {γ ρ : Type} (steps : Steps γ (Except Diagnostics ρ)) : TofuSdk.Call ρ :=
  ⟨steps.ops, Finish.ofEnding steps.ending⟩

/-- A managed resource, as far as an ephemeral one makes use of it. -/
structure Resource (α : Type) where
  model : Shape α
  create (planned : α) : Bytes → Routine (Except ResourceError α)
  delete (prior : α) : Bytes → Routine (Except ResourceError Unit)
  validate (config : α) : Bytes → Validation

structure Ephemeral (γ α : Type) where
  model : Shape α
  open_ (config : α) : Bytes → Steps γ (Except EphemeralError α)
  renew : Bytes → Steps γ (Except EphemeralError Unit) := fun _ => pure (.ok ())
  close : Bytes → Steps γ (Except EphemeralError Unit) := fun _ => pure (.ok ())
  validate (config : α) : Bytes → Validation := fun _ => ⟨[], .returned []⟩

namespace EphemeralAdapter

variable {γ α : Type} (inner : Ephemeral γ α)

def open_ (config : Value) (privateIn : Bytes) : Steps γ (Except Diagnostics Value) :=
  match inner.model.fill config with
  | .error e => pure (.error (codecDiag "decode ephemeral config" e))
  | .ok model => do
      match ← inner.open_ model privateIn with
      | .error e => pure (.error [e.diag])
      | .ok result => pure ((inner.model.peekToValue result).mapError (codecDiag "encode ephemeral result"))

def renew (privateIn : Bytes) : Steps γ (Except Diagnostics Unit) := do
  let res ← inner.renew privateIn
  pure (res.mapError fun e => [e.diag])

def close (privateIn : Bytes) : Steps γ (Except Diagnostics Unit) := do
  let res ← inner.close privateIn
  pure (res.mapError fun e => [e.diag])

def validate : Validator := fun config privateIn =>
  match inner.model.fill config with
  | .error e => ⟨[], .returned (codecDiag "decode ephemeral config for validation" e)⟩
  | .ok model => inner.validate model privateIn

def erased : DynEphemeral where
  open_ config privateIn := (open_ inner config privateIn).erased
  renew privateIn := (renew inner privateIn).erased
  close privateIn := (close inner privateIn).erased
  validate := validate inner

section

variable {inner} {config : Value} {privateIn : Bytes} {model : α}

theorem events_open (hfill : inner.model.fill config = .ok model) :
    (open_ inner config privateIn).events = (inner.open_ model privateIn).events := by
  rw [open_, hfill]
  by_cases hreturned : ∃ res, (inner.open_ model privateIn).ending = .returned res
  · obtain ⟨res, hres⟩ := hreturned
    rw [Trace.events_bind_of_returned hres]
    cases res <;> exact List.append_nil _
  · exact Trace.events_bind_of_not_returned (not_exists.mp hreturned) _

theorem events_open_of_error {e : TypedError} (hfill : inner.model.fill config = .error e) :
    (open_ inner config privateIn).events = [] := by
  rw [open_, hfill, Trace.events_pure]

theorem open_eq_ok {value : Value} : (open_ inner config privateIn).ending = .returned (.ok value) ↔
    ∃ model result, inner.model.fill config = .ok model ∧
      (inner.open_ model privateIn).ending = .returned (.ok result) ∧ inner.model.peekToValue result = .ok value := by
  rw [open_]
  cases inner.model.fill config with
  | error e =>
      refine iff_of_false (fun h => nomatch h) ?_
      rintro ⟨model, result, hfill, -⟩
      cases hfill
  | ok model =>
      rw [Trace.ending_bind, Ending.bind_eq_returned]
      constructor
      · rintro ⟨res, hres, h⟩
        cases res with
        | error e => cases h
        | ok result =>
            have hpeek := Outcome.mapError_eq_ok.mp (Ending.returned.inj h)
            exact ⟨model, result, rfl, hres, hpeek⟩
      · rintro ⟨model', result, hfill, hres, hpeek⟩
        obtain rfl := Except.ok.inj hfill
        exact ⟨.ok result, hres, congrArg Ending.returned (Outcome.mapError_eq_ok.mpr hpeek)⟩

end

end EphemeralAdapter

/-- A model as JSON text and back. -/
structure FacetJson (α : Type) where
  toString (model : α) : Except String String
  fromSlice (bytes : Bytes) : Except String α

/-- What is printed reads back, and no bytes at all are no JSON. -/
structure FacetJson.Lawful {α : Type} (json : FacetJson α) : Prop where
  fromSlice_toString {model : α} {text : String} (h : json.toString model = .ok text) :
    json.fromSlice (Utf8.encode text) = .ok model
  fromSlice_nil (model : α) : json.fromSlice [] ≠ .ok model

/-- A model that `create` returned, and a call of `delete`. -/
inductive WrappedCall (α : Type)
  | created (model : α)
  | deleted (prior : α)

namespace EphemeralFromResource

variable {α : Type} (json : FacetJson α) (resource : Resource α)

def open_ (config : α) (privateIn : Bytes) : Steps (WrappedCall α) (Except EphemeralError α) := do
  match ← Steps.lift (resource.create config privateIn) with
  | .error e => pure (.error (.ofResourceError e))
  | .ok created => do
      Trace.note (.inr (.created created))
      match json.toString created with
      | .error e => pure (.error ⟨"failed to record ephemeral handle", e⟩)
      | .ok text => do
          Trace.note (.inl (.setPrivate (Utf8.encode text)))
          pure (.ok created)

def close (privateIn : Bytes) : Steps (WrappedCall α) (Except EphemeralError Unit) :=
  if privateIn.isEmpty then pure (.ok ())
  else match json.fromSlice privateIn with
    | .error e => pure (.error ⟨"failed to read ephemeral handle for close", e⟩)
    | .ok prior => do
        Trace.note (.inr (.deleted prior))
        match ← Steps.lift (resource.delete prior privateIn) with
        | .error e => pure (.error (.ofResourceError e))
        | .ok () => pure (.ok ())

def ephemeral : Ephemeral (WrappedCall α) α where
  model := resource.model
  open_ := open_ json resource
  close := close json resource
  validate := resource.validate

end EphemeralFromResource

theorem run_eq_ok {α : Type} {op : String} {privateIn : Bytes} {handler : Handler α} {value : α} {outs : CtxOutputs} :
    (run op privateIn handler).ending = .returned (.ok value, outs) ↔
      (handler privateIn).finish = .returned (.ok value) ∧ intoOutputs (handler privateIn).ops = outs := by
  rw [run, Fut.ending_bind, catch_, Fut.ending_bind]
  cases (handler privateIn).finish with
  | returned result =>
      change Ending.returned (result, _) = _ ↔ _
      simp
  | panicked payload =>
      refine iff_of_false (fun h => ?_) fun h => nomatch h.1
      cases h
  | pending =>
      refine iff_of_false (fun h => ?_) fun h => nomatch h.1
      cases h

def runNoted {γ ρ : Type} (op : String) (privateIn : Bytes) (steps : Bytes → Steps γ (Except Diagnostics ρ)) :
    Trace γ (Option String) (Except Diagnostics ρ × CtxOutputs) :=
  ⟨(steps privateIn).calls, (run op privateIn fun bytes => (steps bytes).erased).ending⟩

def Provider.ephemeralHandler (provider : Provider Parts.real) (name : String) : Option DynEphemeral :=
  provider.handler .ephemeral name

namespace ProviderService

variable {m : Type → Type} [Monad m] (crates : Crates) (service : ProviderService)

def runUnderVia {η α ρ : Type} (ty : Option Ty) (handler : Option η) (config : Option DynamicValue)
    (unknown : List Diagnostic) (failed : String) (refuse : List Diagnostic → ρ)
    (call : η → Value → m (Except Diagnostics α × CtxOutputs))
    (respond : Ty → Except Diagnostics α × CtxOutputs → ρ) : m ρ :=
  match ty, handler with
  | some ty, some handler =>
      match Service.decodeDynamic crates config ty with
      | .error e => pure (refuse (errorDiag failed e.toString))
      | .ok config => respond ty <$> call handler config
  | _, _ => pure (refuse unknown)

def respondOpen (ty : Ty) (value : Except Diagnostics Value × CtxOutputs) : OpenResponse :=
  match value.1 with
  | .ok result => respondOpened crates ty result value.2
  | .error diags => { diagnostics := diagsWithWarnings diags value.2 }

def openEphemeralVia (open_ : DynEphemeral → Value → m (Except Diagnostics Value × CtxOutputs)) (req : ConfigRequest) :
    m OpenResponse :=
  runUnderVia crates (service.provider.ephemeralCty req.typeName) (service.provider.ephemeralHandler req.typeName)
    req.config (unknownEphemeral req.typeName) "failed to decode ephemeral config" ({ diagnostics := · }) open_
    (respondOpen crates)

def renewEphemeralVia (renew : DynEphemeral → Bytes → m (Except Diagnostics Unit × CtxOutputs))
    (req : EphemeralRequest) : m RenewResponse :=
  match service.provider.ephemeralHandler req.typeName with
  | none => pure { diagnostics := unknownEphemeral req.typeName }
  | some handler => do
      let (outcome, outs) ← renew handler (req.private_.getD [])
      pure <| match outcome with
        | .ok _ => {
            private_ := outs.privateOut.or req.private_
            renewAt := outs.renewAt.map toTimestamp
            diagnostics := pbDiagnostics outs.warnings }
        | .error diags => { diagnostics := diagsWithWarnings diags outs }

def closeEphemeralVia (close : DynEphemeral → Bytes → m (Except Diagnostics Unit × CtxOutputs))
    (req : EphemeralRequest) : m DiagnosticsResponse :=
  match service.provider.ephemeralHandler req.typeName with
  | none => pure ⟨unknownEphemeral req.typeName⟩
  | some handler => do
      let result ← close handler (req.private_.getD [])
      pure ⟨outcomeDiagnostics result⟩

section

variable {crates service} {req : ConfigRequest} {handler : DynEphemeral} {ty : Ty} {config : Value}
  {open_ : DynEphemeral → Value → m (Except Diagnostics Value × CtxOutputs)}

theorem openEphemeralVia_of_decoded (hty : service.provider.ephemeralCty req.typeName = some ty)
    (hhandler : service.provider.ephemeralHandler req.typeName = some handler)
    (hconfig : Service.decodeDynamic crates req.config ty = .ok config) :
    service.openEphemeralVia crates open_ req = respondOpen crates ty <$> open_ handler config := by
  rw [openEphemeralVia, hty, hhandler, runUnderVia.eq_def]
  simp only [hconfig]

theorem openEphemeralVia_of_refused (hhandler : service.provider.ephemeralHandler req.typeName = some handler)
    (hrefused : ¬∃ ty config, service.provider.ephemeralCty req.typeName = some ty ∧
      Service.decodeDynamic crates req.config ty = .ok config) :
    ∃ diagnostics, ∀ (m : Type → Type) [Monad m] (open_ : DynEphemeral → Value →
      m (Except Diagnostics Value × CtxOutputs)),
      service.openEphemeralVia crates open_ req = pure { diagnostics := diagnostics } := by
  cases hty : service.provider.ephemeralCty req.typeName with
  | none =>
      refine ⟨unknownEphemeral req.typeName, fun m _ open_ => ?_⟩
      rw [openEphemeralVia, hhandler, hty, runUnderVia.eq_def]
  | some ty =>
      cases hconfig : Service.decodeDynamic crates req.config ty with
      | error e =>
          refine ⟨errorDiag "failed to decode ephemeral config" e.toString, fun m _ open_ => ?_⟩
          rw [openEphemeralVia, hhandler, hty, runUnderVia.eq_def]
          simp only [hconfig]
      | ok config => exact absurd ⟨ty, config, hty, hconfig⟩ hrefused

end

theorem runUnderVia_run {η α ρ : Type} (ty : Option Ty) (handler : Option η) (config : Option DynamicValue)
    (unknown : List Diagnostic) (failed op : String) (refuse : List Diagnostic → ρ) (call : η → Value → Handler α)
    (respond : Ty → Except Diagnostics α × CtxOutputs → ρ) :
    runUnderVia crates ty handler config unknown failed refuse (fun handler config => run op [] (call handler config))
      respond = runUnder crates ty handler config unknown failed op refuse call respond := by
  unfold runUnderVia runUnder
  cases ty with
  | none => rfl
  | some ty =>
      cases handler with
      | none => rfl
      | some handler => cases Service.decodeDynamic crates config ty <;> rfl

theorem openEphemeralVia_run (req : ConfigRequest) :
    service.openEphemeralVia crates (fun handler config => run "open ephemeral resource" [] (handler.open_ config))
      req = service.openEphemeralResource crates req := by
  exact runUnderVia_run crates _ _ _ _ _ _ _ _ _

theorem renewEphemeralVia_run (req : EphemeralRequest) :
    service.renewEphemeralVia (fun handler privateIn => run "renew ephemeral resource" privateIn handler.renew) req =
      service.renewEphemeralResource req := by
  unfold renewEphemeralVia renewEphemeralResource Provider.ephemeralHandler
  cases service.provider.handler .ephemeral req.typeName <;> rfl

theorem closeEphemeralVia_run (req : EphemeralRequest) :
    service.closeEphemeralVia (fun handler privateIn => run "close ephemeral resource" privateIn handler.close) req =
      service.closeEphemeralResource req := by
  unfold closeEphemeralVia closeEphemeralResource Provider.ephemeralHandler
  cases service.provider.handler .ephemeral req.typeName <;> rfl

section

variable {crates service} {req : ConfigRequest} {handler : DynEphemeral} {res : OpenResponse}

/-- An answer to a request either goes back to a call of `open`, or has neither
a result nor private bytes. -/
theorem openEphemeralResource_cases (hhandler : service.provider.ephemeralHandler req.typeName = some handler)
    (hopen : (service.openEphemeralResource crates req).ending = .returned res) :
    (∃ ty config outcome outs, service.provider.ephemeralCty req.typeName = some ty ∧
      Service.decodeDynamic crates req.config ty = .ok config ∧
      (run "open ephemeral resource" [] (handler.open_ config)).ending = .returned (outcome, outs) ∧
      res = respondOpen crates ty (outcome, outs)) ∨
    res.result = none ∧ res.private_ = none := by
  rw [← openEphemeralVia_run] at hopen
  by_cases hdecoded : ∃ ty config, service.provider.ephemeralCty req.typeName = some ty ∧
      Service.decodeDynamic crates req.config ty = .ok config
  · obtain ⟨ty, config, hty, hconfig⟩ := hdecoded
    rw [openEphemeralVia_of_decoded hty hhandler hconfig, ← bind_pure_comp, Fut.ending_bind,
      Ending.bind_eq_returned] at hopen
    obtain ⟨⟨outcome, outs⟩, hrun, hrespond⟩ := hopen
    exact .inl ⟨ty, config, outcome, outs, hty, hconfig, hrun, (Ending.returned.inj hrespond).symm⟩
  · obtain ⟨diagnostics, hanswer⟩ := openEphemeralVia_of_refused hhandler hdecoded
    rw [hanswer] at hopen
    obtain rfl := Ending.returned.inj hopen
    exact .inr ⟨rfl, rfl⟩

theorem result_of_private {bytes : Bytes} (hhandler : service.provider.ephemeralHandler req.typeName = some handler)
    (hopen : (service.openEphemeralResource crates req).ending = .returned res) (hprivate : res.private_ = some bytes) :
    res.result.isSome = true := by
  obtain ⟨ty, config, outcome, outs, -, -, -, rfl⟩ | ⟨-, hnone⟩ := openEphemeralResource_cases hhandler hopen
  · cases outcome with
    | error diags => cases hprivate
    | ok value =>
        change (respondOpened crates ty value outs).private_ = some bytes at hprivate
        change (respondOpened crates ty value outs).result.isSome = true
        rw [respondOpened] at hprivate ⊢
        cases hencode : Service.encodeDynamic crates value ty with
        | ok dv => rfl
        | error e =>
            rw [hencode] at hprivate
            cases hprivate
  · rw [hnone] at hprivate
    cases hprivate

theorem openEphemeralResource_result (hhandler : service.provider.ephemeralHandler req.typeName = some handler) :
    (service.openEphemeralResource crates req).ending = .returned res ∧ res.result.isSome = true ↔
      ∃ ty config value dv, service.provider.ephemeralCty req.typeName = some ty ∧
        Service.decodeDynamic crates req.config ty = .ok config ∧
        (handler.open_ config []).finish = .returned (.ok value) ∧ Service.encodeDynamic crates value ty = .ok dv ∧
        res = respondOpened crates ty value (intoOutputs (handler.open_ config []).ops) := by
  constructor
  · rintro ⟨hopen, hresult⟩
    obtain ⟨ty, config, outcome, outs, hty, hconfig, hrun, rfl⟩ | ⟨hnone, -⟩ :=
      openEphemeralResource_cases hhandler hopen
    · cases outcome with
      | error diags => cases hresult
      | ok value =>
          obtain ⟨hfinish, rfl⟩ := run_eq_ok.mp hrun
          cases hencode : Service.encodeDynamic crates value ty with
          | ok dv => exact ⟨ty, config, value, dv, hty, hconfig, hfinish, hencode, rfl⟩
          | error e =>
              change (respondOpened crates ty value _).result.isSome = true at hresult
              rw [respondOpened, hencode] at hresult
              cases hresult
    · rw [hnone] at hresult
      cases hresult
  · rintro ⟨ty, config, value, dv, hty, hconfig, hfinish, hencode, rfl⟩
    have hrun := (@run_eq_ok _ "open ephemeral resource" _ _ _ _).mpr ⟨hfinish, rfl⟩
    constructor
    · rw [← openEphemeralVia_run, openEphemeralVia_of_decoded hty hhandler hconfig, ← bind_pure_comp,
        Fut.ending_bind, hrun]
      rfl
    · rw [respondOpened, hencode]
      rfl

end

end ProviderService

end Plugin

end TofuSdk
