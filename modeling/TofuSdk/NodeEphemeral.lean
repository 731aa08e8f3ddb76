import TofuSdk.Delivery
import TofuSdk.Guard
import TofuSdk.Handles
import TofuSdk.NodeHooks

namespace TofuSdk

namespace Node

section

variable (crates : Crates)

def applyOpenOutputs (obj : Json) : List CtxOp :=
  ((obj.member "private").bind Json.asString).toList.map (fun p => .setPrivate (Utf8.encode p)) ++
    (((obj.member "renewAt").bind fun v => v.asNumber.bind crates.toI64).filter (0 ≤ ·.toInt)).toList.map fun ms =>
      .setRenewAt (ms.toInt * 1000000)

def callWithHandle (handler : RawHandler) (op : String) (privateIn : Bytes) :
    Plugin.Authored (Except Diagnostics Bytes) :=
  match handler (Utf8.encode (Utf8.fromUtf8Lossy privateIn)) with
  | .returned out => .returned (.ok out)
  | .panicked e => .returned (.error (handlerErr op e))
  | .pending => .pending

def answered {α : Type} (ending : Plugin.Authored (Except Diagnostics Bytes)) (next : Bytes → Call α) : Call α :=
  match ending with
  | .returned (.ok out) => next out
  | .returned (.error diags) => ⟨[], .returned (.error diags)⟩
  | .panicked payload => ⟨[], .panicked payload⟩
  | .pending => ⟨[], .pending⟩

structure JsEphemeral where
  ty : Ty
  open_ : RawHandler
  renew : RawHandler
  close : RawHandler
  validate : RawHandler

def missingResult : Diagnostics := handlerErr "open" "open must return `\x7b result, private?, renewAt? \x7d`"

def openOutput (ty : Ty) (out : Bytes) : Call Value :=
  match crates.fromSlice out with
  | .error e => ⟨[], .returned (.error (handlerErr "open" e))⟩
  | .ok parsed =>
      match parsed.member "result" with
      | none => ⟨[], .returned (.error missingResult)⟩
      | some result => ⟨applyOpenOutputs crates parsed, .returned (readJson crates ty "open" (crates.toVec result))⟩

def renewOutput (out : Bytes) : Call Unit :=
  match crates.fromSlice out with
  | .ok (.object obj) => ⟨applyOpenOutputs crates (.object obj), .returned (.ok ())⟩
  | _ => ⟨[], .returned (.ok ())⟩

def JsEphemeral.erased (ephemeral : JsEphemeral) : Plugin.DynEphemeral where
  open_ config _ := answered (callHandler crates ephemeral.open_ config "open") (openOutput crates ephemeral.ty)
  renew privateIn := answered (callWithHandle ephemeral.renew "renew" privateIn) (renewOutput crates)
  close privateIn := answered (callWithHandle ephemeral.close "close" privateIn) fun _ => ⟨[], .returned (.ok ())⟩
  validate := validateWith crates ephemeral.validate "ephemeral validate"

end

structure EphemeralOpen where
  result : Js
  private_ : Option String := none
  renewAt : Option F64 := none

structure EphemeralRenew where
  private_ : Option String := none
  renewAt : Option F64 := none

structure EphemeralDef where
  schema : Zod
  open_ (config : Js) : Ending String EphemeralOpen
  renew : Option (String → Ending String (Option EphemeralRenew))
  close : Option (String → Ending String Unit)
  validate : Option (Js → Ending String (Option (List Diagnostic)))

def adapt (js : JsText) (fn : Js → Ending String Js) (schema : Option Zod) : RawHandler := fun input => do
  let parsed ← ofExcept (js.parse input)
  let result ← fn (schema.elim parsed (reviveSets · parsed))
  printed js (orElse result .null)

def leaseProperties (private_ : Option String) (renewAt : Option F64) : List (String × Js) :=
  [("private", optional .string private_), ("renewAt", optional (fun x => .primitive (.number x)) renewAt)]

structure Opening where
  text : Option Js
  private_ : Option String
  renewAt : Option F64

namespace EphemeralDef

variable (lib : Library) (js : JsText) (ephemeral : EphemeralDef) (typeName : String)

def openFn (config : Js) : Ending String Js := do
  let opened ← ephemeral.open_ config
  let result ← (lib.validateOut ephemeral.schema opened.result ("ephemeral " ++ typeName ++ " open")).ending
  pure (.object (.ofMembers (("result", result) :: leaseProperties opened.private_ opened.renewAt)))

def opening (config : Js) : Ending String Opening := do
  let opened ← ephemeral.open_ config
  let result ← (lib.validateOut ephemeral.schema opened.result ("ephemeral " ++ typeName ++ " open")).ending
  let text ← ofExcept (stringify result)
  pure ⟨text, opened.private_, opened.renewAt⟩

def renewing (handle : String) : Ending String (Option EphemeralRenew) :=
  ephemeral.renew.elim (.returned none) fun renew => renew handle

def closing (handle : String) : Ending String Unit := ephemeral.close.elim (.returned ()) fun close => close handle

def renewFn : RawHandler := fun handle => do
  let refreshed ← ephemeral.renewing (Utf8.fromUtf8Lossy handle)
  let refreshed := refreshed.getD {}
  printed js (.object (.ofMembers (leaseProperties refreshed.private_ refreshed.renewAt)))

def closeFn : RawHandler := fun handle => do
  let _ ← ephemeral.closing (Utf8.fromUtf8Lossy handle)
  pure (Utf8.encode "null")

def toNative (ty : Ty) : JsEphemeral where
  ty := ty
  open_ := adapt js (ephemeral.openFn lib typeName) (some ephemeral.schema)
  renew := ephemeral.renewFn js
  close := ephemeral.closeFn
  validate := validateAdapter js ephemeral.validate (some ephemeral.schema)

end EphemeralDef

def deadline (renewAt : Option F64) : Option SystemTime :=
  renewAt.bind fun x => if x.isFinite = true ∧ x.value.den = 1 ∧ 0 ≤ x.value.num then some (x.value.num * 1000000)
    else none

def IsSafeDeadline (renewAt : Option F64) : Prop := ∀ x ∈ renewAt, (PathKey.index x).isSafe

def LeaseOutputs (private_ : Option String) (renewAt : Option F64) (outs : CtxOutputs) : Prop :=
  ∃ time, outs = ⟨[], private_.map Utf8.encode, time, []⟩ ∧ (IsSafeDeadline renewAt → time = deadline renewAt)

theorem exists_text_lease (private_ : Option String) (renewAt : Option F64) :
    ∀ p ∈ leaseProperties private_ renewAt, ∃ text, stringify p.2 = .ok text := by
  simp only [leaseProperties, List.forall_mem_cons]
  refine ⟨?_, ?_, List.forall_mem_nil _⟩
  · apply exists_text
    cases private_ with
    | none => exact .inl rfl
    | some p => exact .inr rfl
  · apply exists_text
    cases renewAt with
    | none => exact .inl rfl
    | some x => exact .inr rfl

theorem outputs_applyOpenOutputs {crates : Crates} (hnum : crates.CountsNumbers) {fields : OrdMap String Json}
    {private_ : Option String} {renewAt : Option F64}
    (hfields : ∀ p ∈ leaseProperties private_ renewAt,
      (fields.get? p.1).map Json.rounded = (written p.2).map Js.toJson) :
    LeaseOutputs private_ renewAt (intoOutputs (applyOpenOutputs crates (.object fields))) := by
  simp only [leaseProperties, List.forall_mem_cons] at hfields
  obtain ⟨hprivate, hrenew, -⟩ := hfields
  have hhandle : (fields.get? "private").bind Json.asString = private_ := by
    have hkey := congrArg (Option.bind · Json.asString) hprivate
    simp only [Option.bind_map, Function.comp_def, Json.asString_rounded] at hkey
    rw [hkey]
    cases private_ with
    | none => simp [optional, written_eq (v := Js.undefined) rfl]
    | some p => simp [optional, written_eq (v := Js.string p) rfl]; rfl
  have htime : IsSafeDeadline renewAt →
      ((((fields.get? "renewAt").bind fun v => v.asNumber.bind crates.toI64).filter (0 ≤ ·.toInt)).map
        fun ms => ms.toInt * 1000000) = deadline renewAt := by
    intro hsafe
    cases renewAt with
    | none =>
        rw [optional, Option.elim, written_eq (v := Js.undefined) rfl, Option.map_none,
          Option.map_eq_none_iff] at hrenew
        rw [hrenew]
        rfl
    | some x =>
        obtain ⟨-, hround⟩ := toJson_wireForm (v := Js.primitive (.number x)) rfl
        rw [optional, Option.elim, written_eq (stringify_eq_ok rfl), Option.map_some, hround,
          Option.map_eq_some_iff] at hrenew
        obtain ⟨json, hget, hjson⟩ := hrenew
        have hsafe := hsafe x rfl
        rw [hget, Option.bind_some, toI64_of_rounded hnum hsafe hjson, deadline, Option.bind_some]
        by_cases hint : x.isFinite = true ∧ x.value.den = 1
        · obtain ⟨hlo, hhi⟩ := abs_lt.mp (hsafe hint.1 hint.2)
          have htoInt : (Int64.ofInt x.value.num).toInt = x.value.num := Int64.toInt_ofInt_of_le (by omega) (by omega)
          rw [if_pos hint]
          by_cases hpos : 0 ≤ x.value.num
          · rw [if_pos ⟨hint.1, hint.2, hpos⟩, Option.filter_some_pos (by simpa [htoInt] using hpos), Option.map_some,
              htoInt]
          · rw [if_neg (hpos ·.2.2), Option.filter_some_neg (by simpa [htoInt] using hpos)]
            rfl
        · rw [if_neg hint, if_neg fun h => hint ⟨h.1, h.2.1⟩]
          rfl
  have hops : ∀ (p : Option Bytes) (t : Option SystemTime),
      intoOutputs (p.toList.map CtxOp.setPrivate ++ t.toList.map CtxOp.setRenewAt) = ⟨[], p, t, []⟩ := by
    intro p t
    cases p <;> cases t <;> rfl
  refine ⟨_, ?_, htime⟩
  rw [← hhandle, ← hops, applyOpenOutputs]
  simp only [Option.toList_map, List.map_map, Function.comp_def]
  rfl

/-- What is said of a call by what the author's code comes to: what it throws is
the error, and the call never comes back when the code does not. -/
def ComesTo {α β : Type} (op : String) (answers : α → Call β → Prop) (ending : Ending String α) (call : Call β) :
    Prop :=
  match ending with
  | .returned a => answers a call
  | .panicked e => call = ⟨[], .returned (.error (handlerErr op e))⟩
  | .pending => call = ⟨[], .pending⟩

structure Opens (crates : Crates) (ty : Ty) (opened : Opening) (call : Call Value) : Prop where
  result : ∀ w, opened.text = some w → LeaseOutputs opened.private_ opened.renewAt (intoOutputs call.ops) ∧
    ∃ json, Document json ∧ call.finish = .returned (readDocument crates ty "open" json) ∧ json.rounded = w.toJson
  missing : opened.text = none →
    call = ⟨[], .returned (.error missingResult)⟩

structure Renews (refreshed : Option EphemeralRenew) (call : Call Unit) : Prop where
  finish : call.finish = .returned (.ok ())
  outputs : LeaseOutputs (refreshed.getD {}).private_ (refreshed.getD {}).renewAt (intoOutputs call.ops)

section

variable {crates : Crates} {js : JsText}

theorem exists_printed (h : js.Reads crates) {properties : List (String × Js)}
    (hproperties : ∀ p ∈ properties, ∃ text, stringify p.2 = .ok text) :
    ∃ out fields, printed js (.object (.ofMembers properties)) = .returned out ∧
      crates.fromSlice out = .ok (.object fields) ∧ Document (.object fields) ∧ ∀ key,
        (fields.get? key).map Json.rounded = (((OrdMap.ofList properties).get? key).bind written).map Js.toJson := by
  obtain ⟨texts, hout, hget⟩ := stringify_members hproperties
  obtain ⟨json, hread, hdoc, hround⟩ := h.fromSlice_print (isJson_of_stringify hout)
  obtain ⟨fields, rfl, hfields⟩ := Json.exists_members hround
  refine ⟨js.print (.object texts), fields, ?_, hread, hdoc, fun key => ?_⟩
  · rw [printed, hout]
    rfl
  · rw [hfields, hget]

theorem opens_openOutput (h : js.Reads crates) {result : Js} {text : Option Js} (ty : Ty)
    (htext : stringify result = .ok text) (private_ : Option String) (renewAt : Option F64) :
    ∃ out, printed js (.object (.ofMembers (("result", result) :: leaseProperties private_ renewAt))) = .returned out ∧
      Opens crates ty ⟨text, private_, renewAt⟩ (openOutput crates ty out) := by
  have hproperties : ∀ p ∈ ("result", result) :: leaseProperties private_ renewAt, ∃ text, stringify p.2 = .ok text :=
    List.forall_mem_cons.mpr ⟨⟨text, htext⟩, exists_text_lease private_ renewAt⟩
  obtain ⟨out, fields, hout, hread, hdoc, hfields⟩ := exists_printed h hproperties
  have hresult : ((fields.get? "result").map Json.rounded) = text.map Js.toJson := by
    rw [hfields, OrdMap.get?_ofList]
    exact congrArg (Option.map Js.toJson) (written_eq htext)
  refine ⟨out, hout, ?_⟩
  rw [openOutput, hread]
  constructor
  · intro w hw
    obtain rfl : text = some w := hw
    obtain ⟨json, hjson, hround⟩ := Option.map_eq_some_iff.mp hresult
    have hmember : (Json.object fields).member "result" = some json := hjson
    have hdocument : Document json := by
      cases hdoc with
      | object _ hall => exact hall "result" json hjson
    simp only [hmember]
    obtain ⟨json', hread', hdoc', hround'⟩ := h.fromSlice_toVec hdocument
    refine ⟨outputs_applyOpenOutputs h.toCountsNumbers ?_, json', hdoc', ?_, hround'.trans hround⟩
    · intro p hp
      rw [hfields, OrdMap.get?_ofList]
      simp only [leaseProperties, List.mem_cons, List.not_mem_nil, or_false] at hp
      obtain rfl | rfl := hp <;> rfl
    · rw [readJson_of_fromSlice hread']
  · intro hnone
    obtain rfl : text = none := hnone
    have hmember : (Json.object fields).member "result" = none := Option.map_eq_none_iff.mp hresult
    simp only [hmember]

theorem renews_renewOutput (h : js.Reads crates) (refreshed : Option EphemeralRenew) :
    ∃ out, printed js (.object (.ofMembers
        (leaseProperties (refreshed.getD {}).private_ (refreshed.getD {}).renewAt))) = .returned out ∧
      Renews refreshed (renewOutput crates out) := by
  obtain ⟨out, fields, hout, hread, -, hfields⟩ := exists_printed h (exists_text_lease _ _)
  refine ⟨out, hout, ?_⟩
  rw [renewOutput, hread]
  refine ⟨rfl, outputs_applyOpenOutputs h.toCountsNumbers ?_⟩
  intro p hp
  rw [hfields, OrdMap.get?_ofList]
  simp only [leaseProperties, List.mem_cons, List.not_mem_nil, or_false] at hp
  obtain rfl | rfl := hp <;> rfl

theorem orElse_object (own : Entries Js) (w : Js) : orElse (.object own) w = .object own := rfl

theorem adapt_eq (fn : Js → Ending String Js) (schema : Zod) {input : Bytes} {v : Js}
    (hparse : js.parse input = .ok v) :
    adapt js fn (some schema) input = fn (reviveSets schema v) >>= fun result => printed js (orElse result .null) := by
  rw [adapt, hparse]
  rfl

theorem comesTo_open (h : js.Reads crates) (lib : Library) (ephemeral : EphemeralDef) (typeName : String) (ty : Ty)
    {config : Value} (hfinite : config.isFinite = true) (privateIn : Bytes) : ∃ v, Shows v (encodeJson crates config) ∧
      ComesTo "open" (Opens crates ty) (ephemeral.opening lib typeName (reviveSets ephemeral.schema v))
        (((ephemeral.toNative lib js typeName ty).erased crates).open_ config privateIn) := by
  obtain ⟨v, hparse, hshows⟩ := exists_shown h (document_encodeJson h.toHoldsNumbers hfinite)
  refine ⟨v, hshows, ?_⟩
  have hcall := callHandler_eq "open" (adapt_eq (ephemeral.openFn lib typeName) ephemeral.schema hparse)
  change ComesTo "open" (Opens crates ty) _ (answered (callHandler crates (adapt js (ephemeral.openFn lib typeName)
    (some ephemeral.schema)) config "open") (openOutput crates ty))
  rw [hcall, EphemeralDef.opening, EphemeralDef.openFn]
  generalize reviveSets ephemeral.schema v = config
  cases ephemeral.open_ config with
  | panicked e => rfl
  | pending => rfl
  | returned opened =>
      simp only [Ending.returned_bind]
      cases (lib.validateOut ephemeral.schema opened.result ("ephemeral " ++ typeName ++ " open")).ending with
      | panicked e => rfl
      | pending => rfl
      | returned result =>
          simp only [Ending.returned_bind]
          cases htext : stringify result with
          | error e =>
              have hstringify : stringify (.object (.ofMembers (("result", result) ::
                  leaseProperties opened.private_ opened.renewAt))) = .error e :=
                stringify_members_error (by simp [leaseProperties])
                  (by rw [List.mapM_cons, htext, Outcome.error_bind])
              have hprinted : printed js (.object (.ofMembers (("result", result) ::
                  leaseProperties opened.private_ opened.renewAt))) = .panicked e := by
                rw [printed, hstringify]
                rfl
              rw [pure_bind, orElse_object, hprinted]
              rfl
          | ok text =>
              obtain ⟨out, hout, hopens⟩ := opens_openOutput h ty htext opened.private_ opened.renewAt
              rw [pure_bind, orElse_object, hout]
              exact hopens

theorem comesTo_renew (h : js.Reads crates) (lib : Library) (ephemeral : EphemeralDef) (typeName : String) (ty : Ty)
    (handle : String) : ComesTo "renew" Renews (ephemeral.renewing handle)
      (((ephemeral.toNative lib js typeName ty).erased crates).renew (Utf8.encode handle)) := by
  change ComesTo "renew" Renews _
    (answered (callWithHandle (ephemeral.renewFn js) "renew" (Utf8.encode handle)) (renewOutput crates))
  rw [callWithHandle, Utf8.fromUtf8Lossy_encode, EphemeralDef.renewFn, Utf8.fromUtf8Lossy_encode]
  cases ephemeral.renewing handle with
  | panicked e => rfl
  | pending => rfl
  | returned refreshed =>
      obtain ⟨out, hout, hrenews⟩ := renews_renewOutput h refreshed
      rw [Ending.returned_bind, hout]
      exact hrenews

theorem comesTo_close (lib : Library) (ephemeral : EphemeralDef) (typeName : String) (ty : Ty) (handle : String) :
    ComesTo "close" (fun _ call => call = ⟨[], .returned (.ok ())⟩) (ephemeral.closing handle)
      (((ephemeral.toNative lib js typeName ty).erased crates).close (Utf8.encode handle)) := by
  change ComesTo "close" _ _ (answered (callWithHandle ephemeral.closeFn "close" (Utf8.encode handle)) fun _ =>
    ⟨[], .returned (.ok ())⟩)
  rw [callWithHandle, Utf8.fromUtf8Lossy_encode, EphemeralDef.closeFn, Utf8.fromUtf8Lossy_encode]
  cases ephemeral.closing handle <;> rfl

end

/-- A request about an ephemeral resource, with its author's code as it is then,
and the response if there is one. -/
inductive LeaseEvent
  | opened (author : EphemeralDef) (config : Option Service.DynamicValue) (response : Option Plugin.OpenResponse)
  | renewed (author : EphemeralDef) (response : Option Plugin.RenewResponse)
  | closed (author : EphemeralDef) (response : Option Plugin.DiagnosticsResponse)

section

variable (crates : Crates) (lib : Library) (js : JsText) (typeName : String) (ty : Ty)

/-- The service has the ephemeral resource that an author wrote. -/
structure HostsEphemeral (service : Plugin.ProviderService) (author : EphemeralDef) : Prop where
  cty : service.provider.ephemeralCty typeName = some ty
  handler : service.provider.handler .ephemeral typeName = some ((author.toNative lib js typeName ty).erased crates)

/-- The service as the host has it: a token is the private bytes of a response
with a result. The numbers of a configuration are finite. -/
inductive Serves : Option (Option Bytes) → LeaseEvent → Option (Option Bytes) → Prop
  | opened (service : Plugin.ProviderService) (author : EphemeralDef) (config : Option Service.DynamicValue)
      (response : Option Plugin.OpenResponse) : HostsEphemeral crates lib js typeName ty service author →
      (∀ value, Service.decodeDynamic crates config ty = .ok value → value.isFinite = true) →
      (service.openEphemeralResource crates ⟨typeName, config⟩).ending.toOption = response →
      Serves none (.opened author config response)
        (response.bind fun res => if res.result.isSome then some res.private_ else none)
  | renewed (service : Plugin.ProviderService) (author : EphemeralDef) (private_ : Option Bytes)
      (response : Option Plugin.RenewResponse) : HostsEphemeral crates lib js typeName ty service author →
      (service.renewEphemeralResource ⟨typeName, private_⟩).ending.toOption = response →
      Serves (some private_) (.renewed author response)
        (response.bind fun res => if Service.hasError res.diagnostics then none else some res.private_)
  | closed (service : Plugin.ProviderService) (author : EphemeralDef) (private_ : Option Bytes)
      (response : Option Plugin.DiagnosticsResponse) : HostsEphemeral crates lib js typeName ty service author →
      (service.closeEphemeralResource ⟨typeName, private_⟩).ending.toOption = response →
      Serves (some private_) (.closed author response) none

/-- What the host is told of `open`, and the handle that stands for its token. -/
inductive AnswersOpen (opening : Ending String Opening) : Option Plugin.OpenResponse → Option (Option String) → Prop
  | result (opened : Opening) (w : Js) (json : Json) (value : Value) (sent : Service.DynamicValue)
      (time : Option SystemTime) :
      opening = .returned opened → opened.text = some w → json.rounded = w.toJson →
      readDocument crates ty "open" json = .ok value → Service.encodeDynamic crates value ty = .ok sent →
      (IsSafeDeadline opened.renewAt → time = deadline opened.renewAt) →
      AnswersOpen opening (some {
        result := some sent
        private_ := opened.private_.map Utf8.encode
        renewAt := time.map Plugin.toTimestamp }) (some opened.private_)
  | invalid (opened : Opening) (w : Js) (json : Json) (diags : Diagnostics) :
      opening = .returned opened → opened.text = some w → json.rounded = w.toJson →
      readDocument crates ty "open" json = .error diags →
      AnswersOpen opening (some { diagnostics := Service.pbDiagnostics diags }) none
  | missing (opened : Opening) : opening = .returned opened → opened.text = none →
      AnswersOpen opening (some { diagnostics := Service.pbDiagnostics missingResult }) none
  | thrown (e : String) : opening = .panicked e →
      AnswersOpen opening (some { diagnostics := Service.pbDiagnostics (handlerErr "open" e) }) none
  | pending : opening = .pending → AnswersOpen opening none none

/-- What the host is told of `renew`. A handle that is not replaced stays. -/
inductive AnswersRenew (handle : Option String) (renewal : Ending String (Option EphemeralRenew)) :
    Option Plugin.RenewResponse → Option (Option String) → Prop
  | renewed (refreshed : Option EphemeralRenew) (time : Option SystemTime) : renewal = .returned refreshed →
      (IsSafeDeadline (refreshed.getD {}).renewAt → time = deadline (refreshed.getD {}).renewAt) →
      AnswersRenew handle renewal (some {
        private_ := ((refreshed.getD {}).private_.or handle).map Utf8.encode
        renewAt := time.map Plugin.toTimestamp }) (some ((refreshed.getD {}).private_.or handle))
  | thrown (e : String) : renewal = .panicked e →
      AnswersRenew handle renewal (some { diagnostics := Service.pbDiagnostics (handlerErr "renew" e) }) none
  | pending : renewal = .pending → AnswersRenew handle renewal none none

def answerClose (closing : Ending String Unit) : Option Plugin.DiagnosticsResponse :=
  match closing with
  | .returned _ => some ⟨[]⟩
  | .panicked e => some ⟨Service.pbDiagnostics (handlerErr "close" e)⟩
  | .pending => none

/-- The author's code as it is called: a token is the handle that it returned last. -/
inductive Authors : Option (Option String) → LeaseEvent → Option (Option String) → Prop
  | refused (author : EphemeralDef) (config : Option Service.DynamicValue) (e : CodecError) :
      Service.decodeDynamic crates config ty = .error e →
      Authors none (.opened author config
        (some { diagnostics := Service.errorDiag "failed to decode ephemeral config" e.toString })) none
  | opened (author : EphemeralDef) (config : Option Service.DynamicValue) (value : Value) (v : Js)
      (response : Option Plugin.OpenResponse) (issued : Option (Option String)) :
      Service.decodeDynamic crates config ty = .ok value → Shows v (encodeJson crates value) →
      AnswersOpen crates ty (author.opening lib typeName (reviveSets author.schema v)) response issued →
      Authors none (.opened author config response) issued
  | renewed (author : EphemeralDef) (handle : Option String) (response : Option Plugin.RenewResponse)
      (issued : Option (Option String)) : AnswersRenew handle (author.renewing (handle.getD "")) response issued →
      Authors (some handle) (.renewed author response) issued
  | closed (author : EphemeralDef) (handle : Option String) :
      Authors (some handle) (.closed author (answerClose (author.closing (handle.getD "")))) none

def wire : Issuer (Option Bytes) LeaseEvent := ⟨Serves crates lib js typeName ty⟩

def authored : Issuer (Option String) LeaseEvent := ⟨Authors crates lib typeName ty⟩

end

section

variable {crates : Crates} {lib : Library} {js : JsText} {typeName : String} {ty : Ty}

theorem exists_answersOpen (hnum : crates.CountsNumbers) (hc : crates.Lawful) (ht : crates.ReadsTypes)
    (hn : ty.distinctNames = true) {op : String}
    {opening : Ending String Opening} {handler : Handler Value}
    (h : ComesTo "open" (Opens crates ty) opening (handler []))
    {response : Option Plugin.OpenResponse} (hresponse :
      (Plugin.ProviderService.respondOpen crates ty <$> Plugin.run op [] handler).ending.toOption = response) :
    ∃ issued, AnswersOpen crates ty opening response issued ∧
      (response.bind fun res => if res.result.isSome then some res.private_ else none) =
        issued.map (Option.map Utf8.encode) := by
  rw [Plugin.toOption_run] at hresponse
  subst hresponse
  cases opening with
  | panicked e =>
      have hcall : handler [] = ⟨[], .returned (.error (handlerErr "open" e))⟩ := h
      rw [hcall]
      exact ⟨none, .thrown e rfl, rfl⟩
  | pending =>
      have hcall : handler [] = ⟨[], .pending⟩ := h
      rw [hcall]
      exact ⟨none, .pending rfl, rfl⟩
  | returned opened =>
      have hopens : Opens crates ty opened (handler []) := h
      cases htext : opened.text with
      | none =>
          rw [hopens.missing htext]
          exact ⟨none, .missing opened rfl htext, rfl⟩
      | some w =>
          obtain ⟨⟨time, houts, htime⟩, json, hdoc, hfinish, hround⟩ := hopens.result w htext
          rw [hfinish, houts]
          cases hread : readDocument crates ty "open" json with
          | error diags =>
              have hwarnings : Service.diagsWithWarnings diags ⟨[], opened.private_.map Utf8.encode, time, []⟩ =
                  Service.pbDiagnostics diags := congrArg Service.pbDiagnostics (List.append_nil diags)
              refine ⟨none, ?_, rfl⟩
              change AnswersOpen crates ty _ (some { diagnostics := Service.diagsWithWarnings diags _ }) none
              rw [hwarnings]
              exact .invalid opened w json diags rfl htext hround hread
          | ok value =>
              obtain ⟨sent, hsent⟩ := exists_sent hc ht hnum hn hdoc (Outcome.mapError_eq_ok.mp hread)
              have hrespond : Plugin.ProviderService.respondOpen crates ty
                  (.ok value, ⟨[], opened.private_.map Utf8.encode, time, []⟩) = {
                    result := some sent
                    private_ := opened.private_.map Utf8.encode
                    renewAt := time.map Plugin.toTimestamp } := by
                change Plugin.ProviderService.respondOpened crates ty value _ = _
                rw [Plugin.ProviderService.respondOpened, hsent]
                rfl
              refine ⟨some opened.private_, ?_, ?_⟩
              · change AnswersOpen crates ty _ (some (Plugin.ProviderService.respondOpen crates ty (.ok value, _))) _
                rw [hrespond]
                exact .result opened w json value sent time rfl htext hround hread hsent htime
              · change (some (Plugin.ProviderService.respondOpen crates ty (.ok value, _))).bind _ = _
                rw [hrespond]
                rfl

def respondRenew (private_ : Option Bytes) (result : Except Diagnostics Unit × CtxOutputs) : Plugin.RenewResponse :=
  match result.1 with
  | .ok _ => {
      private_ := result.2.privateOut.or private_
      renewAt := result.2.renewAt.map Plugin.toTimestamp
      diagnostics := Service.pbDiagnostics result.2.warnings }
  | .error diags => { diagnostics := Service.diagsWithWarnings diags result.2 }

theorem exists_answersRenew {op : String} {handle : Option String} {renewal : Ending String (Option EphemeralRenew)}
    {handler : Handler Unit} {bytes : Bytes} (h : ComesTo "renew" Renews renewal (handler bytes))
    {response : Option Plugin.RenewResponse} (hresponse :
      (respondRenew (handle.map Utf8.encode) <$> Plugin.run op bytes handler).ending.toOption = response) :
    ∃ issued, AnswersRenew handle renewal response issued ∧
      (response.bind fun res => if Service.hasError res.diagnostics then none else some res.private_) =
        issued.map (Option.map Utf8.encode) := by
  rw [Plugin.toOption_run] at hresponse
  subst hresponse
  cases renewal with
  | panicked e =>
      have hcall : handler bytes = ⟨[], .returned (.error (handlerErr "renew" e))⟩ := h
      rw [hcall]
      exact ⟨none, .thrown e rfl, rfl⟩
  | pending =>
      have hcall : handler bytes = ⟨[], .pending⟩ := h
      rw [hcall]
      exact ⟨none, .pending rfl, rfl⟩
  | returned refreshed =>
      obtain ⟨hfinish, time, houts, htime⟩ : Renews refreshed (handler bytes) := h
      have hkept : ((refreshed.getD {}).private_.map Utf8.encode).or (handle.map Utf8.encode) =
          ((refreshed.getD {}).private_.or handle).map Utf8.encode := by
        cases (refreshed.getD {}).private_ <;> rfl
      rw [hfinish, houts]
      refine ⟨some ((refreshed.getD {}).private_.or handle), ?_, ?_⟩
      · change AnswersRenew handle _ (some { private_ := Option.or _ _, renewAt := _, diagnostics := [] }) _
        rw [hkept]
        exact .renewed refreshed time rfl htime
      · exact congrArg some hkept

theorem toOption_close {op : String} {closing : Ending String Unit} {handler : Handler Unit} {bytes : Bytes}
    (h : ComesTo "close" (fun _ call => call = ⟨[], .returned (.ok ())⟩) closing (handler bytes)) :
    ((fun result => (⟨Plugin.ProviderService.outcomeDiagnostics result⟩ : Plugin.DiagnosticsResponse)) <$>
      Plugin.run op bytes handler).ending.toOption = answerClose closing := by
  rw [Plugin.toOption_run]
  cases closing with
  | panicked e =>
      have hcall : handler bytes = ⟨[], .returned (.error (handlerErr "close" e))⟩ := h
      rw [hcall]
      rfl
  | pending =>
      have hcall : handler bytes = ⟨[], .pending⟩ := h
      rw [hcall]
      rfl
  | returned _ =>
      have hcall : handler bytes = ⟨[], .returned (.ok ())⟩ := h
      rw [hcall]
      rfl

theorem getD_encode (handle : Option String) :
    (handle.map Utf8.encode).getD [] = Utf8.encode (handle.getD "") := by
  cases handle <;> rfl

theorem renewEphemeralResource_eq {service : Plugin.ProviderService} {author : EphemeralDef} {private_ : Option Bytes}
    (h : HostsEphemeral crates lib js typeName ty service author) :
    service.renewEphemeralResource ⟨typeName, private_⟩ = respondRenew private_ <$>
      Plugin.run "renew ephemeral resource" (private_.getD [])
        ((author.toNative lib js typeName ty).erased crates).renew := by
  rw [Plugin.ProviderService.renewEphemeralResource]
  simp only [h.handler]
  rw [← bind_pure_comp]
  rfl

theorem closeEphemeralResource_eq {service : Plugin.ProviderService} {author : EphemeralDef} {private_ : Option Bytes}
    (h : HostsEphemeral crates lib js typeName ty service author) :
    service.closeEphemeralResource ⟨typeName, private_⟩ =
      (fun result => (⟨Plugin.ProviderService.outcomeDiagnostics result⟩ : Plugin.DiagnosticsResponse)) <$>
        Plugin.run "close ephemeral resource" (private_.getD [])
          ((author.toNative lib js typeName ty).erased crates).close := by
  rw [Plugin.ProviderService.closeEphemeralResource]
  simp only [h.handler]
  rw [← bind_pure_comp]

theorem refines_wire (h : js.Reads crates) (hc : crates.Lawful) (ht : crates.ReadsTypes)
    (hn : ty.distinctNames = true) :
    (wire crates lib js typeName ty).Refines (authored crates lib typeName ty) (Option.map Utf8.encode) := by
  intro held event issued hserves
  change Serves crates lib js typeName ty (held.map (Option.map Utf8.encode)) event issued at hserves
  generalize hheld : held.map (Option.map Utf8.encode) = token at hserves
  cases hserves with
  | opened service author config response hhosts hfinite hresponse =>
      obtain rfl := Option.map_eq_none_iff.mp hheld
      rw [← Plugin.ProviderService.openEphemeralVia_run] at hresponse
      cases hconfig : Service.decodeDynamic crates config ty with
      | error e =>
          rw [Plugin.ProviderService.openEphemeralVia, hhosts.cty, Plugin.Provider.ephemeralHandler, hhosts.handler,
            Plugin.ProviderService.runUnderVia.eq_def] at hresponse
          simp only [hconfig] at hresponse
          subst hresponse
          exact ⟨none, .refused author config e hconfig, rfl⟩
      | ok value =>
          have hopen : service.openEphemeralVia crates
              (fun handler config => Plugin.run "open ephemeral resource" [] (handler.open_ config))
                ⟨typeName, config⟩ =
              Plugin.ProviderService.respondOpen crates ty <$> Plugin.run "open ephemeral resource" []
                (((author.toNative lib js typeName ty).erased crates).open_ value) :=
            Plugin.ProviderService.openEphemeralVia_of_decoded hhosts.cty hhosts.handler hconfig
          rw [hopen] at hresponse
          obtain ⟨v, hshows, hcomes⟩ := comesTo_open h lib author typeName ty (hfinite value hconfig) []
          obtain ⟨issued, hanswers, hissued⟩ := exists_answersOpen h.toCountsNumbers hc ht hn hcomes hresponse
          exact ⟨issued, .opened author config value v response issued hconfig hshows hanswers, hissued⟩
  | renewed service author private_ response hhosts hresponse =>
      obtain ⟨handle, rfl, rfl⟩ := Option.map_eq_some_iff.mp hheld
      rw [renewEphemeralResource_eq hhosts, getD_encode] at hresponse
      obtain ⟨issued, hanswers, hissued⟩ :=
        exists_answersRenew (comesTo_renew h lib author typeName ty (handle.getD "")) hresponse
      exact ⟨issued, .renewed author handle response issued hanswers, hissued⟩
  | closed service author private_ response hhosts hresponse =>
      obtain ⟨handle, rfl, rfl⟩ := Option.map_eq_some_iff.mp hheld
      rw [closeEphemeralResource_eq hhosts, getD_encode,
        toOption_close (comesTo_close lib author typeName ty (handle.getD ""))] at hresponse
      subst hresponse
      exact ⟨none, .closed author handle, rfl⟩

/-- Whatever a host does with the private bytes that it is given, each callback
is called with the handle that the authors returned for them. -/
theorem leases_authored (h : js.Reads crates) (hc : crates.Lawful) (ht : crates.ReadsTypes)
    (hn : ty.distinctNames = true) {trace : List (List (Option Bytes) × Option ℕ × LeaseEvent)}
    {tokens : List (Option Bytes)} (hrun : Run (wire crates lib js typeName ty).Step [] trace tokens) :
    ∃ trace' handles, Run (authored crates lib typeName ty).Step [] trace' handles ∧
      tokens = handles.map (Option.map Utf8.encode) ∧
      trace = trace'.map fun p => (p.1.map (Option.map Utf8.encode), p.2) :=
  (refines_wire h hc ht hn).run hrun

end

def leaseAuthor : EphemeralDef where
  schema := .object {} (.ofList [] (by decide))
  open_ _ := .returned { result := .object .empty, private_ := some "db", renewAt := some (BinaryFloat.ofInt 1000) }
  renew := some fun handle => .returned (some { private_ := some (handle ++ "+") })
  close := some fun _ => .returned ()
  validate := none

def leaseService : Plugin.ProviderService := .new {
  block := none
  schema := fun
    | .ephemeral => [("lease", (⟨[], []⟩ : Block))]
    | _ => []
  eager := Plugin.HandlerMap.empty.insert .ephemeral "lease"
    ((leaseAuthor.toNative plainLibrary JsText.real "lease" (.object [])).erased Crates.real)
  configureFn := none
  configured := none
  dynConfigure := none
  validateConfig := none }

theorem hosts_leaseService :
    HostsEphemeral Crates.real plainLibrary JsText.real "lease" (.object []) leaseService leaseAuthor := ⟨rfl, rfl⟩

def leaseOpened : Plugin.OpenResponse where
  result := some ⟨[0x80], []⟩
  private_ := some (Utf8.encode "db")
  renewAt := some ⟨1, 0⟩

def leaseTrace : List (List (Option Bytes) × Option ℕ × LeaseEvent) := [
  ([], none, .opened leaseAuthor none (some leaseOpened)),
  ([some (Utf8.encode "db")], some 0, .renewed leaseAuthor (some { private_ := some (Utf8.encode "db+") })),
  ([some (Utf8.encode "db"), some (Utf8.encode "db+")], some 1, .closed leaseAuthor (some ⟨[]⟩))]

theorem leases_authored_lease : ∃ trace' handles,
    Run (authored Crates.real plainLibrary "lease" (.object [])).Step [] trace' handles ∧
      [some (Utf8.encode "db"), some (Utf8.encode "db+")] = handles.map (Option.map Utf8.encode) ∧
      leaseTrace = trace'.map fun p => (p.1.map (Option.map Utf8.encode), p.2) := by
  have hfinite : ∀ value, Service.decodeDynamic Crates.real none (.object []) = .ok value → value.isFinite = true := by
    intro value hvalue
    cases hvalue
    rfl
  have hopened := Serves.opened leaseService leaseAuthor none (some leaseOpened) hosts_leaseService hfinite
    (by decide +kernel)
  have hrenewed := Serves.renewed leaseService leaseAuthor (some (Utf8.encode "db"))
    (some { private_ := some (Utf8.encode "db+") }) hosts_leaseService (by decide +kernel)
  have hclosed := Serves.closed leaseService leaseAuthor (some (Utf8.encode "db+")) (some ⟨[]⟩) hosts_leaseService
    (by decide +kernel)
  apply leases_authored real_sharesEnvelopes.toReads Crates.real_lawful Crates.real_readsTypes rfl
  exact .cons _ _ _ _ _ (.fresh [] _ _ hopened)
    (.cons _ _ _ _ _ (.held _ 0 _ _ _ rfl hrenewed) (.cons _ _ _ _ _ (.held _ 1 _ _ _ rfl hclosed) (.nil _)))

end Node

end TofuSdk
