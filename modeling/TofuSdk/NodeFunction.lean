import TofuSdk.Delivery
import TofuSdk.Functions
import TofuSdk.Lossless
import TofuSdk.NodeHooks
import TofuSdk.ValueType

namespace TofuSdk

def Zod.allowsNull (t : Zod) : Bool :=
  match t with
  | .wrapper _ type innerType => type.allowsNull || allowsNull innerType
  | _ => false
termination_by structural t

namespace Node

def paramJson (name : String) (ft : Zod) : Except String Json :=
  (fun type => .object (OrdMap.ofList [("name", .string name), ("type", type), ("allowNull", .bool ft.allowsNull)])) <$>
    ctyFromZod ft

def signatureJson (params : List Json) (variadic : Option Json) (returnType : Json) : Json :=
  .object (OrdMap.ofList
    ([("params", .array params)] ++ variadic.toList.map ("variadic", ·) ++ [("return", returnType)]))

def functionSignatureJson (params : ZodShape) (variadic : Option Zod) (returns : Zod) : Except String Json := do
  let params ← params.toList.mapM fun p => paramJson p.1 p.2
  let variadic ← variadic.mapM (paramJson "varargs")
  let returnType ← ctyFromZod returns
  pure (signatureJson params variadic returnType)

section

variable (crates : Crates)

def parseParam (p : Json) : Except String Plugin.Parameter := do
  let po ← match p with
    | .object fields => .ok fields
    | _ => .error "each parameter must be an object"
  let pname := ((po.get? "name").bind Json.asString).getD ""
  let typeVal ← match po.get? "type" with
    | some typeVal => .ok typeVal
    | none => .error ("parameter `" ++ pname ++ "` is missing a `type`")
  let ty ← Ty.fromCtyJsonBytes crates (crates.toVec typeVal)
  pure ⟨pname, ty, ((po.get? "allowNull").bind Json.asBool).getD false, false⟩

def parseParams (params : Option Json) : Except String (List Plugin.Parameter) :=
  match params with
  | some (.array ps) => ps.mapM (parseParam crates)
  | _ => .ok []

def functionSignatureFromJson (json : Bytes) : Except String Plugin.FunctionSignature := do
  let parsed ← crates.fromSlice json
  let obj ← match parsed with
    | .object fields => .ok fields
    | _ => .error "function signature must be an object"
  let parameters ← parseParams crates (obj.get? "params")
  let variadic ← (obj.get? "variadic").mapM (parseParam crates)
  let returnVal ← match obj.get? "return" with
    | some returnVal => .ok returnVal
    | none => .error "function signature is missing a `return` type"
  let returnType ← Ty.fromCtyJsonBytes crates (crates.toVec returnVal)
  pure ⟨parameters, variadic, returnType⟩

structure JsFunction where
  returnTy : Ty
  call : RawHandler

def JsFunction.erased (function : JsFunction) : Plugin.DynFunction where
  call args := match function.call (argumentsJson crates (args.map (encodeJson crates))) with
    | .returned out => .returned ((jsonToValue crates out function.returnTy).mapError (⟨·, none⟩))
    | .panicked e => .returned (.error ⟨e, none⟩)
    | .pending => .pending

def addonFunction (signatureJson : Bytes) (call : RawHandler) :
    Except String (Plugin.FunctionSignature × Plugin.DynFunction) := do
  let signature ← functionSignatureFromJson crates signatureJson
  pure (signature, JsFunction.erased crates ⟨signature.returnType, call⟩)

end

/-- A function as its author writes it; a fixed one has no rest. -/
structure FunctionDef where
  params : ZodShape
  variadic : Option Zod
  returns : Zod
  call (args : Js) (rest : List Js) : Ending String Js

def argumentsObject (names : List String) (argv : List Js) : Js :=
  .object (.ofMembers ((names.zipIdx.filter (·.1 ≠ protoKey)).map fun p => (p.1, argv[p.2]?.getD .undefined)))

def argumentsOf : Js → List Js
  | .array argv => argv
  | _ => []

namespace FunctionDef

variable (lib : Library) (js : JsText) (function : FunctionDef) (name : String)

def calling (args : Js) (rest : List Js) : Ending String Js := do
  let result ← function.call args rest
  (lib.validateOut function.returns result ("function " ++ name)).ending

def argsOf (argv : List Js) : Js :=
  reviveSets (.object {} function.params) (argumentsObject function.params.keys argv)

def restOf (argv : List Js) : List Js :=
  function.variadic.elim [] fun schema => (argv.drop function.params.keys.length).map (reviveSets schema)

def callFn : RawHandler := fun input => do
  let parsed ← ofExcept (js.parse input)
  let argv := argumentsOf parsed
  let result ← function.calling lib name (function.argsOf argv) (function.restOf argv)
  printed js (orElse result .null)

end FunctionDef

def parameterOf (name : String) (ft : Zod) : Except String Plugin.Parameter :=
  (fun ty => ⟨name, ty, ft.allowsNull, false⟩) <$> valueType false none ft

def referenceSignature (params : ZodShape) (variadic : Option Zod) (returns : Zod) :
    Except String Plugin.FunctionSignature := do
  let parameters ← params.toList.mapM fun p => parameterOf p.1 p.2
  let variadic ← variadic.mapM (parameterOf "varargs")
  let returnType ← valueType false none returns
  pure ⟨parameters, variadic, returnType⟩

section

variable {crates : Crates}

theorem fromCtyJsonBytes_ctyFromZod (hc : crates.ReadsPlain) {t : Zod} {json : Json} (h : ctyFromZod t = .ok json) :
    ∃ ty, Ty.fromCtyJsonBytes crates (crates.toVec json) = .ok ty ∧ valueType false none t = .ok ty := by
  obtain ⟨ty, hval, hty, -⟩ := valueType_untagged none h
  refine ⟨ty, ?_, hval⟩
  rw [Ty.fromCtyJsonBytes, hc.read _ (plain_ctyFromZod h)]
  exact hty

theorem parseParam_paramJson (hc : crates.ReadsPlain) {name : String} {ft : Zod} {json : Json}
    (h : paramJson name ft = .ok json) :
    ∃ param, parseParam crates json = .ok param ∧ parameterOf name ft = .ok param := by
  obtain ⟨type, htype, rfl⟩ := Outcome.map_eq_ok.mp h
  obtain ⟨ty, hty, hval⟩ := fromCtyJsonBytes_ctyFromZod hc htype
  refine ⟨⟨name, ty, ft.allowsNull, false⟩, ?_, ?_⟩
  · simp [parseParam, OrdMap.get?_ofList, Json.asString, Json.asBool, hty]
  · rw [parameterOf, hval]
    rfl

theorem parseParams_paramJson (hc : crates.ReadsPlain) {fields : List (String × Zod)} {jsons : List Json}
    (h : fields.mapM (fun p => paramJson p.1 p.2) = .ok jsons) :
    ∃ params, jsons.mapM (parseParam crates) = .ok params ∧
      fields.mapM (fun p => parameterOf p.1 p.2) = .ok params := by
  have hjsons := Outcome.mapM_eq_ok.mp h
  clear h
  induction hjsons with
  | nil => exact ⟨[], rfl, rfl⟩
  | cons hjson _ ih =>
      obtain ⟨param, hparse, hparam⟩ := parseParam_paramJson hc hjson
      obtain ⟨params, hparses, hparams⟩ := ih
      refine ⟨param :: params, ?_, ?_⟩
      · rw [List.mapM_cons, hparse, hparses]
        rfl
      · rw [List.mapM_cons, hparam, hparams]
        rfl

theorem signature_published (hc : crates.ReadsPlain) {params : ZodShape} {variadic : Option Zod} {returns : Zod}
    {json : Json}
    {text : Bytes} (h : functionSignatureJson params variadic returns = .ok json)
    (htext : crates.fromSlice text = .ok json) :
    ∃ signature, functionSignatureFromJson crates text = .ok signature ∧
      referenceSignature params variadic returns = .ok signature := by
  obtain ⟨jsons, hjsons, h⟩ := Outcome.bind_eq_ok.mp h
  obtain ⟨varJson, hvarJson, h⟩ := Outcome.bind_eq_ok.mp h
  obtain ⟨returnJson, hreturn, h⟩ := Outcome.bind_eq_ok.mp h
  cases h
  obtain ⟨parameters, hparses, hparameters⟩ := parseParams_paramJson hc hjsons
  obtain ⟨returnType, hty, hval⟩ := fromCtyJsonBytes_ctyFromZod hc hreturn
  have hvariadic : ∃ param, varJson.mapM (parseParam crates) = .ok param ∧
      variadic.mapM (parameterOf "varargs") = .ok param := by
    cases variadic with
    | none =>
        cases hvarJson
        exact ⟨none, rfl, rfl⟩
    | some schema =>
        obtain ⟨varJson, hvar, rfl⟩ := Outcome.map_eq_ok.mp hvarJson
        obtain ⟨param, hparse, hparam⟩ := parseParam_paramJson hc hvar
        refine ⟨some param, ?_, ?_⟩
        · simp [hparse]
        · simp [hparam]
  obtain ⟨param, hparse, hparam⟩ := hvariadic
  refine ⟨⟨parameters, param, returnType⟩, ?_, ?_⟩
  · have hparams : (OrdMap.ofList ([("params", .array jsons)] ++ varJson.toList.map ("variadic", ·) ++
        [("return", returnJson)])).get? "params" = some (Json.array jsons) := by
      cases varJson <;> simp [OrdMap.get?_ofList]
    have hvar : (OrdMap.ofList ([("params", .array jsons)] ++ varJson.toList.map ("variadic", ·) ++
        [("return", returnJson)])).get? "variadic" = varJson := by
      cases varJson <;> simp [OrdMap.get?_ofList]
    have hret : (OrdMap.ofList ([("params", .array jsons)] ++ varJson.toList.map ("variadic", ·) ++
        [("return", returnJson)])).get? "return" = some returnJson := by
      cases varJson <;> simp [OrdMap.get?_ofList]
    rw [functionSignatureFromJson, htext, signatureJson]
    simp only [Outcome.ok_bind, hparams, hvar, hret, parseParams, hparses, hparse, hty]
    rfl
  · rw [referenceSignature, hparameters, hparam, hval]
    rfl

end

/-- What the author is given of the decoded arguments: each under the name of its
parameter, with nothing where there is none, and those past the parameters in their order. -/
structure Receives (crates : Crates) (function : FunctionDef) (values : List Value) (args : Js) (rest : List Js) :
    Prop where
  keys : ∃ own, args = .object own ∧ own.keys = function.params.keys.filter (· ≠ protoKey)
  given : ∀ (i : Nat) name schema value, function.params.toList[i]? = some (name, schema) → name ≠ protoKey →
    values[i]? = some value → ∃ v, Shows v (encodeJson crates value) ∧ getProperty args name = reviveSets schema v
  missing : ∀ (i : Nat) name schema, function.params.toList[i]? = some (name, schema) → name ≠ protoKey →
    values[i]? = none →
    getProperty args name = .undefined
  fixed : function.variadic = none → rest = []
  rest : ∀ schema, function.variadic = some schema →
    List.Forall₂ (fun w value => ∃ v, Shows v (encodeJson crates value) ∧ w = reviveSets schema v) rest
      (values.drop function.params.keys.length)

/-- What the host is told of a call, by what the author's code comes to. -/
inductive AnswersCall (crates : Crates) (ty : Ty) (calling : Ending String Js) : Option Plugin.CallResponse → Prop
  | result (result w : Js) (json : Json) (value : Value) (sent : Service.DynamicValue) : calling = .returned result →
      stringify (orElse result .null) = .ok (some w) → json.rounded = w.toJson → decodeJson crates json ty = .ok value →
      Service.encodeDynamic crates value ty = .ok sent → AnswersCall crates ty calling (some ⟨some sent, none⟩)
  | invalid (result w : Js) (json : Json) (e : CodecError) : calling = .returned result →
      stringify (orElse result .null) = .ok (some w) → json.rounded = w.toJson → decodeJson crates json ty = .error e →
      AnswersCall crates ty calling (some ⟨none, some ⟨e.toString, none⟩⟩)
  | unwritten (result : Js) (e : String) : calling = .returned result → stringify (orElse result .null) = .error e →
      AnswersCall crates ty calling (some ⟨none, some ⟨e, none⟩⟩)
  | thrown (e : String) : calling = .panicked e → AnswersCall crates ty calling (some ⟨none, some ⟨e, none⟩⟩)
  | pending : calling = .pending → AnswersCall crates ty calling none

/-- The service has the function that an author wrote, as the addon registered
it for the text of its signature. -/
structure HostsFunction (crates : Crates) (lib : Library) (js : JsText) (service : Plugin.ProviderService)
    (function : FunctionDef) (name : String) (signature : Plugin.FunctionSignature) : Prop where
  registered : ∃ json text handler,
    functionSignatureJson function.params function.variadic function.returns = .ok json ∧
    crates.fromSlice text = .ok json ∧
      addonFunction crates text (function.callFn lib js name) = .ok (signature, handler) ∧
    service.provider.decoded .function name = some signature ∧ service.provider.handler .function name = some handler

section

variable {crates : Crates} {function : FunctionDef} {argv : List Js}

def namedArguments (names : List String) (argv : List Js) : List (String × Js) :=
  (names.zipIdx.filter (·.1 ≠ protoKey)).map fun p => (p.1, argv[p.2]?.getD .undefined)

theorem map_fst_namedArguments (names : List String) (argv : List Js) :
    (namedArguments names argv).map Prod.fst = names.filter (· ≠ protoKey) := by
  conv_rhs => rw [← List.zipIdx_map_fst 0 names, List.filter_map]
  rw [namedArguments, List.map_map]
  rfl

theorem reviveSets_undefined (schema : Zod) : reviveSets schema .undefined = .undefined := by
  induction schema using Zod.induct with
  | wrapper m type innerType ih => exact ih
  | _ => rfl

theorem exists_argsOf (function : FunctionDef) (argv : List Js) : ∃ own, function.argsOf argv = .object own ∧
    own.keys = function.params.keys.filter (· ≠ protoKey) ∧
      ∀ (i : Nat) name schema, function.params.toList[i]? = some (name, schema) → name ≠ protoKey →
        own.get? name = some (reviveSets schema (argv[i]?.getD .undefined)) := by
  have hnames := map_fst_namedArguments function.params.keys argv
  have hnodup : ((namedArguments function.params.keys argv).map Prod.fst).Nodup := by
    rw [hnames]
    exact function.params.nodup.filter _
  refine ⟨_, revive_object {} function.params _, ?_, fun i name schema hi hne => ?_⟩
  · rw [← hnames]
    change (Entries.ofMembers (namedArguments function.params.keys argv)).keys = _
    rw [← Entries.map_fst_toList, Entries.toList_ofMembers hnodup]
  · have hkey : function.params.keys[i]? = some name := by
      rw [← Entries.map_fst_toList, List.getElem?_map, hi]
      rfl
    have hmem : (name, argv[i]?.getD .undefined) ∈ namedArguments function.params.keys argv := by
      refine List.mem_map.mpr ⟨(name, i), List.mem_filter.mpr ⟨?_, decide_eq_true hne⟩, rfl⟩
      exact List.mk_mem_zipIdx_iff_getElem?.mpr hkey
    have hget : (Entries.ofMembers (namedArguments function.params.keys argv)).get? name =
        some (argv[i]?.getD .undefined) := by
      rw [Entries.get?_eq_some, Entries.toList_ofMembers hnodup]
      exact hmem
    have hschema : function.params.get? name = some schema := Entries.get?_eq_some.mpr (List.mem_of_getElem? hi)
    change (Entries.mapWithKey _ (Entries.ofMembers (namedArguments function.params.keys argv))).get? name = _
    rw [Entries.get?_mapWithKey, hget, Option.map_some, hschema]
    rfl

theorem receives_shown {values : List Value}
    (h : List.Forall₂ (fun v value => Shows v (encodeJson crates value)) argv values) :
    Receives crates function values (function.argsOf argv) (function.restOf argv) := by
  obtain ⟨own, hown, hkeys, hget⟩ := exists_argsOf function argv
  refine ⟨⟨own, hown, hkeys⟩, ?_, ?_, ?_, ?_⟩
  · intro i name schema value hi hne hvalue
    obtain ⟨hlt, rfl⟩ := List.getElem?_eq_some_iff.mp hvalue
    have hlt' : i < argv.length := h.length_eq ▸ hlt
    refine ⟨argv[i], h.get hlt' hlt, ?_⟩
    rw [hown, getProperty, hget i name schema hi hne, List.getElem?_eq_getElem hlt']
    rfl
  · intro i name schema hi hne hvalue
    have hnone : argv[i]? = none := by
      rw [List.getElem?_eq_none_iff] at hvalue ⊢
      exact h.length_eq ▸ hvalue
    rw [hown, getProperty, hget i name schema hi hne, hnone]
    exact reviveSets_undefined schema
  · intro hvariadic
    rw [FunctionDef.restOf, hvariadic]
    rfl
  · intro schema hvariadic
    rw [FunctionDef.restOf, hvariadic, Option.elim, List.forall₂_map_left_iff]
    exact (List.forall₂_drop _ h).imp fun v value hv => ⟨v, hv, rfl⟩

end

section

variable {crates : Crates} {lib : Library} {js : JsText} {function : FunctionDef} {name : String}

theorem exists_called (h : Shares js crates) (lib : Library) (function : FunctionDef) (name : String)
    {values : List Value} (hfinite : ∀ v ∈ values, v.isFinite = true) :
    ∃ args rest, Receives crates function values args rest ∧
      function.callFn lib js name (argumentsJson crates (values.map (encodeJson crates))) =
        function.calling lib name args rest >>= fun result => printed js (orElse result .null) := by
  have hdocs : ∀ json ∈ values.map (encodeJson crates), Document json :=
    List.forall_mem_map.mpr fun v hv => document_encodeJson h.toHoldsNumbers (hfinite v hv)
  obtain ⟨v, hparse, hjson, hround⟩ := h.parse_arguments hdocs
  obtain ⟨argv, rfl, hargv⟩ := Js.exists_elements hjson hround
  have hshown : List.Forall₂ (fun v value => Shows v (encodeJson crates value)) argv values :=
    (List.forall₂_map_right_iff.mp hargv).imp fun _ _ hv => ⟨hv.1, hv.2⟩
  refine ⟨_, _, receives_shown hshown, ?_⟩
  rw [FunctionDef.callFn, hparse]
  rfl

def respondCall (crates : Crates) (name : String) (ty : Ty)
    (ending : Plugin.Authored (Except Plugin.FunctionError Value)) :
    Option Plugin.CallResponse :=
  match ending with
  | .returned (.ok result) => some (Plugin.ProviderService.respondCalled crates ty result)
  | .returned (.error e) => some ⟨none, some e⟩
  | .panicked payload =>
      some ⟨none, some ⟨"the " ++ name.quote ++ " function panicked: " ++ panicMessage payload, none⟩⟩
  | .pending => none

theorem toOption_callFunction {service : Plugin.ProviderService} {signature : Plugin.FunctionSignature}
    {handler : Plugin.DynFunction} (hsignature : service.provider.decoded .function name = some signature)
    (hhandler : service.provider.handler .function name = some handler) {arguments : List Service.DynamicValue}
    {args : List Value} (hargs : Plugin.ProviderService.decodeArguments crates name signature arguments = .ok args) :
    (service.callFunction crates ⟨name, arguments⟩).ending.toOption =
      respondCall crates name signature.returnType (handler.call args) := by
  rw [Plugin.ProviderService.callFunction]
  simp only [hsignature, hhandler, hargs]
  cases handler.call args with
  | returned result => cases result <;> rfl
  | panicked payload => rfl
  | pending => rfl

theorem answersCall_erased (h : js.Reads crates) (hc : crates.Lawful) (ht : crates.ReadsTypes) {ty : Ty}
    (hn : ty.distinctNames = true) {call : RawHandler} {args : List Value} {calling : Ending String Js}
    (hcall : call (argumentsJson crates (args.map (encodeJson crates))) =
      calling >>= fun result => printed js (orElse result .null)) :
    AnswersCall crates ty calling (respondCall crates name ty ((JsFunction.erased crates ⟨ty, call⟩).call args)) := by
  have herased : (JsFunction.erased crates ⟨ty, call⟩).call args =
      match call (argumentsJson crates (args.map (encodeJson crates))) with
      | .returned out => .returned ((jsonToValue crates out ty).mapError (⟨·, none⟩))
      | .panicked e => .returned (.error ⟨e, none⟩)
      | .pending => .pending := rfl
  rw [herased, hcall]
  cases calling with
  | panicked e => exact .thrown e rfl
  | pending => exact .pending rfl
  | returned result =>
      rw [Ending.returned_bind]
      cases hwritten : stringify (orElse result .null) with
      | error e =>
          rw [printed, hwritten]
          exact .unwritten result e rfl hwritten
      | ok text =>
          cases text with
          | none => exact absurd hwritten (stringify_orElse_null result)
          | some w =>
              obtain ⟨json, hread, hdoc, hround⟩ := h.fromSlice_print (isJson_of_stringify hwritten)
              have hprinted : printed js (orElse result .null) = .returned (js.print w) := by
                rw [printed, hwritten]
                rfl
              have hvalue : jsonToValue crates (js.print w) ty =
                  (decodeJson crates json ty).mapError CodecError.toString := by
                rw [jsonToValue, hread]
                rfl
              simp only [hprinted, hvalue]
              cases hdecode : decodeJson crates json ty with
              | error e => exact .invalid result w json e rfl hwritten hround hdecode
              | ok value =>
                  obtain ⟨sent, hsent⟩ := exists_sent hc ht h.toCountsNumbers hn hdoc hdecode
                  have hrespond : Plugin.ProviderService.respondCalled crates ty value = ⟨some sent, none⟩ := by
                    rw [Plugin.ProviderService.respondCalled, hsent]
                  change AnswersCall crates ty _ (some (Plugin.ProviderService.respondCalled crates ty value))
                  rw [hrespond]
                  exact .result result w json value sent rfl hwritten hround hdecode hsent

/-- A function that is written in JavaScript is published under the types that its
schemas' values have, and is called as its author wrote it, once all arguments decode under them. -/
theorem callFunction_authored (h : Shares js crates) (hc : crates.Lawful) (hplain : crates.ReadsPlain)
    (ht : crates.ReadsTypes) {service : Plugin.ProviderService} {signature : Plugin.FunctionSignature}
    (hhosts : HostsFunction crates lib js service function name signature) (arguments : List Service.DynamicValue) :
    referenceSignature function.params function.variadic function.returns = .ok signature ∧
      (∀ e, Plugin.ProviderService.decodeArguments crates name signature arguments = .error e →
        (service.callFunction crates ⟨name, arguments⟩).ending.toOption = some ⟨none, some e⟩) ∧
      ∀ values, signature.Decodes crates arguments values → (∀ v ∈ values, v.isFinite = true) →
        ∃ args rest, Receives crates function values args rest ∧
        AnswersCall crates signature.returnType (function.calling lib name args rest)
          (service.callFunction crates ⟨name, arguments⟩).ending.toOption := by
  obtain ⟨json, text, handler, hjson, htext, hregistered, hsignature, hhandler⟩ := hhosts.registered
  obtain ⟨signature', hparsed, hreference⟩ := signature_published hplain hjson htext
  have hadded : addonFunction crates text (function.callFn lib js name) = .ok (signature',
      JsFunction.erased crates ⟨signature'.returnType, function.callFn lib js name⟩) := by
    rw [addonFunction, hparsed]
    rfl
  obtain ⟨rfl, rfl⟩ := Prod.mk.inj (Except.ok.inj (hadded.symm.trans hregistered))
  refine ⟨hreference, ?_, ?_⟩
  · intro e he
    rw [Plugin.ProviderService.callFunction]
    simp only [hsignature, hhandler, he]
    rfl
  · intro values hvalues hfinite
    have hn : signature'.returnType.distinctNames = true := by
      obtain ⟨parameters, -, hreference⟩ := Outcome.bind_eq_ok.mp hreference
      obtain ⟨variadic, -, hreference⟩ := Outcome.bind_eq_ok.mp hreference
      obtain ⟨returnType, hreturn, hreference⟩ := Outcome.bind_eq_ok.mp hreference
      cases hreference
      exact distinctNames_valueType hreturn
    obtain ⟨args, rest, hreceives, hcall⟩ := exists_called h lib function name hfinite
    refine ⟨args, rest, hreceives, ?_⟩
    rw [toOption_callFunction hsignature hhandler (Plugin.decodeArguments_eq_ok.mpr hvalues)]
    exact answersCall_erased h.toReads hc ht hn hcall

end

/-- A function that says its first argument. -/
def echoDef : FunctionDef where
  params := .ofList [("text", .leaf {} .string)] (by decide)
  variadic := some (.leaf {} .number)
  returns := .leaf {} .string
  call args _ := .returned (getProperty args "text")

def echoSignature : Plugin.FunctionSignature where
  parameters := [⟨"text", .string, false, false⟩]
  variadic := some ⟨"varargs", .number, false, false⟩
  returnType := .string

def echoService : Plugin.ProviderService := .new {
  block := none
  schema := fun
    | .function => [("echo", echoSignature)]
    | _ => []
  eager := Plugin.HandlerMap.empty.insert .function "echo"
    (JsFunction.erased Crates.real ⟨.string, echoDef.callFn plainLibrary JsText.real "echo"⟩)
  configureFn := none
  configured := none
  dynConfigure := none
  validateConfig := none }

def echoJson : Json := signatureJson
  [.object (OrdMap.ofList [("name", .string "text"), ("type", .string "string"), ("allowNull", .bool false)])]
  (some (.object (OrdMap.ofList [("name", .string "varargs"), ("type", .string "number"), ("allowNull", .bool false)])))
  (.string "string")

theorem hosts_echoService :
    HostsFunction Crates.real plainLibrary JsText.real echoService echoDef "echo" echoSignature := by
  have hjson : functionSignatureJson echoDef.params echoDef.variadic echoDef.returns = .ok echoJson := rfl
  have htext : Crates.real.fromSlice (Crates.real.toVec echoJson) = .ok echoJson :=
    Crates.real_readsPlain.read echoJson rfl
  obtain ⟨signature, hparsed, hreference⟩ := signature_published Crates.real_readsPlain hjson htext
  obtain rfl : signature = echoSignature := Except.ok.inj (hreference.symm.trans rfl)
  refine ⟨echoJson, _, _, hjson, htext, ?_, rfl, rfl⟩
  rw [addonFunction, hparsed]
  rfl

def echoArguments : List Service.DynamicValue := [⟨[0xa2, 0x68, 0x69], []⟩, ⟨[0x01], []⟩]

theorem callFunction_authored_echo :
    ∃ args rest, Receives Crates.real echoDef [.string "hi", .number (.i64 1)] args rest ∧
    AnswersCall Crates.real .string (echoDef.calling plainLibrary "echo" args rest)
      (echoService.callFunction Crates.real ⟨"echo", echoArguments⟩).ending.toOption := by
  obtain ⟨-, -, hcalled⟩ := callFunction_authored real_sharesEnvelopes Crates.real_lawful Crates.real_readsPlain
    Crates.real_readsTypes hosts_echoService echoArguments
  have hdecoded : Plugin.ProviderService.decodeArguments Crates.real "echo" echoSignature echoArguments =
      .ok [.string "hi", .number (.i64 1)] := rfl
  exact hcalled _ (Plugin.decodeArguments_eq_ok.mp hdecoded) (by decide)

end Node

end TofuSdk
