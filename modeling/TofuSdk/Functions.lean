import TofuSdk.Dispatch
import TofuSdk.Reflect

namespace TofuSdk

namespace Plugin

open TofuSdk.Service

def parameterFromField {α : Type} (field : Field) (shape : Shape α) : Except ReflectError Parameter := do
  let ty ← shape.mapType field.key
  pure ⟨field.key, ty, shape.isNullable, false⟩

def parametersFromFields {φ : Type} : StructFields φ → Except ReflectError (List Parameter)
  | .nil => .ok []
  | .cons field shape rest => do
      let param ← parameterFromField field shape
      let params ← parametersFromFields rest
      pure (param :: params)

section

variable {π ν ω : Type} (fields : StructFields π) (varArg : Shape ν) (output : Shape ω)

def reflectFunction : Except ReflectError FunctionSignature := do
  let parameters ← parametersFromFields fields
  let returnType ← output.mapType "return"
  pure ⟨parameters, none, returnType⟩

def reflectVariadicFunction : Except ReflectError FunctionSignature := do
  let parameters ← parametersFromFields fields
  let ty ← varArg.mapType "varargs"
  let returnType ← output.mapType "return"
  pure ⟨parameters, some ⟨"varargs", ty, varArg.isNullable, false⟩, returnType⟩

def decodeParams (args : List Value) : Except FunctionError π :=
  ((Shape.struct fields).fill (.object (OrdMap.ofList (fields.keys.zip args)))).mapError fun e =>
    ⟨"failed to decode arguments: " ++ e.toString, none⟩

def decodeRest (lead : Nat) (rest : List Value) : Except FunctionError (List ν) :=
  rest.zipIdx.mapM fun value => (varArg.fill value.1).mapError fun e =>
    ⟨"failed to decode variadic argument: " ++ e.toString, some (lead + value.2 : Nat)⟩

def encodeOutput (result : Except FunctionError ω) : Except FunctionError Value := do
  let out ← result
  (output.peekToValue out).mapError fun e => ⟨"failed to encode result: " ++ e.toString, none⟩

def FunctionAdapter.call (body : π → Authored (Except FunctionError ω)) (args : List Value) :
    Authored (Except FunctionError Value) :=
  match decodeParams fields args with
  | .error e => pure (.error e)
  | .ok params => encodeOutput output <$> body params

def VariadicFunctionAdapter.call (body : π → List ν → Authored (Except FunctionError ω)) (args : List Value) :
    Authored (Except FunctionError Value) :=
  let lead := min fields.keys.length args.length
  match decodeParams fields (args.take lead) with
  | .error e => pure (.error e)
  | .ok params =>
      match decodeRest varArg lead (args.drop lead) with
      | .error e => pure (.error e)
      | .ok rest => encodeOutput output <$> body params rest

end

/-- The types of a function, fixed or variadic, that its registration accepted. -/
structure FunctionTypes (π ν ω : Type) where
  params : StructFields π
  varArg : Option (Shape ν)
  output : Shape ω
  signature : FunctionSignature
  reflects : varArg.elim (reflectFunction params output) (reflectVariadicFunction params · output) = .ok signature
  distinct : params.keys.Nodup

namespace FunctionTypes

variable {π ν ω : Type} (types : FunctionTypes π ν ω)

def erased (body : π × List ν → Authored (Except FunctionError ω)) : DynFunction where
  call := match types.varArg with
    | none => FunctionAdapter.call types.params types.output fun params => body (params, [])
    | some varArg => VariadicFunctionAdapter.call types.params varArg types.output fun params rest =>
        body (params, rest)

structure Serves (service : ProviderService) (name : String)
    (body : π × List ν → Authored (Except FunctionError ω)) : Prop where
  signature : service.provider.decoded .function name = some types.signature
  handler : service.provider.handler .function name = some (types.erased body)

/-- As many arguments as there are fixed parameters, or more for a variadic
function. -/
def Fits (arguments : List DynamicValue) : Prop :=
  match types.varArg with
  | none => arguments.length = types.params.keys.length
  | some _ => types.params.keys.length ≤ arguments.length

end FunctionTypes

/-- Each argument decodes under the parameter that is published for its place. -/
def FunctionSignature.Decodes (crates : Crates) (signature : FunctionSignature) (arguments : List DynamicValue)
    (values : List Value) : Prop :=
  List.Forall₂ (fun argument value => ∃ param, signature.parameters[argument.2]?.or signature.variadic = some param ∧
    decodeArgument crates argument.1 param.ty = .ok value) arguments.zipIdx values

/-- Each field is filled from the value at its place. -/
def Filled {φ : Type} (fields : StructFields φ) (params : φ) (values : List Value) : Prop :=
  match fields, params, values with
  | .nil, _, values => values = []
  | .cons _ shape rest, (a, as), value :: values => shape.fill value = .ok a ∧ Filled rest as values
  | .cons _ _ _, _, [] => False
termination_by structural fields

theorem decodeArguments_eq_ok {crates : Crates} {name : String} {signature : FunctionSignature}
    {arguments : List DynamicValue} {values : List Value} :
    ProviderService.decodeArguments crates name signature arguments = .ok values ↔
      signature.Decodes crates arguments values := by
  rw [ProviderService.decodeArguments, Outcome.mapM_eq_ok, FunctionSignature.Decodes]
  refine iff_of_eq (congrArg (List.Forall₂ · arguments.zipIdx values) ?_)
  funext argument value
  apply propext
  cases signature.parameters[argument.2]?.or signature.variadic with
  | none => simp
  | some param => simp [Outcome.mapError_eq_ok]

/-- A struct is filled from the values under its names, with null for a name
that the object has not. -/
theorem fillStruct_eq_ok {φ : Type} {fields : StructFields φ} {params : φ} {object : Fields} :
    Shape.fillStruct fields (some object) = .ok params ↔
      Filled fields params (fields.keys.map fun key => (object.get? key).getD .null) := by
  induction fields using StructFields.rec (motive_1 := fun _ _ => True) with
  | scalar | option | list | set | map | struct | tfValue | proxy | formatProxy | other => trivial
  | nil => simp [Shape.fillStruct, StructFields.keys, Filled]
  | cons field shape rest _ ih =>
      obtain ⟨a, as⟩ := params
      rw [Shape.fillStruct, StructFields.keys, List.map_cons, Filled, Outcome.bind_eq_ok, ← ih, Option.bind_some]
      constructor
      · rintro ⟨b, hb, h⟩
        obtain ⟨bs, hbs, h⟩ := Outcome.bind_eq_ok.mp h
        cases h
        exact ⟨hb, hbs⟩
      · rintro ⟨ha, has⟩
        exact ⟨a, ha, Outcome.bind_eq_ok.mpr ⟨as, has, rfl⟩⟩

theorem map_fst_zip_sublist {α β : Type} (as : List α) (bs : List β) : ((as.zip bs).map Prod.fst).Sublist as := by
  induction as generalizing bs with
  | nil => rfl
  | cons a as ih =>
      cases bs with
      | nil => exact List.nil_sublist _
      | cons b bs => exact (ih bs).cons_cons a

theorem zipped_values {keys : List String} (hkeys : keys.Nodup) (values : List Value) :
    keys.map (fun key => ((OrdMap.ofList (keys.zip values)).get? key).getD .null) =
      values.take keys.length ++ List.replicate (keys.length - values.length) .null := by
  have hnodup : ((keys.zip values).map Prod.fst).Nodup := hkeys.sublist (map_fst_zip_sublist keys values)
  have hlen : (values.take keys.length ++ List.replicate (keys.length - values.length) (.null : Value)).length =
      keys.length := by
    rw [List.length_append, List.length_take, List.length_replicate]
    omega
  apply List.ext_getElem
  · rw [List.length_map, hlen]
  · intro i hi hi'
    rw [List.length_map] at hi
    rw [List.getElem_map]
    by_cases hv : i < values.length
    · have hget : (OrdMap.ofList (keys.zip values)).get? keys[i] = some values[i] := by
        rw [OrdMap.get?_ofList_of_nodup hnodup]
        exact List.mem_iff_getElem.mpr ⟨i, by rw [List.length_zip]; omega, List.getElem_zip⟩
      rw [hget, Option.getD_some, List.getElem_append_left (by rw [List.length_take]; omega), List.getElem_take]
    · have hget : (OrdMap.ofList (keys.zip values)).get? keys[i] = none := by
        rw [Option.eq_none_iff_forall_not_mem]
        intro v hv'
        rw [Option.mem_def, OrdMap.get?_ofList_of_nodup hnodup, List.mem_iff_getElem] at hv'
        obtain ⟨j, hj, hpair⟩ := hv'
        rw [List.getElem_zip, Prod.mk.injEq] at hpair
        have hij := (List.Nodup.getElem_inj_iff hkeys).mp hpair.1
        rw [List.length_zip] at hj
        omega
      rw [hget, Option.getD_none, List.getElem_append_right (by rw [List.length_take]; omega), List.getElem_replicate]

theorem decodeParams_eq_ok {π : Type} {fields : StructFields π} (hkeys : fields.keys.Nodup) {values : List Value}
    {params : π} : decodeParams fields values = .ok params ↔ Filled fields params
      (values.take fields.keys.length ++ List.replicate (fields.keys.length - values.length) .null) := by
  rw [decodeParams, Outcome.mapError_eq_ok, Shape.fill, mapping, fillStruct_eq_ok, zipped_values hkeys]

theorem decodeRest_eq_ok {ν : Type} {varArg : Shape ν} (lead : Nat) {values : List Value} {rest : List ν} :
    decodeRest varArg lead values = .ok rest ↔ List.Forall₂ (fun value a => varArg.fill value = .ok a) values rest := by
  rw [decodeRest, Outcome.mapM_eq_ok]
  simp only [Outcome.mapError_eq_ok]
  conv_rhs => rw [← List.zipIdx_map_fst 0 values, List.forall₂_map_left_iff]

namespace FunctionTypes

variable {π ν ω : Type} (types : FunctionTypes π ν ω)

def bind (args : List Value) : Except FunctionError (π × List ν) :=
  match types.varArg with
  | none => (·, []) <$> decodeParams types.params args
  | some varArg => do
      let lead := min types.params.keys.length args.length
      let params ← decodeParams types.params (args.take lead)
      let rest ← decodeRest varArg lead (args.drop lead)
      pure (params, rest)

theorem call_erased (body : π × List ν → Authored (Except FunctionError ω)) (args : List Value) :
    (types.erased body).call args = match types.bind args with
      | .error e => pure (.error e)
      | .ok bound => encodeOutput types.output <$> body bound := by
  rw [erased, bind]
  cases types.varArg with
  | none =>
      simp only [FunctionAdapter.call]
      cases decodeParams types.params args <;> rfl
  | some varArg =>
      simp only [VariadicFunctionAdapter.call]
      cases decodeParams types.params (args.take (min types.params.keys.length args.length)) with
      | error e => rfl
      | ok params =>
          cases decodeRest varArg (min types.params.keys.length args.length)
              (args.drop (min types.params.keys.length args.length)) with
          | error e => simp
          | ok rest => simp

def answer (name : String) (crates : Crates) (result : Authored (Except FunctionError ω)) : Future CallResponse := do
  let caught ← (Fut.foreign (encodeOutput types.output <$> result)).catchUnwind
  pure <| match caught with
    | .ok (.ok result) => ProviderService.respondCalled crates types.signature.returnType result
    | .ok (.error e) => ⟨none, some e⟩
    | .error payload => ⟨none, some ⟨"the " ++ name.quote ++ " function panicked: " ++ panicMessage payload, none⟩⟩

def received (crates : Crates) (name : String) (arguments : List DynamicValue) : Except FunctionError (π × List ν) := do
  let values ← ProviderService.decodeArguments crates name types.signature arguments
  types.bind values

theorem callFunction_eq {types : FunctionTypes π ν ω} {crates : Crates} {service : ProviderService} {name : String}
    {body : π × List ν → Authored (Except FunctionError ω)} (h : types.Serves service name body)
    (arguments : List DynamicValue) :
    service.callFunction crates ⟨name, arguments⟩ = match types.received crates name arguments with
      | .error e => pure ⟨none, some e⟩
      | .ok bound => types.answer name crates (body bound) := by
  rw [ProviderService.callFunction, received]
  simp only [h.signature, h.handler]
  cases ProviderService.decodeArguments crates name types.signature arguments with
  | error e => rfl
  | ok values =>
      rw [Outcome.ok_bind]
      simp only [call_erased]
      cases types.bind values with
      | error e => rfl
      | ok bound => rfl

end FunctionTypes

end Plugin

end TofuSdk
