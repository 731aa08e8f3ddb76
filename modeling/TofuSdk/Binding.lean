import TofuSdk.Functions
import TofuSdk.Registered
import TofuSdk.RealCrates

namespace TofuSdk

namespace Plugin

open TofuSdk.Service

namespace ProviderBuilder

structure HoldsFunction {μ : Type} (builder : ProviderBuilder Parts.real μ) (name : String)
    (signature : FunctionSignature) (handler : DynFunction) : Prop where
  schema : (builder.schema .function).find? (·.1 == name) = some (name, signature)
  handler : builder.handlers .function name = some handler

variable {μ : Type} {builder : ProviderBuilder Parts.real μ} {name : String} {signature : FunctionSignature}
  {handler : DynFunction}

theorem holdsFunction_call (h : builder.HoldsFunction name signature handler) {call : Call Parts.real μ}
    (hother : call.registered ≠ some (.function, name)) :
    (builder.call call).HoldsFunction name signature handler := by
  cases call with
  | register kind name' schema handler' =>
      cases schema with
      | error source => exact ⟨h.schema, h.handler⟩
      | ok schema =>
          have hne : (Kind.function, name) ≠ (kind, name') := fun heq => hother (congrArg some heq.symm)
          refine ⟨?_, ?_⟩
          · by_cases hkind : kind = .function
            · subst hkind
              simp only [ProviderBuilder.call, push, install, Function.update_self, List.find?_append, h.schema]
              rfl
            · simpa [ProviderBuilder.call, push, install, Ne.symm hkind] using h.schema
          · exact (HandlerMap.insert_of_ne _ _ hne).trans h.handler
  | registerWith kind backed name' schema factory =>
      cases schema with
      | error source => exact ⟨h.schema, h.handler⟩
      | ok schema =>
          have hkind : kind ≠ .function := by
            rintro rfl
            exact absurd backed (by decide)
          refine ⟨?_, h.handler⟩
          simpa [ProviderBuilder.call, push, defer, Ne.symm hkind] using h.schema
  | providerConfig block => cases block <;> exact ⟨h.schema, h.handler⟩
  | dynConfigure handler' => exact ⟨h.schema, h.handler⟩
  | validateConfig handler' => exact ⟨h.schema, h.handler⟩

theorem holdsFunction_run {calls : Calls Parts.real μ} (h : builder.HoldsFunction name signature handler)
    (hother : (Kind.function, name) ∉ calls.registered) {built served : Provider Parts.real}
    (hrun : calls.run builder = .ok built) (hreach : built.Reaches served) :
    served.decoded .function name = some signature ∧ served.handler .function name = some handler := by
  induction calls with
  | build =>
      have hserved := (Provider.served_build hrun).1.reaches hreach
      rw [Provider.decoded, Provider.handler, hserved.schema, hserved.eager]
      exact ⟨congrArg (Option.map Prod.snd) h.schema, h.handler⟩
  | andThen call rest ih =>
      rw [Calls.registered, List.mem_append, not_or] at hother
      exact ih (holdsFunction_call h fun hreg => hother.1 (by rw [hreg]; exact List.mem_singleton_self _)) hother.2 hrun
  | configure metaFn rest ih => exact ih ⟨h.schema, h.handler⟩ hother hrun

end ProviderBuilder

namespace FunctionTypes

variable {π ν ω : Type} (types : FunctionTypes π ν ω)

def register {μ : Type} (name : String) (body : π × List ν → Authored (Except FunctionError ω)) : Call Parts.real μ :=
  Call.function name (.ok types.signature) (types.erased body)

theorem serves_of_register {μ : Type} {builder : ProviderBuilder Parts.real μ} {rest : Calls Parts.real μ}
    {name : String} {body : π × List ν → Authored (Except FunctionError ω)} {built : Provider Parts.real}
    {service : ProviderService} (hbefore : name ∉ builder.names .function)
    (hafter : (Kind.function, name) ∉ rest.registered)
    (hrun : (Calls.andThen (types.register name body) rest).run builder = .ok built)
    (hreach : built.Reaches service.provider) : types.Serves service name body := by
  have hholds : (builder.call (types.register name body)).HoldsFunction name types.signature (types.erased body) := by
    refine ⟨?_, ?_⟩
    · have hnone : (builder.schema .function).find? (·.1 == name) = none := by
        rw [List.find?_eq_none]
        intro entry hentry hname
        exact hbefore (List.mem_map.mpr ⟨entry, hentry, beq_iff_eq.mp hname⟩)
      simp [register, Call.function, ProviderBuilder.call, ProviderBuilder.push, ProviderBuilder.install,
        List.find?_append, hnone]
      rfl
    · exact HandlerMap.insert_self builder.handlers .function name (types.erased body)
  obtain ⟨hsignature, hhandler⟩ := ProviderBuilder.holdsFunction_run hholds hafter hrun hreach
  exact ⟨hsignature, hhandler⟩

section

variable {types} {crates : Crates} {name : String} {arguments : List DynamicValue}

theorem length_parametersFromFields {φ : Type} {fields : StructFields φ} {params : List Parameter}
    (h : parametersFromFields fields = .ok params) : params.length = fields.keys.length := by
  induction fields using StructFields.rec (motive_1 := fun _ _ => True) generalizing params with
  | scalar | option | list | set | map | struct | tfValue | proxy | formatProxy | other => trivial
  | nil =>
      cases h
      rfl
  | cons field shape rest _ ih =>
      rw [parametersFromFields] at h
      obtain ⟨param, -, h⟩ := Outcome.bind_eq_ok.mp h
      obtain ⟨params, hparams, h⟩ := Outcome.bind_eq_ok.mp h
      cases h
      rw [List.length_cons, StructFields.keys, List.length_cons, ih hparams]

theorem signature_parts : types.signature.parameters.length = types.params.keys.length ∧
    (types.signature.variadic = none ↔ types.varArg = none) := by
  have hreflects := types.reflects
  cases hvar : types.varArg with
  | none =>
      rw [hvar, Option.elim_none, reflectFunction] at hreflects
      obtain ⟨params, hparams, h⟩ := Outcome.bind_eq_ok.mp hreflects
      obtain ⟨ty, -, h⟩ := Outcome.bind_eq_ok.mp h
      rw [← Except.ok.inj h]
      exact ⟨length_parametersFromFields hparams, iff_of_true rfl rfl⟩
  | some varArg =>
      rw [hvar, Option.elim_some, reflectVariadicFunction] at hreflects
      obtain ⟨params, hparams, h⟩ := Outcome.bind_eq_ok.mp hreflects
      obtain ⟨ty, -, h⟩ := Outcome.bind_eq_ok.mp h
      obtain ⟨returnType, -, h⟩ := Outcome.bind_eq_ok.mp h
      rw [← Except.ok.inj h]
      exact ⟨length_parametersFromFields hparams, iff_of_false (by simp) (by simp)⟩

theorem length_of_decodes {values : List Value} (h : types.signature.Decodes crates arguments values) :
    values.length = arguments.length := by
  rw [← h.length_eq, List.length_zipIdx]

/-- What decodes has no more arguments than there are parameters, unless one of
them is variadic. -/
theorem fits_of_decodes {values : List Value} (h : types.signature.Decodes crates arguments values)
    (hle : types.params.keys.length ≤ arguments.length) : types.Fits arguments := by
  rw [Fits]
  obtain ⟨hlen, hvariadic⟩ := types.signature_parts
  cases hvar : types.varArg with
  | some varArg => exact hle
  | none =>
      by_contra hne
      have hlt : types.params.keys.length < arguments.zipIdx.length := by
        rw [List.length_zipIdx]
        exact lt_of_le_of_ne hle (Ne.symm hne)
      have hvalues : types.params.keys.length < values.length := by rwa [← h.length_eq]
      obtain ⟨param, hparam, -⟩ := h.get hlt hvalues
      rw [List.get_eq_getElem, List.getElem_zipIdx, Nat.zero_add, hvariadic.mpr hvar, Option.or_none,
        List.getElem?_eq_none hlen.le] at hparam
      cases hparam

/-- The rest of the arguments, one after the other. -/
def RestFrom (values : List Value) (rest : List ν) : Prop :=
  match types.varArg with
  | none => rest = []
  | some varArg => List.Forall₂ (fun value a => varArg.fill value = .ok a) values rest

/-- The handler is given what the fields are filled with, in their order, from
the arguments and then from nulls. -/
theorem bind_eq_ok {values : List Value} {bound : π × List ν} : types.bind values = .ok bound ↔
    Filled types.params bound.1 (values.take types.params.keys.length ++
      List.replicate (types.params.keys.length - values.length) .null) ∧
    types.RestFrom (values.drop types.params.keys.length) bound.2 := by
  obtain ⟨params, rest⟩ := bound
  have hparams := @decodeParams_eq_ok π types.params types.distinct
  rw [bind, RestFrom]
  cases types.varArg with
  | none =>
      rw [← hparams]
      constructor
      · intro h
        obtain ⟨params', hdecode, h⟩ := Outcome.map_eq_ok.mp h
        cases h
        exact ⟨hdecode, rfl⟩
      · rintro ⟨hdecode, rfl⟩
        exact Outcome.map_eq_ok.mpr ⟨params, hdecode, rfl⟩
  | some varArg =>
      have htake : values.take (min types.params.keys.length values.length) = values.take types.params.keys.length := by
        rw [← List.take_take, List.take_length]
      have hdrop : values.drop (min types.params.keys.length values.length) = values.drop types.params.keys.length := by
        obtain h | h := Nat.le_total types.params.keys.length values.length
        · rw [Nat.min_eq_left h]
        · rw [Nat.min_eq_right h, List.drop_length, List.drop_eq_nil_of_le h]
      have hlen : types.params.keys.length - (values.take types.params.keys.length).length =
          types.params.keys.length - values.length := by
        rw [List.length_take]
        omega
      simp only [htake, hdrop]
      rw [← decodeRest_eq_ok (min types.params.keys.length values.length), Outcome.bind_eq_ok]
      constructor
      · rintro ⟨params', hdecode, h⟩
        obtain ⟨rest', hrest, h⟩ := Outcome.bind_eq_ok.mp h
        cases h
        rw [hparams, List.take_take, Nat.min_self, hlen] at hdecode
        exact ⟨hdecode, hrest⟩
      · rintro ⟨hdecode, hrest⟩
        refine ⟨params, ?_, Outcome.bind_eq_ok.mpr ⟨rest, hrest, rfl⟩⟩
        rw [hparams, List.take_take, Nat.min_self, hlen]
        exact hdecode

theorem received_eq_ok {bound : π × List ν} : types.received crates name arguments = .ok bound ↔
    ∃ values, types.signature.Decodes crates arguments values ∧ types.bind values = .ok bound := by
  rw [received, Outcome.bind_eq_ok]
  simp only [decodeArguments_eq_ok]

end

/-- What a handler is to be given: as many arguments as the signature asks for,
each decoded under its parameter, the fields filled with the first of them and
the rest in a list. -/
structure Binds (crates : Crates) (arguments : List DynamicValue) (bound : π × List ν) : Prop where
  fits : types.Fits arguments
  filled : ∃ values, types.signature.Decodes crates arguments values ∧
    Filled types.params bound.1 (values.take types.params.keys.length) ∧
    types.RestFrom (values.drop types.params.keys.length) bound.2

/-- Whatever the function does, a call is refused before its handler runs, or
the handler runs with the arguments that it is to be given. -/
inductive BindsExactly (crates : Crates) (name : String) (arguments : List DynamicValue) : Prop
  | refused (e : FunctionError) (h : ∀ body service, types.Serves service name body →
      service.callFunction crates ⟨name, arguments⟩ = pure ⟨none, some e⟩)
  | bound (bound : π × List ν) (hbinds : types.Binds crates arguments bound)
      (h : ∀ body service, types.Serves service name body →
        service.callFunction crates ⟨name, arguments⟩ = types.answer name crates (body bound))

section

variable {types} {crates : Crates} {name : String} {arguments : List DynamicValue}

def builderAlone (types : FunctionTypes π ν ω) (name : String)
    (body : π × List ν → Authored (Except FunctionError ω)) : ProviderBuilder Parts.real Unit :=
  ProviderBuilder.empty.call (types.register name body)

def alone (types : FunctionTypes π ν ω) (name : String) (body : π × List ν → Authored (Except FunctionError ω)) :
    ProviderService :=
  .new (ProviderBuilder.build.provider (types.builderAlone name body) none)

theorem serves_alone (types : FunctionTypes π ν ω) (name : String)
    (body : π × List ν → Authored (Except FunctionError ω)) : types.Serves (types.alone name body) name body := by
  have hrun : (Calls.andThen (types.register name body) (.build : Calls Parts.real Unit)).run .empty =
      .ok (types.alone name body).provider := rfl
  exact types.serves_of_register (List.not_mem_nil) (List.not_mem_nil) hrun .refl

theorem tripped_answer : (types.answer name crates (.panicked none)).tripped = true := by
  rw [answer, Fut.bind_of_returned rfl]
  rfl

theorem BindsExactly.enough (h : types.BindsExactly crates name arguments) :
    types.params.keys.length ≤ arguments.length ∨
      ∀ values, types.signature.Decodes crates arguments values → ¬∃ params, Filled types.params params
        (values ++ List.replicate (types.params.keys.length - arguments.length) .null) := by
  by_contra hnot
  push Not at hnot
  obtain ⟨hlt, values, hdecodes, params, hfilled⟩ := hnot
  have hlen := length_of_decodes hdecodes
  have hreceived : types.received crates name arguments = .ok (params, []) := by
    rw [received_eq_ok]
    refine ⟨values, hdecodes, bind_eq_ok.mpr ⟨?_, ?_⟩⟩
    · rw [List.take_of_length_le (by omega), hlen]
      exact hfilled
    · rw [List.drop_eq_nil_of_le (by omega), RestFrom]
      cases types.varArg with
      | none => rfl
      | some varArg => exact .nil
  cases h with
  | refused e h =>
      have hserves := types.serves_alone name fun _ => .panicked none
      have hrun := h _ _ hserves
      rw [callFunction_eq hserves, hreceived] at hrun
      have htripped := congrArg Fut.tripped hrun
      rw [tripped_answer] at htripped
      cases htripped
  | bound bound hbinds h =>
      have hfits := hbinds.fits
      rw [Fits] at hfits
      cases hvar : types.varArg with
      | none =>
          rw [hvar] at hfits
          omega
      | some varArg =>
          rw [hvar] at hfits
          omega

/-- The arguments are bound exactly, unless there are too few that decode, and
nulls can fill the rest of the fields. -/
theorem bindsExactly_iff (types : FunctionTypes π ν ω) (crates : Crates) (name : String)
    (arguments : List DynamicValue) : types.BindsExactly crates name arguments ↔
      types.params.keys.length ≤ arguments.length ∨
      ∀ values, types.signature.Decodes crates arguments values → ¬∃ params, Filled types.params params
        (values ++ List.replicate (types.params.keys.length - arguments.length) .null) := by
  constructor
  · exact BindsExactly.enough
  · intro h
    cases hreceived : types.received crates name arguments with
    | error e =>
        refine .refused e fun body service hserves => ?_
        rw [callFunction_eq hserves, hreceived]
    | ok bound =>
        obtain ⟨values, hdecodes, hbind⟩ := received_eq_ok.mp hreceived
        obtain ⟨hfilled, hrest⟩ := bind_eq_ok.mp hbind
        have hlen := length_of_decodes hdecodes
        have hle : types.params.keys.length ≤ arguments.length := by
          by_contra hnot
          rw [List.take_of_length_le (by omega), hlen] at hfilled
          exact h.resolve_left hnot values hdecodes ⟨bound.1, hfilled⟩
        refine .bound bound ⟨fits_of_decodes hdecodes hle, values, hdecodes, ?_, hrest⟩ fun body service hserves => ?_
        · rw [hlen, Nat.sub_eq_zero_of_le hle, List.replicate_zero, List.append_nil] at hfilled
          exact hfilled
        · rw [callFunction_eq hserves, hreceived]

end

def join : FunctionTypes (String × String × Unit) Unit String where
  params := .cons { name := "left" } (.scalar .string) (.cons { name := "right" } (.scalar .string) .nil)
  varArg := none
  output := .scalar .string
  signature := ⟨[⟨"left", .string, false, false⟩, ⟨"right", .string, false, false⟩], none, .string⟩
  reflects := rfl
  distinct := by decide

/-- The text `a`, and no second argument. -/
def leftOnly : List DynamicValue := [⟨[0xA1, 0x61], []⟩]

/-- The missing argument is the empty string. -/
theorem missing_padded : ¬join.BindsExactly Crates.real "join" leftOnly := by
  intro h
  have hdecodes : join.signature.Decodes Crates.real leftOnly [.string "a"] :=
    .cons ⟨⟨"left", .string, false, false⟩, rfl, rfl⟩ .nil
  have hfilled : Filled join.params ("a", "", ()) [.string "a", .null] := ⟨rfl, rfl, rfl⟩
  obtain hle | hnone := h.enough
  · exact absurd hle (by decide)
  · exact hnone _ hdecodes ⟨_, hfilled⟩

end FunctionTypes

end Plugin

end TofuSdk
