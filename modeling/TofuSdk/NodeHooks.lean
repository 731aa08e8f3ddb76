import TofuSdk.NodeResource

namespace TofuSdk

namespace Crates

variable {crates : Crates}

theorem toI64_of_rounded (hnum : crates.CountsNumbers) {n : VNumber} (hfinite : n.number.isFinite = true) {i : Int}
    (hvalue : n.number.rounded.value = i) (hi : |i| < 2 ^ 53) : crates.toI64 n = some (Int64.ofInt i) := by
  obtain ⟨hlo, hhi⟩ := abs_lt.mp hi
  refine (hnum.toI64 n _).mpr (.inl ?_)
  rw [Number.exact_of_rounded hfinite hvalue hi, Int64.toInt_ofInt_of_le (by omega) (by omega)]

theorem isFinite_of_rounded {n : Number} (h : n.rounded.isFinite = true) : n.isFinite = true := by
  cases n with
  | f64 f => exact BinaryFloat.isFinite_of_unsignedZero (by decide) (BinaryFloat.unsignedZero_unsignedZero f).symm h
  | _ => rfl

theorem toI64_of_not_integer (hnum : crates.CountsNumbers) {n : VNumber} (h : n.number.rounded.value.den ≠ 1) :
    crates.toI64 n = none := by
  obtain ⟨number⟩ := n
  rw [Number.rounded, BinaryFloat.value_unsignedZero] at h
  cases number with
  | i64 m =>
      obtain ⟨-, k, hk, -⟩ := Number.ofInt_spec (Number.abs_toInt_lt m)
      refine absurd ?_ h
      change (BinaryFloat.ofInt m.toInt : F64).value.den = 1
      rw [hk, Rat.den_intCast]
  | u64 m =>
      obtain ⟨-, k, hk, -⟩ := Number.ofInt_spec (Number.abs_toNat_lt m)
      refine absurd ?_ h
      change (BinaryFloat.ofInt (m.toNat : Int) : F64).value.den = 1
      rw [hk, Rat.den_intCast]
  | f64 x =>
      have hfraction : ∀ i : Int, x.exact ≠ .finite i := by
        intro i hexact
        refine h ?_
        change x.value.den = 1
        rw [(Crates.exact_eq_finite.mp hexact).2, Rat.den_intCast]
      rw [Option.eq_none_iff_forall_ne_some]
      intro i hi
      obtain hexact | ⟨hsat, -⟩ := (hnum.toI64 _ i).mp hi
      · exact hfraction _ hexact
      · exact hfraction _ (exact_two63.mp hsat)

end Crates

theorem Json.exists_number_of_rounded {json : Json} {n : VNumber} (h : json.rounded = .number n) :
    ∃ n', json = .number n' ∧ .f64 n'.number.rounded = n.number := by
  cases json with
  | number n' =>
      rw [rounded_number] at h
      cases h
      exact ⟨n', rfl, rfl⟩
  | array items =>
      rw [rounded_array] at h
      cases h
  | object fields =>
      rw [rounded_object] at h
      cases h
  | _ => cases h

theorem Json.eq_null_of_rounded {json : Json} (h : json.rounded = .null) : json = .null := by
  have hnull : json.isNull = true := by
    rw [← isNull_rounded, h]
    rfl
  cases json with
  | null => rfl
  | _ => cases hnull

namespace Node

def PathKey.toStep : PathKey → Option PathStep
  | .name s => some (.attribute s)
  | .index x => if x.isFinite = true ∧ x.value.den = 1 then some (.index x.value.num) else none

def PathKey.isSafe : PathKey → Prop
  | .name _ => True
  | .index x => x.isFinite = true → x.value.den = 1 → |x.value.num| < 2 ^ 53

section

variable {crates : Crates}

theorem toI64_of_rounded (hnum : crates.CountsNumbers) {x : F64} {json : Json}
    (hsafe : x.isFinite = true → x.value.den = 1 → |x.value.num| < 2 ^ 53)
    (h : json.rounded = floatToJson x) : json.asNumber.bind crates.toI64 =
      if x.isFinite = true ∧ x.value.den = 1 then some (Int64.ofInt x.value.num) else none := by
  by_cases hfinite : x.isFinite = true
  · rw [floatToJson_eq hfinite] at h
    obtain ⟨n, rfl, hn⟩ := Json.exists_number_of_rounded h
    have hrounded : n.number.rounded = x.unsignedZero := Number.f64.inj hn
    have hvalue : n.number.rounded.value = x.value := by rw [hrounded, BinaryFloat.value_unsignedZero]
    change crates.toI64 n = _
    by_cases hden : x.value.den = 1
    · have hint : x.value = x.value.num := ((Rat.den_eq_one_iff _).mp hden).symm
      have hn : n.number.isFinite = true := by
        refine Crates.isFinite_of_rounded ?_
        rw [hrounded]
        exact BinaryFloat.isFinite_unsignedZero (by decide) hfinite
      rw [Crates.toI64_of_rounded hnum hn (hvalue.trans hint) (hsafe hfinite hden), if_pos ⟨hfinite, hden⟩]
    · rw [Crates.toI64_of_not_integer hnum (by rwa [hvalue]), if_neg (hden ·.2)]
  · have hnull : floatToJson x = .null := if_neg hfinite
    rw [hnull] at h
    obtain rfl := Json.eq_null_of_rounded h
    rw [if_neg (hfinite ·.1)]
    rfl

theorem parseStep_of_rounded (hnum : crates.CountsNumbers) {key : PathKey} {json : Json} (hsafe : key.isSafe)
    (h : json.rounded = key.toJs.toJson) : parseStep crates json = key.toStep := by
  cases key with
  | name s =>
      have hstring : json.asString = some s := by
        rw [← Json.asString_rounded, h]
        rfl
      rw [parseStep, hstring]
      rfl
  | index x =>
      have hjson : json.rounded = floatToJson x := h
      have hnumber := toI64_of_rounded hnum hsafe hjson
      have hstring : json.asString = none := by
        rw [← Json.asString_rounded, hjson, floatToJson]
        split_ifs <;> rfl
      rw [parseStep, hstring]
      dsimp only
      rw [hnumber, PathKey.toStep]
      split_ifs with hint
      · obtain ⟨hlo, hhi⟩ := abs_lt.mp (hsafe hint.1 hint.2)
        rw [Option.map_some, Int64.toInt_ofInt_of_le (by omega) (by omega)]
      · rfl

end

def askedPaths (paths : Option (List (List PathKey))) : List Path := (paths.getD []).map (·.filterMap PathKey.toStep)

namespace PlanModificationResult

variable (mods : PlanModificationResult)

def asked : PlanModifications := ⟨askedPaths mods.replace, askedPaths mods.unknown, askedPaths mods.keepPrior⟩

def IsSafe : Prop :=
  ∀ paths ∈ [mods.replace, mods.unknown, mods.keepPrior], ∀ path ∈ paths.getD [], ∀ key ∈ path, key.isSafe

def toJs : Js := .object (.ofMembers mods.properties)

end PlanModificationResult

theorem isWire_path (path : List PathKey) : (Js.array (path.map PathKey.toJs)).isWire = true := by
  rw [Js.isWire, Js.allWire_iff]
  refine List.forall_mem_map.mpr fun key _ => ?_
  cases key <;> rfl

theorem isWire_paths (paths : List (List PathKey)) :
    (Js.array (paths.map fun path => .array (path.map PathKey.toJs))).isWire = true := by
  rw [Js.isWire, Js.allWire_iff]
  exact List.forall_mem_map.mpr fun path _ => isWire_path path

theorem isWire_modification (mods : PlanModificationResult) : mods.toJs.isWire = true := by
  rw [PlanModificationResult.toJs, Js.isWire, Js.fieldsWire_iff]
  intro p hp
  have hget := Entries.get?_eq_some.mpr hp
  rw [Entries.get?_ofMembers] at hget
  have hmem := OrdMap.mem_of_get?_ofList hget
  simp only [PlanModificationResult.properties, List.mem_cons, List.not_mem_nil, or_false, Prod.mk.injEq] at hmem
  obtain ⟨-, h⟩ | ⟨-, h⟩ | ⟨-, h⟩ := hmem
  · exact h ▸ isWire_paths _
  · exact h ▸ isWire_paths _
  · exact h ▸ isWire_paths _

theorem forall₂_of_map_eq {α β γ : Type} {f : α → γ} {g : β → γ} {xs : List α} {ys : List β}
    (h : xs.map f = ys.map g) : List.Forall₂ (fun a b => f a = g b) xs ys := by
  rw [← List.forall₂_map_left_iff (R := fun c b => c = g b), ← List.forall₂_map_right_iff (R := Eq), h]
  exact List.forall₂_refl _

section

variable {crates : Crates} {js : JsText}

theorem parsePath_of_rounded (hnum : crates.CountsNumbers) {path : List PathKey} {json : Json}
    (hsafe : ∀ key ∈ path, key.isSafe) (h : json.rounded = (Js.array (path.map PathKey.toJs)).toJson) :
    parsePath crates json = path.filterMap PathKey.toStep := by
  rw [Js.toJson_array, List.map_map] at h
  obtain ⟨steps, rfl, hsteps⟩ := Json.exists_array_of_rounded h
  rw [parsePath]
  have hall := forall₂_of_map_eq hsteps
  clear hsteps h
  induction hall with
  | nil => rfl
  | cons hstep _ ih =>
      rw [List.forall_mem_cons] at hsafe
      rw [List.filterMap_cons, List.filterMap_cons, parseStep_of_rounded hnum hsafe.1 hstep, ih hsafe.2]

theorem parsePaths_of_rounded (hnum : crates.CountsNumbers) {paths : Option (List (List PathKey))} {json : Json}
    (hsafe : ∀ path ∈ paths.getD [], ∀ key ∈ path, key.isSafe)
    (h : json.rounded = (Js.array ((paths.getD []).map fun path => .array (path.map PathKey.toJs))).toJson) :
    ∃ items, json = .array items ∧ items.map (parsePath crates) = askedPaths paths := by
  rw [Js.toJson_array, List.map_map] at h
  obtain ⟨items, rfl, hitems⟩ := Json.exists_array_of_rounded h
  refine ⟨items, rfl, ?_⟩
  rw [askedPaths]
  have hall := forall₂_of_map_eq hitems
  clear hitems h
  generalize paths.getD [] = paths at hall hsafe
  induction hall with
  | nil => rfl
  | cons hpath _ ih =>
      rw [List.forall_mem_cons] at hsafe
      rw [List.map_cons, List.map_cons, parsePath_of_rounded hnum hsafe.1 hpath, ih hsafe.2]

theorem parsePlanModifications_print (h : js.Reads crates) {mods : PlanModificationResult} (hsafe : mods.IsSafe) :
    parsePlanModifications crates (js.print mods.toJs.wireForm) = .ok mods.asked := by
  obtain ⟨hjson, hform⟩ := toJson_wireForm (isWire_modification mods)
  obtain ⟨json, hread, -, hround⟩ := h.fromSlice_print hjson
  rw [hform, PlanModificationResult.toJs] at hround
  obtain ⟨fields, rfl, hfields⟩ := Json.exists_members hround
  have hpaths : ∀ key paths, paths ∈ [mods.replace, mods.unknown, mods.keepPrior] →
      (OrdMap.ofList mods.properties).get? key =
        some (Js.array ((paths.getD []).map fun path => .array (path.map PathKey.toJs))) →
      ∃ items, fields.get? key = some (.array items) ∧ items.map (parsePath crates) = askedPaths paths := by
    intro key paths hmem hkey
    have hget := hfields key
    rw [Entries.get?_ofMembers, hkey, Option.map_some, Option.map_eq_some_iff] at hget
    obtain ⟨json, hjson, hround⟩ := hget
    obtain ⟨items, rfl, hitems⟩ := parsePaths_of_rounded h.toCountsNumbers (hsafe paths hmem) hround
    exact ⟨items, hjson, hitems⟩
  obtain ⟨replace, hreplace, hreplaced⟩ :=
    hpaths "replace" mods.replace (by simp) (by rw [OrdMap.get?_ofList]; rfl)
  obtain ⟨unknown, hunknown, hunknowns⟩ :=
    hpaths "unknown" mods.unknown (by simp) (by rw [OrdMap.get?_ofList]; rfl)
  obtain ⟨keep, hkeep, hkept⟩ := hpaths "keepPrior" mods.keepPrior (by simp) (by rw [OrdMap.get?_ofList]; rfl)
  rw [parsePlanModifications, hread, Outcome.ok_bind]
  simp only [hreplace, hunknown, hkeep]
  rw [PlanModificationResult.asked, hreplaced, hunknowns, hkept]

end

namespace ResourceDef

variable (lib : Library) (js : JsText) (resource : ResourceDef) (prior proposed : Js)

def keptQuotients : Ending String (List (String × Zod)) :=
  if isTruthy prior && isTruthy proposed then
    (transformFields resource.schema).filterM (keepsQuotient lib js prior proposed)
  else pure []

def modifiedBy : Ending String (Option PlanModificationResult) :=
  match resource.modifyPlan with
  | none => pure none
  | some hook => hook prior proposed

def modifications : Ending String PlanModificationResult := do
  let mods ← resource.modifiedBy prior proposed
  let kept ← resource.keptQuotients lib js prior proposed
  pure { mods.getD {} with
    keepPrior := some ((mods.getD {}).keepPrior.getD [] ++ kept.map fun field => [PathKey.name field.1]) }

theorem modifyPlanFn_eq {input : Bytes} {raw : Js} (hparse : js.parse input = .ok raw)
    (hprior : readProperty raw "prior" = .ok prior) (hproposed : readProperty raw "proposed" = .ok proposed) :
    resource.modifyPlanFn lib js input = resource.modifications lib js prior proposed >>= fun mods =>
      printed js mods.toJs := by
  rw [modifyPlanFn, modifications, modifiedBy, keptQuotients]
  simp only [hparse, hprior, hproposed, ofExcept, Ending.returned_bind]
  cases resource.modifyPlan with
  | none =>
      simp only [pure_bind, bind_assoc]
      split_ifs
      · rfl
      · simp only [pure_bind]
        rfl
  | some hook =>
      simp only [pure_bind, bind_assoc]
      split_ifs
      · rfl
      · simp only [pure_bind]
        rfl

end ResourceDef

def ended {α β : Type} (op : String) (ending : Ending String α) (read : α → β) (failed : Diagnostics → β) :
    Plugin.Authored β :=
  match ending with
  | .returned a => .returned (read a)
  | .panicked e => .returned (failed (handlerErr op e))
  | .pending => .pending

/-- The hooks of a lifecycle come to what its author's hooks come to, on the
values that JavaScript has of the arguments. -/
structure Hooks (crates : Crates) (lib : Library) (js : JsText) (resource : ResourceDef)
    (handler : Plugin.DynResource) : Prop where
  validate : ∀ config : Value, config.isFinite = true → ∃ v, Shows v (encodeJson crates config) ∧
    handler.validate config [] = ⟨[], ended "validate"
      (resource.validate.elim (.returned none) fun validate => validate (reviveSets resource.schema v))
      (fun diags => (diags.getD []).map Diagnostic.spoken) id⟩
  modifyPlan : ∀ (prior proposed : Value) privateIn, prior.isFinite = true → proposed.isFinite = true →
    ∃ v w, Shows v (encodeJson crates prior) ∧ Shows w (encodeJson crates proposed) ∧
    ((∀ mods, resource.modifications lib js v w = .returned mods → mods.IsSafe) →
      handler.modifyPlan prior proposed privateIn = ⟨[], Plugin.Finish.ofEnding (ended "modify_plan"
        (resource.modifications lib js v w) (fun mods => .ok mods.asked) .error)⟩)

section

variable {crates : Crates} {js : JsText}

theorem callHandler_eq {handler : RawHandler} {input : Value} {ending : Ending String Bytes} (op : String)
    (h : handler (valueToJson crates input) = ending) :
    callHandler crates handler input op = ended op ending .ok .error := by
  rw [callHandler, h]
  cases ending <;> rfl

theorem exists_shown (h : js.Reads crates) {value : Value} (hdoc : Document (encodeJson crates value)) :
    ∃ v, js.parse (valueToJson crates value) = .ok v ∧ Shows v (encodeJson crates value) := by
  obtain ⟨v, hparse, hjson, hround⟩ := h.parse_toVec hdoc
  exact ⟨v, hparse, hjson, hround⟩

theorem exists_reported (h : js.Reads crates) (diags : List Diagnostic) :
    ∃ out, printed js (.array (diags.map Diagnostic.toJs)) = .returned out ∧
      parseDiagnostics crates out = diags.map Diagnostic.spoken := by
  obtain ⟨ws, hws, hparse⟩ := exists_text_diagnostics diags
  obtain ⟨json, hread, -, hround⟩ := h.fromSlice_print (isJson_of_stringify hws)
  rw [Js.toJson_array] at hround
  obtain ⟨items, rfl, hitems⟩ := Json.exists_array_of_rounded hround
  refine ⟨js.print (.array ws), ?_, ?_⟩
  · rw [printed, hws]
    rfl
  · rw [← hparse, ← hitems, List.map_map, parseDiagnostics, hread]
    exact List.map_congr_left fun item _ => (parseDiagnostic_rounded item).symm

theorem validate_toNative (h : js.Reads crates) (hempty : crates.fromSlice (Utf8.encode "[]") = .ok (.array []))
    (validate : Option (Js → Ending String (Option (List Diagnostic)))) (schema : Zod) {config : Value} {v : Js}
    (hparse : js.parse (valueToJson crates config) = .ok v) :
    reportedBy crates <$> callHandler crates (validateAdapter js validate (some schema)) config "validate" =
      ended "validate" (validate.elim (.returned none) fun validate => validate (reviveSets schema v))
        (fun diags => (diags.getD []).map Diagnostic.spoken) id := by
  cases validate with
  | none =>
      have hnothing : parseDiagnostics crates (Utf8.encode "[]") = [] := by rw [parseDiagnostics, hempty]; rfl
      change Ending.returned (parseDiagnostics crates (Utf8.encode "[]")) = .returned []
      rw [hnothing]
  | some validate =>
      have hcall : validateAdapter js (some validate) (some schema) (valueToJson crates config) =
          validate (reviveSets schema v) >>= fun diagnostics =>
            printed js (.array ((diagnostics.getD []).map Diagnostic.toJs)) := by
        rw [validateAdapter, hparse]
        rfl
      rw [callHandler_eq "validate" hcall]
      change _ = ended "validate" (validate (reviveSets schema v)) _ _
      cases validate (reviveSets schema v) with
      | returned diags =>
          obtain ⟨out, hout, hreported⟩ := exists_reported h (diags.getD [])
          rw [Ending.returned_bind, hout]
          exact congrArg Ending.returned hreported
      | panicked e => rfl
      | pending => rfl

end

end Node

end TofuSdk
