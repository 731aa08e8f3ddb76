import TofuSdk.Ephemeral
import TofuSdk.RealCrates
import TofuSdk.Reflect
import TofuSdk.Registered
import TofuSdk.Run

namespace TofuSdk

namespace Plugin

namespace EphemeralFromResource

open TofuSdk.Service

variable {α : Type} (json : FacetJson α) (resource : Resource α)

/-- A service whose ephemeral resource of the name wraps the managed one. -/
def Serves (service : ProviderService) (name : String) : Prop :=
  service.provider.ephemeralHandler name = some (EphemeralAdapter.erased (ephemeral json resource))

section

variable (crates : Crates) (service : ProviderService)

def openNoted (req : ConfigRequest) : Trace (WrappedCall α) (Option String) OpenResponse :=
  service.openEphemeralVia crates (fun _ config =>
    runNoted "open ephemeral resource" [] (EphemeralAdapter.open_ (ephemeral json resource) config)) req

def renewNoted (req : EphemeralRequest) : Trace (WrappedCall α) (Option String) RenewResponse :=
  service.renewEphemeralVia (fun _ privateIn =>
    runNoted "renew ephemeral resource" privateIn (EphemeralAdapter.renew (ephemeral json resource))) req

def closeNoted (req : EphemeralRequest) : Trace (WrappedCall α) (Option String) DiagnosticsResponse :=
  service.closeEphemeralVia (fun _ privateIn =>
    runNoted "close ephemeral resource" privateIn (EphemeralAdapter.close (ephemeral json resource))) req

variable {json resource crates service}

theorem ending_openNoted {req : ConfigRequest} (hserves : Serves json resource service req.typeName) :
    (openNoted json resource crates service req).ending = (service.openEphemeralResource crates req).ending := by
  rw [← ProviderService.openEphemeralVia_run, openNoted]
  by_cases hdecoded : ∃ ty config, service.provider.ephemeralCty req.typeName = some ty ∧
      Service.decodeDynamic crates req.config ty = .ok config
  · obtain ⟨ty, config, hty, hconfig⟩ := hdecoded
    rw [ProviderService.openEphemeralVia_of_decoded hty hserves hconfig,
      ProviderService.openEphemeralVia_of_decoded hty hserves hconfig, Trace.ending_map, ← bind_pure_comp,
      Fut.ending_bind]
    rfl
  · obtain ⟨diagnostics, hanswer⟩ := ProviderService.openEphemeralVia_of_refused hserves hdecoded
    rw [hanswer, hanswer, Trace.ending_pure, Fut.ending_pure]

theorem ending_renewNoted {req : EphemeralRequest} (hserves : Serves json resource service req.typeName) :
    (renewNoted json resource service req).ending = (service.renewEphemeralResource req).ending := by
  rw [← ProviderService.renewEphemeralVia_run, renewNoted, ProviderService.renewEphemeralVia,
    ProviderService.renewEphemeralVia, hserves]
  simp only
  rw [Trace.ending_bind, Fut.ending_bind]
  rfl

theorem ending_closeNoted {req : EphemeralRequest} (hserves : Serves json resource service req.typeName) :
    (closeNoted json resource service req).ending = (service.closeEphemeralResource req).ending := by
  rw [← ProviderService.closeEphemeralVia_run, closeNoted, ProviderService.closeEphemeralVia,
    ProviderService.closeEphemeralVia, hserves]
  simp only
  rw [Trace.ending_bind, Fut.ending_bind]
  rfl

end

/-- A successful renewal by a service, from the private bytes of one response
to those of the next. -/
def Renews (name : String) (private_ : Option Bytes) (service : ProviderService) (next : Option Bytes) : Prop :=
  Serves json resource service name ∧ ∃ res, (service.renewEphemeralResource ⟨name, private_⟩).ending = .returned res ∧
    hasError res.diagnostics = false ∧ res.private_ = next

/-- What is created when the resource is opened is handed over or deleted, and
what is handed over is deleted once, however often it has been renewed. -/
structure NeverLeaks (crates : Crates) (service : ProviderService) (req : ConfigRequest) : Prop where
  handed : ∀ created, .created created ∈ (openNoted json resource crates service req).events →
    (∃ res text, (service.openEphemeralResource crates req).ending = .returned res ∧
      json.toString created = .ok text ∧ res.private_ = some (Utf8.encode text)) ∨
    .deleted created ∈ (openNoted json resource crates service req).events
  closed : ∀ res, (service.openEphemeralResource crates req).ending = .returned res → res.result.isSome = true →
    ∀ renewals last, Run (Renews json resource req.typeName) res.private_ renewals last →
    ∀ closer, Serves json resource closer req.typeName → ∃ created,
      (openNoted json resource crates service req).events ++
        (renewals.flatMap fun renewal => (renewNoted json resource renewal.2 ⟨req.typeName, renewal.1⟩).events) ++
        (closeNoted json resource closer ⟨req.typeName, last⟩).events = [.created created, .deleted created]

/-- Does the request make the resource create the model? -/
def Opens (crates : Crates) (service : ProviderService) (req : ConfigRequest) (ty : Ty) (created : α) : Prop :=
  ∃ config model, service.provider.ephemeralCty req.typeName = some ty ∧
    Service.decodeDynamic crates req.config ty = .ok config ∧ resource.model.fill config = .ok model ∧
    (resource.create model []).ending = .returned (.ok created)

/-- A model that can be printed and sent back. -/
structure Returnable (crates : Crates) (ty : Ty) (created : α) : Prop where
  printed : ∃ text, json.toString created = .ok text
  encoded : ∃ value dv, resource.model.peekToValue created = .ok value ∧
    Service.encodeDynamic crates value ty = .ok dv

section

variable {json resource} {model created : α} {privateIn : Bytes}

theorem calls_open_of_not_created (h : ∀ created, (resource.create model privateIn).ending ≠ .returned (.ok created)) :
    (open_ json resource model privateIn).calls = [] := by
  rw [open_]
  by_cases hreturned : ∃ res, (resource.create model privateIn).ending = .returned res
  · obtain ⟨res, hres⟩ := hreturned
    rw [Steps.calls_bind hres, Steps.calls_lift, List.nil_append]
    cases res with
    | error e => rfl
    | ok created => exact absurd hres (h created)
  · rw [Steps.calls_bind_of_not_returned (not_exists.mp hreturned), Steps.calls_lift]

theorem calls_open_of_created (h : (resource.create model privateIn).ending = .returned (.ok created)) :
    (open_ json resource model privateIn).calls = [.created created] := by
  rw [open_, Steps.calls_bind h, Steps.calls_lift]
  simp only
  cases json.toString created <;> rfl

theorem open_eq_ok : (open_ json resource model privateIn).ending = .returned (.ok created) ↔
    (resource.create model privateIn).ending = .returned (.ok created) ∧ ∃ text, json.toString created = .ok text := by
  rw [open_, Trace.ending_bind, Steps.ending_lift]
  cases (resource.create model privateIn).ending with
  | returned res =>
      cases res with
      | error e => refine iff_of_false (fun h => nomatch h) fun h => nomatch h.1
      | ok created' =>
          rw [Ending.returned_bind]
          simp only
          cases hprint : json.toString created' with
          | error e =>
              refine iff_of_false (fun h => nomatch h) ?_
              rintro ⟨hcreated, text, htext⟩
              cases hcreated
              rw [hprint] at htext
              cases htext
          | ok text =>
              constructor
              · intro h
                cases h
                exact ⟨rfl, text, hprint⟩
              · rintro ⟨h, -⟩
                cases h
                rfl
  | panicked payload => exact iff_of_false (fun h => nomatch h) fun h => nomatch h.1
  | pending => exact iff_of_false (fun h => nomatch h) fun h => nomatch h.1

theorem lastSet_open {text : String} (h : (resource.create model privateIn).ending = .returned (.ok created))
    (hprint : json.toString created = .ok text) :
    lastSet (open_ json resource model privateIn).ops = some (Utf8.encode text) := by
  rw [open_, Steps.ops_bind h]
  simp only [hprint]
  rw [lastSet, List.filterMap_append]
  exact List.getLast?_concat

end

section

variable {json resource} {crates : Crates} {service : ProviderService} {req : ConfigRequest} {ty : Ty} {created : α}

theorem Opens.unique {ty' : Ty} {created' : α} (h : Opens resource crates service req ty created)
    (h' : Opens resource crates service req ty' created') : ty' = ty ∧ created' = created := by
  obtain ⟨config, model, hty, hconfig, hfill, hcreate⟩ := h
  obtain ⟨config', model', hty', hconfig', hfill', hcreate'⟩ := h'
  obtain rfl := Option.some.inj (hty.symm.trans hty')
  obtain rfl := Except.ok.inj (hconfig.symm.trans hconfig')
  obtain rfl := Except.ok.inj (hfill.symm.trans hfill')
  exact ⟨rfl, Except.ok.inj (Ending.returned.inj (hcreate'.symm.trans hcreate))⟩

theorem events_openNoted_of_opens (hserves : Serves json resource service req.typeName)
    (h : Opens resource crates service req ty created) :
    (openNoted json resource crates service req).events = [.created created] := by
  obtain ⟨config, model, hty, hconfig, hfill, hcreate⟩ := h
  rw [openNoted, ProviderService.openEphemeralVia_of_decoded hty hserves hconfig, Trace.events_map, runNoted,
    Steps.calls, EphemeralAdapter.events_open hfill]
  exact calls_open_of_created hcreate

theorem events_openNoted_of_not_opens (hserves : Serves json resource service req.typeName)
    (h : ∀ ty created, ¬Opens resource crates service req ty created) :
    (openNoted json resource crates service req).events = [] := by
  by_cases hdecoded : ∃ ty config, service.provider.ephemeralCty req.typeName = some ty ∧
      Service.decodeDynamic crates req.config ty = .ok config
  · obtain ⟨ty, config, hty, hconfig⟩ := hdecoded
    rw [openNoted, ProviderService.openEphemeralVia_of_decoded hty hserves hconfig, Trace.events_map, runNoted,
      Steps.calls]
    cases hfill : resource.model.fill config with
    | error e => rw [EphemeralAdapter.events_open_of_error hfill, List.filterMap_nil]
    | ok model =>
        rw [EphemeralAdapter.events_open hfill]
        apply calls_open_of_not_created
        intro created hcreate
        exact h ty created ⟨config, model, hty, hconfig, hfill, hcreate⟩
  · obtain ⟨diagnostics, hanswer⟩ := ProviderService.openEphemeralVia_of_refused hserves hdecoded
    rw [openNoted, hanswer, Trace.events_pure]

theorem opens_of_mem (hserves : Serves json resource service req.typeName)
    (h : .created created ∈ (openNoted json resource crates service req).events) :
    ∃ ty, Opens resource crates service req ty created := by
  by_cases hopens : ∃ ty created, Opens resource crates service req ty created
  · obtain ⟨ty, created', hopens⟩ := hopens
    rw [events_openNoted_of_opens hserves hopens] at h
    obtain rfl := WrappedCall.created.inj (List.mem_singleton.mp h)
    exact ⟨ty, hopens⟩
  · rw [events_openNoted_of_not_opens hserves fun ty created h => hopens ⟨ty, created, h⟩] at h
    cases h

theorem opened_of_result {res : OpenResponse} (hserves : Serves json resource service req.typeName)
    (hopen : (service.openEphemeralResource crates req).ending = .returned res) (hresult : res.result.isSome = true) :
    ∃ ty created text, Opens resource crates service req ty created ∧ Returnable json resource crates ty created ∧
      json.toString created = .ok text ∧ res.private_ = some (Utf8.encode text) := by
  obtain ⟨ty, config, value, dv, hty, hconfig, hfinish, hencode, rfl⟩ :=
    (ProviderService.openEphemeralResource_result hserves).mp ⟨hopen, hresult⟩
  obtain ⟨model, created, hfill, hreturned, hpeek⟩ :=
    EphemeralAdapter.open_eq_ok.mp (Finish.ofEnding_eq_returned.mp hfinish)
  obtain ⟨hcreate, text, hprint⟩ := open_eq_ok.mp hreturned
  refine ⟨ty, created, text, ⟨config, model, hty, hconfig, hfill, hcreate⟩, ⟨⟨text, hprint⟩, value, dv, hpeek, hencode⟩,
    hprint, ?_⟩
  have hops : ((EphemeralAdapter.erased (ephemeral json resource)).open_ config []).ops =
      (open_ json resource model []).ops :=
    congrArg (List.filterMap Sum.getLeft?) (EphemeralAdapter.events_open hfill)
  rw [ProviderService.respondOpened, hencode, intoOutputs_privateOut, hops]
  exact lastSet_open hcreate hprint

theorem result_of_opens (hserves : Serves json resource service req.typeName)
    (h : Opens resource crates service req ty created) (hreturnable : Returnable json resource crates ty created) :
    ∃ res, (service.openEphemeralResource crates req).ending = .returned res ∧ res.result.isSome = true := by
  obtain ⟨config, model, hty, hconfig, hfill, hcreate⟩ := h
  obtain ⟨hprint, value, dv, hpeek, hencode⟩ := hreturnable
  refine ⟨_, (ProviderService.openEphemeralResource_result hserves).mpr
    ⟨ty, config, value, dv, hty, hconfig, ?_, hencode, rfl⟩⟩
  have hreturned := open_eq_ok.mpr ⟨hcreate, hprint⟩
  exact Finish.ofEnding_eq_returned.mpr (EphemeralAdapter.open_eq_ok.mpr ⟨model, created, hfill, hreturned, hpeek⟩)

end

section

variable {json resource} {name : String} {service : ProviderService} {private_ next : Option Bytes} {created : α}
  {crates : Crates} {req : ConfigRequest}

theorem Renews.eq (h : Renews json resource name private_ service next) : next = private_ := by
  obtain ⟨hserves, res, hrenew, -, rfl⟩ := h
  rw [← ProviderService.renewEphemeralVia_run, ProviderService.renewEphemeralVia, hserves] at hrenew
  obtain rfl := Ending.returned.inj hrenew
  rfl

/-- However often a resource is renewed, the private bytes stay those of its
opening. -/
theorem run_keeps {renewals : List (Option Bytes × ProviderService)} {last : Option Bytes}
    (h : Run (Renews json resource name) private_ renewals last) : last = private_ := by
  induction h with
  | nil => rfl
  | cons current next last service rest hrenews _ ih => exact ih.trans hrenews.eq

theorem events_renewNoted (hserves : Serves json resource service name) :
    (renewNoted json resource service ⟨name, private_⟩).events = [] := by
  rw [renewNoted, ProviderService.renewEphemeralVia, hserves]
  rfl

theorem calls_close {text : String} {privateIn : Bytes} (hjson : json.Lawful)
    (hprint : json.toString created = .ok text) (hprivate : Utf8.encode text = privateIn) :
    (close json resource privateIn).calls = [.deleted created] := by
  have hparse := hjson.fromSlice_toString hprint
  rw [hprivate] at hparse
  have hne : ¬privateIn.isEmpty = true := by
    intro hempty
    rw [List.isEmpty_iff.mp hempty] at hparse
    exact hjson.fromSlice_nil created hparse
  rw [close, if_neg hne, hparse]
  simp only
  rw [Steps.calls_bind rfl]
  by_cases hreturned : ∃ res, (resource.delete created privateIn).ending = .returned res
  · obtain ⟨res, hres⟩ := hreturned
    rw [Steps.calls_bind hres, Steps.calls_lift]
    cases res <;> rfl
  · rw [Steps.calls_bind_of_not_returned (not_exists.mp hreturned), Steps.calls_lift]
    rfl

theorem events_closeNoted {text : String} (hjson : json.Lawful) (hserves : Serves json resource service name)
    (hprint : json.toString created = .ok text) :
    (closeNoted json resource service ⟨name, some (Utf8.encode text)⟩).events = [.deleted created] := by
  rw [closeNoted, ProviderService.closeEphemeralVia, hserves]
  simp only
  rw [Trace.events_bind_pure, runNoted, Steps.calls, EphemeralAdapter.close, Trace.events_bind_pure]
  exact calls_close hjson hprint rfl

theorem NeverLeaks.returnable {ty : Ty} (hserves : Serves json resource service req.typeName)
    (h : NeverLeaks json resource crates service req) (hopens : Opens resource crates service req ty created) :
    Returnable json resource crates ty created := by
  have hevents := events_openNoted_of_opens hserves hopens
  obtain ⟨res, text, hopen, hprint, hprivate⟩ | hdeleted :=
    h.handed created (by rw [hevents]; exact List.mem_singleton_self _)
  · have hresult := ProviderService.result_of_private hserves hopen hprivate
    obtain ⟨ty', created', -, hopens', hreturnable, -, -⟩ := opened_of_result hserves hopen hresult
    obtain ⟨rfl, rfl⟩ := hopens.unique hopens'
    exact hreturnable
  · rw [hevents] at hdeleted
    cases List.mem_singleton.mp hdeleted

theorem neverLeaks_of_returnable (hjson : json.Lawful) (hserves : Serves json resource service req.typeName)
    (h : ∀ ty created, Opens resource crates service req ty created → Returnable json resource crates ty created) :
    NeverLeaks json resource crates service req := by
  constructor
  · intro created hcreated
    obtain ⟨ty, hopens⟩ := opens_of_mem hserves hcreated
    obtain ⟨res, hopen, hresult⟩ := result_of_opens hserves hopens (h ty created hopens)
    obtain ⟨ty', created', text, hopens', -, hprint, hprivate⟩ := opened_of_result hserves hopen hresult
    obtain ⟨rfl, rfl⟩ := hopens.unique hopens'
    exact .inl ⟨res, text, hopen, hprint, hprivate⟩
  · intro res hopen hresult renewals last hrun closer hcloser
    obtain ⟨ty, created, text, hopens, -, hprint, hprivate⟩ := opened_of_result hserves hopen hresult
    have hlast := run_keeps hrun
    have hrenewals : (renewals.flatMap fun renewal =>
        (renewNoted json resource renewal.2 ⟨req.typeName, renewal.1⟩).events) = [] := by
      rw [List.flatMap_eq_nil_iff]
      intro renewal hrenewal
      obtain ⟨next, hrenews⟩ := hrun.step_of_mem hrenewal
      exact events_renewNoted hrenews.1
    refine ⟨created, ?_⟩
    rw [events_openNoted_of_opens hserves hopens, hrenewals, hlast, hprivate, events_closeNoted hjson hcloser hprint]
    rfl

/-- Nothing leaks when all that is created can be printed and sent back, and
only then. -/
theorem neverLeaks_iff (hjson : json.Lawful) (hserves : Serves json resource service req.typeName) :
    NeverLeaks json resource crates service req ↔
      ∀ ty created, Opens resource crates service req ty created → Returnable json resource crates ty created := by
  constructor
  · exact fun h ty created hopens => h.returnable hserves hopens
  · exact neverLeaks_of_returnable hjson hserves

end

def alone (name : String) (block : Block) : ProviderService :=
  .new (ProviderBuilder.build.provider ((ProviderBuilder.empty : ProviderBuilder Parts.real Unit).call
    (Call.ephemeral ⟨name, name, name⟩ (.ok block) (EphemeralAdapter.erased (ephemeral json resource)))) none)

theorem serves_alone (name : String) (block : Block) :
    Serves json resource (alone json resource name block) name :=
  HandlerMap.insert_self HandlerMap.empty .ephemeral name _

abbrev Mark := Option Char × Unit

def markShape : Shape Mark :=
  .struct (.cons { name := "mark", attrs := { computed := true } } (.option (.scalar .char)) .nil)

def markBlock : Block where
  attributes := [⟨"mark", .string, none, false, false, true, false, false, false, none, none⟩]
  nestedBlocks := []

example : Shape.blockFromShape markShape = .ok markBlock := rfl

def markJson : FacetJson Mark where
  toString
    | (none, ()) => .ok "\x7b\"mark\":null\x7d"
    | (some mark, ()) => if mark = 'x' then .ok "\x7b\"mark\":\"x\"\x7d" else .error "not a mark"
  fromSlice bytes :=
    if bytes = Utf8.encode "\x7b\"mark\":null\x7d" then .ok (none, ())
    else if bytes = Utf8.encode "\x7b\"mark\":\"x\"\x7d" then .ok (some 'x', ())
    else .error "not a mark"

theorem lawful_markJson : markJson.Lawful := by
  constructor
  · rintro ⟨mark, ⟨⟩⟩ text h
    cases mark with
    | none =>
        obtain rfl := Except.ok.inj h
        rfl
    | some mark =>
        by_cases hmark : mark = 'x'
        · subst hmark
          obtain rfl := Except.ok.inj h
          rfl
        · change (if mark = 'x' then Except.ok _ else Except.error _) = _ at h
          rw [if_neg hmark] at h
          cases h
  · intro model h
    cases h

def marked (mark : Option Char) : Resource Mark where
  model := markShape
  create _ _ := pure (.ok (mark, ()))
  delete _ _ := pure (.ok ())
  validate _ _ := ⟨[], .returned []⟩

def unmarked : Value := .object (OrdMap.empty.insert "mark" .null)

def unmarkedState : DynamicValue := ⟨[0x81, 0xA4, 0x6D, 0x61, 0x72, 0x6B, 0xC0], []⟩

theorem encodeDynamic_unmarked :
    Service.encodeDynamic Crates.real unmarked markBlock.ctyType = .ok unmarkedState := by
  have hsorted : sortedByName [⟨"mark", Ty.string, true⟩] = [⟨"mark", .string, true⟩] := by simp [sortedByName]
  have hmp : toMp Crates.real unmarked markBlock.ctyType = .ok (.map [(.string (.text "mark"), .nil)]) := by
    change encodeObject Crates.real (OrdMap.empty.insert "mark" .null) [⟨"mark", .string, true⟩] = _
    rw [encodeObject_eq, hsorted]
    rfl
  rw [Service.encodeDynamic, encodeMsgpack, hmp]
  rfl

def markRequest : ConfigRequest := ⟨"mark", some unmarkedState⟩

theorem opens_marked (mark : Option Char) :
    Opens (marked mark) Crates.real (alone markJson (marked mark) "mark" markBlock) markRequest markBlock.ctyType
      (mark, ()) :=
  ⟨unmarked, (none, ()), rfl, rfl, rfl, rfl⟩

/-- A character gets into the handle, but not into a value. -/
theorem mark_leaks : markJson.Lawful ∧ ¬NeverLeaks markJson (marked (some 'x')) Crates.real
    (alone markJson (marked (some 'x')) "mark" markBlock) markRequest := by
  refine ⟨lawful_markJson, fun h => ?_⟩
  obtain ⟨-, value, dv, hpeek, -⟩ := h.returnable (serves_alone _ _ _ _) (opens_marked (some 'x'))
  cases hpeek

theorem neverLeaks_unmarked : NeverLeaks markJson (marked none) Crates.real
    (alone markJson (marked none) "mark" markBlock) markRequest := by
  have hserves : Serves markJson (marked none) (alone markJson (marked none) "mark" markBlock) markRequest.typeName :=
    serves_alone _ _ _ _
  refine (neverLeaks_iff lawful_markJson hserves).mpr fun ty created hopens => ?_
  obtain ⟨rfl, rfl⟩ := (opens_marked none).unique hopens
  exact ⟨⟨_, rfl⟩, unmarked, unmarkedState, rfl, encodeDynamic_unmarked⟩

end EphemeralFromResource

end Plugin

end TofuSdk
