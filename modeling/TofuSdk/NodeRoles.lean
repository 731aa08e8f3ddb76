import TofuSdk.NodeEphemeral

namespace TofuSdk

namespace Plugin.ProviderService

variable {crates : Crates} {η α ρ : Type} {ty : Ty} {handler : η} {config : Option Service.DynamicValue}
  {unknown : List Service.Diagnostic} {failed op : String} {refuse : List Service.Diagnostic → ρ}
  {call : η → Value → Handler α} {respond : Ty → Except Diagnostics α × CtxOutputs → ρ}

theorem runUnder_of_error {e : CodecError} (h : Service.decodeDynamic crates config ty = .error e) :
    runUnder crates (some ty) (some handler) config unknown failed op refuse call respond =
      pure (refuse (Service.errorDiag failed e.toString)) := by
  simp only [runUnder, h]

theorem runUnder_of_ok {value : Value} (h : Service.decodeDynamic crates config ty = .ok value) :
    runUnder crates (some ty) (some handler) config unknown failed op refuse call respond =
      respond ty <$> run op [] (call handler value) := by
  simp only [runUnder, h]

end Plugin.ProviderService

namespace Node

section

variable (crates : Crates) (stop : Stop)

structure JsListResource where
  objectTy : Ty
  list : RawHandler
  validate : RawHandler

def listItem (ty : Ty) (item : Json) : Except Diagnostics DynListItem := do
  let io ← match item with
    | .object fields => .ok fields
    | _ => .error (handlerErr "list" "each list item must be an object")
  let displayName := ((io.get? "displayName").bind Json.asString).getD ""
  let resource ← match io.get? "resource" with
    | some resource => .ok resource
    | none => .error (handlerErr "list" "list item is missing `resource`")
  let object ← readJson crates ty "list" (crates.toVec resource)
  pure ⟨displayName, object⟩

def listParsed (ty : Ty) (parsed : Json) : Except Diagnostics (List DynListItem) :=
  match parsed with
  | .array items => items.mapM (listItem crates ty)
  | _ => .error (handlerErr "list" "list must return an array of items")

def listItems (ty : Ty) (out : Bytes) : Except Diagnostics (List DynListItem) := do
  let parsed ← (crates.fromSlice out).mapError (handlerErr "list")
  listParsed crates ty parsed

def JsListResource.erased (resource : JsListResource) : Plugin.DynListResource where
  list config := callDocument crates stop resource.list (encodeJson crates config) "list"
    (listItems crates resource.objectTy)
  validate := validateWith crates resource.validate "list validate"

structure JsAction where
  validate : RawHandler
  plan : RawHandler
  invoke : RawHandler

def planOutcome (diags : Diagnostics) : Except Diagnostics Unit :=
  if diags.any (·.severity == .error) then .error diags else .ok ()

def JsAction.erased (action : JsAction) : Plugin.DynAction where
  validate := validateWith crates action.validate "action validate"
  plan config := fun _ => answered (callHandler crates action.plan config "action plan") fun out =>
    ⟨[], .returned (planOutcome (parseDiagnostics crates out))⟩
  invoke config := callDocument crates stop action.invoke (encodeJson crates config) "action invoke" fun _ => .ok ()

end

structure ListItem where
  displayName : String
  resource : Js

structure ListResourceDef where
  schema : Zod
  config : Zod
  list (query : Js) : HandlerCtx → Trace HandlerOp String (List ListItem)
  validate : Option (Js → Ending String (Option (List Diagnostic)))

structure ActionDef where
  schema : Zod
  plan : Option (Js → Ending String Unit)
  invoke (config : Js) : HandlerCtx → Trace HandlerOp String Unit
  validate : Option (Js → Ending String (Option (List Diagnostic)))

section

variable (lib : Library) (js : JsText) (typeName : String)

def ListItem.toJs (item : ListItem) : Js :=
  .object (.ofMembers [("displayName", .string item.displayName), ("resource", item.resource)])

namespace ListResourceDef

variable (resource : ListResourceDef)

def validItems (items : List ListItem) (i : Nat) : Trace HandlerOp String (List ListItem) :=
  match items with
  | [] => pure []
  | item :: rest => do
      let data ← lib.validateOut resource.schema item.resource
          ("list resource " ++ typeName ++ "[" ++ toString i ++ "]")
      let validated ← validItems rest (i + 1)
      pure (⟨item.displayName, data⟩ :: validated)

def listing (query : Js) (ctx : HandlerCtx) : Trace HandlerOp String (List ListItem) := do
  let items ← resource.list query ctx
  resource.validItems lib typeName items 0

def listFn (query : Js) (ctx : HandlerCtx) : Script := do
  let validated ← resource.listing lib typeName query ctx
  pure (.array (validated.map ListItem.toJs))

def toNative (ty : Ty) : JsListResource where
  objectTy := ty
  list := ctxAdapt js (some resource.config) (resource.listFn lib typeName)
  validate := validateAdapter js resource.validate (some resource.config)

end ListResourceDef

namespace ActionDef

variable (action : ActionDef)

def planFn : RawHandler := fun input =>
  match action.plan with
  | none => .returned (Utf8.encode "[]")
  | some plan => do
      let parsed ← ofExcept (js.parse input)
      match plan (reviveSets action.schema parsed) with
      | .returned _ => pure (Utf8.encode "[]")
      | .panicked message => printed js (.array [Diagnostic.toJs ⟨some Severity.error, message, none, none⟩])
      | .pending => .pending

def invokeFn (config : Js) (ctx : HandlerCtx) : Script := do
  let _ ← action.invoke config ctx
  pure .null

def toNative : JsAction where
  validate := validateAdapter js action.validate (some action.schema)
  plan := action.planFn js
  invoke := ctxAdapt js (some action.schema) action.invokeFn

end ActionDef

end

/-- What the host is told of a call in the context of its RPC, by what the script
comes to and by what is read of its result. -/
inductive Answers {α ρ : Type} (op : String) (reads : Json → Except Diagnostics α → Prop) (run : Script)
    (respond : Except Diagnostics α × CtxOutputs → ρ) : Option ρ → Prop
  | returned (result w : Js) (json : Json) (res : Except Diagnostics α) : run.ending = .returned result →
      stringify (orElse result .null) = .ok (some w) → json.rounded = w.toJson → reads json res →
      Answers op reads run respond (some (respond (res, intoOutputs (run.events.map HandlerOp.spoken))))
  | unwritten (result : Js) (e : String) : run.ending = .returned result → stringify (orElse result .null) = .error e →
      Answers op reads run respond (some (respond (.error (handlerErr op e), .empty)))
  | thrown (e : String) : run.ending = .panicked e →
      Answers op reads run respond (some (respond (.error (handlerErr op e), .empty)))
  | pending : run.ending = .pending → Answers op reads run respond none

section

variable {crates : Crates} {js : JsText}

theorem Relays.answers {op : String} {run : Script} {privateIn : Bytes} {handler : Handler Bytes}
    (h : Relays crates op run (handler privateIn)) {α ρ : Type} {read : Bytes → Except Diagnostics α}
    {reads : Json → Except Diagnostics α → Prop} (hread : ∀ value, Document value →
      ∃ json, json.rounded = value.rounded ∧ reads json (read (crates.toVec value)))
    (op' : String) (respond : Except Diagnostics α × CtxOutputs → ρ) :
    Answers op reads run respond
      (respond <$> Plugin.run op' privateIn fun privateIn => (handler privateIn).andThen read).ending.toOption := by
  rw [Plugin.toOption_run]
  cases hending : run.ending with
  | pending =>
      rw [h.pending hending]
      exact .pending hending
  | panicked e =>
      rw [h.thrown e hending]
      exact .thrown e hending
  | returned result =>
      cases hwritten : stringify (orElse result .null) with
      | error e =>
          rw [h.unwritten result e hending hwritten]
          exact .unwritten result e hending hwritten
      | ok text =>
          cases text with
          | none => exact absurd hwritten (stringify_orElse_null result)
          | some w =>
              obtain ⟨hops, value, hfinish, hdoc, hround⟩ := h.returned result w hending hwritten
              obtain ⟨json, hjson, hreads⟩ := hread value hdoc
              have hcall : ((handler privateIn).andThen read).finish = .returned (read (crates.toVec value)) := by
                rw [Call.andThen, hfinish]
                rfl
              rw [hcall, Call.andThen]
              simp only [hops]
              exact .returned result w json _ hending hwritten (hjson.trans hround) hreads

theorem answers_callDocument (h : Shares js crates) {α ρ : Type} {op : String} {read : Bytes → Except Diagnostics α}
    {reads : Json → Except Diagnostics α → Prop} (reviveSchema : Option Zod) (fn : Js → HandlerCtx → Script)
    {input : Json}
    (hdoc : Document input) (hread : ∀ value, Document value →
      ∃ json, json.rounded = value.rounded ∧ reads json (read (crates.toVec value)))
    (op' : String) (respond : Except Diagnostics α × CtxOutputs → ρ) :
    ∃ v, Shows v input ∧ Answers op reads (fn (reviveSchema.elim v (reviveSets · v)) ⟨.undefined, false⟩) respond
      (respond <$> Plugin.run op' []
        (callDocument crates .never (ctxAdapt js reviveSchema fn) input op read)).ending.toOption := by
  obtain ⟨v, hjson, hround, hrelays⟩ := relays_callWithCtx h reviveSchema fn hdoc op []
  exact ⟨v, ⟨hjson, hround⟩, hrelays.answers hread op' respond⟩

end

def readListed (crates : Crates) (ty : Ty) (item : String × Option Json) : Except Diagnostics DynListItem :=
  match item.2 with
  | none => .error (handlerErr "list" "list item is missing `resource`")
  | some json => (⟨item.1, ·⟩) <$> readDocument crates ty "list" json

/-- An item as it is written and read again. -/
structure ReadsAs (item : ListItem) (read : String × Option Json) : Prop where
  displayName : read.1 = item.displayName
  resource : ∃ text, stringify item.resource = .ok text ∧ read.2.map Json.rounded = text.map Js.toJson
  document : ∀ json ∈ read.2, Document json

theorem stringifyItems_eq (items : List Js) :
    stringifyItems items = items.mapM fun v => (·.getD .null) <$> stringify v := by
  induction items with
  | nil => rfl
  | cons v items ih =>
      rw [stringifyItems, ih, List.mapM_cons]
      cases stringify v <;> rfl

section

variable {crates : Crates} {js : JsText}

theorem stringify_toJs_error {item : ListItem} {e : String} (h : stringify item.resource = .error e) :
    stringify item.toJs = .error e := by
  apply stringify_members_error (by simp)
  rw [List.mapM_cons, List.mapM_cons, h]
  rfl

theorem exists_text_listItem {item : ListItem} {text : Option Js} (h : stringify item.resource = .ok text) :
    ∃ own, stringify item.toJs = .ok (some (.object own)) ∧ own.get? "displayName" = some (.string item.displayName) ∧
      own.get? "resource" = text := by
  have hproperties : ∀ p ∈ [("displayName", Js.string item.displayName), ("resource", item.resource)],
      ∃ text, stringify p.2 = .ok text := by
    simp only [List.forall_mem_cons]
    exact ⟨⟨_, rfl⟩, ⟨text, h⟩, List.forall_mem_nil _⟩
  obtain ⟨own, hown, hget⟩ := stringify_members hproperties
  refine ⟨own, hown, ?_, ?_⟩
  · rw [hget, OrdMap.get?_ofList]
    exact written_eq (v := Js.string item.displayName) rfl
  · rw [hget, OrdMap.get?_ofList]
    exact written_eq h

theorem exists_readListed (h : js.Reads crates) (ty : Ty) {item : ListItem} {own : Entries Js} {json : Json}
    (hdoc : Document json) (hround : json.rounded = (Js.object own).toJson) {text : Option Js}
    (htext : stringify item.resource = .ok text) (hname : own.get? "displayName" = some (.string item.displayName))
    (hresource : own.get? "resource" = text) :
    ∃ read, ReadsAs item read ∧ listItem crates ty json = readListed crates ty read := by
  obtain ⟨fields, rfl, hfields⟩ := Json.exists_members hround
  have hdisplay : ((fields.get? "displayName").bind Json.asString).getD "" = item.displayName := by
    have hkey := hfields "displayName"
    rw [hname] at hkey
    obtain ⟨name, hget, hname⟩ := Option.map_eq_some_iff.mp hkey
    rw [hget, Option.bind_some, ← Json.asString_rounded, hname]
    rfl
  have hkey := hfields "resource"
  rw [hresource] at hkey
  cases hget : fields.get? "resource" with
  | none =>
      rw [hget] at hkey
      refine ⟨(item.displayName, none), ⟨rfl, ⟨text, htext, hkey⟩, by rintro _ ⟨⟩⟩, ?_⟩
      simp [listItem, hget, readListed]
  | some resource =>
      rw [hget] at hkey
      obtain ⟨json', hread, hdoc', hround'⟩ := h.fromSlice_toVec (hdoc.fields _ _ hget)
      refine ⟨(item.displayName, some json'), ⟨rfl, ⟨text, htext, ?_⟩, ?_⟩, ?_⟩
      · rw [← hkey, Option.map_some, Option.map_some, hround']
      · rintro _ ⟨⟩
        exact hdoc'
      · simp only [listItem, hget, Outcome.ok_bind, hdisplay, readJson_of_fromSlice hread, readListed]
        cases readDocument crates ty "list" json' <;> rfl

theorem stringify_items_error {items : List ListItem} {e : String}
    (h : items.mapM (fun item => stringify item.resource) = .error e) :
    stringify (.array (items.map ListItem.toJs)) = .error e := by
  have hitems : stringifyItems (items.map ListItem.toJs) = .error e := by
    rw [stringifyItems_eq, List.mapM_map]
    induction items with
    | nil => cases h
    | cons item items ih =>
        rw [List.mapM_cons] at h ⊢
        rw [Function.comp_apply]
        cases hitem : stringify item.resource with
        | error e' =>
            rw [hitem, Outcome.error_bind] at h
            obtain rfl := Except.error.inj h
            rw [stringify_toJs_error hitem, Outcome.map_error, Outcome.error_bind]
        | ok text =>
            rw [hitem, Outcome.ok_bind] at h
            obtain ⟨own, hown, -⟩ := exists_text_listItem hitem
            rw [hown, Outcome.map_ok, Outcome.ok_bind]
            cases hrest : items.mapM (fun item => stringify item.resource) with
            | error e' =>
                rw [hrest] at h
                rw [ih (hrest.trans h), Outcome.error_bind]
            | ok texts =>
                rw [hrest] at h
                cases h
  rw [stringify, hitems]
  rfl

theorem exists_listParsed (h : js.Reads crates) (ty : Ty) {items : List ListItem} {texts : List (Option Js)}
    (htexts : items.mapM (fun item => stringify item.resource) = .ok texts) :
    ∃ w, stringify (.array (items.map ListItem.toJs)) = .ok (some w) ∧
      ∀ json, Document json → json.rounded = w.toJson → ∃ reads, List.Forall₂ ReadsAs items reads ∧
        listParsed crates ty json = reads.mapM (readListed crates ty) := by
  have hitems : ∃ ws, List.Forall₂ (fun v w => stringify v = .ok (some w)) (items.map ListItem.toJs) ws ∧
      ∀ jsons : List Json, (∀ json ∈ jsons, Document json) → jsons.map Json.rounded = ws.map Js.toJson →
        ∃ reads, List.Forall₂ ReadsAs items reads ∧
          jsons.mapM (listItem crates ty) = reads.mapM (readListed crates ty) := by
    have hall := Outcome.mapM_eq_ok.mp htexts
    clear htexts
    induction hall with
    | nil =>
        refine ⟨[], .nil, fun jsons _ hround => ?_⟩
        obtain rfl := List.map_eq_nil_iff.mp hround
        exact ⟨[], .nil, rfl⟩
    | cons htext _ ih =>
        obtain ⟨ws, hws, hreads⟩ := ih
        obtain ⟨own, hown, hname, hresource⟩ := exists_text_listItem htext
        refine ⟨.object own :: ws, .cons hown hws, fun jsons hdocs hround => ?_⟩
        cases jsons with
        | nil => cases hround
        | cons json jsons =>
            obtain ⟨hjson, hrest⟩ := List.cons_eq_cons.mp hround
            obtain ⟨hdoc, hdocs⟩ := List.forall_mem_cons.mp hdocs
            obtain ⟨read, hread, hitem⟩ := exists_readListed h ty hdoc hjson htext hname hresource
            obtain ⟨reads, hall, hmap⟩ := hreads jsons hdocs hrest
            refine ⟨read :: reads, .cons hread hall, ?_⟩
            rw [List.mapM_cons, List.mapM_cons, hitem, hmap]
  obtain ⟨ws, hws, hreads⟩ := hitems
  refine ⟨.array ws, stringify_array hws, fun json hdoc hround => ?_⟩
  rw [Js.toJson_array] at hround
  obtain ⟨jsons, rfl, hjsons⟩ := Json.exists_array_of_rounded hround
  exact hreads jsons hdoc.items hjsons

theorem exists_sent_listed (hc : crates.Lawful) (ht : crates.ReadsTypes) (hnum : crates.CountsNumbers) {ty : Ty}
    (hn : ty.distinctNames = true)
    {items : List ListItem} {reads : List (String × Option Json)} (hreads : List.Forall₂ ReadsAs items reads)
    {all : List DynListItem} (hall : reads.mapM (readListed crates ty) = .ok all) {item : DynListItem}
    (hitem : item ∈ all) :
    ∃ sent, Service.encodeDynamic crates item.object ty = .ok sent := by
  obtain ⟨read, hread, hok⟩ := Outcome.exists_of_mem_results hall item hitem
  have hdocs : ∀ read ∈ reads, ∀ json ∈ read.2, Document json :=
    ((List.forall₂_and_left reads items).mp (hreads.flip.imp fun _ _ h => ⟨h.document, h⟩)).1
  rw [readListed] at hok
  cases hjson : read.2 with
  | none =>
      rw [hjson] at hok
      cases hok
  | some json =>
      rw [hjson] at hok
      obtain ⟨value, hvalue, rfl⟩ := Outcome.map_eq_ok.mp hok
      exact exists_sent hc ht hnum hn (hdocs read hread json hjson) (Outcome.mapError_eq_ok.mp hvalue)

end

/-- What the host is told of a list, by what its author lists. Each object that
is read can be sent. -/
inductive AnswersList (crates : Crates) (ty : Ty) (listing : Trace HandlerOp String (List ListItem))
    (respond : Except Diagnostics (List DynListItem) × CtxOutputs → List Service.ListEvent) :
    Option (List Service.ListEvent) → Prop
  | listed (items : List ListItem) (reads : List (String × Option Json)) : listing.ending = .returned items →
      List.Forall₂ ReadsAs items reads → (∀ all, reads.mapM (readListed crates ty) = .ok all → ∀ item ∈ all,
        ∃ sent, Service.encodeDynamic crates item.object ty = .ok sent) →
      AnswersList crates ty listing respond
        (some (respond (reads.mapM (readListed crates ty), intoOutputs (listing.events.map HandlerOp.spoken))))
  | unwritten (items : List ListItem) (e : String) : listing.ending = .returned items →
      items.mapM (fun item => stringify item.resource) = .error e →
      AnswersList crates ty listing respond (some (respond (.error (handlerErr "list" e), .empty)))
  | thrown (e : String) : listing.ending = .panicked e →
      AnswersList crates ty listing respond (some (respond (.error (handlerErr "list" e), .empty)))
  | pending : listing.ending = .pending → AnswersList crates ty listing respond none

/-- The service has the list resource that an author wrote. -/
structure HostsList (crates : Crates) (lib : Library) (js : JsText) (service : Plugin.ProviderService)
    (resource : ListResourceDef) (typeName : String) (schema : ListResourceSchema) : Prop where
  described : service.provider.schemas.listResourceSchema typeName = some schema
  handler : service.provider.handler .listResource typeName =
    some ((resource.toNative lib js typeName schema.objectType).erased crates .never)

section

variable {crates : Crates} {lib : Library} {js : JsText} {resource : ListResourceDef} {typeName : String}

def respondList (crates : Crates) (req : Service.ListRequest) (schema : ListResourceSchema)
    (result : Except Diagnostics (List DynListItem) × CtxOutputs) : List Service.ListEvent :=
  match result.1 with
  | .ok items => Service.respondListed crates req schema items result.2
  | .error diags => [{ diagnostic := Service.diagsWithWarnings diags result.2 }]

def Lists (crates : Crates) (ty : Ty) (json : Json) (res : Except Diagnostics (List DynListItem)) : Prop :=
  Document json ∧ res = listParsed crates ty json

theorem Answers.list (h : js.Reads crates) (hc : crates.Lawful) (ht : crates.ReadsTypes) {ty : Ty}
    (hn : ty.distinctNames = true) {query : Js} {ctx : HandlerCtx}
    {respond : Except Diagnostics (List DynListItem) × CtxOutputs → List Service.ListEvent}
    {response : Option (List Service.ListEvent)}
    (hanswers : Answers "list" (Lists crates ty) (resource.listFn lib typeName query ctx) respond response) :
    AnswersList crates ty (resource.listing lib typeName query ctx) respond response := by
  have hending : (resource.listFn lib typeName query ctx).ending =
      (resource.listing lib typeName query ctx).ending >>= fun items => .returned (.array (items.map ListItem.toJs)) :=
    Trace.ending_bind _ _
  have hevents : (resource.listFn lib typeName query ctx).events = (resource.listing lib typeName query ctx).events :=
    Trace.events_bind_pure _ _
  cases hanswers with
  | returned result w json res hresult hw hround hreads =>
      obtain ⟨hdoc, rfl⟩ := hreads
      rw [hending] at hresult
      obtain ⟨items, hitems, hresult⟩ := Ending.bind_eq_returned.mp hresult
      obtain rfl := Ending.returned.inj hresult
      cases htexts : items.mapM (fun item => stringify item.resource) with
      | error e =>
          have herror := stringify_items_error htexts
          cases herror.symm.trans hw
      | ok texts =>
          obtain ⟨w', hw', hparsed⟩ := exists_listParsed h ty htexts
          obtain rfl := Option.some.inj (Except.ok.inj (hw'.symm.trans hw))
          obtain ⟨reads, hall, hread⟩ := hparsed json hdoc hround
          rw [hread, hevents]
          exact .listed items reads hitems hall
            fun all hok item hitem => exists_sent_listed hc ht h.toCountsNumbers hn hall hok hitem
  | unwritten result e hresult hw =>
      rw [hending] at hresult
      obtain ⟨items, hitems, hresult⟩ := Ending.bind_eq_returned.mp hresult
      obtain rfl := Ending.returned.inj hresult
      refine .unwritten items e hitems ?_
      cases htexts : items.mapM (fun item => stringify item.resource) with
      | error e' =>
          have herror := stringify_items_error htexts
          exact congrArg Except.error (Except.error.inj (herror.symm.trans hw))
      | ok texts =>
          obtain ⟨w, hw', -⟩ := exists_listParsed h ty htexts
          cases hw'.symm.trans hw
  | thrown e hthrown =>
      rw [hending] at hthrown
      exact .thrown e (Ending.bind_returned_eq_panicked.mp hthrown)
  | pending hpending =>
      rw [hending] at hpending
      exact .pending (Ending.bind_returned_eq_pending.mp hpending)

/-- A list resource that is written in JavaScript is streamed as its author lists it. -/
theorem listResource_authored (h : Shares js crates) (hc : crates.Lawful) (ht : crates.ReadsTypes)
    {service : Plugin.ProviderService} {schema : ListResourceSchema}
    (hhosts : HostsList crates lib js service resource typeName schema) (hn : schema.objectType.distinctNames = true)
    (req : Service.ListRequest) (hreq : req.typeName = typeName) :
    (∀ e, Service.decodeDynamic crates req.config schema.config.ctyType = .error e →
      (service.listResource crates req).ending.toOption =
        some [{ diagnostic := Service.errorDiag "failed to decode list config" e.toString }]) ∧
      ∀ config, Service.decodeDynamic crates req.config schema.config.ctyType = .ok config → config.isFinite = true →
        ∃ query, Shows query (encodeJson crates config) ∧
          AnswersList crates schema.objectType
            (resource.listing lib typeName (reviveSets resource.config query) ⟨.undefined, false⟩)
            (respondList crates req schema) (service.listResource crates req).ending.toOption := by
  subst hreq
  have hrespond : service.listResource crates req = Plugin.ProviderService.runUnder crates
      (some schema.config.ctyType)
        (some ((resource.toNative lib js req.typeName schema.objectType).erased crates .never))
      req.config (Service.unknownListResource req.typeName) "failed to decode list config" "list resource"
      (fun diagnostics => [{ diagnostic := diagnostics }]) Plugin.DynListResource.list
      fun _ => respondList crates req schema := by
    rw [Plugin.ProviderService.listResource]
    simp only [hhosts.described, hhosts.handler]
    refine congrArg (Plugin.ProviderService.runUnder crates _ _ _ _ _ _ _ _) ?_
    funext _ result
    obtain ⟨res, outs⟩ := result
    cases res <;> rfl
  rw [hrespond]
  constructor
  · intro e he
    rw [Plugin.ProviderService.runUnder_of_error he]
    rfl
  · intro config hconfig hfinite
    rw [Plugin.ProviderService.runUnder_of_ok hconfig]
    have hread : ∀ value, Document value → ∃ json, json.rounded = value.rounded ∧
        Lists crates schema.objectType json (listItems crates schema.objectType (crates.toVec value)) := by
      intro value hdoc
      obtain ⟨json, hread, hjson, hround⟩ := h.fromSlice_toVec hdoc
      refine ⟨json, hround, hjson, ?_⟩
      rw [listItems, hread]
      rfl
    obtain ⟨query, hshows, hanswers⟩ := answers_callDocument h (some resource.config)
      (resource.listFn lib req.typeName) (document_encodeJson h.toHoldsNumbers hfinite) hread "list resource"
        (respondList crates req schema)
    exact ⟨query, hshows, hanswers.list h.toReads hc ht hn⟩

end

def notesDef : ListResourceDef where
  schema := noteDef.schema
  config := .object {} .empty
  list _ _ := ⟨[.progress "listing"], .returned [⟨"first", .object (.ofMembers [("title", .string "a")])⟩]⟩
  validate := none

def notesSchema : ListResourceSchema := ⟨"note", ⟨[], []⟩, ⟨[⟨"title", .string⟩]⟩, noteTy⟩

def notesService : Plugin.ProviderService := .new {
  block := none
  schema := fun
    | .listResource => [("note", ⟨notesSchema.config, notesSchema.identity, notesSchema.objectType⟩)]
    | _ => []
  eager := Plugin.HandlerMap.empty.insert .listResource "note"
    ((notesDef.toNative plainLibrary JsText.real "note" noteTy).erased Crates.real .never)
  configureFn := none
  configured := none
  dynConfigure := none
  validateConfig := none }

theorem hosts_notesService :
    HostsList Crates.real plainLibrary JsText.real notesService notesDef "note" notesSchema := ⟨rfl, rfl⟩

theorem listResource_authored_notes : ∃ query, Shows query (encodeJson Crates.real .null) ∧
    AnswersList Crates.real noteTy
      (notesDef.listing plainLibrary "note" (reviveSets notesDef.config query) ⟨.undefined, false⟩)
      (respondList Crates.real ⟨"note", none, true, 10⟩ notesSchema)
      (notesService.listResource Crates.real ⟨"note", none, true, 10⟩).ending.toOption := by
  obtain ⟨-, hlisted⟩ := listResource_authored real_sharesEnvelopes Crates.real_lawful Crates.real_readsTypes
    hosts_notesService rfl ⟨"note", none, true, 10⟩ rfl
  exact hlisted .null rfl rfl

def answerPlan (dryRun : Ending String Unit) : Option Plugin.DiagnosticsResponse :=
  match dryRun with
  | .returned _ => some ⟨[]⟩
  | .panicked message => some ⟨Service.errorDiag message ""⟩
  | .pending => none

/-- What the host is told of a run: its progress in order, then its end. A run
that throws has made no progress. -/
def answerInvoke (run : Trace HandlerOp String Unit) : Option (List Plugin.InvokeEvent) :=
  match run.ending with
  | .returned _ => some ((drain run.events).progress.map .progress ++
      [.completed (Service.pbDiagnostics ((drain run.events).warnings.map Diagnostic.spoken))])
  | .panicked e => some [.completed (Service.pbDiagnostics (handlerErr "action invoke" e))]
  | .pending => none

/-- The service has the action that an author wrote. -/
structure HostsAction (crates : Crates) (js : JsText) (service : Plugin.ProviderService) (action : ActionDef)
    (typeName : String) (ty : Ty) : Prop where
  cty : service.provider.actionCty typeName = some ty
  handler : service.provider.handler .action typeName = some ((action.toNative js).erased crates .never)

section

variable {crates : Crates} {js : JsText} {action : ActionDef}

def ActionDef.dryRun (action : ActionDef) (config : Js) : Ending String Unit :=
  action.plan.elim (.returned ()) fun plan => plan config

def planned (dryRun : Ending String Unit) : Finish Unit :=
  match dryRun with
  | .returned _ => .returned (.ok ())
  | .panicked message => .returned (.error [Diag.error message ""])
  | .pending => .pending

theorem plan_toNative (h : js.Reads crates) (hempty : crates.fromSlice (Utf8.encode "[]") = .ok (.array []))
    {config : Value} {v : Js} (hparse : js.parse (valueToJson crates config) = .ok v) (privateIn : Bytes) :
    ((action.toNative js).erased crates .never).plan config privateIn =
      ⟨[], planned (action.dryRun (reviveSets action.schema v))⟩ := by
  have hnothing : parseDiagnostics crates (Utf8.encode "[]") = [] := by
    rw [parseDiagnostics, hempty]
    rfl
  have hclean : answered (.returned (.ok (Utf8.encode "[]"))) (fun out =>
      (⟨[], .returned (planOutcome (parseDiagnostics crates out))⟩ : Call Unit)) = ⟨[], .returned (.ok ())⟩ := by
    rw [answered, hnothing]
    rfl
  change answered (callHandler crates (action.planFn js) config "action plan") _ = _
  rw [ActionDef.dryRun]
  cases hplan : action.plan with
  | none =>
      have hcall : action.planFn js (valueToJson crates config) = .returned (Utf8.encode "[]") := by
        rw [ActionDef.planFn, hplan]
      rw [callHandler, hcall]
      exact hclean
  | some plan =>
      change _ = (⟨[], planned (plan (reviveSets action.schema v))⟩ : Call Unit)
      rw [callHandler, ActionDef.planFn, hplan, hparse]
      simp only [ofExcept, Ending.returned_bind]
      cases plan (reviveSets action.schema v) with
      | returned _ => exact hclean
      | pending => rfl
      | panicked message =>
          obtain ⟨out, hout, hreported⟩ := exists_reported h [⟨some Severity.error, message, none, none⟩]
          rw [List.map_singleton] at hout
          simp only [hout]
          rw [answered, hreported]
          rfl

theorem toOption_invoke {run : Trace HandlerOp String Unit} {v : Js} {ctx : HandlerCtx}
    (hrun : action.invoke v ctx = run) {op : String} {handler : Handler Bytes}
    (h : Relays crates "action invoke" (action.invokeFn v ctx) (handler [])) :
    ((fun result => result.2.progress.map Plugin.InvokeEvent.progress ++
        [.completed (Plugin.ProviderService.outcomeDiagnostics result)]) <$>
      Plugin.run op [] fun privateIn => (handler privateIn).andThen fun _ => .ok ()).ending.toOption =
      answerInvoke run := by
  have hending : (action.invokeFn v ctx).ending = run.ending >>= fun _ => .returned .null := by
    rw [← hrun]
    exact Trace.ending_bind _ _
  have hevents : (action.invokeFn v ctx).events = run.events := by
    rw [← hrun]
    exact Trace.events_bind_pure _ _
  rw [Plugin.toOption_run, answerInvoke]
  cases hend : run.ending with
  | returned _ =>
      rw [hend] at hending
      obtain ⟨hops, value, hfinish, -⟩ := h.returned .null .null hending rfl
      have hcall : ((handler []).andThen fun _ => (.ok () : Except Diagnostics Unit)).finish = .returned (.ok ()) := by
        rw [Call.andThen, hfinish]
        rfl
      rw [hcall, Call.andThen]
      simp only [hops, hevents, outputs_spoken]
      rfl
  | panicked e =>
      rw [hend] at hending
      rw [h.thrown e hending]
      have hwarnings : Service.diagsWithWarnings (handlerErr "action invoke" e) .empty =
          Service.pbDiagnostics (handlerErr "action invoke" e) := congrArg Service.pbDiagnostics (List.append_nil _)
      change some [Plugin.InvokeEvent.completed (Service.diagsWithWarnings _ .empty)] = _
      rw [hwarnings]
  | pending =>
      rw [hend] at hending
      rw [h.pending hending]
      rfl

end

def beginDef : ActionDef where
  schema := .object {} .empty
  plan := some fun _ => .panicked "not now"
  invoke _ _ := ⟨[.progress "begun"], .returned ()⟩
  validate := none

def beginService : Plugin.ProviderService := .new {
  block := none
  schema := fun
    | .action => [("begin", (⟨[], []⟩ : Block))]
    | _ => []
  eager := Plugin.HandlerMap.empty.insert .action "begin" ((beginDef.toNative JsText.real).erased Crates.real .never)
  configureFn := none
  configured := none
  dynConfigure := none
  validateConfig := none }

theorem hosts_beginService : HostsAction Crates.real JsText.real beginService beginDef "begin" (.object []) :=
    ⟨rfl, rfl⟩

end Node

end TofuSdk
