import TofuSdk.NodeContext
import TofuSdk.Rounding
import TofuSdk.Ephemeral
import TofuSdk.JsPaths

namespace TofuSdk

def Finish.andThen {α β : Type} (finish : Finish α) (read : α → Except Diagnostics β) : Finish β :=
  match finish with
  | .returned result => .returned (result >>= read)
  | .panicked payload => .panicked payload
  | .pending => .pending

def Call.andThen {α β : Type} (call : Call α) (read : α → Except Diagnostics β) : Call β :=
  ⟨call.ops, call.finish.andThen read⟩

/-- JSON has a text for every number of the value. -/
def Value.isFinite (v : Value) : Bool := v.everyNumber Number.isFinite

namespace Node

section

variable (crates : Crates) (stop : Stop)

def callHandler (handler : RawHandler) (input : Value) (op : String) : Plugin.Authored (Except Diagnostics Bytes) :=
  match handler (valueToJson crates input) with
  | .returned out => .returned (.ok out)
  | .panicked e => .returned (.error (handlerErr op e))
  | .pending => .pending

def callDocument {α : Type} (handler : RawHandler) (input : Json) (op : String)
    (read : Bytes → Except Diagnostics α) : Handler α :=
  fun privateIn => (callWithCtx crates stop handler (crates.toVec input) op privateIn).andThen read

def readJson (ty : Ty) (op : String) (out : Bytes) : Except Diagnostics Value :=
  (jsonToValue crates out ty).mapError (handlerErr op)

/-- A null means that the resource no longer exists. -/
def readRefreshed (ty : Ty) (op : String) (out : Bytes) : Except Diagnostics (Option Value) :=
  if isNullText out then .ok none else some <$> readJson crates ty op out

def reportedBy (result : Except Diagnostics Bytes) : Diagnostics :=
  match result with
  | .ok out => parseDiagnostics crates out
  | .error diags => diags

def validateWith (handler : RawHandler) (op : String) : Plugin.Validator := fun config _ =>
  ⟨[], reportedBy crates <$> callHandler crates handler config op⟩

structure JsResource where
  ty : Ty
  create : RawHandler
  read : RawHandler
  update : RawHandler
  delete : RawHandler
  import_ : RawHandler
  upgrade : RawHandler
  validate : RawHandler
  modifyPlan : RawHandler
  moveState : RawHandler

def pairInput (first : String) (v : Value) (second : String) (w : Value) : Value :=
  .object (OrdMap.ofList [(first, v), (second, w)])

def JsResource.erased (resource : JsResource) : Plugin.DynResource where
  create planned := callDocument crates stop resource.create (encodeJson crates planned) "create"
    (readJson crates resource.ty "create")
  read current := callDocument crates stop resource.read (encodeJson crates current) "read"
    (readRefreshed crates resource.ty "read")
  update planned prior := callDocument crates stop resource.update
    (encodeJson crates (pairInput "planned" planned "prior" prior)) "update" (readJson crates resource.ty "update")
  delete prior := callDocument crates stop resource.delete (encodeJson crates prior) "delete" fun _ => .ok ()
  import_ id := callDocument crates stop resource.import_ (.string id) "import" (readJson crates resource.ty "import")
  upgrade fromVersion prior := callDocument crates stop resource.upgrade
    (encodeJson crates (pairInput "fromVersion" (.number (.i64 (Int64.ofInt fromVersion))) "priorState" prior))
    "upgrade"
    (readJson crates resource.ty "upgrade")
  validate := validateWith crates resource.validate "validate"
  modifyPlan prior proposed := fun _ => ⟨[], Plugin.Finish.ofEnding <|
    callHandler crates resource.modifyPlan (pairInput "prior" prior "proposed" proposed) "modify_plan" >>= fun result =>
      .returned (result >>= fun out => (parsePlanModifications crates out).mapError (handlerErr "modify_plan"))⟩
  moveState sourceTypeName sourceState := callDocument crates stop resource.moveState
    (encodeJson crates (pairInput "sourceTypeName" (.string sourceTypeName) "sourceState" sourceState)) "move_state"
    (readJson crates resource.ty "move_state")
  semanticEquality := .returned ⟨.empty, .empty⟩

end

/-- What the adapters use of Zod and of JavaScript's own: how a schema parses a
value, how a value stands in a text, and what Rust shows of an error. -/
structure Library where
  safeParse : Zod → Js → Except String Js
  toText : Js → String
  shown : String → String

namespace Library

variable (lib : Library)

def throw {ε α : Type} (message : String) : Trace ε String α := ⟨[], .panicked (lib.shown message)⟩

def validateOut (schema : Zod) (value : Js) (ctx : String) : Script :=
  match lib.safeParse schema value with
  | .ok data => pure data
  | .error message => lib.throw (ctx ++ " produced an invalid value: " ++ message)

end Library

/-- A step of a path in JavaScript. -/
inductive PathKey
  | name (s : String)
  | index (x : F64)

def PathKey.toJs : PathKey → Js
  | .name s => .string s
  | .index x => .primitive (.number x)

structure PlanModificationResult where
  replace : Option (List (List PathKey)) := none
  unknown : Option (List (List PathKey)) := none
  keepPrior : Option (List (List PathKey)) := none

/-- A resource as its author writes it. -/
structure ResourceDef where
  schema : Zod
  create (planned : Js) : HandlerCtx → Script
  read : Option (Js → HandlerCtx → Script)
  update : Option (Js → Js → HandlerCtx → Script)
  delete : Option (Js → HandlerCtx → Script)
  import_ : Option (Js → HandlerCtx → Script)
  upgrade : Option (Js → Js → HandlerCtx → Script)
  validate : Option (Js → Ending String (Option (List Diagnostic)))
  modifyPlan : Option (Js → Js → Ending String (Option PlanModificationResult))
  moveState : Option (Js → Js → HandlerCtx → Script)

def readProp (v : Js) (name : String) : Trace HandlerOp String Js := ⟨[], ofExcept (readProperty v name)⟩

def jsonText (js : JsText) (v : Js) : Ending String (Option Bytes) := ofExcept (Option.map js.print <$> stringify v)

def validateAdapter (js : JsText) (validate : Option (Js → Ending String (Option (List Diagnostic))))
    (schema : Option Zod) : RawHandler := fun input =>
  match validate with
  | none => .returned (Utf8.encode "[]")
  | some validate => do
      let parsed ← ofExcept (js.parse input)
      let diagnostics ← validate (schema.elim parsed (reviveSets · parsed))
      printed js (.array ((diagnostics.getD []).map Diagnostic.toJs))

namespace ResourceDef

variable (lib : Library) (resource : ResourceDef) (typeName : String)

def createFn (planned : Js) (ctx : HandlerCtx) : Script := do
  let state ← resource.create planned ctx
  lib.validateOut resource.schema state ("resource " ++ typeName ++ " create")

def readFn (current : Js) (ctx : HandlerCtx) : Script :=
  match resource.read with
  | none => pure current
  | some read => do
      let refreshed ← read current ctx
      if refreshed.isNull then pure .null
      else lib.validateOut resource.schema refreshed ("resource " ++ typeName ++ " read")

def updateFn (raw : Js) (ctx : HandlerCtx) : Script :=
  match resource.update with
  | none => lib.throw ("resource \"" ++ typeName ++ "\" does not support in-place update")
  | some update => do
      let planned ← readProp raw "planned"
      let prior ← readProp raw "prior"
      let state ← update (reviveSets resource.schema planned) (reviveSets resource.schema prior) ctx
      lib.validateOut resource.schema state ("resource " ++ typeName ++ " update")

def deleteFn (prior : Js) (ctx : HandlerCtx) : Script :=
  match resource.delete with
  | none => pure .null
  | some delete => do
      let _ ← delete prior ctx
      pure .null

def importFn (id : Js) (ctx : HandlerCtx) : Script :=
  match resource.import_ with
  | none => lib.throw ("resource \"" ++ typeName ++ "\" does not support import")
  | some import_ => do
      let state ← import_ id ctx
      lib.validateOut resource.schema state ("resource " ++ typeName ++ " import")

def upgradeFn (raw : Js) (ctx : HandlerCtx) : Script :=
  match resource.upgrade with
  | none => do
      let fromVersion ← readProp raw "fromVersion"
      lib.throw ("resource \"" ++ typeName ++ "\" has no state upgrade (stored version " ++
        lib.toText fromVersion ++ ")")
  | some upgrade => do
      let fromVersion ← readProp raw "fromVersion"
      let priorState ← readProp raw "priorState"
      let state ← upgrade fromVersion priorState ctx
      lib.validateOut resource.schema state ("resource " ++ typeName ++ " upgrade")

def moveStateFn (raw : Js) (ctx : HandlerCtx) : Script := do
  let sourceTypeName ← readProp raw "sourceTypeName"
  let sourceState ← readProp raw "sourceState"
  match resource.moveState with
  | none =>
      lib.throw ("resource \"" ++ typeName ++ "\" does not support moving state from \"" ++ lib.toText sourceTypeName ++
        "\"")
  | some moveState => do
      let state ← moveState sourceTypeName sourceState ctx
      lib.validateOut resource.schema state ("resource " ++ typeName ++ " moveState")

end ResourceDef

def transformFields (schema : Zod) : List (String × Zod) :=
  schema.fields.filter fun field => match field.2.peel.core with
    | .pipe _ _ _ _ | .leaf _ .transform | .leaf _ .codec => true
    | _ => false

def isTruthy : Js → Bool
  | .primitive .undefined | .primitive .null => false
  | .primitive (.bool b) => b
  | .primitive (.number x) => !(x.isNaN || x.value == 0 && x.isFinite)
  | .primitive (.bigint n) => n != 0
  | .primitive (.string s) => s != ""
  | _ => true

def PlanModificationResult.properties (mods : PlanModificationResult) : List (String × Js) :=
  let paths := fun (l : Option (List (List PathKey))) =>
    Js.array ((l.getD []).map fun path => .array (path.map PathKey.toJs))
  [("replace", paths mods.replace), ("unknown", paths mods.unknown), ("keepPrior", paths mods.keepPrior)]

section

variable (lib : Library) (js : JsText)

def keepsQuotient (prior proposed : Js) (field : String × Zod) : Ending String Bool :=
  if (getProperty prior field.1).isNullish then pure false
  else match lib.safeParse field.2 (getProperty prior field.1),
      lib.safeParse field.2 (getProperty proposed field.1) with
    | .ok cp, .ok cq => do
        let text ← jsonText js cp
        let text' ← jsonText js cq
        pure (text == text')
    | _, _ => pure false

namespace ResourceDef

variable (resource : ResourceDef) (typeName : String)

def updating (planned prior : Js) (ctx : HandlerCtx) : Script :=
  match resource.update with
  | none => lib.throw ("resource \"" ++ typeName ++ "\" does not support in-place update")
  | some update => do
      let state ← update planned prior ctx
      lib.validateOut resource.schema state ("resource " ++ typeName ++ " update")

def upgrading (fromVersion priorState : Js) (ctx : HandlerCtx) : Script :=
  match resource.upgrade with
  | none =>
      lib.throw ("resource \"" ++ typeName ++ "\" has no state upgrade (stored version " ++
        lib.toText fromVersion ++ ")")
  | some upgrade => do
      let state ← upgrade fromVersion priorState ctx
      lib.validateOut resource.schema state ("resource " ++ typeName ++ " upgrade")

def moving (sourceTypeName sourceState : Js) (ctx : HandlerCtx) : Script :=
  match resource.moveState with
  | none =>
      lib.throw ("resource \"" ++ typeName ++ "\" does not support moving state from \"" ++ lib.toText sourceTypeName ++
        "\"")
  | some moveState => do
      let state ← moveState sourceTypeName sourceState ctx
      lib.validateOut resource.schema state ("resource " ++ typeName ++ " moveState")

def modifyPlanFn : RawHandler := fun input => do
  let parsed ← ofExcept (js.parse input)
  let prior ← ofExcept (readProperty parsed "prior")
  let proposed ← ofExcept (readProperty parsed "proposed")
  let mods ← match resource.modifyPlan with
    | none => pure none
    | some hook => hook prior proposed
  let mods := mods.getD {}
  let kept ← if isTruthy prior && isTruthy proposed then
      (transformFields resource.schema).filterM (keepsQuotient lib js prior proposed)
    else pure []
  let keepPrior := mods.keepPrior.getD [] ++ kept.map fun field => [PathKey.name field.1]
  printed js (.object (.ofMembers { mods with keepPrior := some keepPrior }.properties))

def toNative (ty : Ty) : JsResource where
  ty := ty
  create := ctxAdapt js (some resource.schema) (resource.createFn lib typeName)
  read := ctxAdapt js (some resource.schema) (resource.readFn lib typeName)
  update := ctxAdapt js none (resource.updateFn lib typeName)
  delete := ctxAdapt js (some resource.schema) resource.deleteFn
  import_ := ctxAdapt js none (resource.importFn lib typeName)
  upgrade := ctxAdapt js none (resource.upgradeFn lib typeName)
  validate := validateAdapter js resource.validate (some resource.schema)
  modifyPlan := resource.modifyPlanFn lib js
  moveState := ctxAdapt js none (resource.moveStateFn lib typeName)

end ResourceDef

end

/-- A value that JavaScript has of a document. -/
structure Shows (v : Js) (json : Json) : Prop where
  isJson : v.isJson = true
  toJson : v.toJson = json.rounded

/-- A call comes to what is read of the script's result, as far as it is looked
at, with what the script did to its context; without a result it brings back
nothing of the context. -/
structure Settles {α β : Type} (op : String) (look : α → β) (reads : Json → Except Diagnostics α) (run : Script)
    (call : Call α) : Prop where
  returned : ∀ result w, run.ending = .returned result → stringify (orElse result .null) = .ok (some w) →
    intoOutputs call.ops = intoOutputs (run.events.map HandlerOp.spoken) ∧
      ∃ res, call.finish = .returned res ∧ look <$> res = look <$> reads w.toJson
  unwritten : ∀ result e, run.ending = .returned result → stringify (orElse result .null) = .error e →
    call = ⟨[], .returned (.error (handlerErr op e))⟩
  thrown : ∀ e, run.ending = .panicked e → call = ⟨[], .returned (.error (handlerErr op e))⟩
  pending : run.ending = .pending → call = ⟨[], .pending⟩

section

variable {crates : Crates} {js : JsText} {lib : Library} {op : String} {run : Script}

theorem Relays.settles {call : Call Bytes} (h : Relays crates op run call) {α β : Type} {look : α → β}
    {reads : Json → Except Diagnostics α} {read : Bytes → Except Diagnostics α}
    (hread : ∀ value, Document value → look <$> read (crates.toVec value) = look <$> reads value.rounded) :
    Settles op look reads run (call.andThen read) where
  returned result w hresult hw := by
    obtain ⟨hops, value, hfinish, hdoc, hround⟩ := h.returned result w hresult hw
    refine ⟨hops, read (crates.toVec value), ?_, ?_⟩
    · rw [Call.andThen, hfinish]
      rfl
    · rw [hread value hdoc, hround]
  unwritten result e hresult he := by
    rw [h.unwritten result e hresult he]
    rfl
  thrown e he := by
    rw [h.thrown e he]
    rfl
  pending hpending := by
    rw [h.pending hpending]
    rfl

def readDocument (crates : Crates) (ty : Ty) (op : String) (json : Json) : Except Diagnostics Value :=
  (decodeJson crates json ty).mapError fun e => handlerErr op e.toString

theorem rounded_readDocument (hnum : crates.CountsNumbers) (ty : Ty) (op : String) (json : Json) :
    Value.rounded <$> readDocument crates ty op json.rounded = Value.rounded <$> readDocument crates ty op json := by
  have hmap : ∀ x : Except CodecError Value, Value.rounded <$> x.mapError (fun e => handlerErr op e.toString) =
      (Value.rounded <$> x).mapError fun e => handlerErr op e.toString := by
    intro x
    cases x <;> rfl
  rw [readDocument, readDocument, hmap, hmap, decodeJson_rounded hnum]

theorem readJson_of_fromSlice {out : Bytes} {json : Json} (h : crates.fromSlice out = .ok json) (ty : Ty)
    (op : String) :
    readJson crates ty op out = readDocument crates ty op json := by
  rw [readJson, jsonToValue, h, readDocument, Outcome.ok_bind]
  cases decodeJson crates json ty <;> rfl

theorem rounded_readJson (h : js.Reads crates) {value : Json} (hdoc : Document value) (ty : Ty) (op : String) :
    Value.rounded <$> readJson crates ty op (crates.toVec value) =
      Value.rounded <$> readDocument crates ty op value.rounded := by
  obtain ⟨json, hread, -, hround⟩ := h.fromSlice_toVec hdoc
  rw [← hround, rounded_readDocument h.toCountsNumbers, readJson_of_fromSlice hread]

def readRefreshedDocument (crates : Crates) (ty : Ty) (op : String) (json : Json) : Except Diagnostics (Option Value) :=
  if json.isNull then .ok none else some <$> readDocument crates ty op json

theorem rounded_readRefreshed (h : Shares js crates) {value : Json} (hdoc : Document value) (ty : Ty) (op : String) :
    Option.map Value.rounded <$> readRefreshed crates ty op (crates.toVec value) =
      Option.map Value.rounded <$> readRefreshedDocument crates ty op value.rounded := by
  have hsome : ∀ x : Except Diagnostics Value, Option.map Value.rounded <$> some <$> x = some <$> Value.rounded <$> x :=
    Outcome.map_comm fun _ => rfl
  have hnull : isNullText (crates.toVec value) = value.rounded.isNull := by
    rw [Json.isNull_rounded, Bool.eq_iff_iff, h.toVec_null hdoc]
    cases value <;> simp [Json.isNull]
  rw [readRefreshed, readRefreshedDocument, hnull]
  split_ifs
  · rfl
  · rw [hsome, hsome, rounded_readJson h.toReads hdoc]

/-- The calls of a lifecycle come to what the functions of its author come to,
on the values that JavaScript has of the arguments. -/
structure Adapts (crates : Crates) (lib : Library) (resource : ResourceDef) (typeName : String) (ty : Ty)
    (privateIn : Bytes)
    (handler : Plugin.DynResource) : Prop where
  create : ∀ planned : Value, planned.isFinite = true → ∃ v, Shows v (encodeJson crates planned) ∧
    Settles "create" Value.rounded (readDocument crates ty "create")
      (resource.createFn lib typeName (reviveSets resource.schema v) ⟨seen privateIn, false⟩)
      (handler.create planned privateIn)
  read : ∀ current : Value, current.isFinite = true → ∃ v, Shows v (encodeJson crates current) ∧
    Settles "read" (Option.map Value.rounded) (readRefreshedDocument crates ty "read")
      (resource.readFn lib typeName (reviveSets resource.schema v) ⟨seen privateIn, false⟩)
      (handler.read current privateIn)
  update : ∀ planned prior : Value, planned.isFinite = true → prior.isFinite = true → ∃ v w,
    Shows v (encodeJson crates planned) ∧ Shows w (encodeJson crates prior) ∧
    Settles "update" Value.rounded (readDocument crates ty "update")
      (resource.updating lib typeName (reviveSets resource.schema v) (reviveSets resource.schema w)
        ⟨seen privateIn, false⟩)
      (handler.update planned prior privateIn)
  delete : ∀ prior : Value, prior.isFinite = true → ∃ v, Shows v (encodeJson crates prior) ∧
    Settles "delete" id (fun _ => .ok ()) (resource.deleteFn (reviveSets resource.schema v) ⟨seen privateIn, false⟩)
      (handler.delete prior privateIn)
  import_ : ∀ id, Settles "import" Value.rounded (readDocument crates ty "import")
    (resource.importFn lib typeName (.string id) ⟨seen privateIn, false⟩) (handler.import_ id privateIn)
  upgrade : ∀ fromVersion (prior : Value), prior.isFinite = true → ∃ v w,
    Shows v (encodeJson crates (.number (.i64 (Int64.ofInt fromVersion)))) ∧
    Shows w (encodeJson crates prior) ∧
    Settles "upgrade" Value.rounded (readDocument crates ty "upgrade")
      (resource.upgrading lib typeName v w ⟨seen privateIn, false⟩) (handler.upgrade fromVersion prior privateIn)
  moveState : ∀ sourceTypeName (sourceState : Value), sourceState.isFinite = true → ∃ w,
    Shows w (encodeJson crates sourceState) ∧
    Settles "move_state" Value.rounded (readDocument crates ty "move_state")
      (resource.moving lib typeName (.string sourceTypeName) w ⟨seen privateIn, false⟩)
      (handler.moveState sourceTypeName sourceState privateIn)

theorem readProp_bind {α : Type} {raw v : Js} {name : String} (h : readProperty raw name = .ok v)
    (next : Js → Trace HandlerOp String α) : readProp raw name >>= next = next v := by
  rw [readProp, h]
  rfl

theorem exists_pair {raw : Js} {first second : String} {v w : Value} (hne : first ≠ second)
    (h : Shows raw (encodeJson crates (pairInput first v second w))) :
    ∃ x y, readProperty raw first = .ok x ∧ readProperty raw second = .ok y ∧ Shows x (encodeJson crates v) ∧
      Shows y (encodeJson crates w) := by
  have hobject : encodeJson crates (pairInput first v second w) =
      .object (OrdMap.ofList [(first, encodeJson crates v), (second, encodeJson crates w)]) := by
    rw [pairInput, encodeJson_object, OrdMap.map_ofList]
    rfl
  obtain ⟨hjson, hround⟩ := h
  rw [hobject] at hround
  obtain ⟨own, rfl, hown⟩ := Js.exists_properties hjson hround
  have hproperty : ∀ {k json}, (OrdMap.ofList [(first, encodeJson crates v), (second, encodeJson crates w)]).get?
      k = some json →
      ∃ x, readProperty (.object own) k = .ok x ∧ Shows x json := by
    intro k json hk
    have hget := hown k
    rw [hk, Option.map_some, Option.map_eq_some_iff] at hget
    obtain ⟨x, hx, hxround⟩ := hget
    refine ⟨x, ?_, Js.fieldsJson_iff.mp hjson (k, x) (Entries.get?_eq_some.mp hx), hxround⟩
    rw [readProperty, getProperty, hx]
    rfl
  have hfirst : (OrdMap.ofList [(first, encodeJson crates v), (second, encodeJson crates w)]).get? first =
      some (encodeJson crates v) := by
    simp [OrdMap.get?_ofList, hne.symm]
  have hsecond : (OrdMap.ofList [(first, encodeJson crates v), (second, encodeJson crates w)]).get? second =
      some (encodeJson crates w) := by
    simp [OrdMap.get?_ofList]
  obtain ⟨x, hx, hxshows⟩ := hproperty hfirst
  obtain ⟨y, hy, hyshows⟩ := hproperty hsecond
  exact ⟨x, y, hx, hy, hxshows, hyshows⟩

theorem document_pairInput (hholds : crates.HoldsNumbers) (first second : String) {v w : Value}
    (hv : v.isFinite = true) (hw : w.isFinite = true) : Document (encodeJson crates (pairInput first v second w)) := by
  refine document_encodeJson hholds ?_
  rw [Value.isFinite, ValueOf.everyNumber] at hv hw
  rw [pairInput, ValueOf.everyNumber, ValueOf.everywhere_object]
  refine ⟨rfl, fun k x hx => ?_⟩
  have hmem := OrdMap.mem_of_get?_ofList hx
  simp only [List.mem_cons, List.not_mem_nil, or_false, Prod.mk.injEq] at hmem
  obtain ⟨-, rfl⟩ | ⟨-, rfl⟩ := hmem
  · exact hv
  · exact hw

theorem settles_callDocument (h : Shares js crates) {α β : Type} {look : α → β} {reads : Json → Except Diagnostics α}
    {read : Bytes → Except Diagnostics α} (reviveSchema : Option Zod) (fn : Js → HandlerCtx → Script) {input : Json}
    (hdoc : Document input) (privateIn : Bytes)
    (hread : ∀ value, Document value → look <$> read (crates.toVec value) = look <$> reads value.rounded) :
    ∃ v, Shows v input ∧
      Settles op look reads (fn (reviveSchema.elim v (reviveSets · v)) ⟨seen privateIn, false⟩)
        (callDocument crates .never (ctxAdapt js reviveSchema fn) input op read privateIn) := by
  obtain ⟨v, hjson, hround, hrelays⟩ := relays_callWithCtx h reviveSchema fn hdoc op privateIn
  exact ⟨v, ⟨hjson, hround⟩, hrelays.settles hread⟩

/-- A resource that is written in JavaScript is served as its author wrote it. -/
theorem adapts_toNative (h : Shares js crates) (lib : Library) (resource : ResourceDef) (typeName : String) (ty : Ty)
    (privateIn : Bytes) : Adapts crates lib resource typeName ty privateIn
      ((resource.toNative lib js typeName ty).erased crates .never) where
  create planned hplanned := settles_callDocument h (some resource.schema) _
    (document_encodeJson h.toHoldsNumbers hplanned) privateIn
    fun _ hdoc => rounded_readJson h.toReads hdoc ty "create"
  read current hcurrent := settles_callDocument h (some resource.schema) _
    (document_encodeJson h.toHoldsNumbers hcurrent) privateIn
    fun _ hdoc => rounded_readRefreshed h hdoc ty "read"
  delete prior hprior := settles_callDocument h (some resource.schema) _
    (document_encodeJson h.toHoldsNumbers hprior) privateIn fun _ _ => rfl
  update planned prior hplanned hprior := by
    obtain ⟨raw, hraw, hsettles⟩ := settles_callDocument h none (resource.updateFn lib typeName)
      (document_pairInput h.toHoldsNumbers "planned" "prior" hplanned hprior) privateIn
      fun _ hdoc => rounded_readJson h.toReads hdoc ty "update"
    obtain ⟨v, w, hv, hw, hvshows, hwshows⟩ := exists_pair (by decide) hraw
    refine ⟨v, w, hvshows, hwshows, ?_⟩
    have hfn : resource.updateFn lib typeName raw ⟨seen privateIn, false⟩ = resource.updating lib typeName
        (reviveSets resource.schema v) (reviveSets resource.schema w) ⟨seen privateIn, false⟩ := by
      rw [ResourceDef.updateFn, ResourceDef.updating]
      cases resource.update with
      | none => rfl
      | some update => simp only [readProp_bind hv, readProp_bind hw]
    exact hfn ▸ hsettles
  import_ id := by
    obtain ⟨v, hv, hsettles⟩ := settles_callDocument h none (resource.importFn lib typeName) (.string id) privateIn
      fun _ hdoc => rounded_readJson h.toReads hdoc ty "import"
    exact eq_of_toJson hv.isJson hv.toJson ▸ hsettles
  upgrade fromVersion prior hprior := by
    have hversion : Value.isFinite (.number (.i64 (Int64.ofInt fromVersion))) = true := rfl
    obtain ⟨raw, hraw, hsettles⟩ := settles_callDocument h none (resource.upgradeFn lib typeName)
      (document_pairInput h.toHoldsNumbers "fromVersion" "priorState" hversion hprior) privateIn
      fun _ hdoc => rounded_readJson h.toReads hdoc ty "upgrade"
    obtain ⟨v, w, hv, hw, hvshows, hwshows⟩ := exists_pair (by decide) hraw
    refine ⟨v, w, hvshows, hwshows, ?_⟩
    have hfn : resource.upgradeFn lib typeName raw ⟨seen privateIn, false⟩ =
        resource.upgrading lib typeName v w ⟨seen privateIn, false⟩ := by
      rw [ResourceDef.upgradeFn, ResourceDef.upgrading]
      cases resource.upgrade with
      | none => simp only [readProp_bind hv]
      | some upgrade => simp only [readProp_bind hv, readProp_bind hw]
    exact hfn ▸ hsettles
  moveState sourceTypeName sourceState hsource := by
    have hname : Value.isFinite (.string sourceTypeName) = true := rfl
    obtain ⟨raw, hraw, hsettles⟩ := settles_callDocument h none (resource.moveStateFn lib typeName)
      (document_pairInput h.toHoldsNumbers "sourceTypeName" "sourceState" hname hsource) privateIn
      fun _ hdoc => rounded_readJson h.toReads hdoc ty "move_state"
    obtain ⟨v, w, hv, hw, hvshows, hwshows⟩ := exists_pair (by decide) hraw
    refine ⟨w, hwshows, ?_⟩
    obtain rfl := eq_of_toJson hvshows.isJson hvshows.toJson
    have hfn : resource.moveStateFn lib typeName raw ⟨seen privateIn, false⟩ =
        resource.moving lib typeName (.string sourceTypeName) w ⟨seen privateIn, false⟩ := by
      rw [ResourceDef.moveStateFn, ResourceDef.moving]
      simp only [readProp_bind hv, readProp_bind hw]
    exact hfn ▸ hsettles

end

def plainLibrary : Library := ⟨fun _ v => .ok v, fun _ => "", id⟩

def noteDef : ResourceDef where
  schema := .object {} (.ofList [("title", .leaf {} .string)] (by decide))
  create planned _ := ⟨[.setPrivate "note"], .returned planned⟩
  read := none
  update := none
  delete := none
  import_ := none
  upgrade := none
  validate := none
  modifyPlan := some fun _ _ => .returned (some { replace := some [[.name "title"]] })
  moveState := none

def noteTy : Ty := .object [⟨"title", .string, false⟩]

theorem adapts_toNative_note : Adapts Crates.real plainLibrary noteDef "note" noteTy []
    ((noteDef.toNative plainLibrary JsText.real "note" noteTy).erased Crates.real .never) :=
  adapts_toNative real_sharesEnvelopes plainLibrary noteDef "note" noteTy []

end Node

end TofuSdk
