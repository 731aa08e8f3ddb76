import TofuSdk.JsText
import TofuSdk.NodeStore
import TofuSdk.Failure
import TofuSdk.Trace

namespace TofuSdk

namespace Node

structure Diagnostic where
  severity : Option Severity
  summary : String
  detail : Option String
  attributePath : Option (List String)

def severityText : Severity → String
  | .error => "error"
  | .warning => "warning"

def optional {α : Type} (write : α → Js) (value : Option α) : Js := value.elim .undefined write

def Diagnostic.properties (diag : Diagnostic) : List (String × Js) := [
  ("severity", optional (fun severity => .string (severityText severity)) diag.severity),
  ("summary", .string diag.summary),
  ("detail", optional .string diag.detail),
  ("attribute", optional (fun path => .array (path.map .string)) diag.attributePath)]

def Diagnostic.toJs (diag : Diagnostic) : Js := .object (.ofMembers diag.properties)

/-- What a handler may do to its context while it runs. -/
inductive HandlerOp
  | setPrivate (value : String)
  | warn (summary : String) (detail : Option String)
  | warning (diag : Diagnostic)
  | progress (message : String)

/-- What a handler sees of its context. -/
structure HandlerCtx where
  private_ : Js
  cancelled : Bool

structure Drained where
  private_ : Option String := none
  warnings : List Diagnostic := []
  progress : List String := []

def Drained.step (drained : Drained) : HandlerOp → Drained
  | .setPrivate value => { drained with private_ := some value }
  | .warn summary detail => { drained with warnings := drained.warnings ++ [⟨some .warning, summary, detail, none⟩] }
  | .warning diag =>
      { drained with warnings := drained.warnings ++ [{ diag with severity := diag.severity.or (some .warning) }] }
  | .progress message => { drained with progress := drained.progress ++ [message] }

def drain (ops : List HandlerOp) : Drained := ops.foldl Drained.step {}

def getProperty (v : Js) (name : String) : Js :=
  match v with
  | .object own => (own.get? name).getD .undefined
  | _ => .undefined

def readProperty (v : Js) (name : String) : Except String Js :=
  if v.isNullish then .error ("Cannot read properties of null (reading '" ++ name ++ "')") else .ok (getProperty v name)

def orElse (v w : Js) : Js := if v.isNullish then w else v

def isTrue : Js → Bool
  | .primitive (.bool b) => b
  | _ => false

def makeCtx (input : Js) : HandlerCtx where
  private_ := orElse (getProperty input "private") .undefined
  cancelled := isTrue (getProperty input "cancelled")

/-- A call of a function that JavaScript exports to Rust: it returns a text,
throws, or its promise stays pending. -/
abbrev RawHandler := Bytes → Ending String Bytes

abbrev Script := Trace HandlerOp String Js

def ofExcept {α : Type} : Except String α → Ending String α
  | .ok a => .returned a
  | .error e => .panicked e

section

variable (js : JsText)

def printed (v : Js) : Ending String Bytes :=
  ofExcept (stringify v) >>= fun text => text.elim (.panicked "StringExpected") fun w => .returned (js.print w)

def Drained.properties (drained : Drained) : List (String × Js) := [
  ("private", optional .string drained.private_),
  ("warnings", .array (drained.warnings.map Diagnostic.toJs)),
  ("progress", .array (drained.progress.map .string))]

def envelopeOut (result : Js) (drained : Drained) : Js :=
  .object (.ofMembers [("value", orElse result .null), ("ctx", .object (.ofMembers drained.properties))])

def ctxAdapt (reviveSchema : Option Zod) (fn : Js → HandlerCtx → Script) : RawHandler := fun input => do
  let env ← ofExcept (js.parse input)
  let value ← ofExcept (readProperty env "value")
  let ctx ← ofExcept (readProperty env "ctx")
  let run := fn (reviveSchema.elim value (reviveSets · value)) (makeCtx ctx)
  let result ← run.ending
  printed js (envelopeOut result (drain run.events))

end

section

variable (crates : Crates)

def privateJson (privateIn : Bytes) : Bytes :=
  if privateIn.isEmpty then Utf8.encode "null" else jsonStr crates (Utf8.fromUtf8Lossy privateIn)

def envelope (privateIn : Bytes) (cancelled : Bool) (valueJson : Bytes) : Bytes :=
  Utf8.encode "\x7b\"ctx\":\x7b\"private\":" ++ privateJson crates privateIn ++
    Utf8.encode (",\"cancelled\":" ++ toString cancelled ++ "\x7d,\"value\":") ++ valueJson ++ Utf8.encode "\x7d"

def text (item : Json) (key : String) : String := ((item.member key).bind Json.asString).getD ""

def parseDiagnostic (item : Json) : Diag where
  severity := if text item "severity" = "warning" then .warning else .error
  summary := text item "summary"
  detail := text item "detail"
  attributePath := (((item.member "attribute").bind Json.elements).getD []).filterMap Json.asString

def parseDiagnostics (json : Bytes) : Diagnostics :=
  match crates.fromSlice json with
  | .ok parsed => (parsed.elements.getD []).map parseDiagnostic
  | .error e => handlerErr "validate" e

def drainCtx (ctx : OrdMap String Json) : List CtxOp :=
  (((ctx.get? "private").bind Json.asString).toList.map fun p => .setPrivate (Utf8.encode p)) ++
    (((ctx.get? "warnings").filter fun ws => ws.elements.isSome).toList.flatMap fun ws =>
      (parseDiagnostics crates (crates.toVec ws)).map .warning) ++
    ((((ctx.get? "progress").bind Json.elements).getD []).filterMap Json.asString).map .progress

/-- When the provider is told to stop. -/
inductive Stop
  | before
  | during
  | never
deriving DecidableEq

/-- What the handler is called with, if it is: a token that is cancelled already
is not raced. -/
def invocation (stop : Stop) (privateIn valueJson : Bytes) : Option Bytes :=
  match stop with
  | .before => none
  | .during | .never => some (envelope crates privateIn false valueJson)

/-- A call that has not come back when the token is cancelled is abandoned. -/
def runUntilCancelled (stop : Stop) (call : Option (Ending String Bytes)) : Ending String (Option Bytes) :=
  match stop, call with
  | .never, some call => some <$> call
  | _, _ => .returned none

def finishOutput (op : String) (out : Bytes) : Call Bytes :=
  match crates.fromSlice out with
  | .error e => ⟨[], .returned (.error (handlerErr op e))⟩
  | .ok (.object obj) =>
      let ops := match obj.get? "ctx" with
        | some (.object ctx) => drainCtx crates ctx
        | _ => []
      match obj.get? "value" with
      | some value => ⟨ops, .returned (.ok (crates.toVec value))⟩
      | none => ⟨ops, .returned (.error (handlerErr op "handler output is missing `value`"))⟩
  | .ok _ => ⟨[], .returned (.error (handlerErr op "handler output must be a `\x7b value, ctx \x7d` object"))⟩

def callWithCtx (stop : Stop) (handler : RawHandler) (valueJson : Bytes) (op : String) : Handler Bytes :=
  fun privateIn =>
    match runUntilCancelled stop ((invocation crates stop privateIn valueJson).map handler) with
    | .returned (some out) => finishOutput crates op out
    | .returned none =>
        ⟨[], .returned (.error [Diag.error (op ++ " cancelled") "the provider received StopProvider"])⟩
    | .panicked e => ⟨[], .returned (.error (handlerErr op e))⟩
    | .pending => ⟨[], .pending⟩

end

section

variable {v w : Js} {own : Entries Js}

theorem isJson_of_stringify (h : stringify v = .ok (some w)) : w.isJson = true := by
  induction v using Js.induct generalizing w with
  | primitive p =>
      cases p with
      | undefined | bigint n => cases h
      | null | bool b | string s =>
          cases h
          rfl
      | number x =>
          cases h
          rw [numberText]
          split_ifs with hx hzero
          · rfl
          · exact hx
          · rfl
  | date iso =>
      cases h
      cases iso <;> rfl
  | array items ih | set items ih =>
      obtain ⟨texts, htexts, heq⟩ := Outcome.map_eq_ok.mp h
      obtain rfl := Option.some.inj heq
      rw [Js.isJson, Js.allJson_iff]
      clear h heq
      induction items generalizing texts with
      | nil =>
          cases htexts
          exact List.forall_mem_nil _
      | cons v vs iht =>
          rw [stringifyItems] at htexts
          obtain ⟨text, htext, htexts⟩ := Outcome.bind_eq_ok.mp htexts
          obtain ⟨rest, hrest, htexts⟩ := Outcome.bind_eq_ok.mp htexts
          obtain rfl := Except.ok.inj htexts
          rw [List.forall_mem_cons]
          refine ⟨?_, iht (fun v hv => ih v (List.mem_cons_of_mem _ hv)) rest hrest⟩
          cases text with
          | none => rfl
          | some w => exact ih v List.mem_cons_self htext
  | object fields ih =>
      obtain ⟨texts, htexts, heq⟩ := Outcome.map_eq_ok.mp h
      obtain rfl := Option.some.inj heq
      rw [Js.isJson, Js.fieldsJson_iff, Entries.toList_filterMap]
      intro q hq
      obtain ⟨p, hp, hpq⟩ := List.mem_filterMap.mp hq
      obtain ⟨w, hw, rfl⟩ := Option.map_eq_some_iff.mp hpq
      rw [stringifyFields_eq] at htexts
      have hget := Entries.get?_of_sequence htexts p.1
      rw [Entries.get?_eq_some.mpr hp, Option.map_some, eq_comm, Option.map_eq_some_iff] at hget
      obtain ⟨v, hv, hok⟩ := hget
      exact ih (p.1, v) (Entries.get?_eq_some.mp hv) (hok.trans (congrArg Except.ok hw))

def written (v : Js) : Option Js := (stringify v).toOption.join

theorem written_eq {text : Option Js} (h : stringify v = .ok text) : written v = text := by
  rw [written, h]
  rfl

theorem stringify_written (h : ∃ text, stringify v = .ok text) : stringify v = .ok (written v) := by
  obtain ⟨text, htext⟩ := h
  rw [written_eq htext, htext]

theorem stringify_members {properties : List (String × Js)} (h : ∀ p ∈ properties, ∃ text, stringify p.2 = .ok text) :
    ∃ texts : Entries Js, stringify (.object (.ofMembers properties)) = .ok (some (.object texts)) ∧
      ∀ key, texts.get? key = ((OrdMap.ofList properties).get? key).bind written := by
  have hwritten : ∀ p ∈ (Entries.ofMembers properties).toList, stringify p.2 = .ok (written p.2) := by
    intro p hp
    have hget := Entries.get?_eq_some.mpr hp
    rw [Entries.get?_ofMembers] at hget
    exact stringify_written (h _ (OrdMap.mem_of_get?_ofList hget))
  have htexts : (stringifyFields (.ofMembers properties)).sequence =
      .ok ((Entries.ofMembers properties).map written) := by
    rw [stringifyFields_eq]
    exact Entries.sequence_eq_ok hwritten
  refine ⟨((Entries.ofMembers properties).map written).filterMap fun _ => id, ?_, fun key => ?_⟩
  · rw [stringify, htexts]
    rfl
  · rw [← Entries.get?_ofMembers]
    apply Option.ext
    intro w
    rw [Entries.get?_eq_some, Entries.toList_filterMap, Entries.toList_map, List.filterMap_map]
    constructor
    · intro hmem
      obtain ⟨p, hp, heq⟩ := List.mem_filterMap.mp hmem
      obtain ⟨w', hw', heq⟩ := Option.map_eq_some_iff.mp heq
      obtain ⟨rfl, rfl⟩ := Prod.mk.inj heq
      rw [Entries.get?_eq_some.mpr hp]
      exact hw'
    · intro hget
      obtain ⟨v, hv, hw⟩ := Option.bind_eq_some_iff.mp hget
      refine List.mem_filterMap.mpr ⟨(key, v), Entries.get?_eq_some.mp hv, ?_⟩
      exact Option.map_eq_some_iff.mpr ⟨w, hw, rfl⟩

theorem stringify_array {items ws : List Js} (h : List.Forall₂ (fun v w => stringify v = .ok (some w)) items ws) :
    stringify (.array items) = .ok (some (.array ws)) := by
  have hitems : stringifyItems items = .ok ws := by
    induction h with
    | nil => rfl
    | cons hw _ ih =>
        rw [stringifyItems, hw, Outcome.ok_bind, ih]
        rfl
  rw [stringify, hitems]
  rfl

theorem eq_undefined_of_stringify {v : Js} (h : stringify v = .ok none) : v = .undefined := by
  cases v with
  | primitive p => cases p <;> first | rfl | cases h
  | date iso => cases h
  | array items | set items =>
      rw [stringify] at h
      obtain ⟨texts, -, hnone⟩ := Outcome.map_eq_ok.mp h
      cases hnone
  | object fields =>
      rw [stringify] at h
      obtain ⟨texts, -, hnone⟩ := Outcome.map_eq_ok.mp h
      cases hnone

theorem stringify_orElse_null (v : Js) : stringify (orElse v .null) ≠ .ok none := by
  intro h
  have hundefined := eq_undefined_of_stringify h
  rw [orElse] at hundefined
  split_ifs at hundefined with hnullish
  · cases hundefined
  · subst hundefined
    exact hnullish rfl

theorem stringify_members_error {properties : List (String × Js)} {e : String}
    (hnodup : (properties.map Prod.fst).Nodup) (h : properties.mapM (fun p => stringify p.2) = .error e) :
    stringify (.object (.ofMembers properties)) = .error e := by
  have hsequence : (stringifyFields (.ofMembers properties)).sequence = .error e := by
    rw [stringifyFields_eq, Entries.sequence_eq_error, Entries.toList_map, Entries.toList_ofMembers hnodup,
      List.mapM_map]
    exact h
  rw [stringify, hsequence]
  rfl

end

def Diagnostic.spoken (diag : Diagnostic) : Diag where
  severity := diag.severity.getD .error
  summary := diag.summary
  detail := diag.detail.getD ""
  attributePath := diag.attributePath.getD []

def HandlerOp.spoken : HandlerOp → CtxOp
  | .setPrivate value => .setPrivate (Utf8.encode value)
  | .warn summary detail => .warning ⟨.warning, summary, detail.getD "", []⟩
  | .warning diag => .warning { diag.spoken with severity := diag.severity.getD .warning }
  | .progress message => .progress message

theorem outputs_spoken (ops : List HandlerOp) : intoOutputs (ops.map HandlerOp.spoken) =
    ⟨(drain ops).warnings.map Diagnostic.spoken, (drain ops).private_.map Utf8.encode, none, (drain ops).progress⟩ := by
  induction ops using List.reverseRecOn with
  | nil => rfl
  | append_singleton ops op ih =>
      have hdrain : drain (ops ++ [op]) = (drain ops).step op := List.foldl_append
      rw [List.map_append, List.map_singleton, intoOutputs_append, ih, hdrain]
      cases op with
      | setPrivate value => rfl
      | progress message => rfl
      | warn summary detail => simp [CtxOutputs.step, Drained.step, HandlerOp.spoken, Diagnostic.spoken]
      | warning diag =>
          obtain ⟨severity, summary, detail, attributePath⟩ := diag
          cases severity <;> simp [CtxOutputs.step, Drained.step, HandlerOp.spoken, Diagnostic.spoken]

theorem outputs_channels (privateOut : Option Bytes) (warnings : Diagnostics) (progress : List String) :
    intoOutputs (privateOut.toList.map CtxOp.setPrivate ++ warnings.map CtxOp.warning ++ progress.map CtxOp.progress) =
      ⟨warnings, privateOut, none, progress⟩ := by
  have hprivate : intoOutputs (privateOut.toList.map CtxOp.setPrivate) = ⟨[], privateOut, none, []⟩ := by
    cases privateOut <;> rfl
  have hwarnings : ∀ outs : CtxOutputs, (warnings.map CtxOp.warning).foldl CtxOutputs.step outs =
      { outs with warnings := outs.warnings ++ warnings } := by
    induction warnings with
    | nil => exact fun outs => by simp
    | cons warning warnings ih => exact fun outs => by simp [ih, CtxOutputs.step]
  have hprogress : ∀ outs : CtxOutputs, (progress.map CtxOp.progress).foldl CtxOutputs.step outs =
      { outs with progress := outs.progress ++ progress } := by
    induction progress with
    | nil => exact fun outs => by simp
    | cons message progress ih => exact fun outs => by simp [ih, CtxOutputs.step]
  rw [intoOutputs, List.foldl_append, List.foldl_append, ← intoOutputs, hprivate, hwarnings, hprogress]
  simp

section

variable {crates : Crates} {item json : Json} {w : Js}

theorem parseDiagnostic_rounded (item : Json) : parseDiagnostic item.rounded = parseDiagnostic item := by
  have htext : ∀ key, text item.rounded key = text item key := by
    intro key
    rw [text, text, Json.member_rounded, Option.bind_map]
    simp
  have hpath : ((item.rounded.member "attribute").bind Json.elements).getD [] =
      (((item.member "attribute").bind Json.elements).getD []).map Json.rounded := by
    rw [Json.member_rounded, Option.bind_map]
    cases item.member "attribute" with
    | none => rfl
    | some json => cases hjson : json.elements <;> simp [hjson]
  rw [parseDiagnostic, parseDiagnostic, htext, htext, htext, hpath, List.filterMap_map]
  simp

theorem exists_text {v : Js} (h : v.isUndefined = true ∨ v.isWire = true) : ∃ text, stringify v = .ok text := by
  rcases h with h | h
  · unfold Js.isUndefined at h
    split at h
    · exact ⟨none, rfl⟩
    · cases h
  · exact ⟨_, stringify_eq_ok h⟩

theorem isWire_strings (strings : List String) : (Js.array (strings.map .string)).isWire = true := by
  rw [Js.isWire, Js.allWire_iff]
  exact List.forall_mem_map.mpr fun _ _ => rfl

theorem written_strings (strings : List String) :
    (written (.array (strings.map .string))).map Js.toJson = some (.array (strings.map .string)) := by
  rw [written_eq (stringify_eq_ok (isWire_strings strings)), Option.map_some,
    (toJson_wireForm (isWire_strings strings)).2, Js.toJson_array, List.map_map]
  rfl

theorem parseDiagnostic_toJs (diag : Diagnostic) :
    ∃ w, stringify diag.toJs = .ok (some w) ∧ parseDiagnostic w.toJson = diag.spoken := by
  obtain ⟨severity, summary, detail, attributePath⟩ := diag
  have hwritten : ∀ p ∈ Diagnostic.properties ⟨severity, summary, detail, attributePath⟩,
      p.2.isUndefined = true ∨ p.2.isWire = true := by
    simp only [Diagnostic.properties, List.forall_mem_cons]
    refine ⟨?_, .inr rfl, ?_, ?_, List.forall_mem_nil _⟩
    · cases severity with
      | none => exact .inl rfl
      | some severity => exact .inr rfl
    · cases detail with
      | none => exact .inl rfl
      | some detail => exact .inr rfl
    · cases attributePath with
      | none => exact .inl rfl
      | some path => exact .inr (isWire_strings path)
  obtain ⟨texts, hobject, hget⟩ := stringify_members fun p hp => exists_text (hwritten p hp)
  refine ⟨.object texts, hobject, ?_⟩
  have hmember : ∀ key, (Js.object texts).toJson.member key =
      (((OrdMap.ofList (Diagnostic.properties ⟨severity, summary, detail, attributePath⟩)).get? key).bind
        written).map Js.toJson := by
    intro key
    rw [Js.member_toJson, hget]
  have hpath : (((Js.object texts).toJson.member "attribute").bind Json.elements).getD [] =
      (attributePath.getD []).map .string := by
    rw [hmember, OrdMap.get?_ofList]
    cases attributePath with
    | none => rfl
    | some path =>
        change (((written (Js.array (path.map .string))).map Js.toJson).bind Json.elements).getD [] = _
        rw [written_strings]
        rfl
  have hseverity : text (Js.object texts).toJson "severity" = (severity.map severityText).getD "" := by
    rw [text, hmember, OrdMap.get?_ofList]
    cases severity <;> rfl
  have hsummary : text (Js.object texts).toJson "summary" = summary := by
    rw [text, hmember, OrdMap.get?_ofList]
    rfl
  have hdetail : text (Js.object texts).toJson "detail" = detail.getD "" := by
    rw [text, hmember, OrdMap.get?_ofList]
    cases detail <;> rfl
  rw [parseDiagnostic, hseverity, hsummary, hdetail, hpath, List.filterMap_map]
  simp only [Diagnostic.spoken, Diag.mk.injEq, true_and]
  constructor
  · cases severity with
    | none => rfl
    | some severity => cases severity <;> rfl
  · exact List.filterMap_some

theorem exists_text_diagnostics (diags : List Diagnostic) : ∃ ws,
    stringify (.array (diags.map Diagnostic.toJs)) = .ok (some (.array ws)) ∧
      (ws.map Js.toJson).map parseDiagnostic = diags.map Diagnostic.spoken := by
  choose w hw hparse using parseDiagnostic_toJs
  refine ⟨diags.map w, stringify_array ?_, ?_⟩
  · rw [List.forall₂_map_left_iff, List.forall₂_map_right_iff]
    exact List.forall₂_same.mpr fun diag _ => hw diag
  · rw [List.map_map, List.map_map]
    exact List.map_congr_left fun diag _ => hparse diag

theorem parseDiagnostics_toVec {js : JsText} (h : js.Reads crates) (hdoc : Document json) :
    parseDiagnostics crates (crates.toVec json) = (json.elements.getD []).map parseDiagnostic := by
  obtain ⟨json', hread, -, hround⟩ := h.fromSlice_toVec hdoc
  have helements : (json'.elements.map (·.map Json.rounded)) = json.elements.map (·.map Json.rounded) := by
    rw [← Json.elements_rounded, ← Json.elements_rounded, hround]
  have hparse : ∀ items : List Json, items.map parseDiagnostic = (items.map Json.rounded).map parseDiagnostic := by
    intro items
    rw [List.map_map]
    exact List.map_congr_left fun item _ => (parseDiagnostic_rounded item).symm
  simp only [parseDiagnostics, hread]
  rw [hparse, hparse (json.elements.getD [])]
  congr 1
  have hgetD : ∀ o : Option (List Json), (o.getD []).map Json.rounded = (o.map (·.map Json.rounded)).getD [] := by
    intro o
    cases o <;> rfl
  rw [hgetD, hgetD, helements]

theorem drainCtx_eq {js : JsText} (h : js.Reads crates) {drained : Drained} {ctx : OrdMap String Json}
    (hdoc : Document (.object ctx)) (hctx : ∀ key, (ctx.get? key).map Json.rounded =
      (((OrdMap.ofList drained.properties).get? key).bind written).map Js.toJson) :
    drainCtx crates ctx = (drained.private_.map Utf8.encode).toList.map .setPrivate ++
      (drained.warnings.map Diagnostic.spoken).map .warning ++ drained.progress.map .progress := by
  have hprivate : (ctx.get? "private").bind Json.asString = drained.private_ := by
    have hkey := congrArg (Option.bind · Json.asString) (hctx "private")
    simp only [Option.bind_map, Function.comp_def, Json.asString_rounded] at hkey
    rw [hkey, OrdMap.get?_ofList]
    cases hp : drained.private_ with
    | none => simp [Drained.properties, hp, optional, written_eq (v := Js.undefined) rfl]
    | some p => simp [Drained.properties, hp, optional, written_eq (v := Js.string p) rfl]; rfl
  have hwarnings : ∃ items, ctx.get? "warnings" = some (.array items) ∧
      items.map parseDiagnostic = drained.warnings.map Diagnostic.spoken := by
    obtain ⟨ws, hws, hparse⟩ := exists_text_diagnostics drained.warnings
    have hkey := hctx "warnings"
    rw [OrdMap.get?_ofList] at hkey
    change _ = (written (.array (drained.warnings.map Diagnostic.toJs))).map Js.toJson at hkey
    rw [written_eq hws, Option.map_some, Js.toJson_array, Option.map_eq_some_iff] at hkey
    obtain ⟨ws', hget, hround⟩ := hkey
    obtain ⟨items, rfl, hitems⟩ := Json.exists_array_of_rounded hround
    refine ⟨items, hget, ?_⟩
    rw [← hparse, ← hitems, List.map_map]
    exact List.map_congr_left fun item _ => (parseDiagnostic_rounded item).symm
  have hprogress : ∃ items, ctx.get? "progress" = some (.array items) ∧
      items.filterMap Json.asString = drained.progress := by
    have hkey := hctx "progress"
    rw [OrdMap.get?_ofList] at hkey
    change _ = (written (.array (drained.progress.map .string))).map Js.toJson at hkey
    rw [written_strings, Option.map_eq_some_iff] at hkey
    obtain ⟨ps, hget, hround⟩ := hkey
    obtain ⟨items, rfl, hitems⟩ := Json.exists_array_of_rounded hround
    refine ⟨items, hget, ?_⟩
    have hstrings := congrArg (List.filterMap Json.asString) hitems
    rw [List.filterMap_map, List.filterMap_map] at hstrings
    simp only [Function.comp_def, Json.asString_rounded] at hstrings
    rw [hstrings]
    exact List.filterMap_some
  obtain ⟨warnings, hwget, hwarnings⟩ := hwarnings
  obtain ⟨progress, hpget, hprogress⟩ := hprogress
  have hdocs : ∀ json, ctx.get? "warnings" = some json → Document json := by
    cases hdoc with
    | object _ hfields => exact hfields "warnings"
  have hread : parseDiagnostics crates (crates.toVec (.array warnings)) = drained.warnings.map Diagnostic.spoken := by
    rw [parseDiagnostics_toVec h (hdocs _ hwget), ← hwarnings]
    rfl
  have hfilter : (some (Json.array warnings)).filter (fun ws => ws.elements.isSome) = some (.array warnings) := rfl
  have helements : (some (Json.array progress)).bind Json.elements = some progress := rfl
  rw [drainCtx, hprivate, hwget, hpget, hfilter, helements, Option.toList_some, List.flatMap_singleton, hread,
    Option.getD_some, hprogress, Option.toList_map]
  simp only [List.map_map, Function.comp_def]

theorem finishOutput_print {js : JsText} (h : js.Reads crates) {result : Js} (op : String) (drained : Drained)
    (hw : stringify (orElse result .null) = .ok (some w)) :
    ∃ out call, printed js (envelopeOut result drained) = .returned out ∧ finishOutput crates op out = call ∧
      intoOutputs call.ops = ⟨drained.warnings.map Diagnostic.spoken, drained.private_.map Utf8.encode, none,
        drained.progress⟩ ∧
      ∃ value, call.finish = .returned (.ok (crates.toVec value)) ∧ Document value ∧ value.rounded = w.toJson := by
  obtain ⟨ws, hws, -⟩ := exists_text_diagnostics drained.warnings
  have hdrained : ∀ p ∈ drained.properties, ∃ text, stringify p.2 = .ok text := by
    simp only [Drained.properties, List.forall_mem_cons]
    refine ⟨?_, ⟨_, hws⟩, exists_text (.inr (isWire_strings _)), List.forall_mem_nil _⟩
    apply exists_text
    cases drained.private_ with
    | none => exact .inl rfl
    | some p => exact .inr rfl
  obtain ⟨ctexts, hctx, hcget⟩ := stringify_members hdrained
  have hproperties : ∀ p ∈ [("value", orElse result .null), ("ctx", Js.object (.ofMembers drained.properties))],
      ∃ text, stringify p.2 = .ok text := by
    simp only [List.forall_mem_cons]
    exact ⟨⟨_, hw⟩, ⟨_, hctx⟩, List.forall_mem_nil _⟩
  obtain ⟨texts, hout, hget⟩ := stringify_members hproperties
  have hprinted : printed js (envelopeOut result drained) = .returned (js.print (.object texts)) := by
    rw [printed, envelopeOut, hout]
    rfl
  obtain ⟨json, hread, hdoc, hround⟩ := h.fromSlice_print (isJson_of_stringify hout)
  obtain ⟨obj, rfl, hobj⟩ := Json.exists_members hround
  have hdocs : ∀ k json, obj.get? k = some json → Document json := by
    cases hdoc with
    | object _ hfields => exact hfields
  have hvalue := hobj "value"
  have hctxJson := hobj "ctx"
  rw [hget, OrdMap.get?_ofList] at hvalue hctxJson
  change _ = (written (orElse result .null)).map Js.toJson at hvalue
  change _ = (written (.object (.ofMembers drained.properties))).map Js.toJson at hctxJson
  rw [written_eq hw, Option.map_some, Option.map_eq_some_iff] at hvalue
  rw [written_eq hctx, Option.map_some, Option.map_eq_some_iff] at hctxJson
  obtain ⟨value, hv, hvround⟩ := hvalue
  obtain ⟨ctxJson, hc, hcround⟩ := hctxJson
  obtain ⟨ctx, rfl, hcobj⟩ := Json.exists_members hcround
  have hops := drainCtx_eq h (hdocs _ _ hc) fun key => by rw [hcobj, hcget]
  refine ⟨_, _, hprinted, rfl, ?_⟩
  simp only [finishOutput, hread, hc, hv]
  refine ⟨?_, value, rfl, hdocs _ _ hv, hvround⟩
  rw [hops, outputs_channels]

end

def envelopeJson (privateIn : Bytes) (cancelled : Bool) (value : Json) : Json :=
  .object (OrdMap.ofList [
    ("ctx", .object (OrdMap.ofList [
      ("private", if privateIn.isEmpty then .null else .string (Utf8.fromUtf8Lossy privateIn)),
      ("cancelled", .bool cancelled)])),
    ("value", value)])

def argumentsJson (crates : Crates) (values : List Json) : Bytes :=
  Utf8.encode "[" ++ (Utf8.encode ",").intercalate (values.map crates.toVec) ++ Utf8.encode "]"

def isNullText (out : Bytes) : Bool := Timeouts.trim (Utf8.fromUtf8Lossy out).toList == "null".toList

/-- The texts that Rust puts together are read as what they are put together from. -/
structure Shares (js : JsText) (crates : Crates) : Prop extends js.Reads crates where
  parse_envelope {value : Json} : Document value → ∀ privateIn cancelled,
    ∃ v, js.parse (envelope crates privateIn cancelled (crates.toVec value)) = .ok v ∧ v.isJson = true ∧
      v.toJson = (envelopeJson privateIn cancelled value).rounded
  parse_arguments {values : List Json} : (∀ value ∈ values, Document value) →
    ∃ v, js.parse (argumentsJson crates values) = .ok v ∧ v.isJson = true ∧ v.toJson = (Json.array values).rounded
  toVec_null {value : Json} : Document value → (isNullText (crates.toVec value) = true ↔ value = .null)

/-- The private state as JavaScript sees it: there is none when it is empty. -/
def seen (privateIn : Bytes) : Js :=
  if privateIn.isEmpty then .undefined else .string (Utf8.fromUtf8Lossy privateIn)

/-- A call brings back what the script returned, with what the script did to its
context; without a result it brings back nothing of the context. -/
structure Relays (crates : Crates) (op : String) (run : Script) (call : Call Bytes) : Prop where
  returned : ∀ result w, run.ending = .returned result → stringify (orElse result .null) = .ok (some w) →
    intoOutputs call.ops = intoOutputs (run.events.map HandlerOp.spoken) ∧
      ∃ value, call.finish = .returned (.ok (crates.toVec value)) ∧ Document value ∧ value.rounded = w.toJson
  unwritten : ∀ result e, run.ending = .returned result → stringify (orElse result .null) = .error e →
    call = ⟨[], .returned (.error (handlerErr op e))⟩
  thrown : ∀ e, run.ending = .panicked e → call = ⟨[], .returned (.error (handlerErr op e))⟩
  pending : run.ending = .pending → call = ⟨[], .pending⟩

section

variable {crates : Crates} {js : JsText}

theorem eq_of_toJson {v : Js} {s : String} (hv : v.isJson = true) (h : v.toJson = .string s) : v = .string s := by
  cases v with
  | primitive p =>
      cases p with
      | string s' => exact congrArg Js.string (Json.string.inj h)
      | number x =>
          change floatToJson x = _ at h
          rw [floatToJson_eq hv] at h
          cases h
      | _ => cases h
  | array items =>
      rw [Js.toJson_array] at h
      cases h
  | object own =>
      rw [Js.toJson_object] at h
      cases h
  | date iso => cases hv
  | set items => cases hv

theorem isNullish_of_toJson {v : Js} (hv : v.isJson = true) (h : v.toJson = .null) : v.isNullish = true := by
  cases v with
  | primitive p =>
      cases p with
      | null => rfl
      | number x =>
          change floatToJson x = _ at h
          rw [floatToJson_eq hv] at h
          cases h
      | undefined | bigint n => cases hv
      | bool b | string s => cases h
  | array items =>
      rw [Js.toJson_array] at h
      cases h
  | object own =>
      rw [Js.toJson_object] at h
      cases h
  | date iso => cases hv
  | set items => cases hv

theorem isTrue_of_toJson {v : Js} {b : Bool} (h : v.toJson = .bool b) : isTrue v = b := by
  cases v with
  | primitive p =>
      cases p with
      | bool b' => exact Json.bool.inj h
      | number x =>
          change floatToJson x = _ at h
          rw [floatToJson] at h
          split_ifs at h
      | _ => cases h
  | array items =>
      rw [Js.toJson_array] at h
      cases h
  | set items =>
      rw [Js.toJson_set] at h
      cases h
  | object own =>
      rw [Js.toJson_object] at h
      cases h
  | date iso => cases iso <;> cases h

theorem exists_envelope {privateIn : Bytes} {value : Json} {env : Js} (henv : env.isJson = true)
    (h : env.toJson = (envelopeJson privateIn false value).rounded) :
    ∃ v ctx, readProperty env "value" = .ok v ∧ readProperty env "ctx" = .ok ctx ∧ v.isJson = true ∧
      v.toJson = value.rounded ∧ makeCtx ctx = ⟨seen privateIn, false⟩ := by
  obtain ⟨own, rfl, hown⟩ := Js.exists_properties henv h
  have hjson : ∀ {own : Entries Js}, (Js.object own).isJson = true → ∀ k v, own.get? k = some v → v.isJson = true :=
    fun hobj k v hv => Js.fieldsJson_iff.mp hobj (k, v) (Entries.get?_eq_some.mp hv)
  have hvalue := hown "value"
  have hctx := hown "ctx"
  rw [OrdMap.get?_ofList] at hvalue hctx
  change _ = some value.rounded at hvalue
  rw [Option.map_eq_some_iff] at hvalue
  obtain ⟨v, hv, hvround⟩ := hvalue
  obtain ⟨ctx, hc, hcround⟩ := Option.map_eq_some_iff.mp hctx
  have hcjson := hjson henv _ _ hc
  obtain ⟨ctxOwn, rfl, hctxOwn⟩ := Js.exists_properties hcjson hcround
  have hprivate := hctxOwn "private"
  have hcancelled := hctxOwn "cancelled"
  rw [OrdMap.get?_ofList] at hprivate hcancelled
  obtain ⟨p, hp, hpround⟩ := Option.map_eq_some_iff.mp hprivate
  obtain ⟨c, hcc, hccround⟩ := Option.map_eq_some_iff.mp hcancelled
  have hpjson := hjson hcjson _ _ hp
  refine ⟨v, .object ctxOwn, ?_, ?_, hjson henv _ _ hv, hvround, ?_⟩
  · rw [readProperty, getProperty, hv]
    rfl
  · rw [readProperty, getProperty, hc]
    rfl
  · have hseen : orElse p .undefined = seen privateIn := by
      rw [seen]
      change p.toJson = (if privateIn.isEmpty then Json.null else .string _).rounded at hpround
      split_ifs at hpround ⊢
      · rw [orElse, isNullish_of_toJson hpjson hpround, if_pos rfl]
      · rw [eq_of_toJson hpjson hpround]
        rfl
    have hflag := isTrue_of_toJson hccround
    rw [makeCtx, getProperty, getProperty, hp, hcc, Option.getD_some, Option.getD_some, hseen, hflag]

theorem ctxAdapt_envelope (h : Shares js crates) (reviveSchema : Option Zod) (fn : Js → HandlerCtx → Script)
    {value : Json} (hdoc : Document value) (privateIn : Bytes) : ∃ v, v.isJson = true ∧ v.toJson = value.rounded ∧
      ctxAdapt js reviveSchema fn (envelope crates privateIn false (crates.toVec value)) =
        let run := fn (reviveSchema.elim v (reviveSets · v)) ⟨seen privateIn, false⟩
        run.ending >>= fun result => printed js (envelopeOut result (drain run.events)) := by
  obtain ⟨env, hparse, henv, hround⟩ := h.parse_envelope hdoc privateIn false
  obtain ⟨v, ctx, hv, hctx, hjson, hvround, hmake⟩ := exists_envelope henv hround
  refine ⟨v, hjson, hvround, ?_⟩
  simp only [ctxAdapt, hparse, ofExcept, Ending.returned_bind, hv, hctx, hmake]

theorem relays_callWithCtx (h : Shares js crates) (reviveSchema : Option Zod) (fn : Js → HandlerCtx → Script)
    {value : Json} (hdoc : Document value) (op : String) (privateIn : Bytes) :
    ∃ v, v.isJson = true ∧ v.toJson = value.rounded ∧
      Relays crates op (fn (reviveSchema.elim v (reviveSets · v)) ⟨seen privateIn, false⟩)
        (callWithCtx crates .never (ctxAdapt js reviveSchema fn) (crates.toVec value) op privateIn) := by
  obtain ⟨v, hjson, hround, hadapt⟩ := ctxAdapt_envelope h reviveSchema fn hdoc privateIn
  refine ⟨v, hjson, hround, ?_⟩
  generalize fn (reviveSchema.elim v (reviveSets · v)) ⟨seen privateIn, false⟩ = run at hadapt
  have hcall : ∀ ending, ctxAdapt js reviveSchema fn (envelope crates privateIn false (crates.toVec value)) = ending →
      callWithCtx crates .never (ctxAdapt js reviveSchema fn) (crates.toVec value) op privateIn =
        match some <$> ending with
        | .returned (some out) => finishOutput crates op out
        | .returned none =>
            ⟨[], .returned (.error [Diag.error (op ++ " cancelled") "the provider received StopProvider"])⟩
        | .panicked e => ⟨[], .returned (.error (handlerErr op e))⟩
        | .pending => ⟨[], .pending⟩ := by
    rintro _ rfl
    rfl
  constructor
  · intro result w hresult hw
    obtain ⟨out, call, hout, rfl, hops, hfinish⟩ := finishOutput_print h.toReads op (drain run.events) hw
    have heq : ctxAdapt js reviveSchema fn (envelope crates privateIn false (crates.toVec value)) = .returned out := by
      rw [hadapt, ← hout]
      simp only [hresult, Ending.returned_bind]
    rw [hcall _ heq, outputs_spoken]
    exact ⟨hops, hfinish⟩
  · intro result e hresult he
    have heq : ctxAdapt js reviveSchema fn (envelope crates privateIn false (crates.toVec value)) = .panicked e := by
      have hstringify : stringify (envelopeOut result (drain run.events)) = .error e :=
        stringify_members_error (by simp) (by rw [List.mapM_cons, he, Outcome.error_bind])
      rw [hadapt]
      simp only [hresult, Ending.returned_bind, printed, hstringify, ofExcept, Ending.panicked_bind]
    exact hcall _ heq
  · intro e hthrown
    have heq : ctxAdapt js reviveSchema fn (envelope crates privateIn false (crates.toVec value)) = .panicked e := by
      rw [hadapt]
      simp only [hthrown, Ending.panicked_bind]
    exact hcall _ heq
  · intro hpending
    have heq : ctxAdapt js reviveSchema fn (envelope crates privateIn false (crates.toVec value)) = .pending := by
      rw [hadapt]
      simp only [hpending, Ending.pending_bind]
    exact hcall _ heq

/-- A provider that is told to stop gives up the call, and what the script does
after that is lost. -/
theorem callWithCtx_stopped {stop : Stop} (h : stop ≠ .never) (handler : RawHandler) (valueJson : Bytes) (op : String)
    (privateIn : Bytes) : callWithCtx crates stop handler valueJson op privateIn =
      ⟨[], .returned (.error [Diag.error (op ++ " cancelled") "the provider received StopProvider"])⟩ := by
  cases stop with
  | before | during => rfl
  | never => exact absurd rfl h

/-- What a script does to its context in JavaScript, the call does to its context
in Rust, when it brings back the result; else the call leaves no trace. -/
theorem callWithCtx_relays (h : Shares js crates) (reviveSchema : Option Zod) (fn : Js → HandlerCtx → Script)
    {value : Json} (hdoc : Document value) (op : String) (privateIn : Bytes) (stop : Stop) :
    ∃ v, v.isJson = true ∧ v.toJson = value.rounded ∧
      let call := callWithCtx crates stop (ctxAdapt js reviveSchema fn) (crates.toVec value) op privateIn
      (stop = .never →
        Relays crates op (fn (reviveSchema.elim v (reviveSets · v)) ⟨seen privateIn, false⟩) call) ∧
      (stop ≠ .never →
        call = ⟨[], .returned (.error [Diag.error (op ++ " cancelled") "the provider received StopProvider"])⟩) := by
  obtain ⟨v, hjson, hround, hrelays⟩ := relays_callWithCtx h reviveSchema fn hdoc op privateIn
  refine ⟨v, hjson, hround, ?_, fun hstop => callWithCtx_stopped hstop _ _ _ _⟩
  rintro rfl
  exact hrelays

end

def envelopeTree (privateIn : Bytes) (cancelled : Bool) (value : Json) : JsonText.Tree :=
  .object [
    ("ctx".toList, .object [
      ("private".toList, if privateIn.isEmpty then .null else .string (Utf8.fromUtf8Lossy privateIn).toList),
      ("cancelled".toList, .bool cancelled)]),
    ("value".toList, value.toTree)]

theorem envelope_real (privateIn : Bytes) (cancelled : Bool) (value : Json) :
    envelope Crates.real privateIn cancelled (Crates.real.toVec value) =
      Utf8.encode (String.ofList (JsonText.print (envelopeTree privateIn cancelled value))) := by
  let privateTree : JsonText.Tree :=
    if privateIn.isEmpty then .null else .string (Utf8.fromUtf8Lossy privateIn).toList
  have hprivate : privateJson Crates.real privateIn = Utf8.encode (String.ofList (JsonText.print privateTree)) := by
    rw [privateJson]
    simp only [privateTree]
    split_ifs <;> rfl
  have hvalue : Crates.real.toVec value = Utf8.encode (String.ofList (JsonText.print value.toTree)) := rfl
  have hopen : "\x7b\"ctx\":\x7b\"private\":".toList = '{' :: (JsonText.printString "ctx".toList ++ ':' :: '{' ::
      (JsonText.printString "private".toList ++ [':'])) := by decide
  have hnext : (",\"cancelled\":" ++ toString cancelled ++ "\x7d,\"value\":").toList =
      ',' :: (JsonText.printString "cancelled".toList ++ ':' :: (JsonText.print (.bool cancelled) ++ '}' :: ',' ::
        (JsonText.printString "value".toList ++ [':']))) := by
    cases cancelled <;> decide
  have hclose : "\x7d".toList = ['}'] := by decide
  rw [envelope, hprivate, hvalue, ← Utf8.encode_append, ← Utf8.encode_append, ← Utf8.encode_append,
    ← Utf8.encode_append]
  refine congrArg Utf8.encode (String.toList_injective ?_)
  cases cancelled <;>
    simp only [String.toList_append, String.toList_ofList, hopen, hnext, hclose, envelopeTree, JsonText.print,
      JsonText.printMembers, JsonText.join, List.cons_append, List.append_assoc, List.nil_append, privateTree]

theorem head_trim {c d : Char} {cs ds : List Char} (hc : Timeouts.isWhiteSpace c = false)
    (h : Timeouts.trim (c :: cs) = d :: ds) : c = d := by
  have hprefix := List.reverse_prefix.mpr (List.dropWhile_suffix (l := (c :: cs).reverse) Timeouts.isWhiteSpace)
  rw [Timeouts.trim, List.dropWhile_cons_of_neg (by simp [hc])] at h
  rw [h, List.reverse_reverse] at hprefix
  exact (List.cons_prefix_cons.mp hprefix).1.symm

theorem isWhiteSpace_of_isNumberChar {c : Char} (h : JsonText.isNumberChar c = true) :
    Timeouts.isWhiteSpace c = false := by
  simp only [JsonText.isNumberChar, Bool.or_eq_true, decide_eq_true_eq] at h
  rcases h with ((((h | rfl) | rfl) | rfl) | rfl) | rfl
  · have hdigit : 0x30 ≤ c.toNat ∧ c.toNat ≤ 0x39 := by
      simp only [Char.isDigit, Bool.and_eq_true, decide_eq_true_eq] at h
      exact h
    simp [Timeouts.isWhiteSpace]
    omega
  · decide
  · decide
  · decide
  · decide
  · decide

theorem isNullText_print {t : JsonText.Tree} (h : JsonText.wellSpelled t = true) :
    isNullText (Utf8.encode (String.ofList (JsonText.print t))) = true ↔ t = .null := by
  rw [isNullText, Utf8.fromUtf8Lossy_encode, String.toList_ofList, beq_iff_eq]
  constructor
  · intro htrim
    have hhead : ∀ {c cs}, JsonText.print t = c :: cs → Timeouts.isWhiteSpace c = false → c = 'n' := by
      intro c cs hprint hc
      rw [hprint] at htrim
      exact head_trim hc htrim
    cases t with
    | null => rfl
    | number lexeme =>
        obtain ⟨hchars, hne⟩ := JsonText.isNumber_chars h
        obtain ⟨c, cs, rfl⟩ := List.exists_cons_of_ne_nil hne
        have hc := hchars c List.mem_cons_self
        exact absurd (hhead rfl (isWhiteSpace_of_isNumberChar hc)) (JsonText.ne_of_isNumberChar hc _ (by simp))
    | bool b => cases b <;> exact absurd (hhead rfl (by decide)) (by decide)
    | _ => exact absurd (hhead rfl (by decide)) (by decide)
  · rintro rfl
    decide

theorem argumentsJson_real (values : List Json) :
    argumentsJson Crates.real values = Crates.real.toVec (.array values) := by
  have hjoin : (Utf8.encode ",").intercalate (values.map Crates.real.toVec) =
      Utf8.encode (String.ofList (JsonText.join (values.map fun value => JsonText.print value.toTree))) := by
    induction values with
    | nil => rfl
    | cons value values ih =>
        cases values with
        | nil => exact List.intercalate_singleton
        | cons value' values =>
            have hcomma : Utf8.encode (String.ofList [',']) = Utf8.encode "," := rfl
            rw [List.map_cons, List.map_cons, List.intercalate_cons_cons, ← List.map_cons, ih, List.map_cons,
              List.map_cons, List.map_cons, JsonText.join_cons_cons, List.append_cons, String.ofList_append,
              String.ofList_append,
              Utf8.encode_append, Utf8.encode_append, hcomma]
            rfl
  have hprint : JsonText.print (Json.toTree (.array values)) =
      ['['] ++ JsonText.join (values.map fun value => JsonText.print value.toTree) ++ [']'] := by
    rw [Json.toTree, JsonText.print, JsonText.printItems_eq, Json.toTrees_eq, List.map_map]
    rfl
  change _ = Utf8.encode (String.ofList (JsonText.print (Json.toTree (.array values))))
  rw [argumentsJson, hjoin, hprint, String.ofList_append, String.ofList_append, Utf8.encode_append,
    Utf8.encode_append]

theorem real_sharesEnvelopes : Shares JsText.real Crates.real where
  toReads := JsText.real_reads
  parse_arguments {values} hdoc := by
    rw [argumentsJson_real]
    exact JsText.real_reads.parse_toVec (.array values hdoc)
  toVec_null {value} hdoc := by
    refine (isNullText_print hdoc.wellSpelled).trans ?_
    cases hdoc with
    | number n hfinite => simp [Json.toTree, hfinite]
    | _ => simp [Json.toTree]
  parse_envelope {value} hdoc privateIn cancelled := by
    have hspelled : JsonText.wellSpelled (envelopeTree privateIn cancelled value) = true := by
      have hprivate : JsonText.wellSpelled (if privateIn.isEmpty then JsonText.Tree.null else
          .string (Utf8.fromUtf8Lossy privateIn).toList) = true := by
        split_ifs <;> rfl
      simp only [envelopeTree, JsonText.wellSpelled, JsonText.wellSpelledMembers, hprivate, hdoc.wellSpelled,
        Bool.and_self]
    obtain ⟨hvjson, hvround⟩ := Js.ofTree_toTree hdoc
    have hprivate : (Js.ofTree (if privateIn.isEmpty then JsonText.Tree.null else
          .string (Utf8.fromUtf8Lossy privateIn).toList)).isJson = true ∧
        (Js.ofTree (if privateIn.isEmpty then JsonText.Tree.null else
          .string (Utf8.fromUtf8Lossy privateIn).toList)).toJson =
          (if privateIn.isEmpty then Json.null else .string (Utf8.fromUtf8Lossy privateIn)).rounded := by
      split_ifs
      · exact ⟨rfl, rfl⟩
      · rw [Js.ofTree, String.ofList_toList]
        exact ⟨rfl, rfl⟩
    refine ⟨Js.ofTree (envelopeTree privateIn cancelled value), ?_, ?_, ?_⟩
    · rw [envelope_real]
      simp only [JsText.real, Utf8.ofBytes_encode, String.toList_ofList, JsonText.parse_print hspelled]
    · simp only [envelopeTree, Js.ofTree, Js.ofMembers_eq, List.map_cons, List.map_nil]
      apply Js.isJson_ofMembers
      simp only [List.forall_mem_cons]
      refine ⟨Js.isJson_ofMembers ?_, hvjson, List.forall_mem_nil _⟩
      simp only [List.forall_mem_cons]
      exact ⟨hprivate.1, rfl, List.forall_mem_nil _⟩
    · simp only [envelopeTree, envelopeJson, Js.ofTree, Js.ofMembers_eq, List.map_cons, List.map_nil,
        Js.toJson_ofMembers, Json.rounded_ofList, hprivate.2, hvround, String.ofList_toList]
      rfl

def leaseScript (value : Js) (_ : HandlerCtx) : Script :=
  ⟨[.setPrivate "lease-1", .warn "slow" none, .setPrivate "lease-2", .progress "leased"], .returned value⟩

theorem callWithCtx_relays_lease : ∃ v, v.isJson = true ∧ v.toJson = (Json.string "db").rounded ∧
    let call := callWithCtx Crates.real .never (ctxAdapt JsText.real none leaseScript)
      (Crates.real.toVec (.string "db")) "create" []
    (Stop.never = .never →
      Relays Crates.real "create" (leaseScript ((none : Option Zod).elim v (reviveSets · v)) ⟨seen [], false⟩) call) ∧
    (Stop.never ≠ .never → call =
      ⟨[], .returned (.error [Diag.error ("create" ++ " cancelled") "the provider received StopProvider"])⟩) :=
  callWithCtx_relays real_sharesEnvelopes none leaseScript (.string "db") "create" [] .never

end Node

end TofuSdk
