import TofuSdk.JsText
import TofuSdk.NodeStore
import TofuSdk.StateStores

namespace TofuSdk

namespace Node

/-- The store of an author, with its locks. -/
structure LockingBackend (σ : Type) extends StateBackend σ where
  lock (stateId operation : JsValue) : Promise σ JsValue
  unlock (stateId lockId : JsValue) : Promise σ Unit
  states : Promise σ JsValue
  deleteState (stateId : JsValue) : Promise σ Unit

section

variable (crates : Crates) (js : JsJson) {σ : Type} (backend : LockingBackend σ)

def stringified (v : JsValue) : Promise σ Bytes :=
  v.elim (liftExcept (.error "StringExpected")) fun json => pure (js.stringify json)

def lock (input : Bytes) : Promise σ Bytes := do
  let parsed ← liftExcept (js.parse input)
  let stateId ← liftExcept (property parsed "stateId")
  let operation ← liftExcept (property parsed "operation")
  let lockId ← backend.lock stateId operation
  stringified js lockId

def unlock (input : Bytes) : Promise σ Bytes := do
  let parsed ← liftExcept (js.parse input)
  let stateId ← liftExcept (property parsed "stateId")
  let lockId ← liftExcept (property parsed "lockId")
  backend.unlock stateId lockId
  pure (Utf8.encode "null")

def states : Promise σ Bytes := do
  let stateIds ← backend.states
  stringified js stateIds

def del (input : Bytes) : Promise σ Bytes := do
  let stateId ← liftExcept (js.parse input)
  backend.deleteState (some stateId)
  pure (Utf8.encode "null")

def requestInput (key stateId value : String) : Bytes :=
  Utf8.encode "\x7b\"stateId\":" ++ jsonStr crates stateId ++ Utf8.encode (",\"" ++ key ++ "\":") ++
    jsonStr crates value ++ Utf8.encode "\x7d"

namespace JsStateBackend

def lock (stateId operation : String) : ExceptT Diagnostics (StateM σ) String := do
  let out ← callJson (Node.lock js backend (requestInput crates "operation" stateId operation)) "lock"
  let parsed ← liftExcept ((crates.fromSlice out).mapError (handlerErr "lock"))
  pure (parsed.asString.getD "")

def unlock (stateId lockId : String) : ExceptT Diagnostics (StateM σ) Unit := do
  let _ ← callJson (Node.unlock js backend (requestInput crates "lockId" stateId lockId)) "unlock"
  pure ()

/-- What is listed that is no string is left out. -/
def states : ExceptT Diagnostics (StateM σ) (List String) := do
  let out ← callJson (Node.states js backend) "states"
  let parsed ← liftExcept ((crates.fromSlice out).mapError (handlerErr "states"))
  pure ((parsed.elements.getD []).filterMap Json.asString)

def deleteState (stateId : String) : ExceptT Diagnostics (StateM σ) Unit := do
  let _ ← callJson (Node.del js backend (jsonStr crates stateId)) "delete_state"
  pure ()

end JsStateBackend

def settled {α : Type} (result : Except Diagnostics α × σ) : TofuSdk.Call α × σ :=
  (⟨[], .returned result.1⟩, result.2)

def jsStores (backends : String → LockingBackend σ) : Plugin.Stores σ where
  perform typeName _ op s := match op with
    | .readState stateId => settled ((readState crates js (backends typeName).toStateBackend stateId).run s)
    | .writeState stateId data => settled ((writeState crates js (backends typeName).toStateBackend stateId data).run s)
    | .lock stateId operation => settled ((JsStateBackend.lock crates js (backends typeName) stateId operation).run s)
    | .unlock stateId lockId => settled ((JsStateBackend.unlock crates js (backends typeName) stateId lockId).run s)
    | .states => settled ((JsStateBackend.states crates js (backends typeName)).run s)
    | .deleteState stateId => settled ((JsStateBackend.deleteState crates js (backends typeName) stateId).run s)

end

/-- JavaScript and the crate read each other's JSON, as far as stores with locks use it. -/
structure JsJson.Speaks (js : JsJson) (crates : Crates) : Prop extends js.Shares crates where
  pair : ∀ key ∈ ["operation", "lockId"], ∀ stateId value, js.parse (requestInput crates key stateId value) =
    .ok (.object (OrdMap.ofList [("stateId", .string stateId), (key, .string value)]))
  absent : crates.fromSlice (js.stringify .null) = .ok .null
  list : ∀ strings : List String,
    crates.fromSlice (js.stringify (.array (strings.map .string))) = .ok (.array (strings.map .string))

/-- A call that ended ended well, or it ended badly. -/
def Ends {ε α σ : Type} (ended : Except ε α × σ) (done : α → σ → Prop) (failed : ε → σ → Prop) : Prop :=
  match ended.1 with
  | .ok a => done a ended.2
  | .error e => failed e ended.2

open Plugin (StateRequest)
open Service (hasError pbDiagnostics)

/-- The author's stores store texts under names, and null denotes an absent state. -/
structure Lawful {σ : Type} (backends : String → LockingBackend σ) (view : σ → Shelf StateRequest String String) :
    Prop where
  readState : ∀ typeName stateId s, Ends (((backends typeName).readState (some (.string stateId))).run s)
    (fun v t => v.getD .null = .null ∧ Shelf.Step (view s) (.read ⟨typeName, stateId⟩ "") (view t) ∨
      ∃ text, v = some (.string text) ∧ Shelf.Step (view s) (.read ⟨typeName, stateId⟩ text) (view t))
    fun _ t => Shelf.Step (view s) .quiet (view t)
  writeState : ∀ typeName stateId text s,
    Ends (((backends typeName).writeState (some (.string stateId)) (some (.string text))).run s)
      (fun _ t => Shelf.Step (view s) (.wrote ⟨typeName, stateId⟩ text) (view t))
      fun _ t => Shelf.Step (view s) (.lost ⟨typeName, stateId⟩) (view t)
  lock : ∀ typeName stateId operation s,
    Ends (((backends typeName).lock (some (.string stateId)) (some (.string operation))).run s)
      (fun v t => ∃ lockId, v = some (.string lockId) ∧
        Shelf.Step (view s) (.locked ⟨typeName, stateId⟩ lockId) (view t))
      fun _ t => Shelf.Step (view s) (.contested ⟨typeName, stateId⟩) (view t)
  unlock : ∀ typeName stateId lockId s,
    Ends (((backends typeName).unlock (some (.string stateId)) (some (.string lockId))).run s)
      (fun _ t => Shelf.Step (view s) (.unlocked ⟨typeName, stateId⟩) (view t))
      fun _ t => Shelf.Step (view s) (.loosened ⟨typeName, stateId⟩) (view t)
  states : ∀ typeName s, Ends ((backends typeName).states.run s)
    (fun v t => ∃ stateIds : List String, v = some (.array (stateIds.map .string)) ∧
      Shelf.Step (view s) (.listed (·.typeName = typeName) (stateIds.map (⟨typeName, ·⟩))) (view t))
    fun _ t => Shelf.Step (view s) .quiet (view t)
  deleteState : ∀ typeName stateId s, Ends (((backends typeName).deleteState (some (.string stateId))).run s)
    (fun _ t => Shelf.Step (view s) (.cleared ⟨typeName, stateId⟩) (view t))
    fun _ t => Shelf.Step (view s) (.lost ⟨typeName, stateId⟩) (view t)

section

variable {ε ε' α β σ : Type} {call : ExceptT ε (StateM σ) α} {store store' : σ} {e : ε}

theorem run_bind_of_error (h : call.run store = (.error e, store')) (next : α → ExceptT ε (StateM σ) β) :
    (call >>= next).run store = (.error e, store') := by
  rw [ExceptT.run_bind]
  simp only [bind, StateT.bind]
  rw [h]
  rfl

theorem run_adapt_of_error (h : call.run store = (.error e, store')) (f : ε → ε') :
    (call.adapt f).run store = (.error (f e), store') := by
  rw [ExceptT.run_adapt]
  simp only [Functor.map, StateT.map]
  rw [h]
  rfl

end

namespace Ends

variable {ε ε' α β σ : Type} {done done' : α → σ → Prop} {failed failed' : ε → σ → Prop}

theorem mono {ended : Except ε α × σ} (h : Ends ended done failed) (hdone : ∀ a t, done a t → done' a t)
    (hfailed : ∀ e t, failed e t → failed' e t) : Ends ended done' failed' := by
  obtain ⟨result, t⟩ := ended
  cases result with
  | ok a => exact hdone a t h
  | error e => exact hfailed e t h

theorem bind {call : ExceptT ε (StateM σ) α} {s : σ} (h : Ends (call.run s) done failed)
    {next : α → ExceptT ε (StateM σ) β} {done' : β → σ → Prop}
    (hnext : ∀ a t, done a t → Ends ((next a).run t) done' failed) : Ends ((call >>= next).run s) done' failed := by
  cases hcall : call.run s with
  | mk result t =>
      rw [hcall] at h
      cases result with
      | ok a =>
          rw [run_bind_of_ok hcall]
          exact hnext a t h
      | error e =>
          rw [run_bind_of_error hcall]
          exact h

theorem adapt {call : ExceptT ε (StateM σ) α} {s : σ} (f : ε → ε') {failed : ε' → σ → Prop}
    (h : Ends (call.run s) done fun e t => failed (f e) t) : Ends ((call.adapt f).run s) done failed := by
  cases hcall : call.run s with
  | mk result t =>
      rw [hcall] at h
      cases result with
      | ok a =>
          rw [run_adapt_of_ok hcall]
          exact h
      | error e =>
          rw [run_adapt_of_error hcall]
          exact h

theorem pure {a : α} {s : σ} (h : done a s) : Ends ((Pure.pure a : ExceptT ε (StateM σ) α).run s) done failed := h

end Ends

section

variable {crates : Crates} {js : JsJson} (h : js.Speaks crates) {σ : Type} {backends : String → LockingBackend σ}
  {view : σ → Shelf StateRequest String String} (hlawful : Lawful backends view)

theorem property_pair {key : String} (hkey : key ≠ "stateId") (stateId value : String) :
    property (.object (OrdMap.ofList [("stateId", .string stateId), (key, .string value)])) "stateId" =
        .ok (some (.string stateId)) ∧
      property (.object (OrdMap.ofList [("stateId", .string stateId), (key, .string value)])) key =
        .ok (some (.string value)) := by
  rw [property, property, OrdMap.get?_ofList, OrdMap.get?_ofList]
  constructor
  · simp [hkey]
  · simp

def kept (data : Bytes) : Bytes := Utf8.encode (Utf8.fromUtf8Lossy data)

def Fails (view : σ → Shelf StateRequest String String) (s : σ) (attempt : Shelf.Event StateRequest String String)
    (diags : Diagnostics) (t : σ) : Prop :=
  hasError (pbDiagnostics diags) = true ∧ Shelf.Step (view s) attempt (view t)

theorem callJson_ends {call : Promise σ Bytes} {s : σ} {done : Bytes → σ → Prop}
    {attempt : Shelf.Event StateRequest String String} (op : String)
    (h : Ends (call.run s) done fun _ t => Shelf.Step (view s) attempt (view t)) :
    Ends ((callJson call op).run s) done (Fails view s attempt) :=
  Ends.adapt (handlerErr op) (h.mono (fun _ _ hdone => hdone) fun _ _ hfailed => ⟨rfl, hfailed⟩)

include h hlawful

theorem readState_ends (typeName stateId : String) (s : σ) :
    Ends ((readState crates js (backends typeName).toStateBackend stateId).run s)
      (fun data t => ∃ text, data = Utf8.encode text ∧
        Shelf.Step (view s) (.read ⟨typeName, stateId⟩ text) (view t))
      (Fails view s .quiet) := by
  have hread : Ends ((read js (backends typeName).toStateBackend (jsonStr crates stateId)).run s)
      (fun out t => ∃ json text, crates.fromSlice out = .ok json ∧ json.asString.elim [] Utf8.encode =
        Utf8.encode text ∧
        Shelf.Step (view s) (.read ⟨typeName, stateId⟩ text) (view t))
      fun _ t => Shelf.Step (view s) .quiet (view t) := by
    rw [read, h.string]
    simp only [liftExcept, pure_bind]
    apply (hlawful.readState typeName stateId s).bind
    rintro v t (⟨hnull, hstep⟩ | ⟨text, rfl, hstep⟩)
    · apply Ends.pure
      rw [hnull]
      exact ⟨.null, "", h.absent, rfl, hstep⟩
    · exact Ends.pure ⟨.string text, text, h.reply text, rfl, hstep⟩
  apply (callJson_ends "read_state" hread).bind
  rintro out t ⟨json, text, hjson, htext, hstep⟩
  rw [hjson]
  exact Ends.pure ⟨text, htext, hstep⟩

theorem writeState_ends (typeName stateId : String) (data : Bytes) (s : σ) :
    Ends ((writeState crates js (backends typeName).toStateBackend stateId data).run s)
      (fun _ t => Shelf.Step (view s) (.wrote ⟨typeName, stateId⟩ (Utf8.fromUtf8Lossy data)) (view t))
      (Fails view s (.lost ⟨typeName, stateId⟩)) := by
  rw [writeState_eq h.toShares]
  exact Ends.adapt _ ((hlawful.writeState typeName stateId _ s).mono (fun _ _ hdone => hdone)
    fun _ _ hfailed => ⟨rfl, hfailed⟩)

theorem lock_ends (typeName stateId operation : String) (s : σ) :
    Ends ((JsStateBackend.lock crates js (backends typeName) stateId operation).run s)
      (fun lockId t => Shelf.Step (view s) (.locked ⟨typeName, stateId⟩ lockId) (view t))
      (Fails view s (.contested ⟨typeName, stateId⟩)) := by
  have hlock : Ends ((lock js (backends typeName) (requestInput crates "operation" stateId operation)).run s)
      (fun out t => ∃ lockId, crates.fromSlice out = .ok (.string lockId) ∧
        Shelf.Step (view s) (.locked ⟨typeName, stateId⟩ lockId) (view t))
      fun _ t => Shelf.Step (view s) (.contested ⟨typeName, stateId⟩) (view t) := by
    obtain ⟨hid, hoperation⟩ := @property_pair "operation" (by decide) stateId operation
    rw [lock, h.pair "operation" (by decide)]
    simp only [liftExcept, pure_bind, hid, hoperation]
    apply (hlawful.lock typeName stateId operation s).bind
    rintro v t ⟨lockId, rfl, hstep⟩
    exact Ends.pure ⟨lockId, h.reply lockId, hstep⟩
  apply (callJson_ends "lock" hlock).bind
  rintro out t ⟨lockId, hout, hstep⟩
  rw [hout]
  exact Ends.pure hstep

theorem unlock_ends (typeName stateId lockId : String) (s : σ) :
    Ends ((JsStateBackend.unlock crates js (backends typeName) stateId lockId).run s)
      (fun _ t => Shelf.Step (view s) (.unlocked ⟨typeName, stateId⟩) (view t))
      (Fails view s (.loosened ⟨typeName, stateId⟩)) := by
  have hunlock : Ends ((unlock js (backends typeName) (requestInput crates "lockId" stateId lockId)).run s)
      (fun _ t => Shelf.Step (view s) (.unlocked ⟨typeName, stateId⟩) (view t))
      fun _ t => Shelf.Step (view s) (.loosened ⟨typeName, stateId⟩) (view t) := by
    obtain ⟨hid, hlockId⟩ := @property_pair "lockId" (by decide) stateId lockId
    rw [unlock, h.pair "lockId" (by decide)]
    simp only [liftExcept, pure_bind, hid, hlockId]
    apply (hlawful.unlock typeName stateId lockId s).bind
    exact fun _ t hstep => Ends.pure hstep
  apply (callJson_ends "unlock" hunlock).bind
  exact fun _ t hstep => Ends.pure hstep

theorem states_ends (typeName : String) (s : σ) :
    Ends ((JsStateBackend.states crates js (backends typeName)).run s)
      (fun stateIds t =>
        Shelf.Step (view s) (.listed (·.typeName = typeName) (stateIds.map (⟨typeName, ·⟩))) (view t))
      (Fails view s .quiet) := by
  have hstates : Ends ((states js (backends typeName)).run s)
      (fun out t => ∃ stateIds : List String, crates.fromSlice out = .ok (.array (stateIds.map .string)) ∧
        Shelf.Step (view s) (.listed (·.typeName = typeName) (stateIds.map (⟨typeName, ·⟩))) (view t))
      fun _ t => Shelf.Step (view s) .quiet (view t) := by
    apply (hlawful.states typeName s).bind
    rintro v t ⟨stateIds, rfl, hstep⟩
    exact Ends.pure ⟨stateIds, h.list stateIds, hstep⟩
  apply (callJson_ends "states" hstates).bind
  rintro out t ⟨stateIds, hout, hstep⟩
  have hids : (stateIds.map Json.string).filterMap Json.asString = stateIds := by
    rw [List.filterMap_map]
    exact List.filterMap_some
  rw [hout]
  apply Ends.pure
  rw [Json.elements, Option.getD_some, hids]
  exact hstep

theorem deleteState_ends (typeName stateId : String) (s : σ) :
    Ends ((JsStateBackend.deleteState crates js (backends typeName) stateId).run s)
      (fun _ t => Shelf.Step (view s) (.cleared ⟨typeName, stateId⟩) (view t))
      (Fails view s (.lost ⟨typeName, stateId⟩)) := by
  have hdelete : Ends ((del js (backends typeName) (jsonStr crates stateId)).run s)
      (fun _ t => Shelf.Step (view s) (.cleared ⟨typeName, stateId⟩) (view t))
      fun _ t => Shelf.Step (view s) (.lost ⟨typeName, stateId⟩) (view t) := by
    rw [del, h.string]
    simp only [liftExcept, pure_bind]
    apply (hlawful.deleteState typeName stateId s).bind
    exact fun _ t hstep => Ends.pure hstep
  apply (callJson_ends "delete_state" hdelete).bind
  exact fun _ t hstep => Ends.pure hstep

theorem perform_ends (typeName : String) {α : Type} (op : Plugin.StoreOp α) (s : σ) : ∃ ended,
    (jsStores crates js backends).perform typeName op s = settled ended ∧
      Ends ended (fun a t => Shelf.Step ((view s).map Utf8.encode) (op.event kept typeName a)
        ((view t).map Utf8.encode))
        fun diags t => hasError (pbDiagnostics diags) = true ∧
          Shelf.Step ((view s).map Utf8.encode) (op.attempt typeName) ((view t).map Utf8.encode) := by
  have hstep : ∀ {t : σ} {e : Shelf.Event StateRequest String String}, Shelf.Step (view s) e (view t) →
      Shelf.Step ((view s).map Utf8.encode) (e.map Utf8.encode) ((view t).map Utf8.encode) :=
    fun hstep => Shelf.Step.map (f := Utf8.encode) rfl hstep
  cases op with
  | readState stateId =>
      refine ⟨_, rfl, (readState_ends h hlawful typeName stateId s).mono ?_
        fun _ _ hfails => ⟨hfails.1, hstep hfails.2⟩⟩
      rintro _ t ⟨text, rfl, hread⟩
      exact hstep hread
  | writeState stateId data =>
      exact ⟨_, rfl, (writeState_ends h hlawful typeName stateId data s).mono (fun _ _ hdone => hstep hdone)
        fun _ _ hfails => ⟨hfails.1, hstep hfails.2⟩⟩
  | lock stateId operation =>
      exact ⟨_, rfl, (lock_ends h hlawful typeName stateId operation s).mono (fun _ _ hdone => hstep hdone)
        fun _ _ hfails => ⟨hfails.1, hstep hfails.2⟩⟩
  | unlock stateId lockId =>
      exact ⟨_, rfl, (unlock_ends h hlawful typeName stateId lockId s).mono (fun _ _ hdone => hstep hdone)
        fun _ _ hfails => ⟨hfails.1, hstep hfails.2⟩⟩
  | states =>
      exact ⟨_, rfl, (states_ends h hlawful typeName s).mono (fun _ _ hdone => hstep hdone)
        fun _ _ hfails => ⟨hfails.1, hstep hfails.2⟩⟩
  | deleteState stateId =>
      exact ⟨_, rfl, (deleteState_ends h hlawful typeName stateId s).mono (fun _ _ hdone => hstep hdone)
        fun _ _ hfails => ⟨hfails.1, hstep hfails.2⟩⟩

theorem shelves_jsStores : (jsStores crates js backends).Shelves (fun s => (view s).map Utf8.encode) kept where
  succeeds typeName α op s a hfinish := by
    obtain ⟨⟨result, t⟩, hperform, hends⟩ := perform_ends h hlawful typeName op s
    rw [hperform] at hfinish ⊢
    cases hfinish
    exact hends
  fails typeName α op s hfinish := by
    obtain ⟨⟨result, t⟩, hperform, hends⟩ := perform_ends h hlawful typeName op s
    rw [hperform] at hfinish ⊢
    cases result with
    | ok a => exact absurd rfl (hfinish a)
    | error diags => exact hends.2
  honest typeName α op s diags hfinish := by
    obtain ⟨⟨result, t⟩, hperform, hends⟩ := perform_ends h hlawful typeName op s
    rw [hperform] at hfinish
    cases hfinish
    exact hends.1

variable {service : Plugin.ProviderService} {s s₁ s₂ t : σ} {before mid after : List (σ × Plugin.Exchange)}
  {first last : Plugin.Exchange} {answer : first.ρ} {answer' : last.ρ} {req : StateRequest} {content : Option Bytes}

/-- What core last did to a state in a store of texts is what it is shown of it:
all of the bytes when they are UTF-8, and otherwise what is left of them. -/
theorem jsStores_show
    (hrun : Run ((jsStores crates js backends).Serves crates service) s
      (before ++ (s₁, first) :: mid ++ (s₂, last) :: after) t)
    (hfirst : first.Answers answer) (hleaves : first.rpc.Leaves id req content)
    (hmid : ∀ p ∈ mid, ¬p.2.rpc.Rewrites req) (hlast : last.Answers answer') :
    last.rpc.Shows req (content.map kept) answer' ∧
      ((∀ data ∈ content, Utf8.isValid data = true) → last.rpc.Shows req content answer') := by
  obtain ⟨u, v, hkept, hserves⟩ := Run.between hrun
  have hshelves := shelves_jsStores h hlawful
  have hcontent := Plugin.Stores.content_of_leaves hshelves hkept hfirst (hleaves.map kept) hmid
  refine ⟨Plugin.Stores.shows_of_content hshelves hserves hlast hcontent, fun hvalid => ?_⟩
  have hsame : content.map kept = content := by
    cases content with
    | none => rfl
    | some data =>
        obtain ⟨text, rfl⟩ := Utf8.isValid_iff.mp (hvalid data rfl)
        rw [Option.map_some, kept, Utf8.fromUtf8Lossy_encode]
  rw [hsame] at hcontent
  exact Plugin.Stores.shows_of_content hshelves hserves hlast hcontent

end

theorem requestInput_real {key : String} (hkey : (",\"" ++ key ++ "\":").toList =
    ',' :: (JsonText.printString key.toList ++ [':'])) (stateId value : String) :
    requestInput Crates.real key stateId value = Utf8.encode (String.ofList (JsonText.print
      (.object [("stateId".toList, .string stateId.toList), (key.toList, .string value.toList)]))) := by
  have hstr : ∀ s, jsonStr Crates.real s = Utf8.encode (String.ofList (JsonText.printString s.toList)) := by
    intro s
    have hvec : jsonStr Crates.real s = Utf8.encode (String.ofList (JsonText.print (Json.string s).toTree)) := rfl
    rw [hvec, Json.toTree, JsonText.print]
  have hopen : "\x7b\"stateId\":".toList = '{' :: (JsonText.printString "stateId".toList ++ [':']) := by decide
  have hclose : "\x7d".toList = ['}'] := by decide
  rw [requestInput, hstr, hstr, ← Utf8.encode_append, ← Utf8.encode_append, ← Utf8.encode_append,
    ← Utf8.encode_append]
  refine congrArg Utf8.encode (String.toList_injective ?_)
  rw [String.toList_append, String.toList_append, String.toList_append, String.toList_append, hkey, hopen, hclose]
  simp only [String.toList_ofList, JsonText.print, JsonText.printMembers, JsonText.join, List.cons_append,
    List.append_assoc, List.nil_append]

theorem real_speaks : JsJson.real.Speaks Crates.real where
  toShares := real_shares
  pair key hkey stateId value := by
    have hspelled : (",\"" ++ key ++ "\":").toList = ',' :: (JsonText.printString key.toList ++ [':']) := by
      rw [List.mem_pair] at hkey
      obtain rfl | rfl := hkey
      · decide
      · decide
    have htree : Json.ofTree
        (.object [("stateId".toList, .string stateId.toList), (key.toList, .string value.toList)]) =
        some (.object (OrdMap.ofList [("stateId", .string stateId), (key, .string value)])) := by
      simp [Json.ofTree, Json.ofMembers]
    rw [requestInput_real hspelled]
    simp only [JsJson.real, Crates.real, Utf8.ofBytes_encode, String.toList_ofList]
    rw [JsonText.parse_print rfl, Option.bind_some, htree]
  absent := by
    simp only [JsJson.real]
    exact @Crates.real_fromSlice_toVec .null rfl
  list strings := by
    simp only [JsJson.real]
    apply Crates.real_fromSlice_toVec
    apply Json.plainItems_iff.mpr
    intro json hjson
    obtain ⟨s, -, rfl⟩ := List.mem_map.mp hjson
    rfl

def grant (req : StateRequest) (operation : String) (s : Shelf StateRequest String String) :
    Except String JsValue × Shelf StateRequest String String :=
  match s.holder req with
  | none => (.ok (some (.string operation)), { s with holder := Function.update s.holder req (some operation) })
  | some holder => (.error ("locked by " ++ holder), s)

def notes (typeName : String) : LockingBackend (Shelf StateRequest String String) where
  readState stateId := do
    let stateId ← textOf stateId
    let s ← get
    pure ((s.content ⟨typeName, stateId⟩).map .string)
  writeState stateId data := do
    let stateId ← textOf stateId
    let data ← textOf data
    modify fun s => { s with content := Function.update s.content ⟨typeName, stateId⟩ (some data) }
  lock stateId operation := do
    let stateId ← textOf stateId
    let operation ← textOf operation
    ExceptT.mk (grant ⟨typeName, stateId⟩ operation)
  unlock stateId _ := do
    let stateId ← textOf stateId
    modify fun s => { s with holder := Function.update s.holder ⟨typeName, stateId⟩ none }
  states := liftExcept (.error "not listed")
  deleteState stateId := do
    let stateId ← textOf stateId
    modify fun s => { s with content := Function.update s.content ⟨typeName, stateId⟩ none }
where
  textOf (v : JsValue) : Promise (Shelf StateRequest String String) String :=
    liftExcept ((v.bind Json.asString).elim (.error "no text") .ok)

theorem notes_lawful : Lawful notes id where
  readState typeName stateId s := by
    have hrun : ((notes typeName).readState (some (.string stateId))).run s =
        (.ok ((s.content ⟨typeName, stateId⟩).map .string), s) := rfl
    rw [hrun]
    cases hcontent : s.content ⟨typeName, stateId⟩ with
    | none => exact .inl ⟨rfl, rfl, by rw [id, hcontent]; rfl⟩
    | some text => exact .inr ⟨text, rfl, rfl, by rw [id, hcontent]; rfl⟩
  writeState typeName stateId text s := rfl
  lock typeName stateId operation s := by
    have hrun : ((notes typeName).lock (some (.string stateId)) (some (.string operation))).run s =
        grant ⟨typeName, stateId⟩ operation s := rfl
    rw [hrun, grant]
    cases hholder : s.holder ⟨typeName, stateId⟩ with
    | none => exact ⟨operation, rfl, hholder, rfl⟩
    | some holder => exact ⟨rfl, fun _ => rfl, fun _ _ => rfl⟩
  unlock typeName stateId lockId s := rfl
  states typeName s := rfl
  deleteState typeName stateId s := rfl

open Plugin Plugin.Stores in
theorem jsStores_show_vault : (StoreRpc.read vaultReq).Shows vaultReq (some [1, 2, 3])
    (ProviderService.chunkState [1, 2, 3] 0) := by
  let stores := jsStores Crates.real JsJson.real notes
  let s : Shelf StateRequest String String := ⟨fun _ => none, fun _ => none⟩
  have hwrite : stores.Serves Crates.real ProviderService.vaultService s ⟨vaultWrite, some ⟨[]⟩⟩
      (ProviderService.vaultService.serveStoreVia stores.guarded vaultWrite s).2 := ⟨by decide +kernel, rfl⟩
  have hread : stores.Serves Crates.real ProviderService.vaultService
      (ProviderService.vaultService.serveStoreVia stores.guarded vaultWrite s).2
      ⟨.read vaultReq, some (ProviderService.chunkState [1, 2, 3] 0)⟩ _ := ⟨by decide +kernel, rfl⟩
  have hrun := Run.cons _ _ _ _ _ hwrite (.cons _ _ _ _ _ hread (.nil _))
  have hanswers : Exchange.Answers ⟨vaultWrite, some ⟨[]⟩⟩ (⟨[]⟩ : DiagnosticsResponse) := ⟨rfl, rfl⟩
  have hshow := @jsStores_show _ _ real_speaks _ _ _ notes_lawful _ _ _ _ _ [] [] [] _ _ _ _ vaultReq _ hrun hanswers
    ⟨[1, 2, 3], rfl, rfl⟩ (List.forall_mem_nil _) ⟨rfl, rfl⟩
  apply hshow.2
  rintro data hdata
  obtain rfl := Option.some.inj hdata
  decide +kernel

end Node

end TofuSdk
