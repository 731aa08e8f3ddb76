import TofuSdk.Utf8
import TofuSdk.RealCrates
import TofuSdk.Handler

namespace TofuSdk

namespace Node

abbrev Promise (σ : Type) := ExceptT String (StateM σ)

abbrev JsValue := Option Json

/-- The JSON functions of JavaScript. -/
structure JsJson where
  parse : Bytes → Except String Json
  stringify : Json → Bytes

/-- The state store of an author, over what it stores in. The casts of its
arguments are not checked. -/
structure StateBackend (σ : Type) where
  readState (stateId : JsValue) : Promise σ JsValue
  writeState (stateId data : JsValue) : Promise σ Unit

def property (json : Json) (name : String) : Except String JsValue :=
  match json with
  | .null => .error ("Cannot destructure property '" ++ name ++ "' of 'JSON.parse(...)' as it is null.")
  | .object fields => .ok (fields.get? name)
  | _ => .ok none

def handlerErr (ctx e : String) : Diagnostics := [Diag.error (ctx ++ " handler failed") e]

section

variable (crates : Crates) (js : JsJson) {σ : Type} (backend : StateBackend σ)

def read (input : Bytes) : Promise σ Bytes := do
  let stateId ← liftExcept (js.parse input)
  let result ← backend.readState (some stateId)
  pure (js.stringify (result.getD .null))

def write (input : Bytes) : Promise σ Bytes := do
  let parsed ← liftExcept (js.parse input)
  let stateId ← liftExcept (property parsed "stateId")
  let data ← liftExcept (property parsed "data")
  backend.writeState stateId data
  pure (Utf8.encode "null")

def callJson (handler : Promise σ Bytes) (op : String) : ExceptT Diagnostics (StateM σ) Bytes :=
  ExceptT.adapt (handlerErr op) handler

def jsonStr (s : String) : Bytes := crates.toVec (.string s)

def writeInput (stateId content : String) : Bytes :=
  Utf8.encode "\x7b\"stateId\":" ++ jsonStr crates stateId ++ Utf8.encode ",\"data\":" ++ jsonStr crates content ++
    Utf8.encode "\x7d"

def readState (stateId : String) : ExceptT Diagnostics (StateM σ) Bytes := do
  let out ← callJson (read js backend (jsonStr crates stateId)) "read_state"
  let parsed ← liftExcept ((crates.fromSlice out).mapError (handlerErr "read_state"))
  pure (parsed.asString.elim [] Utf8.encode)

def writeState (stateId : String) (data : Bytes) : ExceptT Diagnostics (StateM σ) Unit := do
  let content := Utf8.fromUtf8Lossy data
  let _ ← callJson (write js backend (writeInput crates stateId content)) "write_state"
  pure ()

end

/-- JavaScript and the crate read each other's JSON, as far as stores use it. -/
structure JsJson.Shares (js : JsJson) (crates : Crates) : Prop where
  string : ∀ s, js.parse (jsonStr crates s) = .ok (.string s)
  request : ∀ stateId content, js.parse (writeInput crates stateId content) =
    .ok (.object (OrdMap.ofList [("stateId", .string stateId), ("data", .string content)]))
  reply : ∀ s, crates.fromSlice (js.stringify (.string s)) = .ok (.string s)

/-- A write fails whatever the store, or hands the store a payload, and the state
that is read when the store returns that payload is the one that was written. -/
def KeepsBytes (crates : Crates) (js : JsJson) (data : Bytes) : Prop :=
  ∀ stateId,
    (∀ (σ : Type) (backend : StateBackend σ) (store : σ),
      ∃ diags, ((writeState crates js backend stateId data).run store).1 = .error diags) ∨
    ∃ payload : JsValue,
      (∀ (σ : Type) (backend : StateBackend σ), writeState crates js backend stateId data =
        ExceptT.adapt (handlerErr "write_state") (backend.writeState (some (.string stateId)) payload)) ∧
      ∀ (σ : Type) (backend : StateBackend σ) (store store' : σ),
        (backend.readState (some (.string stateId))).run store = (.ok payload, store') →
          (readState crates js backend stateId).run store = (.ok data, store')

section

variable {ε ε' α β σ : Type} {call : ExceptT ε (StateM σ) α} {store store' : σ} {a : α}

theorem run_bind_of_ok (h : call.run store = (.ok a, store')) (next : α → ExceptT ε (StateM σ) β) :
    (call >>= next).run store = (next a).run store' := by
  rw [ExceptT.run_bind]
  simp only [bind, StateT.bind]
  rw [h]

theorem run_adapt_of_ok (h : call.run store = (.ok a, store')) (f : ε → ε') :
    (call.adapt f).run store = (.ok a, store') := by
  rw [ExceptT.run_adapt]
  simp only [Functor.map, StateT.map]
  rw [h]
  rfl

end

section

variable {crates : Crates} {js : JsJson} {σ : Type} {backend : StateBackend σ}

theorem writeState_eq (h : js.Shares crates) (stateId : String) (data : Bytes) :
    writeState crates js backend stateId data = ExceptT.adapt (handlerErr "write_state")
      (backend.writeState (some (.string stateId)) (some (.string (Utf8.fromUtf8Lossy data)))) := by
  have hfields : (OrdMap.ofList [("stateId", Json.string stateId), ("data", .string (Utf8.fromUtf8Lossy data))]).get?
      "stateId" = some (.string stateId) ∧
      (OrdMap.ofList [("stateId", Json.string stateId), ("data", .string (Utf8.fromUtf8Lossy data))]).get?
      "data" = some (.string (Utf8.fromUtf8Lossy data)) := by
    rw [OrdMap.get?_ofList, OrdMap.get?_ofList]
    exact ⟨rfl, rfl⟩
  have hwrite : write js backend (writeInput crates stateId (Utf8.fromUtf8Lossy data)) =
      backend.writeState (some (.string stateId)) (some (.string (Utf8.fromUtf8Lossy data))) >>= fun _ =>
        pure (Utf8.encode "null") := by
    rw [write, h.request]
    simp only [liftExcept, pure_bind, property, hfields]
  rw [writeState, hwrite]
  apply ExceptT.ext
  simp only [callJson, bind_pure_comp, ExceptT.run_adapt, ExceptT.run_map, Functor.map_map]
  refine congrArg (· <$> _) ?_
  funext result
  cases result <;> rfl

theorem readState_eq (h : js.Shares crates) {stateId s : String} {store store' : σ}
    (hread : (backend.readState (some (.string stateId))).run store = (.ok (some (.string s)), store')) :
    (readState crates js backend stateId).run store = (.ok (Utf8.encode s), store') := by
  have hcall : (read js backend (jsonStr crates stateId)).run store = (.ok (js.stringify (.string s)), store') := by
    rw [read, h.string]
    simp only [liftExcept, pure_bind]
    rw [run_bind_of_ok hread]
    rfl
  rw [readState, callJson, run_bind_of_ok (run_adapt_of_ok hcall _), h.reply]
  rfl

theorem keepsBytes_of_text (h : js.Shares crates) (s : String) : KeepsBytes crates js (Utf8.encode s) := by
  intro stateId
  refine .inr ⟨some (.string s), fun σ backend => ?_, fun σ backend store store' hread => ?_⟩
  · rw [writeState_eq h, Utf8.fromUtf8Lossy_encode]
  · exact readState_eq h hread

def holder : StateBackend JsValue where
  readState _ := get
  writeState _ data := set data

theorem text_of_keepsBytes (h : js.Shares crates) {data : Bytes} (hdata : KeepsBytes crates js data) :
    ∃ s, Utf8.encode s = data := by
  obtain hfails | ⟨payload, hwrite, hread⟩ := hdata ""
  · obtain ⟨diags, hdiags⟩ := hfails JsValue holder none
    rw [writeState_eq h] at hdiags
    cases hdiags
  · have hheld := congrArg (fun call => (call.run none).2) (hwrite JsValue holder)
    rw [writeState_eq h] at hheld
    obtain rfl : some (.string (Utf8.fromUtf8Lossy data)) = payload := hheld
    have hback := hread JsValue holder (some (.string (Utf8.fromUtf8Lossy data))) _ rfl
    rw [readState_eq h rfl] at hback
    exact ⟨_, Except.ok.inj (congrArg Prod.fst hback)⟩

/-- A store in JavaScript gives back the bytes that are UTF-8, and no others. -/
theorem keepsBytes_iff (h : js.Shares crates) (data : Bytes) :
    KeepsBytes crates js data ↔ Utf8.isValid data = true := by
  rw [Utf8.isValid_iff]
  constructor
  · exact text_of_keepsBytes h
  · rintro ⟨s, rfl⟩
    exact keepsBytes_of_text h s

end

def JsJson.real : JsJson := ⟨Crates.real.fromSlice, Crates.real.toVec⟩

def requestTree (stateId content : String) : JsonText.Tree :=
  .object [("stateId".toList, .string stateId.toList), ("data".toList, .string content.toList)]

theorem writeInput_real (stateId content : String) : writeInput Crates.real stateId content =
    Utf8.encode (String.ofList (JsonText.print (requestTree stateId content))) := by
  have hstr : ∀ s, jsonStr Crates.real s = Utf8.encode (String.ofList (JsonText.printString s.toList)) := by
    intro s
    have hvec : jsonStr Crates.real s = Utf8.encode (String.ofList (JsonText.print (Json.string s).toTree)) := rfl
    rw [hvec, Json.toTree, JsonText.print]
  have hopen : "\x7b\"stateId\":".toList = '{' :: (JsonText.printString "stateId".toList ++ [':']) := by decide
  have hnext : ",\"data\":".toList = ',' :: (JsonText.printString "data".toList ++ [':']) := by decide
  have hclose : "\x7d".toList = ['}'] := by decide
  rw [writeInput, hstr, hstr, ← Utf8.encode_append, ← Utf8.encode_append, ← Utf8.encode_append,
    ← Utf8.encode_append]
  refine congrArg Utf8.encode (String.toList_injective ?_)
  simp only [String.toList_append, String.toList_ofList, hopen, hnext, hclose, requestTree, JsonText.print,
    JsonText.printMembers, JsonText.join, List.cons_append, List.append_assoc, List.nil_append]

theorem wellSpelled_requestTree (stateId content : String) :
    JsonText.wellSpelled (requestTree stateId content) = true := rfl

theorem real_shares : JsJson.real.Shares Crates.real where
  string s := by
    simp only [JsJson.real, jsonStr]
    exact @Crates.real_fromSlice_toVec (.string s) rfl
  request stateId content := by
    have htree : Json.ofTree (requestTree stateId content) =
        some (.object (OrdMap.ofList [("stateId", .string stateId), ("data", .string content)])) := by
      simp [requestTree, Json.ofTree, Json.ofMembers]
    rw [writeInput_real]
    simp only [JsJson.real, Crates.real, Utf8.ofBytes_encode, String.toList_ofList,
      JsonText.parse_print (wellSpelled_requestTree stateId content), Option.bind_some, htree]
  reply s := by
    simp only [JsJson.real]
    exact @Crates.real_fromSlice_toVec (.string s) rfl

theorem keepsBytes_json : KeepsBytes Crates.real JsJson.real (Utf8.encode "\x7b\x7d") :=
  (keepsBytes_iff real_shares _).mpr (Utf8.isValid_iff.mpr ⟨_, rfl⟩)

/-- A gzip header does not come back. -/
theorem gzip_lost : ¬KeepsBytes Crates.real JsJson.real [0x1F, 0x8B] := by
  intro h
  have hvalid := Utf8.isValid_iff.mpr (text_of_keepsBytes real_shares h)
  revert hvalid
  decide +kernel

end Node

end TofuSdk
