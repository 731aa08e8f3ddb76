import TofuSdk.Encode

namespace TofuSdk

namespace Ty

def fromCtyJsonBytes (crates : Crates) (bytes : Bytes) : Except String Ty := do
  let json ← (crates.fromSlice bytes).mapError ("invalid cty type JSON: " ++ ·)
  fromCtyJson json

end Ty

namespace Mp

def mismatch (expected : String) (mp : Mp) : CodecError := .typeMismatch expected mp.kind

def asArray (mp : Mp) (expected : String) : Except CodecError (List Mp) :=
  match mp with
  | .array items => .ok items
  | other => .error (mismatch expected other)

def asMap (mp : Mp) (expected : String) : Except CodecError (List (Mp × Mp)) :=
  match mp with
  | .map pairs => .ok pairs
  | other => .error (mismatch expected other)

end Mp

def numberFromMp : Mp → Option Number
  | .integer i => (i.asI64.map .i64).or (i.asU64.map .u64)
  | .f64 f => some (.f64 f)
  | .f32 f => some (.f64 f.cast)
  | .string s => s.asStr.bind Number.fromStr
  | _ => none

def typeBytes : Mp → Except CodecError Bytes
  | .binary bytes => .ok bytes
  | .string s => .ok s.asBytes
  | other => .error (.dynamic ("dynamic type must be bytes/string, found " ++ other.kind))

def decodeScalar (mp : Mp) : Ty → Except CodecError Value
  | .bool => match mp with
      | .boolean b => .ok (.bool b)
      | other => .error (other.mismatch "bool")
  | .number => match numberFromMp mp with
      | some n => .ok (.number n)
      | none => .error (mp.mismatch "number")
  | .string => match mp.asStr with
      | some s => .ok (.string s)
      | none => .error (mp.mismatch "string")
  | ty => .error (mp.mismatch ty.expected)

mutual

/-- Decode a wire value under a schema type. Null and unknown are recognised
before the type is consulted. -/
def fromMp (crates : Crates) (mp : Mp) (ty : Ty) : Except CodecError Value :=
  match mp with
  | .nil => .ok .null
  | .ext _ _ => .ok .unknown
  | .array items => match ty with
      | .list elem => .list <$> decodeEach crates items elem
      | .set elem => .set <$> decodeEach crates items elem
      | .tuple elems =>
          if items.length ≠ elems.length then
            .error (.typeMismatch ("tuple of " ++ toString elems.length ++ " elements")
              "array of different length")
          else .tuple <$> decodeZip crates items elems
      | .dynamic => decodePair crates items
      | ty => decodeScalar (.array items) ty
  | .map pairs => match ty with
      | .map elem => .map <$> decodeEntries crates pairs elem OrdMap.empty
      | .object attrs => .object <$> attrs.foldlM
          (fun fields attr => (fun v => fields.insert attr.name v) <$>
            decodeField crates pairs attr.name attr.ty)
          OrdMap.empty
      | ty => decodeScalar (.map pairs) ty
  | .boolean b => decodeScalar (.boolean b) ty
  | .integer i => decodeScalar (.integer i) ty
  | .f32 f => decodeScalar (.f32 f) ty
  | .f64 f => decodeScalar (.f64 f) ty
  | .string s => decodeScalar (.string s) ty
  | .binary bytes => decodeScalar (.binary bytes) ty
termination_by structural mp

def decodeEach (crates : Crates) (items : List Mp) (elem : Ty) : Except CodecError (List Value) :=
  match items with
  | [] => .ok []
  | mp :: mps => do
      let v ← fromMp crates mp elem
      let vs ← decodeEach crates mps elem
      pure (v :: vs)
termination_by structural items

def decodeZip (crates : Crates) (items : List Mp) (elems : List Ty) :
    Except CodecError (List Value) :=
  match items, elems with
  | mp :: mps, t :: ts => do
      let v ← fromMp crates mp t
      let vs ← decodeZip crates mps ts
      pure (v :: vs)
  | _, _ => .ok []
termination_by structural items

def decodePair (crates : Crates) (items : List Mp) : Except CodecError Value :=
  match items with
  | [type, value] => do
      let bytes ← typeBytes type
      let ty ← (Ty.fromCtyJsonBytes crates bytes).mapError .dynamic
      fromMp crates value ty
  | items => .error (.dynamic ("expected a 2-element [type, value] array, found " ++
      toString items.length ++ " elements"))
termination_by structural items

def decodeEntries (crates : Crates) (pairs : List (Mp × Mp)) (elem : Ty) (entries : Fields) :
    Except CodecError Fields :=
  match pairs with
  | [] => .ok entries
  | (k, mp) :: pairs => match k.asStr with
      | some key => do
          let v ← fromMp crates mp elem
          decodeEntries crates pairs elem (entries.insert key v)
      | none => .error (.decode "map key was not a string")
termination_by structural pairs

def decodeField (crates : Crates) (pairs : List (Mp × Mp)) (name : String) (ty : Ty) :
    Except CodecError Value :=
  match pairs with
  | [] => .ok .null
  | (k, mp) :: pairs =>
      if k.asStr = some name then fromMp crates mp ty else decodeField crates pairs name ty
termination_by structural pairs

end

def decodeMsgpack (crates : Crates) (bytes : Bytes) (ty : Ty) : Except CodecError Value :=
  if bytes.isEmpty then .ok .null
  else do
    let mp ← (crates.readValue bytes).mapError .decode
    fromMp crates mp ty

namespace Json

def isNull : Json → Bool
  | .null => true
  | _ => false

def kind : Json → String
  | .null => "null"
  | .bool _ => "bool"
  | .number _ => "number"
  | .string _ => "string"
  | .array _ => "array"
  | .object _ => "object"
  | .other => "value"

def mismatch (expected : String) (json : Json) : CodecError := .typeMismatch expected json.kind

def asArray (json : Json) (expected : String) : Except CodecError (List Json) :=
  match json with
  | .array items => .ok items
  | json => .error (mismatch expected json)

def asObject (json : Json) (expected : String) : Except CodecError (OrdMap String Json) :=
  match json with
  | .object fields => .ok fields
  | json => .error (mismatch expected json)

end Json

section

variable (crates : Crates)

def jsonNumber (n : VNumber) : Number :=
  match crates.toI64 n with
  | some i => .i64 i
  | none => match crates.toU64 n with
      | some u => .u64 u
      | none => .f64 (crates.toF64Lossy n)

mutual

def decodeJsonDynamic (json : Json) : Except CodecError Value :=
  match json with
  | .null => .ok .null
  | .bool b => .ok (.bool b)
  | .number n => .ok (.number (jsonNumber crates n))
  | .string s => .ok (.string s)
  | .array items => .tuple <$> decodeJsonItems items
  | .object fields => .object <$> decodeJsonFields fields
  | .other => .error (.decode "unsupported dynamic JSON value")
termination_by structural json

def decodeJsonItems (items : List Json) : Except CodecError (List Value) :=
  match items with
  | [] => .ok []
  | json :: jsons => do
      let v ← decodeJsonDynamic json
      let vs ← decodeJsonItems jsons
      pure (v :: vs)
termination_by structural items

def decodeJsonFields (fields : OrdMap String Json) : Except CodecError Fields :=
  match fields with
  | ⟨keys, _, val⟩ => (List.finRange keys.length).foldlM
      (fun entries i => (fun v => entries.insert (keys.get i) v) <$> decodeJsonDynamic (val i))
      OrdMap.empty
termination_by structural fields

end

def decodeJsonValue (json : Json) : Except CodecError Value := decodeJsonDynamic crates json

mutual

/-- Decode stored state under a schema type. Stored state is wholly known. -/
def decodeJson (json : Json) (ty : Ty) : Except CodecError Value :=
  if json.isNull then .ok .null
  else match ty with
  | .bool => match json with
      | .bool b => .ok (.bool b)
      | json => .error (json.mismatch "bool")
  | .number => match json with
      | .number n => .ok (.number (jsonNumber crates n))
      | .string s => match Number.fromStr s with
          | some n => .ok (.number n)
          | none => .error (Json.mismatch "number" (.string s))
      | json => .error (json.mismatch "number")
  | .string => match json with
      | .string s => .ok (.string s)
      | json => .error (json.mismatch "string")
  | .list elem => do
      let items ← json.asArray "list"
      .list <$> items.mapM fun v => decodeJson v elem
  | .set elem => do
      let items ← json.asArray "set"
      .set <$> items.mapM fun v => decodeJson v elem
  | .tuple elems => do
      let items ← json.asArray "tuple"
      if items.length ≠ elems.length then
        .error (.typeMismatch ("tuple of " ++ toString elems.length ++ " elements")
          "array of different length")
      else .tuple <$> decodeJsonZip items elems
  | .map elem => do
      let obj ← json.asObject "map"
      .map <$> obj.toList.foldlM
        (fun entries p => (fun v => entries.insert p.1 v) <$> decodeJson p.2 elem) OrdMap.empty
  | .object attrs => do
      let obj ← json.asObject "object"
      .object <$> decodeJsonAttrs obj attrs OrdMap.empty
  | .dynamic => decodeJsonDynamic crates json
termination_by structural ty

def decodeJsonZip (items : List Json) (elems : List Ty) : Except CodecError (List Value) :=
  match elems, items with
  | t :: ts, json :: jsons => do
      let v ← decodeJson json t
      let vs ← decodeJsonZip jsons ts
      pure (v :: vs)
  | _, _ => .ok []
termination_by structural elems

def decodeJsonAttrs (obj : OrdMap String Json) (attrs : List ObjectAttr) (fields : Fields) :
    Except CodecError Fields :=
  match attrs with
  | [] => .ok fields
  | ⟨name, ty, _⟩ :: attrs => do
      let v ← match obj.get? name with
        | some json => decodeJson json ty
        | none => .ok .null
      decodeJsonAttrs obj attrs (fields.insert name v)
termination_by structural attrs

end

end

section

variable (crates : Crates)

def decodeMap (mp : Mp) (elem : Ty) : Except CodecError Value := do
  let pairs ← mp.asMap "map"
  .map <$> decodeEntries crates pairs elem OrdMap.empty

def decodeObject (mp : Mp) (attrs : List ObjectAttr) : Except CodecError Value := do
  let pairs ← mp.asMap "object"
  .object <$> attrs.foldlM
    (fun fields attr => (fun v => fields.insert attr.name v) <$>
      decodeField crates pairs attr.name attr.ty)
    OrdMap.empty

def decodeTuple (mp : Mp) (elems : List Ty) : Except CodecError Value := do
  let items ← mp.asArray "tuple"
  if items.length ≠ elems.length then
    .error (.typeMismatch ("tuple of " ++ toString elems.length ++ " elements")
      "array of different length")
  else .tuple <$> decodeZip crates items elems

def decodeDynamic (mp : Mp) : Except CodecError Value := do
  let items ← mp.asArray "dynamic"
  decodePair crates items

theorem fromMp_eq {mp : Mp} (hnil : mp ≠ .nil) (hext : ∀ kind bytes, mp ≠ .ext kind bytes) (ty : Ty) :
    fromMp crates mp ty = match ty with
      | .list elem => do .list <$> decodeEach crates (← mp.asArray "list") elem
      | .set elem => do .set <$> decodeEach crates (← mp.asArray "set") elem
      | .tuple elems => decodeTuple crates mp elems
      | .map elem => decodeMap crates mp elem
      | .object attrs => decodeObject crates mp attrs
      | .dynamic => decodeDynamic crates mp
      | ty => decodeScalar mp ty := by
  cases mp with
  | nil => exact absurd rfl hnil
  | ext kind bytes => exact absurd rfl (hext kind bytes)
  | _ => cases ty <;> rfl

theorem decodeEach_eq (items : List Mp) (elem : Ty) :
    decodeEach crates items elem = items.mapM fun mp => fromMp crates mp elem := by
  induction items with
  | nil => rfl
  | cons mp mps ih => rw [decodeEach, ih, List.mapM_cons]

theorem decodeZip_eq (items : List Mp) (elems : List Ty) :
    decodeZip crates items elems = (items.zip elems).mapM fun p => fromMp crates p.1 p.2 := by
  induction items generalizing elems with
  | nil => rfl
  | cons mp mps ih =>
      cases elems with
      | nil => rfl
      | cons t ts => rw [decodeZip, ih, List.zip_cons_cons, List.mapM_cons]

theorem decodeEntries_of_text (l : List (String × Mp)) (elem : Ty) (entries : Fields) :
    decodeEntries crates (l.map fun p => (.string (.text p.1), p.2)) elem entries =
      l.foldlM (fun m p => (fun v => m.insert p.1 v) <$> fromMp crates p.2 elem) entries := by
  induction l generalizing entries with
  | nil => rfl
  | cons p l ih =>
      rw [List.map_cons, decodeEntries, List.foldlM_cons]
      simp only [Mp.asStr, Utf8String.asStr]
      cases fromMp crates p.2 elem with
      | error e => rfl
      | ok v => exact ih _

theorem decodeField_of_text (l : List (String × Mp)) (name : String) (ty : Ty) :
    decodeField crates (l.map fun p => (.string (.text p.1), p.2)) name ty =
      match l.find? fun p => p.1 = name with
      | some p => fromMp crates p.2 ty
      | none => .ok .null := by
  induction l with
  | nil => rfl
  | cons p l ih =>
      rw [List.map_cons, decodeField, List.find?_cons]
      by_cases h : p.1 = name
      · simp [h, Mp.asStr, Utf8String.asStr]
      · simp [h, Mp.asStr, Utf8String.asStr, ih]

end

end TofuSdk
