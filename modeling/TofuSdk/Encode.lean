import TofuSdk.Codec
import TofuSdk.Outcome

namespace TofuSdk

open ValueOf

namespace Ty

def toCtyJsonBytes (crates : Crates) (ty : Ty) : Bytes := crates.toVec ty.toCtyJson

def expected : Ty → String
  | .bool => "bool"
  | .number => "number"
  | .string => "string"
  | .dynamic => "dynamic"
  | .list _ => "list"
  | .set _ => "set"
  | .map _ => "map"
  | .object _ => "object"
  | .tuple _ => "tuple"

end Ty

namespace Value

def kind : Value → String
  | .null => "null"
  | .unknown => "unknown"
  | .bool _ => "bool"
  | .number _ => "number"
  | .string _ => "string"
  | .list _ => "list"
  | .set _ => "set"
  | .map _ => "map"
  | .object _ => "object"
  | .tuple _ => "tuple"

def mismatch (expected : String) (found : Value) : CodecError := .typeMismatch expected found.kind

def expectBool : Value → Except CodecError Bool
  | .bool b => .ok b
  | other => .error (mismatch "bool" other)

def expectNumber : Value → Except CodecError Number
  | .number n => .ok n
  | other => .error (mismatch "number" other)

def expectString : Value → Except CodecError String
  | .string s => .ok s
  | other => .error (mismatch "string" other)

def expectList : Value → Except CodecError (List Value)
  | .list items => .ok items
  | other => .error (mismatch "list" other)

def expectSet : Value → Except CodecError (List Value)
  | .set items => .ok items
  | other => .error (mismatch "set" other)

def expectTuple : Value → Except CodecError (List Value)
  | .tuple items => .ok items
  | other => .error (mismatch "tuple" other)

def expectMap : Value → Except CodecError Fields
  | .map entries => .ok entries
  | other => .error (mismatch "map" other)

def expectObject : Value → Except CodecError Fields
  | .object fields => .ok fields
  | other => .error (mismatch "object" other)

end Value

def numberToMp : Number → Mp
  | .i64 i => .integer (.ofI64 i)
  | .u64 u => .integer (.ofU64 u)
  | .f64 f =>
      if f.isIntegral && (BinaryFloat.ofInt (-2 ^ 63)).le f && f.le (BinaryFloat.ofInt (2 ^ 63 - 1)) then
        .integer (.ofI64 (Int64.ofInt (f.toIntSat (-2 ^ 63) (2 ^ 63 - 1))))
      else .f64 f

def dynamicSlot (crates : Crates) (value : Value) (ty : Ty) (encode : Ty → Except CodecError Mp) :
    Except CodecError Mp :=
  match ty with
  | .dynamic => do
      let inner ← encode value.inferType
      pure (.array [.binary (value.inferType.toCtyJsonBytes crates), inner])
  | ty => encode ty

def sortedByName (attrs : List ObjectAttr) : List ObjectAttr :=
  attrs.mergeSort fun a b => decide (a.name ≤ b.name)

theorem mem_sortedByName {attrs : List ObjectAttr} {attr : ObjectAttr} :
    attr ∈ sortedByName attrs ↔ attr ∈ attrs := (List.mergeSort_perm _ _).mem_iff

theorem sortedByName_nodup {attrs : List ObjectAttr} (h : (attrs.map (·.name)).Nodup) :
    ((sortedByName attrs).map (·.name)).Nodup := (((List.mergeSort_perm _ _).map _).nodup_iff).mpr h

mutual

/-- Encode a value under a schema type. A dynamic slot encodes the same value
once more, under another type, so the recursion is on the value. -/
def toMp (crates : Crates) (value : Value) (ty : Ty) : Except CodecError Mp :=
  match value with
  | .null => .ok .nil
  | .unknown => .ok (.ext 0 [0])
  | .bool b => dynamicSlot crates (.bool b) ty fun
      | .bool => .ok (.boolean b)
      | ty => .error (Value.mismatch ty.expected (.bool b))
  | .number n => dynamicSlot crates (.number n) ty fun
      | .number => .ok (numberToMp n)
      | ty => .error (Value.mismatch ty.expected (.number n))
  | .string s => dynamicSlot crates (.string s) ty fun
      | .string => .ok (.string (.text s))
      | ty => .error (Value.mismatch ty.expected (.string s))
  | .list items => dynamicSlot crates (.list items) ty fun
      | .list elem => .array <$> encodeEach crates items elem
      | ty => .error (Value.mismatch ty.expected (.list items))
  | .set items => dynamicSlot crates (.set items) ty fun
      | .set elem => .array <$> encodeEach crates items elem
      | ty => .error (Value.mismatch ty.expected (.set items))
  | .tuple items => dynamicSlot crates (.tuple items) ty fun
      | .tuple elems =>
          if items.length ≠ elems.length then
            .error (.typeMismatch ("tuple of " ++ toString elems.length ++ " elements")
              "tuple of different arity")
          else .array <$> encodeZip crates items elems
      | ty => .error (Value.mismatch ty.expected (.tuple items))
  | .map entries => dynamicSlot crates (.map entries) ty fun
      | .map elem => encodeMap crates entries elem
      | ty => .error (Value.mismatch ty.expected (.map entries))
  | .object fields => dynamicSlot crates (.object fields) ty fun
      | .object attrs => encodeObject crates fields attrs
      | ty => .error (Value.mismatch ty.expected (.object fields))
termination_by structural value

def encodeEach (crates : Crates) (items : List Value) (elem : Ty) : Except CodecError (List Mp) :=
  match items with
  | [] => .ok []
  | v :: vs => do
      let mp ← toMp crates v elem
      let mps ← encodeEach crates vs elem
      pure (mp :: mps)
termination_by structural items

def encodeZip (crates : Crates) (items : List Value) (elems : List Ty) :
    Except CodecError (List Mp) :=
  match items, elems with
  | v :: vs, t :: ts => do
      let mp ← toMp crates v t
      let mps ← encodeZip crates vs ts
      pure (mp :: mps)
  | _, _ => .ok []
termination_by structural items

def encodeMap (crates : Crates) (entries : Fields) (elem : Ty) : Except CodecError Mp :=
  match entries with
  | ⟨keys, _, val⟩ => .map <$> (List.finRange keys.length).mapM fun i =>
      (Mp.string (.text (keys.get i)), ·) <$> toMp crates (val i) elem
termination_by structural entries

def encodeObject (crates : Crates) (fields : Fields) (attrs : List ObjectAttr) :
    Except CodecError Mp :=
  match fields with
  | ⟨keys, _, val⟩ => .map <$> (sortedByName attrs).mapM fun attr =>
      (Mp.string (.text attr.name), ·) <$>
        if h : attr.name ∈ keys
        then toMp crates (val ⟨keys.idxOf attr.name, List.idxOf_lt_length_iff.mpr h⟩) attr.ty
        else .ok .nil
termination_by structural fields

end

def encodeMsgpack (crates : Crates) (value : Value) (ty : Ty) : Except CodecError Bytes := do
  let mp ← toMp crates value ty
  (crates.writeValue mp).mapError .encode

section

variable (crates : Crates)

def encodeTuple (value : Value) (elems : List Ty) : Except CodecError Mp := do
  let items ← value.expectTuple
  if items.length ≠ elems.length then
    .error (.typeMismatch ("tuple of " ++ toString elems.length ++ " elements")
      "tuple of different arity")
  else .array <$> encodeZip crates items elems

def encodeDynamic (value : Value) : Except CodecError Mp := do
  let inner ← toMp crates value value.inferType
  pure (.array [.binary (value.inferType.toCtyJsonBytes crates), inner])

theorem encodeEach_eq (items : List Value) (elem : Ty) :
    encodeEach crates items elem = items.mapM fun v => toMp crates v elem := by
  induction items with
  | nil => rfl
  | cons v vs ih => rw [encodeEach, ih, List.mapM_cons]

theorem encodeZip_eq (items : List Value) (elems : List Ty) :
    encodeZip crates items elems = (items.zip elems).mapM fun p => toMp crates p.1 p.2 := by
  induction items generalizing elems with
  | nil => rfl
  | cons v vs ih =>
      cases elems with
      | nil => rfl
      | cons t ts => rw [encodeZip, ih, List.zip_cons_cons, List.mapM_cons]

theorem encodeMap_eq (entries : Fields) (elem : Ty) :
    encodeMap crates entries elem = .map <$> entries.toList.mapM fun p =>
      (Mp.string (.text p.1), ·) <$> toMp crates p.2 elem := by
  obtain ⟨keys, sorted, val⟩ := entries
  rw [encodeMap, OrdMap.toList, List.ofFn_eq_map, List.mapM_map]
  rfl

theorem encodeObject_eq (fields : Fields) (attrs : List ObjectAttr) :
    encodeObject crates fields attrs = .map <$> (sortedByName attrs).mapM fun attr =>
      (Mp.string (.text attr.name), ·) <$> toMp crates ((fields.get? attr.name).getD .null) attr.ty := by
  obtain ⟨keys, sorted, val⟩ := fields
  rw [encodeObject]
  congr 2
  funext attr
  by_cases h : attr.name ∈ keys
  · simp [OrdMap.get?, h]
  · simp [OrdMap.get?, h, toMp]

/-- The encoder's equations in the source's order: the type decides, and the
value must be of the variant the type names. -/
theorem toMp_eq {value : Value} (hn : value.isNull = false) (hu : value.isUnknown = false) (ty : Ty) :
    toMp crates value ty = match ty with
      | .bool => .boolean <$> value.expectBool
      | .number => numberToMp <$> value.expectNumber
      | .string => (.string ∘ .text) <$> value.expectString
      | .list elem => do .array <$> encodeEach crates (← value.expectList) elem
      | .set elem => do .array <$> encodeEach crates (← value.expectSet) elem
      | .tuple elems => encodeTuple crates value elems
      | .map elem => do encodeMap crates (← value.expectMap) elem
      | .object attrs => do encodeObject crates (← value.expectObject) attrs
      | .dynamic => encodeDynamic crates value := by
  cases value with
  | null => simp [isNull] at hn
  | unknown => simp [isUnknown] at hu
  | _ => cases ty <;> rfl

end

section

variable {crates : Crates} {items : List Value} {fields : Fields}

theorem exists_encodeEach {elem : Ty} :
    (∃ mps, encodeEach crates items elem = .ok mps) ↔ ∀ v ∈ items, ∃ mp, toMp crates v elem = .ok mp := by
  rw [encodeEach_eq]
  exact ⟨fun ⟨_, hmps⟩ => Outcome.ok_of_mem hmps, Outcome.mapM_exists⟩

theorem exists_toMp_list {elem : Ty} :
    (∃ mp, toMp crates (.list items) (.list elem) = .ok mp) ↔ ∀ v ∈ items, ∃ mp, toMp crates v elem = .ok mp := by
  rw [toMp_eq crates rfl rfl, ← exists_encodeEach]
  exact Outcome.exists_map_eq_ok

theorem exists_toMp_set {elem : Ty} :
    (∃ mp, toMp crates (.set items) (.set elem) = .ok mp) ↔ ∀ v ∈ items, ∃ mp, toMp crates v elem = .ok mp := by
  rw [toMp_eq crates rfl rfl, ← exists_encodeEach]
  exact Outcome.exists_map_eq_ok

theorem exists_toMp_tuple {elems : List Ty} :
    (∃ mp, toMp crates (.tuple items) (.tuple elems) = .ok mp) ↔
      items.length = elems.length ∧ ∀ p ∈ items.zip elems, ∃ mp, toMp crates p.1 p.2 = .ok mp := by
  rw [toMp_eq crates rfl rfl]
  simp only [encodeTuple, Value.expectTuple, Outcome.ok_bind, encodeZip_eq]
  constructor
  · rintro ⟨mp, h⟩
    split_ifs at h with hlen
    obtain ⟨mps, hmps, -⟩ := Outcome.map_eq_ok.mp h
    exact ⟨not_not.mp hlen, Outcome.ok_of_mem hmps⟩
  · rintro ⟨hlen, h⟩
    rw [if_neg (not_not.mpr hlen)]
    exact Outcome.exists_map_eq_ok.mpr (Outcome.mapM_exists h)

theorem exists_toMp_map {elem : Ty} :
    (∃ mp, toMp crates (.map fields) (.map elem) = .ok mp) ↔
      ∀ k v, fields.get? k = some v → ∃ mp, toMp crates v elem = .ok mp := by
  change (∃ mp, encodeMap crates fields elem = .ok mp) ↔ _
  rw [encodeMap_eq, Outcome.exists_map_eq_ok]
  constructor
  · rintro ⟨pairs, hpairs⟩ k v hv
    exact Outcome.exists_map_eq_ok.mp (Outcome.ok_of_mem hpairs (k, v) (OrdMap.mem_toList.mpr hv))
  · intro h
    apply Outcome.mapM_exists
    intro p hp
    exact Outcome.exists_map_eq_ok.mpr (h p.1 p.2 (OrdMap.mem_toList.mp hp))

theorem exists_toMp_object {attrs : List ObjectAttr} :
    (∃ mp, toMp crates (.object fields) (.object attrs) = .ok mp) ↔
      ∀ attr ∈ attrs, ∃ mp, toMp crates ((fields.get? attr.name).getD .null) attr.ty = .ok mp := by
  change (∃ mp, encodeObject crates fields attrs = .ok mp) ↔ _
  rw [encodeObject_eq, Outcome.exists_map_eq_ok]
  constructor
  · rintro ⟨pairs, hpairs⟩ attr ha
    exact Outcome.exists_map_eq_ok.mp (Outcome.ok_of_mem hpairs attr (mem_sortedByName.mpr ha))
  · intro h
    apply Outcome.mapM_exists
    intro attr ha
    exact Outcome.exists_map_eq_ok.mpr (h attr (mem_sortedByName.mp ha))

end

end TofuSdk
