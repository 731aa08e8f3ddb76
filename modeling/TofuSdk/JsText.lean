import TofuSdk.NumberText
import TofuSdk.JsBoundary
import TofuSdk.Revive

namespace TofuSdk

namespace Json

def elements : Json → Option (List Json)
  | .array items => some items
  | _ => none

def members : Json → Option (OrdMap String Json)
  | .object fields => some fields
  | _ => none

def member (json : Json) (key : String) : Option Json := json.members.bind (·.get? key)

end Json

def floatToJson (x : F64) : Json := if x.isFinite then .number ⟨.f64 x.unsignedZero⟩ else .null

def VNumber.rounded (n : VNumber) : VNumber := ⟨.f64 n.number.toF64Lossy.unsignedZero⟩

mutual

def Json.rounded (json : Json) : Json :=
  match json with
  | .number n => .number n.rounded
  | .array items => .array (Json.roundedItems items)
  | .object fields => .object (Json.roundedFields fields)
  | json => json
termination_by structural json

def Json.roundedItems (items : List Json) : List Json :=
  match items with
  | [] => []
  | json :: jsons => Json.rounded json :: Json.roundedItems jsons
termination_by structural items

def Json.roundedFields (fields : OrdMap String Json) : OrdMap String Json :=
  match fields with
  | ⟨keys, sorted, val⟩ => ⟨keys, sorted, fun i => Json.rounded (val i)⟩
termination_by structural fields

end

mutual

def Js.toJson (v : Js) : Json :=
  match v with
  | .primitive (.bool b) => .bool b
  | .primitive (.number x) => floatToJson x
  | .primitive (.string s) => .string s
  | .primitive _ => .null
  | .date iso => iso.elim .null .string
  | .array items | .set items => .array (Js.toJsons items)
  | .object fields => .object (OrdMap.ofList (Js.toMembers fields))
termination_by structural v

def Js.toJsons (items : List Js) : List Json :=
  match items with
  | [] => []
  | v :: vs => Js.toJson v :: Js.toJsons vs
termination_by structural items

def Js.toMembers (fields : Entries Js) : List (String × Json) :=
  match fields with
  | ⟨keys, _, val⟩ => (List.finRange keys.length).map fun i => (keys.get i, Js.toJson (val i))
termination_by structural fields

end

section

variable {json : Json} {v : Js} {items : List Json} {own : Entries Js}

theorem Json.roundedItems_eq (items : List Json) : roundedItems items = items.map rounded := by
  induction items with
  | nil => rfl
  | cons json jsons ih => rw [roundedItems, ih, List.map_cons]

@[simp] theorem Json.rounded_array (items : List Json) : (Json.array items).rounded = .array (items.map rounded) := by
  rw [rounded, roundedItems_eq]

@[simp] theorem Json.rounded_object (fields : OrdMap String Json) :
    (Json.object fields).rounded = .object (fields.map rounded) := by
  cases fields
  rfl

theorem Js.toJsons_eq (items : List Js) : toJsons items = items.map toJson := by
  induction items with
  | nil => rfl
  | cons v vs ih => rw [toJsons, ih, List.map_cons]

theorem Js.toMembers_eq (fields : Entries Js) : toMembers fields = (fields.map toJson).toList := by
  obtain ⟨keys, nodup, val⟩ := fields
  rw [toMembers, Entries.toList, List.ofFn_eq_map]
  rfl

theorem Js.toJson_array (items : List Js) : (Js.array items).toJson = .array (items.map toJson) := by
  rw [toJson, toJsons_eq]

theorem Js.toJson_set (items : List Js) : (Js.set items).toJson = .array (items.map toJson) := by
  rw [toJson, toJsons_eq]

theorem Js.toJson_object (fields : Entries Js) :
    (Js.object fields).toJson = .object (OrdMap.ofList (fields.map toJson).toList) := by
  rw [toJson, toMembers_eq]

theorem floatToJson_eq {x : F64} (h : x.isFinite = true) : floatToJson x = .number ⟨.f64 x.unsignedZero⟩ := if_pos h

theorem isFinite_toF64Lossy {n : Number} (h : n.isFinite = true) : n.toF64Lossy.isFinite = true := by
  cases n with
  | i64 i => exact (Number.ofInt_spec (Number.abs_toInt_lt i)).1
  | u64 u => exact (Number.ofInt_spec (Number.abs_toNat_lt u)).1
  | f64 f => exact h

@[simp] theorem Json.rounded_number (n : VNumber) : (Json.number n).rounded = .number n.rounded := rfl

theorem rounded_floatToJson {x : F64} (h : x.isFinite = true) : (floatToJson x).rounded = floatToJson x := by
  rw [floatToJson_eq h, Json.rounded_number, VNumber.rounded, Number.toF64Lossy, BinaryFloat.unsignedZero_unsignedZero]

theorem rounded_toJson (h : v.isJson = true) : Document v.toJson ∧ v.toJson.rounded = v.toJson := by
  induction v using Js.induct with
  | primitive p =>
      cases p with
      | undefined | bigint n => cases h
      | null => exact ⟨.null, rfl⟩
      | bool b => exact ⟨.bool b, rfl⟩
      | string s => exact ⟨.string s, rfl⟩
      | number x =>
          refine ⟨?_, rounded_floatToJson h⟩
          change Document (floatToJson x)
          rw [floatToJson_eq h]
          exact .number _ (BinaryFloat.isFinite_unsignedZero (by decide) h)
  | date iso => cases h
  | set items _ => cases h
  | array items ih =>
      have hitems := Js.allJson_iff.mp h
      rw [Js.toJson_array, Json.rounded_array, List.map_map]
      constructor
      · exact .array _ (List.forall_mem_map.mpr fun v hv => (ih v hv (hitems v hv)).1)
      · exact congrArg Json.array (List.map_congr_left fun v hv => (ih v hv (hitems v hv)).2)
  | object fields ih =>
      have hfields := Js.fieldsJson_iff.mp h
      have hget : ∀ k json, (OrdMap.ofList (fields.map Js.toJson).toList).get? k = some json →
          ∃ p ∈ fields.toList, p.2.toJson = json := by
        intro k json hk
        rw [Entries.get?_ofList_toList, Entries.get?_map, Option.map_eq_some_iff] at hk
        obtain ⟨v, hv, rfl⟩ := hk
        exact ⟨(k, v), Entries.get?_eq_some.mp hv, rfl⟩
      rw [Js.toJson_object, Json.rounded_object]
      constructor
      · refine .object _ fun k json hk => ?_
        obtain ⟨p, hp, rfl⟩ := hget k json hk
        exact (ih p hp (hfields p hp)).1
      · refine congrArg Json.object (OrdMap.ext_get? fun k => ?_)
        rw [OrdMap.get?_map]
        cases hk : (OrdMap.ofList (fields.map Js.toJson).toList).get? k with
        | none => rfl
        | some json =>
            obtain ⟨p, hp, rfl⟩ := hget k json hk
            exact congrArg some (ih p hp (hfields p hp)).2

theorem toJson_wireForm (h : v.isWire = true) : v.wireForm.isJson = true ∧ v.wireForm.toJson = v.toJson := by
  induction v using Js.induct with
  | primitive p =>
      cases p with
      | undefined | bigint n => cases h
      | null | bool b | string s => exact ⟨rfl, rfl⟩
      | number x =>
          have hzero : (if x.value = 0 then BinaryFloat.zero else x) = x.unsignedZero := rfl
          rw [Js.wireForm, numberText, hzero]
          split_ifs with hx
          · have hfinite : x.unsignedZero.isFinite = true := BinaryFloat.isFinite_unsignedZero (by decide) hx
            refine ⟨hfinite, ?_⟩
            change floatToJson _ = floatToJson x
            rw [floatToJson_eq hfinite, floatToJson_eq hx]
            simp only [BinaryFloat.unsignedZero_unsignedZero]
          · refine ⟨rfl, ?_⟩
            have hnull : floatToJson x = .null := if_neg hx
            exact hnull.symm
  | date iso => cases h
  | array items ih | set items ih =>
      have hitems := Js.allWire_iff.mp h
      rw [Js.wireForm, Js.wireForms_eq, Js.toJson_array, List.map_map]
      constructor
      · exact Js.allJson_iff.mpr (List.forall_mem_map.mpr fun v hv => (ih v hv (hitems v hv)).1)
      · simp only [Js.toJson_array, Js.toJson_set]
        exact congrArg Json.array (List.map_congr_left fun v hv => (ih v hv (hitems v hv)).2)
  | object fields ih =>
      have hfields := Js.fieldsWire_iff.mp h
      rw [Js.wireForm, Js.wireFields_eq, Js.toJson_object, Js.toJson_object]
      constructor
      · rw [Js.isJson, Js.fieldsJson_iff, Entries.toList_map]
        exact List.forall_mem_map.mpr fun p hp => (ih p hp (hfields p hp)).1
      · have hmap : (fields.map Js.wireForm).map Js.toJson = fields.map Js.toJson := by
          apply Entries.ext_toList
          rw [Entries.toList_map, Entries.toList_map, Entries.toList_map, List.map_map]
          exact List.map_congr_left fun p hp => congrArg (Prod.mk p.1) (ih p hp (hfields p hp)).2
        rw [hmap]

@[simp] theorem Json.asString_rounded (json : Json) : json.rounded.asString = json.asString := by
  cases json with
  | number n | array items | object fields => simp [asString]
  | _ => rfl

@[simp] theorem Json.elements_rounded (json : Json) : json.rounded.elements = json.elements.map (·.map rounded) := by
  cases json with
  | number n | array items | object fields => simp [elements]
  | _ => rfl

@[simp] theorem Json.member_rounded (json : Json) (key : String) :
    json.rounded.member key = (json.member key).map rounded := by
  cases json with
  | number n | array items | object fields => simp [member, members]
  | _ => rfl

theorem Json.exists_array_of_rounded (h : json.rounded = .array items) :
    ∃ jsons, json = .array jsons ∧ jsons.map rounded = items := by
  cases json with
  | array jsons =>
      rw [rounded_array] at h
      exact ⟨jsons, rfl, Json.array.inj h⟩
  | number n =>
      rw [rounded_number] at h
      cases h
  | object fields =>
      rw [rounded_object] at h
      cases h
  | _ => cases h

theorem Json.exists_object_of_rounded {fields : OrdMap String Json} (h : json.rounded = .object fields) :
    ∃ fields', json = .object fields' ∧ fields'.map rounded = fields := by
  cases json with
  | object fields' =>
      rw [rounded_object] at h
      exact ⟨fields', rfl, Json.object.inj h⟩
  | number n =>
      rw [rounded_number] at h
      cases h
  | array items =>
      rw [rounded_array] at h
      cases h
  | _ => cases h

theorem Js.member_toJson (own : Entries Js) (key : String) :
    (Js.object own).toJson.member key = (own.get? key).map toJson := by
  rw [toJson_object]
  exact (Entries.get?_ofList_toList _ _).trans (Entries.get?_map _ _ _)

theorem Js.toJson_ofMembers (l : List (String × Js)) :
    (Js.object (.ofMembers l)).toJson = .object (OrdMap.ofList (l.map fun p => (p.1, p.2.toJson))) := by
  rw [toJson_object, ← OrdMap.map_ofList]
  refine congrArg Json.object (OrdMap.ext_get? fun k => ?_)
  rw [Entries.get?_ofList_toList, Entries.get?_map, Entries.get?_ofMembers, OrdMap.get?_map]

theorem Js.isJson_ofMembers {l : List (String × Js)} (h : ∀ p ∈ l, p.2.isJson = true) :
    (Js.object (.ofMembers l)).isJson = true := by
  rw [isJson, fieldsJson_iff]
  intro p hp
  have hget := Entries.get?_eq_some.mpr hp
  rw [Entries.get?_ofMembers] at hget
  exact h _ (OrdMap.mem_of_get?_ofList hget)

theorem Json.rounded_ofList (l : List (String × Json)) :
    (Json.object (OrdMap.ofList l)).rounded = .object (OrdMap.ofList (l.map fun p => (p.1, p.2.rounded))) := by
  rw [rounded_object, OrdMap.map_ofList]

theorem Json.exists_members (h : json.rounded = (Js.object own).toJson) :
    ∃ fields, json = .object fields ∧ ∀ k, (fields.get? k).map rounded = (own.get? k).map Js.toJson := by
  rw [Js.toJson_object] at h
  obtain ⟨fields, rfl, hfields⟩ := exists_object_of_rounded h
  refine ⟨fields, rfl, fun k => ?_⟩
  rw [← OrdMap.get?_map, hfields, Entries.get?_ofList_toList, Entries.get?_map]

theorem Js.exists_properties {fields : OrdMap String Json} (hv : v.isJson = true)
    (h : v.toJson = (Json.object fields).rounded) :
    ∃ own, v = .object own ∧ ∀ k, (own.get? k).map toJson = (fields.get? k).map Json.rounded := by
  rw [Json.rounded_object] at h
  cases v with
  | object own =>
      rw [toJson_object] at h
      refine ⟨own, rfl, fun k => ?_⟩
      rw [← OrdMap.get?_map, ← Json.object.inj h, Entries.get?_ofList_toList, Entries.get?_map]
  | primitive p =>
      cases p with
      | number x =>
          change floatToJson x = _ at h
          rw [floatToJson_eq hv] at h
          cases h
      | undefined | bigint n => cases hv
      | _ => cases h
  | array items =>
      rw [toJson_array] at h
      cases h
  | date iso => cases hv
  | set items => cases hv

theorem Js.exists_elements {items : List Json} (hv : v.isJson = true) (h : v.toJson = (Json.array items).rounded) :
    ∃ elements, v = .array elements ∧
      List.Forall₂ (fun w json => w.isJson = true ∧ w.toJson = json.rounded) elements items := by
  rw [Json.rounded_array] at h
  cases v with
  | array elements =>
      rw [toJson_array] at h
      have hall := Js.allJson_iff.mp hv
      have hitems : elements.map toJson = items.map Json.rounded := Json.array.inj h
      refine ⟨elements, rfl, ?_⟩
      clear h hv
      induction elements generalizing items with
      | nil =>
          obtain rfl := List.map_eq_nil_iff.mp hitems.symm
          exact .nil
      | cons w elements ih =>
          cases items with
          | nil => cases hitems
          | cons json items =>
              obtain ⟨hw, hitems⟩ := List.cons_eq_cons.mp hitems
              obtain ⟨hjson, hall⟩ := List.forall_mem_cons.mp hall
              exact .cons ⟨hjson, hw⟩ (ih hall hitems)
  | primitive p =>
      cases p with
      | number x =>
          change floatToJson x = _ at h
          rw [floatToJson_eq hv] at h
          cases h
      | undefined | bigint n => cases hv
      | _ => cases h
  | object own =>
      rw [toJson_object] at h
      cases h
  | date iso => cases hv
  | set items => cases hv

end

/-- JavaScript's `JSON`, on texts. It prints what has a text. -/
structure JsText where
  parse : Bytes → Except String Js
  print : Js → Bytes

/-- JavaScript and the crates read each other's texts as the documents that they
are, and a number is the one it was built from. -/
structure JsText.Reads (js : JsText) (crates : Crates) : Prop extends crates.CountsNumbers where
  parse_toVec {json : Json} : Document json →
    ∃ v, js.parse (crates.toVec json) = .ok v ∧ v.isJson = true ∧ v.toJson = json.rounded
  fromSlice_print {v : Js} : v.isJson = true →
    ∃ json, crates.fromSlice (js.print v) = .ok json ∧ Document json ∧ json.rounded = v.toJson
  fromSlice_toVec {json : Json} : Document json →
    ∃ json', crates.fromSlice (crates.toVec json) = .ok json' ∧ Document json' ∧ json'.rounded = json.rounded

mutual

/-- Parse a text. The last member of a name counts, and a number is rounded. -/
def Js.ofTree (tree : JsonText.Tree) : Js :=
  match tree with
  | .null => .null
  | .bool b => .primitive (.bool b)
  | .number lexeme => .primitive (.number ((Number.parseF64 lexeme).getD .zero))
  | .string s => .string (String.ofList s)
  | .array items => .array (Js.ofTrees items)
  | .object members => .object (Entries.ofMembers (Js.ofMembers members))
termination_by structural tree

def Js.ofTrees (items : List JsonText.Tree) : List Js :=
  match items with
  | [] => []
  | t :: ts => Js.ofTree t :: Js.ofTrees ts
termination_by structural items

def Js.ofMembers (members : List (List Char × JsonText.Tree)) : List (String × Js) :=
  match members with
  | [] => []
  | (key, t) :: ms => (String.ofList key, Js.ofTree t) :: Js.ofMembers ms
termination_by structural members

end

def JsText.real : JsText where
  parse bytes := match Utf8String.ofBytes bytes with
    | .text s => match JsonText.parse s.toList with
        | some tree => .ok (Js.ofTree tree)
        | none => .error "Unexpected token in JSON"
    | .raw _ => .error "The encoded data was not valid for encoding utf-8"
  print v := Crates.real.toVec v.toJson

section

variable {json : Json}

theorem Js.ofTrees_eq (items : List JsonText.Tree) : ofTrees items = items.map ofTree := by
  induction items with
  | nil => rfl
  | cons t ts ih => rw [ofTrees, ih, List.map_cons]

theorem Js.ofMembers_eq (members : List (List Char × JsonText.Tree)) :
    ofMembers members = members.map fun m => (String.ofList m.1, ofTree m.2) := by
  induction members with
  | nil => rfl
  | cons m ms ih => rw [ofMembers, ih, List.map_cons]

theorem isNumber_spell (n : VNumber) : JsonText.isNumber (Json.spell n) = true := by
  obtain ⟨number⟩ := n
  cases number with
  | i64 i => exact JsonText.isNumber_toString i.toInt
  | u64 u =>
      have h := JsonText.isNumber_toString (u.toNat : Int)
      exact h
  | f64 f => exact Json.isNumber_spellFloat f.value

theorem Document.wellSpelled (h : Document json) : JsonText.wellSpelled json.toTree = true := by
  induction h with
  | null | bool b | string s => rfl
  | number n hfinite =>
      rw [Json.toTree, if_pos hfinite]
      exact isNumber_spell n
  | array items _ ih =>
      rw [Json.toTree, JsonText.wellSpelled, Json.toTrees_eq, JsonText.wellSpelledItems_iff]
      exact List.forall_mem_map.mpr ih
  | object fields _ ih =>
      rw [Json.toTree, JsonText.wellSpelled, Json.toMembers_eq, JsonText.wellSpelledMembers_iff]
      exact List.forall_mem_map.mpr fun p hp => ih p.1 p.2 (OrdMap.mem_toList.mp hp)

theorem Js.ofTree_toTree (h : Document json) : (ofTree json.toTree).isJson = true ∧
    (ofTree json.toTree).toJson = json.rounded := by
  induction h with
  | null | bool b => exact ⟨rfl, rfl⟩
  | string s =>
      rw [Json.toTree, ofTree, String.ofList_toList]
      exact ⟨rfl, rfl⟩
  | number n hfinite =>
      obtain ⟨x, hx, hround⟩ := parseF64_spell hfinite
      have hx' := BinaryFloat.isFinite_of_unsignedZero (by decide) hround (isFinite_toF64Lossy hfinite)
      rw [Json.toTree, if_pos hfinite, ofTree, hx, Option.getD_some]
      refine ⟨hx', ?_⟩
      change floatToJson x = _
      rw [floatToJson_eq hx', hround]
      rfl
  | array items _ ih =>
      rw [Json.toTree, ofTree, ofTrees_eq, Json.toTrees_eq, List.map_map, toJson_array, Json.rounded_array,
        List.map_map]
      exact ⟨allJson_iff.mpr (List.forall_mem_map.mpr fun json hj => (ih json hj).1),
        congrArg Json.array (List.map_congr_left fun json hj => (ih json hj).2)⟩
  | object fields _ ih =>
      have hmembers : ofMembers (Json.toMembers fields) = (fields.map fun json => ofTree json.toTree).toList := by
        rw [ofMembers_eq, Json.toMembers_eq, OrdMap.toList_map, List.map_map]
        simp only [Function.comp_def, String.ofList_toList]
      have hget : ∀ k, (Entries.ofMembers (ofMembers (Json.toMembers fields))).get? k =
          (fields.get? k).map fun json => ofTree json.toTree := by
        intro k
        rw [Entries.get?_ofMembers, hmembers, OrdMap.ofList_toList, OrdMap.get?_map]
      rw [Json.toTree, ofTree]
      constructor
      · rw [isJson, fieldsJson_iff]
        intro p hp
        have hp := Entries.get?_eq_some.mpr hp
        rw [hget, Option.map_eq_some_iff] at hp
        obtain ⟨json, hjson, heq⟩ := hp
        rw [← heq]
        exact (ih p.1 json hjson).1
      · rw [toJson_object, Json.rounded_object]
        refine congrArg Json.object (OrdMap.ext_get? fun k => ?_)
        rw [Entries.get?_ofList_toList, Entries.get?_map, hget, OrdMap.get?_map, Option.map_map]
        cases hk : fields.get? k with
        | none => rfl
        | some json => exact congrArg some (ih k json hk).2

theorem Json.ofTree_toTree_rounded (h : Document json) :
    ∃ json', ofTree json.toTree = some json' ∧ Document json' ∧ json'.rounded = json.rounded := by
  induction h with
  | null => exact ⟨.null, rfl, .null, rfl⟩
  | bool b => exact ⟨.bool b, rfl, .bool b, rfl⟩
  | string s => exact ⟨.string s, by rw [toTree, ofTree, String.ofList_toList], .string s, rfl⟩
  | number n hfinite =>
      obtain ⟨m, hm, hm', hround⟩ := readNumber_spell hfinite
      refine ⟨.number m, by rw [toTree, if_pos hfinite, ofTree, hm]; rfl, .number m hm', ?_⟩
      rw [rounded_number, rounded_number, VNumber.rounded, VNumber.rounded, hround]
  | array items _ ih =>
      choose! read hread hdoc hround using ih
      have htrees : ∀ items : List Json, (∀ json ∈ items, ofTree json.toTree = some (read json)) →
          ofTrees (items.map toTree) = some (items.map read) := by
        intro items
        induction items with
        | nil => exact fun _ => rfl
        | cons json jsons iht =>
            intro h
            rw [List.map_cons, ofTrees, h json List.mem_cons_self, iht fun j hj => h j (List.mem_cons_of_mem _ hj)]
            rfl
      refine ⟨.array (items.map read), ?_, .array _ (List.forall_mem_map.mpr hdoc), ?_⟩
      · rw [toTree, ofTree, toTrees_eq, htrees items hread, Option.map_some]
      · rw [rounded_array, rounded_array, List.map_map]
        exact congrArg Json.array (List.map_congr_left hround)
  | object fields _ ih =>
      choose! read hread hdoc hround using ih
      have hmembers : ∀ l : List (String × Json), (∀ p ∈ l, ofTree p.2.toTree = some (read p.1 p.2)) →
          ofMembers (l.map fun p => (p.1.toList, p.2.toTree)) = some (l.map fun p => (p.1, read p.1 p.2)) := by
        intro l
        induction l with
        | nil => exact fun _ => rfl
        | cons p ps iht =>
            intro h
            rw [List.map_cons, ofMembers, h p List.mem_cons_self, iht fun q hq => h q (List.mem_cons_of_mem _ hq)]
            simp
      have hlist := hmembers fields.toList fun p hp => hread p.1 p.2 (OrdMap.mem_toList.mp hp)
      rw [← OrdMap.toList_mapWithKey] at hlist
      refine ⟨.object (fields.mapWithKey read), ?_, .object _ ?_, ?_⟩
      · rw [toTree, ofTree, toMembers_eq, hlist, Option.map_some, OrdMap.ofList_toList]
      · intro k json hk
        rw [OrdMap.get?_mapWithKey, Option.map_eq_some_iff] at hk
        obtain ⟨json', hj, rfl⟩ := hk
        exact hdoc k json' hj
      · rw [rounded_object, rounded_object]
        refine congrArg Json.object (OrdMap.ext_get? fun k => ?_)
        rw [OrdMap.get?_map, OrdMap.get?_map, OrdMap.get?_mapWithKey]
        cases hk : fields.get? k with
        | none => rfl
        | some json => exact congrArg some (hround k json hk)

theorem Crates.real_fromSlice_toVec_rounded (h : Document json) : ∃ json',
    real.fromSlice (real.toVec json) = .ok json' ∧ Document json' ∧ json'.rounded = json.rounded := by
  obtain ⟨json', hread, hdoc, hround⟩ := Json.ofTree_toTree_rounded h
  refine ⟨json', ?_, hdoc, hround⟩
  simp only [real, Utf8String.ofBytes_asBytes, String.toList_ofList, JsonText.parse_print h.wellSpelled,
    Option.bind_some, hread]

theorem JsText.real_reads : JsText.real.Reads Crates.real where
  toCountsNumbers := Crates.real_countsNumbers
  parse_toVec h := by
    refine ⟨_, ?_, Js.ofTree_toTree h⟩
    simp only [real, Crates.real, Utf8String.ofBytes_asBytes, String.toList_ofList, JsonText.parse_print h.wellSpelled]
  fromSlice_print h := by
    obtain ⟨hdoc, hround⟩ := rounded_toJson h
    obtain ⟨json, hread, hdoc', hround'⟩ := Crates.real_fromSlice_toVec_rounded hdoc
    exact ⟨json, hread, hdoc', hround'.trans hround⟩
  fromSlice_toVec := Crates.real_fromSlice_toVec_rounded

end

end TofuSdk
