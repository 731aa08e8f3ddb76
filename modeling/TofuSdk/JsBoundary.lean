import TofuSdk.Stored

namespace TofuSdk

open ValueOf

section

variable (crates : Crates)

def numberToJson : Number → Json
  | .i64 i => .number ⟨.i64 i⟩
  | .u64 u => .number ⟨.u64 u⟩
  | .f64 f => crates.fromF64 f

mutual

/-- Encode a value into JSON without a schema. JSON cannot carry unknown. -/
def encodeJson (value : Value) : Json :=
  match value with
  | .null | .unknown => .null
  | .bool b => .bool b
  | .number n => numberToJson crates n
  | .string s => .string s
  | .list items | .set items | .tuple items => .array (encodeJsonItems items)
  | .map entries | .object entries => .object (encodeJsonFields entries)
termination_by structural value

def encodeJsonItems (items : List Value) : List Json :=
  match items with
  | [] => []
  | v :: vs => encodeJson v :: encodeJsonItems vs
termination_by structural items

def encodeJsonFields (fields : Fields) : OrdMap String Json :=
  match fields with
  | ⟨keys, sorted, val⟩ => ⟨keys, sorted, fun i => encodeJson (val i)⟩
termination_by structural fields

end

def valueToJson (value : Value) : Bytes := crates.toVec (encodeJson crates value)

def jsonToValue (json : Bytes) (ty : Ty) : Except String Value := do
  let parsed ← crates.fromSlice json
  (decodeJson crates parsed ty).mapError CodecError.toString

end

mutual

def Value.unknownAsNull (v : Value) : Value :=
  match v with
  | .unknown => .null
  | .list items => .list (Value.unknownAsNullIn items)
  | .set items => .set (Value.unknownAsNullIn items)
  | .tuple items => .tuple (Value.unknownAsNullIn items)
  | .map entries => .map (Value.unknownAsNullFields entries)
  | .object entries => .object (Value.unknownAsNullFields entries)
  | v => v
termination_by structural v

def Value.unknownAsNullIn (items : List Value) : List Value :=
  match items with
  | [] => []
  | v :: vs => Value.unknownAsNull v :: Value.unknownAsNullIn vs
termination_by structural items

def Value.unknownAsNullFields (fields : Fields) : Fields :=
  match fields with
  | ⟨keys, sorted, val⟩ => ⟨keys, sorted, fun i => Value.unknownAsNull (val i)⟩
termination_by structural fields

end

section

variable {crates : Crates}

theorem encodeJsonItems_eq (items : List Value) : encodeJsonItems crates items = items.map (encodeJson crates) := by
  induction items with
  | nil => rfl
  | cons v vs ih => rw [encodeJsonItems, ih, List.map_cons]

theorem encodeJsonFields_eq (fields : Fields) : encodeJsonFields crates fields = fields.map (encodeJson crates) := by
  cases fields
  rfl

theorem encodeJson_list (items : List Value) :
    encodeJson crates (.list items) = .array (items.map (encodeJson crates)) :=
  congrArg Json.array (encodeJsonItems_eq items)

theorem encodeJson_set (items : List Value) : encodeJson crates (.set items) = .array (items.map (encodeJson crates)) :=
  congrArg Json.array (encodeJsonItems_eq items)

theorem encodeJson_tuple (items : List Value) :
    encodeJson crates (.tuple items) = .array (items.map (encodeJson crates)) :=
  congrArg Json.array (encodeJsonItems_eq items)

theorem encodeJson_map (entries : Fields) :
    encodeJson crates (.map entries) = .object (entries.map (encodeJson crates)) :=
  congrArg Json.object (encodeJsonFields_eq entries)

theorem encodeJson_object (fields : Fields) :
    encodeJson crates (.object fields) = .object (fields.map (encodeJson crates)) :=
  congrArg Json.object (encodeJsonFields_eq fields)

theorem numberToJson_eq (hholds : crates.HoldsNumbers) (n : Number) : numberToJson crates n = .number ⟨n⟩ := by
  cases n with
  | f64 f => exact hholds.fromF64 f
  | _ => rfl

namespace Value

theorem unknownAsNullIn_eq (items : List Value) : unknownAsNullIn items = items.map unknownAsNull := by
  induction items with
  | nil => rfl
  | cons v vs ih => rw [unknownAsNullIn, ih, List.map_cons]

theorem unknownAsNullFields_eq (fields : Fields) : unknownAsNullFields fields = fields.map unknownAsNull := by
  cases fields
  rfl

theorem unknownAsNull_getD (fields : Fields) (k : String) :
    ((fields.map unknownAsNull).get? k).getD .null = unknownAsNull ((fields.get? k).getD .null) := by
  rw [OrdMap.get?_map]
  cases fields.get? k <;> rfl

end Value

theorem decodeJson_null (ty : Ty) : decodeJson crates .null ty = .ok .null := by
  cases ty <;> rfl

theorem mapM_encodeJson {items : List Value} {read : Json → Except CodecError Value} {w : Value → Value}
    (h : ∀ v ∈ items, read (encodeJson crates v) = .ok (w v)) :
    (items.map (encodeJson crates)).mapM read = .ok (items.map w) := by
  rw [List.mapM_map]
  exact Outcome.mapM_eq_ok_map h

theorem foldlM_encodeJson {entries : Fields} (read : Json → Except CodecError Value) {w : String → Value → Value}
    (h : ∀ k v, entries.get? k = some v → read (encodeJson crates v) = .ok (w k v)) :
    (entries.map (encodeJson crates)).toList.foldlM
      (fun entries p => (fun v => entries.insert p.1 v) <$> read p.2) OrdMap.empty = .ok (entries.mapWithKey w) := by
  apply foldlM_insert_toList (entries.mapWithKey w) read rfl
  intro k json u hjson hu
  rw [OrdMap.get?_map] at hjson
  obtain ⟨v, hv, rfl⟩ := Option.map_eq_some_iff.mp hjson
  rw [OrdMap.get?_mapWithKey, hv] at hu
  rw [h k v hv, ← Option.some.inj hu]

theorem decodeJsonAttr_encodeJson {fields : Fields} {attr : ObjectAttr} :
    decodeJsonAttr crates (fields.map (encodeJson crates)) attr =
        decodeJson crates (encodeJson crates ((fields.get? attr.name).getD .null)) attr.ty := by
  rw [decodeJsonAttr, OrdMap.get?_map]
  cases fields.get? attr.name with
  | none => exact (decodeJson_null attr.ty).symm
  | some v => rfl

/-- What JavaScript is given of a value of a static type comes back as the
value, with null for what is unknown or left out, if the numbers do. -/
theorem decodeJson_encodeJson_of_kept (hholds : crates.HoldsNumbers) {kept : Number → Bool}
    (hkept : ∀ n, kept n = true → (jsonNumber crates ⟨n⟩).exact = n.exact) {ty : Ty} {v : Value}
    (hs : ty.isStatic = true) (hn : ty.distinctNames = true) (hv : Conforms ty v) (hall : everyNumber kept v = true) :
    ∃ w, decodeJson crates (encodeJson crates v) ty = .ok w ∧ w.exact = (complete ty v.unknownAsNull).exact := by
  replace hv := hv.of_isStatic hs
  clear hs
  rw [Ty.distinctNames] at hn
  rw [everyNumber] at hall
  induction hv with
  | null ty => exact ⟨.null, decodeJson_null ty, congrArg Value.exact (complete_null ty).symm⟩
  | unknown ty => exact ⟨.null, decodeJson_null ty, congrArg Value.exact (complete_null ty).symm⟩
  | bool b => exact ⟨.bool b, rfl, rfl⟩
  | string s => exact ⟨.string s, rfl, rfl⟩
  | dynamic v h => exact h.elim
  | number n _ =>
      rw [everywhere_number] at hall
      refine ⟨.number (jsonNumber crates ⟨n⟩), ?_, congrArg ValueOf.number (hkept n hall)⟩
      rw [encodeJson, numberToJson_eq hholds]
      rfl
  | list elem items _ ih =>
      choose! w hread hw using fun v hv => ih v hv (Bool.and_eq_true _ _ ▸ hn).2
        ((everywhere_list.mp hall).2 v hv)
      refine ⟨.list (items.map w), ?_, ?_⟩
      · rw [encodeJson_list]
        change _ <$> (items.map (encodeJson crates)).mapM (fun json => decodeJson crates json elem) = _
        rw [mapM_encodeJson hread, Outcome.map_ok]
      · rw [Value.unknownAsNull, Value.unknownAsNullIn_eq, complete, Value.exact_list, Value.exact_list,
          List.map_map, List.map_map, List.map_map, ValueOf.list.injEq, List.map_inj_left]
        exact hw
  | set elem items _ ih =>
      choose! w hread hw using fun v hv => ih v hv (Bool.and_eq_true _ _ ▸ hn).2
        ((everywhere_set.mp hall).2 v hv)
      refine ⟨.set (items.map w), ?_, ?_⟩
      · rw [encodeJson_set]
        change _ <$> (items.map (encodeJson crates)).mapM (fun json => decodeJson crates json elem) = _
        rw [mapM_encodeJson hread, Outcome.map_ok]
      · rw [Value.unknownAsNull, Value.unknownAsNullIn_eq, complete, Value.exact_set, Value.exact_set,
          List.map_map, List.map_map, List.map_map, ValueOf.set.injEq, List.map_inj_left]
        exact hw
  | tuple elems items hlen _ ih =>
      rw [Ty.everywhere, Bool.and_eq_true, Ty.everywhereIn_iff] at hn
      choose! w hread hw using fun p hp => ih p hp (hn.2 p.2 (List.of_mem_zip hp).2)
        ((everywhere_tuple.mp hall).2 p.1 (List.of_mem_zip hp).1)
      refine ⟨.tuple ((items.zip elems).map w), ?_, ?_⟩
      · rw [encodeJson_tuple]
        change (if (items.map (encodeJson crates)).length ≠ elems.length then _ else _ : Except CodecError Value) = _
        rw [if_neg (by simp [hlen]), decodeJsonZip_eq, List.zip_map_left, List.mapM_map]
        exact congrArg (ValueOf.tuple <$> ·) (Outcome.mapM_eq_ok_map hread)
      · rw [Value.unknownAsNull, Value.unknownAsNullIn_eq, complete, completeZip_eq, List.zip_map_left,
          Value.exact_tuple, Value.exact_tuple, List.map_map, List.map_map, List.map_map, ValueOf.tuple.injEq,
          List.map_inj_left]
        exact hw
  | map elem entries _ ih =>
      choose! w hread hw using fun k v hv => ih k v hv (Bool.and_eq_true _ _ ▸ hn).2
        ((everywhere_map.mp hall).2 k v hv)
      refine ⟨.map (entries.mapWithKey w), ?_, ?_⟩
      · rw [encodeJson_map]
        change _ <$> (entries.map (encodeJson crates)).toList.foldlM
          (fun entries p => (fun v => entries.insert p.1 v) <$> decodeJson crates p.2 elem) OrdMap.empty = _
        rw [foldlM_encodeJson (decodeJson crates · elem) hread, Outcome.map_ok]
      · rw [Value.unknownAsNull, Value.unknownAsNullFields_eq, complete, Value.exact_map, Value.exact_map,
          ValueOf.map.injEq]
        exact OrdMap.mapWithKey_eq_iff.mpr hw
  | object attrs fields hkeys _ ih =>
      rw [Ty.everywhere, Bool.and_eq_true, Ty.everywhereAttrs_iff] at hn
      have hfield : ∀ attr ∈ attrs, everyNumber kept ((fields.get? attr.name).getD .null) = true := by
        intro attr _
        cases hfield : fields.get? attr.name with
        | none => rfl
        | some v => exact (everywhere_object.mp hall).2 _ v hfield
      choose! w hread hw using fun attr ha => ih attr ha (hn.2 attr ha) (hfield attr ha)
      refine ⟨.object (OrdMap.ofList (attrs.map fun attr => (attr.name, w attr))), ?_, ?_⟩
      · rw [encodeJson_object]
        change _ <$> decodeJsonAttrs crates (fields.map (encodeJson crates)) attrs OrdMap.empty = _
        rw [decodeJsonAttrs_eq, Outcome.foldlM_insert, Outcome.mapM_eq_ok_map (g := fun attr => (attr.name, w attr))]
        · rfl
        · intro attr ha
          rw [decodeJsonAttr_encodeJson, hread attr ha, Outcome.map_ok]
      · rw [Value.unknownAsNull, Value.unknownAsNullFields_eq, complete, completeAttrs_eq, Value.exact_object,
          Value.exact_object, OrdMap.map_ofList, OrdMap.map_ofList, List.map_map, List.map_map, ValueOf.object.injEq]
        congr 1
        apply List.map_congr_left
        intro attr ha
        simp only [Function.comp, hw attr ha, Value.unknownAsNull_getD]

theorem everyNumber_true (v : Value) : everyNumber (fun _ => true) v = true := by
  rw [everyNumber]
  induction v using ValueOf.induct with
  | list items ih => exact everywhere_list.mpr ⟨rfl, ih⟩
  | set items ih => exact everywhere_set.mpr ⟨rfl, ih⟩
  | tuple items ih => exact everywhere_tuple.mpr ⟨rfl, ih⟩
  | map entries ih => exact everywhere_map.mpr ⟨rfl, ih⟩
  | object fields ih => exact everywhere_object.mpr ⟨rfl, ih⟩
  | _ => rfl

/-- What JavaScript is given of a value of a static type comes back as the
value, with null for what is unknown or left out. -/
theorem decodeJson_encodeJson (hnum : crates.CountsExactly) {ty : Ty} {v : Value} (hs : ty.isStatic = true)
    (hn : ty.distinctNames = true) (hv : Conforms ty v) :
    ∃ w, decodeJson crates (encodeJson crates v) ty = .ok w ∧ w.exact = (complete ty v.unknownAsNull).exact :=
  decodeJson_encodeJson_of_kept hnum.toHoldsNumbers (fun n _ => exact_jsonNumber hnum ⟨n⟩) hs hn hv (everyNumber_true v)

theorem decodeJson_encodeJson_parcel : ∃ w,
    decodeJson Crates.exact (encodeJson Crates.exact parcel) parcelTy = .ok w ∧
      w.exact = (complete parcelTy parcel.unknownAsNull).exact :=
  decodeJson_encodeJson Crates.exact_countsExactly rfl rfl conforms_parcel

theorem document_encodeJson (hholds : crates.HoldsNumbers) {v : Value} (h : everyNumber Number.isFinite v = true) :
    Document (encodeJson crates v) := by
  rw [everyNumber] at h
  induction v using ValueOf.induct with
  | null | unknown => exact .null
  | bool b => exact .bool b
  | string s => exact .string s
  | number n =>
      rw [everywhere_number] at h
      rw [encodeJson, numberToJson_eq hholds]
      exact .number _ h
  | list items ih =>
      rw [encodeJson_list]
      exact .array _ (List.forall_mem_map.mpr fun v hv => ih v hv ((everywhere_list.mp h).2 v hv))
  | set items ih =>
      rw [encodeJson_set]
      exact .array _ (List.forall_mem_map.mpr fun v hv => ih v hv ((everywhere_set.mp h).2 v hv))
  | tuple items ih =>
      rw [encodeJson_tuple]
      exact .array _ (List.forall_mem_map.mpr fun v hv => ih v hv ((everywhere_tuple.mp h).2 v hv))
  | map fields ih =>
      rw [encodeJson_map]
      refine .object _ ?_
      intro k json hk
      rw [OrdMap.get?_map] at hk
      obtain ⟨v, hv, rfl⟩ := Option.map_eq_some_iff.mp hk
      exact ih k v hv ((everywhere_map.mp h).2 k v hv)
  | object fields ih =>
      rw [encodeJson_object]
      refine .object _ ?_
      intro k json hk
      rw [OrdMap.get?_map] at hk
      obtain ⟨v, hv, rfl⟩ := Option.map_eq_some_iff.mp hk
      exact ih k v hv ((everywhere_object.mp h).2 k v hv)

theorem Value.inferType_of_exact_eq {w v : Value} (h : w.exact = v.exact) : w.inferType = v.inferType := by
  have hhead : ∀ {ws vs : List Value}, (∀ v ∈ vs, ∀ {w : Value}, w.exact = v.exact → w.inferType = v.inferType) →
      ws.map exact = vs.map exact → inferType (ws.head?.getD .null) = inferType (vs.head?.getD .null) := by
    intro ws vs ih h
    cases vs with
    | nil => rw [List.map_eq_nil_iff.mp h]
    | cons v vs =>
        cases ws with
        | nil => cases h
        | cons w ws => exact ih v (by simp) (List.cons.inj h).1
  induction v using ValueOf.induct generalizing w with
  | null | unknown | bool b | number n | string s =>
      cases w <;> simp at h
      rfl
  | list items ih =>
      cases w <;> simp at h
      rw [inferType_list, inferType_list, hhead ih h]
  | set items ih =>
      cases w <;> simp at h
      rw [inferType_set, inferType_set, hhead ih h]
  | tuple items ih =>
      cases w <;> simp at h
      rw [inferType_tuple, inferType_tuple, map_eq_map_of h fun v hv w hw => ih v hv hw]
  | map entries ih =>
      cases w <;> simp at h
      rw [inferType, inferType, inferFields_eq, inferFields_eq, OrdMap.map_eq_map_of h fun k v hv w hw => ih k v hv hw]
  | object fields ih =>
      cases w <;> simp at h
      rw [inferType, inferType, inferFields_eq, inferFields_eq, OrdMap.map_eq_map_of h fun k v hv w hw => ih k v hv hw]

/-- No node of a value is unknown, a list, a set or a map, and no number of it is
a float just past the end of an integer type. -/
def Value.spelled (v : Value) : Bool := v.everywhere fun
  | .unknown | .list _ | .set _ | .map _ => false
  | .number n => !n.pastEnd
  | _ => true

/-- What JavaScript is given of a value is read without a schema, as that value
exactly when it is spelled. -/
theorem exists_decodeJsonDynamic (hnum : crates.CountsNumbers) (v : Value) :
    ∃ w, decodeJsonDynamic crates (encodeJson crates v) = .ok w ∧ (w.exact = v.exact ↔ v.spelled = true) := by
  unfold Value.spelled
  induction v using ValueOf.induct with
  | null => exact ⟨.null, rfl, iff_of_true rfl rfl⟩
  | unknown => exact ⟨.null, rfl, iff_of_false (by simp) (by simp [everywhere])⟩
  | bool b => exact ⟨.bool b, rfl, iff_of_true rfl rfl⟩
  | string s => exact ⟨.string s, rfl, iff_of_true rfl rfl⟩
  | number n =>
      refine ⟨.number (jsonNumber crates ⟨n⟩), ?_, ?_⟩
      · rw [encodeJson, numberToJson_eq hnum.toHoldsNumbers, decodeJsonDynamic]
      · change ValueOf.number _ = ValueOf.number _ ↔ _
        rw [ValueOf.number.injEq, everywhere_number, exact_jsonNumber_iff hnum, Bool.not_eq_true']
  | list items ih =>
      choose! w hread _ using ih
      refine ⟨.tuple (items.map w), ?_, iff_of_false (by simp) (by simp [everywhere])⟩
      rw [encodeJson_list, decodeJsonDynamic, decodeJsonItems_eq, mapM_encodeJson hread, Outcome.map_ok]
  | set items ih =>
      choose! w hread _ using ih
      refine ⟨.tuple (items.map w), ?_, iff_of_false (by simp) (by simp [everywhere])⟩
      rw [encodeJson_set, decodeJsonDynamic, decodeJsonItems_eq, mapM_encodeJson hread, Outcome.map_ok]
  | tuple items ih =>
      choose! w hread hw using ih
      refine ⟨.tuple (items.map w), ?_, ?_⟩
      · rw [encodeJson_tuple, decodeJsonDynamic, decodeJsonItems_eq, mapM_encodeJson hread, Outcome.map_ok]
      · rw [Value.exact_tuple, Value.exact_tuple, List.map_map, ValueOf.tuple.injEq, List.map_inj_left,
          everywhere_tuple,
          and_iff_right rfl]
        exact forall₂_congr hw
  | map entries ih =>
      choose! w hread _ using ih
      refine ⟨.object (entries.mapWithKey w), ?_, iff_of_false (by simp) (by simp [everywhere])⟩
      rw [encodeJson_map, decodeJsonDynamic, decodeJsonFields_eq, foldlM_encodeJson (decodeJsonDynamic crates) hread,
        Outcome.map_ok]
  | object fields ih =>
      choose! w hread hw using ih
      refine ⟨.object (fields.mapWithKey w), ?_, ?_⟩
      · rw [encodeJson_object, decodeJsonDynamic, decodeJsonFields_eq,
          foldlM_encodeJson (decodeJsonDynamic crates) hread,
          Outcome.map_ok]
      · rw [Value.exact_object, Value.exact_object, ValueOf.object.injEq, everywhere_object, and_iff_right rfl]
        exact OrdMap.mapWithKey_eq_iff.trans (forall₂_congr fun k v => forall_congr' fun hv => hw k v hv)

theorem decodeJson_dynamic (json : Json) : decodeJson crates json .dynamic = decodeJsonDynamic crates json := by
  cases json <;> rfl

/-- A dynamic value survives the boundary, with its type, exactly when it is one
that JSON can spell: wholly known, no list, set or map, and no float just past
the end of an integer type. -/
theorem decodeJson_dynamic_iff (hnum : crates.CountsNumbers) (v : Value) :
    (∃ w, decodeJson crates (encodeJson crates v) .dynamic = .ok w ∧ w.exact = v.exact ∧ w.inferType = v.inferType) ↔
      v.spelled = true := by
  obtain ⟨w, hread, hw⟩ := exists_decodeJsonDynamic hnum v
  rw [decodeJson_dynamic, ← hw]
  constructor
  · rintro ⟨w', hread', hexact, -⟩
    obtain rfl := Except.ok.inj (hread.symm.trans hread')
    exact hexact
  · exact fun hexact => ⟨w, hread, hexact, Value.inferType_of_exact_eq hexact⟩

def reading : Value :=
    .tuple [.string "x", .object (OrdMap.ofList [("size", .number (.f64 (BinaryFloat.infinity false)))])]

theorem decodeJson_dynamic_reading : (∃ w, decodeJson Crates.real (encodeJson Crates.real reading) .dynamic = .ok w ∧
    w.exact = reading.exact ∧ w.inferType = reading.inferType) ↔ reading.spelled = true :=
  decodeJson_dynamic_iff Crates.real_countsNumbers reading

def word : Value := .list [.string "x"]

theorem word_lost : (∃ bytes, decodeMsgpack Crates.real bytes .dynamic = .ok word) ∧ word.isWhollyKnown = true ∧
    ¬∃ w, decodeJson Crates.real (encodeJson Crates.real word) .dynamic = .ok w ∧ w.exact = word.exact ∧
        w.inferType = word.inferType := by
  refine ⟨?_, rfl, ?_⟩
  · have henc : toMp Crates.real word .dynamic =
        .ok (.array [.binary (word.inferType.toCtyJsonBytes Crates.real), .array [.string (.text "x")]]) := rfl
    obtain ⟨bytes, -, hread⟩ := Crates.real_lawful.encodeMsgpack_of_toMp henc
    exact ⟨bytes, (hread .dynamic).trans (Value.fromMp_dynamicSlot Crates.real_readsTypes word _)⟩
  · rintro ⟨w, hread, hw, -⟩
    obtain rfl := Except.ok.inj hread
    simp [word] at hw

end

end TofuSdk
