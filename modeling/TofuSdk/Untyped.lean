import TofuSdk.Constraint
import TofuSdk.Wire

namespace TofuSdk

open ValueOf

/-- The values that a JSON document decodes to without a schema. -/
inductive Untyped : Value → Prop
  | null : Untyped .null
  | bool (b : Bool) : Untyped (.bool b)
  | number (n : Number) : n.isFinite = true → Untyped (.number n)
  | string (s : String) : Untyped (.string s)
  | tuple (items : List Value) : (∀ v ∈ items, Untyped v) → Untyped (.tuple items)
  | object (fields : Fields) : (∀ k v, fields.get? k = some v → Untyped v) → Untyped (.object fields)

namespace Value

theorem inferAll_eq (items : List Value) : inferAll items = items.map inferType := by
  induction items with
  | nil => rfl
  | cons v vs ih => rw [inferAll, ih, List.map_cons]

theorem inferFields_eq (fields : Fields) : inferFields fields = fields.map inferType := by
  obtain ⟨keys, sorted, val⟩ := fields
  rfl

theorem inferType_tuple (items : List Value) : inferType (.tuple items) = .tuple (items.map inferType) :=
  congrArg Ty.tuple (inferAll_eq items)

theorem inferType_object (fields : Fields) :
    inferType (.object fields) = .object (fields.toList.map fun p => ⟨p.1, inferType p.2, false⟩) := by
  change Ty.object ((inferFields fields).toList.map fun p => ⟨p.1, p.2, false⟩) = _
  rw [inferFields_eq, OrdMap.toList_map, List.map_map]
  rfl

theorem inferFirst_eq (items : List Value) : inferFirst items = inferType (items.head?.getD .null) := by
  cases items <;> rfl

theorem inferType_list (items : List Value) : inferType (.list items) = .list (inferType (items.head?.getD .null)) :=
  congrArg Ty.list (inferFirst_eq items)

theorem inferType_set (items : List Value) : inferType (.set items) = .set (inferType (items.head?.getD .null)) :=
  congrArg Ty.set (inferFirst_eq items)

def firstEntry (entries : Fields) : Value := (entries.toList.head?.map Prod.snd).getD .null

theorem inferType_map (entries : Fields) : inferType (.map entries) = .map (inferType (firstEntry entries)) := by
  change Ty.map ((inferFields entries).toList.head?.elim .dynamic Prod.snd) = _
  rw [inferFields_eq, OrdMap.toList_map, List.head?_map, firstEntry]
  cases entries.toList.head? <;> rfl

theorem head?_getD_mem (items : List Value) : items.head?.getD .null ∈ items ∨ items.head?.getD .null = .null := by
  cases items with
  | nil => exact .inr rfl
  | cons v vs => exact .inl (List.mem_cons_self ..)

theorem firstEntry_mem (entries : Fields) :
    (∃ k, entries.get? k = some (firstEntry entries)) ∨ firstEntry entries = .null := by
  rw [firstEntry]
  cases h : entries.toList.head? with
  | none => exact .inr rfl
  | some p => exact .inl ⟨p.1, OrdMap.mem_toList.mp (List.mem_of_mem_head? h)⟩

theorem names_inferType (fields : Fields) :
    ((fields.toList.map fun p => (⟨p.1, inferType p.2, false⟩ : ObjectAttr)).map (·.name)) = fields.keys := by
  rw [List.map_map, ← OrdMap.map_fst_toList]
  rfl

theorem mem_inferType {fields : Fields} {attr : ObjectAttr}
    (h : attr ∈ fields.toList.map fun p => (⟨p.1, inferType p.2, false⟩ : ObjectAttr)) :
    ∃ v, fields.get? attr.name = some v ∧ attr.ty = inferType v := by
  obtain ⟨p, hp, rfl⟩ := List.mem_map.mp h
  exact ⟨p.2, OrdMap.mem_toList.mp hp, rfl⟩

theorem distinctNames_inferType (v : Value) : v.inferType.distinctNames = true := by
  rw [Ty.distinctNames]
  induction v using ValueOf.induct with
  | null | unknown | bool b | number n | string s => rfl
  | list items ih | set items ih =>
      have hfirst : (inferType (items.head?.getD .null)).distinctNames = true := by
        rcases head?_getD_mem items with hmem | hnull
        · exact ih _ hmem
        · rw [hnull]
          rfl
      first
        | rw [inferType_list, Ty.everywhere, Bool.and_eq_true]
        | rw [inferType_set, Ty.everywhere, Bool.and_eq_true]
      exact ⟨rfl, hfirst⟩
  | map entries ih =>
      rw [inferType_map, Ty.everywhere, Bool.and_eq_true]
      refine ⟨rfl, ?_⟩
      rcases firstEntry_mem entries with ⟨k, hk⟩ | hnull
      · exact ih k _ hk
      · rw [hnull]
        rfl
  | tuple items ih =>
      rw [inferType_tuple, Ty.everywhere, Bool.and_eq_true, Ty.everywhereIn_iff]
      refine ⟨rfl, ?_⟩
      intro t ht
      obtain ⟨v, hv, rfl⟩ := List.mem_map.mp ht
      exact ih v hv
  | object fields ih =>
      rw [inferType_object, Ty.everywhere, Bool.and_eq_true, Ty.everywhereAttrs_iff]
      refine ⟨?_, ?_⟩
      · rw [decide_eq_true_iff, names_inferType]
        exact fields.keys_nodup
      · intro attr ha
        obtain ⟨v, hv, hty⟩ := mem_inferType ha
        rw [hty]
        exact ih _ v hv

theorem ordered_inferType (v : Value) : v.inferType.ordered = v.inferType := by
  induction v using ValueOf.induct with
  | null | unknown | bool b | number n | string s => rfl
  | list items ih | set items ih =>
      have hfirst : (inferType (items.head?.getD .null)).ordered = inferType (items.head?.getD .null) := by
        rcases head?_getD_mem items with hmem | hnull
        · exact ih _ hmem
        · rw [hnull]
          rfl
      first
        | rw [inferType_list, Ty.ordered, hfirst]
        | rw [inferType_set, Ty.ordered, hfirst]
  | map entries ih =>
      rw [inferType_map, Ty.ordered]
      congr 1
      rcases firstEntry_mem entries with ⟨k, hk⟩ | hnull
      · exact ih k _ hk
      · rw [hnull]
        rfl
  | tuple items ih =>
      rw [inferType_tuple, Ty.ordered, Ty.orderedAll_eq, List.map_map]
      congr 1
      apply List.map_congr_left
      intro v hv
      exact ih v hv
  | object fields ih =>
      have hbyName : Ty.byName (fields.toList.map fun p => ⟨p.1, inferType p.2, false⟩) =
          fields.mapWithKey fun k v => ⟨k, inferType v, false⟩ := by
        rw [Ty.byName, List.map_map, ← OrdMap.ofList_map_toList]
        rfl
      rw [inferType_object, Ty.ordered_object, hbyName, OrdMap.toList_mapWithKey, List.map_map]
      congr 1
      apply List.map_congr_left
      intro p hp
      rw [Function.comp, ih p.1 p.2 (OrdMap.mem_toList.mp hp)]

theorem fromCtyJsonBytes_inferType {crates : Crates} (hc : crates.ReadsTypes) (v : Value) :
    Ty.fromCtyJsonBytes crates (v.inferType.toCtyJsonBytes crates) = .ok v.inferType := by
  rw [Ty.fromCtyJsonBytes, Ty.toCtyJsonBytes, hc.read, ← ordered_inferType v,
    ← Ty.fromCtyJson_toCtyJson (distinctNames_inferType v), ordered_inferType v]
  rfl

theorem fromMp_dynamicSlot {crates : Crates} (hc : crates.ReadsTypes) (v : Value) (inner : Mp) :
    fromMp crates (.array [.binary (v.inferType.toCtyJsonBytes crates), inner]) .dynamic =
      fromMp crates inner v.inferType := by
  change decodePair crates [.binary (v.inferType.toCtyJsonBytes crates), inner] = _
  rw [decodePair, typeBytes, Outcome.ok_bind, fromCtyJsonBytes_inferType hc]
  rfl

end Value

namespace Untyped

open Value

variable {v : Value}

theorem conforms_inferType (h : Untyped v) : ConformsWith (fun _ => False) v.inferType v := by
  induction h with
  | null => exact .null _
  | bool b => exact .bool b
  | number n hn => exact .number n hn
  | string s => exact .string s
  | tuple items _ ih =>
      rw [inferType_tuple]
      refine .tuple _ _ (List.length_map _).symm ?_
      intro p hp
      rw [zip_map_self] at hp
      obtain ⟨v, hv, rfl⟩ := List.mem_map.mp hp
      exact ih v hv
  | object fields _ ih =>
      rw [inferType_object]
      refine .object _ _ ?_ ?_
      · intro k hk
        rwa [names_inferType]
      · intro attr ha
        obtain ⟨v, hv, hty⟩ := mem_inferType ha
        rw [hv, hty]
        exact ih _ v hv

theorem complete_inferType (h : Untyped v) : complete v.inferType v = v := by
  induction h with
  | null | bool b | number n hn | string s => rfl
  | tuple items _ ih =>
      rw [inferType_tuple, complete, completeZip_eq, zip_map_self, List.map_map]
      congr 1
      conv_rhs => rw [← List.map_id items]
      apply List.map_congr_left
      intro v hv
      exact ih v hv
  | object fields _ ih =>
      have hfields : (fields.toList.map fun p => (p.1, complete (inferType p.2) ((fields.get? p.1).getD .null))) =
          fields.toList := by
        conv_rhs => rw [← List.map_id fields.toList]
        apply List.map_congr_left
        intro p hp
        have hv := OrdMap.mem_toList.mp hp
        rw [hv, Option.getD_some, ih p.1 p.2 hv, id]
      rw [inferType_object, complete, completeAttrs_eq, List.map_map, Function.comp_def, hfields,
        OrdMap.ofList_toList]

theorem fromMp_toMp_dynamic {crates : Crates} (hc : crates.ReadsTypes) (h : Untyped v) :
    ∃ mp, toMp crates v .dynamic = .ok mp ∧
      fromMp crates mp .dynamic = .ok (v.mapNumber Number.onWire) := by
  by_cases hnull : v.isNull = true
  · obtain rfl : v = .null := by
      cases v with
      | null => rfl
      | _ => cases hnull
    exact ⟨.nil, rfl, rfl⟩
  · have hknown : v.isUnknown = false := by
      cases h <;> rfl
    obtain ⟨inner, henc, hdec⟩ : ∃ mp, toMp crates v v.inferType = .ok mp ∧
        fromMp crates mp v.inferType = .ok ((complete v.inferType v).mapNumber Number.onWire) :=
      fromMp_toMp (fun _ h => h.elim) v.distinctNames_inferType h.conforms_inferType
    refine ⟨.array [.binary (v.inferType.toCtyJsonBytes crates), inner], ?_, ?_⟩
    · rw [toMp_eq crates (Bool.eq_false_iff.mpr hnull) hknown, encodeDynamic, henc]
      rfl
    · rw [fromMp_dynamicSlot hc, hdec, h.complete_inferType]

end Untyped

end TofuSdk
