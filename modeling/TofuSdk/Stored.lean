import TofuSdk.FacetValue
import TofuSdk.Untyped

namespace TofuSdk

open ValueOf

namespace Json

mutual

def everyNumber (p : Number → Bool) (json : Json) : Bool :=
  match json with
  | .number n => p n.number
  | .array items => everyNumberItems p items
  | .object fields => everyNumberFields p fields
  | _ => true
termination_by structural json

def everyNumberItems (p : Number → Bool) (items : List Json) : Bool :=
  match items with
  | [] => true
  | json :: jsons => everyNumber p json && everyNumberItems p jsons
termination_by structural items

def everyNumberFields (p : Number → Bool) (fields : OrdMap String Json) : Bool :=
  match fields with
  | ⟨keys, _, val⟩ => (List.finRange keys.length).all fun i => everyNumber p (val i)
termination_by structural fields

end

variable {p : Number → Bool}

theorem everyNumber_array {items : List Json} :
    everyNumber p (.array items) = true ↔ ∀ json ∈ items, everyNumber p json = true := by
  rw [everyNumber]
  induction items with
  | nil => simp [everyNumberItems]
  | cons json jsons ih => simp [everyNumberItems, ih]

theorem everyNumber_object {fields : OrdMap String Json} :
    everyNumber p (.object fields) = true ↔ ∀ k json, fields.get? k = some json → everyNumber p json = true := by
  rw [everyNumber, ← OrdMap.forall_val (P := fun _ (json : Json) => everyNumber p json = true)]
  obtain ⟨keys, sorted, val⟩ := fields
  simp [everyNumberFields]

end Json

/-- The JSON values that have a text. -/
inductive Document : Json → Prop
  | null : Document .null
  | bool (b : Bool) : Document (.bool b)
  | number (n : VNumber) : n.number.isFinite = true → Document (.number n)
  | string (s : String) : Document (.string s)
  | array (items : List Json) : (∀ json ∈ items, Document json) → Document (.array items)
  | object (fields : OrdMap String Json) :
      (∀ k json, fields.get? k = some json → Document json) → Document (.object fields)

theorem Document.of_plain {json : Json} (h : json.plain = true) : Document json := by
  induction json using Json.induct with
  | null => exact .null
  | bool b => exact .bool b
  | number n => cases h
  | string s => exact .string s
  | array items ih =>
      rw [Json.plain, Json.plainItems_iff] at h
      exact .array items fun json hj => ih json hj (h json hj)
  | object fields ih =>
      rw [Json.plain, Json.plainFields_iff] at h
      exact .object fields fun k json hk => ih k json hk (h k json hk)
  | other => cases h

section

variable {crates : Crates}

theorem decodeJsonItems_eq (items : List Json) :
    decodeJsonItems crates items = items.mapM (decodeJsonDynamic crates) := by
  induction items with
  | nil => rfl
  | cons json jsons ih => rw [decodeJsonItems, ih, List.mapM_cons]

theorem decodeJsonFields_eq (fields : OrdMap String Json) :
    decodeJsonFields crates fields = fields.toList.foldlM
      (fun entries p => (fun v => entries.insert p.1 v) <$> decodeJsonDynamic crates p.2) OrdMap.empty := by
  obtain ⟨keys, sorted, val⟩ := fields
  rw [decodeJsonFields, OrdMap.toList, List.ofFn_eq_map, List.foldlM_map]

theorem foldlM_insert_toList {fields : OrdMap String Json} (entries : Fields) (read : Json → Except CodecError Value)
    (hkeys : fields.keys = entries.keys)
    (h : ∀ k json v, fields.get? k = some json → entries.get? k = some v → read json = .ok v) :
    fields.toList.foldlM (fun entries p => (fun v => entries.insert p.1 v) <$> read p.2) OrdMap.empty =
      .ok entries := by
  have hget : ∀ k, (fields.get? k).isSome → ∃ v, entries.get? k = some v := by
    intro k hk
    rwa [← Option.isSome_iff_exists, OrdMap.get?_isSome, ← hkeys, ← OrdMap.get?_isSome]
  have hread : ∀ p ∈ fields.toList, (fun v => (p.1, v)) <$> read p.2 =
      .ok (p.1, (entries.get? p.1).getD .null) := by
    intro p hp
    have hp := OrdMap.mem_toList.mp hp
    obtain ⟨v, hv⟩ := hget p.1 (by rw [hp]; rfl)
    rw [h p.1 p.2 v hp hv, hv, Outcome.map_ok, Option.getD_some]
  rw [Outcome.foldlM_insert, Outcome.mapM_eq_ok_map hread, Outcome.map_ok]
  change Except.ok (OrdMap.ofList _) = _
  rw [OrdMap.ofList_map_toList fun k _ => (entries.get? k).getD .null]
  congr 1
  apply OrdMap.ext_get?
  intro k
  rw [OrdMap.get?_mapWithKey]
  cases hk : fields.get? k with
  | some json =>
      obtain ⟨v, hv⟩ := hget k (by rw [hk]; rfl)
      rw [hv, Option.map_some, Option.getD_some]
  | none =>
      rw [OrdMap.get?_eq_none_iff, hkeys, ← OrdMap.get?_eq_none_iff] at hk
      rw [hk, Option.map_none]

theorem Document.decodeJsonDynamic (hnum : crates.CountsNumbers) {json : Json} (h : Document json) :
    ∃ v, TofuSdk.decodeJsonDynamic crates json = .ok v ∧ Untyped v ∧ everyNumber (fun n => !n.saturates) v = true := by
  induction h with
  | null => exact ⟨.null, rfl, .null, rfl⟩
  | bool b => exact ⟨.bool b, rfl, .bool b, rfl⟩
  | string s => exact ⟨.string s, rfl, .string s, rfl⟩
  | number n hfinite =>
      refine ⟨.number (jsonNumber crates n), rfl, .number _ (isFinite_jsonNumber hnum hfinite), ?_⟩
      simp [everyNumber, saturates_jsonNumber hnum]
  | array items _ ih =>
      choose! w hread huntyped hkept using ih
      refine ⟨.tuple (items.map w), ?_, .tuple _ ?_, ?_⟩
      · rw [TofuSdk.decodeJsonDynamic, decodeJsonItems_eq, Outcome.mapM_eq_ok_map hread, Outcome.map_ok]
      · rw [List.forall_mem_map]
        exact huntyped
      · rw [everyNumber, everywhere_tuple, List.forall_mem_map]
        exact ⟨rfl, hkept⟩
  | object fields _ ih =>
      choose! w hread huntyped hkept using ih
      have hget : ∀ k v, (fields.mapWithKey w).get? k = some v → ∃ json, fields.get? k = some json ∧ w k json = v := by
        intro k v hv
        rwa [OrdMap.get?_mapWithKey, Option.map_eq_some_iff] at hv
      refine ⟨.object (fields.mapWithKey w), ?_, .object _ ?_, ?_⟩
      · rw [TofuSdk.decodeJsonDynamic, decodeJsonFields_eq,
          foldlM_insert_toList (fields.mapWithKey w) (TofuSdk.decodeJsonDynamic crates) rfl, Outcome.map_ok]
        intro k json v hjson hv
        rw [hread k json hjson]
        obtain ⟨json', hjson', rfl⟩ := hget k v hv
        rw [Option.some.inj (hjson.symm.trans hjson')]
      · intro k v hv
        obtain ⟨json, hjson, rfl⟩ := hget k v hv
        exact huntyped k json hjson
      · rw [everyNumber, everywhere_object]
        refine ⟨rfl, ?_⟩
        intro k v hv
        obtain ⟨json, hjson, rfl⟩ := hget k v hv
        exact hkept k json hjson

theorem Document.decodeJsonDynamic_object (hnum : crates.CountsNumbers) {fields : OrdMap String Json}
    (h : Document (.object fields)) :
    ∃ entries, TofuSdk.decodeJsonDynamic crates (.object fields) = .ok (.object entries) ∧
      ∀ k json, fields.get? k = some json → ∃ v,
        entries.get? k = some v ∧ TofuSdk.decodeJsonDynamic crates json = .ok v := by
  have hmember : ∀ k json, fields.get? k = some json → ∃ v, TofuSdk.decodeJsonDynamic crates json = .ok v := by
    intro k json hk
    cases h with
    | object _ hfields =>
        obtain ⟨v, hv, -⟩ := (hfields k json hk).decodeJsonDynamic hnum
        exact ⟨v, hv⟩
  choose! w hw using hmember
  refine ⟨fields.mapWithKey w, ?_, ?_⟩
  · rw [TofuSdk.decodeJsonDynamic, decodeJsonFields_eq,
      foldlM_insert_toList (fields.mapWithKey w) (TofuSdk.decodeJsonDynamic crates) rfl, Outcome.map_ok]
    intro k json v hjson hv
    rw [OrdMap.get?_mapWithKey, hjson] at hv
    rw [hw k json hjson, ← Option.some.inj hv]
  · intro k json hk
    exact ⟨w k json, by rw [OrdMap.get?_mapWithKey, hk, Option.map_some], hw k json hk⟩

/-- How a wholly known value is stored as cty JSON. A dynamic slot that is not
null is stored with its type. -/
inductive CtyJson : Ty → Value → Json → Prop
  | null (ty : Ty) : CtyJson ty .null .null
  | bool (b : Bool) : CtyJson .bool (.bool b) (.bool b)
  | number (n : Number) (stored : VNumber) : n.isFinite = true → stored.number.exact = n.exact →
      CtyJson .number (.number n) (.number stored)
  | string (s : String) : CtyJson .string (.string s) (.string s)
  | list (elem : Ty) (items : List Value) (jsons : List Json) : items.length = jsons.length →
      (∀ p ∈ items.zip jsons, CtyJson elem p.1 p.2) → CtyJson (.list elem) (.list items) (.array jsons)
  | set (elem : Ty) (items : List Value) (jsons : List Json) : items.length = jsons.length →
      (∀ p ∈ items.zip jsons, CtyJson elem p.1 p.2) → CtyJson (.set elem) (.set items) (.array jsons)
  | tuple (elems : List Ty) (items : List Value) (jsons : List Json) : items.length = elems.length →
      items.length = jsons.length → (∀ p ∈ (items.zip jsons).zip elems, CtyJson p.2 p.1.1 p.1.2) →
      CtyJson (.tuple elems) (.tuple items) (.array jsons)
  | map (elem : Ty) (entries : Fields) (jsons : OrdMap String Json) : jsons.keys = entries.keys →
      (∀ k v json, entries.get? k = some v → jsons.get? k = some json → CtyJson elem v json) →
      CtyJson (.map elem) (.map entries) (.object jsons)
  | object (attrs : List ObjectAttr) (fields : Fields) (jsons : OrdMap String Json) :
      (∀ k ∈ fields.keys, k ∈ attrs.map (·.name)) → (∀ k, k ∈ jsons.keys ↔ k ∈ attrs.map (·.name)) →
      (∀ attr ∈ attrs, ∀ json, jsons.get? attr.name = some json →
        CtyJson attr.ty ((fields.get? attr.name).getD .null) json) →
      CtyJson (.object attrs) (.object fields) (.object jsons)
  | dynamic (ty : Ty) (v : Value) (json : Json) : v ≠ .null → ty.distinctNames = true →
      ConformsWith (fun _ => False) ty v → CtyJson ty v json →
      CtyJson .dynamic v (.object (OrdMap.ofList [("type", ty.toCtyJson), ("value", json)]))

theorem decodeJsonZip_eq (items : List Json) (elems : List Ty) :
    decodeJsonZip crates items elems = (items.zip elems).mapM fun p => decodeJson crates p.1 p.2 := by
  induction elems generalizing items with
  | nil => simp [decodeJsonZip]
  | cons t ts ih =>
      cases items with
      | nil => rfl
      | cons json jsons => rw [decodeJsonZip, ih, List.zip_cons_cons, List.mapM_cons]

theorem exists_of_decodeJsonZip {jsons : List Json} {elems : List Ty} {items : List Value}
    (hlen : jsons.length = elems.length) (h : decodeJsonZip crates jsons elems = .ok items) :
    items.length = elems.length ∧ ∀ p ∈ items.zip elems, ∃ json ∈ jsons, decodeJson crates json p.2 = .ok p.1 := by
  rw [decodeJsonZip_eq, Outcome.mapM_eq_ok, List.forall₂_iff_zip, List.length_zip] at h
  refine ⟨by omega, ?_⟩
  rintro ⟨v, ty⟩ hp
  obtain ⟨i, hi⟩ := List.mem_iff_getElem?.mp hp
  obtain ⟨hv, hty⟩ := List.getElem?_zip_eq_some.mp hi
  obtain ⟨hlt, -⟩ := List.getElem?_eq_some_iff.mp hty
  have hjson : jsons[i]? = some jsons[i] := List.getElem?_eq_getElem _
  have hpair : (jsons.zip elems)[i]? = some (jsons[i], ty) := List.getElem?_zip_eq_some.mpr ⟨hjson, hty⟩
  have hzip : ((jsons.zip elems).zip items)[i]? = some ((jsons[i], ty), v) :=
    List.getElem?_zip_eq_some.mpr ⟨hpair, hv⟩
  exact ⟨jsons[i], List.mem_of_getElem? hjson, h.2 (List.mem_of_getElem? hzip)⟩

def decodeJsonAttr (crates : Crates) (obj : OrdMap String Json) (attr : ObjectAttr) : Except CodecError Value :=
  match obj.get? attr.name with
  | some json => decodeJson crates json attr.ty
  | none => .ok .null

theorem decodeJsonAttrs_eq (obj : OrdMap String Json) (attrs : List ObjectAttr) (fields : Fields) :
    decodeJsonAttrs crates obj attrs fields = attrs.foldlM
      (fun fields attr => (fun v => fields.insert attr.name v) <$> decodeJsonAttr crates obj attr) fields := by
  induction attrs generalizing fields with
  | nil => rfl
  | cons attr attrs ih =>
      rw [decodeJsonAttrs, List.foldlM_cons, decodeJsonAttr]
      cases obj.get? attr.name with
      | none => exact ih _
      | some json =>
          cases hread : decodeJson crates json attr.ty with
          | error e => simp [hread]
          | ok v => simpa [hread] using ih _

namespace CtyJson

variable {ty : Ty} {v : Value} {json : Json}

theorem document (h : CtyJson ty v json) : Document json := by
  induction h with
  | null ty => exact .null
  | bool b => exact .bool b
  | number n stored hfinite hexact => exact .number stored (Number.isFinite_of_exact hexact.symm hfinite)
  | string s => exact .string s
  | list elem items jsons hlen _ ih | set elem items jsons hlen _ ih =>
      refine .array _ ?_
      intro json hj
      rw [← List.map_snd_zip hlen.ge, List.mem_map] at hj
      obtain ⟨p, hp, rfl⟩ := hj
      exact ih p hp
  | tuple elems items jsons hlen hlen' _ ih =>
      refine .array _ ?_
      intro json hj
      have hzip : ((items.zip jsons).zip elems).map Prod.fst = items.zip jsons :=
        List.map_fst_zip (by simp [hlen])
      rw [← List.map_snd_zip hlen'.ge, ← hzip, List.map_map, List.mem_map] at hj
      obtain ⟨p, hp, rfl⟩ := hj
      exact ih p hp
  | map elem entries jsons hkeys _ ih =>
      refine .object _ ?_
      intro k json hk
      obtain ⟨v, hv⟩ := Option.isSome_iff_exists.mp
        (OrdMap.get?_isSome.mpr (hkeys ▸ OrdMap.get?_isSome.mp (by rw [hk]; rfl) : k ∈ entries.keys))
      exact ih k v json hv hk
  | object attrs fields jsons _ hjsons _ ih =>
      refine .object _ ?_
      intro k json hk
      obtain ⟨attr, ha, rfl⟩ := List.mem_map.mp ((hjsons k).mp (OrdMap.get?_isSome.mp (by rw [hk]; rfl)))
      exact ih attr ha json hk
  | dynamic ty v json _ _ _ _ ih =>
      refine .object _ ?_
      intro k json' hk
      rcases List.mem_cons.mp (OrdMap.mem_of_get?_ofList hk) with hp | hp
      · rw [(Prod.mk.inj hp).2]
        exact .of_plain ty.plain_toCtyJson
      · rw [(Prod.mk.inj (List.mem_singleton.mp hp)).2]
        exact ih

theorem ne_unknown (h : CtyJson ty v json) : v ≠ .unknown := by
  induction h with
  | dynamic ty v json _ _ _ _ ih => exact ih
  | _ => rintro ⟨⟩

/-- An object whose `value` member is the stored value read without a schema
is not that value, which would have to hold itself. -/
theorem exact_ne (hnum : crates.CountsNumbers) (h : CtyJson ty v json) (hv : ConformsWith (fun _ => False) ty v)
    {x : Value} {entries : Fields}
    (hx : decodeJsonDynamic crates json = .ok x) (hentry : entries.get? "value" = some x) :
    Value.exact (.object entries) ≠ v.exact := by
  induction h generalizing x entries with
  | null | bool | number | string | list | set | tuple | map =>
      intro heq
      simp at heq
  | object attrs fields jsons hkeys hjsons hall ih =>
      intro heq
      rw [conformsWith_object hkeys] at hv
      simp only [Value.exact_object, object.injEq] at heq
      have hvalue := congrArg (OrdMap.get? · "value") heq
      simp only [OrdMap.get?_map, hentry, Option.map_some] at hvalue
      obtain ⟨w, hw, hwx⟩ := Option.map_eq_some_iff.mp hvalue.symm
      obtain ⟨attr, ha, hname⟩ := List.mem_map.mp (hkeys "value" (OrdMap.get?_isSome.mp (by rw [hw]; rfl)))
      obtain ⟨json, hjson⟩ := Option.isSome_iff_exists.mp (OrdMap.get?_isSome.mpr
        ((hjsons attr.name).mpr (List.mem_map_of_mem ha)))
      obtain ⟨entries', hread, hmembers⟩ :=
          (CtyJson.object attrs fields jsons hkeys hjsons hall).document.decodeJsonDynamic_object hnum
      obtain rfl := Except.ok.inj (hread.symm.trans hx)
      obtain ⟨y, hy, hread'⟩ := hmembers attr.name json hjson
      apply ih attr ha json hjson (hv attr ha) hread' (hname ▸ hy)
      rw [hname, hw, Option.getD_some, hwx]
  | dynamic ty v json hne _ _ _ _ =>
      intro heq
      cases hv with
      | null => exact hne rfl
      | unknown => simp at heq
      | dynamic _ hfalse => exact hfalse

end CtyJson

end

end TofuSdk
