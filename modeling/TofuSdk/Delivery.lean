import TofuSdk.Service
import TofuSdk.Untyped
import TofuSdk.WellTyped

namespace TofuSdk

open ValueOf

/-- What is read of a document under a type: nothing in it is unknown, an object
has all the attributes of its type, and a dynamic slot has what is read without a type. -/
inductive Delivered : Ty → Value → Prop
  | null (ty : Ty) : Delivered ty .null
  | bool (b : Bool) : Delivered .bool (.bool b)
  | number (n : Number) : Delivered .number (.number n)
  | string (s : String) : Delivered .string (.string s)
  | list (elem : Ty) (items : List Value) : (∀ v ∈ items, Delivered elem v) → Delivered (.list elem) (.list items)
  | set (elem : Ty) (items : List Value) : (∀ v ∈ items, Delivered elem v) → Delivered (.set elem) (.set items)
  | tuple (elems : List Ty) (items : List Value) : items.length = elems.length →
      (∀ p ∈ items.zip elems, Delivered p.2 p.1) → Delivered (.tuple elems) (.tuple items)
  | map (elem : Ty) (entries : Fields) : (∀ k v, entries.get? k = some v → Delivered elem v) →
      Delivered (.map elem) (.map entries)
  | object (attrs : List ObjectAttr) (fields : Fields) : (∀ k ∈ fields.keys, k ∈ attrs.map (·.name)) →
      (∀ attr ∈ attrs, attr.name ∈ fields.keys) →
      (∀ attr ∈ attrs, Delivered attr.ty ((fields.get? attr.name).getD .null)) →
        Delivered (.object attrs) (.object fields)
  | dynamic (v : Value) : Untyped v → Delivered .dynamic v

theorem Json.asArray_eq_ok {json : Json} {expected : String} {items : List Json} :
    json.asArray expected = .ok items ↔ json = .array items := by
  cases json <;> simp [asArray]

theorem Json.asObject_eq_ok {json : Json} {expected : String} {fields : OrdMap String Json} :
    json.asObject expected = .ok fields ↔ json = .object fields := by
  cases json <;> simp [asObject]

theorem Document.items {items : List Json} (h : Document (.array items)) : ∀ json ∈ items, Document json := by
  cases h with
  | array _ hitems => exact hitems

theorem Document.fields {fields : OrdMap String Json} (h : Document (.object fields)) :
    ∀ k json, fields.get? k = some json → Document json := by
  cases h with
  | object _ hfields => exact hfields

theorem exists_decoded {jsons : OrdMap String Json} {attrs : List ObjectAttr} (hnodup : (attrs.map (·.name)).Nodup)
    {v : Value} (h : decodeJson crates (.object jsons) (.object attrs) = .ok v) :
    ∃ fields, v = .object fields ∧ (∀ k ∈ fields.keys, k ∈ attrs.map (·.name)) ∧
      ∀ attr ∈ attrs, ∃ w, fields.get? attr.name = some w ∧ decodeJsonAttr crates jsons attr = .ok w := by
  have hnull : ¬(Json.object jsons).isNull = true := Bool.false_ne_true
  rw [decodeJson, if_neg hnull] at h
  obtain ⟨_, hobject, hmap⟩ := Outcome.bind_eq_ok.mp h
  obtain rfl := Json.object.inj (Json.asObject_eq_ok.mp hobject)
  obtain ⟨fields, hfields, rfl⟩ := Outcome.map_eq_ok.mp hmap
  rw [decodeJsonAttrs_eq] at hfields
  obtain ⟨hget, hkeys⟩ := Outcome.get?_of_foldlM_insert hfields
  refine ⟨fields, rfl, ?_, ?_⟩
  · intro k hk
    obtain ⟨w, hw⟩ := Option.isSome_iff_exists.mp (OrdMap.get?_isSome.mpr hk)
    obtain ⟨attr, hattr, rfl, -⟩ := hget k w hw
    exact List.mem_map_of_mem hattr
  · intro attr hattr
    obtain ⟨w, hw⟩ := Option.isSome_iff_exists.mp (OrdMap.get?_isSome.mpr (hkeys attr hattr))
    obtain ⟨attr', hattr', hname, hread⟩ := hget attr.name w hw
    obtain rfl := List.inj_on_of_nodup_map hnodup hattr' hattr hname
    exact ⟨w, hw, hread⟩

theorem delivered_decodeJson (hnum : crates.CountsNumbers) {json : Json} (hdoc : Document json) {ty : Ty}
    {v : Value} (h : decodeJson crates json ty = .ok v)
    (hn : ty.distinctNames = true) : Delivered ty v := by
  induction ty using Ty.induct generalizing json v with
  | bool =>
      cases json <;> cases h
      · exact .null _
      · exact .bool _
  | number =>
      cases json with
      | null =>
          cases h
          exact .null _
      | number n =>
          cases h
          exact .number _
      | string s =>
          have hnull : ¬(Json.string s).isNull = true := Bool.false_ne_true
          rw [decodeJson, if_neg hnull] at h
          cases hnumber : Number.fromStr s with
          | none =>
              rw [hnumber] at h
              cases h
          | some n =>
              rw [hnumber] at h
              cases h
              exact .number n
      | _ => cases h
  | string =>
      cases json <;> cases h
      · exact .null _
      · exact .string _
  | dynamic =>
      obtain ⟨w, hread, huntyped, -⟩ := hdoc.decodeJsonDynamic hnum
      rw [decodeJson] at h
      split_ifs at h
      · cases h
        exact .null _
      · obtain rfl := Except.ok.inj (hread.symm.trans h)
        exact .dynamic w huntyped
  | list elem ih | set elem ih =>
      rw [decodeJson] at h
      split_ifs at h
      · cases h
        exact .null _
      · obtain ⟨jsons, harray, hmap⟩ := Outcome.bind_eq_ok.mp h
        obtain rfl := Json.asArray_eq_ok.mp harray
        obtain ⟨items, hitems, rfl⟩ := Outcome.map_eq_ok.mp hmap
        constructor
        intro v hv
        obtain ⟨json, hjson, hread⟩ := Outcome.exists_of_mem_results hitems v hv
        exact ih (hdoc.items json hjson) hread hn
  | map elem ih =>
      rw [decodeJson] at h
      split_ifs at h
      · cases h
        exact .null _
      · obtain ⟨jsons, hobject, hmap⟩ := Outcome.bind_eq_ok.mp h
        obtain rfl := Json.asObject_eq_ok.mp hobject
        obtain ⟨entries, hentries, rfl⟩ := Outcome.map_eq_ok.mp hmap
        constructor
        intro k v hk
        obtain ⟨p, hp, -, hread⟩ := (Outcome.get?_of_foldlM_insert hentries).1 k v hk
        exact ih (hdoc.fields p.1 p.2 (OrdMap.mem_toList.mp hp)) hread hn
  | object attrs ih =>
      have hdecode := h
      rw [decodeJson] at h
      split_ifs at h
      · cases h
        exact .null _
      · obtain ⟨jsons, hobject, -⟩ := Outcome.bind_eq_ok.mp h
        obtain rfl := Json.asObject_eq_ok.mp hobject
        obtain ⟨hnodup, hnames⟩ := Ty.distinctNames_object.mp hn
        obtain ⟨fields, rfl, hkeys, hget⟩ := exists_decoded hnodup hdecode
        refine .object attrs fields hkeys ?_ ?_
        · intro attr hattr
          obtain ⟨w, hw, -⟩ := hget attr hattr
          exact OrdMap.get?_isSome.mp (hw ▸ rfl)
        · intro attr hattr
          obtain ⟨w, hw, hread⟩ := hget attr hattr
          rw [hw, Option.getD_some]
          rw [decodeJsonAttr] at hread
          cases hjson : jsons.get? attr.name with
          | none =>
              rw [hjson] at hread
              cases hread
              exact .null _
          | some json =>
              rw [hjson] at hread
              exact ih attr hattr (hdoc.fields _ json hjson) hread (hnames attr hattr)
  | tuple elems ih =>
      rw [decodeJson] at h
      split_ifs at h
      · cases h
        exact .null _
      · obtain ⟨jsons, harray, hmap⟩ := Outcome.bind_eq_ok.mp h
        split_ifs at hmap with harity
        obtain rfl := Json.asArray_eq_ok.mp harray
        obtain ⟨items, hitems, rfl⟩ := Outcome.map_eq_ok.mp hmap
        obtain ⟨hlen, hall⟩ := exists_of_decodeJsonZip (not_ne_iff.mp harity) hitems
        refine .tuple elems items hlen fun p hp => ?_
        obtain ⟨json, hjson, hread⟩ := hall p hp
        have hty := (List.of_mem_zip hp).2
        exact ih p.2 hty (hdoc.items json hjson) hread (Ty.distinctNames_tuple.mp hn p.2 hty)

namespace Delivered

variable {crates : Crates} {ty : Ty} {v : Value}

theorem exists_toMp (ht : crates.ReadsTypes) (h : Delivered ty v) : ∃ mp, toMp crates v ty = .ok mp := by
  induction h with
  | null ty => exact ⟨_, rfl⟩
  | bool b => exact ⟨_, rfl⟩
  | number n => exact ⟨_, rfl⟩
  | string s => exact ⟨_, rfl⟩
  | list elem items _ ih => exact exists_toMp_list.mpr ih
  | set elem items _ ih => exact exists_toMp_set.mpr ih
  | tuple elems items hlen _ ih => exact exists_toMp_tuple.mpr ⟨hlen, ih⟩
  | map elem entries _ ih => exact exists_toMp_map.mpr ih
  | object attrs fields _ _ _ ih => exact exists_toMp_object.mpr ih
  | dynamic v huntyped =>
      obtain ⟨mp, hmp, -⟩ := huntyped.fromMp_toMp_dynamic ht
      exact ⟨mp, hmp⟩

theorem complete (h : Delivered ty v) (hn : ty.distinctNames = true) : TofuSdk.complete ty v = v := by
  induction h with
  | null ty => exact complete_null ty
  | bool b => rfl
  | number n => rfl
  | string s => rfl
  | dynamic v _ => cases v <;> rfl
  | list elem items _ ih | set elem items _ ih =>
      rw [TofuSdk.complete]
      congr 1
      conv_rhs => rw [← List.map_id items]
      exact List.map_congr_left fun v hv => ih v hv hn
  | tuple elems items hlen _ ih =>
      rw [TofuSdk.complete, completeZip_eq]
      congr 1
      conv_rhs => rw [← List.map_fst_zip hlen.le]
      exact List.map_congr_left fun p hp => ih p hp (Ty.distinctNames_tuple.mp hn p.2 (List.of_mem_zip hp).2)
  | map elem entries _ ih =>
      rw [TofuSdk.complete]
      congr 1
      apply OrdMap.ext_get?
      intro k
      rw [OrdMap.get?_map]
      cases hk : entries.get? k with
      | none => rfl
      | some v => exact congrArg some (ih k v hk hn)
  | object attrs fields hkeys htotal _ ih =>
      obtain ⟨hnodup, hnames⟩ := Ty.distinctNames_object.mp hn
      rw [TofuSdk.complete]
      congr 1
      apply OrdMap.ext_get?
      intro k
      apply Option.ext
      intro w
      rw [get?_completeObject hnodup]
      constructor
      · rintro ⟨attr, hattr, rfl, rfl⟩
        obtain ⟨v, hv⟩ := Option.isSome_iff_exists.mp (OrdMap.get?_isSome.mpr (htotal attr hattr))
        rw [ih attr hattr (hnames attr hattr), hv, Option.getD_some]
      · intro hw
        obtain ⟨attr, hattr, rfl⟩ := List.mem_map.mp (hkeys k (OrdMap.get?_isSome.mp (hw ▸ rfl)))
        refine ⟨attr, hattr, rfl, ?_⟩
        rw [ih attr hattr (hnames attr hattr), hw, Option.getD_some]

theorem conforms (h : Delivered ty v) (hfinite : everyNumber Number.isFinite v = true) :
    ConformsWith Untyped ty v := by
  rw [everyNumber] at hfinite
  induction h with
  | null ty => exact .null ty
  | bool b => exact .bool b
  | number n =>
      rw [everywhere_number] at hfinite
      exact .number n hfinite
  | string s => exact .string s
  | dynamic v huntyped => exact .dynamic v huntyped
  | list elem items _ ih => exact .list elem items fun v hv => ih v hv ((everywhere_list.mp hfinite).2 v hv)
  | set elem items _ ih => exact .set elem items fun v hv => ih v hv ((everywhere_set.mp hfinite).2 v hv)
  | tuple elems items hlen _ ih =>
      exact .tuple elems items hlen fun p hp => ih p hp ((everywhere_tuple.mp hfinite).2 p.1 (List.of_mem_zip hp).1)
  | map elem entries _ ih => exact .map elem entries fun k v hk => ih k v hk ((everywhere_map.mp hfinite).2 k v hk)
  | object attrs fields hkeys htotal _ ih =>
      refine .object attrs fields hkeys fun attr hattr => ?_
      obtain ⟨v, hv⟩ := Option.isSome_iff_exists.mp (OrdMap.get?_isSome.mpr (htotal attr hattr))
      apply ih attr hattr
      rw [hv, Option.getD_some]
      exact (everywhere_object.mp hfinite).2 attr.name v hv

end Delivered

theorem exists_sent {crates : Crates} (hc : crates.Lawful) (ht : crates.ReadsTypes) (hnum : crates.CountsNumbers)
    {ty : Ty} (hn : ty.distinctNames = true)
    {json : Json} (hdoc : Document json) {value : Value} (h : decodeJson crates json ty = .ok value) :
    ∃ sent, Service.encodeDynamic crates value ty = .ok sent := by
  obtain ⟨mp, henc⟩ := (delivered_decodeJson hnum hdoc h hn).exists_toMp ht
  obtain ⟨bytes, hbytes, -⟩ := hc.encodeMsgpack_of_toMp henc
  refine ⟨⟨bytes, []⟩, ?_⟩
  rw [Service.encodeDynamic, hbytes]
  rfl

/-- What is read of a document can be sent to the host. Its numbers finite, the
host reads a value, which is the same one exactly when none of them is the float two to the 63. -/
theorem delivered_of_document {crates : Crates} (hc : crates.Lawful) (ht : crates.ReadsTypes)
    (hnum : crates.CountsNumbers) {json : Json}
    (hdoc : Document json) {ty : Ty} (hn : ty.distinctNames = true) {v : Value}
    (h : decodeJson crates json ty = .ok v) :
    ∃ bytes, encodeMsgpack crates v ty = .ok bytes ∧
      (everyNumber Number.isFinite v = true → ∃ w, decodeMsgpack crates bytes ty = .ok w ∧
        (w.exact = v.exact ↔ everyNumber (fun n => !n.saturates) v = true)) := by
  have hdelivered := delivered_decodeJson hnum hdoc h hn
  obtain ⟨mp, henc⟩ := hdelivered.exists_toMp ht
  obtain ⟨bytes, hbytes, hread⟩ := hc.encodeMsgpack_of_toMp henc
  refine ⟨bytes, hbytes, fun hfinite => ?_⟩
  obtain ⟨mp', henc', hdec⟩ := fromMp_toMp (fun _ huntyped => huntyped.fromMp_toMp_dynamic ht) hn
    (hdelivered.conforms hfinite)
  obtain rfl := Except.ok.inj (henc.symm.trans henc')
  rw [hdelivered.complete hn] at hdec
  exact ⟨_, (hread ty).trans hdec, exact_onWire_iff v⟩

def sizedJson : Json :=
  .object (OrdMap.ofList [("size", .string "7"), ("tags", .array [.string "a", .bool true])])

def sizedTy : Ty := .object [⟨"size", .number, false⟩, ⟨"tags", .dynamic, false⟩]

def sized : Value := .object (OrdMap.ofList [("size", .number (.i64 7)), ("tags", .tuple [.string "a", .bool true])])

theorem document_sizedJson : Document sizedJson := by
  refine .object _ fun k json hk => ?_
  have hmem := OrdMap.mem_of_get?_ofList hk
  simp only [List.mem_cons, List.not_mem_nil, or_false, Prod.mk.injEq] at hmem
  obtain ⟨-, rfl⟩ | ⟨-, rfl⟩ := hmem
  · exact .string _
  · refine .array _ ?_
    simp only [List.forall_mem_cons]
    exact ⟨.string _, .bool _, List.forall_mem_nil _⟩

theorem delivered_of_document_sized : ∃ bytes, encodeMsgpack Crates.real sized sizedTy = .ok bytes ∧
    ∃ w, decodeMsgpack Crates.real bytes sizedTy = .ok w ∧ w.exact = sized.exact := by
  obtain ⟨bytes, hbytes, hread⟩ :=
      delivered_of_document Crates.real_lawful Crates.real_readsTypes Crates.real_countsNumbers document_sizedJson
    (show sizedTy.distinctNames = true by decide) (show decodeJson Crates.real sizedJson sizedTy = .ok sized by rfl)
  obtain ⟨w, hw, hexact⟩ := hread rfl
  exact ⟨bytes, hbytes, w, hw, hexact.mpr rfl⟩

end TofuSdk
