import TofuSdk.Stored
import TofuSdk.RealCrates

namespace TofuSdk

open ValueOf

/-- A value is well typed when each node is null, unknown, or of the variant
the type names. Under `total` an object has all the attributes of its type. -/
inductive WellTyped (total : Bool) : Ty → Value → Prop
  | null (ty : Ty) : WellTyped total ty .null
  | unknown (ty : Ty) : WellTyped total ty .unknown
  | bool (b : Bool) : WellTyped total .bool (.bool b)
  | number (n : Number) : WellTyped total .number (.number n)
  | string (s : String) : WellTyped total .string (.string s)
  | list (elem : Ty) (items : List Value) :
      (∀ v ∈ items, WellTyped total elem v) → WellTyped total (.list elem) (.list items)
  | set (elem : Ty) (items : List Value) :
      (∀ v ∈ items, WellTyped total elem v) → WellTyped total (.set elem) (.set items)
  | tuple (elems : List Ty) (items : List Value) : items.length = elems.length →
      (∀ p ∈ items.zip elems, WellTyped total p.2 p.1) → WellTyped total (.tuple elems) (.tuple items)
  | map (elem : Ty) (entries : Fields) :
      (∀ k v, entries.get? k = some v → WellTyped total elem v) → WellTyped total (.map elem) (.map entries)
  | object (attrs : List ObjectAttr) (fields : Fields) (tys : String → Ty) :
      (∀ k ∈ fields.keys, ∃ attr ∈ attrs, attr.name = k ∧ attr.ty = tys k) →
      (total = true → ∀ attr ∈ attrs, attr.name ∈ fields.keys) →
      (∀ k v, fields.get? k = some v → WellTyped total (tys k) v) →
      WellTyped total (.object attrs) (.object fields)
  | dynamic (ty : Ty) (v : Value) : WellTyped total ty v → WellTyped total .dynamic v

section

variable {total : Bool}

theorem wellTyped_object {attrs : List ObjectAttr} {fields : Fields} :
    WellTyped total (.object attrs) (.object fields) ↔
      (∀ k v, fields.get? k = some v → ∃ attr ∈ attrs, attr.name = k ∧ WellTyped total attr.ty v) ∧
      (total = true → ∀ attr ∈ attrs, attr.name ∈ fields.keys) := by
  constructor
  · intro h
    cases h with
    | object _ _ tys hkeys htotal hfields =>
        refine ⟨?_, htotal⟩
        intro k v hget
        have hmem : k ∈ fields.keys := OrdMap.get?_isSome.mp (hget ▸ rfl)
        obtain ⟨attr, hattr, hname, hty⟩ := hkeys k hmem
        exact ⟨attr, hattr, hname, hty ▸ hfields k v hget⟩
  · rintro ⟨hfields, htotal⟩
    have htys : ∀ k, ∃ ty, k ∈ fields.keys → (∃ attr ∈ attrs, attr.name = k ∧ attr.ty = ty) ∧
        ∀ v, fields.get? k = some v → WellTyped total ty v := by
      intro k
      cases hget : fields.get? k with
      | none => exact ⟨.dynamic, fun hk => absurd hk (OrdMap.get?_eq_none_iff.mp hget)⟩
      | some v =>
          obtain ⟨attr, hattr, hname, hv⟩ := hfields k v hget
          exact ⟨attr.ty, fun _ => ⟨⟨attr, hattr, hname, rfl⟩, fun w hw => Option.some.inj hw ▸ hv⟩⟩
    choose tys htys using htys
    refine .object attrs fields tys (fun k hk => (htys k hk).1) htotal ?_
    intro k v hget
    exact (htys k (OrdMap.get?_isSome.mp (hget ▸ rfl))).2 v hget

theorem wellTyped_list {elem : Ty} {items : List Value} :
    WellTyped total (.list elem) (.list items) ↔ ∀ v ∈ items, WellTyped total elem v := by
  constructor
  · rintro ⟨⟩
    assumption
  · exact .list elem items

theorem wellTyped_set {elem : Ty} {items : List Value} :
    WellTyped total (.set elem) (.set items) ↔ ∀ v ∈ items, WellTyped total elem v := by
  constructor
  · rintro ⟨⟩
    assumption
  · exact .set elem items

theorem wellTyped_map {elem : Ty} {entries : Fields} :
    WellTyped total (.map elem) (.map entries) ↔ ∀ k v, entries.get? k = some v → WellTyped total elem v := by
  constructor
  · rintro ⟨⟩
    assumption
  · exact .map elem entries

theorem WellTyped.mono {ty : Ty} {v : Value} (h : WellTyped true ty v) : WellTyped total ty v := by
  induction h with
  | null ty => exact .null ty
  | unknown ty => exact .unknown ty
  | bool b => exact .bool b
  | number n => exact .number n
  | string s => exact .string s
  | list elem items _ ih => exact .list elem items ih
  | set elem items _ ih => exact .set elem items ih
  | tuple elems items hlen _ ih => exact .tuple elems items hlen ih
  | map elem entries _ ih => exact .map elem entries ih
  | object attrs fields tys hkeys htotal _ ih => exact .object attrs fields tys hkeys (fun _ => htotal rfl) ih
  | dynamic ty v _ ih => exact .dynamic ty v ih

end

section

variable (crates : Crates)

def sentUnder (pairs : List (Mp × Mp)) (name : String) : Mp :=
  ((pairs.find? fun p => p.1.asStr = some name).map (·.2)).getD .nil

/-- What a wire value says under a type. A dynamic slot says its own type, and
the value beside it is a value of that type. -/
inductive Conveys : Mp → Ty → Value → Prop
  | nil (ty : Ty) : Conveys .nil ty .null
  | ext (kind : UInt8) (bytes : Bytes) (ty : Ty) : Conveys (.ext kind bytes) ty .unknown
  | bool (b : Bool) : Conveys (.boolean b) .bool (.bool b)
  | number (mp : Mp) (n : Number) : numberFromMp mp = some n → Conveys mp .number (.number n)
  | string (mp : Mp) (s : String) : mp.asStr = some s → Conveys mp .string (.string s)
  | list (elem : Ty) (mps : List Mp) (items : List Value) : mps.length = items.length →
      (∀ (i : Nat) mp v, mps[i]? = some mp → items[i]? = some v → Conveys mp elem v) →
      Conveys (.array mps) (.list elem) (.list items)
  | set (elem : Ty) (mps : List Mp) (items : List Value) : mps.length = items.length →
      (∀ (i : Nat) mp v, mps[i]? = some mp → items[i]? = some v → Conveys mp elem v) →
      Conveys (.array mps) (.set elem) (.set items)
  | tuple (elems : List Ty) (mps : List Mp) (items : List Value) : mps.length = items.length →
      mps.length = elems.length →
      (∀ (i : Nat) mp ty v, mps[i]? = some mp → elems[i]? = some ty → items[i]? = some v → Conveys mp ty v) →
      Conveys (.array mps) (.tuple elems) (.tuple items)
  | map (elem : Ty) (pairs : List (Mp × Mp)) (entries : Fields) (sent : String → Mp) :
      (∀ k ∈ entries.keys, ∃ p ∈ pairs, p.1.asStr = some k ∧ p.2 = sent k) →
      (∀ k v, entries.get? k = some v → Conveys (sent k) elem v) →
      Conveys (.map pairs) (.map elem) (.map entries)
  | object (attrs : List ObjectAttr) (pairs : List (Mp × Mp)) (fields : Fields) (tys : String → Ty) :
      (∀ k ∈ fields.keys, ∃ attr ∈ attrs, attr.name = k ∧ attr.ty = tys k) →
      (∀ attr ∈ attrs, attr.name ∈ fields.keys) →
      (∀ k v, fields.get? k = some v → Conveys (sentUnder pairs k) (tys k) v) →
      Conveys (.map pairs) (.object attrs) (.object fields)
  | dynamic (type mp : Mp) (bytes : Bytes) (ty : Ty) (v : Value) : typeBytes type = .ok bytes →
      Ty.fromCtyJsonBytes crates bytes = .ok ty → WellTyped true ty v → Conveys mp ty v →
      Conveys (.array [type, mp]) .dynamic v

variable {crates}

theorem conveys_decodeScalar {mp : Mp} {ty : Ty} {v : Value} (h : decodeScalar mp ty = .ok v) :
    Conveys crates mp ty v := by
  cases ty with
  | bool =>
      cases mp <;> cases h
      exact .bool _
  | number =>
      rw [decodeScalar] at h
      cases hn : numberFromMp mp with
      | none =>
          rw [hn] at h
          cases h
      | some n =>
          rw [hn] at h
          cases h
          exact .number mp n hn
  | string =>
      rw [decodeScalar] at h
      cases hs : mp.asStr with
      | none =>
          rw [hs] at h
          cases h
      | some s =>
          rw [hs] at h
          cases h
          exact .string mp s hs
  | _ => cases h

theorem decodeField_eq (pairs : List (Mp × Mp)) (name : String) (ty : Ty) :
    decodeField crates pairs name ty = fromMp crates (sentUnder pairs name) ty := by
  induction pairs with
  | nil => rfl
  | cons p pairs ih =>
      rw [decodeField, sentUnder, List.find?_cons]
      by_cases h : p.1.asStr = some name
      · rw [if_pos h, decide_eq_true h]
        rfl
      · rw [if_neg h, decide_eq_false h]
        exact ih

theorem get?_decodeEntries {pairs : List (Mp × Mp)} {elem : Ty} {entries out : Fields}
    (h : decodeEntries crates pairs elem entries = .ok out) {k : String} {v : Value} (hget : out.get? k = some v) :
    entries.get? k = some v ∨ ∃ p ∈ pairs, p.1.asStr = some k ∧ fromMp crates p.2 elem = .ok v := by
  induction pairs generalizing entries with
  | nil =>
      cases h
      exact .inl hget
  | cons p pairs ih =>
      rw [decodeEntries] at h
      cases hkey : p.1.asStr with
      | none =>
          rw [hkey] at h
          cases h
      | some key =>
          rw [hkey] at h
          obtain ⟨w, hw, hrest⟩ := Outcome.bind_eq_ok.mp h
          rcases ih hrest with hentry | ⟨q, hq, hsent⟩
          · rw [OrdMap.get?_insert] at hentry
            split_ifs at hentry with heq
            · cases hentry
              exact .inr ⟨p, List.mem_cons_self, heq ▸ hkey, hw⟩
            · exact .inl hentry
          · exact .inr ⟨q, List.mem_cons_of_mem p hq, hsent⟩

theorem conveys_items {mps : List Mp} {elem : Ty} {items : List Value}
    (hmps : ∀ mp ∈ mps, ∀ ty v, fromMp crates mp ty = .ok v → Conveys crates mp ty v)
    (h : decodeEach crates mps elem = .ok items) :
    mps.length = items.length ∧
      ∀ (i : Nat) mp v, mps[i]? = some mp → items[i]? = some v → Conveys crates mp elem v := by
  rw [decodeEach_eq, Outcome.mapM_eq_ok, List.forall₂_iff_zip] at h
  refine ⟨h.1, ?_⟩
  intro i mp v hmp hv
  have hzip : (mp, v) ∈ mps.zip items := List.mem_of_getElem? (List.getElem?_zip_eq_some.mpr ⟨hmp, hv⟩)
  exact hmps mp (List.mem_of_getElem? hmp) elem v (h.2 hzip)

theorem conveys_zip {mps : List Mp} {elems : List Ty} {items : List Value} (hlen : mps.length = elems.length)
    (hmps : ∀ mp ∈ mps, ∀ ty v, fromMp crates mp ty = .ok v → Conveys crates mp ty v)
    (h : decodeZip crates mps elems = .ok items) :
    mps.length = items.length ∧ ∀ (i : Nat) mp ty v, mps[i]? = some mp → elems[i]? = some ty → items[i]? = some v →
      Conveys crates mp ty v := by
  rw [decodeZip_eq, Outcome.mapM_eq_ok, List.forall₂_iff_zip, List.length_zip] at h
  constructor
  · omega
  · intro i mp ty v hmp hty hv
    have hpair : (mps.zip elems)[i]? = some (mp, ty) := List.getElem?_zip_eq_some.mpr ⟨hmp, hty⟩
    have hzip : ((mps.zip elems).zip items)[i]? = some ((mp, ty), v) := List.getElem?_zip_eq_some.mpr ⟨hpair, hv⟩
    exact hmps mp (List.mem_of_getElem? hmp) ty v (h.2 (List.mem_of_getElem? hzip))

theorem conveys_map {pairs : List (Mp × Mp)} {elem : Ty} {entries : Fields}
    (hpairs : ∀ p ∈ pairs, ∀ ty v, fromMp crates p.2 ty = .ok v → Conveys crates p.2 ty v)
    (h : decodeEntries crates pairs elem OrdMap.empty = .ok entries) :
    Conveys crates (.map pairs) (.map elem) (.map entries) := by
  have hsent : ∀ k, ∃ mp, ∀ v, entries.get? k = some v →
      (∃ p ∈ pairs, p.1.asStr = some k ∧ p.2 = mp) ∧ Conveys crates mp elem v := by
    intro k
    cases hget : entries.get? k with
    | none => exact ⟨.nil, fun v hv => nomatch hv⟩
    | some v =>
        rcases get?_decodeEntries h hget with hempty | ⟨p, hp, hkey, hv⟩
        · rw [OrdMap.get?_empty] at hempty
          cases hempty
        · refine ⟨p.2, ?_⟩
          rintro w ⟨⟩
          exact ⟨⟨p, hp, hkey, rfl⟩, hpairs p hp elem v hv⟩
  choose sent hsent using hsent
  refine .map elem pairs entries sent ?_ fun k v hget => (hsent k v hget).2
  intro k hk
  obtain ⟨v, hget⟩ := Option.isSome_iff_exists.mp (OrdMap.get?_isSome.mpr hk)
  exact (hsent k v hget).1

theorem conveys_object {pairs : List (Mp × Mp)} {attrs : List ObjectAttr} {fields : Fields}
    (hpairs : ∀ p ∈ pairs, ∀ ty v, fromMp crates p.2 ty = .ok v → Conveys crates p.2 ty v)
    (h : attrs.foldlM (fun fields attr => (fun v => fields.insert attr.name v) <$>
      decodeField crates pairs attr.name attr.ty) OrdMap.empty = .ok fields) :
    Conveys crates (.map pairs) (.object attrs) (.object fields) := by
  have hsent : ∀ name ty v, fromMp crates (sentUnder pairs name) ty = .ok v →
      Conveys crates (sentUnder pairs name) ty v := by
    intro name
    rw [sentUnder]
    cases hfind : pairs.find? fun p => p.1.asStr = some name with
    | none =>
        intro ty v hv
        cases hv
        exact .nil ty
    | some p => exact hpairs p (List.mem_of_find?_eq_some hfind)
  obtain ⟨hget, hkeys⟩ := Outcome.get?_of_foldlM_insert h
  have htys : ∀ k, ∃ ty, k ∈ fields.keys → (∃ attr ∈ attrs, attr.name = k ∧ attr.ty = ty) ∧
      ∀ v, fields.get? k = some v → Conveys crates (sentUnder pairs k) ty v := by
    intro k
    cases hk : fields.get? k with
    | none => exact ⟨.dynamic, fun hmem => absurd hmem (OrdMap.get?_eq_none_iff.mp hk)⟩
    | some v =>
        obtain ⟨attr, hattr, rfl, hv⟩ := hget k v hk
        rw [decodeField_eq] at hv
        refine ⟨attr.ty, fun _ => ⟨⟨attr, hattr, rfl, rfl⟩, ?_⟩⟩
        rintro w ⟨⟩
        exact hsent attr.name attr.ty v hv
  choose tys htys using htys
  refine .object attrs pairs fields tys (fun k hk => (htys k hk).1) hkeys ?_
  exact fun k v hk => (htys k (OrdMap.get?_isSome.mp (hk ▸ rfl))).2 v hk

theorem exists_getElem?_of_mem {mps : List Mp} {items : List Value} (hlen : mps.length = items.length)
    {v : Value} (hv : v ∈ items) : ∃ (i : Nat) (mp : Mp), mps[i]? = some mp ∧ items[i]? = some v := by
  obtain ⟨i, hi⟩ := List.mem_iff_getElem?.mp hv
  obtain ⟨hlt, -⟩ := List.getElem?_eq_some_iff.mp hi
  exact ⟨i, mps[i], List.getElem?_eq_getElem _, hi⟩

theorem Conveys.wellTyped {mp : Mp} {ty : Ty} {v : Value} (h : Conveys crates mp ty v) : WellTyped true ty v := by
  induction h with
  | nil ty => exact .null ty
  | ext kind bytes ty => exact .unknown ty
  | bool b => exact .bool b
  | number mp n hn => exact .number n
  | string mp s hs => exact .string s
  | list elem mps items hlen hitems ih =>
      refine .list elem items ?_
      intro v hv
      obtain ⟨i, mp, hmp, hi⟩ := exists_getElem?_of_mem hlen hv
      exact ih i mp v hmp hi
  | set elem mps items hlen hitems ih =>
      refine .set elem items ?_
      intro v hv
      obtain ⟨i, mp, hmp, hi⟩ := exists_getElem?_of_mem hlen hv
      exact ih i mp v hmp hi
  | tuple elems mps items hlen hlen' hitems ih =>
      refine .tuple elems items (hlen.symm.trans hlen') ?_
      rintro ⟨v, ty⟩ hp
      obtain ⟨i, hi⟩ := List.mem_iff_getElem?.mp hp
      obtain ⟨hv, hty⟩ := List.getElem?_zip_eq_some.mp hi
      obtain ⟨hlt, -⟩ := List.getElem?_eq_some_iff.mp hv
      exact ih i mps[i] ty v (List.getElem?_eq_getElem _) hty hv
  | map elem pairs entries sent hsent hentries ih => exact .map elem entries ih
  | object attrs pairs fields tys hkeys htotal hfields ih =>
      exact .object attrs fields tys hkeys (fun _ => htotal) ih
  | dynamic type mp bytes ty v hbytes hty hv hmp ih => exact .dynamic ty v hv

theorem decodePair_eq_ok {mps : List Mp} {v : Value} (h : decodePair crates mps = .ok v) :
    ∃ type mp bytes ty, mps = [type, mp] ∧ typeBytes type = .ok bytes ∧ Ty.fromCtyJsonBytes crates bytes = .ok ty ∧
      fromMp crates mp ty = .ok v := by
  rcases mps with _ | ⟨type, _ | ⟨mp, _ | ⟨extra, mps⟩⟩⟩
  · cases h
  · cases h
  · rw [decodePair] at h
    obtain ⟨bytes, hbytes, h⟩ := Outcome.bind_eq_ok.mp h
    obtain ⟨ty, hty, h⟩ := Outcome.bind_eq_ok.mp h
    exact ⟨type, mp, bytes, ty, rfl, hbytes, Outcome.mapError_eq_ok.mp hty, h⟩
  · cases h

theorem fromMp_conveys {mp : Mp} {ty : Ty} {v : Value} (h : fromMp crates mp ty = .ok v) :
    Conveys crates mp ty v := by
  induction mp using Mp.induct generalizing ty v with
  | nil =>
      cases h
      exact .nil ty
  | ext kind bytes =>
      cases h
      exact .ext kind bytes ty
  | boolean b => exact conveys_decodeScalar h
  | integer i => exact conveys_decodeScalar h
  | f32 f => exact conveys_decodeScalar h
  | f64 f => exact conveys_decodeScalar h
  | string s => exact conveys_decodeScalar h
  | binary bytes => exact conveys_decodeScalar h
  | array mps ih =>
      have hmps : ∀ mp ∈ mps, ∀ ty v, fromMp crates mp ty = .ok v → Conveys crates mp ty v :=
        fun mp hmp ty v => ih mp hmp
      cases ty with
      | list elem =>
          obtain ⟨items, hitems, rfl⟩ := Outcome.map_eq_ok.mp h
          obtain ⟨hlen, hconveys⟩ := conveys_items hmps hitems
          exact .list elem mps items hlen hconveys
      | set elem =>
          obtain ⟨items, hitems, rfl⟩ := Outcome.map_eq_ok.mp h
          obtain ⟨hlen, hconveys⟩ := conveys_items hmps hitems
          exact .set elem mps items hlen hconveys
      | tuple elems =>
          rw [fromMp] at h
          split_ifs at h with harity
          have hlen : mps.length = elems.length := not_ne_iff.mp harity
          obtain ⟨items, hitems, rfl⟩ := Outcome.map_eq_ok.mp h
          obtain ⟨hlen', hconveys⟩ := conveys_zip hlen hmps hitems
          exact .tuple elems mps items hlen' hlen hconveys
      | dynamic =>
          rw [fromMp] at h
          obtain ⟨type, mp, bytes, ty, rfl, hbytes, hty, hv⟩ := decodePair_eq_ok h
          have hmp : Conveys crates mp ty v := hmps mp (by simp) ty v hv
          exact .dynamic type mp bytes ty v hbytes hty hmp.wellTyped hmp
      | _ => exact conveys_decodeScalar h
  | map pairs ih =>
      have hpairs : ∀ p ∈ pairs, ∀ ty v, fromMp crates p.2 ty = .ok v → Conveys crates p.2 ty v :=
        fun p hp ty v => (ih p hp).2
      cases ty with
      | map elem =>
          obtain ⟨entries, hentries, rfl⟩ := Outcome.map_eq_ok.mp h
          exact conveys_map hpairs hentries
      | object attrs =>
          obtain ⟨fields, hfields, rfl⟩ := Outcome.map_eq_ok.mp h
          exact conveys_object hpairs hfields
      | _ => exact conveys_decodeScalar h

end

theorem exists_wellTyped_of_decodeJsonDynamic {json : Json} {v : Value} (h : decodeJsonDynamic crates json = .ok v) :
    ∃ ty, WellTyped true ty v := by
  induction json using Json.induct generalizing v with
  | null =>
      cases h
      exact ⟨.dynamic, .null _⟩
  | bool b =>
      cases h
      exact ⟨.bool, .bool b⟩
  | number n =>
      cases h
      exact ⟨.number, .number _⟩
  | string s =>
      cases h
      exact ⟨.string, .string s⟩
  | array jsons ih =>
      obtain ⟨items, hitems, rfl⟩ := Outcome.map_eq_ok.mp h
      rw [decodeJsonItems_eq] at hitems
      have htys : ∀ v ∈ items, ∃ ty, WellTyped true ty v := by
        intro v hv
        obtain ⟨json, hjson, hread⟩ := Outcome.exists_of_mem_results hitems v hv
        exact ih json hjson hread
      have : Nonempty Ty := ⟨.dynamic⟩
      choose! ty hty using htys
      refine ⟨.tuple (items.map ty), .tuple _ items (List.length_map ty).symm ?_⟩
      intro p hp
      rw [zip_map_self] at hp
      obtain ⟨v, hv, rfl⟩ := List.mem_map.mp hp
      exact hty v hv
  | object jsons ih =>
      obtain ⟨fields, hfields, rfl⟩ := Outcome.map_eq_ok.mp h
      rw [decodeJsonFields_eq] at hfields
      obtain ⟨hget, -⟩ := Outcome.get?_of_foldlM_insert hfields
      have htys : ∀ p ∈ fields.toList, ∃ ty, WellTyped true ty p.2 := by
        intro p hp
        obtain ⟨q, hq, -, hread⟩ := hget p.1 p.2 (OrdMap.mem_toList.mp hp)
        exact ih q.1 q.2 (OrdMap.mem_toList.mp hq) hread
      have : Nonempty Ty := ⟨.dynamic⟩
      choose! ty hty using htys
      refine ⟨.object (fields.toList.map fun p => ⟨p.1, ty p, false⟩), wellTyped_object.mpr ⟨?_, fun _ => ?_⟩⟩
      · intro k v hk
        exact ⟨_, List.mem_map_of_mem (OrdMap.mem_toList.mpr hk), rfl, hty (k, v) (OrdMap.mem_toList.mpr hk)⟩
      · intro attr hattr
        obtain ⟨p, hp, rfl⟩ := List.mem_map.mp hattr
        exact OrdMap.get?_isSome.mp (OrdMap.mem_toList.mp hp ▸ rfl)
  | other => cases h

theorem wellTyped_decodeJson {json : Json} {ty : Ty} {v : Value} (h : decodeJson crates json ty = .ok v) :
    WellTyped true ty v := by
  induction ty using Ty.induct generalizing json v with
  | bool =>
      cases json <;> cases h
      · exact .null _
      · exact .bool _
  | number =>
      cases json with
      | null =>
          cases h
          exact .null _
      | number n =>
          cases h
          exact .number _
      | string s =>
          have hnull : ¬(Json.string s).isNull = true := Bool.false_ne_true
          rw [decodeJson, if_neg hnull] at h
          cases hn : Number.fromStr s with
          | none =>
              rw [hn] at h
              cases h
          | some n =>
              rw [hn] at h
              cases h
              exact .number n
      | _ => cases h
  | string =>
      cases json <;> cases h
      · exact .null _
      · exact .string _
  | dynamic =>
      rw [decodeJson] at h
      split_ifs at h
      · cases h
        exact .null _
      · obtain ⟨ty, hty⟩ := exists_wellTyped_of_decodeJsonDynamic h
        exact .dynamic ty v hty
  | list elem ih =>
      rw [decodeJson] at h
      split_ifs at h
      · cases h
        exact .null _
      · obtain ⟨jsons, -, h⟩ := Outcome.bind_eq_ok.mp h
        obtain ⟨items, hitems, rfl⟩ := Outcome.map_eq_ok.mp h
        refine .list elem items ?_
        intro v hv
        obtain ⟨json, -, hread⟩ := Outcome.exists_of_mem_results hitems v hv
        exact ih hread
  | set elem ih =>
      rw [decodeJson] at h
      split_ifs at h
      · cases h
        exact .null _
      · obtain ⟨jsons, -, h⟩ := Outcome.bind_eq_ok.mp h
        obtain ⟨items, hitems, rfl⟩ := Outcome.map_eq_ok.mp h
        refine .set elem items ?_
        intro v hv
        obtain ⟨json, -, hread⟩ := Outcome.exists_of_mem_results hitems v hv
        exact ih hread
  | map elem ih =>
      rw [decodeJson] at h
      split_ifs at h
      · cases h
        exact .null _
      · obtain ⟨jsons, -, h⟩ := Outcome.bind_eq_ok.mp h
        obtain ⟨entries, hentries, rfl⟩ := Outcome.map_eq_ok.mp h
        refine .map elem entries ?_
        intro k v hk
        obtain ⟨p, -, -, hread⟩ := (Outcome.get?_of_foldlM_insert hentries).1 k v hk
        exact ih hread
  | object attrs ih =>
      rw [decodeJson] at h
      split_ifs at h
      · cases h
        exact .null _
      · obtain ⟨jsons, -, h⟩ := Outcome.bind_eq_ok.mp h
        obtain ⟨fields, hfields, rfl⟩ := Outcome.map_eq_ok.mp h
        rw [decodeJsonAttrs_eq] at hfields
        obtain ⟨hget, hkeys⟩ := Outcome.get?_of_foldlM_insert hfields
        refine wellTyped_object.mpr ⟨?_, fun _ => hkeys⟩
        intro k v hk
        obtain ⟨attr, hattr, rfl, hread⟩ := hget k v hk
        refine ⟨attr, hattr, rfl, ?_⟩
        rw [decodeJsonAttr] at hread
        cases hjson : jsons.get? attr.name with
        | none =>
            rw [hjson] at hread
            cases hread
            exact .null _
        | some json =>
            rw [hjson] at hread
            exact ih attr hattr hread
  | tuple elems ih =>
      rw [decodeJson] at h
      split_ifs at h
      · cases h
        exact .null _
      · obtain ⟨jsons, -, h⟩ := Outcome.bind_eq_ok.mp h
        split_ifs at h with harity
        obtain ⟨items, hitems, rfl⟩ := Outcome.map_eq_ok.mp h
        obtain ⟨hlen, hall⟩ := exists_of_decodeJsonZip (not_ne_iff.mp harity) hitems
        refine .tuple elems items hlen fun p hp => ?_
        obtain ⟨json, -, hread⟩ := hall p hp
        exact ih p.2 (List.of_mem_zip hp).2 hread

/-- Whatever is decoded is well typed, whatever it is decoded from; over the
wire each dynamic slot is of the type that came with it. -/
theorem decode_wellTyped (crates : Crates) (ty : Ty) (v : Value) :
    (∀ bytes, decodeMsgpack crates bytes ty = .ok v →
      WellTyped true ty v ∧ (bytes = [] ∨ ∃ mp, crates.readValue bytes = .ok mp ∧ Conveys crates mp ty v)) ∧
      ∀ json, decodeJson crates json ty = .ok v → WellTyped true ty v := by
  refine ⟨?_, fun json => wellTyped_decodeJson⟩
  intro bytes h
  rw [decodeMsgpack] at h
  split_ifs at h with hempty
  · cases h
    exact ⟨.null ty, .inl (List.isEmpty_iff.mp hempty)⟩
  · obtain ⟨mp, hread, h⟩ := Outcome.bind_eq_ok.mp h
    have hmp := fromMp_conveys h
    exact ⟨hmp.wellTyped, .inr ⟨mp, Outcome.mapError_eq_ok.mp hread, hmp⟩⟩

def sentTrue : Bytes := [0x92, 0xc4, 0x06, 0x22, 0x62, 0x6f, 0x6f, 0x6c, 0x22, 0xc3]

theorem decode_wellTyped_true :
    (WellTyped true .dynamic (.bool true) ∧
      (sentTrue = [] ∨
        ∃ mp, Crates.real.readValue sentTrue = .ok mp ∧ Conveys Crates.real mp .dynamic (.bool true))) ∧
      WellTyped true .dynamic (.bool true) := by
  obtain ⟨hbytes, hjson⟩ := decode_wellTyped Crates.real .dynamic (.bool true)
  exact ⟨hbytes sentTrue rfl, hjson (.bool true) rfl⟩

end TofuSdk
