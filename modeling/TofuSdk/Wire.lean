import TofuSdk.Conforms
import TofuSdk.RealCrates
import TofuSdk.Zip

namespace TofuSdk

open ValueOf

mutual

/-- The value with every omitted attribute of its objects added as null. -/
def complete (ty : Ty) (v : Value) : Value :=
  match ty, v with
  | .list elem, .list items => .list (items.map fun v => complete elem v)
  | .set elem, .set items => .set (items.map fun v => complete elem v)
  | .map elem, .map entries => .map (entries.map fun v => complete elem v)
  | .tuple elems, .tuple items => .tuple (completeZip elems items)
  | .object attrs, .object fields => .object (OrdMap.ofList (completeAttrs attrs fields))
  | _, v => v
termination_by structural ty

def completeZip (elems : List Ty) (items : List Value) : List Value :=
  match elems, items with
  | t :: ts, v :: vs => complete t v :: completeZip ts vs
  | _, _ => []
termination_by structural elems

def completeAttrs (attrs : List ObjectAttr) (fields : Fields) : List (String × Value) :=
  match attrs with
  | [] => []
  | ⟨name, ty, _⟩ :: attrs =>
      (name, complete ty ((fields.get? name).getD .null)) :: completeAttrs attrs fields
termination_by structural attrs

end

theorem completeZip_eq (elems : List Ty) (items : List Value) :
    completeZip elems items = (items.zip elems).map fun p => complete p.2 p.1 := by
  induction elems generalizing items with
  | nil => simp [completeZip]
  | cons t ts ih =>
      cases items with
      | nil => rfl
      | cons v vs => rw [completeZip, ih, List.zip_cons_cons, List.map_cons]

theorem completeAttrs_eq (attrs : List ObjectAttr) (fields : Fields) :
    completeAttrs attrs fields =
      attrs.map fun attr => (attr.name, complete attr.ty ((fields.get? attr.name).getD .null)) := by
  induction attrs with
  | nil => rfl
  | cons attr attrs ih => rw [completeAttrs, ih, List.map_cons]

theorem complete_null (ty : Ty) : complete ty .null = .null := by cases ty <;> rfl

theorem complete_unknown (ty : Ty) : complete ty .unknown = .unknown := by cases ty <;> rfl

namespace Integer

theorem asI64_ofI64 (i : Int64) : (ofI64 i).asI64 = some i := by
  rw [asI64, if_pos (show (ofI64 i).val < 2 ^ 63 from i.toInt_lt)]
  simp [ofI64]

theorem asU64_ofU64 (u : UInt64) : (ofU64 u).asU64 = some u := by simp [asU64, ofU64]

end Integer

def Number.onWire (n : Number) : Number := (numberFromMp (numberToMp n)).getD n

namespace Number

/-- The one float that the range test lets through and the cast cannot hold. -/
def saturates : Number → Bool
  | .f64 f => f.isFinite && f.value == 2 ^ 63
  | _ => false

theorem value_minI64 : (BinaryFloat.ofInt (-2 ^ 63) : F64).value = -2 ^ 63 := by decide +kernel

theorem value_maxI64 : (BinaryFloat.ofInt (2 ^ 63 - 1) : F64).value = 2 ^ 63 := by decide +kernel

theorem numberFromMp_numberToMp (n : Number) : numberFromMp (numberToMp n) = some n.onWire := by
  cases n with
  | i64 i => simp [onWire, numberToMp, numberFromMp, Integer.asI64_ofI64]
  | u64 u =>
      simp only [onWire, numberToMp, numberFromMp, Integer.asU64_ofU64, Option.map_some]
      cases (Integer.ofU64 u).asI64 <;> simp
  | f64 f =>
      simp only [onWire, numberToMp]
      split_ifs
      · simp [numberFromMp, Integer.asI64_ofI64]
      · simp [numberFromMp]

theorem exact_onWire_i64 (i : Int64) : (Number.i64 i).onWire.exact = (Number.i64 i).exact := by
  simp [onWire, numberToMp, numberFromMp, Integer.asI64_ofI64]

theorem exact_onWire_u64 (u : UInt64) : (Number.u64 u).onWire.exact = (Number.u64 u).exact := by
  simp only [onWire, numberToMp, numberFromMp, Integer.asU64_ofU64, Option.map_some]
  by_cases h : (Integer.ofU64 u).val < 2 ^ 63
  · have hu : (u.toNat : Int) < 2 ^ 63 := h
    rw [Integer.asI64, if_pos h]
    simp only [Option.map_some, Option.some_or, Option.getD_some, exact, Integer.ofU64]
    rw [Int64.toInt_ofInt_of_le (by omega) (by omega), Int.cast_natCast]
  · rw [Integer.asI64, if_neg h]
    rfl

/-- A float keeps its value on the wire unless it is two to the 63, which the
cast to `i64` lowers by one. -/
theorem exact_onWire_f64 {f : F64} (hf : f.isFinite = true) :
    (Number.f64 f).onWire.exact = f.exact ↔ f.value ≠ 2 ^ 63 := by
  simp only [onWire, numberToMp]
  by_cases h : (f.isIntegral && (BinaryFloat.ofInt (-2 ^ 63)).le f &&
      f.le (BinaryFloat.ofInt (2 ^ 63 - 1))) = true
  · rw [if_pos h]
    simp only [Bool.and_eq_true] at h
    obtain ⟨⟨hint, hlo⟩, hhi⟩ := h
    obtain ⟨-, n, hn⟩ := BinaryFloat.isIntegral_iff.mp hint
    rw [le_iff_value (by decide +kernel) hf, value_minI64, hn] at hlo
    rw [le_iff_value hf (by decide +kernel), value_maxI64, hn] at hhi
    have hlo' : -2 ^ 63 ≤ n := by exact_mod_cast hlo
    have hhi' : n ≤ 2 ^ 63 := by exact_mod_cast hhi
    have hv : f.value = 2 ^ 63 ↔ n = 2 ^ 63 := by rw [hn]; exact_mod_cast Iff.rfl
    simp only [numberFromMp, Integer.asI64_ofI64, Option.map_some, Option.some_or,
      Option.getD_some, exact, BinaryFloat.exact, hf, if_true, hn, BinaryFloat.toIntSat_of_value hf hn]
    rw [Int64.toInt_ofInt_of_le (by omega) (by omega), ExtRat.finite.injEq, Int.cast_inj, ← hn, ne_eq, hv]
    omega
  · rw [if_neg h]
    simp only [numberFromMp, Option.getD_some, exact, true_iff]
    intro hv
    apply h
    have hint : f.isIntegral = true := BinaryFloat.isIntegral_iff.mpr ⟨hf, 2 ^ 63, by rw [hv]; norm_num⟩
    have hlo : (BinaryFloat.ofInt (-2 ^ 63)).le f = true := by
      rw [le_iff_value (by decide +kernel) hf, value_minI64, hv]
      norm_num
    have hhi : f.le (BinaryFloat.ofInt (2 ^ 63 - 1)) = true := by
      rw [le_iff_value hf (by decide +kernel), value_maxI64, hv]
    rw [hint, hlo, hhi]
    rfl

theorem exact_onWire (n : Number) : n.onWire.exact = n.exact ↔ n.saturates = false := by
  cases n with
  | i64 i => simpa [saturates] using exact_onWire_i64 i
  | u64 u => simpa [saturates] using exact_onWire_u64 u
  | f64 f =>
      by_cases hf : f.isFinite = true
      · rw [exact, exact_onWire_f64 hf]
        simp [saturates, hf]
      · simp [onWire, numberToMp, numberFromMp, BinaryFloat.isIntegral, saturates, hf]

end Number

section

variable {crates : Crates}

theorem decodeObject_encodeObject {attrs : List ObjectAttr} {fields : Fields} {w : ObjectAttr → Value}
    (hn : (attrs.map (·.name)).Nodup)
    (h : ∀ attr ∈ attrs, ∃ mp, toMp crates ((fields.get? attr.name).getD .null) attr.ty = .ok mp ∧
      fromMp crates mp attr.ty = .ok (w attr)) :
    ∃ mp, toMp crates (.object fields) (.object attrs) = .ok mp ∧
      fromMp crates mp (.object attrs) =
        .ok (.object (OrdMap.ofList (attrs.map fun attr => (attr.name, w attr)))) := by
  classical
  choose! mp henc hdec using h
  refine ⟨.map ((sortedByName attrs).map fun attr => (.string (.text attr.name), mp attr)), ?_, ?_⟩
  · change encodeObject crates fields attrs = _
    rw [encodeObject_eq, Outcome.mapM_eq_ok_map (g := fun attr => (.string (.text attr.name), mp attr))]
    · rfl
    · intro attr ha
      rw [henc attr (mem_sortedByName.mp ha)]
      rfl
  · have hfield : ∀ attr ∈ attrs, decodeField crates
        ((sortedByName attrs).map fun attr => (.string (.text attr.name), mp attr)) attr.name attr.ty =
          .ok (w attr) := by
      intro attr ha
      have hmem : (attr.name, mp attr) ∈ (sortedByName attrs).map fun attr => (attr.name, mp attr) :=
        List.mem_map_of_mem (mem_sortedByName.mpr ha)
      have hnodup : (((sortedByName attrs).map fun attr => (attr.name, mp attr)).map Prod.fst).Nodup := by
        simpa [List.map_map, Function.comp_def] using sortedByName_nodup hn
      have hlist := decodeField_of_text crates ((sortedByName attrs).map fun attr => (attr.name, mp attr))
        attr.name attr.ty
      rw [OrdMap.find?_of_nodup hnodup hmem, List.map_map] at hlist
      exact hlist.trans (hdec attr ha)
    change Except.map _ _ = _
    rw [Outcome.foldlM_insert, Outcome.mapM_eq_ok_map (g := fun attr => (attr.name, w attr))]
    · rfl
    · intro attr ha
      rw [hfield attr ha]
      rfl

theorem decodeMap_encodeMap {elem : Ty} {entries : Fields} {w : Value → Value}
    (h : ∀ k v, entries.get? k = some v → ∃ mp, toMp crates v elem = .ok mp ∧
      fromMp crates mp elem = .ok (w v)) :
    ∃ mp, toMp crates (.map entries) (.map elem) = .ok mp ∧
      fromMp crates mp (.map elem) = .ok (.map (entries.map w)) := by
  have hall : ∀ p ∈ entries.toList, ∃ mp, toMp crates p.2 elem = .ok mp ∧
      fromMp crates mp elem = .ok (w p.2) := fun p hp => h p.1 p.2 (OrdMap.mem_toList.mp hp)
  choose! mp henc hdec using hall
  refine ⟨.map (entries.toList.map fun p => (.string (.text p.1), mp p)), ?_, ?_⟩
  · change encodeMap crates entries elem = _
    rw [encodeMap_eq, Outcome.mapM_eq_ok_map (g := fun p => (.string (.text p.1), mp p))]
    · rfl
    · intro p hp
      rw [henc p hp]
      rfl
  · have hlist := decodeEntries_of_text crates (entries.toList.map fun p => (p.1, mp p)) elem OrdMap.empty
    rw [Outcome.foldlM_insert, List.mapM_map, Outcome.mapM_eq_ok_map (g := fun p => (p.1, w p.2)),
      List.map_map] at hlist
    · change _ <$> decodeEntries crates (entries.toList.map fun p => (.string (.text p.1), mp p)) elem
        OrdMap.empty = _
      have hmap : OrdMap.ofList (entries.toList.map fun p => (p.1, w p.2)) = entries.map w := by
        rw [← OrdMap.map_ofList, OrdMap.ofList_toList]
      exact (congrArg (ValueOf.map <$> ·) hlist).trans (congrArg (fun m => Except.ok (ValueOf.map m)) hmap)
    · intro p hp
      simp only [Function.comp, hdec p hp, Outcome.map_ok]

theorem decodeEach_encodeEach {elem : Ty} {items : List Value} {w : Value → Value}
    (h : ∀ v ∈ items, ∃ mp, toMp crates v elem = .ok mp ∧ fromMp crates mp elem = .ok (w v)) :
    ∃ mps, encodeEach crates items elem = .ok mps ∧
      decodeEach crates mps elem = .ok (items.map w) := by
  choose! mp henc hdec using h
  refine ⟨items.map mp, ?_, ?_⟩
  · rw [encodeEach_eq, Outcome.mapM_eq_ok_map henc]
  · rw [decodeEach_eq, List.mapM_map]
    exact Outcome.mapM_eq_ok_map hdec

theorem exists_decodeEach {P : Value → Value → Prop} {elem : Ty} {items : List Value}
    (h : ∀ v ∈ items, ∃ mp w, toMp crates v elem = .ok mp ∧ fromMp crates mp elem = .ok w ∧ P v w) :
    ∃ mps w, encodeEach crates items elem = .ok mps ∧ decodeEach crates mps elem = .ok (items.map w) ∧
      ∀ v ∈ items, P v (w v) := by
  choose! mp w henc hdec hw using h
  obtain ⟨mps, hencAll, hdecAll⟩ := decodeEach_encodeEach (w := w) fun v hv => ⟨mp v, henc v hv, hdec v hv⟩
  exact ⟨mps, w, hencAll, hdecAll, hw⟩

theorem decodeZip_encodeZip {elems : List Ty} {items : List Value} {w : Value × Ty → Value}
    (hlen : items.length = elems.length)
    (h : ∀ p ∈ items.zip elems, ∃ mp, toMp crates p.1 p.2 = .ok mp ∧ fromMp crates mp p.2 = .ok (w p)) :
    ∃ mps, mps.length = items.length ∧ encodeZip crates items elems = .ok mps ∧
      decodeZip crates mps elems = .ok ((items.zip elems).map w) := by
  choose! mp henc hdec using h
  refine ⟨(items.zip elems).map mp, by simp [hlen], ?_, ?_⟩
  · rw [encodeZip_eq, Outcome.mapM_eq_ok_map henc]
  · rw [decodeZip_eq, zip_map_zip, List.mapM_map]
    exact Outcome.mapM_eq_ok_map hdec

theorem fromMp_numberToMp (n : Number) :
    fromMp crates (numberToMp n) .number = .ok (.number n.onWire) := by
  have h : fromMp crates (numberToMp n) .number = decodeScalar (numberToMp n) .number := by
    cases n with
    | f64 f =>
        simp only [numberToMp]
        split_ifs <;> rfl
    | _ => rfl
  rw [h, decodeScalar, Number.numberFromMp_numberToMp]

/-- What is written for a value whose dynamic slots read back reads back as the
value, with omitted attributes as null and each number as the wire holds it. -/
theorem fromMp_toMp {slot : Value → Prop}
    (hslot : ∀ v, slot v → ∃ mp, toMp crates v .dynamic = .ok mp ∧
      fromMp crates mp .dynamic = .ok (v.mapNumber Number.onWire))
    {ty : Ty} {v : Value} (hn : ty.distinctNames = true) (hv : ConformsWith slot ty v) :
    ∃ mp, toMp crates v ty = .ok mp ∧
      fromMp crates mp ty = .ok ((complete ty v).mapNumber Number.onWire) := by
  rw [Ty.distinctNames] at hn
  induction hv with
  | null ty => exact ⟨.nil, rfl, by rw [complete_null]; rfl⟩
  | unknown ty => exact ⟨.ext 0 [0], rfl, by rw [complete_unknown]; rfl⟩
  | bool b => exact ⟨.boolean b, rfl, rfl⟩
  | string s => exact ⟨.string (.text s), rfl, rfl⟩
  | dynamic v h => exact hslot v h
  | number n hfin => exact ⟨numberToMp n, rfl, fromMp_numberToMp n⟩
  | list elem items _ ih =>
      obtain ⟨mps, henc, hdec⟩ := decodeEach_encodeEach (w := fun v => (complete elem v).mapNumber Number.onWire)
        fun v hv => ih v hv (by simpa [Ty.everywhere] using hn)
      refine ⟨.array mps, congrArg (Mp.array <$> ·) henc, (congrArg (ValueOf.list <$> ·) hdec).trans ?_⟩
      simp [complete, mapNumber, mapNumbers_eq_map]
  | set elem items _ ih =>
      obtain ⟨mps, henc, hdec⟩ := decodeEach_encodeEach (w := fun v => (complete elem v).mapNumber Number.onWire)
        fun v hv => ih v hv (by simpa [Ty.everywhere] using hn)
      refine ⟨.array mps, congrArg (Mp.array <$> ·) henc, (congrArg (ValueOf.set <$> ·) hdec).trans ?_⟩
      simp [complete, mapNumber, mapNumbers_eq_map]
  | tuple elems items hlen _ ih =>
      rw [Ty.everywhere, Bool.and_eq_true, Ty.everywhereIn_iff] at hn
      obtain ⟨mps, hlen', henc, hdec⟩ := decodeZip_encodeZip (w := fun p => (complete p.2 p.1).mapNumber Number.onWire)
        hlen fun p hp => ih p hp (hn.2 p.2 (List.of_mem_zip hp).2)
      refine ⟨.array mps, ?_, ?_⟩
      · change (if items.length ≠ elems.length then _ else _ : Except CodecError Mp) = _
        rw [if_neg (not_not.mpr hlen), henc]
        rfl
      · change (if mps.length ≠ elems.length then _ else _ : Except CodecError Value) = _
        rw [if_neg (not_not.mpr (hlen'.trans hlen)), hdec]
        simp [complete, mapNumber, mapNumbers_eq_map, completeZip_eq]
  | map elem entries _ ih =>
      obtain ⟨mp, henc, hdec⟩ := decodeMap_encodeMap (w := fun v => (complete elem v).mapNumber Number.onWire)
        fun k v hv => ih k v hv (by simpa [Ty.everywhere] using hn)
      refine ⟨mp, henc, hdec.trans ?_⟩
      simp [complete, mapNumber, mapNumberFields_eq_map, OrdMap.map]
  | object attrs fields hk _ ih =>
      rw [Ty.everywhere, Bool.and_eq_true, Ty.everywhereAttrs_iff] at hn
      obtain ⟨mp, henc, hdec⟩ := decodeObject_encodeObject
        (w := fun attr => (complete attr.ty ((fields.get? attr.name).getD .null)).mapNumber Number.onWire)
        (by simpa using hn.1) fun attr ha => ih attr ha (hn.2 attr ha)
      refine ⟨mp, henc, hdec.trans ?_⟩
      simp [complete, mapNumber, mapNumberFields_eq_map, completeAttrs_eq, OrdMap.map_ofList, Function.comp_def]

end

theorem get?_completeObject {attrs : List ObjectAttr} {fields : Fields}
    (hn : (attrs.map (·.name)).Nodup) (k : String) (w : Value) :
    (OrdMap.ofList (completeAttrs attrs fields)).get? k = some w ↔
      ∃ attr ∈ attrs, attr.name = k ∧ complete attr.ty ((fields.get? attr.name).getD .null) = w := by
  rw [completeAttrs_eq, OrdMap.get?_ofList_of_nodup (by simpa [List.map_map, Function.comp_def] using hn)]
  simp

theorem everyNumber_complete {p : Number → Bool} {slot : Value → Prop} {ty : Ty} {v : Value}
    (hn : ty.distinctNames = true) (hv : ConformsWith slot ty v) :
    everyNumber p (complete ty v) = true ↔ everyNumber p v = true := by
  rw [Ty.distinctNames] at hn
  induction hv with
  | null ty => rw [complete_null]
  | unknown ty => rw [complete_unknown]
  | bool b | string s | number n _ | dynamic v _ => rfl
  | list elem items _ ih | set elem items _ ih =>
      have hn' := (Bool.and_eq_true _ _ ▸ hn).2
      simp only [complete, everyNumber, everywhere_list, everywhere_set, true_and, List.forall_mem_map] at ih ⊢
      exact forall₂_congr fun v hv => ih v hv hn'
  | tuple elems items hlen _ ih =>
      rw [Ty.everywhere, Bool.and_eq_true, Ty.everywhereIn_iff] at hn
      have hzip : ∀ v ∈ items, ∃ t, (v, t) ∈ items.zip elems := by
        intro v hv
        rw [← List.map_fst_zip hlen.le, List.mem_map] at hv
        obtain ⟨q, hq, rfl⟩ := hv
        exact ⟨q.2, hq⟩
      simp only [complete, completeZip_eq, everyNumber, everywhere_tuple, true_and,
        List.forall_mem_map] at ih ⊢
      constructor
      · intro h v hv
        obtain ⟨t, ht⟩ := hzip v hv
        exact (ih _ ht (hn.2 t (List.of_mem_zip ht).2)).mp (h _ ht)
      · intro h q hq
        exact (ih q hq (hn.2 q.2 (List.of_mem_zip hq).2)).mpr (h q.1 (List.of_mem_zip hq).1)
  | map elem entries _ ih =>
      have hn' := (Bool.and_eq_true _ _ ▸ hn).2
      simp only [complete, everyNumber, everywhere_map, true_and, OrdMap.get?_map,
        Option.map_eq_some_iff, forall_exists_index, and_imp, forall_apply_eq_imp_iff₂] at ih ⊢
      exact forall_congr' fun k => forall₂_congr fun v hv => ih k v hv hn'
  | object attrs fields hk _ ih =>
      rw [Ty.everywhere, Bool.and_eq_true, Ty.everywhereAttrs_iff] at hn
      have hnodup : (attrs.map (·.name)).Nodup := by simpa using hn.1
      simp only [complete, everyNumber, everywhere_object, true_and] at ih ⊢
      constructor
      · intro h k v hv
        obtain ⟨attr, ha, rfl⟩ := List.mem_map.mp (hk k (OrdMap.get?_isSome.mp (by rw [hv]; rfl)))
        have hc := h _ _ ((get?_completeObject hnodup attr.name _).mpr ⟨attr, ha, rfl, rfl⟩)
        have := (ih attr ha (hn.2 attr ha)).mp hc
        rwa [hv] at this
      · intro h k w hw
        obtain ⟨attr, ha, rfl, rfl⟩ := (get?_completeObject hnodup k w).mp hw
        rw [ih attr ha (hn.2 attr ha)]
        cases hv : fields.get? attr.name with
        | none => rfl
        | some v => exact h _ v hv

theorem exact_onWire_iff (v : Value) :
    Value.exact (mapNumber Number.onWire v) = v.exact ↔ everyNumber (fun n => !n.saturates) v = true := by
  have h : ∀ n : Number, n.onWire.exact = n.exact ↔ (!n.saturates) = true := by
    intro n
    rw [Number.exact_onWire, Bool.not_eq_true']
  rw [Value.exact, mapNumber_mapNumber]
  exact mapNumber_eq_iff h v

theorem Crates.Lawful.encodeMsgpack_of_toMp {crates : Crates} (hc : crates.Lawful) {v : Value} {ty : Ty} {mp : Mp}
    (henc : toMp crates v ty = .ok mp) :
    ∃ bytes, encodeMsgpack crates v ty = .ok bytes ∧ ∀ ty', decodeMsgpack crates bytes ty' = fromMp crates mp ty' := by
  obtain ⟨bytes, hbytes⟩ := hc.write mp
  refine ⟨bytes, ?_, ?_⟩
  · rw [encodeMsgpack, henc, Outcome.ok_bind, hbytes]
    rfl
  · intro ty'
    have hne : bytes.isEmpty = false := by
      cases bytes with
      | nil => exact absurd (hc.read mp [] hbytes) (hc.eof mp)
      | cons b bs => rfl
    rw [decodeMsgpack, hne, hc.read mp bytes hbytes]
    rfl

theorem decodeMsgpack_encodeMsgpack {crates : Crates} (hc : crates.Lawful) {slot : Value → Prop}
    (hslot : ∀ v, slot v → ∃ mp, toMp crates v .dynamic = .ok mp ∧
      fromMp crates mp .dynamic = .ok (v.mapNumber Number.onWire))
    {ty : Ty} {v : Value} (hn : ty.distinctNames = true) (hv : ConformsWith slot ty v) :
    ∃ bytes, encodeMsgpack crates v ty = .ok bytes ∧
      decodeMsgpack crates bytes ty = .ok ((complete ty v).mapNumber Number.onWire) := by
  obtain ⟨mp, henc, hdec⟩ := fromMp_toMp hslot hn hv
  obtain ⟨bytes, hbytes, hread⟩ := hc.encodeMsgpack_of_toMp henc
  exact ⟨bytes, hbytes, (hread ty).trans hdec⟩

/-- The wire keeps a conforming value of a static type exactly when no number
in it is the float two to the 63. -/
theorem roundTrip_iff {crates : Crates} (hc : crates.Lawful) {ty : Ty} {v : Value}
    (hs : ty.isStatic = true) (hn : ty.distinctNames = true) (hv : Conforms ty v) :
    (∃ bytes, encodeMsgpack crates v ty = .ok bytes ∧
      ∃ w, decodeMsgpack crates bytes ty = .ok w ∧ w.exact = (complete ty v).exact) ↔
    everyNumber (fun n => !n.saturates) v = true := by
  obtain ⟨bytes, henc, hdec⟩ := decodeMsgpack_encodeMsgpack hc (fun _ h => h.elim) hn (hv.of_isStatic hs)
  rw [← everyNumber_complete hn hv, ← exact_onWire_iff]
  constructor
  · rintro ⟨bytes', henc', w, hdec', hw⟩
    obtain rfl : bytes = bytes' := Except.ok.inj (henc.symm.trans henc')
    obtain rfl : _ = w := Except.ok.inj (hdec.symm.trans hdec')
    exact hw
  · intro h
    exact ⟨bytes, henc, _, hdec, h⟩

/-- A parcel with a number in a list beside one that is not known, and no owner. -/
def parcel : Value :=
  .object (OrdMap.ofList [("label", .string "a"), ("sizes", .list [.number (.i64 3), .unknown])])

def parcelTy : Ty := .object [⟨"label", .string, false⟩, ⟨"sizes", .list .number, false⟩,
  ⟨"owner", .object [⟨"name", .string, false⟩], true⟩]

theorem conforms_parcel : Conforms parcelTy parcel := by
  refine .object _ _ (fun k hk => ?_) ?_
  · rw [OrdMap.mem_keys_ofList] at hk
    exact List.mem_append_left ["owner"] hk
  · simp only [List.forall_mem_cons]
    refine ⟨.string "a", .list .number _ ?_, .null _, List.forall_mem_nil _⟩
    simp only [List.forall_mem_cons]
    exact ⟨.number (.i64 3) rfl, .unknown .number, List.forall_mem_nil _⟩

theorem roundTrip_parcel : (∃ bytes, encodeMsgpack Crates.real parcel parcelTy = .ok bytes ∧
    ∃ w, decodeMsgpack Crates.real bytes parcelTy = .ok w ∧ w.exact = (complete parcelTy parcel).exact) ↔
    everyNumber (fun n => !n.saturates) parcel = true :=
  roundTrip_iff Crates.real_lawful rfl rfl conforms_parcel

def twoTo63 : Value := .number (.f64 (BinaryFloat.ofInt (2 ^ 63)))

theorem conforms_twoTo63 : Conforms .number twoTo63 := .number _ (by decide +kernel)

theorem twoTo63_lost : Conforms .number twoTo63 ∧ ¬∃ bytes, encodeMsgpack Crates.real twoTo63 .number = .ok bytes ∧
    ∃ w, decodeMsgpack Crates.real bytes .number = .ok w ∧ w.exact = (complete .number twoTo63).exact := by
  refine ⟨conforms_twoTo63, ?_⟩
  rintro ⟨bytes, henc, w, hdec, hw⟩
  have hv : ConformsWith (fun _ => False) .number twoTo63 := conforms_twoTo63.of_isStatic rfl
  obtain ⟨bytes', henc', hdec'⟩ := decodeMsgpack_encodeMsgpack Crates.real_lawful (fun _ h => h.elim) rfl hv
  obtain rfl : bytes = bytes' := Except.ok.inj (henc.symm.trans henc')
  obtain rfl := Except.ok.inj (hdec.symm.trans hdec')
  have hkept := (exact_onWire_iff (complete .number twoTo63)).mp hw
  revert hkept
  decide +kernel

end TofuSdk
