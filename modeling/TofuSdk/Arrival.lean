import TofuSdk.Dynamic
import TofuSdk.WellTyped

namespace TofuSdk

open ValueOf

/-- The number that the wire makes of one: the float two to the 63 is the
largest `i64` there. -/
def Number.arriving (n : Number) : ExtRat := if n.saturates then .finite (2 ^ 63 - 1) else n.exact

/-- A value that is sent under a type arrives as another. An object then has the
attributes of the type and no others, and what is in a dynamic slot has the type
that is inferred from it. -/
inductive Arrives : Ty → Value → ValueOf ExtRat → Prop
  | null (ty : Ty) : Arrives ty .null .null
  | unknown (ty : Ty) : Arrives ty .unknown .unknown
  | bool (b : Bool) : Arrives .bool (.bool b) (.bool b)
  | number (n : Number) : Arrives .number (.number n) (.number n.arriving)
  | string (s : String) : Arrives .string (.string s) (.string s)
  | list (elem : Ty) (items : List Value) (u : Value → ValueOf ExtRat) : (∀ v ∈ items, Arrives elem v (u v)) →
      Arrives (.list elem) (.list items) (.list (items.map u))
  | set (elem : Ty) (items : List Value) (u : Value → ValueOf ExtRat) : (∀ v ∈ items, Arrives elem v (u v)) →
      Arrives (.set elem) (.set items) (.set (items.map u))
  | tuple (elems : List Ty) (items : List Value) (u : Value × Ty → ValueOf ExtRat) : items.length = elems.length →
      (∀ p ∈ items.zip elems, Arrives p.2 p.1 (u p)) →
      Arrives (.tuple elems) (.tuple items) (.tuple ((items.zip elems).map u))
  | map (elem : Ty) (entries : Fields) (u : Value → ValueOf ExtRat) :
      (∀ k v, entries.get? k = some v → Arrives elem v (u v)) →
      Arrives (.map elem) (.map entries) (.map (entries.map u))
  | object (attrs : List ObjectAttr) (fields : Fields) (u : ObjectAttr → ValueOf ExtRat) :
      (∀ attr ∈ attrs, Arrives attr.ty ((fields.get? attr.name).getD .null) (u attr)) →
      Arrives (.object attrs) (.object fields) (.object (OrdMap.ofList (attrs.map fun attr => (attr.name, u attr))))
  | dynamic (v : Value) (u : ValueOf ExtRat) : v.isNull = false → v.isUnknown = false → Arrives v.inferType v u →
      Arrives .dynamic v u

theorem Number.exact_arriving (n : Number) : n.onWire.exact = n.arriving := by
  rw [arriving]
  split_ifs with hsat
  · cases n with
    | f64 f =>
        obtain ⟨hf, hvalue⟩ := (Bool.and_eq_true _ _).mp hsat
        have hv : f.value = ((2 ^ 63 : Int) : Rat) := by
          rw [beq_iff_eq.mp hvalue]
          norm_num
        have htest : (f.isIntegral && (BinaryFloat.ofInt (-2 ^ 63)).le f &&
            f.le (BinaryFloat.ofInt (2 ^ 63 - 1))) = true := by
          rw [Bool.and_eq_true, Bool.and_eq_true]
          refine ⟨⟨BinaryFloat.isIntegral_iff.mpr ⟨hf, 2 ^ 63, hv⟩, ?_⟩, ?_⟩
          · rw [le_iff_value (by decide +kernel) hf, value_minI64, hv]
            norm_num
          · rw [le_iff_value hf (by decide +kernel), value_maxI64, hv]
            norm_num
        simp only [onWire, numberToMp, if_pos htest]
        simp only [numberFromMp, Integer.asI64_ofI64, Option.map_some, Option.some_or, Option.getD_some, exact,
          BinaryFloat.toIntSat_of_value hf hv]
        rw [Int64.toInt_ofInt_of_le (by norm_num) (by norm_num)]
        norm_num
    | _ => cases hsat
  · exact (exact_onWire n).mpr (Bool.eq_false_iff.mpr hsat)

section

variable {crates : Crates} {ty : Ty} {v : Value} {u : ValueOf ExtRat}

theorem Arrives.exists_fromMp (ht : crates.ReadsTypes) (h : Arrives ty v u) (hn : ty.distinctNames = true) :
    ∃ mp w, toMp crates v ty = .ok mp ∧ fromMp crates mp ty = .ok w ∧ w.exact = u := by
  induction h with
  | null ty => exact ⟨.nil, .null, rfl, rfl, rfl⟩
  | unknown ty => exact ⟨.ext 0 [0], .unknown, rfl, rfl, rfl⟩
  | bool b => exact ⟨.boolean b, .bool b, rfl, rfl, rfl⟩
  | string s => exact ⟨.string (.text s), .string s, rfl, rfl, rfl⟩
  | number n =>
      exact ⟨numberToMp n, .number n.onWire, rfl, fromMp_numberToMp n, congrArg ValueOf.number n.exact_arriving⟩
  | list elem items u _ ih =>
      obtain ⟨mps, w, hencAll, hdecAll, hw⟩ := exists_decodeEach (P := fun v w => w.exact = u v) fun v hv => ih v hv hn
      refine ⟨.array mps, .list (items.map w), congrArg (Mp.array <$> ·) hencAll,
        congrArg (ValueOf.list <$> ·) hdecAll, ?_⟩
      rw [Value.exact_list, List.map_map]
      exact congrArg ValueOf.list (List.map_congr_left hw)
  | set elem items u _ ih =>
      obtain ⟨mps, w, hencAll, hdecAll, hw⟩ := exists_decodeEach (P := fun v w => w.exact = u v) fun v hv => ih v hv hn
      refine ⟨.array mps, .set (items.map w), congrArg (Mp.array <$> ·) hencAll,
        congrArg (ValueOf.set <$> ·) hdecAll, ?_⟩
      rw [Value.exact_set, List.map_map]
      exact congrArg ValueOf.set (List.map_congr_left hw)
  | tuple elems items u hlen _ ih =>
      have hitems := fun p hp => ih p hp (Ty.distinctNames_tuple.mp hn p.2 (List.of_mem_zip hp).2)
      choose! mp w henc hdec hw using hitems
      obtain ⟨mps, hlen', hencAll, hdecAll⟩ := decodeZip_encodeZip (w := w) hlen fun p hp =>
        ⟨mp p, henc p hp, hdec p hp⟩
      refine ⟨.array mps, .tuple ((items.zip elems).map w), ?_, ?_, ?_⟩
      · change (if items.length ≠ elems.length then _ else _ : Except CodecError Mp) = _
        rw [if_neg (not_not.mpr hlen), hencAll]
        rfl
      · change (if mps.length ≠ elems.length then _ else _ : Except CodecError Value) = _
        rw [if_neg (not_not.mpr (hlen'.trans hlen)), hdecAll]
        rfl
      · rw [Value.exact_tuple, List.map_map]
        exact congrArg ValueOf.tuple (List.map_congr_left hw)
  | map elem entries u _ ih =>
      have hentries := fun v (hv : ∃ k, entries.get? k = some v) => ih hv.choose v hv.choose_spec hn
      choose! mp w henc hdec hw using hentries
      obtain ⟨mps, hencAll, hdecAll⟩ := decodeMap_encodeMap (w := w) fun k v hv =>
        ⟨mp v, henc v ⟨k, hv⟩, hdec v ⟨k, hv⟩⟩
      refine ⟨mps, .map (entries.map w), hencAll, hdecAll, ?_⟩
      rw [Value.exact_map]
      refine congrArg ValueOf.map (OrdMap.ext_get? fun k => ?_)
      simp only [OrdMap.get?_map, Option.map_map]
      cases hv : entries.get? k with
      | none => rfl
      | some v => exact congrArg some (hw v ⟨k, hv⟩)
  | object attrs fields u _ ih =>
      obtain ⟨hnodup, htys⟩ := Ty.distinctNames_object.mp hn
      have hattrs := fun attr ha => ih attr ha (htys attr ha)
      choose! mp w henc hdec hw using hattrs
      obtain ⟨mps, hencAll, hdecAll⟩ := decodeObject_encodeObject (w := w) hnodup fun attr ha =>
        ⟨mp attr, henc attr ha, hdec attr ha⟩
      refine ⟨mps, _, hencAll, hdecAll, ?_⟩
      rw [Value.exact_object, OrdMap.map_ofList, List.map_map]
      refine congrArg (fun l => ValueOf.object (OrdMap.ofList l)) (List.map_congr_left fun attr ha => ?_)
      exact congrArg (Prod.mk attr.name) (hw attr ha)
  | dynamic v u hnull hunknown _ ih =>
      obtain ⟨mp, w, henc, hdec, hw⟩ := ih v.distinctNames_inferType
      exact ⟨_, w, (Shaped.toMp_dynamic hnull hunknown).mpr ⟨mp, henc, rfl⟩,
        (Value.fromMp_dynamicSlot ht v mp).trans hdec, hw⟩

theorem exists_arrives_of_typed (hnull : v.isNull = false) (hunknown : v.isUnknown = false)
    (h : ∀ ty mp, ty ≠ .dynamic → toMp crates v ty = .ok mp → ∃ u, Arrives ty v u) {mp : Mp}
    (henc : toMp crates v ty = .ok mp) : ∃ u, Arrives ty v u := by
  by_cases hty : ty = .dynamic
  · subst hty
    obtain ⟨inner, hinner, -⟩ := (Shaped.toMp_dynamic hnull hunknown).mp henc
    have hinfer : v.inferType ≠ .dynamic := by
      cases v with
      | null => cases hnull
      | unknown => cases hunknown
      | _ => rintro ⟨⟩
    obtain ⟨u, hu⟩ := h _ inner hinfer hinner
    exact ⟨u, .dynamic v u hnull hunknown hu⟩
  · exact h ty mp hty henc

theorem exists_arrives (henc : ∃ mp, toMp crates v ty = .ok mp) : ∃ u, Arrives ty v u := by
  obtain ⟨mp, henc⟩ := henc
  induction v using ValueOf.induct generalizing ty mp with
  | null => exact ⟨.null, .null ty⟩
  | unknown => exact ⟨.unknown, .unknown ty⟩
  | bool b =>
      refine exists_arrives_of_typed rfl rfl ?_ henc
      intro ty mp hty h
      cases ty with
      | bool => exact ⟨_, .bool b⟩
      | dynamic => exact absurd rfl hty
      | _ => cases h
  | number n =>
      refine exists_arrives_of_typed rfl rfl ?_ henc
      intro ty mp hty h
      cases ty with
      | number => exact ⟨_, .number n⟩
      | dynamic => exact absurd rfl hty
      | _ => cases h
  | string s =>
      refine exists_arrives_of_typed rfl rfl ?_ henc
      intro ty mp hty h
      cases ty with
      | string => exact ⟨_, .string s⟩
      | dynamic => exact absurd rfl hty
      | _ => cases h
  | list items ih =>
      refine exists_arrives_of_typed rfl rfl ?_ henc
      intro ty mp hty h
      cases ty with
      | list elem =>
          have hitems := fun v hv => (exists_toMp_list.mp ⟨mp, h⟩ v hv).elim (ih v hv)
          choose! u hu using hitems
          exact ⟨_, .list elem items u hu⟩
      | dynamic => exact absurd rfl hty
      | _ => cases h
  | set items ih =>
      refine exists_arrives_of_typed rfl rfl ?_ henc
      intro ty mp hty h
      cases ty with
      | set elem =>
          have hitems := fun v hv => (exists_toMp_set.mp ⟨mp, h⟩ v hv).elim (ih v hv)
          choose! u hu using hitems
          exact ⟨_, .set elem items u hu⟩
      | dynamic => exact absurd rfl hty
      | _ => cases h
  | tuple items ih =>
      refine exists_arrives_of_typed rfl rfl ?_ henc
      intro ty mp hty h
      cases ty with
      | tuple elems =>
          obtain ⟨hlen, hall⟩ := exists_toMp_tuple.mp ⟨mp, h⟩
          have hitems := fun p hp => (hall p hp).elim (ih p.1 (List.of_mem_zip hp).1)
          choose! u hu using hitems
          exact ⟨_, .tuple elems items u hlen hu⟩
      | dynamic => exact absurd rfl hty
      | _ => cases h
  | map entries ih =>
      refine exists_arrives_of_typed rfl rfl ?_ henc
      intro ty mp hty h
      cases ty with
      | map elem =>
          have hentries := fun v (hv : ∃ k, entries.get? k = some v) =>
            (exists_toMp_map.mp ⟨mp, h⟩ hv.choose v hv.choose_spec).elim (ih hv.choose v hv.choose_spec)
          choose! u hu using hentries
          exact ⟨_, .map elem entries u fun k v hv => hu v ⟨k, hv⟩⟩
      | dynamic => exact absurd rfl hty
      | _ => cases h
  | object fields ih =>
      refine exists_arrives_of_typed rfl rfl ?_ henc
      intro ty mp hty h
      cases ty with
      | object attrs =>
          have hattrs : ∀ attr ∈ attrs, ∃ u, Arrives attr.ty ((fields.get? attr.name).getD .null) u := by
            intro attr ha
            obtain ⟨mp, hmp⟩ := exists_toMp_object.mp ⟨mp, h⟩ attr ha
            cases hv : fields.get? attr.name with
            | none => exact ⟨.null, .null attr.ty⟩
            | some v =>
                rw [hv] at hmp
                exact ih attr.name v hv mp hmp
          choose! u hu using hattrs
          exact ⟨_, .object attrs fields u hu⟩
      | dynamic => exact absurd rfl hty
      | _ => cases h

theorem arrives_iff (ht : crates.ReadsTypes) (hn : ty.distinctNames = true) :
    Arrives ty v u ↔ ∃ mp w, toMp crates v ty = .ok mp ∧ fromMp crates mp ty = .ok w ∧ w.exact = u := by
  constructor
  · exact fun h => h.exists_fromMp ht hn
  · rintro ⟨mp, w, henc, hdec, rfl⟩
    obtain ⟨u, hu⟩ := exists_arrives ⟨mp, henc⟩
    obtain ⟨mp', w', henc', hdec', rfl⟩ := hu.exists_fromMp ht hn
    obtain rfl := Except.ok.inj (henc.symm.trans henc')
    obtain rfl := Except.ok.inj (hdec.symm.trans hdec')
    exact hu

end

section

variable {crates : Crates}

theorem Arrives.unique (ht : crates.ReadsTypes) {ty : Ty} (hn : ty.distinctNames = true) {v : Value}
    {u u' : ValueOf ExtRat} (h : Arrives ty v u) (h' : Arrives ty v u') : u = u' := by
  obtain ⟨mp, w, henc, hdec, rfl⟩ := h.exists_fromMp ht hn
  obtain ⟨mp', w', henc', hdec', rfl⟩ := h'.exists_fromMp ht hn
  obtain rfl := Except.ok.inj (henc.symm.trans henc')
  obtain rfl := Except.ok.inj (hdec.symm.trans hdec')
  rfl

end

/-- In each dynamic slot, the elements of a list, set or map have one shape. -/
inductive Even : Ty → Value → Prop
  | null (ty : Ty) : Even ty .null
  | unknown (ty : Ty) : Even ty .unknown
  | bool (b : Bool) : Even .bool (.bool b)
  | number (n : Number) : Even .number (.number n)
  | string (s : String) : Even .string (.string s)
  | list (elem : Ty) (items : List Value) : (∀ v ∈ items, Even elem v) → Even (.list elem) (.list items)
  | set (elem : Ty) (items : List Value) : (∀ v ∈ items, Even elem v) → Even (.set elem) (.set items)
  | tuple (elems : List Ty) (items : List Value) : (∀ p ∈ items.zip elems, Even p.2 p.1) →
      Even (.tuple elems) (.tuple items)
  | map (elem : Ty) (entries : Fields) : (∀ k v, entries.get? k = some v → Even elem v) →
      Even (.map elem) (.map entries)
  | object (attrs : List ObjectAttr) (fields : Fields) :
      (∀ attr ∈ attrs, Even attr.ty ((fields.get? attr.name).getD .null)) → Even (.object attrs) (.object fields)
  | dynamic (v : Value) : Shaped sameNames v v → Even .dynamic v

section

variable {elem : Ty} {elems : List Ty} {attrs : List ObjectAttr} {items : List Value} {fields : Fields}

theorem even_list : Even (.list elem) (.list items) ↔ ∀ v ∈ items, Even elem v := by
  constructor
  · rintro ⟨⟩
    assumption
  · exact .list elem items

theorem even_set : Even (.set elem) (.set items) ↔ ∀ v ∈ items, Even elem v := by
  constructor
  · rintro ⟨⟩
    assumption
  · exact .set elem items

theorem even_tuple : Even (.tuple elems) (.tuple items) ↔ ∀ p ∈ items.zip elems, Even p.2 p.1 := by
  constructor
  · rintro ⟨⟩
    assumption
  · exact .tuple elems items

theorem even_map : Even (.map elem) (.map fields) ↔ ∀ k v, fields.get? k = some v → Even elem v := by
  constructor
  · rintro ⟨⟩
    assumption
  · exact .map elem fields

theorem even_object : Even (.object attrs) (.object fields) ↔
    ∀ attr ∈ attrs, Even attr.ty ((fields.get? attr.name).getD .null) := by
  constructor
  · rintro ⟨⟩
    assumption
  · exact .object attrs fields

theorem even_dynamic {v : Value} : Even .dynamic v ↔ Shaped sameNames v v := by
  constructor
  · intro h
    cases h with
    | null => exact .null _
    | unknown => exact .unknown _
    | dynamic _ h => exact h
  · exact .dynamic v

theorem arrives_number_self {n : Number} :
    Arrives .number (.number n) (Value.exact (.number n)) ↔ n.saturates = false := by
  rw [Value.exact_number, ← Number.exact_onWire, Number.exact_arriving]
  constructor
  · intro h
    generalize hu : n.exact = u at h
    cases h
    rfl
  · intro h
    rw [← h]
    exact .number n

theorem arrives_list_self : Arrives (.list elem) (.list items) (Value.exact (.list items)) ↔
    ∀ v ∈ items, Arrives elem v v.exact := by
  rw [Value.exact_list]
  constructor
  · intro h v hv
    generalize hu : items.map Value.exact = us at h
    cases h with
    | list _ _ u hall => exact List.map_inj_left.mp hu v hv ▸ hall v hv
  · exact fun h => .list elem items Value.exact h

theorem arrives_set_self : Arrives (.set elem) (.set items) (Value.exact (.set items)) ↔
    ∀ v ∈ items, Arrives elem v v.exact := by
  rw [Value.exact_set]
  constructor
  · intro h v hv
    generalize hu : items.map Value.exact = us at h
    cases h with
    | set _ _ u hall => exact List.map_inj_left.mp hu v hv ▸ hall v hv
  · exact fun h => .set elem items Value.exact h

theorem arrives_tuple_self (hlen : items.length = elems.length) :
    Arrives (.tuple elems) (.tuple items) (Value.exact (.tuple items)) ↔
      ∀ p ∈ items.zip elems, Arrives p.2 p.1 p.1.exact := by
  rw [Value.exact_tuple]
  constructor
  · intro h p hp
    generalize hu : items.map Value.exact = us at h
    cases h with
    | tuple _ _ u _ hall => exact (map_zip_eq_map_iff hlen).mp hu.symm p hp ▸ hall p hp
  · intro h
    rw [← (map_zip_eq_map_iff (f := fun p => p.1.exact) hlen).mpr fun p _ => rfl]
    exact .tuple elems items _ hlen h

theorem arrives_map_self : Arrives (.map elem) (.map fields) (Value.exact (.map fields)) ↔
    ∀ k v, fields.get? k = some v → Arrives elem v v.exact := by
  rw [Value.exact_map]
  constructor
  · intro h k v hv
    generalize hu : fields.map Value.exact = us at h
    cases h with
    | map _ _ u hall =>
        have hmap := congrArg (OrdMap.get? · k) hu
        simp only [OrdMap.get?_map, hv, Option.map_some, Option.some.injEq] at hmap
        exact hmap ▸ hall k v hv
  · exact fun h => .map elem fields Value.exact h

theorem arrives_object_self (hnodup : (attrs.map (·.name)).Nodup)
    (hkeys : ∀ k, k ∈ fields.keys ↔ k ∈ attrs.map (·.name)) :
    Arrives (.object attrs) (.object fields) (Value.exact (.object fields)) ↔
      ∀ attr ∈ attrs, Arrives attr.ty ((fields.get? attr.name).getD .null)
        (Value.exact ((fields.get? attr.name).getD .null)) := by
  have hfields : fields.map Value.exact = OrdMap.ofList (attrs.map fun attr =>
      (attr.name, Value.exact ((fields.get? attr.name).getD .null))) := by
    conv_lhs => rw [← OrdMap.ofList_getD hnodup hkeys .null, OrdMap.map_ofList, List.map_map]
    rfl
  rw [Value.exact_object, hfields]
  constructor
  · intro h attr ha
    generalize hu : OrdMap.ofList (attrs.map fun attr =>
      (attr.name, Value.exact ((fields.get? attr.name).getD .null))) = us at h
    cases h with
    | object _ _ u hall => exact (OrdMap.ofList_map_eq_iff hnodup).mp hu attr ha ▸ hall attr ha
  · exact fun h => .object attrs fields _ h

end

section

variable {crates : Crates}

theorem shaped_anyNames {e v : Value} (h : Shaped sameNames e v) : Shaped anyNames e v := by
  induction h with
  | null e => exact .null e
  | unknown e => exact .unknown e
  | free e v he _ ih => exact .free e v he ih
  | bool b c => exact .bool b c
  | number m n => exact .number m n
  | string s t => exact .string s t
  | list es vs _ ih => exact .list es vs ih
  | set es vs _ ih => exact .set es vs ih
  | tuple es vs hlen _ ih => exact .tuple es vs hlen ih
  | map es vs _ ih => exact .map es vs ih
  | object es vs _ _ ih => exact .object es vs trivial ih

theorem arrives_dynamic_self (ht : crates.ReadsTypes) (v : Value) :
    Arrives .dynamic v v.exact ↔ Shaped sameNames v v ∧ Shaped.Kept v := by
  have hfree : ∀ names, Shaped names .null v ↔ Shaped names v v := fun _ => Shaped.free_iff (.inl rfl)
  rw [arrives_iff ht rfl, ← hfree]
  constructor
  · rintro ⟨mp, w, henc, hdec, hw⟩
    have hany : Shaped anyNames .null v := Shaped.of_toMp henc
    obtain ⟨mp', w', henc', hdec', hw'⟩ := hany.decodes ht
    obtain rfl := Except.ok.inj (henc.symm.trans henc')
    obtain rfl := Except.ok.inj (hdec.symm.trans hdec')
    exact hw'.mp hw
  · intro h
    obtain ⟨mp, w, henc, hdec, hw⟩ := (shaped_anyNames h.1).decodes ht
    exact ⟨mp, w, henc, hdec, hw.mpr h⟩

/-- A value that has the attributes of its type arrives as itself when it is
even and no number of it is the float two to the 63. -/
theorem arrives_self_iff (ht : crates.ReadsTypes) {ty : Ty} {v : Value} (hn : ty.distinctNames = true)
    (hv : WellTyped true ty v) :
    Arrives ty v v.exact ↔ Even ty v ∧ everyNumber (fun n => !n.saturates) v = true := by
  change _ ↔ Even ty v ∧ Shaped.Kept v
  induction hv with
  | null ty => exact iff_of_true (.null ty) ⟨.null ty, rfl⟩
  | unknown ty => exact iff_of_true (.unknown ty) ⟨.unknown ty, rfl⟩
  | bool b => exact iff_of_true (.bool b) ⟨.bool b, rfl⟩
  | string s => exact iff_of_true (.string s) ⟨.string s, rfl⟩
  | number n =>
      rw [and_iff_right (.number n), arrives_number_self]
      simp [Shaped.Kept, everyNumber]
  | list elem items _ ih =>
      rw [arrives_list_self, even_list, Shaped.kept_list, ← forall₂_and]
      exact forall₂_congr fun v hv => ih v hv hn
  | set elem items _ ih =>
      rw [arrives_set_self, even_set, Shaped.kept_set, ← forall₂_and]
      exact forall₂_congr fun v hv => ih v hv hn
  | tuple elems items hlen _ ih =>
      rw [arrives_tuple_self hlen, even_tuple, Shaped.kept_tuple, ← forall_mem_zip_fst hlen, ← forall₂_and]
      exact forall₂_congr fun p hp => ih p hp (Ty.distinctNames_tuple.mp hn p.2 (List.of_mem_zip hp).2)
  | map elem entries _ ih =>
      rw [arrives_map_self, even_map, Shaped.kept_map]
      simp only [← forall_and]
      exact forall₃_congr fun k v hv => ih k v hv hn
  | object attrs fields tys hkeys htotal _ ih =>
      obtain ⟨hnodup, hnames⟩ := Ty.distinctNames_object.mp hn
      have hattrs : ∀ attr ∈ attrs, ∃ v, fields.get? attr.name = some v ∧ attr.ty = tys attr.name := by
        intro attr ha
        have hmem := htotal rfl attr ha
        obtain ⟨attr', ha', hname, hty⟩ := hkeys attr.name hmem
        obtain rfl := List.inj_on_of_nodup_map hnodup ha' ha hname
        obtain ⟨v, hv⟩ := Option.isSome_iff_exists.mp (OrdMap.get?_isSome.mpr hmem)
        exact ⟨v, hv, hty⟩
      have hall : ∀ k, k ∈ fields.keys ↔ k ∈ attrs.map (·.name) := by
        intro k
        constructor
        · intro hk
          obtain ⟨attr, ha, hname, -⟩ := hkeys k hk
          exact List.mem_map.mpr ⟨attr, ha, hname⟩
        · intro hk
          obtain ⟨attr, ha, rfl⟩ := List.mem_map.mp hk
          exact htotal rfl attr ha
      have hkept : Shaped.Kept (.object fields) ↔
          ∀ attr ∈ attrs, Shaped.Kept ((fields.get? attr.name).getD .null) := by
        rw [Shaped.kept_object]
        constructor
        · intro h attr ha
          obtain ⟨v, hv, -⟩ := hattrs attr ha
          rw [hv]
          exact h attr.name v hv
        · intro h k v hv
          obtain ⟨attr, ha, rfl, -⟩ := hkeys k (OrdMap.get?_isSome.mp (hv ▸ rfl))
          have hattr := h attr ha
          rwa [hv] at hattr
      rw [arrives_object_self hnodup hall, even_object, hkept, ← forall₂_and]
      refine forall₂_congr fun attr ha => ?_
      obtain ⟨v, hv, hty⟩ := hattrs attr ha
      rw [hv, hty]
      exact ih attr.name v hv (hty ▸ hnames attr ha)
  | dynamic ty v _ _ => rw [even_dynamic, arrives_dynamic_self ht]

end

end TofuSdk
