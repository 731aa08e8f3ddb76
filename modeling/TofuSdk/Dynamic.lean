import TofuSdk.Untyped

namespace TofuSdk

open ValueOf

/-- `Shaped names e v` when `v` has the shape of the example `e`, which is the
first element wherever a type is inferred from one. An example without a type
leaves the place free. `names` is what is asked of two objects in one place. -/
inductive Shaped (names : Fields → Fields → Prop) : Value → Value → Prop
  | null (e : Value) : Shaped names e .null
  | unknown (e : Value) : Shaped names e .unknown
  | free (e v : Value) : e = .null ∨ e = .unknown → Shaped names v v → Shaped names e v
  | bool (b c : Bool) : Shaped names (.bool b) (.bool c)
  | number (m n : Number) : Shaped names (.number m) (.number n)
  | string (s t : String) : Shaped names (.string s) (.string t)
  | list (es vs : List Value) : (∀ v ∈ vs, Shaped names (es.head?.getD .null) v) →
      Shaped names (.list es) (.list vs)
  | set (es vs : List Value) : (∀ v ∈ vs, Shaped names (es.head?.getD .null) v) →
      Shaped names (.set es) (.set vs)
  | tuple (es vs : List Value) : vs.length = es.length → (∀ p ∈ vs.zip es, Shaped names p.2 p.1) →
      Shaped names (.tuple es) (.tuple vs)
  | map (es vs : Fields) : (∀ k v, vs.get? k = some v → Shaped names (Value.firstEntry es) v) →
      Shaped names (.map es) (.map vs)
  | object (es vs : Fields) : names es vs →
      (∀ k e, es.get? k = some e → Shaped names e ((vs.get? k).getD .null)) →
      Shaped names (.object es) (.object vs)

/-- Objects in one place may have any attributes. -/
def anyNames (_ _ : Fields) : Prop := True

/-- Objects in one place have the same attributes. -/
def sameNames (es vs : Fields) : Prop := vs.keys = es.keys

namespace Shaped

open Value

variable {names : Fields → Fields → Prop}

theorem list_iff {es vs : List Value} :
    Shaped names (.list es) (.list vs) ↔ ∀ v ∈ vs, Shaped names (es.head?.getD .null) v := by
  constructor
  · intro h
    cases h with
    | free _ _ he _ => simp at he
    | list _ _ h => exact h
  · exact .list es vs

theorem set_iff {es vs : List Value} :
    Shaped names (.set es) (.set vs) ↔ ∀ v ∈ vs, Shaped names (es.head?.getD .null) v := by
  constructor
  · intro h
    cases h with
    | free _ _ he _ => simp at he
    | set _ _ h => exact h
  · exact .set es vs

theorem tuple_iff {es vs : List Value} (hlen : vs.length = es.length) :
    Shaped names (.tuple es) (.tuple vs) ↔ ∀ p ∈ vs.zip es, Shaped names p.2 p.1 := by
  constructor
  · intro h
    cases h with
    | free _ _ he _ => simp at he
    | tuple _ _ _ h => exact h
  · exact .tuple es vs hlen

theorem map_iff {es vs : Fields} :
    Shaped names (.map es) (.map vs) ↔ ∀ k v, vs.get? k = some v → Shaped names (firstEntry es) v := by
  constructor
  · intro h
    cases h with
    | free _ _ he _ => simp at he
    | map _ _ h => exact h
  · exact .map es vs

theorem object_iff {es vs : Fields} :
    Shaped names (.object es) (.object vs) ↔ names es vs ∧
      ∀ k e, es.get? k = some e → Shaped names e ((vs.get? k).getD .null) := by
  constructor
  · intro h
    cases h with
    | free _ _ he _ => simp at he
    | object _ _ hnames h => exact ⟨hnames, h⟩
  · rintro ⟨hnames, h⟩
    exact .object es vs hnames h

theorem free_iff {e v : Value} (he : e = .null ∨ e = .unknown) : Shaped names e v ↔ Shaped names v v := by
  constructor
  · intro h
    cases h with
    | null => exact .null _
    | unknown => exact .unknown _
    | free _ _ _ h => exact h
    | _ => simp at he
  · exact .free e v he

theorem inferType_free {e : Value} (he : e = .null ∨ e = .unknown) : e.inferType = .dynamic := by
  rcases he with rfl | rfl <;> rfl

section

variable {crates : Crates}

theorem toMp_dynamic {v : Value} (hn : v.isNull = false) (hu : v.isUnknown = false) {mp : Mp} :
    toMp crates v .dynamic = .ok mp ↔ ∃ inner, toMp crates v v.inferType = .ok inner ∧
      mp = .array [.binary (v.inferType.toCtyJsonBytes crates), inner] := by
  rw [toMp_eq crates hn hu, encodeDynamic, Outcome.bind_eq_ok]
  constructor
  · rintro ⟨inner, hinner, h⟩
    exact ⟨inner, hinner, (Except.ok.inj h).symm⟩
  · rintro ⟨inner, hinner, rfl⟩
    exact ⟨inner, hinner, rfl⟩

theorem of_typed {v : Value} (hn : v.isNull = false) (hu : v.isUnknown = false)
    (h : ∀ e mp, ¬(e = .null ∨ e = .unknown) → toMp crates v e.inferType = .ok mp → Shaped anyNames e v)
    {e : Value} {mp : Mp} (henc : toMp crates v e.inferType = .ok mp) : Shaped anyNames e v := by
  by_cases he : e = .null ∨ e = .unknown
  · rw [inferType_free he, toMp_dynamic hn hu] at henc
    obtain ⟨inner, hinner, -⟩ := henc
    apply Shaped.free e v he
    apply h v inner ?_ hinner
    rintro (rfl | rfl)
    · cases hn
    · cases hu
  · exact h e mp he henc

theorem of_toMp {e v : Value} {mp : Mp} (henc : toMp crates v e.inferType = .ok mp) : Shaped anyNames e v := by
  induction v using ValueOf.induct generalizing e mp with
  | null => exact .null e
  | unknown => exact .unknown e
  | bool b =>
      refine of_typed rfl rfl ?_ henc
      intro e mp he h
      cases e with
      | bool c => exact .bool c b
      | null | unknown => simp at he
      | _ => cases h
  | number n =>
      refine of_typed rfl rfl ?_ henc
      intro e mp he h
      cases e with
      | number m => exact .number m n
      | null | unknown => simp at he
      | _ => cases h
  | string s =>
      refine of_typed rfl rfl ?_ henc
      intro e mp he h
      cases e with
      | string t => exact .string t s
      | null | unknown => simp at he
      | _ => cases h
  | list vs ih =>
      refine of_typed rfl rfl ?_ henc
      intro e mp he h
      cases e with
      | list es =>
          rw [inferType_list] at h
          refine .list es vs ?_
          intro v hv
          obtain ⟨mp', hmp'⟩ := exists_toMp_list.mp ⟨mp, h⟩ v hv
          exact ih v hv hmp'
      | null | unknown => simp at he
      | _ => cases h
  | set vs ih =>
      refine of_typed rfl rfl ?_ henc
      intro e mp he h
      cases e with
      | set es =>
          rw [inferType_set] at h
          refine .set es vs ?_
          intro v hv
          obtain ⟨mp', hmp'⟩ := exists_toMp_set.mp ⟨mp, h⟩ v hv
          exact ih v hv hmp'
      | null | unknown => simp at he
      | _ => cases h
  | tuple vs ih =>
      refine of_typed rfl rfl ?_ henc
      intro e mp he h
      cases e with
      | tuple es =>
          rw [inferType_tuple] at h
          obtain ⟨hlen, hitems⟩ := exists_toMp_tuple.mp ⟨mp, h⟩
          rw [List.length_map] at hlen
          rw [List.zip_map_right, List.forall_mem_map] at hitems
          refine .tuple es vs hlen ?_
          intro p hp
          obtain ⟨mp', hmp'⟩ := hitems p hp
          exact ih p.1 (List.of_mem_zip hp).1 hmp'
      | null | unknown => simp at he
      | _ => cases h
  | map vs ih =>
      refine of_typed rfl rfl ?_ henc
      intro e mp he h
      cases e with
      | map es =>
          rw [inferType_map] at h
          refine .map es vs ?_
          intro k v hv
          obtain ⟨mp', hmp'⟩ := exists_toMp_map.mp ⟨mp, h⟩ k v hv
          exact ih k v hv hmp'
      | null | unknown => simp at he
      | _ => cases h
  | object vs ih =>
      refine of_typed rfl rfl ?_ henc
      intro e mp he h
      cases e with
      | object es =>
          rw [inferType_object] at h
          refine .object es vs trivial ?_
          intro k e he
          cases hv : vs.get? k with
          | none => exact .null e
          | some v =>
              have hattr : (⟨k, e.inferType, false⟩ : ObjectAttr) ∈
                  es.toList.map fun p => ⟨p.1, inferType p.2, false⟩ :=
                List.mem_map.mpr ⟨(k, e), OrdMap.mem_toList.mpr he, rfl⟩
              obtain ⟨mp', hmp'⟩ := exists_toMp_object.mp ⟨mp, h⟩ _ hattr
              rw [hv] at hmp'
              exact ih k v hv hmp'
      | null | unknown => simp at he
      | _ => cases h

abbrev Kept (v : Value) : Prop := everyNumber (fun n => !n.saturates) v = true

theorem kept_list {vs : List Value} : Kept (.list vs) ↔ ∀ v ∈ vs, Kept v := by simp [Kept, everyNumber]

theorem kept_set {vs : List Value} : Kept (.set vs) ↔ ∀ v ∈ vs, Kept v := by simp [Kept, everyNumber]

theorem kept_tuple {vs : List Value} : Kept (.tuple vs) ↔ ∀ v ∈ vs, Kept v := by simp [Kept, everyNumber]

theorem kept_map {vs : Fields} : Kept (.map vs) ↔ ∀ k v, vs.get? k = some v → Kept v := by simp [Kept, everyNumber]

theorem kept_object {vs : Fields} : Kept (.object vs) ↔ ∀ k v, vs.get? k = some v → Kept v := by
  simp [Kept, everyNumber]

theorem exact_mapWithKey_iff {es vs : Fields} {w : String → Value → Value} :
    (es.mapWithKey w).map exact = vs.map exact ↔
      vs.keys = es.keys ∧ ∀ k e, es.get? k = some e → exact (w k e) = exact ((vs.get? k).getD .null) := by
  constructor
  · intro h
    have hkeys : vs.keys = es.keys := (congrArg OrdMap.keys h).symm
    refine ⟨hkeys, fun k e he => ?_⟩
    have hk := congrArg (OrdMap.get? · k) h
    obtain ⟨v, hv⟩ := OrdMap.exists_of_keys_eq hkeys.symm he
    simpa [he, hv] using hk
  · rintro ⟨hkeys, h⟩
    apply OrdMap.ext_get?
    intro k
    rw [OrdMap.get?_map, OrdMap.get?_map, OrdMap.get?_mapWithKey]
    cases he : es.get? k with
    | none =>
        rw [OrdMap.get?_eq_none_iff, ← hkeys, ← OrdMap.get?_eq_none_iff] at he
        rw [he]
        rfl
    | some e =>
        obtain ⟨v, hv⟩ := OrdMap.exists_of_keys_eq hkeys.symm he
        simpa [hv] using h k e he

theorem kept_getD_iff {es vs : Fields} (hkeys : vs.keys = es.keys) :
    Kept (.object vs) ↔ ∀ k e, es.get? k = some e → Kept ((vs.get? k).getD .null) := by
  rw [kept_object]
  constructor
  · intro h k e _
    cases hv : vs.get? k with
    | none => rfl
    | some v => exact h k v hv
  · intro h k v hv
    obtain ⟨e, he⟩ := OrdMap.exists_of_keys_eq hkeys hv
    have hk := h k e he
    rwa [hv] at hk

/-- What is written under the type inferred from `e` reads back as the value
exactly when the objects in each place have the same attributes. -/
theorem decodes (hc : crates.ReadsTypes) {e v : Value} (h : Shaped anyNames e v) :
    ∃ mp w, toMp crates v e.inferType = .ok mp ∧ fromMp crates mp e.inferType = .ok w ∧
      (Value.exact w = v.exact ↔ Shaped sameNames e v ∧ Kept v) := by
  induction h with
  | null e => exact ⟨.nil, .null, rfl, rfl, iff_of_true rfl ⟨.null e, rfl⟩⟩
  | unknown e => exact ⟨.ext 0 [0], .unknown, rfl, rfl, iff_of_true rfl ⟨.unknown e, rfl⟩⟩
  | bool b c => exact ⟨.boolean c, .bool c, rfl, rfl, iff_of_true rfl ⟨.bool b c, rfl⟩⟩
  | string s t => exact ⟨.string (.text t), .string t, rfl, rfl, iff_of_true rfl ⟨.string s t, rfl⟩⟩
  | number m n =>
      refine ⟨numberToMp n, .number n.onWire, rfl, fromMp_numberToMp n, ?_⟩
      rw [and_iff_right (.number m n)]
      exact exact_onWire_iff (.number n)
  | free e v he _ ih =>
      obtain ⟨inner, w, henc, hdec, hw⟩ := ih
      rw [inferType_free he, free_iff he]
      cases v with
      | null => exact ⟨.nil, .null, rfl, rfl, iff_of_true rfl ⟨.null _, rfl⟩⟩
      | unknown => exact ⟨.ext 0 [0], .unknown, rfl, rfl, iff_of_true rfl ⟨.unknown _, rfl⟩⟩
      | _ => exact ⟨_, w, (toMp_dynamic rfl rfl).mpr ⟨inner, henc, rfl⟩, (fromMp_dynamicSlot hc _ inner).trans hdec, hw⟩
  | list es vs _ ih =>
      obtain ⟨mps, w, hencAll, hdecAll, hw⟩ := exists_decodeEach ih
      rw [inferType_list]
      refine ⟨.array mps, .list (vs.map w), congrArg (Mp.array <$> ·) hencAll,
        congrArg (ValueOf.list <$> ·) hdecAll, ?_⟩
      rw [exact_list, exact_list, list.injEq, List.map_map, List.map_inj_left, list_iff, kept_list, ← forall₂_and]
      exact forall₂_congr hw
  | set es vs _ ih =>
      obtain ⟨mps, w, hencAll, hdecAll, hw⟩ := exists_decodeEach ih
      rw [inferType_set]
      refine ⟨.array mps, .set (vs.map w), congrArg (Mp.array <$> ·) hencAll,
        congrArg (ValueOf.set <$> ·) hdecAll, ?_⟩
      rw [exact_set, exact_set, set.injEq, List.map_map, List.map_inj_left, set_iff, kept_set, ← forall₂_and]
      exact forall₂_congr hw
  | tuple es vs hlen _ ih =>
      choose! mp w henc hdec hw using ih
      have hencAll : encodeZip crates vs (es.map inferType) = .ok ((vs.zip es).map mp) := by
        rw [encodeZip_eq, List.zip_map_right, List.mapM_map]
        exact Outcome.mapM_eq_ok_map henc
      have hdecAll : decodeZip crates ((vs.zip es).map mp) (es.map inferType) = .ok ((vs.zip es).map w) := by
        rw [decodeZip_eq, List.zip_map_right, zip_map_zip, List.mapM_map, List.mapM_map]
        exact Outcome.mapM_eq_ok_map hdec
      rw [inferType_tuple]
      refine ⟨.array ((vs.zip es).map mp), .tuple ((vs.zip es).map w), ?_, ?_, ?_⟩
      · change (if vs.length ≠ (es.map inferType).length then _ else _ : Except CodecError Mp) = _
        rw [if_neg (by simp [hlen]), hencAll]
        rfl
      · change (if ((vs.zip es).map mp).length ≠ (es.map inferType).length then _ else _ : Except CodecError Value) = _
        rw [if_neg (by simp [hlen]), hdecAll]
        rfl
      · rw [exact_tuple, exact_tuple, tuple.injEq, List.map_map, map_zip_eq_map_iff hlen, tuple_iff hlen, kept_tuple,
          ← forall_mem_zip_fst hlen, ← forall₂_and]
        exact forall₂_congr hw
  | map es vs _ ih =>
      have hentry : ∀ v, (∃ k, vs.get? k = some v) → ∃ mp w, toMp crates v (firstEntry es).inferType = .ok mp ∧
          fromMp crates mp (firstEntry es).inferType = .ok w ∧
            (Value.exact w = v.exact ↔ Shaped sameNames (firstEntry es) v ∧ Kept v) :=
        fun v ⟨k, hv⟩ => ih k v hv
      choose! mp w henc hdec hw using hentry
      obtain ⟨mps, hencAll, hdecAll⟩ := decodeMap_encodeMap (w := w) fun k v hv =>
        ⟨mp v, henc v ⟨k, hv⟩, hdec v ⟨k, hv⟩⟩
      rw [inferType_map]
      refine ⟨mps, .map (vs.map w), hencAll, hdecAll, ?_⟩
      have hexact : (vs.map w).map exact = vs.map exact ↔ ∀ k v, vs.get? k = some v → exact (w v) = exact v := by
        change vs.mapWithKey (fun _ v => exact (w v)) = vs.mapWithKey (fun _ v => exact v) ↔ _
        exact OrdMap.mapWithKey_eq_iff
      rw [exact_map, exact_map, map.injEq, hexact, map_iff, kept_map]
      simp only [← forall_and]
      exact forall₃_congr fun k v hv => hw v ⟨k, hv⟩
  | object es vs _ _ ih =>
      choose! mp w henc hdec hw using ih
      have hattrs : ∀ attr ∈ es.toList.map fun p => (⟨p.1, inferType p.2, false⟩ : ObjectAttr), ∃ mp,
          toMp crates ((vs.get? attr.name).getD .null) attr.ty = .ok mp ∧
            fromMp crates mp attr.ty = .ok (w attr.name ((es.get? attr.name).getD .null)) := by
        intro attr ha
        obtain ⟨e, he, hty⟩ := mem_inferType ha
        rw [hty, he]
        exact ⟨mp attr.name e, henc _ e he, hdec _ e he⟩
      obtain ⟨mps, hencAll, hdecAll⟩ := decodeObject_encodeObject
        (w := fun attr => w attr.name ((es.get? attr.name).getD .null))
        (by rw [names_inferType]; exact es.keys_nodup) hattrs
      rw [inferType_object]
      refine ⟨mps, _, hencAll, hdecAll, ?_⟩
      have hfields : OrdMap.ofList ((es.toList.map fun p => (⟨p.1, inferType p.2, false⟩ : ObjectAttr)).map fun attr =>
          (attr.name, w attr.name ((es.get? attr.name).getD .null))) = es.mapWithKey w := by
        rw [List.map_map, ← OrdMap.ofList_map_toList]
        congr 1
        apply List.map_congr_left
        intro p hp
        rw [Function.comp, OrdMap.mem_toList.mp hp, Option.getD_some]
      rw [hfields, exact_object, exact_object, object.injEq, exact_mapWithKey_iff, object_iff, and_assoc]
      apply and_congr_right
      intro hkeys
      rw [kept_getD_iff hkeys]
      simp only [← forall_and]
      exact forall₃_congr hw

end

end Shaped

section

variable {crates : Crates} {v : Value}

theorem dynamic_decodes (hc : crates.Lawful) (ht : crates.ReadsTypes) (hv : Shaped anyNames v v) :
    ∃ bytes w, encodeMsgpack crates v .dynamic = .ok bytes ∧ decodeMsgpack crates bytes .dynamic = .ok w ∧
      (w.exact = v.exact ↔ Shaped sameNames v v ∧ everyNumber (fun n => !n.saturates) v = true) := by
  obtain ⟨mp, w, henc, hdec, hw⟩ := (Shaped.free .null v (.inl rfl) hv).decodes ht
  obtain ⟨bytes, hbytes, hread⟩ := hc.encodeMsgpack_of_toMp henc
  rw [Shaped.free_iff (.inl rfl)] at hw
  exact ⟨bytes, w, hbytes, (hread .dynamic).trans hdec, hw⟩

theorem shaped_of_encodeMsgpack {bytes : Bytes} (henc : encodeMsgpack crates v .dynamic = .ok bytes) :
    Shaped anyNames v v := by
  obtain ⟨mp, hmp, -⟩ := Outcome.bind_eq_ok.mp henc
  have hfree : Shaped anyNames .null v := Shaped.of_toMp hmp
  exact (Shaped.free_iff (.inl rfl)).mp hfree

end

/-- A value keeps everything in a dynamic slot exactly when it is refused there,
or the objects in each place of it have the same attributes and no number of it
is the float two to the 63. -/
theorem dynamic_roundTrip_iff {crates : Crates} (hc : crates.Lawful) (ht : crates.ReadsTypes) (v : Value) :
    (∀ bytes, encodeMsgpack crates v .dynamic = .ok bytes →
      ∃ w, decodeMsgpack crates bytes .dynamic = .ok w ∧ w.exact = v.exact) ↔
    (Shaped anyNames v v → Shaped sameNames v v ∧ everyNumber (fun n => !n.saturates) v = true) := by
  constructor
  · intro h hv
    obtain ⟨bytes, w, henc, hdec, hw⟩ := dynamic_decodes hc ht hv
    obtain ⟨w', hdec', hw'⟩ := h bytes henc
    obtain rfl := Except.ok.inj (hdec.symm.trans hdec')
    exact hw.mp hw'
  · intro h bytes henc
    have hv := shaped_of_encodeMsgpack henc
    obtain ⟨bytes', w, henc', hdec, hw⟩ := dynamic_decodes hc ht hv
    obtain rfl := Except.ok.inj (henc.symm.trans henc')
    exact ⟨w, hdec, hw.mpr (h hv)⟩

theorem dynamic_roundTrip_parcel : (∀ bytes, encodeMsgpack Crates.real parcel .dynamic = .ok bytes →
      ∃ w, decodeMsgpack Crates.real bytes .dynamic = .ok w ∧ w.exact = parcel.exact) ↔
    (Shaped anyNames parcel parcel → Shaped sameNames parcel parcel ∧
      everyNumber (fun n => !n.saturates) parcel = true) :=
  dynamic_roundTrip_iff Crates.real_lawful Crates.real_readsTypes parcel

def small : Fields := OrdMap.empty.insert "a" (.string "x")

def large : Fields := small.insert "b" (.string "y")

def uneven : Value := .list [.object small, .object large]

theorem shaped_uneven : Shaped anyNames uneven uneven := by
  apply Shaped.list
  intro v hv
  have hobject : ∃ fields : Fields, v = .object fields ∧ fields.get? "a" = some (.string "x") := by
    rcases List.mem_cons.mp hv with rfl | hv
    · exact ⟨small, rfl, rfl⟩
    · exact ⟨large, List.mem_singleton.mp hv, rfl⟩
  obtain ⟨fields, rfl, hfield⟩ := hobject
  refine .object small fields trivial ?_
  intro k e he
  have hmem : (k, e) ∈ small.toList := OrdMap.mem_toList.mpr he
  obtain ⟨rfl, rfl⟩ := Prod.mk.inj (List.mem_singleton.mp (show (k, e) ∈ [("a", ValueOf.string "x")] from hmem))
  rw [hfield]
  exact .string "x" "x"

/-- The attribute that only the second object has is gone. -/
theorem uneven_lost : ¬∀ bytes, encodeMsgpack Crates.real uneven .dynamic = .ok bytes →
    ∃ w, decodeMsgpack Crates.real bytes .dynamic = .ok w ∧ w.exact = uneven.exact := by
  intro h
  obtain ⟨bytes, w, henc, hdec, hw⟩ := dynamic_decodes Crates.real_lawful Crates.real_readsTypes shaped_uneven
  obtain ⟨w', hdec', hw'⟩ := h bytes henc
  obtain rfl := Except.ok.inj (hdec.symm.trans hdec')
  have hsame := Shaped.list_iff.mp (hw.mp hw').1 (.object large) (by simp)
  have hkeys : large.keys = small.keys := (Shaped.object_iff.mp hsame).1
  exact absurd hkeys (by decide)

end TofuSdk
