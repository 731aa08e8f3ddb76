import TofuSdk.Dynamic

namespace TofuSdk

open ValueOf

/-- An unknown node of a value that its encoding under a type shows. -/
inductive UnknownUnder : Ty → Value → Prop
  | here (ty : Ty) : UnknownUnder ty .unknown
  | list (elem : Ty) (items : List Value) (v : Value) : v ∈ items → UnknownUnder elem v →
      UnknownUnder (.list elem) (.list items)
  | set (elem : Ty) (items : List Value) (v : Value) : v ∈ items → UnknownUnder elem v →
      UnknownUnder (.set elem) (.set items)
  | tuple (elems : List Ty) (items : List Value) (p : Value × Ty) : p ∈ items.zip elems → UnknownUnder p.2 p.1 →
      UnknownUnder (.tuple elems) (.tuple items)
  | map (elem : Ty) (entries : Fields) (k : String) (v : Value) : entries.get? k = some v → UnknownUnder elem v →
      UnknownUnder (.map elem) (.map entries)
  | object (attrs : List ObjectAttr) (fields : Fields) (attr : ObjectAttr) : attr ∈ attrs →
      UnknownUnder attr.ty ((fields.get? attr.name).getD .null) → UnknownUnder (.object attrs) (.object fields)
  | dynamic (v : Value) : UnknownUnder v.inferType v → UnknownUnder .dynamic v

/-- What a value is read back as from its encoding, as far as null, unknown and
left out attributes go. -/
structure ReadsAs (ty : Ty) (v w : Value) : Prop where
  complete : complete ty w = w
  known : w.isWhollyKnown = true ↔ ¬UnknownUnder ty v
  null : w = .null ↔ v = .null
  unknown : w = .unknown ↔ v = .unknown

namespace ReadsAs

variable {elem : Ty} {items : List Value}

theorem list {w : Value → Value} (h : ∀ v ∈ items, ReadsAs elem v (w v)) :
    ReadsAs (.list elem) (.list items) (.list (items.map w)) where
  complete := by
    rw [TofuSdk.complete, List.map_map, ValueOf.list.injEq, List.map_inj_left]
    exact fun v hv => (h v hv).complete
  known := by
    rw [Value.isWhollyKnown, everywhere_list, List.forall_mem_map]
    constructor
    · rintro ⟨-, hall⟩ hu
      cases hu with
      | list _ _ v hv hu => exact (h v hv).known.mp (hall v hv) hu
    · exact fun hu => ⟨rfl, fun v hv => (h v hv).known.mpr fun hv' => hu (.list elem items v hv hv')⟩
  null := by simp
  unknown := by simp

theorem set {w : Value → Value} (h : ∀ v ∈ items, ReadsAs elem v (w v)) :
    ReadsAs (.set elem) (.set items) (.set (items.map w)) where
  complete := by
    rw [TofuSdk.complete, List.map_map, ValueOf.set.injEq, List.map_inj_left]
    exact fun v hv => (h v hv).complete
  known := by
    rw [Value.isWhollyKnown, everywhere_set, List.forall_mem_map]
    constructor
    · rintro ⟨-, hall⟩ hu
      cases hu with
      | set _ _ v hv hu => exact (h v hv).known.mp (hall v hv) hu
    · exact fun hu => ⟨rfl, fun v hv => (h v hv).known.mpr fun hv' => hu (.set elem items v hv hv')⟩
  null := by simp
  unknown := by simp

theorem tuple {elems : List Ty} {w : Value × Ty → Value}
    (h : ∀ p ∈ items.zip elems, ReadsAs p.2 p.1 (w p)) :
    ReadsAs (.tuple elems) (.tuple items) (.tuple ((items.zip elems).map w)) where
  complete := by
    rw [TofuSdk.complete, completeZip_eq, zip_map_zip, List.map_map, ValueOf.tuple.injEq, List.map_inj_left]
    exact fun p hp => (h p hp).complete
  known := by
    rw [Value.isWhollyKnown, everywhere_tuple, List.forall_mem_map]
    constructor
    · rintro ⟨-, hall⟩ hu
      cases hu with
      | tuple _ _ p hp hu => exact (h p hp).known.mp (hall p hp) hu
    · exact fun hu => ⟨rfl, fun p hp => (h p hp).known.mpr fun hp' => hu (.tuple elems items p hp hp')⟩
  null := by simp
  unknown := by simp

theorem map {entries : Fields} {w : Value → Value} (h : ∀ k v, entries.get? k = some v → ReadsAs elem v (w v)) :
    ReadsAs (.map elem) (.map entries) (.map (entries.map w)) where
  complete := by
    rw [TofuSdk.complete, ValueOf.map.injEq]
    change entries.mapWithKey (fun _ v => TofuSdk.complete elem (w v)) = entries.mapWithKey (fun _ v => w v)
    exact OrdMap.mapWithKey_eq_iff.mpr fun k v hv => (h k v hv).complete
  known := by
    rw [Value.isWhollyKnown, everywhere_map]
    constructor
    · rintro ⟨-, hall⟩ hu
      cases hu with
      | map _ _ k v hv hu => exact (h k v hv).known.mp (hall k (w v) (by rw [OrdMap.get?_map, hv]; rfl)) hu
    · intro hu
      refine ⟨rfl, ?_⟩
      intro k x hx
      rw [OrdMap.get?_map] at hx
      obtain ⟨v, hv, rfl⟩ := Option.map_eq_some_iff.mp hx
      exact (h k v hv).known.mpr fun hv' => hu (.map elem entries k v hv hv')
  null := by simp
  unknown := by simp

theorem object {attrs : List ObjectAttr} {fields : Fields} {w : ObjectAttr → Value}
    (hn : (attrs.map (·.name)).Nodup)
    (h : ∀ attr ∈ attrs, ReadsAs attr.ty ((fields.get? attr.name).getD .null) (w attr)) :
    ReadsAs (.object attrs) (.object fields) (.object (OrdMap.ofList (attrs.map fun attr => (attr.name, w attr)))) where
  complete := by
    rw [TofuSdk.complete, completeAttrs_eq, ValueOf.object.injEq, OrdMap.ofList_map_eq_iff hn]
    intro attr ha
    rw [OrdMap.get?_ofList_map hn w ha]
    exact (h attr ha).complete
  known := by
    rw [Value.isWhollyKnown, everywhere_object]
    constructor
    · rintro ⟨-, hall⟩ hu
      cases hu with
      | object _ _ attr ha hu => exact (h attr ha).known.mp (hall _ _ (OrdMap.get?_ofList_map hn w ha)) hu
    · intro hu
      refine ⟨rfl, ?_⟩
      intro k x hx
      obtain ⟨attr, ha, hp⟩ := List.mem_map.mp (OrdMap.mem_of_get?_ofList hx)
      obtain ⟨-, rfl⟩ := Prod.mk.inj hp
      exact (h attr ha).known.mpr fun ha' => hu (.object attrs fields attr ha ha')
  null := by simp
  unknown := by simp

end ReadsAs

section

variable {crates : Crates}

theorem not_unknownUnder_null (ty : Ty) : ¬UnknownUnder ty .null := by
  intro h
  generalize hv : (.null : Value) = v at h
  induction h with
  | dynamic v _ ih => exact ih hv
  | _ => cases hv

variable (crates) in
def Readable (v : Value) : Prop :=
  ∀ ty mp, ty.distinctNames = true → toMp crates v ty = .ok mp → ∃ w, fromMp crates mp ty = .ok w ∧ ReadsAs ty v w

namespace Readable

variable {items : List Value} {fields : Fields}

theorem null : Readable crates .null := by
  intro ty mp _ henc
  obtain rfl := Except.ok.inj henc
  exact ⟨.null, rfl, complete_null ty, iff_of_true rfl (not_unknownUnder_null ty), Iff.rfl, Iff.rfl⟩

theorem unknown : Readable crates .unknown := by
  intro ty mp _ henc
  obtain rfl := Except.ok.inj henc
  exact ⟨.unknown, rfl, complete_unknown ty, iff_of_false (by decide) (not_not.mpr (.here ty)), Iff.rfl, Iff.rfl⟩

theorem of_typed (hc : crates.ReadsTypes) {v : Value} (hn : v.isNull = false) (hu : v.isUnknown = false)
    (h : ∀ ty mp, ty ≠ .dynamic → ty.distinctNames = true → toMp crates v ty = .ok mp →
      ∃ w, fromMp crates mp ty = .ok w ∧ ReadsAs ty v w) : Readable crates v := by
  intro ty mp hty henc
  by_cases hdynamic : ty = .dynamic
  · subst hdynamic
    obtain ⟨inner, hinner, rfl⟩ := (Shaped.toMp_dynamic hn hu).mp henc
    have hne : v.inferType ≠ .dynamic := by
      cases v with
      | null => cases hn
      | unknown => cases hu
      | _ => exact fun h => by cases h
    obtain ⟨w, hw, hreads⟩ := h v.inferType inner hne v.distinctNames_inferType hinner
    refine ⟨w, (Value.fromMp_dynamicSlot hc v inner).trans hw, rfl, ?_, hreads.null, hreads.unknown⟩
    rw [hreads.known, not_iff_not]
    constructor
    · exact .dynamic v
    · intro hv
      cases hv with
      | here => cases hu
      | dynamic _ hv => exact hv
  · exact h ty mp hdynamic hty henc

theorem bool (hc : crates.ReadsTypes) (b : Bool) : Readable crates (.bool b) := by
  apply of_typed hc rfl rfl
  intro ty mp hne _ henc
  cases ty with
  | bool =>
      obtain rfl := Except.ok.inj henc
      exact ⟨.bool b, rfl, rfl, iff_of_true rfl fun hu => (by cases hu), by simp, by simp⟩
  | dynamic => exact absurd rfl hne
  | _ => cases henc

theorem number (hc : crates.ReadsTypes) (n : Number) : Readable crates (.number n) := by
  apply of_typed hc rfl rfl
  intro ty mp hne _ henc
  cases ty with
  | number =>
      obtain rfl := Except.ok.inj henc
      exact ⟨.number n.onWire, fromMp_numberToMp n, rfl, iff_of_true rfl fun hu => (by cases hu), by simp, by simp⟩
  | dynamic => exact absurd rfl hne
  | _ => cases henc

theorem string (hc : crates.ReadsTypes) (s : String) : Readable crates (.string s) := by
  apply of_typed hc rfl rfl
  intro ty mp hne _ henc
  cases ty with
  | string =>
      obtain rfl := Except.ok.inj henc
      exact ⟨.string s, rfl, rfl, iff_of_true rfl fun hu => (by cases hu), by simp, by simp⟩
  | dynamic => exact absurd rfl hne
  | _ => cases henc

theorem each (ih : ∀ v ∈ items, Readable crates v) {elem : Ty} (hty : elem.distinctNames = true) {mps : List Mp}
    (henc : encodeEach crates items elem = .ok mps) :
    ∃ w, decodeEach crates mps elem = .ok (items.map w) ∧ ∀ v ∈ items, ReadsAs elem v (w v) := by
  have hitem : ∀ v ∈ items, ∃ mp w, toMp crates v elem = .ok mp ∧ fromMp crates mp elem = .ok w ∧ ReadsAs elem v w := by
    intro v hv
    obtain ⟨mp, hmp⟩ := exists_encodeEach.mp ⟨mps, henc⟩ v hv
    obtain ⟨w, hw, hreads⟩ := ih v hv elem mp hty hmp
    exact ⟨mp, w, hmp, hw, hreads⟩
  obtain ⟨mps', w, henc', hdec, hreads⟩ := exists_decodeEach hitem
  obtain rfl := Except.ok.inj (henc.symm.trans henc')
  exact ⟨w, hdec, hreads⟩

theorem list (hc : crates.ReadsTypes) (ih : ∀ v ∈ items, Readable crates v) : Readable crates (.list items) := by
  apply of_typed hc rfl rfl
  intro ty mp hne hty henc
  cases ty with
  | list elem =>
      obtain ⟨mps, hmps, rfl⟩ :=
          Outcome.map_eq_ok.mp (show Mp.array <$> encodeEach crates items elem = .ok mp from henc)
      obtain ⟨w, hdec, hreads⟩ := each ih (show elem.distinctNames = true from hty) hmps
      exact ⟨.list (items.map w), congrArg (ValueOf.list <$> ·) hdec, .list hreads⟩
  | dynamic => exact absurd rfl hne
  | _ => cases henc

theorem set (hc : crates.ReadsTypes) (ih : ∀ v ∈ items, Readable crates v) : Readable crates (.set items) := by
  apply of_typed hc rfl rfl
  intro ty mp hne hty henc
  cases ty with
  | set elem =>
      obtain ⟨mps, hmps, rfl⟩ :=
          Outcome.map_eq_ok.mp (show Mp.array <$> encodeEach crates items elem = .ok mp from henc)
      obtain ⟨w, hdec, hreads⟩ := each ih (show elem.distinctNames = true from hty) hmps
      exact ⟨.set (items.map w), congrArg (ValueOf.set <$> ·) hdec, .set hreads⟩
  | dynamic => exact absurd rfl hne
  | _ => cases henc

theorem tuple (hc : crates.ReadsTypes) (ih : ∀ v ∈ items, Readable crates v) : Readable crates (.tuple items) := by
  apply of_typed hc rfl rfl
  intro ty mp hne hty henc
  cases ty with
  | tuple elems =>
      obtain ⟨hlen, hencs⟩ := exists_toMp_tuple.mp ⟨mp, henc⟩
      rw [toMp_eq crates rfl rfl] at henc
      simp only [encodeTuple, Value.expectTuple, Outcome.ok_bind] at henc
      rw [if_neg (not_not.mpr hlen)] at henc
      obtain ⟨mps, hmps, rfl⟩ := Outcome.map_eq_ok.mp henc
      have hitem : ∀ p ∈ items.zip elems, ∃ mp w, toMp crates p.1 p.2 = .ok mp ∧ fromMp crates mp p.2 = .ok w ∧
          ReadsAs p.2 p.1 w := by
        intro p hp
        obtain ⟨hv, ht⟩ := List.of_mem_zip hp
        obtain ⟨mp, hmp⟩ := hencs p hp
        obtain ⟨w, hw, hreads⟩ := ih p.1 hv p.2 mp (Ty.distinctNames_tuple.mp hty p.2 ht) hmp
        exact ⟨mp, w, hmp, hw, hreads⟩
      choose! mp w hmp hw hreads using hitem
      obtain ⟨mps', hlen', henc', hdec⟩ := decodeZip_encodeZip (w := w) hlen fun p hp => ⟨mp p, hmp p hp, hw p hp⟩
      obtain rfl := Except.ok.inj (hmps.symm.trans henc')
      refine ⟨.tuple ((items.zip elems).map w), ?_, .tuple hreads⟩
      change (if mps.length ≠ elems.length then _ else _ : Except CodecError Value) = _
      rw [if_neg (not_not.mpr (hlen'.trans hlen)), hdec]
      rfl
  | dynamic => exact absurd rfl hne
  | _ => cases henc

theorem map (hc : crates.ReadsTypes) (ih : ∀ k v, fields.get? k = some v → Readable crates v) :
    Readable crates (.map fields) := by
  apply of_typed hc rfl rfl
  intro ty mp hne hty henc
  cases ty with
  | map elem =>
      have hentry : ∀ v, (∃ k, fields.get? k = some v) → ∃ mp w, toMp crates v elem = .ok mp ∧
          fromMp crates mp elem = .ok w ∧ ReadsAs elem v w := by
        rintro v ⟨k, hv⟩
        obtain ⟨mp, hmp⟩ := exists_toMp_map.mp ⟨_, henc⟩ k v hv
        obtain ⟨w, hw, hreads⟩ := ih k v hv elem mp (show elem.distinctNames = true from hty) hmp
        exact ⟨mp, w, hmp, hw, hreads⟩
      choose! m w hm hw hreads using hentry
      obtain ⟨mp', henc', hdec⟩ := decodeMap_encodeMap (w := w) fun k v hv => ⟨m v, hm v ⟨k, hv⟩, hw v ⟨k, hv⟩⟩
      obtain rfl := Except.ok.inj (henc.symm.trans henc')
      exact ⟨_, hdec, .map fun k v hv => hreads v ⟨k, hv⟩⟩
  | dynamic => exact absurd rfl hne
  | _ => cases henc

theorem attributes (ih : ∀ k v, fields.get? k = some v → Readable crates v) {attrs : List ObjectAttr}
    (hty : (Ty.object attrs).distinctNames = true) {mp : Mp}
    (henc : toMp crates (.object fields) (.object attrs) = .ok mp) :
    ∃ w : ObjectAttr → Value,
      fromMp crates mp (.object attrs) = .ok (.object (OrdMap.ofList (attrs.map fun attr => (attr.name, w attr)))) ∧
      ∀ attr ∈ attrs, ReadsAs attr.ty ((fields.get? attr.name).getD .null) (w attr) ∧
        ∃ mp, toMp crates ((fields.get? attr.name).getD .null) attr.ty = .ok mp ∧
          fromMp crates mp attr.ty = .ok (w attr) := by
  obtain ⟨hnodup, hattrs⟩ := Ty.distinctNames_object.mp hty
  have hattr : ∀ attr ∈ attrs, ∃ mp w, toMp crates ((fields.get? attr.name).getD .null) attr.ty = .ok mp ∧
      fromMp crates mp attr.ty = .ok w ∧ ReadsAs attr.ty ((fields.get? attr.name).getD .null) w := by
    intro attr ha
    obtain ⟨mp, hmp⟩ := exists_toMp_object.mp ⟨_, henc⟩ attr ha
    have hread : Readable crates ((fields.get? attr.name).getD .null) := by
      cases hv : fields.get? attr.name with
      | none => exact .null
      | some v => exact ih attr.name v hv
    obtain ⟨w, hw, hreads⟩ := hread attr.ty mp (hattrs attr ha) hmp
    exact ⟨mp, w, hmp, hw, hreads⟩
  choose! m w hm hw hreads using hattr
  obtain ⟨mp', henc', hdec⟩ := decodeObject_encodeObject (w := w) hnodup fun attr ha => ⟨m attr, hm attr ha, hw attr ha⟩
  obtain rfl := Except.ok.inj (henc.symm.trans henc')
  exact ⟨w, hdec, fun attr ha => ⟨hreads attr ha, m attr, hm attr ha, hw attr ha⟩⟩

theorem object (hc : crates.ReadsTypes) (ih : ∀ k v, fields.get? k = some v → Readable crates v) :
    Readable crates (.object fields) := by
  apply of_typed hc rfl rfl
  intro ty mp hne hty henc
  cases ty with
  | object attrs =>
      obtain ⟨w, hdec, hreads⟩ := attributes ih hty henc
      exact ⟨_, hdec, .object (Ty.distinctNames_object.mp hty).1 fun attr ha => (hreads attr ha).1⟩
  | dynamic => exact absurd rfl hne
  | _ => cases henc

end Readable

theorem readable (hc : crates.ReadsTypes) (v : Value) : Readable crates v := by
  induction v using ValueOf.induct with
  | null => exact .null
  | unknown => exact .unknown
  | bool b => exact .bool hc b
  | number n => exact .number hc n
  | string s => exact .string hc s
  | list items ih => exact .list hc ih
  | set items ih => exact .set hc ih
  | tuple items ih => exact .tuple hc ih
  | map entries ih => exact .map hc ih
  | object fields ih => exact .object hc ih

end

end TofuSdk
