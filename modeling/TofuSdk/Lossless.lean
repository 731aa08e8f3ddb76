import TofuSdk.Infer

namespace TofuSdk

section

variable {keyed : Zod → List String → Bool} {t : Zod} {v : Js} {items : List Js} {fields : Entries Js}
  {shape : ZodShape}
  {json : Json}

theorem revive_nullish (h : v.isNullish = true) : revive t v = v := by
  induction t using Zod.induct with
  | wrapper m type innerType ih => exact ih
  | _ => rcases Js.isNullish_iff.mp h with rfl | rfl <;> rfl

theorem isNullish_revive (h : v.isNullish = false) : (revive t v).isNullish = false := by
  induction t using Zod.induct with
  | leaf m type => exact h
  | pipe m codec input output _ _ => exact h
  | wrapper m type innerType ih => exact ih
  | array m element _ | set m element _ =>
      cases v with
      | array items => rfl
      | _ => exact h
  | object m shape _ | record m keyType element _ _ =>
      rw [revive]
      cases v.ownProperties with
      | none => exact h
      | some own => rfl

theorem Wrapper.infers_of_isNullish {type : Wrapper} {inner : Bool} (h : v.isNullish = false) :
    type.infers inner v = inner := by
  rw [Js.isNullish, Bool.or_eq_false_iff] at h
  cases type <;> simp [infers, h.1, h.2]

theorem revive_scalar (h : isScalar t = true) (v : Js) : revive t v = v := by
  rw [isScalar] at h
  induction t using Zod.induct with
  | leaf m type => rfl
  | wrapper m type innerType ih =>
      rw [Zod.peel_core_wrapper] at h
      exact ih h
  | pipe m codec input output _ _ => rfl
  | _ => cases h

theorem wireForm_array (items : List Js) : Js.wireForm (.array items) = .array (items.map Js.wireForm) := by
  rw [Js.wireForm, Js.wireForms_eq]

theorem wireForm_object (fields : Entries Js) : Js.wireForm (.object fields) = .object (fields.map Js.wireForm) := by
  rw [Js.wireForm, Js.wireFields_eq]

theorem revive_record (m : TfMeta) (keyType element : Zod) (fields : Entries Js) :
    revive (.record m keyType element) (.object fields) =
      .object (fields.filterMap fun k v => if k = protoKey then none else some (revive element v)) := rfl

theorem protoKey_notMem_assigned {f : Js → Js} :
    protoKey ∉ (fields.filterMap fun k v => if k = protoKey then none else some (f v)).keys := by
  intro h
  obtain ⟨p, -, hp, b, hb⟩ := Entries.mem_keys_filterMap h
  simp [hp] at hb

theorem assigned_eq_map {f : Js → Js} (h : protoKey ∉ fields.keys) :
    (fields.filterMap fun k v => if k = protoKey then none else some (f v)) = fields.mapWithKey fun _ => f := by
  apply Entries.filterMap_eq_map
  intro p hp
  apply if_neg
  intro hproto
  rw [← hproto, ← fields.map_fst_toList] at h
  exact h (List.mem_map_of_mem hp)

/-- A record is revived entry by entry, except for an entry that the assignment
of its key loses. -/
theorem revive_record_iff {m : TfMeta} {keyType element : Zod}
    (h : conforms keyed (.record m keyType element) (.object fields) = true)
    (hentry : ∀ p ∈ fields.toList, (infers keyed element (revive element p.2) = true ∧
      (revive element p.2).wireForm = p.2.wireForm ↔ promised true element p.2 = true)) :
    infers keyed (.record m keyType element) (revive (.record m keyType element) (.object fields)) = true ∧
        (revive (.record m keyType element) (.object fields)).wireForm = (Js.object fields).wireForm ↔
      promised true (.record m keyType element) (.object fields) = true := by
  rw [conforms, Bool.and_eq_true] at h
  rw [revive_record, wireForm_object, wireForm_object, Js.object.injEq]
  by_cases hproto : protoKey ∈ fields.keys
  · have hbroken : promised true (.record m keyType element) (.object fields) = false := by
      rw [promised, List.contains_iff_mem.mpr hproto]
      rfl
    rw [hbroken]
    refine iff_of_false (fun hsame => ?_) Bool.false_ne_true
    have hkeys := congrArg Entries.keys hsame.2
    rw [Entries.keys_map, Entries.keys_map] at hkeys
    rw [← hkeys] at hproto
    exact protoKey_notMem_assigned hproto
  · have hkeyed : keyed keyType (fields.mapWithKey fun _ => revive element).keys = true := h.1
    have hcontains : fields.keys.contains protoKey = false := by simpa using hproto
    rw [assigned_eq_map hproto, infers, promised, Entries.map_mapWithKey_eq_iff, Entries.toList_mapWithKey,
      List.all_map, hkeyed, hcontains, Bool.true_and, Bool.not_false, Bool.or_true, Bool.true_and,
      List.all_eq_true, List.all_eq_true, ← forall₂_and]
    exact forall₂_congr hentry

theorem revive_object (m : TfMeta) (shape : ZodShape) (fields : Entries Js) :
    revive (.object m shape) (.object fields) =
    .object (fields.mapWithKey fun k v => (shape.get? k).elim v fun ft => revive ft v) := by
  rw [revive]
  simp only [Js.ownProperties, reviveFields, reviveShape_eq, Entries.get?_map]
  congr
  funext k v
  cases shape.get? k <;> rfl

theorem revive_object_iff {m : TfMeta} (h : conforms keyed (.object m shape) (.object fields) = true)
    (hfield : ∀ p ∈ shape.toList, ∀ v, conforms keyed p.2 v = true →
      (infers keyed p.2 (revive p.2 v) = true ∧ (revive p.2 v).wireForm = v.wireForm ↔ promised true p.2 v = true)) :
    infers keyed (.object m shape) (revive (.object m shape) (.object fields)) = true ∧
        (revive (.object m shape) (.object fields)).wireForm = (Js.object fields).wireForm ↔
      promised true (.object m shape) (.object fields) = true := by
  rw [revive_object, wireForm_object, wireForm_object, Js.object.injEq, Entries.map_mapWithKey_eq_iff,
    infers_object, promised_object]
  have hget : ∀ p ∈ shape.toList, (Entries.mapWithKey (fun k v => (shape.get? k).elim v fun ft => revive ft v)
      fields).get? p.1 = (fields.get? p.1).map (revive p.2) := by
    intro p hp
    rw [Entries.get?_mapWithKey, Entries.get?_eq_some.mpr hp]
    rfl
  constructor
  · rintro ⟨hinfers, hwire⟩ p hp
    have hp' := hinfers p hp
    rw [hget p hp] at hp'
    cases hv : fields.get? p.1 with
    | none =>
        rw [hv] at hp'
        rwa [Option.getD_none, ← infers_nullish rfl]
    | some v =>
        rw [hv] at hp'
        have hsame := hwire (p.1, v) (Entries.get?_eq_some.mp hv)
        rw [Entries.get?_eq_some.mpr hp] at hsame
        exact (hfield p hp v (conforms_field h hp hv)).mp ⟨hp', hsame⟩
  · intro hpromised
    constructor
    · intro p hp
      have hp' := hpromised p hp
      rw [hget p hp]
      cases hv : fields.get? p.1 with
      | none =>
          rw [hv] at hp'
          rwa [Option.map_none, Option.getD_none, infers_nullish rfl]
      | some v =>
          rw [hv] at hp'
          exact ((hfield p hp v (conforms_field h hp hv)).mpr hp').1
    · intro q hq
      have hv := Entries.get?_eq_some.mpr hq
      obtain ⟨-, hknown⟩ := (conforms_object.mp h).1 q.1 (fields.map_fst_toList ▸ List.mem_map_of_mem hq)
      obtain ⟨p, hp, hname⟩ := List.mem_map.mp (shape.map_fst_toList ▸ hknown)
      rw [← hname] at hv
      have hp' := hpromised p hp
      rw [hv] at hp'
      have hwire := ((hfield p hp q.2 (conforms_field h hp hv)).mpr hp').2
      rw [← hname, Entries.get?_eq_some.mpr hp]
      exact hwire

/-- The revived value has the promised runtime type at every position, and the
wire form of what it was revived from, exactly when no position of it breaks
the promise. -/
theorem revive_iff (hcty : ctyFromZod t = .ok json) (hfree : transformFree t = true) (h : conforms keyed t v = true) :
    infers keyed t (revive t v) = true ∧ (revive t v).wireForm = v.wireForm ↔ promised true t v = true := by
  induction t using Zod.induct generalizing v json with
  | leaf m type =>
      rw [revive, infers, promised, LeafType.infers_eq_promised hfree h]
      exact and_iff_left rfl
  | array m element ih =>
      obtain ⟨elem, helem, -⟩ := Outcome.map_eq_ok.mp hcty
      cases v with
      | array items =>
          rw [revive, infers, promised, List.all_map, List.all_eq_true, List.all_eq_true, wireForm_array,
            wireForm_array, List.map_map, Js.array.injEq, List.map_inj_left, ← forall₂_and]
          exact forall₂_congr fun v hv => ih helem hfree (List.all_eq_true.mp h v hv)
      | _ => cases h
  | set m element ih =>
      rw [ctyFromZod] at hcty
      split_ifs at hcty with hscalar
      obtain ⟨elem, helem, -⟩ := Outcome.map_eq_ok.mp hcty
      cases v with
      | array items =>
          rw [conforms, Bool.and_eq_true, decide_eq_true_iff] at h
          have hsame : items.map (revive element) = items := List.map_id'' (revive_scalar hscalar) items
          rw [revive, hsame, Js.dedup_eq_self h.2, infers, promised, Bool.true_and, List.all_eq_true, List.all_eq_true]
          refine (and_iff_left rfl).trans (forall₂_congr fun v hv => ?_)
          rw [← ih helem hfree (List.all_eq_true.mp h.1 v hv), revive_scalar hscalar]
          exact (and_iff_left rfl).symm
      | _ => cases h
  | record m keyType element _ ih =>
      obtain ⟨elem, helem, -⟩ := Outcome.map_eq_ok.mp hcty
      rw [transformFree, Bool.and_eq_true] at hfree
      cases v with
      | object fields =>
          apply revive_record_iff h
          intro p hp
          rw [conforms, Bool.and_eq_true] at h
          exact ih helem hfree.2 (List.all_eq_true.mp h.2 p hp)
      | _ => cases h
  | object m shape ih =>
      rw [ctyFromZod_object] at hcty
      obtain ⟨types, htypes, -⟩ := Outcome.map_eq_ok.mp hcty
      cases v with
      | object fields =>
          apply revive_object_iff h
          intro p hp v hv
          obtain ⟨_, hp'⟩ := Outcome.ok_of_mem htypes p hp
          obtain ⟨json, hjson, -⟩ := Outcome.map_eq_ok.mp hp'
          exact ih p hp hjson (transformFree_object.mp hfree p hp) hv
      | _ => cases h
  | pipe m codec input output _ _ =>
      rw [conforms, Bool.and_eq_true] at h
      rw [transformFree, Bool.and_eq_true] at hfree
      rw [revive, infers, promised]
      exact (and_iff_left rfl).trans (infers_iff_promised hfree.2 h.2)
  | wrapper m type innerType ih =>
      cases hnullish : v.isNullish with
      | true =>
          rw [revive_nullish hnullish, infers_nullish hnullish]
          exact and_iff_left rfl
      | false =>
          rw [infers, promised, Wrapper.infers_of_isNullish (isNullish_revive hnullish),
            Wrapper.infers_of_isNullish hnullish]
          rw [Js.isNullish, Bool.or_eq_false_iff] at hnullish
          rw [conforms, hnullish.1, Bool.false_and, Bool.false_or] at h
          exact ih hcty hfree h

/-- The boundary keeps the promise of the schema, and what was revived is
written back as the JSON it was, exactly when no position of the wire value
breaks the promise. -/
theorem reviveSets_iff (hcty : ctyFromZod t = .ok json) (hfree : transformFree t = true)
    (h : conforms keyed t v = true) :
    infers keyed t (reviveSets t v) = true ∧ toWireJson (reviveSets t v) = .ok (some v.wireForm) ↔
      promised true t v = true := by
  have hwire := Js.isWire_of_isJson (conforms_isJson h)
  rw [← revive_iff hcty hfree h, reviveSets, toWireJson_eq_ok (isWire_revive hwire)]
  simp

end

def bucketSchema : Zod :=
  .object {} (.ofList [("tags", .wrapper {} .optional (.set {} (.leaf {} .string))),
    ("limits", .record {} (.leaf {} .string) (.leaf {} .number)),
    ("note", .wrapper {} .nullable (.leaf {} .string))] (by decide))

def bucketWire : Js :=
  .object (.ofList [("tags", .array [.string "a", .string "b"]),
    ("limits", .object (.ofList [("size", .primitive (.number .zero))] (by decide))), ("note", .null)] (by decide))

theorem bucket_revived : infers (fun _ _ => true) bucketSchema (reviveSets bucketSchema bucketWire) = true ∧
    toWireJson (reviveSets bucketSchema bucketWire) = .ok (some bucketWire.wireForm) := by
  obtain ⟨json, hjson⟩ : ∃ json, ctyFromZod bucketSchema = .ok json := ⟨_, rfl⟩
  exact (reviveSets_iff hjson (by decide) (by decide)).mpr (by decide)

def eventSchema : Zod := .object {} (.ofList [("time", .leaf {} .date)] (by decide))

def eventWire : Js := .object (.ofList [("time", .string "2024-05-01T00:00:00.000Z")] (by decide))

/-- The handler is promised a date and gets its text. -/
theorem event_text : ∃ json, ctyFromZod eventSchema = .ok json ∧ transformFree eventSchema = true ∧
    conforms (fun _ _ => true) eventSchema eventWire = true ∧
    infers (fun _ _ => true) eventSchema (reviveSets eventSchema eventWire) = false :=
  ⟨_, rfl, by decide, by decide, by decide⟩

end TofuSdk
