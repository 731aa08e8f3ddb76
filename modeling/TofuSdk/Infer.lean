import TofuSdk.Revive

namespace TofuSdk

def Js.isOneOf (values : List Primitive) : Js → Bool
  | .primitive p => values.any p.sameValueZero
  | _ => false

def Js.hasScalarType (type : Json) : Js → Bool
  | .primitive (.string _) => type.asString == some "string"
  | .primitive (.number _) => type.asString == some "number"
  | .primitive (.bool _) => type.asString == some "bool"
  | _ => false

section

-- What a key schema asks of the keys of a record.
variable (keyed : Zod → List String → Bool)

def LeafType.infers : LeafType → Js → Bool
  | .string, .primitive (.string _) => true
  | .enum values, v | .literal values, v => v.isOneOf values
  | .date, .date _ => true
  | .number, .primitive (.number _) | .int, .primitive (.number _) => true
  | .bigint, .primitive (.bigint _) => true
  | .boolean, .primitive (.bool _) => true
  | .any, _ | .unknown, _ => true
  | .unsupported _ admits, v => admits v
  | _, _ => false

def Wrapper.infers (type : Wrapper) (inner : Bool) (v : Js) : Bool :=
  match type with
  | .optional => v.isUndefined || inner
  | .nullable => v.isNull || inner
  | .default | .prefault | .nonoptional => !v.isUndefined && inner
  | .readonly | .catch => inner

mutual

/-- Does the type inferred from a schema, its output type, admit the value? A
property that an object does not have reads as undefined. -/
def infers (t : Zod) (v : Js) : Bool :=
  match t with
  | .leaf _ type => type.infers v
  | .array _ element => match v with
      | .array items => items.all (infers element)
      | _ => false
  | .set _ valueType => match v with
      | .set items => items.all (infers valueType)
      | _ => false
  | .record _ keyType valueType => match v with
      | .object fields => keyed keyType fields.keys && fields.toList.all fun p => infers valueType p.2
      | _ => false
  | .object _ shape => match v with
      | .object fields => (inferShape shape).toList.all fun p => p.2 ((fields.get? p.1).getD .undefined)
      | _ => false
  | .pipe _ _ _ output => infers output v
  | .wrapper _ type innerType => type.infers (infers innerType v) v
termination_by structural t

def inferShape (shape : ZodShape) : Entries (Js → Bool) :=
  match shape with
  | ⟨keys, nodup, val⟩ => ⟨keys, nodup, fun i => infers (val i)⟩
termination_by structural shape

end

def LeafType.conforms (type : LeafType) (v : Js) : Bool :=
  v.isJson && match type with
    | .enum values => v.hasScalarType (.string "string") && v.isOneOf values
    | .literal values => v.hasScalarType (literalCty values) && v.isOneOf values
    | .string | .date => v.hasScalarType (.string "string")
    | .number | .int | .bigint => v.hasScalarType (.string "number")
    | .boolean => v.hasScalarType (.string "bool")
    | .any | .unknown | .transform | .codec | .unsupported _ _ => true

def Wrapper.allowsNull : Wrapper → Bool
  | .nullable | .optional | .default | .prefault => true
  | _ => false

mutual

/-- Does a wire value conform to the derived type and to the refinements of the
schema? -/
def conforms (t : Zod) (v : Js) : Bool :=
  match t with
  | .leaf _ type => type.conforms v
  | .array _ element => match v with
      | .array items => items.all (conforms element)
      | _ => false
  | .set _ valueType => match v with
      | .array items => items.all (conforms valueType) &&
          decide (items.Pairwise fun v w => Js.sameValueZero v w = false)
      | _ => false
  | .record _ keyType valueType => match v with
      | .object fields => keyed keyType fields.keys && fields.toList.all fun p => conforms valueType p.2
      | _ => false
  | .object _ shape => match v with
      | .object fields => fields.keys.all (fun k => k != protoKey && shape.keys.contains k) &&
          (conformShape shape).toList.all fun p => p.1 == protoKey || (fields.get? p.1).any p.2
      | _ => false
  | .pipe _ _ input output => conforms input v && conforms output v
  | .wrapper _ type innerType => v.isNull && type.allowsNull || conforms innerType v
termination_by structural t

def conformShape (shape : ZodShape) : Entries (Js → Bool) :=
  match shape with
  | ⟨keys, nodup, val⟩ => ⟨keys, nodup, fun i => conforms (val i)⟩
termination_by structural shape

end

def LeafType.promised (type : LeafType) (v : Js) : Bool :=
  match type with
  | .date | .bigint => false
  | .any | .unknown => true
  | .enum values | .literal values => !v.isNullish || v.isOneOf values
  | .unsupported _ admits => admits v
  | _ => !v.isNullish

mutual

/-- Does no position of a wire value break the promise of the schema? The walk
over the value ends at a pipe: below it nothing is revived. -/
def promised (walked : Bool) (t : Zod) (v : Js) : Bool :=
  match t with
  | .leaf _ type => type.promised v
  | .array _ element => match v with
      | .array items => items.all (promised walked element)
      | _ => false
  | .set _ valueType => match v with
      | .array items => walked && items.all (promised walked valueType)
      | _ => false
  | .record _ _ valueType => match v with
      | .object fields => (!walked || !fields.keys.contains protoKey) &&
          fields.toList.all fun p => promised walked valueType p.2
      | _ => false
  | .object _ shape => match v with
      | .object fields => (promisedShape walked shape).toList.all fun p => p.2 ((fields.get? p.1).getD .undefined)
      | _ => false
  | .pipe _ _ _ output => promised false output v
  | .wrapper _ type innerType => type.infers (promised walked innerType v) v
termination_by structural t

def promisedShape (walked : Bool) (shape : ZodShape) : Entries (Js → Bool) :=
  match shape with
  | ⟨keys, nodup, val⟩ => ⟨keys, nodup, fun i => promised walked (val i)⟩
termination_by structural shape

end

mutual

/-- Has the schema no part that transforms a value? -/
def transformFree (t : Zod) : Bool :=
  match t with
  | .leaf _ .transform | .leaf _ .codec => false
  | .leaf _ _ => true
  | .array _ element => transformFree element
  | .set _ valueType => transformFree valueType
  | .record _ keyType valueType => transformFree keyType && transformFree valueType
  | .object _ shape => (transformFreeShape shape).toList.all fun p => p.2
  | .pipe _ codec input output => !codec && transformFree input && transformFree output
  | .wrapper _ _ innerType => transformFree innerType
termination_by structural t

def transformFreeShape (shape : ZodShape) : Entries Bool :=
  match shape with
  | ⟨keys, nodup, val⟩ => ⟨keys, nodup, fun i => transformFree (val i)⟩
termination_by structural shape

end

end

section

variable {keyed : Zod → List String → Bool} {walked : Bool} {t : Zod} {m : TfMeta} {shape : ZodShape} {v : Js}
  {items : List Js} {fields : Entries Js}

theorem inferShape_eq (shape : ZodShape) : inferShape keyed shape = shape.map (infers keyed) := by
  cases shape
  rfl

theorem conformShape_eq (shape : ZodShape) : conformShape keyed shape = shape.map (conforms keyed) := by
  cases shape
  rfl

theorem promisedShape_eq (walked : Bool) (shape : ZodShape) :
    promisedShape walked shape = shape.map (promised walked) := by
  cases shape
  rfl

theorem transformFreeShape_eq (shape : ZodShape) : transformFreeShape shape = shape.map transformFree := by
  cases shape
  rfl

theorem infers_object : infers keyed (.object m shape) (.object fields) = true ↔
    ∀ p ∈ shape.toList, infers keyed p.2 ((fields.get? p.1).getD .undefined) = true := by
  rw [infers, inferShape_eq, Entries.toList_map, List.all_map, List.all_eq_true]
  rfl

theorem promised_object : promised walked (.object m shape) (.object fields) = true ↔
    ∀ p ∈ shape.toList, promised walked p.2 ((fields.get? p.1).getD .undefined) = true := by
  rw [promised, promisedShape_eq, Entries.toList_map, List.all_map, List.all_eq_true]
  rfl

theorem transformFree_object : transformFree (.object m shape) = true ↔
    ∀ p ∈ shape.toList, transformFree p.2 = true := by
  rw [transformFree, transformFreeShape_eq, Entries.toList_map, List.all_map, List.all_eq_true]
  rfl

theorem conforms_object : conforms keyed (.object m shape) (.object fields) = true ↔
    (∀ k ∈ fields.keys, k ≠ protoKey ∧ k ∈ shape.keys) ∧
      ∀ p ∈ shape.toList, p.1 ≠ protoKey → ∃ v, fields.get? p.1 = some v ∧ conforms keyed p.2 v = true := by
  rw [conforms, conformShape_eq, Entries.toList_map, List.all_map, Bool.and_eq_true, List.all_eq_true,
    List.all_eq_true]
  simp only [Function.comp, Bool.and_eq_true, bne_iff_ne, List.contains_iff_mem, Bool.or_eq_true, beq_iff_eq,
    Option.any_eq_true, or_iff_not_imp_left]

theorem conforms_field {m : TfMeta} {p : String × Zod} (h : conforms keyed (.object m shape) (.object fields) = true)
    (hp : p ∈ shape.toList) (hv : fields.get? p.1 = some v) : conforms keyed p.2 v = true := by
  obtain ⟨hkeys, hfields⟩ := conforms_object.mp h
  have hmem := List.mem_map_of_mem (f := Prod.fst) (Entries.get?_eq_some.mp hv)
  rw [fields.map_fst_toList] at hmem
  obtain ⟨v', hv', hconf⟩ := hfields p hp (hkeys p.1 hmem).1
  obtain rfl := Option.some.inj (hv.symm.trans hv')
  exact hconf

theorem infers_nullish (h : v.isNullish = true) : infers keyed t v = promised walked t v := by
  induction t using Zod.induct generalizing walked with
  | leaf m type =>
      rw [infers, promised]
      rcases Js.isNullish_iff.mp h with rfl | rfl <;> cases type <;> rfl
  | wrapper m type innerType ih => rw [infers, promised, ih]
  | pipe m codec input output _ ih => exact ih
  | _ => rcases Js.isNullish_iff.mp h with rfl | rfl <;> rfl

theorem conforms_isJson (h : conforms keyed t v = true) : v.isJson = true := by
  induction t using Zod.induct generalizing v with
  | leaf m type => exact (Bool.and_eq_true _ _ ▸ h : _ ∧ _).1
  | array m element ih =>
      cases v with
      | array items => exact Js.allJson_iff.mpr fun v hv => ih (List.all_eq_true.mp h v hv)
      | _ => cases h
  | set m element ih =>
      cases v with
      | array items =>
          rw [conforms, Bool.and_eq_true] at h
          exact Js.allJson_iff.mpr fun v hv => ih (List.all_eq_true.mp h.1 v hv)
      | _ => cases h
  | record m keyType element _ ih =>
      cases v with
      | object fields =>
          rw [conforms, Bool.and_eq_true] at h
          exact Js.fieldsJson_iff.mpr fun p hp => ih (List.all_eq_true.mp h.2 p hp)
      | _ => cases h
  | object m shape ih =>
      cases v with
      | object fields =>
          obtain ⟨hkeys, hfields⟩ := conforms_object.mp h
          rw [Js.isJson, Js.fieldsJson_iff]
          intro p hp
          obtain ⟨hproto, hknown⟩ := hkeys p.1 (fields.map_fst_toList ▸ List.mem_map_of_mem hp)
          obtain ⟨q, hq, hname⟩ := List.mem_map.mp (shape.map_fst_toList ▸ hknown)
          obtain ⟨v, hv, hconf⟩ := hfields q hq (hname ▸ hproto)
          rw [hname, Entries.get?_eq_some.mpr hp] at hv
          obtain rfl := Option.some.inj hv
          exact ih q hq hconf
      | _ => cases h
  | pipe m codec input output ih _ =>
      rw [conforms, Bool.and_eq_true] at h
      exact ih h.1
  | wrapper m type innerType ih =>
      rw [conforms, Bool.or_eq_true, Bool.and_eq_true] at h
      rcases h with ⟨hnull, -⟩ | h
      · rcases Js.isNullish_iff.mp (by rw [Js.isNullish, hnull, Bool.true_or]) with rfl | rfl
        · rfl
        · cases hnull
      · exact ih h

theorem Js.hasScalarType_cases {type : Json} (h : v.hasScalarType type = true) :
    (∃ s, v = .primitive (.string s) ∧ type.asString = some "string") ∨
      (∃ x, v = .primitive (.number x) ∧ type.asString = some "number") ∨
      ∃ b, v = .primitive (.bool b) ∧ type.asString = some "bool" := by
  unfold hasScalarType at h
  split at h
  · exact Or.inl ⟨_, rfl, by simpa using h⟩
  · exact Or.inr (Or.inl ⟨_, rfl, by simpa using h⟩)
  · exact Or.inr (Or.inr ⟨_, rfl, by simpa using h⟩)
  · cases h

theorem Js.isNullish_of_hasScalarType {type : Json} (h : v.hasScalarType type = true) : v.isNullish = false := by
  rcases hasScalarType_cases h with ⟨s, rfl, -⟩ | ⟨x, rfl, -⟩ | ⟨b, rfl, -⟩ <;> rfl

theorem Js.hasScalarType_string (h : v.hasScalarType (.string "string") = true) : ∃ s, v = .primitive (.string s) := by
  rcases hasScalarType_cases h with ⟨s, rfl, -⟩ | ⟨x, rfl, htype⟩ | ⟨b, rfl, htype⟩
  · exact ⟨s, rfl⟩
  · simp [Json.asString] at htype
  · simp [Json.asString] at htype

theorem Js.hasScalarType_number (h : v.hasScalarType (.string "number") = true) : ∃ x, v = .primitive (.number x) := by
  rcases hasScalarType_cases h with ⟨s, rfl, htype⟩ | ⟨x, rfl, -⟩ | ⟨b, rfl, htype⟩
  · simp [Json.asString] at htype
  · exact ⟨x, rfl⟩
  · simp [Json.asString] at htype

theorem Js.hasScalarType_bool (h : v.hasScalarType (.string "bool") = true) : ∃ b, v = .primitive (.bool b) := by
  rcases hasScalarType_cases h with ⟨s, rfl, htype⟩ | ⟨x, rfl, htype⟩ | ⟨b, rfl, -⟩
  · simp [Json.asString] at htype
  · simp [Json.asString] at htype
  · exact ⟨b, rfl⟩

theorem LeafType.infers_eq_promised {type : LeafType} (hfree : transformFree (.leaf m type) = true)
    (h : type.conforms v = true) : type.infers v = type.promised v := by
  obtain ⟨-, h⟩ := (Bool.and_eq_true _ _).mp h
  cases type with
  | string | date =>
      obtain ⟨s, rfl⟩ := Js.hasScalarType_string h
      rfl
  | number | int | bigint =>
      obtain ⟨x, rfl⟩ := Js.hasScalarType_number h
      rfl
  | boolean =>
      obtain ⟨b, rfl⟩ := Js.hasScalarType_bool h
      rfl
  | enum values | literal values =>
      obtain ⟨htype, hvalue⟩ := (Bool.and_eq_true _ _).mp h
      have hnullish := Js.isNullish_of_hasScalarType htype
      simp [infers, promised, hvalue, hnullish]
  | any | unknown | unsupported type admits => rfl
  | transform | codec => cases hfree

theorem infers_iff_promised (hfree : transformFree t = true) (h : conforms keyed t v = true) :
    infers keyed t v = true ↔ promised false t v = true := by
  induction t using Zod.induct generalizing v with
  | leaf m type => rw [infers, promised, LeafType.infers_eq_promised hfree h]
  | array m element ih =>
      cases v with
      | array items =>
          rw [infers, promised, List.all_eq_true, List.all_eq_true]
          exact forall₂_congr fun v hv => ih hfree (List.all_eq_true.mp h v hv)
      | _ => cases h
  | set m element ih =>
      cases v with
      | array items => exact iff_of_false (by simp [infers]) (by simp [promised])
      | _ => cases h
  | record m keyType element _ ih =>
      cases v with
      | object fields =>
          rw [conforms, Bool.and_eq_true] at h
          rw [transformFree, Bool.and_eq_true] at hfree
          rw [infers, promised, h.1, Bool.true_and, Bool.not_false, Bool.true_or, Bool.true_and, List.all_eq_true,
            List.all_eq_true]
          exact forall₂_congr fun p hp => ih hfree.2 (List.all_eq_true.mp h.2 p hp)
      | _ => cases h
  | object m shape ih =>
      cases v with
      | object fields =>
          rw [infers_object, promised_object]
          apply forall₂_congr
          intro p hp
          cases hv : fields.get? p.1 with
          | none => rw [Option.getD_none, infers_nullish rfl]
          | some v => exact ih p hp (transformFree_object.mp hfree p hp) (conforms_field h hp hv)
      | _ => cases h
  | pipe m codec input output _ ih =>
      rw [conforms, Bool.and_eq_true] at h
      rw [transformFree, Bool.and_eq_true] at hfree
      exact ih hfree.2 h.2
  | wrapper m type innerType ih =>
      cases hnullish : v.isNullish with
      | true => rw [infers_nullish hnullish]
      | false =>
          rw [Js.isNullish, Bool.or_eq_false_iff] at hnullish
          rw [conforms, hnullish.1, Bool.false_and, Bool.false_or] at h
          have hinner := ih hfree h
          rw [infers, promised]
          rw [Bool.eq_iff_iff.mpr hinner]

end

end TofuSdk
