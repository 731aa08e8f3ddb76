import TofuSdk.Zod

namespace TofuSdk

namespace Primitive

def sameValueZero : Primitive → Primitive → Bool
  | .number x, .number y => x.eq y || (x.isNaN && y.isNaN)
  | p, q => p == q

end Primitive

namespace Js

@[elab_as_elim] theorem induct {P : Js → Prop} (primitive : ∀ p, P (.primitive p)) (date : ∀ iso, P (.date iso))
    (array : ∀ items, (∀ v ∈ items, P v) → P (.array items))
    (object : ∀ fields : Entries Js, (∀ p ∈ fields.toList, P p.2) → P (.object fields))
    (set : ∀ items, (∀ v ∈ items, P v) → P (.set items)) (v : Js) : P v :=
  Js.rec (motive_1 := P) (motive_2 := fun items => ∀ v ∈ items, P v)
    (motive_3 := fun fields => ∀ p ∈ fields.toList, P p.2)
    primitive date array object set (by simp) (fun _ _ hv hvs => List.forall_mem_cons.mpr ⟨hv, hvs⟩)
    (fun _ _ _ h => Entries.forall_val.mp h) v

def null : Js := .primitive .null

def undefined : Js := .primitive .undefined

def string (s : String) : Js := .primitive (.string s)

def sameValueZero : Js → Js → Bool
  | .primitive p, .primitive q => p.sameValueZero q
  | _, _ => false

def dedup (items : List Js) : List Js :=
  items.foldl (fun acc v => if acc.any (sameValueZero · v) then acc else acc ++ [v]) []

def indexed (items : List Js) : Entries Js :=
  .ofList ((items.zipIdx.map fun p => (Nat.repr p.2, p.1)).pwFilter fun p q => p.1 ≠ q.1)
    (by
      rw [List.Nodup, List.pairwise_map]
      exact List.pairwise_pwFilter _)

/-- What spreading a value into a new object gives it. Nothing else than an
object has a type of that name, but for arrays, dates and sets. -/
def ownProperties : Js → Option (Entries Js)
  | .primitive _ => none
  | .object fields => some fields
  | .array items => some (indexed items)
  | .date _ | .set _ => some (.ofList [] List.nodup_nil)

end Js

def reviveFields (revivers : Entries (Js → Js)) (own : Entries Js) : Entries Js :=
  own.mapWithKey fun k v => (revivers.get? k).elim v fun f => f v

mutual

/-- Revive a parsed value into the shape the schema promises. What is null or
undefined has no elements and no properties, and is left as it is. -/
def revive (t : Zod) (value : Js) : Js :=
  match t with
  | .leaf _ _ | .pipe _ _ _ _ => value
  | .wrapper _ _ innerType => revive innerType value
  | .set _ valueType => match value with
      | .array items => .set (Js.dedup (items.map (revive valueType)))
      | value => value
  | .array _ element => match value with
      | .array items => .array (items.map (revive element))
      | value => value
  | .object _ shape => match value.ownProperties with
      | some own => .object (reviveFields (reviveShape shape) own)
      | none => value
  | .record _ _ valueType => match value.ownProperties with
      | some own => .object (own.filterMap fun k v => if k = protoKey then none else some (revive valueType v))
      | none => value
termination_by structural t

def reviveShape (shape : ZodShape) : Entries (Js → Js) :=
  match shape with
  | ⟨keys, nodup, val⟩ => ⟨keys, nodup, fun i => revive (val i)⟩
termination_by structural shape

end

def reviveSets (schema : Zod) (value : Js) : Js := revive schema value

def numberText (x : F64) : Js :=
  if x.isFinite then .primitive (.number (if x.value = 0 then .zero else x)) else .null

mutual

/-- What the text of a value parses to. A set is written as an array; an
undefined value has no text. -/
def stringify (value : Js) : Except String (Option Js) :=
  match value with
  | .primitive .undefined => .ok none
  | .primitive (.bigint _) => .error "Do not know how to serialize a BigInt"
  | .primitive (.number x) => .ok (some (numberText x))
  | .primitive p => .ok (some (.primitive p))
  | .date iso => .ok (some (iso.elim .null .string))
  | .array items | .set items => (fun items => some (.array items)) <$> stringifyItems items
  | .object fields => (fun texts => some (.object (texts.filterMap fun _ => id))) <$> (stringifyFields fields).sequence
termination_by structural value

def stringifyItems (items : List Js) : Except String (List Js) :=
  match items with
  | [] => .ok []
  | v :: vs => do
      let text ← stringify v
      let texts ← stringifyItems vs
      pure (text.getD .null :: texts)
termination_by structural items

def stringifyFields (fields : Entries Js) : Entries (Except String (Option Js)) :=
  match fields with
  | ⟨keys, nodup, val⟩ => ⟨keys, nodup, fun i => stringify (val i)⟩
termination_by structural fields

end

def toWireJson (value : Js) : Except String (Option Js) :=
  stringify (if value matches .primitive .undefined then .null else value)

def Js.isNull : Js → Bool
  | .primitive .null => true
  | _ => false

def Js.isUndefined : Js → Bool
  | .primitive .undefined => true
  | _ => false

def Js.isNullish (v : Js) : Bool := v.isNull || v.isUndefined

mutual

def Js.isJson (v : Js) : Bool :=
  match v with
  | .primitive .undefined | .primitive (.bigint _) | .date _ | .set _ => false
  | .primitive (.number x) => x.isFinite
  | .primitive _ => true
  | .array items => Js.allJson items
  | .object fields => Js.fieldsJson fields
termination_by structural v

def Js.allJson (items : List Js) : Bool :=
  match items with
  | [] => true
  | v :: vs => Js.isJson v && Js.allJson vs
termination_by structural items

def Js.fieldsJson (fields : Entries Js) : Bool :=
  match fields with
  | ⟨keys, _, val⟩ => (List.finRange keys.length).all fun i => Js.isJson (val i)
termination_by structural fields

end

mutual

def Js.isWire (v : Js) : Bool :=
  match v with
  | .primitive .undefined | .primitive (.bigint _) | .date _ => false
  | .primitive _ => true
  | .array items | .set items => Js.allWire items
  | .object fields => Js.fieldsWire fields
termination_by structural v

def Js.allWire (items : List Js) : Bool :=
  match items with
  | [] => true
  | v :: vs => Js.isWire v && Js.allWire vs
termination_by structural items

def Js.fieldsWire (fields : Entries Js) : Bool :=
  match fields with
  | ⟨keys, _, val⟩ => (List.finRange keys.length).all fun i => Js.isWire (val i)
termination_by structural fields

end

mutual

def Js.wireForm (v : Js) : Js :=
  match v with
  | .primitive (.number x) => numberText x
  | .array items | .set items => .array (Js.wireForms items)
  | .object fields => .object (Js.wireFields fields)
  | v => v
termination_by structural v

def Js.wireForms (items : List Js) : List Js :=
  match items with
  | [] => []
  | v :: vs => Js.wireForm v :: Js.wireForms vs
termination_by structural items

def Js.wireFields (fields : Entries Js) : Entries Js :=
  match fields with
  | ⟨keys, nodup, val⟩ => ⟨keys, nodup, fun i => Js.wireForm (val i)⟩
termination_by structural fields

end

section

variable {t : Zod} {v : Js} {items : List Js} {fields : Entries Js}

theorem Js.isNullish_iff : v.isNullish = true ↔ v = .null ∨ v = .undefined := by
  unfold isNullish isNull isUndefined
  constructor
  · intro h
    split at h
    · exact Or.inl rfl
    · split at h
      · exact Or.inr rfl
      · simp at h
  · rintro (rfl | rfl) <;> rfl

theorem Js.allJson_iff : allJson items = true ↔ ∀ v ∈ items, v.isJson = true := by
  induction items with
  | nil => simp [allJson]
  | cons v vs ih => simp [allJson, ih]

theorem Js.fieldsJson_iff : fieldsJson fields = true ↔ ∀ p ∈ fields.toList, p.2.isJson = true := by
  rw [← Entries.forall_val (P := fun v : Js => v.isJson = true)]
  cases fields
  simp [fieldsJson]

theorem reviveShape_eq (shape : ZodShape) : reviveShape shape = shape.map revive := by
  cases shape
  rfl

theorem Js.allWire_iff : allWire items = true ↔ ∀ v ∈ items, v.isWire = true := by
  induction items with
  | nil => simp [allWire]
  | cons v vs ih => simp [allWire, ih]

theorem Js.fieldsWire_iff : fieldsWire fields = true ↔ ∀ p ∈ fields.toList, p.2.isWire = true := by
  rw [← Entries.forall_val (P := fun v : Js => v.isWire = true)]
  cases fields
  simp [fieldsWire]

theorem Js.wireForms_eq (items : List Js) : wireForms items = items.map wireForm := by
  induction items with
  | nil => rfl
  | cons v vs ih => rw [wireForms, ih, List.map_cons]

theorem Js.wireFields_eq (fields : Entries Js) : wireFields fields = fields.map wireForm := by
  cases fields
  rfl

theorem stringifyFields_eq (fields : Entries Js) : stringifyFields fields = fields.map stringify := by
  cases fields
  rfl

theorem Js.isWire_of_isJson (h : v.isJson = true) : v.isWire = true := by
  induction v using Js.induct with
  | primitive p => cases p <;> first | rfl | cases h
  | date iso => cases h
  | array items ih => exact allWire_iff.mpr fun v hv => ih v hv (allJson_iff.mp h v hv)
  | object fields ih => exact fieldsWire_iff.mpr fun p hp => ih p hp (fieldsJson_iff.mp h p hp)
  | set items _ => cases h

theorem stringifyItems_eq_ok (h : ∀ v ∈ items, stringify v = .ok (some v.wireForm)) :
    stringifyItems items = .ok (items.map Js.wireForm) := by
  induction items with
  | nil => rfl
  | cons v vs ih =>
      rw [stringifyItems, h v List.mem_cons_self, Outcome.ok_bind, ih fun w hw => h w (List.mem_cons_of_mem _ hw)]
      rfl

theorem stringify_eq_ok (h : v.isWire = true) : stringify v = .ok (some v.wireForm) := by
  induction v using Js.induct with
  | primitive p => cases p <;> first | rfl | cases h
  | date iso => cases h
  | array items ih | set items ih =>
      rw [stringify, stringifyItems_eq_ok fun v hv => ih v hv (Js.allWire_iff.mp h v hv), Js.wireForm,
        Js.wireForms_eq]
      rfl
  | object fields ih =>
      have htexts : (stringifyFields fields).sequence = .ok (fields.map fun v => some v.wireForm) := by
        rw [stringifyFields_eq]
        exact Entries.sequence_eq_ok fun p hp => ih p hp (Js.fieldsWire_iff.mp h p hp)
      have hkept : (fields.map fun v => some v.wireForm).filterMap (fun _ => id) = fields.map Js.wireForm := by
        apply Entries.ext_toList
        rw [Entries.toList_filterMap, Entries.toList_map, Entries.toList_map, List.filterMap_map]
        exact congrFun (List.filterMap_eq_map (f := fun p : String × Js => (p.1, p.2.wireForm))) fields.toList
      rw [stringify, htexts, Outcome.map_ok, hkept, Js.wireForm, Js.wireFields_eq]

theorem toWireJson_eq_ok (h : v.isWire = true) : toWireJson v = .ok (some v.wireForm) := by
  cases v with
  | primitive p => cases p <;> first | exact stringify_eq_ok h | cases h
  | _ => exact stringify_eq_ok h

theorem Js.mem_dedup (h : v ∈ dedup items) : v ∈ items := by
  have hfold : ∀ acc : List Js,
      v ∈ items.foldl (fun acc v => if acc.any (sameValueZero · v) then acc else acc ++ [v]) acc →
      v ∈ acc ∨ v ∈ items := by
    clear h
    induction items with
    | nil => exact fun acc h => Or.inl h
    | cons w items ih =>
        intro acc h
        rw [List.foldl_cons] at h
        rcases ih _ h with h | h
        · split_ifs at h
          · exact Or.inl h
          · rw [List.mem_append, List.mem_singleton] at h
            exact h.imp_right fun heq => by simp [heq]
        · exact Or.inr (List.mem_cons_of_mem _ h)
  exact (hfold [] h).resolve_left List.not_mem_nil

theorem Js.dedup_eq_self (h : items.Pairwise fun v w => sameValueZero v w = false) : dedup items = items := by
  have hfold : ∀ acc : List Js, (acc ++ items).Pairwise (fun v w => sameValueZero v w = false) →
      items.foldl (fun acc v => if acc.any (sameValueZero · v) then acc else acc ++ [v]) acc = acc ++ items := by
    clear h
    induction items with
    | nil => simp
    | cons w items ih =>
        intro acc h
        have hnew : acc.any (sameValueZero · w) = false := by
          rw [List.any_eq_false]
          intro v hv
          rw [(List.pairwise_append.mp h).2.2 v hv w List.mem_cons_self]
          exact Bool.false_ne_true
        have happ : acc ++ w :: items = acc ++ [w] ++ items := by simp
        rw [List.foldl_cons, hnew, if_neg Bool.false_ne_true, ih, happ]
        exact happ ▸ h
  exact hfold [] h

theorem Js.mem_indexed {p : String × Js} (h : p ∈ (indexed items).toList) : p.2 ∈ items := by
  rw [indexed, Entries.toList_ofList] at h
  obtain ⟨q, hq, rfl⟩ := List.mem_map.mp ((List.pwFilter_sublist _).mem h)
  exact List.fst_mem_of_mem_zipIdx hq

theorem Js.isWire_ownProperties {own : Entries Js} (h : v.isWire = true) (hown : v.ownProperties = some own) :
    ∀ p ∈ own.toList, p.2.isWire = true := by
  cases v with
  | primitive p => cases hown
  | date iso => cases h
  | array items =>
      cases hown
      exact fun p hp => allWire_iff.mp h p.2 (mem_indexed hp)
  | object fields =>
      cases hown
      exact fieldsWire_iff.mp h
  | set items =>
      cases hown
      simp

theorem isWire_revive (h : v.isWire = true) : (revive t v).isWire = true := by
  induction t using Zod.induct generalizing v with
  | leaf m type => exact h
  | pipe m codec input output _ _ => exact h
  | wrapper m type innerType ih => exact ih h
  | array m element ih =>
      cases v with
      | array items =>
          rw [revive, Js.isWire, Js.allWire_iff, List.forall_mem_map]
          exact fun v hv => ih (Js.allWire_iff.mp h v hv)
      | _ => exact h
  | set m element ih =>
      cases v with
      | array items =>
          rw [revive, Js.isWire, Js.allWire_iff]
          intro v hv
          obtain ⟨w, hw, rfl⟩ := List.mem_map.mp (Js.mem_dedup hv)
          exact ih (Js.allWire_iff.mp h w hw)
      | _ => exact h
  | object m shape ih =>
      rw [revive]
      cases hown : v.ownProperties with
      | none => exact h
      | some own =>
          have hwire := Js.isWire_ownProperties h hown
          simp only [Js.isWire, Js.fieldsWire_iff, reviveFields, Entries.toList_mapWithKey, List.forall_mem_map,
            reviveShape_eq, Entries.get?_map]
          intro p hp
          cases hft : shape.get? p.1 with
          | none => exact hwire p hp
          | some ft => exact ih (p.1, ft) (Entries.get?_eq_some.mp hft) (hwire p hp)
  | record m keyType element _ ih =>
      rw [revive]
      cases hown : v.ownProperties with
      | none => exact h
      | some own =>
          have hwire := Js.isWire_ownProperties h hown
          rw [Js.isWire, Js.fieldsWire_iff, Entries.toList_filterMap]
          intro p hp
          obtain ⟨q, hq, heq⟩ := List.mem_filterMap.mp hp
          split_ifs at heq
          · cases heq
          · obtain rfl := Option.some.inj heq
            exact ih (hwire q hq)

end

end TofuSdk
