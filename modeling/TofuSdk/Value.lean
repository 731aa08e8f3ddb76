import TofuSdk.Number
import TofuSdk.OrdMap
import Mathlib.Data.String.Basic

namespace TofuSdk

/-- The dynamic value tree, over any representation of its numbers. -/
inductive ValueOf (ν : Type)
  | null
  | unknown
  | bool (b : Bool)
  | number (n : ν)
  | string (s : String)
  | list (items : List (ValueOf ν))
  | set (items : List (ValueOf ν))
  | map (entries : OrdMap String (ValueOf ν))
  | object (fields : OrdMap String (ValueOf ν))
  | tuple (items : List (ValueOf ν))
deriving Inhabited

abbrev Value := ValueOf Number

abbrev Fields := OrdMap String Value

namespace ValueOf

variable {ν μ : Type}

@[elab_as_elim] theorem induct {P : ValueOf ν → Prop} (null : P .null) (unknown : P .unknown)
    (bool : ∀ b, P (.bool b)) (number : ∀ n, P (.number n)) (string : ∀ s, P (.string s))
    (list : ∀ items, (∀ v ∈ items, P v) → P (.list items))
    (set : ∀ items, (∀ v ∈ items, P v) → P (.set items))
    (map : ∀ entries, (∀ k v, entries.get? k = some v → P v) → P (.map entries))
    (object : ∀ fields, (∀ k v, fields.get? k = some v → P v) → P (.object fields))
    (tuple : ∀ items, (∀ v ∈ items, P v) → P (.tuple items)) (v : ValueOf ν) : P v :=
  ValueOf.rec (motive_1 := P) (motive_2 := fun items => ∀ v ∈ items, P v)
    (motive_3 := fun m => ∀ k v, m.get? k = some v → P v)
    null unknown bool number string list set map object tuple
    (by simp) (fun v vs hv hvs => by simpa using ⟨hv, hvs⟩)
    (fun _ _ _ h => OrdMap.forall_val.mp h) v

def isNull : ValueOf ν → Bool
  | .null => true
  | _ => false

def isUnknown : ValueOf ν → Bool
  | .unknown => true
  | _ => false

mutual

def mapNumber (f : ν → μ) (v : ValueOf ν) : ValueOf μ :=
  match v with
  | .null => .null
  | .unknown => .unknown
  | .bool b => .bool b
  | .number n => .number (f n)
  | .string s => .string s
  | .list items => .list (mapNumbers f items)
  | .set items => .set (mapNumbers f items)
  | .map entries => .map (mapNumberFields f entries)
  | .object fields => .object (mapNumberFields f fields)
  | .tuple items => .tuple (mapNumbers f items)
termination_by structural v

def mapNumbers (f : ν → μ) (items : List (ValueOf ν)) : List (ValueOf μ) :=
  match items with
  | [] => []
  | v :: vs => mapNumber f v :: mapNumbers f vs
termination_by structural items

def mapNumberFields (f : ν → μ) (fields : OrdMap String (ValueOf ν)) : OrdMap String (ValueOf μ) :=
  match fields with
  | ⟨keys, sorted, val⟩ => ⟨keys, sorted, fun i => mapNumber f (val i)⟩
termination_by structural fields

end

theorem mapNumbers_eq_map (f : ν → μ) (items : List (ValueOf ν)) :
    mapNumbers f items = items.map (mapNumber f) := by
  induction items with
  | nil => rfl
  | cons v vs ih => rw [mapNumbers, ih, List.map_cons]

theorem mapNumberFields_eq_map (f : ν → μ) (fields : OrdMap String (ValueOf ν)) :
    mapNumberFields f fields = fields.map (mapNumber f) := by
  cases fields
  rfl

mutual

def everywhere (p : ValueOf ν → Bool) (v : ValueOf ν) : Bool :=
  p v && match v with
  | .list items | .set items | .tuple items => everywhereIn p items
  | .map entries | .object entries => everywhereInFields p entries
  | _ => true
termination_by structural v

def everywhereIn (p : ValueOf ν → Bool) (items : List (ValueOf ν)) : Bool :=
  match items with
  | [] => true
  | v :: vs => everywhere p v && everywhereIn p vs
termination_by structural items

def everywhereInFields (p : ValueOf ν → Bool) (fields : OrdMap String (ValueOf ν)) : Bool :=
  match fields with
  | ⟨keys, _, val⟩ => (List.finRange keys.length).all fun i => everywhere p (val i)
termination_by structural fields

end

theorem everywhereIn_iff {p : ValueOf ν → Bool} {items : List (ValueOf ν)} :
    everywhereIn p items = true ↔ ∀ v ∈ items, everywhere p v = true := by
  induction items with
  | nil => simp [everywhereIn]
  | cons v vs ih => simp [everywhereIn, ih]

theorem everywhereInFields_iff {p : ValueOf ν → Bool} {fields : OrdMap String (ValueOf ν)} :
    everywhereInFields p fields = true ↔ ∀ k v, fields.get? k = some v → everywhere p v = true := by
  rw [← OrdMap.forall_val (P := fun _ v => everywhere p v = true)]
  obtain ⟨keys, sorted, val⟩ := fields
  simp [everywhereInFields]

@[simp] theorem everywhere_list {p : ValueOf ν → Bool} {items : List (ValueOf ν)} :
    everywhere p (.list items) = true ↔ p (.list items) = true ∧ ∀ v ∈ items, everywhere p v = true := by
  change (p _ && everywhereIn p items) = true ↔ _
  rw [Bool.and_eq_true, everywhereIn_iff]

@[simp] theorem everywhere_set {p : ValueOf ν → Bool} {items : List (ValueOf ν)} :
    everywhere p (.set items) = true ↔ p (.set items) = true ∧ ∀ v ∈ items, everywhere p v = true := by
  change (p _ && everywhereIn p items) = true ↔ _
  rw [Bool.and_eq_true, everywhereIn_iff]

@[simp] theorem everywhere_tuple {p : ValueOf ν → Bool} {items : List (ValueOf ν)} :
    everywhere p (.tuple items) = true ↔ p (.tuple items) = true ∧ ∀ v ∈ items, everywhere p v = true := by
  change (p _ && everywhereIn p items) = true ↔ _
  rw [Bool.and_eq_true, everywhereIn_iff]

@[simp] theorem everywhere_map {p : ValueOf ν → Bool} {entries : OrdMap String (ValueOf ν)} :
    everywhere p (.map entries) = true ↔
      p (.map entries) = true ∧ ∀ k v, entries.get? k = some v → everywhere p v = true := by
  change (p _ && everywhereInFields p entries) = true ↔ _
  rw [Bool.and_eq_true, everywhereInFields_iff]

@[simp] theorem everywhere_object {p : ValueOf ν → Bool} {fields : OrdMap String (ValueOf ν)} :
    everywhere p (.object fields) = true ↔
      p (.object fields) = true ∧ ∀ k v, fields.get? k = some v → everywhere p v = true := by
  change (p _ && everywhereInFields p fields) = true ↔ _
  rw [Bool.and_eq_true, everywhereInFields_iff]

@[simp] theorem everywhere_number {p : ValueOf ν → Bool} {n : ν} :
    everywhere p (.number n) = p (.number n) := Bool.and_true _

def everyNumber (p : ν → Bool) (v : ValueOf ν) : Bool := v.everywhere fun
  | .number n => p n
  | _ => true

theorem map_eq_map_iff {f g : ν → μ} {p : ν → Bool} {items : List (ValueOf ν)}
    (h : ∀ v ∈ items, (mapNumber f v = mapNumber g v ↔ everyNumber p v = true)) :
    items.map (mapNumber f) = items.map (mapNumber g) ↔ ∀ v ∈ items, everyNumber p v = true := by
  rw [List.map_inj_left]
  exact forall₂_congr h

theorem mapFields_eq_map_iff {f g : ν → μ} {p : ν → Bool} {fields : OrdMap String (ValueOf ν)}
    (h : ∀ k v, fields.get? k = some v → (mapNumber f v = mapNumber g v ↔ everyNumber p v = true)) :
    fields.map (mapNumber f) = fields.map (mapNumber g) ↔
      ∀ k v, fields.get? k = some v → everyNumber p v = true := by
  constructor
  · intro he k v hv
    rw [← h k v hv]
    have hk := congrArg (OrdMap.get? · k) he
    simpa [hv] using hk
  · intro hall
    apply OrdMap.ext_get?
    intro k
    rw [OrdMap.get?_map, OrdMap.get?_map]
    cases hv : fields.get? k with
    | none => rfl
    | some v => rw [Option.map_some, Option.map_some, (h k v hv).mpr (hall k v hv)]

/-- Two readings of the numbers of a tree agree on the tree exactly when they
agree on each number in it. -/
theorem mapNumber_eq_iff {f g : ν → μ} {p : ν → Bool} (h : ∀ n, f n = g n ↔ p n = true)
    (v : ValueOf ν) : mapNumber f v = mapNumber g v ↔ everyNumber p v = true := by
  induction v using ValueOf.induct with
  | null | unknown | bool b | string s => simp [mapNumber, everyNumber, everywhere]
  | number n => simpa [mapNumber, everyNumber] using h n
  | list items ih | set items ih | tuple items ih =>
      simpa [mapNumber, mapNumbers_eq_map, everyNumber] using map_eq_map_iff ih
  | map fields ih | object fields ih =>
      simpa [mapNumber, mapNumberFields_eq_map, everyNumber] using mapFields_eq_map_iff ih

theorem mapNumber_mapNumber {ξ : Type} (f : μ → ξ) (g : ν → μ) (v : ValueOf ν) :
    mapNumber f (mapNumber g v) = mapNumber (fun n => f (g n)) v := by
  induction v using ValueOf.induct with
  | null | unknown | bool b | string s | number n => rfl
  | list items ih | set items ih | tuple items ih =>
      simpa [mapNumber, mapNumbers_eq_map, Function.comp_def] using ih
  | map fields ih | object fields ih =>
      simp only [mapNumber, mapNumberFields_eq_map]
      congr 1
      apply OrdMap.ext_get?
      intro k
      simp only [OrdMap.get?_map, Option.map_map]
      cases hv : fields.get? k with
      | none => rfl
      | some v => simpa using ih k v hv

end ValueOf

namespace Value

open ValueOf

/-- The value with every number read as the rational it stands for. Two values
are mathematically equal when these trees are the same. -/
def exact (v : Value) : ValueOf ExtRat := v.mapNumber Number.exact

@[simp] theorem exact_null : exact .null = .null := rfl

@[simp] theorem exact_unknown : exact .unknown = .unknown := rfl

@[simp] theorem exact_bool (b : Bool) : exact (.bool b) = .bool b := rfl

@[simp] theorem exact_number (n : Number) : exact (.number n) = .number n.exact := rfl

@[simp] theorem exact_string (s : String) : exact (.string s) = .string s := rfl

@[simp] theorem exact_list (items : List Value) : exact (.list items) = .list (items.map exact) :=
  congrArg ValueOf.list (mapNumbers_eq_map _ _)

@[simp] theorem exact_set (items : List Value) : exact (.set items) = .set (items.map exact) :=
  congrArg ValueOf.set (mapNumbers_eq_map _ _)

@[simp] theorem exact_tuple (items : List Value) : exact (.tuple items) = .tuple (items.map exact) :=
  congrArg ValueOf.tuple (mapNumbers_eq_map _ _)

@[simp] theorem exact_map (entries : Fields) : exact (.map entries) = .map (entries.map exact) :=
  congrArg ValueOf.map (mapNumberFields_eq_map _ _)

@[simp] theorem exact_object (fields : Fields) : exact (.object fields) = .object (fields.map exact) :=
  congrArg ValueOf.object (mapNumberFields_eq_map _ _)

mutual

/-- The derived `PartialEq`, node by node. -/
def eq (v w : Value) : Bool :=
  match v, w with
  | .null, .null => true
  | .unknown, .unknown => true
  | .bool b, .bool c => b == c
  | .number m, .number n => m.eq n
  | .string s, .string t => s == t
  | .list xs, .list ys => eqAll xs ys
  | .set xs, .set ys => eqAll xs ys
  | .map xs, .map ys => eqFields xs ys
  | .object xs, .object ys => eqFields xs ys
  | .tuple xs, .tuple ys => eqAll xs ys
  | _, _ => false
termination_by structural v

def eqAll (xs ys : List Value) : Bool :=
  match xs, ys with
  | [], [] => true
  | x :: xs, y :: ys => eq x y && eqAll xs ys
  | _, _ => false
termination_by structural xs

def eqFields (xs ys : Fields) : Bool :=
  match xs with
  | ⟨keys, _, val⟩ =>
      keys == ys.keys && (List.finRange keys.length).all fun i =>
        match ys.get? (keys.get i) with
        | some y => eq (val i) y
        | none => false
termination_by structural xs

end

theorem eqAll_iff {xs ys : List Value} :
    eqAll xs ys = true ↔ List.Forall₂ (fun x y => eq x y = true) xs ys := by
  induction xs generalizing ys with
  | nil => cases ys <;> simp [eqAll]
  | cons x xs ih => cases ys <;> simp [eqAll, ih]

theorem eqFields_iff {xs ys : Fields} :
    eqFields xs ys = true ↔ xs.keys = ys.keys ∧
      ∀ k x, xs.get? k = some x → ∀ y, ys.get? k = some y → eq x y = true := by
  rw [← OrdMap.forall_val (P := fun k x => ∀ y, ys.get? k = some y → eq x y = true)]
  obtain ⟨keys, sorted, val⟩ := xs
  simp only [eqFields, Bool.and_eq_true, beq_iff_eq, List.all_eq_true, List.mem_finRange, true_implies]
  refine and_congr_right fun hk => forall_congr' fun i => ?_
  have hmem : keys.get i ∈ ys.keys := hk ▸ List.get_mem keys i
  obtain ⟨y, hy⟩ := Option.isSome_iff_exists.mp (OrdMap.get?_isSome.mpr hmem)
  simp only [hy, Option.some.injEq, forall_eq']

theorem eqAll_comm {xs ys : List Value} (h : ∀ x ∈ xs, ∀ y, eq x y = eq y x) : eqAll xs ys = eqAll ys xs := by
  induction xs generalizing ys with
  | nil => cases ys <;> rfl
  | cons x xs ih =>
      cases ys with
      | nil => rfl
      | cons y ys => rw [eqAll, eqAll, h x (by simp) y, ih fun x hx => h x (by simp [hx])]

theorem eqFields_comm {xs ys : Fields} (h : ∀ k x, xs.get? k = some x → ∀ y, eq x y = eq y x) :
    eqFields xs ys = eqFields ys xs := by
  rw [Bool.eq_iff_iff, eqFields_iff, eqFields_iff]
  constructor
  · rintro ⟨hkeys, hall⟩
    exact ⟨hkeys.symm, fun k y hy x hx => by rw [← h k x hx]; exact hall k x hx y hy⟩
  · rintro ⟨hkeys, hall⟩
    exact ⟨hkeys.symm, fun k x hx y hy => by rw [h k x hx]; exact hall k y hy x hx⟩

theorem eq_comm (v w : Value) : eq v w = eq w v := by
  induction v using ValueOf.induct generalizing w with
  | null | unknown | bool | string => cases w <;> simp [eq, BEq.comm]
  | number n =>
      cases w with
      | number m => exact Number.eq_comm n m
      | _ => rfl
  | list items ih | set items ih | tuple items ih =>
      cases w <;> first | rfl | exact eqAll_comm fun x hx => ih x hx
  | map fields ih | object fields ih =>
      cases w <;> first | rfl | exact eqFields_comm fun k x hx => ih k x hx

def isWhollyKnown (v : Value) : Bool := v.everywhere fun w => !w.isUnknown

def isNaNFree (v : Value) : Bool := v.everyNumber fun n => !n.isNaN

theorem map_exact_eq_iff {xs ys : List Value}
    (h : ∀ x ∈ xs, ∀ y ∈ ys, (eq x y = true ↔ x.exact = y.exact)) :
    eqAll xs ys = true ↔ xs.map exact = ys.map exact := by
  rw [eqAll_iff, ← List.forall₂_eq_eq_eq, List.forall₂_map_left_iff, List.forall₂_map_right_iff]
  induction xs generalizing ys with
  | nil => cases ys <;> simp
  | cons x xs ih =>
      cases ys with
      | nil => simp
      | cons y ys =>
          rw [List.forall₂_cons, List.forall₂_cons, h x (by simp) y (by simp),
            ih fun x hx y hy => h x (by simp [hx]) y (by simp [hy])]

theorem mapFields_exact_eq_iff {xs ys : Fields}
    (h : ∀ k x, xs.get? k = some x → ∀ y, ys.get? k = some y → (eq x y = true ↔ x.exact = y.exact)) :
    eqFields xs ys = true ↔ xs.map exact = ys.map exact := by
  rw [eqFields_iff]
  constructor
  · rintro ⟨hk, hv⟩
    apply OrdMap.ext_get?
    intro k
    rw [OrdMap.get?_map, OrdMap.get?_map]
    have hiff : (xs.get? k).isSome ↔ (ys.get? k).isSome := by
      rw [OrdMap.get?_isSome, OrdMap.get?_isSome, hk]
    cases hx : xs.get? k with
    | none =>
        cases hy : ys.get? k with
        | none => rfl
        | some y => simp [hx, hy] at hiff
    | some x =>
        cases hy : ys.get? k with
        | none => simp [hx, hy] at hiff
        | some y => simp [(h k x hx y hy).mp (hv k x hx y hy)]
  · intro he
    have hkeys : (xs.map exact).keys = (ys.map exact).keys := congrArg OrdMap.keys he
    refine ⟨hkeys, fun k x hx y hy => (h k x hx y hy).mpr ?_⟩
    have hk := congrArg (fun m => m.get? k) he
    simpa [hx, hy] using hk

theorem eq_iff_exact {v w : Value} (hv : v.isNaNFree = true) (hw : w.isNaNFree = true) :
    eq v w = true ↔ v.exact = w.exact := by
  rw [isNaNFree, everyNumber] at hv hw
  induction v using ValueOf.induct generalizing w with
  | null | unknown | bool | string => cases w <;> simp [eq]
  | number n =>
      cases w with
      | number m => simpa [eq] using Number.eq_iff_exact (by simpa using hv) (by simpa using hw)
      | _ => simp [eq]
  | list items ih | set items ih | tuple items ih =>
      cases w <;> simp only [eq, exact_null, exact_unknown, exact_bool, exact_number, exact_string,
        exact_list, exact_set, exact_map, exact_object, exact_tuple, reduceCtorEq, Bool.false_eq_true]
      simp only [everywhere_list, everywhere_set, everywhere_tuple, true_and] at hv hw
      simp only [ValueOf.list.injEq, ValueOf.set.injEq, ValueOf.tuple.injEq]
      exact map_exact_eq_iff fun x hx y hy => ih x hx (hv x hx) (hw y hy)
  | map fields ih | object fields ih =>
      cases w <;> simp only [eq, exact_null, exact_unknown, exact_bool, exact_number, exact_string,
        exact_list, exact_set, exact_map, exact_object, exact_tuple, reduceCtorEq, Bool.false_eq_true]
      simp only [everywhere_map, everywhere_object, true_and] at hv hw
      simp only [ValueOf.map.injEq, ValueOf.object.injEq]
      exact mapFields_exact_eq_iff fun k x hx y hy => ih k x hx (hv k x hx) (hw k y hy)

theorem exists_eq_of_mem {xs ys : List Value} (h : eqAll xs ys = true) {x : Value} (hx : x ∈ xs) :
    ∃ y, eq x y = true := by
  obtain ⟨i, hi, rfl⟩ := List.getElem_of_mem hx
  have hall := eqAll_iff.mp h
  exact ⟨ys.get ⟨i, hall.length_eq ▸ hi⟩, hall.get hi (hall.length_eq ▸ hi)⟩

theorem isNaNFree_of_eq {v w : Value} (h : eq v w = true) : v.isNaNFree = true := by
  rw [isNaNFree, everyNumber]
  induction v using ValueOf.induct generalizing w with
  | null | unknown | bool | string => rfl
  | number n =>
      cases w with
      | number m => simpa using Number.isNaN_of_eq h
      | _ => cases h
  | list items ih | set items ih | tuple items ih =>
      simp only [everywhere_list, everywhere_set, everywhere_tuple, true_and]
      intro x hx
      cases w <;> first | cases h | skip
      rename_i others
      obtain ⟨y, hy⟩ := exists_eq_of_mem h hx
      exact ih x hx hy
  | map fields ih | object fields ih =>
      simp only [everywhere_map, everywhere_object, true_and]
      intro k x hx
      cases w <;> first | cases h | skip
      rename_i others
      obtain ⟨hkeys, hall⟩ := eqFields_iff.mp h
      obtain ⟨y, hy⟩ := OrdMap.exists_of_keys_eq hkeys hx
      exact ih k x hx (hall k x hx y hy)

theorem eq_self_iff {v : Value} : eq v v = true ↔ v.isNaNFree = true :=
  ⟨isNaNFree_of_eq, fun h => (eq_iff_exact h h).mpr rfl⟩

theorem objects_or_not (v w : Value) : (∃ fields fields', v = .object fields ∧ w = .object fields') ∨
    ∀ fields fields', v = .object fields → w = .object fields' → False := by
  by_cases h : ∃ fields fields', v = .object fields ∧ w = .object fields'
  · exact .inl h
  · exact .inr fun fields fields' hv hw => h ⟨fields, fields', hv, hw⟩

end Value

end TofuSdk
