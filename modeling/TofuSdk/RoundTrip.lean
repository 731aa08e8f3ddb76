import TofuSdk.Codable
import TofuSdk.FloatCast
import Mathlib.Data.List.Perm.Basic

namespace TofuSdk

open ValueOf

/-- Filled with the items that are read from it, a collection is built again. -/
def Collection.Rebuilds {α γ : Type} (collection : Collection α γ) : Prop :=
  ∀ c, collection.build (collection.iter c) = .ok c

/-- A map has its keys once, and is built again from its entries in any order. -/
structure Collection.Keyed {κ α γ : Type} (collection : Collection (κ × α) γ) : Prop where
  nodup : ∀ c, ((collection.iter c).map Prod.fst).Nodup
  rebuilds : ∀ c entries, entries.Perm (collection.iter c) → collection.build entries = .ok c

def ScalarType.isFinite {α : Type} (scalar : ScalarType α) (a : α) : Bool :=
  match scalar, a with
  | .f64, f => BinaryFloat.isFinite f
  | .f32, f => BinaryFloat.isFinite f
  | _, _ => true

namespace Shape

mutual

/-- Codable scalars, collections that are built again from what they hold,
structs of distinct names, and no nullable wrapper directly inside another. -/
def Plain {α : Type} (shape : Shape α) : Prop :=
  match shape with
  | .scalar kind => kind.codable = true
  | .option t => t.isNullable = false ∧ Plain t
  | .list elem collection => collection.Rebuilds ∧ Plain elem
  | .set elem collection => collection.Rebuilds ∧ Plain elem
  | .map key val collection => key.isOwnedString = true ∧ collection.Keyed ∧ Plain val
  | .struct fields => fields.keys.Nodup ∧ PlainFields fields
  | .tfValue known => known.isNullable = false ∧ Plain known
  | .proxy _ _ _ | .formatProxy _ | .other _ => False
termination_by structural shape

def PlainFields {φ : Type} (fields : StructFields φ) : Prop :=
  match fields with
  | .nil => True
  | .cons _ shape rest => Plain shape ∧ PlainFields rest
termination_by structural fields

end

mutual

/-- Every float of a model value is finite. -/
def FiniteIn {α : Type} (shape : Shape α) (a : α) : Prop :=
  match shape, a with
  | .scalar kind, a => kind.isFinite a = true
  | .option _, none => True
  | .option t, some a => FiniteIn t a
  | .list elem collection, c => ∀ a ∈ collection.iter c, FiniteIn elem a
  | .set elem collection, c => ∀ a ∈ collection.iter c, FiniteIn elem a
  | .map _ val collection, c => ∀ entry ∈ collection.iter c, FiniteIn val entry.2
  | .struct fields, as => FiniteFields fields as
  | .tfValue known, .known a => FiniteIn known a
  | .tfValue _, .unknown => True
  | .tfValue _, .null => True
  | .proxy _ _ _, _ => True
  | .formatProxy _, _ => True
  | .other _, _ => True
termination_by structural shape

def FiniteFields {φ : Type} (fields : StructFields φ) (as : φ) : Prop :=
  match fields, as with
  | .nil, _ => True
  | .cons _ shape rest, (a, as) => FiniteIn shape a ∧ FiniteFields rest as
termination_by structural fields

end

/-- A value is written as one that reads back as it, and as one that is there
unless its type is nullable. -/
def Restored {α : Type} (shape : Shape α) (a : α) : Prop :=
  ∃ v, shape.peekToValue a = .ok v ∧ shape.fill v = .ok a ∧
    (shape.isNullable = false → v.isNull = false ∧ v.isUnknown = false)

theorem setScalar_scalarToValue {α : Type} {kind : ScalarType α} (h : kind.codable = true) {a : α}
    (hfinite : kind.isFinite a = true) : ∃ v, scalarToValue kind a = .ok v ∧ setScalar kind v = .ok a ∧
      v.isNull = false ∧ v.isUnknown = false := by
  cases kind with
  | bool | string | f64 | i64 | isize | u64 | usize => exact ⟨_, rfl, rfl, rfl, rfl⟩
  | f32 =>
      refine ⟨_, rfl, congrArg Except.ok ?_, rfl, rfl⟩
      exact BinaryFloat.cast_cast hfinite (by norm_num) (by norm_num) (by norm_num)
  | i8 => exact ⟨_, rfl, congrArg Except.ok (Int8.toInt8_toInt64 a), rfl, rfl⟩
  | i16 => exact ⟨_, rfl, congrArg Except.ok (Int16.toInt16_toInt64 a), rfl, rfl⟩
  | i32 => exact ⟨_, rfl, congrArg Except.ok (Int32.toInt32_toInt64 a), rfl, rfl⟩
  | u8 | u16 | u32 =>
      refine ⟨_, rfl, congrArg Except.ok ?_, rfl, rfl⟩
      simp [asNumber, Number.toU64Lossy]
  | str | cowStr | i128 | u128 | char | unit => cases h

section

variable {α φ : Type}

theorem restored_of_item {elem : Shape α} {items : List α} (h : ∀ a ∈ items, elem.Restored a) :
    ∃ vs, items.mapM elem.peekToValue = .ok vs ∧ vs.mapM elem.fill = .ok items := by
  induction items with
  | nil => exact ⟨[], rfl, rfl⟩
  | cons a items ih =>
      obtain ⟨v, hv, ha, -⟩ := h a (by simp)
      obtain ⟨vs, hvs, hitems⟩ := ih fun a ha => h a (by simp [ha])
      refine ⟨v :: vs, ?_, ?_⟩
      · rw [List.mapM_cons, hv, Outcome.ok_bind, hvs]
        rfl
      · rw [List.mapM_cons, ha, Outcome.ok_bind, hitems]
        rfl

theorem restored_entries {val : Shape α} {entries : List (String × α)}
    (h : ∀ entry ∈ entries, val.Restored entry.2) : ∃ pairs : List (String × Value),
      entries.mapM (fun entry => (fun v => (entry.1, v)) <$> val.peekToValue entry.2) = .ok pairs ∧
        List.Forall₂ (fun pair entry => pair.1 = entry.1 ∧ val.fill pair.2 = .ok entry.2) pairs entries := by
  induction entries with
  | nil => exact ⟨[], rfl, .nil⟩
  | cons entry entries ih =>
      obtain ⟨v, hv, ha, -⟩ := h entry (by simp)
      obtain ⟨pairs, hpairs, hforall⟩ := ih fun entry hentry => h entry (by simp [hentry])
      refine ⟨(entry.1, v) :: pairs, ?_, .cons ⟨rfl, ha⟩ hforall⟩
      rw [List.mapM_cons, hv, Outcome.map_ok, Outcome.ok_bind, hpairs]
      rfl

theorem restored_map {γ : Type} {val : Shape α} {collection : Collection (String × α) γ}
    (hkeyed : collection.Keyed) {c : γ} (h : ∀ entry ∈ collection.iter c, val.Restored entry.2) :
    (Shape.map (.scalar .string) val collection).Restored c := by
  obtain ⟨pairs, hpairs, hforall⟩ := restored_entries h
  have hkeys : pairs.map Prod.fst = (collection.iter c).map Prod.fst := by
    rw [← List.forall₂_eq_eq_eq, List.forall₂_map_left_iff, List.forall₂_map_right_iff]
    exact hforall.imp fun _ _ h => h.1
  have hpeek : (Shape.map (.scalar .string) val collection).peekToValue c = .ok (.map (OrdMap.ofList pairs)) := by
    have hstep : (fun (entries : Fields) (entry : String × α) => do
        let k ← (asStr (.scalar .string) entry.1).elim (.error TypedError.nonStringKey) Except.ok
        let v ← peekToValue val entry.2
        pure (entries.insert k v)) = fun entries entry =>
          (fun v => entries.insert entry.1 v) <$> peekToValue val entry.2 := by
      funext entries entry
      cases hv : peekToValue val entry.2 <;> rfl
    rw [peekToValue, hstep, Outcome.foldlM_insert, hpairs]
    rfl
  obtain ⟨entries, hentries, hperm⟩ := List.perm_comp_forall₂
    (OrdMap.toList_ofList_perm (hkeys ▸ hkeyed.nodup c)) hforall
  refine ⟨_, hpeek, ?_, fun _ => ⟨rfl, rfl⟩⟩
  have hfill : (OrdMap.ofList pairs).toList.mapM (fun entry => do
      let k ← fill (.scalar .string) (.string entry.1)
      let v ← fill val entry.2
      pure (k, v)) = .ok entries := by
    rw [Outcome.mapM_eq_ok]
    refine hentries.imp ?_
    rintro ⟨k, v⟩ ⟨k', a⟩ ⟨rfl, ha⟩
    rw [ha]
    rfl
  rw [fill, mapping, Option.elim_some, hfill, Outcome.ok_bind, hkeyed.rebuilds c entries hperm]
  rfl

theorem restored (shape : Shape α) (h : shape.Plain) (a : α) (hfinite : shape.FiniteIn a) : shape.Restored a := by
  induction shape using Shape.rec (motive_2 := fun _ fields => PlainFields fields → fields.keys.Nodup → ∀ as acc,
      FiniteFields fields as → ∃ out, peekFields fields as acc = .ok out ∧
        (∀ k ∉ fields.keys, out.get? k = acc.get? k) ∧ fillStruct fields (some out) = .ok as) with
  | scalar kind =>
      obtain ⟨v, hv, ha, hnull, hunknown⟩ := setScalar_scalarToValue h hfinite
      exact ⟨v, hv, ha, fun _ => ⟨hnull, hunknown⟩⟩
  | proxy | formatProxy | other => exact h.elim
  | option t ih =>
      cases a with
      | none => exact ⟨.null, rfl, rfl, fun h => by cases h⟩
      | some a =>
          obtain ⟨v, hv, ha, hthere⟩ := ih h.2 a hfinite
          obtain ⟨hnull, hunknown⟩ := hthere h.1
          refine ⟨v, hv, ?_, fun h => by cases h⟩
          rw [fill_option_known t hnull hunknown, ha]
          rfl
  | tfValue t ih =>
      cases a with
      | null => exact ⟨.null, rfl, rfl, fun h => by cases h⟩
      | unknown => exact ⟨.unknown, rfl, rfl, fun h => by cases h⟩
      | known a =>
          obtain ⟨v, hv, ha, hthere⟩ := ih h.2 a hfinite
          obtain ⟨hnull, hunknown⟩ := hthere h.1
          refine ⟨v, hv, ?_, fun h => by cases h⟩
          rw [fill_tfValue_known t hnull hunknown, ha]
          rfl
  | list elem collection ih =>
      obtain ⟨vs, hvs, hitems⟩ := restored_of_item fun item hitem => ih h.2 item (hfinite item hitem)
      refine ⟨.list vs, by rw [peekToValue, hvs, Outcome.map_ok], ?_, fun _ => ⟨rfl, rfl⟩⟩
      rw [fill, sequence, hitems, Outcome.ok_bind, h.1 a]
      rfl
  | set elem collection ih =>
      obtain ⟨vs, hvs, hitems⟩ := restored_of_item fun item hitem => ih h.2 item (hfinite item hitem)
      refine ⟨.set vs, by rw [peekToValue, hvs, Outcome.map_ok], ?_, fun _ => ⟨rfl, rfl⟩⟩
      rw [fill, sequence, hitems, Outcome.ok_bind, h.1 a]
      rfl
  | map key val collection _ ih =>
      obtain ⟨hkey, hkeyed, hval⟩ := h
      unfold isOwnedString at hkey
      split at hkey
      · exact restored_map hkeyed fun entry hentry => ih hval entry.2 (hfinite entry hentry)
      · cases hkey
  | struct fields ih =>
      obtain ⟨out, hout, -, has⟩ := ih h.2 h.1 a OrdMap.empty hfinite
      exact ⟨.object out, by rw [peekToValue, hout, Outcome.map_ok], has, fun _ => ⟨rfl, rfl⟩⟩
  | nil => exact ⟨_, rfl, fun _ _ => rfl, rfl⟩
  | cons field shape rest ih ihs =>
      rename_i h hnodup as acc hfinite
      obtain ⟨hkey, hnodup⟩ := List.nodup_cons.mp hnodup
      obtain ⟨v, hv, ha, -⟩ := ih h.1 as.1 hfinite.1
      obtain ⟨out, hout, hother, has⟩ := ihs h.2 hnodup as.2 (acc.insert field.key v) hfinite.2
      refine ⟨out, by rw [peekFields, hv, Outcome.ok_bind, hout], ?_, ?_⟩
      · intro k hk
        rw [StructFields.keys, List.mem_cons, not_or] at hk
        rw [hother k hk.2, OrdMap.get?_insert_of_ne _ _ hk.1]
      · rw [fillStruct, Option.bind_some, hother field.key hkey, OrdMap.get?_insert_self, Option.getD_some, ha,
          Outcome.ok_bind, has]
        rfl

end

/-- A model value survives the dynamic tree. -/
theorem fill_peekToValue {α : Type} (shape : Shape α) (h : shape.Plain) (m : α) (hfinite : shape.FiniteIn m) :
    ∃ v, shape.peekToValue m = .ok v ∧ shape.fill v = .ok m := by
  obtain ⟨v, hv, hm, -⟩ := restored shape h m hfinite
  exact ⟨v, hv, hm⟩

def treeMap (α : Type) : Collection (String × α) (OrdMap String α) where
  build entries := .ok (.ofList entries)
  iter := OrdMap.toList

theorem keyed_treeMap (α : Type) : (treeMap α).Keyed where
  nodup m := by
    change (m.toList.map Prod.fst).Nodup
    rw [OrdMap.map_fst_toList]
    exact m.keys_nodup
  rebuilds m entries h := by
    have hnodup : (m.toList.map Prod.fst).Nodup := by
      rw [OrdMap.map_fst_toList]
      exact m.keys_nodup
    refine congrArg Except.ok ?_
    rw [OrdMap.ofList_eq_of_mem ((h.map Prod.fst).nodup_iff.mpr hnodup) hnodup fun p => h.mem_iff, OrdMap.ofList_toList]

def disk : Shape (TfValue Int8 × OrdMap String (Option String) × List F32 × Unit) :=
  .struct (.cons { name := "size" } (.tfValue (.scalar .i8))
    (.cons { name := "mounts" } (.map (.scalar .string) (.option (.scalar .string)) (treeMap _))
      (.cons { name := "rates" } (.list (.scalar .f32) (vec F32)) .nil)))

theorem disk_restored :
    ∃ v, disk.peekToValue (.unknown, OrdMap.empty.insert "/" (some "root"), [BinaryFloat.zero], ()) = .ok v ∧
      disk.fill v = .ok (.unknown, OrdMap.empty.insert "/" (some "root"), [BinaryFloat.zero], ()) := by
  apply fill_peekToValue
  · exact ⟨by decide, ⟨rfl, rfl⟩, ⟨rfl, keyed_treeMap _, rfl, rfl⟩, ⟨fun _ => rfl, rfl⟩, trivial⟩
  · refine ⟨trivial, ?_, ?_, trivial⟩
    · intro entry _
      cases entry.2
      · trivial
      · exact rfl
    · intro f hf
      obtain rfl := List.mem_singleton.mp hf
      rfl

end Shape

end TofuSdk
