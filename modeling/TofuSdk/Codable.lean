import TofuSdk.Reflect

namespace TofuSdk

open ValueOf

/-- A collection that may hold any items. -/
structure Collection.Growable {α γ : Type} (collection : Collection α γ) : Prop where
  build : ∀ items, ∃ built, collection.build items = .ok built
  holds : ∀ item, ∃ built, item ∈ collection.iter built

/-- A collection of one length, such as an array. -/
def Collection.Fixed {α γ : Type} (collection : Collection α γ) (n : Nat) : Prop :=
  ∀ items built, collection.build items = .ok built → items.length = n

namespace ScalarType

def range {α : Type} : ScalarType α → Option (Int × Int)
  | .i8 => some (-2 ^ 7, 2 ^ 7 - 1)
  | .i16 => some (-2 ^ 15, 2 ^ 15 - 1)
  | .i32 => some (-2 ^ 31, 2 ^ 31 - 1)
  | .i64 | .isize => some (-2 ^ 63, 2 ^ 63 - 1)
  | .i128 => some (-2 ^ 127, 2 ^ 127 - 1)
  | .u8 => some (0, 2 ^ 8 - 1)
  | .u16 => some (0, 2 ^ 16 - 1)
  | .u32 => some (0, 2 ^ 32 - 1)
  | .u64 | .usize => some (0, 2 ^ 64 - 1)
  | .u128 => some (0, 2 ^ 128 - 1)
  | _ => none

def holdsNumber {α : Type} (scalar : ScalarType α) (n : Number) : Bool :=
  scalar.range.all fun range => n.asIntegral.any fun i => range.1 ≤ i && i ≤ range.2

def codable {α : Type} : ScalarType α → Bool
  | .str | .cowStr | .i128 | .u128 | .char | .unit => false
  | _ => true

end ScalarType

namespace Shape

def isOwnedString {κ : Type} : Shape κ → Bool
  | .scalar .string => true
  | _ => false

mutual

def inRange {α : Type} (shape : Shape α) (value : Value) : Bool :=
  match shape with
  | .scalar kind => match value with
      | .number n => kind.holdsNumber n
      | _ => true
  | .option t => inRange t value
  | .list elem _ => (sequence value).all (inRange elem)
  | .set elem _ => (sequence value).all (inRange elem)
  | .map _ val _ => ((mapping value).elim [] OrdMap.toList).all fun entry => inRange val entry.2
  | .struct fields => fieldsInRange fields (mapping value)
  | .tfValue known => inRange known value
  | .proxy proxied _ _ => inRange proxied value
  | .formatProxy shape => inRange shape value
  | .other _ => true
termination_by structural shape

def fieldsInRange {φ : Type} (fields : StructFields φ) (object : Option Fields) : Bool :=
  match fields with
  | .nil => true
  | .cons field shape rest =>
      inRange shape (((object.bind (·.get? field.key))).getD .null) && fieldsInRange rest object
termination_by structural fields

end

mutual

/-- No type converts through another, and collections hold any items, but for
those of one length. -/
def Documented {α : Type} (shape : Shape α) : Prop :=
  match shape with
  | .scalar _ | .other _ => True
  | .option t => Documented t
  | .list elem collection => (collection.Growable ∨ ∃ n, collection.Fixed n) ∧ Documented elem
  | .set elem collection => collection.Growable ∧ Documented elem
  | .map _ val collection => collection.Growable ∧ Documented val
  | .struct fields => DocumentedFields fields
  | .tfValue known => Documented known
  | .proxy _ _ _ | .formatProxy _ => False
termination_by structural shape

def DocumentedFields {φ : Type} (fields : StructFields φ) : Prop :=
  match fields with
  | .nil => True
  | .cons _ shape rest => Documented shape ∧ DocumentedFields rest
termination_by structural fields

end

mutual

/-- Scalars that are both set and read, owned strings for map keys, and no
collection of one length. -/
def Codable {α : Type} (shape : Shape α) : Prop :=
  match shape with
  | .scalar kind => kind.codable = true
  | .option t => Codable t
  | .list elem collection => collection.Growable ∧ Codable elem
  | .set elem collection => collection.Growable ∧ Codable elem
  | .map key val collection => key.isOwnedString = true ∧ collection.Growable ∧ Codable val
  | .struct fields => CodableFields fields
  | .tfValue known => Codable known
  | .proxy _ _ _ | .formatProxy _ | .other _ => False
termination_by structural shape

def CodableFields {φ : Type} (fields : StructFields φ) : Prop :=
  match fields with
  | .nil => True
  | .cons _ shape rest => Codable shape ∧ CodableFields rest
termination_by structural fields

end

theorem setScalar_ok {α : Type} {scalar : ScalarType α} (h : scalar.codable = true) (value : Value) :
    ∃ a, setScalar scalar value = .ok a := by
  cases scalar <;> first | exact ⟨_, rfl⟩ | cases h

theorem scalarToValue_ok {α : Type} {scalar : ScalarType α} (h : scalar.codable = true) (a : α) :
    ∃ v, scalarToValue scalar a = .ok v := by
  cases scalar <;> first | exact ⟨_, rfl⟩ | cases h

theorem fill_isOwnedString {κ : Type} {key : Shape κ} (h : key.isOwnedString = true) (value : Value) :
    ∃ k, key.fill value = .ok k := by
  unfold isOwnedString at h
  split at h
  · exact ⟨_, rfl⟩
  · cases h

theorem asStr_isOwnedString {κ : Type} {key : Shape κ} (h : key.isOwnedString = true) (k : κ) :
    ∃ s, key.asStr k = some s := by
  unfold isOwnedString at h
  split at h
  · exact ⟨_, rfl⟩
  · cases h

theorem fill_ok {α : Type} (shape : Shape α) (h : shape.Codable) (value : Value) : ∃ a, shape.fill value = .ok a := by
  induction shape using Shape.rec (motive_2 := fun _ fields => CodableFields fields → ∀ object,
      ∃ as, fillStruct fields object = .ok as) generalizing value with
  | scalar kind => exact setScalar_ok h value
  | proxy | formatProxy | other => exact h.elim
  | option t ih =>
      obtain ⟨a, ha⟩ := ih h value
      cases value with
      | null | unknown => exact ⟨none, rfl⟩
      | _ => exact ⟨some a, by rw [fill, ha, Outcome.map_ok]; all_goals simp⟩
  | tfValue known ih =>
      obtain ⟨a, ha⟩ := ih h value
      cases value with
      | null => exact ⟨.null, rfl⟩
      | unknown => exact ⟨.unknown, rfl⟩
      | _ => exact ⟨.known a, by rw [fill, ha, Outcome.map_ok]; all_goals simp⟩
  | list elem collection ih | set elem collection ih =>
      obtain ⟨items, hitems⟩ : ∃ items, (sequence value).mapM elem.fill = .ok items :=
        Outcome.mapM_exists fun v _ => ih h.2 v
      obtain ⟨built, hbuilt⟩ := h.1.build items
      exact ⟨built, by rw [fill, hitems, Outcome.ok_bind, hbuilt]; rfl⟩
  | map key val collection _ ih =>
      obtain ⟨hkey, hgrow, hval⟩ := h
      have hentry : ∀ entry ∈ (mapping value).elim [] OrdMap.toList, ∃ item, (do
          let k ← fill key (.string entry.1)
          let v ← fill val entry.2
          pure (k, v)) = .ok item := by
        intro entry _
        obtain ⟨k, hk⟩ := fill_isOwnedString hkey (.string entry.1)
        obtain ⟨v, hv⟩ := ih hval entry.2
        exact ⟨(k, v), by rw [hk, Outcome.ok_bind, hv]; rfl⟩
      obtain ⟨entries, hentries⟩ := Outcome.mapM_exists hentry
      obtain ⟨built, hbuilt⟩ := hgrow.build entries
      exact ⟨built, by rw [fill, hentries, Outcome.ok_bind, hbuilt]; rfl⟩
  | struct fields ih => exact ih h (mapping value)
  | nil => exact ⟨(), rfl⟩
  | cons field shape rest ih ihs =>
      rename_i h object
      obtain ⟨a, ha⟩ := ih h.1 ((object.bind (·.get? field.key)).getD .null)
      obtain ⟨as, has⟩ := ihs h.2 object
      exact ⟨(a, as), by rw [fillStruct, ha, Outcome.ok_bind, has]; rfl⟩

theorem peekToValue_ok {α : Type} (shape : Shape α) (h : shape.Codable) (a : α) :
    ∃ v, shape.peekToValue a = .ok v := by
  induction shape using Shape.rec (motive_2 := fun _ fields => CodableFields fields → ∀ as acc,
      ∃ out, peekFields fields as acc = .ok out) with
  | scalar kind => exact scalarToValue_ok h a
  | proxy | formatProxy | other => exact h.elim
  | option t ih =>
      cases a with
      | none => exact ⟨.null, rfl⟩
      | some a => exact ih h a
  | tfValue known ih =>
      cases a with
      | known a => exact ih h a
      | unknown => exact ⟨.unknown, rfl⟩
      | null => exact ⟨.null, rfl⟩
  | list elem collection ih | set elem collection ih =>
      obtain ⟨vs, hvs⟩ : ∃ vs, (collection.iter a).mapM elem.peekToValue = .ok vs :=
        Outcome.mapM_exists fun a _ => ih h.2 a
      exact ⟨_, by rw [peekToValue, hvs, Outcome.map_ok]⟩
  | map key val collection _ ih =>
      obtain ⟨hkey, -, hval⟩ := h
      have hentry : ∀ entries : Fields, ∀ entry ∈ collection.iter a, ∃ next, (do
          let k ← (key.asStr entry.1).elim (.error .nonStringKey) .ok
          let v ← peekToValue val entry.2
          pure (entries.insert k v) : Except TypedError Fields) = .ok next := by
        intro entries entry _
        obtain ⟨k, hk⟩ := asStr_isOwnedString hkey entry.1
        obtain ⟨v, hv⟩ := ih hval entry.2
        exact ⟨entries.insert k v, by rw [hk, Option.elim_some, Outcome.ok_bind, hv]; rfl⟩
      obtain ⟨out, hout⟩ := Outcome.foldlM_exists hentry OrdMap.empty
      exact ⟨.map out, by rw [peekToValue, hout, Outcome.map_ok]⟩
  | struct fields ih =>
      obtain ⟨out, hout⟩ := ih h a OrdMap.empty
      exact ⟨.object out, by rw [peekToValue, hout, Outcome.map_ok]⟩
  | nil => exact ⟨_, rfl⟩
  | cons field shape rest ih ihs =>
      rename_i h as acc
      obtain ⟨v, hv⟩ := ih h.1 as.1
      obtain ⟨out, hout⟩ := ihs h.2 as.2 (acc.insert field.key v)
      exact ⟨out, by rw [peekFields, hv, Outcome.ok_bind, hout]⟩

theorem toMp_scalarToValue {crates : Crates} {α : Type} {scalar : ScalarType α} {a : α} {v : Value} {ty : Ty}
    (hty : scalar.ty = some ty) (hv : scalarToValue scalar a = .ok v) : ∃ mp, toMp crates v ty = .ok mp := by
  have hwide : ∀ n, ∃ m, wideIntToValue n = .number m := by
    intro n
    rw [wideIntToValue]
    split_ifs <;> exact ⟨_, rfl⟩
  cases scalar <;> cases hty <;> cases hv
  case i128 =>
    obtain ⟨m, hm⟩ := hwide (BitVec.toInt a)
    exact ⟨_, by rw [hm]; rfl⟩
  case u128 => split_ifs <;> exact ⟨_, rfl⟩
  all_goals exact ⟨_, rfl⟩

theorem toMp_peekToValue {crates : Crates} {α : Type} (shape : Shape α) (hd : shape.distinctNames = true)
    {path : String} {ty : Ty} (hty : shape.mapType path = .ok ty) {a : α} {v : Value}
    (hv : shape.peekToValue a = .ok v) : ∃ mp, toMp crates v ty = .ok mp := by
  induction shape using Shape.rec (motive_2 := fun _ fields => fields.keys.Nodup → distinctFields fields = true →
      ∀ path attrs, objectType fields path = .ok attrs → ∀ as acc out, peekFields fields as acc = .ok out →
        (∀ attr ∈ attrs, ∃ mp, toMp crates ((out.get? attr.name).getD .null) attr.ty = .ok mp) ∧
          ∀ k ∉ fields.keys, out.get? k = acc.get? k) generalizing path ty v with
  | scalar kind =>
      rw [mapType] at hty
      cases hkind : kind.ty with
      | none => simp [hkind] at hty
      | some ty' =>
          rw [hkind] at hty
          obtain rfl := Except.ok.inj hty
          exact toMp_scalarToValue hkind hv
  | other => cases hty
  | option t ih =>
      cases a with
      | none =>
          obtain rfl := Except.ok.inj hv
          exact ⟨.nil, rfl⟩
      | some a => exact ih hd hty hv
  | tfValue known ih =>
      cases a with
      | known a => exact ih hd hty hv
      | unknown =>
          obtain rfl := Except.ok.inj hv
          exact ⟨.ext 0 [0], rfl⟩
      | null =>
          obtain rfl := Except.ok.inj hv
          exact ⟨.nil, rfl⟩
  | proxy proxied _ _ ih =>
      obtain ⟨p, -, hv⟩ := Outcome.bind_eq_ok.mp hv
      exact ih hd hty hv
  | formatProxy shape ih => exact ih hd hty hv
  | list elem collection ih =>
      obtain ⟨ty, helem, rfl⟩ := Outcome.map_eq_ok.mp hty
      obtain ⟨vs, hvs, rfl⟩ := Outcome.map_eq_ok.mp hv
      apply exists_toMp_list.mpr
      intro v hmem
      obtain ⟨a, -, ha⟩ := Outcome.exists_of_mem_results hvs v hmem
      exact ih hd helem ha
  | set elem collection ih =>
      obtain ⟨ty, helem, rfl⟩ := Outcome.map_eq_ok.mp hty
      obtain ⟨vs, hvs, rfl⟩ := Outcome.map_eq_ok.mp hv
      apply exists_toMp_set.mpr
      intro v hmem
      obtain ⟨a, -, ha⟩ := Outcome.exists_of_mem_results hvs v hmem
      exact ih hd helem ha
  | map key val collection _ ih =>
      rw [mapType] at hty
      split_ifs at hty
      obtain ⟨ty, hval, rfl⟩ := Outcome.map_eq_ok.mp hty
      obtain ⟨out, hout, rfl⟩ := Outcome.map_eq_ok.mp hv
      apply exists_toMp_map.mpr
      refine Outcome.foldlM_invariant (P := fun entries : Fields => ∀ k w, entries.get? k = some w →
        ∃ mp, toMp crates w ty = .ok mp) ?_ (fun k w h => by cases h) hout
      intro entries entry _ hentries next hnext k w hw
      obtain ⟨k', -, hnext⟩ := Outcome.bind_eq_ok.mp hnext
      obtain ⟨w', hw', hnext⟩ := Outcome.bind_eq_ok.mp hnext
      obtain rfl := Except.ok.inj hnext
      rw [OrdMap.get?_insert] at hw
      split_ifs at hw
      · obtain rfl := Option.some.inj hw
        exact ih hd hval hw'
      · exact hentries k w hw
  | struct fields ih =>
      obtain ⟨attrs, hattrs, rfl⟩ := Outcome.map_eq_ok.mp hty
      obtain ⟨out, hout, rfl⟩ := Outcome.map_eq_ok.mp hv
      obtain ⟨hnodup, hfields⟩ := Bool.and_eq_true _ _ ▸ hd
      obtain ⟨hmembers, -⟩ := ih (of_decide_eq_true hnodup) hfields path attrs hattrs a OrdMap.empty out hout
      exact exists_toMp_object.mpr hmembers
  | nil =>
      rename_i path attrs hattrs as acc out hout
      obtain rfl := Except.ok.inj hattrs
      obtain rfl := Except.ok.inj hout
      exact ⟨by simp, fun _ _ => rfl⟩
  | cons field shape rest ih ihs =>
      rename_i hnodup hdistinct path attrs hattrs as acc out hout
      obtain ⟨hkey, hnodup⟩ := List.nodup_cons.mp hnodup
      obtain ⟨hshape, hrest⟩ := Bool.and_eq_true _ _ ▸ hdistinct
      obtain ⟨ty, hty, hattrs⟩ := Outcome.bind_eq_ok.mp hattrs
      obtain ⟨attrs', hattrs', hattrs⟩ := Outcome.bind_eq_ok.mp hattrs
      obtain rfl := Except.ok.inj hattrs
      obtain ⟨v, hv, hout⟩ := Outcome.bind_eq_ok.mp hout
      obtain ⟨hmembers, hother⟩ := ihs hnodup hrest path attrs' hattrs' as.2 _ out hout
      constructor
      · rw [List.forall_mem_cons]
        refine ⟨?_, hmembers⟩
        rw [hother field.key hkey, OrdMap.get?_insert_self]
        exact ih hshape hty hv
      · intro k hk
        rw [StructFields.keys, List.mem_cons, not_or] at hk
        rw [hother k hk.2, OrdMap.get?_insert_of_ne _ _ hk.1]

/-- A value of a type that a shape does not accept. -/
structure Rejected {α : Type} (shape : Shape α) (ty : Ty) (v : Value) : Prop where
  notNull : v.isNull = false
  notUnknown : v.isUnknown = false
  conforms : Conforms ty v
  inRange : shape.inRange v = true
  rejected : ∀ a, shape.fill v ≠ .ok a

structure RejectedFields {φ : Type} (fields : StructFields φ) (attrs : List ObjectAttr) (object : Fields) : Prop where
  keys : ∀ k ∈ object.keys, k ∈ fields.keys
  conforms : ∀ attr ∈ attrs, Conforms attr.ty ((object.get? attr.name).getD .null)
  inRange : fieldsInRange fields (some object) = true
  rejected : ∀ as, fillStruct fields (some object) ≠ .ok as

def Unwritten {α : Type} (shape : Shape α) (a : α) : Prop := ∀ v, shape.peekToValue a ≠ .ok v

theorem inRange_null {α : Type} (shape : Shape α) : shape.inRange .null = true := by
  induction shape using Shape.rec (motive_2 := fun _ fields => ∀ object : Option Fields,
      (∀ k ∈ fields.keys, object.bind (·.get? k) = none) → fieldsInRange fields object = true) with
  | scalar | other | list | set | map => rfl
  | option _ ih | tfValue _ ih | proxy _ _ _ ih | formatProxy _ ih => exact ih
  | struct fields ih => exact ih none fun _ _ => rfl
  | nil => rfl
  | cons field shape rest ih ihs =>
      rename_i object hobject
      rw [fieldsInRange, hobject field.key List.mem_cons_self, Option.getD_none, ih, Bool.true_and]
      exact ihs object fun k hk => hobject k (List.mem_cons_of_mem _ hk)

theorem fieldsInRange_absent {φ : Type} (fields : StructFields φ) {object : Fields}
    (h : ∀ k ∈ fields.keys, object.get? k = none) : fieldsInRange fields (some object) = true := by
  induction fields using StructFields.rec (motive_1 := fun _ _ => True) with
  | nil => rfl
  | cons field shape rest _ ihs =>
      rw [fieldsInRange, Option.bind_some, h field.key List.mem_cons_self, Option.getD_none, inRange_null,
        Bool.true_and]
      exact ihs fun k hk => h k (List.mem_cons_of_mem _ hk)
  | _ => trivial

theorem objectType_names {φ : Type} (fields : StructFields φ) {path : String} {attrs : List ObjectAttr}
    (h : objectType fields path = .ok attrs) : attrs.map (·.name) = fields.keys := by
  induction fields using StructFields.rec (motive_1 := fun _ _ => True) generalizing attrs with
  | nil =>
      obtain rfl := Except.ok.inj h
      rfl
  | cons field shape rest _ ihs =>
      obtain ⟨ty, -, h⟩ := Outcome.bind_eq_ok.mp h
      obtain ⟨attrs', hattrs, h⟩ := Outcome.bind_eq_ok.mp h
      obtain rfl := Except.ok.inj h
      rw [List.map_cons, ihs hattrs, StructFields.keys]
  | _ => trivial

theorem scalar_rejected_or_unwritten {α : Type} {scalar : ScalarType α} {ty : Ty} (hty : scalar.ty = some ty)
    (h : scalar.codable = false) :
    (∃ v, (Shape.scalar scalar).Rejected ty v) ∨ ∃ a, (Shape.scalar scalar).Unwritten a := by
  cases scalar with
  | str | char =>
      obtain rfl := Option.some.inj hty
      exact .inl ⟨.string "", rfl, rfl, .string "", rfl, fun _ h => by cases h⟩
  | i128 | u128 =>
      obtain rfl := Option.some.inj hty
      exact .inl ⟨.number (.i64 0), rfl, rfl, .number _ rfl, by decide, fun _ h => by cases h⟩
  | unit => exact .inr ⟨(), fun _ h => by cases h⟩
  | cowStr => cases hty
  | _ => cases h

section

variable {α φ : Type} {field : Field} {shape : Shape α} {rest : StructFields φ} {attr : ObjectAttr}
  {attrs : List ObjectAttr} {object : Fields}

theorem RejectedFields.here (hname : attr.name = field.key) (hnames : attrs.map (·.name) = rest.keys)
    (hkey : field.key ∉ rest.keys) {v : Value} (h : shape.Rejected attr.ty v) :
    RejectedFields (.cons field shape rest) (attr :: attrs) (OrdMap.empty.insert field.key v) where
  keys k hk := by
    by_contra hne
    rw [StructFields.keys, List.mem_cons, not_or] at hne
    rw [← OrdMap.get?_isSome, OrdMap.get?_insert_of_ne _ _ hne.1] at hk
    cases hk
  conforms := by
    rw [List.forall_mem_cons, hname, OrdMap.get?_insert_self]
    refine ⟨h.conforms, fun attr' ha' => ?_⟩
    have hne : attr'.name ≠ field.key := fun heq => hkey (heq ▸ hnames ▸ List.mem_map_of_mem ha')
    rw [OrdMap.get?_insert_of_ne _ _ hne]
    exact .null attr'.ty
  inRange := by
    rw [fieldsInRange, Option.bind_some, OrdMap.get?_insert_self, Option.getD_some, h.inRange, Bool.true_and]
    refine fieldsInRange_absent rest fun k hk => ?_
    have hne : k ≠ field.key := fun heq => hkey (heq ▸ hk)
    rw [OrdMap.get?_insert_of_ne _ _ hne, OrdMap.get?_empty]
  rejected as has := by
    obtain ⟨a, ha, -⟩ := Outcome.bind_eq_ok.mp has
    rw [Option.bind_some, OrdMap.get?_insert_self] at ha
    exact h.rejected a ha

theorem RejectedFields.there (hname : attr.name = field.key) (hkey : field.key ∉ rest.keys)
    (h : RejectedFields rest attrs object) : RejectedFields (.cons field shape rest) (attr :: attrs) object := by
  have habsent : object.get? field.key = none := OrdMap.get?_eq_none_iff.mpr fun hk => hkey (h.keys _ hk)
  refine ⟨fun k hk => List.mem_cons_of_mem _ (h.keys k hk), ?_, ?_, fun as has => ?_⟩
  · rw [List.forall_mem_cons, hname, habsent]
    exact ⟨.null attr.ty, h.conforms⟩
  · rw [fieldsInRange, Option.bind_some, habsent, Option.getD_none, inRange_null, Bool.true_and]
    exact h.inRange
  · obtain ⟨a, -, has⟩ := Outcome.bind_eq_ok.mp has
    obtain ⟨as', has', -⟩ := Outcome.bind_eq_ok.mp has
    exact h.rejected as' has'

theorem RejectedFields.empty {fields : StructFields φ} (h : ∀ as, fillStruct fields (some OrdMap.empty) ≠ .ok as) :
    RejectedFields fields attrs OrdMap.empty :=
  ⟨fun _ hk => (nomatch hk), fun attr _ => .null attr.ty, fieldsInRange_absent fields fun _ _ => rfl, h⟩

end

theorem fill_option_known {α : Type} (t : Shape α) {v : Value} (hn : v.isNull = false) (hu : v.isUnknown = false) :
    t.option.fill v = some <$> t.fill v := by
  cases v with
  | null => cases hn
  | unknown => cases hu
  | _ => rfl

theorem fill_tfValue_known {α : Type} (t : Shape α) {v : Value} (hn : v.isNull = false) (hu : v.isUnknown = false) :
    t.tfValue.fill v = .known <$> t.fill v := by
  cases v with
  | null => cases hn
  | unknown => cases hu
  | _ => rfl

theorem fill_borrowedKey {κ : Type} {key : Shape κ} (h : key.isStringLike = true) (howned : key.isOwnedString = false)
    (s : String) (k : κ) : key.fill (.string s) ≠ .ok k := by
  unfold isStringLike at h
  split at h
  · cases howned
  · exact fun h => by cases h
  · exact fun h => by cases h
  · cases h

theorem mapM_singleton_ne {ε α β : Type} {f : α → Except ε β} {x : α} (h : ∀ y, f x ≠ .ok y) (ys : List β) :
    [x].mapM f ≠ .ok ys := by
  intro hys
  obtain ⟨y, hy⟩ := Outcome.ok_of_mem hys x List.mem_cons_self
  exact h y hy

theorem Rejected.wrapped {α β : Type} {inner : Shape α} {outer : Shape β} {ty : Ty} {v : Value} {wrap : α → β}
    (h : inner.Rejected ty v) (hrange : outer.inRange v = true) (hfill : outer.fill v = wrap <$> inner.fill v) :
    outer.Rejected ty v := by
  refine ⟨h.notNull, h.notUnknown, h.conforms, hrange, fun b hb => ?_⟩
  rw [hfill] at hb
  obtain ⟨a, ha, -⟩ := Outcome.map_eq_ok.mp hb
  exact h.rejected a ha

theorem Rejected.list_singleton {α γ : Type} {elem : Shape α} {collection : Collection α γ} {ty : Ty} {v : Value}
    (h : elem.Rejected ty v) : (Shape.list elem collection).Rejected (.list ty) (.list [v]) := by
  refine ⟨rfl, rfl, .list ty [v] fun w hw => List.mem_singleton.mp hw ▸ h.conforms, ?_, fun c hc => ?_⟩
  · simpa [Shape.inRange, sequence] using h.inRange
  · obtain ⟨items, hitems, -⟩ := Outcome.bind_eq_ok.mp hc
    exact mapM_singleton_ne h.rejected items hitems

theorem Rejected.set_singleton {α γ : Type} {elem : Shape α} {collection : Collection α γ} {ty : Ty} {v : Value}
    (h : elem.Rejected ty v) : (Shape.set elem collection).Rejected (.set ty) (.set [v]) := by
  refine ⟨rfl, rfl, .set ty [v] fun w hw => List.mem_singleton.mp hw ▸ h.conforms, ?_, fun c hc => ?_⟩
  · simpa [Shape.inRange, sequence] using h.inRange
  · obtain ⟨items, hitems, -⟩ := Outcome.bind_eq_ok.mp hc
    exact mapM_singleton_ne h.rejected items hitems

theorem unwritten_of_mem {α γ : Type} {elem : Shape α} {collection : Collection α γ} {a : α} {c : γ}
    (hc : a ∈ collection.iter c) (ha : elem.Unwritten a) :
    (Shape.list elem collection).Unwritten c ∧ (Shape.set elem collection).Unwritten c := by
  have hitems : ∀ vs, (collection.iter c).mapM elem.peekToValue ≠ .ok vs := by
    intro vs hvs
    obtain ⟨v, hv⟩ := Outcome.ok_of_mem hvs a hc
    exact ha v hv
  constructor <;>
  · intro v hv
    obtain ⟨vs, hvs, -⟩ := Outcome.map_eq_ok.mp hv
    exact hitems vs hvs

theorem Rejected.map_entry {κ α γ : Type} {key : Shape κ} {val : Shape α} {collection : Collection (κ × α) γ} {ty : Ty}
    {v : Value} (hconforms : Conforms ty v) (hrange : val.inRange v = true)
    (hentry : ∀ k a, key.fill (.string "") = .ok k → val.fill v ≠ .ok a) :
    (Shape.map key val collection).Rejected (.map ty) (.map (OrdMap.empty.insert "" v)) := by
  have hentries : (OrdMap.empty.insert "" v : Fields).toList = [("", v)] := rfl
  refine ⟨rfl, rfl, .map ty _ fun k w hw => ?_, ?_, fun c hc => ?_⟩
  · rw [OrdMap.get?_insert] at hw
    split_ifs at hw
    · rwa [← Option.some.inj hw]
    · cases hw
  · have hmapping : mapping (.map (OrdMap.empty.insert "" v)) = some (OrdMap.empty.insert "" v) := rfl
    rw [Shape.inRange, hmapping, Option.elim_some, hentries, List.all_cons, List.all_nil, hrange]
    rfl
  · obtain ⟨items, hitems, -⟩ := Outcome.bind_eq_ok.mp hc
    obtain ⟨_, hitem⟩ := Outcome.ok_of_mem hitems ("", v) (by rw [mapping, Option.elim_some, hentries]; simp)
    obtain ⟨k, hk, hitem⟩ := Outcome.bind_eq_ok.mp hitem
    obtain ⟨a, ha, -⟩ := Outcome.bind_eq_ok.mp hitem
    exact hentry k a hk ha

theorem rejected_or_unwritten {α : Type} (shape : Shape α) (hdoc : shape.Documented) (hd : shape.distinctNames = true)
    {path : String} {ty : Ty} (hty : shape.mapType path = .ok ty) (h : ¬shape.Codable) :
    (∃ v, shape.Rejected ty v) ∨ ∃ a, shape.Unwritten a := by
  induction shape using Shape.rec (motive_2 := fun _ fields => DocumentedFields fields → fields.keys.Nodup →
      distinctFields fields = true → ∀ path attrs, objectType fields path = .ok attrs → ¬CodableFields fields →
        (∃ object, RejectedFields fields attrs object) ∨ ∃ as, ∀ acc out, peekFields fields as acc ≠ .ok out)
      generalizing path ty with
  | scalar kind =>
      rw [mapType] at hty
      cases hkind : kind.ty with
      | none => simp [hkind] at hty
      | some ty' =>
          rw [hkind] at hty
          obtain rfl := Except.ok.inj hty
          exact scalar_rejected_or_unwritten hkind (Bool.not_eq_true _ ▸ h)
  | other => cases hty
  | proxy | formatProxy => exact hdoc.elim
  | option t ih =>
      obtain ⟨v, hv⟩ | ⟨a, ha⟩ := ih hdoc hd hty h
      · exact .inl ⟨v, hv.wrapped hv.inRange (fill_option_known t hv.notNull hv.notUnknown)⟩
      · exact .inr ⟨some a, ha⟩
  | tfValue t ih =>
      obtain ⟨v, hv⟩ | ⟨a, ha⟩ := ih hdoc hd hty h
      · exact .inl ⟨v, hv.wrapped hv.inRange (fill_tfValue_known t hv.notNull hv.notUnknown)⟩
      · exact .inr ⟨.known a, ha⟩
  | list elem collection ih =>
      obtain ⟨ty, helem, rfl⟩ := Outcome.map_eq_ok.mp hty
      obtain ⟨hgrow | ⟨n, hfixed⟩, hdoc⟩ := hdoc
      · obtain ⟨v, hv⟩ | ⟨a, ha⟩ := ih hdoc hd helem fun helem => h ⟨hgrow, helem⟩
        · exact .inl ⟨_, hv.list_singleton⟩
        · obtain ⟨c, hc⟩ := hgrow.holds a
          exact .inr ⟨c, (unwritten_of_mem hc ha).1⟩
      · refine .inl ⟨.list (List.replicate (n + 1) .null), rfl, rfl, .list ty _ ?_, ?_, fun c hc => ?_⟩
        · intro v hv
          rw [List.eq_of_mem_replicate hv]
          exact .null ty
        · simp [inRange, sequence, inRange_null]
        · obtain ⟨items, hitems, hbuilt⟩ := Outcome.bind_eq_ok.mp hc
          have hlen := (Outcome.mapM_eq_ok.mp hitems).length_eq
          rw [hfixed items c (Outcome.mapError_eq_ok.mp hbuilt), sequence, List.length_replicate] at hlen
          omega
  | set elem collection ih =>
      obtain ⟨ty, helem, rfl⟩ := Outcome.map_eq_ok.mp hty
      obtain ⟨hgrow, hdoc⟩ := hdoc
      obtain ⟨v, hv⟩ | ⟨a, ha⟩ := ih hdoc hd helem fun helem => h ⟨hgrow, helem⟩
      · exact .inl ⟨_, hv.set_singleton⟩
      · obtain ⟨c, hc⟩ := hgrow.holds a
        exact .inr ⟨c, (unwritten_of_mem hc ha).2⟩
  | map key val collection _ ih =>
      rw [mapType] at hty
      split_ifs at hty with hkey
      obtain ⟨ty, hval, rfl⟩ := Outcome.map_eq_ok.mp hty
      obtain ⟨hgrow, hdoc⟩ := hdoc
      cases howned : key.isOwnedString with
      | false =>
          exact .inl ⟨_, .map_entry (.null ty) (inRange_null val) fun k _ hk =>
            absurd hk (fill_borrowedKey hkey howned "" k)⟩
      | true =>
          obtain ⟨v, hv⟩ | ⟨a, ha⟩ := ih hdoc hd hval fun hval => h ⟨howned, hgrow, hval⟩
          · exact .inl ⟨_, .map_entry hv.conforms hv.inRange fun _ v' _ => hv.rejected v'⟩
          · obtain ⟨k, -⟩ := fill_isOwnedString howned (.string "")
            obtain ⟨c, hc⟩ := hgrow.holds (k, a)
            refine .inr ⟨c, fun v hv => ?_⟩
            obtain ⟨out, hout, -⟩ := Outcome.map_eq_ok.mp hv
            obtain ⟨entries, _, hstep⟩ := Outcome.ok_of_mem_foldlM hout (k, a) hc
            obtain ⟨_, -, hstep⟩ := Outcome.bind_eq_ok.mp hstep
            obtain ⟨v, hv, -⟩ := Outcome.bind_eq_ok.mp hstep
            exact ha v hv
  | struct fields ih =>
      obtain ⟨attrs, hattrs, rfl⟩ := Outcome.map_eq_ok.mp hty
      obtain ⟨hnodup, hfields⟩ := Bool.and_eq_true _ _ ▸ hd
      obtain ⟨object, hobject⟩ | ⟨as, has⟩ := ih hdoc (of_decide_eq_true hnodup) hfields path attrs hattrs h
      · refine .inl ⟨.object object, rfl, rfl, .object attrs object ?_ hobject.conforms, hobject.inRange,
          hobject.rejected⟩
        rw [objectType_names fields hattrs]
        exact hobject.keys
      · refine .inr ⟨as, fun v hv => ?_⟩
        obtain ⟨out, hout, -⟩ := Outcome.map_eq_ok.mp hv
        exact has OrdMap.empty out hout
  | nil =>
      rename_i hnot
      exact absurd trivial hnot
  | cons field shape rest ih ihs =>
      rename_i hdoc hnodup hdistinct path attrs hattrs hnot
      obtain ⟨hkey, hnodup⟩ := List.nodup_cons.mp hnodup
      obtain ⟨hshape, hrest⟩ := Bool.and_eq_true _ _ ▸ hdistinct
      obtain ⟨ty, hty, hattrs⟩ := Outcome.bind_eq_ok.mp hattrs
      obtain ⟨attrs', hattrs', hattrs⟩ := Outcome.bind_eq_ok.mp hattrs
      obtain rfl := Except.ok.inj hattrs
      by_cases hcodable : shape.Codable
      · obtain ⟨object, hobject⟩ | ⟨as, has⟩ :=
          ihs hdoc.2 hnodup hrest path attrs' hattrs' fun hrest => hnot ⟨hcodable, hrest⟩
        · exact .inl ⟨object, hobject.there rfl hkey⟩
        · obtain ⟨a, -⟩ := fill_ok shape hcodable .null
          refine .inr ⟨(a, as), fun acc out hout => ?_⟩
          obtain ⟨v, -, hout⟩ := Outcome.bind_eq_ok.mp hout
          exact has _ out hout
      · obtain ⟨v, hv⟩ | ⟨a, ha⟩ := ih hdoc.1 hshape hty hcodable
        · exact .inl ⟨_, .here rfl (objectType_names rest hattrs') hkey hv⟩
        · cases hfill : fillStruct rest (some OrdMap.empty) with
          | ok as =>
              refine .inr ⟨(a, as), fun acc out hout => ?_⟩
              obtain ⟨v, hv, -⟩ := Outcome.bind_eq_ok.mp hout
              exact ha v hv
          | error e =>
              refine .inl ⟨OrdMap.empty, .empty fun as has => ?_⟩
              obtain ⟨a', -, has⟩ := Outcome.bind_eq_ok.mp has
              obtain ⟨as', has', -⟩ := Outcome.bind_eq_ok.mp has
              rw [hfill] at has'
              cases has'

end Shape

/-- A value that conforms to a type, whatever its numbers are: it may also hold
infinities and NaNs. -/
def Ty.Admits (ty : Ty) (v : Value) : Prop :=
  ∃ w, Conforms ty w ∧ w.mapNumber (fun _ => ()) = v.mapNumber fun _ => ()

namespace Shape

/-- Every value of the published type is read into the model, and every value
of the model is written as one. -/
structure Agrees {α : Type} (crates : Crates) (shape : Shape α) (block : Block) : Prop where
  reads : ∀ v, block.ctyType.Admits v → shape.inRange v = true → ∃ a, shape.fill v = .ok a
  writes : ∀ a, ∃ v bytes, shape.peekToValue a = .ok v ∧ encodeMsgpack crates v block.ctyType = .ok bytes

/-- Reflection and the typed codec agree on a model exactly when its shape is
built from what the codec both reads and writes. -/
theorem agrees_iff_codable {crates : Crates} (hc : crates.Lawful) {α : Type} (shape : Shape α)
    (hdoc : shape.Documented) (hd : shape.distinctNames = true) {block : Block}
    (hb : shape.blockFromShape = .ok block) :
    shape.Agrees crates block ↔ shape.Codable := by
  obtain ⟨ty, hty, hagree⟩ := (agree_blockFromShape shape hd "").1 block hb
  constructor
  · intro h
    by_contra hnot
    obtain ⟨v, hv⟩ | ⟨a, ha⟩ := rejected_or_unwritten shape hdoc hd hty hnot
    · obtain ⟨a, ha⟩ := h.reads v ⟨v, hagree.conformsWith hv.conforms, rfl⟩ hv.inRange
      exact hv.rejected a ha
    · obtain ⟨v, _, hv, -⟩ := h.writes a
      exact ha v hv
  · intro h
    refine ⟨fun v _ _ => fill_ok shape h v, fun a => ?_⟩
    obtain ⟨v, hv⟩ := peekToValue_ok shape h a
    obtain ⟨mp, hmp⟩ : ∃ mp, toMp crates v ty = .ok mp := toMp_peekToValue shape hd hty hv
    obtain ⟨bytes, hbytes, -⟩ := hc.encodeMsgpack_of_toMp (hagree.toMp hmp)
    exact ⟨v, bytes, hv, hbytes⟩

def vec (α : Type) : Collection α (List α) := ⟨.ok, id⟩

theorem growable_vec (α : Type) : (vec α).Growable := ⟨fun items => ⟨items, rfl⟩, fun item => ⟨[item], by simp [vec]⟩⟩

def tagged : Shape (List String × Unit) :=
  .struct (.cons { name := "tags" } (.list (.scalar .string) (vec String)) .nil)

def tagsBlock : Block := ⟨[{ AttributeSchema.new "tags" (.list .string) with required := true }], []⟩

theorem agrees_tagged : tagged.Agrees Crates.real tagsBlock := by
  have hblock : tagged.blockFromShape = .ok tagsBlock := rfl
  have hdoc : tagged.Documented := ⟨⟨.inl (growable_vec String), trivial⟩, trivial⟩
  exact (agrees_iff_codable Crates.real_lawful tagged hdoc rfl hblock).mpr ⟨⟨growable_vec String, rfl⟩, trivial⟩

def sized : Shape (BitVec 128 × Unit) := .struct (.cons { name := "size" } (.scalar .i128) .nil)

def sizeBlock : Block := ⟨[{ AttributeSchema.new "size" .number with required := true }], []⟩

/-- Its size is published and written as a number, and never read. -/
theorem sized_unread : sized.Documented ∧ sized.distinctNames = true ∧ sized.blockFromShape = .ok sizeBlock ∧
    ¬sized.Agrees Crates.real sizeBlock := by
  refine ⟨⟨trivial, trivial⟩, rfl, rfl, fun h => ?_⟩
  obtain ⟨a, ha⟩ := h.reads (.object OrdMap.empty)
    ⟨.object OrdMap.empty, .object _ _ (fun _ h => (nomatch h)) fun attr _ => .null attr.ty, rfl⟩ (by decide)
  cases ha

end Shape

end TofuSdk
