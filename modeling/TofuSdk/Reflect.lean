import TofuSdk.Typed
import TofuSdk.Schema
import TofuSdk.Agree

namespace TofuSdk

inductive ReflectError
  | notAStruct
  | unsupportedType (field : String)
  | unsupportedMapKey (field : String)
  | invalidSearchKey (field : String)
  | writeOnlyComputed (field : String)
deriving DecidableEq, Repr

namespace Field

def description (field : Field) : Option String :=
  if field.attrs.doc.isEmpty then none
  else
    let text := ("\n".intercalate (field.attrs.doc.map fun line => line.trimAscii.toString)).trimAscii.toString
    if text.isEmpty then none else some text

def default (field : Field) (ty : Ty) : Option Value :=
  field.attrs.default.bind fun literal =>
    match ty with
    | .number => (Number.fromStr literal).map .number
    | .bool => if literal = "true" then some (.bool true) else if literal = "false" then some (.bool false) else none
    | _ => some (.string literal)

end Field

def ScalarType.ty {α : Type} (scalar : ScalarType α) : Option Ty :=
  match scalar with
  | .bool => some .bool
  | .str | .string | .char => some .string
  | .cowStr => none
  | .unit => some (.object [])
  | _ => some .number

namespace Shape

def isStringLike {κ : Type} : Shape κ → Bool
  | .scalar .string | .scalar .str | .scalar .char => true
  | _ => false

def isNullable {α : Type} (shape : Shape α) : Bool :=
  match shape with
  | .option _ | .tfValue _ => true
  | .formatProxy shape => isNullable shape
  | _ => false
termination_by structural shape

mutual

def mapType {α : Type} (shape : Shape α) (path : String) : Except ReflectError Ty :=
  match shape with
  | .scalar kind => kind.ty.elim (.error (.unsupportedType path)) .ok
  | .tfValue known => mapType known path
  | .proxy proxied _ _ => mapType proxied path
  | .formatProxy shape => mapType shape path
  | .option t => mapType t path
  | .list elem _ => .list <$> mapType elem path
  | .set elem _ => .set <$> mapType elem path
  | .map key val _ =>
      if key.isStringLike then .map <$> mapType val path else .error (.unsupportedMapKey path)
  | .struct fields => .object <$> objectType fields path
  | .other _ => .error (.unsupportedType path)
termination_by structural shape

def objectType {φ : Type} (fields : StructFields φ) (path : String) : Except ReflectError (List ObjectAttr) :=
  match fields with
  | .nil => .ok []
  | .cons field shape rest => do
      let ty ← mapType shape (path ++ "." ++ field.key)
      let attrs ← objectType rest path
      pure (⟨field.key, ty, shape.isNullable || field.attrs.optional⟩ :: attrs)
termination_by structural fields

end

def attributeFromField {α : Type} (field : Field) (shape : Shape α) : Except ReflectError AttributeSchema := do
  let ty ← shape.mapType field.key
  if field.attrs.writeOnly && field.attrs.computed then .error (.writeOnlyComputed field.key)
  else
    let inferred := !field.attrs.optional && !field.attrs.computed
    pure {
      name := field.key
      ty := ty
      description := field.description
      required := inferred && !shape.isNullable
      optional := field.attrs.optional || (inferred && shape.isNullable)
      computed := field.attrs.computed
      sensitive := field.attrs.sensitive
      writeOnly := field.attrs.writeOnly
      forceNew := field.attrs.forceNew
      deprecated := field.attrs.deprecated
      default := field.default ty }

mutual

def blockFields {φ : Type} (fields : StructFields φ) : Except ReflectError Block :=
  match fields with
  | .nil => .ok ⟨[], []⟩
  | .cons field shape rest =>
      if field.attrs.block then do
        let nested ← nestedBlock field.key false shape
        let block ← blockFields rest
        pure ⟨block.attributes, nested :: block.nestedBlocks⟩
      else do
        let attr ← attributeFromField field shape
        let block ← blockFields rest
        pure ⟨attr :: block.attributes, block.nestedBlocks⟩
termination_by structural fields

def blockFromShape {α : Type} (shape : Shape α) : Except ReflectError Block :=
  match shape with
  | .struct fields => blockFields fields
  | .formatProxy shape => blockFromShape shape
  | _ => .error .notAStruct
termination_by structural shape

/-- A block field: its type fixes the nesting, an outer option, once `peeled`,
makes a single block optional. -/
def nestedBlock {α : Type} (name : String) (peeled : Bool) (shape : Shape α) : Except ReflectError NestedBlock :=
  match shape with
  | .option t => if peeled then .error .notAStruct else nestedBlock name true t
  | .list elem _ => (fun block => ⟨name, .list, block, 0, 0⟩) <$> blockFromShape elem
  | .set elem _ => (fun block => ⟨name, .set, block, 0, 0⟩) <$> blockFromShape elem
  | .map key val _ =>
      if key.isStringLike then (fun block => ⟨name, .map, block, 0, 0⟩) <$> blockFromShape val
      else .error (.unsupportedMapKey name)
  | .struct fields => (fun block => ⟨name, .single, block, if peeled then 0 else 1, 1⟩) <$> blockFields fields
  | .formatProxy shape => nestedBlock name peeled shape
  | _ => .error .notAStruct
termination_by structural shape

end

end Shape

def StructFields.keys {φ : Type} (fields : StructFields φ) : List String :=
  match fields with
  | .nil => []
  | .cons field _ rest => field.key :: rest.keys

namespace Shape

mutual

def distinctNames {α : Type} (shape : Shape α) : Bool :=
  match shape with
  | .scalar _ => true
  | .option t => distinctNames t
  | .list elem _ => distinctNames elem
  | .set elem _ => distinctNames elem
  | .map _ val _ => distinctNames val
  | .struct fields => decide fields.keys.Nodup && distinctFields fields
  | .tfValue known => distinctNames known
  | .proxy proxied _ _ => distinctNames proxied
  | .formatProxy shape => distinctNames shape
  | .other _ => true
termination_by structural shape

def distinctFields {φ : Type} (fields : StructFields φ) : Bool :=
  match fields with
  | .nil => true
  | .cons _ shape rest => distinctNames shape && distinctFields rest
termination_by structural fields

end

/-- A reflected type has no dynamic slot, and its attribute names are those of
the fields. -/
structure Reflects (distinct : Bool) (ty : Ty) : Prop where
  isStatic : ty.isStatic = true
  distinctNames : distinct = true → ty.distinctNames = true

theorem reflects_scalar {α : Type} {scalar : ScalarType α} {ty : Ty} (h : scalar.ty = some ty) (distinct : Bool) :
    Reflects distinct ty := by
  have hty : ty = .bool ∨ ty = .string ∨ ty = .number ∨ ty = .object [] := by
    cases scalar <;> simp [TofuSdk.ScalarType.ty] at h <;> simp [← h]
  rcases hty with rfl | rfl | rfl | rfl <;> exact ⟨rfl, fun _ => rfl⟩

theorem reflects_mapType {α : Type} (shape : Shape α) {path : String} {ty : Ty} (h : shape.mapType path = .ok ty) :
    Reflects shape.distinctNames ty := by
  induction shape using Shape.rec (motive_2 := fun _ fields => ∀ path attrs, objectType fields path = .ok attrs →
      attrs.map (·.name) = fields.keys ∧ ∀ attr ∈ attrs, Reflects (distinctFields fields) attr.ty)
      generalizing path ty with
  | scalar kind =>
      rw [mapType] at h
      cases hty : kind.ty with
      | none => simp [hty] at h
      | some ty' =>
          rw [hty] at h
          obtain rfl := Except.ok.inj h
          exact reflects_scalar hty _
  | other => cases h
  | option t ih | tfValue t ih | proxy t _ _ ih | formatProxy t ih => exact ih h
  | list elem _ ih | set elem _ ih =>
      obtain ⟨ty, hty, rfl⟩ := Outcome.map_eq_ok.mp h
      exact ⟨(ih hty).isStatic, (ih hty).distinctNames⟩
  | map key val _ _ ih =>
      rw [mapType] at h
      split_ifs at h
      obtain ⟨ty, hty, rfl⟩ := Outcome.map_eq_ok.mp h
      exact ⟨(ih hty).isStatic, (ih hty).distinctNames⟩
  | struct fields ih =>
      obtain ⟨attrs, hattrs, rfl⟩ := Outcome.map_eq_ok.mp h
      obtain ⟨hnames, hall⟩ := ih path attrs hattrs
      refine ⟨Ty.isStatic_object.mpr fun attr ha => (hall attr ha).isStatic, ?_⟩
      intro hdistinct
      obtain ⟨hnodup, hfields⟩ := Bool.and_eq_true _ _ ▸ hdistinct
      rw [Ty.distinctNames_object, hnames]
      exact ⟨of_decide_eq_true hnodup, fun attr ha => (hall attr ha).distinctNames hfields⟩
  | nil =>
      rename_i path attrs h
      obtain rfl := Except.ok.inj h
      exact ⟨rfl, by simp⟩
  | cons field shape rest ih ihs =>
      rename_i path attrs h
      rw [objectType] at h
      obtain ⟨ty, hty, h⟩ := Outcome.bind_eq_ok.mp h
      obtain ⟨attrs', hattrs', h⟩ := Outcome.bind_eq_ok.mp h
      obtain rfl := Except.ok.inj h
      obtain ⟨hnames, hall⟩ := ihs path attrs' hattrs'
      have hfield := ih hty
      refine ⟨by rw [List.map_cons, hnames, StructFields.keys], ?_⟩
      intro attr ha
      rcases List.mem_cons.mp ha with rfl | ha
      · exact ⟨hfield.isStatic, fun hd => hfield.distinctNames (Bool.and_eq_true _ _ ▸ hd).1⟩
      · exact ⟨(hall attr ha).isStatic, fun hd => (hall attr ha).distinctNames (Bool.and_eq_true _ _ ▸ hd).2⟩

theorem mapType_path {α : Type} (shape : Shape α) {p q : String} {ty : Ty} (h : shape.mapType p = .ok ty) :
    shape.mapType q = .ok ty := by
  induction shape using Shape.rec (motive_2 := fun _ fields => ∀ p q attrs, objectType fields p = .ok attrs →
      objectType fields q = .ok attrs) generalizing p q ty with
  | scalar kind =>
      rw [mapType] at h ⊢
      cases hty : kind.ty with
      | none => simp [hty] at h
      | some ty' => rwa [hty] at h
  | other => cases h
  | option t ih | tfValue t ih | proxy t _ _ ih | formatProxy t ih => exact ih h
  | list elem _ ih | set elem _ ih => exact Outcome.map_ok_mono (fun _ => ih) h
  | map key val _ _ ih =>
      rw [mapType] at h ⊢
      by_cases hkey : key.isStringLike = true
      · rw [if_pos hkey] at h ⊢
        exact Outcome.map_ok_mono (fun _ => ih) h
      · rw [if_neg hkey] at h
        cases h
  | struct fields ih => exact Outcome.map_ok_mono (fun attrs => ih p q attrs) h
  | nil =>
      rename_i p q attrs h
      exact h
  | cons field shape rest ih ihs =>
      rename_i p q attrs h
      rw [objectType] at h ⊢
      obtain ⟨ty, hty, h⟩ := Outcome.bind_eq_ok.mp h
      obtain ⟨attrs', hattrs, h⟩ := Outcome.bind_eq_ok.mp h
      rw [ih hty, Outcome.ok_bind, ihs p q attrs' hattrs, Outcome.ok_bind]
      exact h

structure Pairs (attrs attrs' : List ObjectAttr) : Prop where
  names : (attrs.map (·.name)).Perm (attrs'.map (·.name))
  types : ∀ attr ∈ attrs, ∃ attr' ∈ attrs', attr'.name = attr.name ∧ attr.ty.Agree attr'.ty

theorem Pairs.agree {attrs attrs' : List ObjectAttr} (h : Pairs attrs attrs') (hn : (attrs.map (·.name)).Nodup) :
    (Ty.object attrs).Agree (.object attrs') := by
  apply Ty.Agree.object attrs attrs' h.names
  intro attr ha attr' ha' hname
  obtain ⟨attr'', ha'', hname', hagree⟩ := h.types attr ha
  rwa [List.inj_on_of_nodup_map (h.names.nodup_iff.mp hn) ha' ha'' (hname.symm.trans hname'.symm)]

theorem Pairs.insert {attrs front back : List ObjectAttr} (h : Pairs attrs (front ++ back)) {attr attr' : ObjectAttr}
    (hname : attr'.name = attr.name) (hty : attr.ty.Agree attr'.ty) :
    Pairs (attr :: attrs) (front ++ attr' :: back) where
  names := by
    rw [List.map_append, List.map_cons, List.map_cons, hname]
    refine .trans (.cons _ h.names) ?_
    rw [List.map_append]
    exact List.perm_middle.symm
  types := by
    rw [List.forall_mem_cons]
    refine ⟨⟨attr', by simp, hname, hty⟩, ?_⟩
    intro a ha
    obtain ⟨a', ha', h'⟩ := h.types a ha
    refine ⟨a', ?_, h'⟩
    rw [List.mem_append, List.mem_cons]
    rcases List.mem_append.mp ha' with hfront | hback
    · exact .inl hfront
    · exact .inr (.inr hback)

theorem attributeFromField_eq_ok {α : Type} {field : Field} {shape : Shape α} {attr : AttributeSchema}
    (h : attributeFromField field shape = .ok attr) :
    shape.mapType field.key = .ok attr.ty ∧ attr.name = field.key := by
  rw [attributeFromField] at h
  obtain ⟨ty, hty, h⟩ := Outcome.bind_eq_ok.mp h
  split_ifs at h
  obtain rfl := Except.ok.inj h
  exact ⟨hty, rfl⟩

/-- The type that reflection gives to a model is the type of its block, up to
the order of attributes. -/
theorem agree_blockFromShape {α : Type} (shape : Shape α) (hd : shape.distinctNames = true) (path : String) :
    (∀ block, shape.blockFromShape = .ok block → ∃ ty, shape.mapType path = .ok ty ∧ ty.Agree block.ctyType) ∧
      ∀ name peeled nested, nestedBlock name peeled shape = .ok nested →
        nested.name = name ∧ ∃ ty, shape.mapType path = .ok ty ∧ ty.Agree nested.ctyType := by
  induction shape using Shape.rec (motive_2 := fun _ fields => distinctFields fields = true → ∀ path block,
      blockFields fields = .ok block → ∃ attrs, objectType fields path = .ok attrs ∧ Pairs attrs block.members)
      generalizing path with
  | scalar | other | tfValue | proxy => exact ⟨fun _ h => (by cases h), fun _ _ _ h => (by cases h)⟩
  | option t ih =>
      refine ⟨fun _ h => (by cases h), ?_⟩
      intro name peeled nested h
      rw [nestedBlock] at h
      split_ifs at h
      exact (ih hd path).2 name true nested h
  | list elem _ ih =>
      refine ⟨fun _ h => (by cases h), ?_⟩
      intro name peeled nested h
      obtain ⟨block, hblock, rfl⟩ := Outcome.map_eq_ok.mp h
      obtain ⟨ty, hty, hagree⟩ := (ih hd path).1 block hblock
      exact ⟨rfl, .list ty, Outcome.map_eq_ok.mpr ⟨ty, hty, rfl⟩, .list _ _ hagree⟩
  | set elem _ ih =>
      refine ⟨fun _ h => (by cases h), ?_⟩
      intro name peeled nested h
      obtain ⟨block, hblock, rfl⟩ := Outcome.map_eq_ok.mp h
      obtain ⟨ty, hty, hagree⟩ := (ih hd path).1 block hblock
      exact ⟨rfl, .set ty, Outcome.map_eq_ok.mpr ⟨ty, hty, rfl⟩, .set _ _ hagree⟩
  | map key val _ _ ih =>
      refine ⟨fun _ h => (by cases h), ?_⟩
      intro name peeled nested h
      rw [nestedBlock] at h
      by_cases hkey : key.isStringLike = true
      · rw [if_pos hkey] at h
        obtain ⟨block, hblock, rfl⟩ := Outcome.map_eq_ok.mp h
        obtain ⟨ty, hty, hagree⟩ := (ih hd path).1 block hblock
        refine ⟨rfl, .map ty, ?_, .map _ _ hagree⟩
        rw [mapType, if_pos hkey, hty, Outcome.map_ok]
      · rw [if_neg hkey] at h
        cases h
  | struct fields ih =>
      have hblock : ∀ block, blockFields fields = .ok block →
          ∃ ty, (Shape.struct fields).mapType path = .ok ty ∧ ty.Agree block.ctyType := by
        intro block h
        obtain ⟨attrs, hattrs, hpairs⟩ := ih (Bool.and_eq_true _ _ ▸ hd).2 path block h
        have hty : (Shape.struct fields).mapType path = .ok (.object attrs) := by rw [mapType, hattrs, Outcome.map_ok]
        have hnodup := (Ty.distinctNames_object.mp ((reflects_mapType _ hty).distinctNames hd)).1
        refine ⟨.object attrs, hty, ?_⟩
        rw [Block.ctyType_eq_members]
        exact hpairs.agree hnodup
      refine ⟨hblock, ?_⟩
      intro name peeled nested h
      obtain ⟨block, hfields, rfl⟩ := Outcome.map_eq_ok.mp h
      exact ⟨rfl, hblock block hfields⟩
  | formatProxy shape ih => exact ih hd path
  | nil =>
      rename_i path block h
      obtain rfl := Except.ok.inj h
      exact ⟨[], rfl, .nil, by simp⟩
  | cons field shape rest ih ihs =>
      rename_i hd path block h
      obtain ⟨hshape, hrest⟩ := Bool.and_eq_true _ _ ▸ hd
      rw [blockFields] at h
      by_cases hnested : field.attrs.block = true
      · rw [if_pos hnested] at h
        obtain ⟨nested, hn, h⟩ := Outcome.bind_eq_ok.mp h
        obtain ⟨block', hblock, h⟩ := Outcome.bind_eq_ok.mp h
        obtain rfl := Except.ok.inj h
        obtain ⟨hname, ty, hty, hagree⟩ := (ih hshape (path ++ "." ++ field.key)).2 _ _ nested hn
        obtain ⟨attrs, hattrs, hpairs⟩ := ihs hrest path block' hblock
        refine ⟨⟨field.key, ty, shape.isNullable || field.attrs.optional⟩ :: attrs, ?_, ?_⟩
        · rw [objectType, hty, Outcome.ok_bind, hattrs, Outcome.ok_bind]
          rfl
        · exact hpairs.insert hname hagree
      · rw [if_neg hnested] at h
        obtain ⟨attr, ha, h⟩ := Outcome.bind_eq_ok.mp h
        obtain ⟨block', hblock, h⟩ := Outcome.bind_eq_ok.mp h
        obtain rfl := Except.ok.inj h
        obtain ⟨hty, hname⟩ := attributeFromField_eq_ok ha
        obtain ⟨attrs, hattrs, hpairs⟩ := ihs hrest path block' hblock
        refine ⟨⟨field.key, attr.ty, shape.isNullable || field.attrs.optional⟩ :: attrs, ?_, ?_⟩
        · rw [objectType, mapType_path shape hty, Outcome.ok_bind, hattrs, Outcome.ok_bind]
          rfl
        · have hpairs : Pairs attrs ([] ++ block'.members) := hpairs
          exact hpairs.insert hname (.refl attr.ty)

theorem blockFields_cons_eq_ok {α φ : Type} {field : Field} {shape : Shape α} {rest : StructFields φ} {block : Block}
    (h : blockFields (.cons field shape rest) = .ok block) : ∃ others, blockFields rest = .ok others ∧
      ((field.attrs.block = true ∧ ∃ nested, nestedBlock field.key false shape = .ok nested ∧
        block = ⟨others.attributes, nested :: others.nestedBlocks⟩) ∨
      (field.attrs.block = false ∧ ∃ attr, attributeFromField field shape = .ok attr ∧
        block = ⟨attr :: others.attributes, others.nestedBlocks⟩)) := by
  rw [blockFields] at h
  by_cases hblock : field.attrs.block = true
  · rw [if_pos hblock] at h
    obtain ⟨nested, hnested, h⟩ := Outcome.bind_eq_ok.mp h
    obtain ⟨others, hothers, h⟩ := Outcome.bind_eq_ok.mp h
    exact ⟨others, hothers, .inl ⟨hblock, nested, hnested, (Except.ok.inj h).symm⟩⟩
  · rw [if_neg hblock] at h
    obtain ⟨attr, hattr, h⟩ := Outcome.bind_eq_ok.mp h
    obtain ⟨others, hothers, h⟩ := Outcome.bind_eq_ok.mp h
    exact ⟨others, hothers, .inr ⟨Bool.eq_false_of_not_eq_true hblock, attr, hattr, (Except.ok.inj h).symm⟩⟩

theorem reflect_induct {P : (α : Type) → Shape α → Block → Prop} {Q : (φ : Type) → StructFields φ → Block → Prop}
    (option : ∀ (α : Type) (t : Shape α) block, P α t block → P _ (.option t) block)
    (list : ∀ (α γ : Type) (elem : Shape α) (collection : Collection α γ) block, P α elem block →
      P _ (.list elem collection) block)
    (set : ∀ (α γ : Type) (elem : Shape α) (collection : Collection α γ) block, P α elem block →
      P _ (.set elem collection) block)
    (map : ∀ (κ α γ : Type) (key : Shape κ) (val : Shape α) (collection : Collection (κ × α) γ) block, P α val block →
      P _ (.map key val collection) block)
    (struct : ∀ (φ : Type) (fields : StructFields φ) block, Q φ fields block → P _ (.struct fields) block)
    (formatProxy : ∀ (α : Type) (shape : Shape α) block, P α shape block → P _ (.formatProxy shape) block)
    (nil : Q _ .nil ⟨[], []⟩)
    (attr : ∀ (α φ : Type) (field : Field) (shape : Shape α) (rest : StructFields φ) made others,
      field.attrs.block = false → attributeFromField field shape = .ok made → Q φ rest others →
      Q _ (.cons field shape rest) ⟨made :: others.attributes, others.nestedBlocks⟩)
    (nested : ∀ (α φ : Type) (field : Field) (shape : Shape α) (rest : StructFields φ) nested others,
      field.attrs.block = true → nestedBlock field.key false shape = .ok nested → P α shape nested.block →
      Q φ rest others →
      Q _ (.cons field shape rest) ⟨others.attributes, nested :: others.nestedBlocks⟩)
    {α : Type} (shape : Shape α) : (∀ block, shape.blockFromShape = .ok block → P α shape block) ∧
      ∀ name peeled nested, nestedBlock name peeled shape = .ok nested → P α shape nested.block := by
  induction shape using Shape.rec (motive_2 := fun φ fields => ∀ block, blockFields fields = .ok block →
      Q φ fields block) with
  | scalar | other | tfValue | proxy => exact ⟨fun _ h => (by cases h), fun _ _ _ h => (by cases h)⟩
  | option t ih =>
      refine ⟨fun _ h => (by cases h), ?_⟩
      intro name peeled made h
      rw [nestedBlock] at h
      split_ifs at h
      exact option _ t made.block (ih.2 name true made h)
  | list elem collection ih =>
      refine ⟨fun _ h => (by cases h), ?_⟩
      intro name peeled made h
      obtain ⟨block, hblock, rfl⟩ := Outcome.map_eq_ok.mp h
      exact list _ _ elem collection block (ih.1 block hblock)
  | set elem collection ih =>
      refine ⟨fun _ h => (by cases h), ?_⟩
      intro name peeled made h
      obtain ⟨block, hblock, rfl⟩ := Outcome.map_eq_ok.mp h
      exact set _ _ elem collection block (ih.1 block hblock)
  | map key val collection _ ih =>
      refine ⟨fun _ h => (by cases h), ?_⟩
      intro name peeled made h
      rw [nestedBlock] at h
      split_ifs at h
      obtain ⟨block, hblock, rfl⟩ := Outcome.map_eq_ok.mp h
      exact map _ _ _ key val collection block (ih.1 block hblock)
  | struct fields ih =>
      refine ⟨fun block h => struct _ fields block (ih block h), ?_⟩
      intro name peeled made h
      obtain ⟨block, hblock, rfl⟩ := Outcome.map_eq_ok.mp h
      exact struct _ fields block (ih block hblock)
  | formatProxy shape ih =>
      exact ⟨fun block h => formatProxy _ shape block (ih.1 block h),
        fun name peeled made h => formatProxy _ shape made.block (ih.2 name peeled made h)⟩
  | nil =>
      rename_i block h
      obtain rfl := Except.ok.inj h
      exact nil
  | cons field shape rest ih ihs =>
      rename_i block h
      obtain ⟨others, hothers, ⟨hblock, made, hmade, rfl⟩ | ⟨hblock, made, hmade, rfl⟩⟩ := blockFields_cons_eq_ok h
      · exact nested _ _ field shape rest made others hblock hmade (ih.2 _ _ made hmade) (ihs others hothers)
      · exact attr _ _ field shape rest made others hblock hmade (ihs others hothers)

end Shape

end TofuSdk
