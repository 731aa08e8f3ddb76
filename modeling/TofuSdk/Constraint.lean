import TofuSdk.Ty
import TofuSdk.Conforms

namespace TofuSdk

namespace Ty

mutual

def ordered (ty : Ty) : Ty :=
  match ty with
  | .list elem => .list (ordered elem)
  | .set elem => .set (ordered elem)
  | .map elem => .map (ordered elem)
  | .object attrs => .object ((OrdMap.ofList (orderedAttrs attrs)).toList.map Prod.snd)
  | .tuple elems => .tuple (orderedAll elems)
  | ty => ty
termination_by structural ty

def orderedAll (elems : List Ty) : List Ty :=
  match elems with
  | [] => []
  | t :: ts => ordered t :: orderedAll ts
termination_by structural elems

def orderedAttrs (attrs : List ObjectAttr) : List (String × ObjectAttr) :=
  match attrs with
  | [] => []
  | ⟨name, ty, optional⟩ :: attrs => (name, ⟨name, ordered ty, optional⟩) :: orderedAttrs attrs
termination_by structural attrs

end

def byName (attrs : List ObjectAttr) : OrdMap String ObjectAttr :=
  OrdMap.ofList (attrs.map fun attr => (attr.name, attr))

theorem orderedAll_eq (elems : List Ty) : orderedAll elems = elems.map ordered := by
  induction elems with
  | nil => rfl
  | cons t ts ih => rw [orderedAll, ih, List.map_cons]

theorem orderedAttrs_eq (attrs : List ObjectAttr) :
    OrdMap.ofList (orderedAttrs attrs) =
      (byName attrs).map fun attr => ⟨attr.name, ordered attr.ty, attr.optional⟩ := by
  rw [byName, OrdMap.map_ofList, List.map_map]
  congr 1
  induction attrs with
  | nil => rfl
  | cons attr attrs ih => rw [orderedAttrs, ih, List.map_cons]; rfl

theorem ordered_object (attrs : List ObjectAttr) :
    ordered (.object attrs) =
      .object ((byName attrs).toList.map fun p => ⟨p.2.name, ordered p.2.ty, p.2.optional⟩) := by
  rw [ordered, orderedAttrs_eq, OrdMap.toList_map, List.map_map]
  rfl

theorem allToCtyJson_eq (elems : List Ty) : allToCtyJson elems = elems.map toCtyJson := by
  induction elems with
  | nil => rfl
  | cons t ts ih => rw [allToCtyJson, ih, List.map_cons]

theorem attrsToCtyJson_eq (attrs : List ObjectAttr) :
    OrdMap.ofList (attrsToCtyJson attrs) = (byName attrs).map fun attr => toCtyJson attr.ty := by
  rw [byName, OrdMap.map_ofList, List.map_map]
  congr 1
  induction attrs with
  | nil => rfl
  | cons attr attrs ih => rw [attrsToCtyJson, ih, List.map_cons]; rfl

theorem allFromCtyJson_eq (elems : List Json) : allFromCtyJson elems = elems.mapM fromCtyJson := by
  induction elems with
  | nil => rfl
  | cons json jsons ih => rw [allFromCtyJson, ih, List.mapM_cons]

theorem fieldsFromCtyJson_eq (fields : OrdMap String Json) :
    fieldsFromCtyJson fields = fields.map fromCtyJson := by
  obtain ⟨keys, sorted, val⟩ := fields
  rfl

theorem mem_byName {attrs : List ObjectAttr} {p : String × ObjectAttr} (h : p ∈ (byName attrs).toList) :
    p.2 ∈ attrs ∧ p.2.name = p.1 := by
  obtain ⟨attr, ha, hp⟩ := List.mem_map.mp (OrdMap.mem_of_get?_ofList (OrdMap.mem_toList.mp h))
  obtain ⟨hname, rfl⟩ := Prod.mk.inj hp
  exact ⟨ha, hname⟩

theorem contains_optionals {attrs : List ObjectAttr} (hn : (attrs.map (·.name)).Nodup) {attr : ObjectAttr}
    (ha : attr ∈ attrs) : ((attrs.filter (·.optional)).map (·.name)).contains attr.name = attr.optional := by
  rw [Bool.eq_iff_iff, List.contains_iff_mem, List.mem_map]
  constructor
  · rintro ⟨attr', ha', hname⟩
    obtain ⟨ha', hoptional⟩ := List.mem_filter.mp ha'
    rwa [List.inj_on_of_nodup_map hn ha' ha hname] at hoptional
  · intro hoptional
    exact ⟨attr, List.mem_filter.mpr ⟨ha, hoptional⟩, rfl⟩

def optionalNames (rest : List Json) : List String :=
  match rest with
  | .array names :: _ => names.filterMap Json.asString
  | _ => []

theorem fromCtyJson_object {attrs : List ObjectAttr} (rest : List Json)
    (ih : ∀ attr ∈ attrs, fromCtyJson attr.ty.toCtyJson = .ok attr.ty.ordered) :
    fromCtyJson (.array (.string "object" :: .object (OrdMap.ofList (attrsToCtyJson attrs)) :: rest)) =
      .ok (.object ((byName attrs).toList.map fun p =>
        ⟨p.1, ordered p.2.ty, (optionalNames rest).contains p.1⟩)) := by
  have htypes : ((byName attrs).toList.map fun p => (p.1, fromCtyJson p.2.ty.toCtyJson)).mapM
      (fun p => (p.1, ·) <$> p.2) = Except.ok ((byName attrs).toList.map fun p => (p.1, ordered p.2.ty)) := by
    rw [List.mapM_map]
    apply Outcome.mapM_eq_ok_map
    intro p hp
    simp only [Function.comp, ih p.2 (mem_byName hp).1, Outcome.map_ok]
  have hfields : (fieldsFromCtyJson (OrdMap.ofList (attrsToCtyJson attrs))).toList =
      (byName attrs).toList.map fun p => (p.1, fromCtyJson p.2.ty.toCtyJson) := by
    rw [fieldsFromCtyJson_eq, attrsToCtyJson_eq, OrdMap.toList_map, OrdMap.toList_map, List.map_map]
    rfl
  change (fun types : List (String × Ty) => Ty.object (types.map fun p =>
    ⟨p.1, p.2, (optionalNames rest).contains p.1⟩)) <$>
      (fieldsFromCtyJson (OrdMap.ofList (attrsToCtyJson attrs))).toList.mapM (fun p => (p.1, ·) <$> p.2) = _
  rw [hfields, htypes, Outcome.map_ok, List.map_map]
  rfl

theorem fromCtyJson_toCtyJson {ty : Ty} (hn : ty.distinctNames = true) :
    fromCtyJson ty.toCtyJson = .ok ty.ordered := by
  rw [distinctNames] at hn
  induction ty using Ty.induct with
  | bool | number | string | dynamic => rfl
  | list elem ih | set elem ih | map elem ih =>
      rw [toCtyJson, fromCtyJson, firstType, ih (Bool.and_eq_true _ _ ▸ hn).2]
      rfl
  | tuple elems ih =>
      rw [everywhere, Bool.and_eq_true, everywhereIn_iff] at hn
      have helems : (elems.map toCtyJson).mapM fromCtyJson = .ok (elems.map ordered) := by
        rw [List.mapM_map]
        exact Outcome.mapM_eq_ok_map fun t ht => ih t ht (hn.2 t ht)
      rw [toCtyJson, fromCtyJson, allToCtyJson_eq, allFromCtyJson_eq, helems, ordered, orderedAll_eq]
      rfl
  | object attrs ih =>
      rw [everywhere, Bool.and_eq_true, everywhereAttrs_iff] at hn
      have hnodup : (attrs.map (·.name)).Nodup := by simpa using hn.1
      have hread : ∀ rest, optionalNames rest = (attrs.filter (·.optional)).map (·.name) →
          fromCtyJson (.array (.string "object" :: .object (OrdMap.ofList (attrsToCtyJson attrs)) :: rest)) =
            .ok (ordered (.object attrs)) := by
        intro rest hrest
        rw [fromCtyJson_object rest fun attr ha => ih attr ha (hn.2 attr ha), ordered_object, hrest]
        congr 2
        apply List.map_congr_left
        intro p hp
        obtain ⟨ha, hname⟩ := mem_byName hp
        rw [← hname, contains_optionals hnodup ha]
      rw [toCtyJson]
      split_ifs with hoptionals
      · apply hread []
        rw [List.isEmpty_iff, List.map_eq_nil_iff] at hoptionals
        rw [hoptionals]
        rfl
      · apply hread [_]
        simp [optionalNames, List.filterMap_map, Function.comp_def, Json.asString]

/-- Two types that differ in the order of object attributes alone. -/
inductive Reordered : Ty → Ty → Prop
  | refl (ty : Ty) : Reordered ty ty
  | list (elem elem' : Ty) : Reordered elem elem' → Reordered (.list elem) (.list elem')
  | set (elem elem' : Ty) : Reordered elem elem' → Reordered (.set elem) (.set elem')
  | map (elem elem' : Ty) : Reordered elem elem' → Reordered (.map elem) (.map elem')
  | object (attrs attrs' : List ObjectAttr) : (attrs.map (·.name)).Perm (attrs'.map (·.name)) →
      (∀ attr ∈ attrs, ∀ attr' ∈ attrs', attr.name = attr'.name → attr.optional = attr'.optional) →
      (∀ attr ∈ attrs, ∀ attr' ∈ attrs', attr.name = attr'.name → Reordered attr.ty attr'.ty) →
      Reordered (.object attrs) (.object attrs')
  | tuple (elems elems' : List Ty) : elems.length = elems'.length →
      (∀ (i : Nat) ty ty', elems[i]? = some ty → elems'[i]? = some ty' → Reordered ty ty') →
      Reordered (.tuple elems) (.tuple elems')

theorem reordered_ordered {ty : Ty} (hn : ty.distinctNames = true) : Reordered ty.ordered ty := by
  induction ty using Ty.induct with
  | bool | number | string | dynamic => exact .refl _
  | list elem ih => exact .list _ _ (ih hn)
  | set elem ih => exact .set _ _ (ih hn)
  | map elem ih => exact .map _ _ (ih hn)
  | tuple elems ih =>
      rw [distinctNames_tuple] at hn
      rw [ordered, orderedAll_eq]
      refine .tuple _ _ (List.length_map _) ?_
      intro i ty ty' hty hty'
      rw [List.getElem?_map, hty'] at hty
      cases hty
      exact ih ty' (List.mem_of_getElem? hty') (hn ty' (List.mem_of_getElem? hty'))
  | object attrs ih =>
      obtain ⟨hnodup, htys⟩ := distinctNames_object.mp hn
      rw [ordered_object]
      have hsame : ∀ p ∈ (byName attrs).toList, ∀ attr ∈ attrs, p.2.name = attr.name → p.2 = attr := by
        intro p hp attr hattr hname
        exact List.inj_on_of_nodup_map hnodup (mem_byName hp).1 hattr hname
      refine .object _ _ ?_ ?_ ?_
      · have hnames : ((byName attrs).toList.map fun p => p.2.name) = (byName attrs).keys := by
          rw [← OrdMap.map_fst_toList]
          exact List.map_congr_left fun p hp => (mem_byName hp).2
        rw [List.map_map, Function.comp_def]
        dsimp only
        rw [hnames, List.perm_ext_iff_of_nodup (byName attrs).keys_nodup hnodup]
        intro name
        rw [byName, OrdMap.mem_keys_ofList, List.map_map, Function.comp_def]
      · intro attr hattr attr' hattr' hname
        obtain ⟨p, hp, rfl⟩ := List.mem_map.mp hattr
        rw [← hsame p hp attr' hattr' hname]
      · intro attr hattr attr' hattr' hname
        obtain ⟨p, hp, rfl⟩ := List.mem_map.mp hattr
        rw [← hsame p hp attr' hattr' hname]
        exact ih p.2 (mem_byName hp).1 (htys p.2 (mem_byName hp).1)

/-- A type survives its constraint, but for the order in which the map of an
object's attributes is read. -/
theorem exists_fromCtyJson {ty : Ty} (hn : ty.distinctNames = true) :
    ∃ back, fromCtyJson ty.toCtyJson = .ok back ∧ back.Reordered ty :=
  ⟨ty.ordered, fromCtyJson_toCtyJson hn, reordered_ordered hn⟩

def shelf : Ty := .object [⟨"object", .set (.object [⟨"", .dynamic, true⟩, ⟨"a", .bool, false⟩]), true⟩,
  ⟨"list", .tuple [.string, .map .number], false⟩]

theorem fromCtyJson_shelf : ∃ back, fromCtyJson shelf.toCtyJson = .ok back ∧ back.Reordered shelf :=
  exists_fromCtyJson (by decide)

theorem Reordered.of_map {ι : Type} {l : List ι} {f g : ι → ObjectAttr} (hname : ∀ i ∈ l, (f i).name = (g i).name)
    (hnodup : (l.map fun i => (g i).name).Nodup) (hoptional : ∀ i ∈ l, (f i).optional = (g i).optional)
    (hty : ∀ i ∈ l, Reordered (f i).ty (g i).ty) : Reordered (.object (l.map f)) (.object (l.map g)) := by
  have hsame : ∀ attr ∈ l.map f, ∀ attr' ∈ l.map g, attr.name = attr'.name → ∃ i ∈ l, attr = f i ∧ attr' = g i := by
    intro attr hattr attr' hattr' heq
    obtain ⟨i, hi, rfl⟩ := List.mem_map.mp hattr
    obtain ⟨j, hj, rfl⟩ := List.mem_map.mp hattr'
    obtain rfl := List.inj_on_of_nodup_map hnodup hi hj ((hname i hi).symm.trans heq)
    exact ⟨i, hi, rfl, rfl⟩
  refine .object _ _ ?_ ?_ ?_
  · rw [List.map_map, List.map_map]
    exact List.Perm.of_eq (List.map_congr_left hname)
  · intro attr hattr attr' hattr' heq
    obtain ⟨i, hi, rfl, rfl⟩ := hsame attr hattr attr' hattr' heq
    exact hoptional i hi
  · intro attr hattr attr' hattr' heq
    obtain ⟨i, hi, rfl, rfl⟩ := hsame attr hattr attr' hattr' heq
    exact hty i hi

end Ty

end TofuSdk
