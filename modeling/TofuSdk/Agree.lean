import TofuSdk.Wire

namespace TofuSdk

open ValueOf

/-- Two types that differ in the order of object attributes, and in which of
them may be left out, at most. -/
inductive Ty.Agree : Ty → Ty → Prop
  | refl (ty : Ty) : Agree ty ty
  | list (elem elem' : Ty) : Agree elem elem' → Agree (.list elem) (.list elem')
  | set (elem elem' : Ty) : Agree elem elem' → Agree (.set elem) (.set elem')
  | map (elem elem' : Ty) : Agree elem elem' → Agree (.map elem) (.map elem')
  | object (attrs attrs' : List ObjectAttr) : (attrs.map (·.name)).Perm (attrs'.map (·.name)) →
      (∀ attr ∈ attrs, ∀ attr' ∈ attrs', attr.name = attr'.name → Agree attr.ty attr'.ty) →
      Agree (.object attrs) (.object attrs')

namespace Ty.Agree

variable {crates : Crates} {ty ty' elem elem' : Ty} {attrs attrs' : List ObjectAttr}

theorem symm (h : Agree ty ty') : Agree ty' ty := by
  induction h with
  | refl ty => exact .refl ty
  | list elem elem' _ ih => exact .list _ _ ih
  | set elem elem' _ ih => exact .set _ _ ih
  | map elem elem' _ ih => exact .map _ _ ih
  | object attrs attrs' hperm _ ih =>
      exact .object _ _ hperm.symm fun attr' ha' attr ha hname => ih attr ha attr' ha' hname.symm

theorem counterpart (hperm : (attrs.map (·.name)).Perm (attrs'.map (·.name))) {attr : ObjectAttr} (ha : attr ∈ attrs) :
    ∃ attr' ∈ attrs', attr'.name = attr.name :=
  List.mem_map.mp (hperm.mem_iff.mp (List.mem_map_of_mem ha))

theorem distinctNames (h : Agree ty ty') (hn : ty.distinctNames = true) : ty'.distinctNames = true := by
  induction h with
  | refl ty => exact hn
  | list elem elem' _ ih | set elem elem' _ ih | map elem elem' _ ih => exact ih hn
  | object attrs attrs' hperm _ ih =>
      obtain ⟨hnodup, hattrs⟩ := Ty.distinctNames_object.mp hn
      refine Ty.distinctNames_object.mpr ⟨hperm.nodup_iff.mp hnodup, ?_⟩
      intro attr' ha'
      obtain ⟨attr, ha, hname⟩ := counterpart hperm.symm ha'
      exact ih attr ha attr' ha' hname (hattrs attr ha)

theorem conformsWith {slot : Value → Prop} {v : Value} (h : Agree ty ty') (hv : ConformsWith slot ty v) :
    ConformsWith slot ty' v := by
  induction h generalizing v with
  | refl ty => exact hv
  | list elem elem' _ ih =>
      cases hv with
      | null => exact .null _
      | unknown => exact .unknown _
      | list _ items hitems => exact .list _ items fun v hv => ih (hitems v hv)
  | set elem elem' _ ih =>
      cases hv with
      | null => exact .null _
      | unknown => exact .unknown _
      | set _ items hitems => exact .set _ items fun v hv => ih (hitems v hv)
  | map elem elem' _ ih =>
      cases hv with
      | null => exact .null _
      | unknown => exact .unknown _
      | map _ entries hentries => exact .map _ entries fun k v hv => ih (hentries k v hv)
  | object attrs attrs' hperm _ ih =>
      cases hv with
      | null => exact .null _
      | unknown => exact .unknown _
      | object _ fields hkeys hattrs =>
          refine .object _ fields (fun k hk => hperm.mem_iff.mp (hkeys k hk)) ?_
          intro attr' ha'
          obtain ⟨attr, ha, hname⟩ := counterpart hperm.symm ha'
          rw [← hname]
          exact ih attr ha attr' ha' hname (hattrs attr ha)

theorem object_left (h : Agree (.object attrs) ty') : ∃ attrs', ty' = .object attrs' ∧
    ∀ attr ∈ attrs, ∃ attr' ∈ attrs', attr'.name = attr.name ∧ Agree attr.ty attr'.ty := by
  cases h with
  | refl => exact ⟨attrs, rfl, fun attr ha => ⟨attr, ha, rfl, .refl attr.ty⟩⟩
  | object _ attrs' hperm hall =>
      refine ⟨attrs', rfl, ?_⟩
      intro attr ha
      obtain ⟨attr', ha', hname⟩ := counterpart hperm ha
      exact ⟨attr', ha', hname, hall attr ha attr' ha' hname.symm⟩

theorem list_iff : Agree (.list elem) (.list elem') ↔ Agree elem elem' := by
  constructor
  · intro h
    cases h with
    | refl => exact .refl elem
    | list _ _ h => exact h
  · exact .list elem elem'

theorem set_iff : Agree (.set elem) (.set elem') ↔ Agree elem elem' := by
  constructor
  · intro h
    cases h with
    | refl => exact .refl elem
    | set _ _ h => exact h
  · exact .set elem elem'

theorem map_iff : Agree (.map elem) (.map elem') ↔ Agree elem elem' := by
  constructor
  · intro h
    cases h with
    | refl => exact .refl elem
    | map _ _ h => exact h
  · exact .map elem elem'

theorem object_iff (hn : (attrs.map (·.name)).Nodup) : Agree (.object attrs) (.object attrs') ↔
    (attrs.map (·.name)).Perm (attrs'.map (·.name)) ∧
      ∀ attr ∈ attrs, ∀ attr' ∈ attrs', attr.name = attr'.name → Agree attr.ty attr'.ty := by
  constructor
  · intro h
    cases h with
    | refl =>
        refine ⟨.refl _, ?_⟩
        intro attr ha attr' ha' hname
        rw [List.inj_on_of_nodup_map hn ha ha' hname]
        exact .refl attr'.ty
    | object _ _ hperm hall => exact ⟨hperm, hall⟩
  · rintro ⟨hperm, hall⟩
    exact .object _ _ hperm hall

theorem object_perm_left {attrs₂ : List ObjectAttr} (hn : (attrs.map (·.name)).Nodup) (hp : attrs.Perm attrs₂) :
    Agree (.object attrs) ty ↔ Agree (.object attrs₂) ty := by
  have hstep : ∀ {l l' : List ObjectAttr}, (l.map (·.name)).Nodup → l.Perm l' → Agree (.object l) ty →
      Agree (.object l') ty := by
    intro l l' hl hll h
    obtain ⟨l'', rfl, -⟩ := h.object_left
    obtain ⟨hperm, hall⟩ := (object_iff hl).mp h
    refine (object_iff ((hll.map _).nodup_iff.mp hl)).mpr ⟨(hll.map _).symm.trans hperm, ?_⟩
    exact fun attr ha => hall attr (hll.mem_iff.mpr ha)
  exact ⟨hstep hn hp, hstep ((hp.map _).nodup_iff.mp hn) hp.symm⟩

theorem comm : Agree ty ty' ↔ Agree ty' ty := ⟨symm, symm⟩

theorem object_perm_right {attrs₂ : List ObjectAttr} (hn : (attrs'.map (·.name)).Nodup) (hp : attrs'.Perm attrs₂) :
    Agree ty (.object attrs') ↔ Agree ty (.object attrs₂) := by
  rw [comm, object_perm_left hn hp, comm]

theorem object_map_iff {ι : Type} {l : List ι} {key : ι → String} {f g : ι → Ty} {o o' : ι → Bool}
    (hn : (l.map key).Nodup) :
    Agree (.object (l.map fun i => ⟨key i, f i, o i⟩)) (.object (l.map fun i => ⟨key i, g i, o' i⟩)) ↔
      ∀ i ∈ l, Agree (f i) (g i) := by
  have hn' : ((l.map fun i => (⟨key i, f i, o i⟩ : ObjectAttr)).map (·.name)).Nodup := by rwa [List.map_map]
  rw [object_iff hn']
  constructor
  · rintro ⟨-, hall⟩ i hi
    exact hall _ (List.mem_map_of_mem hi) _ (List.mem_map_of_mem hi) rfl
  · intro hall
    constructor
    · rw [List.map_map, List.map_map]
      exact .refl _
    · intro attr ha attr' ha' heq
      obtain ⟨i, hi, rfl⟩ := List.mem_map.mp ha
      obtain ⟨j, hj, rfl⟩ := List.mem_map.mp ha'
      obtain rfl := List.inj_on_of_nodup_map hn hi hj heq
      exact hall i hi

theorem empty_iff : Agree (.object []) ty ↔ ty = .object [] := by
  constructor
  · intro h
    cases h with
    | refl => rfl
    | object _ attrs' hperm _ =>
        rw [List.map_nil, List.nil_perm, List.map_eq_nil_iff] at hperm
        rw [hperm]
  · rintro rfl
    exact .refl _

theorem exists_map_iff {con : Ty → Ty} {x : Except String Ty} {inner : Ty}
    (hcon : ∀ elem elem', Agree (con elem) (con elem') ↔ Agree elem elem') :
    (∃ ref, con <$> x = .ok ref ∧ Agree (con inner) ref) ↔ ∃ ref, x = .ok ref ∧ Agree inner ref := by
  cases x with
  | error e => simp
  | ok ref => simp [hcon]

theorem sortedByName_names (hperm : (attrs.map (·.name)).Perm (attrs'.map (·.name))) :
    (sortedByName attrs).map (·.name) = (sortedByName attrs').map (·.name) := by
  have hsorted : ∀ attrs : List ObjectAttr, ((sortedByName attrs).map (·.name)).Pairwise (· ≤ ·) := by
    intro attrs
    rw [List.pairwise_map]
    refine (List.pairwise_mergeSort ?_ ?_ attrs).imp of_decide_eq_true
    · intro a b c hab hbc
      exact decide_eq_true ((of_decide_eq_true hab).trans (of_decide_eq_true hbc))
    · intro a b
      simpa using le_total a.name b.name
  have hsame : ((sortedByName attrs).map (·.name)).Perm ((sortedByName attrs').map (·.name)) :=
    ((List.mergeSort_perm _ _).map _).trans (hperm.trans ((List.mergeSort_perm _ _).map _).symm)
  exact hsame.eq_of_pairwise (fun a b _ _ => le_antisymm) (hsorted attrs) (hsorted attrs')

theorem encodeEach_mono {elem elem' : Ty}
    (h : ∀ {v mp}, TofuSdk.toMp crates v elem = .ok mp → TofuSdk.toMp crates v elem' = .ok mp)
    {items : List Value} {mps : List Mp} (henc : encodeEach crates items elem = .ok mps) :
    encodeEach crates items elem' = .ok mps := by
  rw [encodeEach_eq] at henc ⊢
  exact Outcome.mapM_ok_mono (fun _ _ _ => h) henc

theorem toMp {v : Value} {mp : Mp} (h : Agree ty ty') (henc : toMp crates v ty = .ok mp) :
    TofuSdk.toMp crates v ty' = .ok mp := by
  induction h generalizing v mp with
  | refl ty => exact henc
  | list elem elem' _ ih =>
      cases v with
      | null | unknown => exact henc
      | list items => exact Outcome.map_ok_mono (fun _ => encodeEach_mono ih) henc
      | _ => cases henc
  | set elem elem' _ ih =>
      cases v with
      | null | unknown => exact henc
      | set items => exact Outcome.map_ok_mono (fun _ => encodeEach_mono ih) henc
      | _ => cases henc
  | map elem elem' _ ih =>
      cases v with
      | null | unknown => exact henc
      | map entries =>
          change encodeMap crates entries elem = _ at henc
          change encodeMap crates entries elem' = _
          rw [encodeMap_eq] at henc ⊢
          refine Outcome.map_ok_mono (fun mps => Outcome.mapM_ok_mono ?_) henc
          exact fun p _ y => Outcome.map_ok_mono fun _ => ih
      | _ => cases henc
  | object attrs attrs' hperm _ ih =>
      cases v with
      | null | unknown => exact henc
      | object fields =>
          change encodeObject crates fields attrs = _ at henc
          change encodeObject crates fields attrs' = _
          rw [encodeObject_eq] at henc ⊢
          refine Outcome.map_ok_mono (fun mps => Outcome.mapM_ok_of_map_eq (sortedByName_names hperm) ?_) henc
          intro attr ha attr' ha' hname z hz
          rw [← hname]
          exact Outcome.map_ok_mono (fun _ => ih attr (mem_sortedByName.mp ha) attr' (mem_sortedByName.mp ha') hname) hz
      | _ => cases henc

theorem decodeEach_mono {elem elem' : Ty} (h : ∀ {mp v}, fromMp crates mp elem = .ok v → fromMp crates mp elem' = .ok v)
    {items : List Mp} {vs : List Value} (hdec : decodeEach crates items elem = .ok vs) :
    decodeEach crates items elem' = .ok vs := by
  rw [decodeEach_eq] at hdec ⊢
  exact Outcome.mapM_ok_mono (fun _ _ _ => h) hdec

theorem decodeEntries_mono {elem elem' : Ty}
    (h : ∀ {mp v}, fromMp crates mp elem = .ok v → fromMp crates mp elem' = .ok v) {pairs : List (Mp × Mp)}
    {entries entries' : Fields} (hdec : decodeEntries crates pairs elem entries = .ok entries') :
    decodeEntries crates pairs elem' entries = .ok entries' := by
  induction pairs generalizing entries with
  | nil => exact hdec
  | cons pair pairs ih =>
      rw [decodeEntries] at hdec ⊢
      cases hkey : pair.1.asStr with
      | none => simp [hkey] at hdec
      | some key =>
          simp only [hkey] at hdec ⊢
          obtain ⟨v, hv, hrest⟩ := Outcome.bind_eq_ok.mp hdec
          rw [h hv, Outcome.ok_bind]
          exact ih hrest

theorem decodeField_mono (h : ∀ {mp v}, fromMp crates mp ty = .ok v → fromMp crates mp ty' = .ok v)
    {pairs : List (Mp × Mp)} {name : String} {v : Value} (hdec : decodeField crates pairs name ty = .ok v) :
    decodeField crates pairs name ty' = .ok v := by
  induction pairs with
  | nil => exact hdec
  | cons pair pairs ih =>
      rw [decodeField] at hdec ⊢
      split_ifs at hdec ⊢
      · exact h hdec
      · exact ih hdec

theorem fromMp {mp : Mp} {v : Value} (h : Agree ty ty') (hn : ty.distinctNames = true)
    (hdec : fromMp crates mp ty = .ok v) : TofuSdk.fromMp crates mp ty' = .ok v := by
  induction h generalizing v mp with
  | refl ty => exact hdec
  | list elem elem' _ ih =>
      cases mp with
      | nil | ext => exact hdec
      | array items => exact Outcome.map_ok_mono (fun _ => decodeEach_mono fun hv => ih hn hv) hdec
      | _ => cases hdec
  | set elem elem' _ ih =>
      cases mp with
      | nil | ext => exact hdec
      | array items => exact Outcome.map_ok_mono (fun _ => decodeEach_mono fun hv => ih hn hv) hdec
      | _ => cases hdec
  | map elem elem' _ ih =>
      cases mp with
      | nil | ext => exact hdec
      | map pairs => exact Outcome.map_ok_mono (fun _ => decodeEntries_mono fun hv => ih hn hv) hdec
      | _ => cases hdec
  | object attrs attrs' hperm _ ih =>
      obtain ⟨hnodup, hattrs⟩ := Ty.distinctNames_object.mp hn
      cases mp with
      | nil | ext => exact hdec
      | map pairs =>
          refine Outcome.map_ok_mono (fun fields => ?_) hdec
          rw [Outcome.foldlM_insert, Outcome.foldlM_insert]
          intro hfields
          obtain ⟨_, hentries, rfl⟩ := Outcome.map_eq_ok.mp hfields
          obtain ⟨w, hw, rfl⟩ := Outcome.mapM_keyed hentries
          have hattr : ∀ attr' ∈ attrs', ∃ attr ∈ attrs, attr.name = attr'.name ∧
              decodeField crates pairs attr'.name attr'.ty = .ok (w attr) := by
            intro attr' ha'
            obtain ⟨attr, ha, hname⟩ := counterpart hperm.symm ha'
            refine ⟨attr, ha, hname, ?_⟩
            rw [← hname]
            exact decodeField_mono (fun hv => ih attr ha attr' ha' hname (hattrs attr ha) hv) (hw attr ha)
          choose! of hof hname hdec' using hattr
          rw [Outcome.mapM_eq_ok_map (g := fun attr' => (attr'.name, w (of attr'))), Outcome.map_ok]
          · refine congrArg Except.ok (OrdMap.ofList_eq_of_mem ?_ ?_ fun p => ?_)
            · rw [List.map_map]
              exact hperm.nodup_iff.mp hnodup
            · rwa [List.map_map]
            · simp only [List.mem_map]
              constructor
              · rintro ⟨attr', ha', rfl⟩
                exact ⟨of attr', hof attr' ha', by rw [hname attr' ha']⟩
              · rintro ⟨attr, ha, rfl⟩
                obtain ⟨attr', ha', hname'⟩ := counterpart hperm ha
                refine ⟨attr', ha', ?_⟩
                rw [hname', List.inj_on_of_nodup_map hnodup (hof attr' ha') ha ((hname attr' ha').trans hname')]
          · intro attr' ha'
            rw [hdec' attr' ha', Outcome.map_ok]
      | _ => cases hdec

end Ty.Agree

end TofuSdk
