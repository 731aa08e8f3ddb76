import TofuSdk.Shuffle
import TofuSdk.Normalize

namespace TofuSdk

open ValueOf Value

/-- No set in a value has two different elements. -/
inductive Uniform : Value → Prop
  | null : Uniform .null
  | unknown : Uniform .unknown
  | bool (b : Bool) : Uniform (.bool b)
  | number (n : Number) : Uniform (.number n)
  | string (s : String) : Uniform (.string s)
  | list (items : List Value) : (∀ v ∈ items, Uniform v) → Uniform (.list items)
  | set (items : List Value) : (∀ v ∈ items, Uniform v) → (∀ v ∈ items, ∀ w ∈ items, v = w) → Uniform (.set items)
  | tuple (items : List Value) : (∀ v ∈ items, Uniform v) → Uniform (.tuple items)
  | map (entries : Fields) : (∀ k v, entries.get? k = some v → Uniform v) → Uniform (.map entries)
  | object (fields : Fields) : (∀ k v, fields.get? k = some v → Uniform v) → Uniform (.object fields)

section

variable {v w : Value} {xs ys zs : List Value} {fields fields' : Fields}

theorem eq_of_forall₂_shuffled (h : List.Forall₂ Shuffled xs ys) (heq : ∀ x ∈ xs, ∀ y, Shuffled x y → y = x) :
    ys = xs := by
  induction h with
  | nil => rfl
  | cons hxy _ ih =>
      rw [List.forall_mem_cons] at heq
      rw [heq.1 _ hxy, ih heq.2]

theorem eq_of_perm_const (hall : ∀ x ∈ xs, ∀ y ∈ xs, x = y) (hperm : xs.Perm zs) : zs = xs := by
  cases xs with
  | nil => exact List.nil_perm.mp hperm
  | cons a xs =>
      have hx : a :: xs = List.replicate (a :: xs).length a :=
        List.eq_replicate_of_mem fun b hb => hall b hb a List.mem_cons_self
      rw [hx] at hperm ⊢
      exact List.perm_replicate.mp hperm.symm

theorem fields_eq_of_shuffled (hkeys : fields.keys = fields'.keys)
    (h : ∀ k x y, fields.get? k = some x → fields'.get? k = some y → Shuffled x y)
    (heq : ∀ k x, fields.get? k = some x → ∀ y, Shuffled x y → y = x) : fields' = fields := by
  apply OrdMap.ext_get?
  intro k
  cases hx : fields.get? k with
  | none =>
      rw [OrdMap.get?_eq_none_iff, hkeys, ← OrdMap.get?_eq_none_iff] at hx
      exact hx
  | some x =>
      obtain ⟨y, hy⟩ := OrdMap.exists_of_keys_eq hkeys hx
      rw [hy, heq k x hx y (h k x y hx hy)]

theorem Uniform.eq_of_shuffled (hv : Uniform v) (h : Shuffled v w) : w = v := by
  induction hv generalizing w with
  | null | unknown | bool b | number n | string s =>
      cases h
      rfl
  | list items _ ih =>
      cases h with
      | list _ ys h => rw [eq_of_forall₂_shuffled h fun x hx y => ih x hx]
  | tuple items _ ih =>
      cases h with
      | tuple _ ys h => rw [eq_of_forall₂_shuffled h fun x hx y => ih x hx]
  | set items _ hall ih =>
      cases h with
      | set _ ys zs h hperm =>
          obtain rfl := eq_of_forall₂_shuffled h fun x hx y => ih x hx
          rw [eq_of_perm_const hall hperm]
  | map fields _ ih =>
      cases h with
      | map _ fields' hkeys h => rw [fields_eq_of_shuffled hkeys h fun k x hx y => ih k x hx]
  | object fields _ ih =>
      cases h with
      | object _ fields' hkeys h => rw [fields_eq_of_shuffled hkeys h fun k x hx y => ih k x hx]

def hasNoSets (v : Value) : Bool := v.everywhere fun
  | .set _ => false
  | _ => true

theorem uniform_of_eq (hv : hasNoSets v = true) (h : Value.eq v w = true) : Uniform w := by
  rw [hasNoSets] at hv
  induction v using ValueOf.induct generalizing w with
  | null =>
      cases w with
      | null => exact .null
      | _ => cases h
  | unknown =>
      cases w with
      | unknown => exact .unknown
      | _ => cases h
  | bool b =>
      cases w with
      | bool c => exact .bool c
      | _ => cases h
  | number n =>
      cases w with
      | number m => exact .number m
      | _ => cases h
  | string s =>
      cases w with
      | string t => exact .string t
      | _ => cases h
  | set items _ => cases (everywhere_set.mp hv).1
  | list items ih =>
      cases w with
      | list others =>
          refine .list others fun y hy => ?_
          obtain ⟨x, hx, hxy⟩ := (exists_of_forall₂ (eqAll_iff.mp h)).2 y hy
          exact ih x hx ((everywhere_list.mp hv).2 x hx) hxy
      | _ => cases h
  | tuple items ih =>
      cases w with
      | tuple others =>
          refine .tuple others fun y hy => ?_
          obtain ⟨x, hx, hxy⟩ := (exists_of_forall₂ (eqAll_iff.mp h)).2 y hy
          exact ih x hx ((everywhere_tuple.mp hv).2 x hx) hxy
      | _ => cases h
  | map entries ih =>
      cases w with
      | map others =>
          obtain ⟨hkeys, hall⟩ := eqFields_iff.mp h
          refine .map others fun k y hy => ?_
          obtain ⟨x, hx⟩ := OrdMap.exists_of_keys_eq hkeys.symm hy
          exact ih k x hx ((everywhere_map.mp hv).2 k x hx) (hall k x hx y hy)
      | _ => cases h
  | object fields ih =>
      cases w with
      | object others =>
          obtain ⟨hkeys, hall⟩ := eqFields_iff.mp h
          refine .object others fun k y hy => ?_
          obtain ⟨x, hx⟩ := OrdMap.exists_of_keys_eq hkeys.symm hy
          exact ih k x hx ((everywhere_object.mp hv).2 k x hx) (hall k x hx y hy)
      | _ => cases h

end

namespace Shape

mutual

def readsSequences {α : Type} (shape : Shape α) : Bool :=
  match shape with
  | .list _ _ | .set _ _ => true
  | .option t => readsSequences t
  | .tfValue known => readsSequences known
  | .formatProxy shape => readsSequences shape
  | .proxy proxied _ _ => readsSequences proxied
  | .map _ val _ => readsSequences val
  | .struct fields => fieldsReadSequences fields
  | .scalar _ | .other _ => false
termination_by structural shape

def fieldsReadSequences {φ : Type} (fields : StructFields φ) : Bool :=
  match fields with
  | .nil => false
  | .cons _ shape rest => readsSequences shape || fieldsReadSequences rest
termination_by structural fields

end

section

variable {v w : Value}

theorem setScalar_shuffled {α : Type} (scalar : ScalarType α) (h : Shuffled v w) :
    setScalar scalar v = setScalar scalar w := by
  cases h <;> cases scalar <;> rfl

/-- The objects behind two values are the same but for the order of sets. -/
inductive ShuffledFields : Option Fields → Option Fields → Prop
  | none : ShuffledFields none none
  | some (xs ys : Fields) : xs.keys = ys.keys →
      (∀ k x y, xs.get? k = some x → ys.get? k = some y → Shuffled x y) → ShuffledFields (some xs) (some ys)

theorem shuffledFields_mapping (h : Shuffled v w) : ShuffledFields (mapping v) (mapping w) := by
  cases h with
  | map xs ys hkeys h => exact .some xs ys hkeys h
  | object xs ys hkeys h => exact .some xs ys hkeys h
  | _ => exact .none

theorem ShuffledFields.getD {xs ys : Option Fields} (h : ShuffledFields xs ys) (k : String) :
    Shuffled ((xs.bind (·.get? k)).getD .null) ((ys.bind (·.get? k)).getD .null) := by
  cases h with
  | none => exact .null
  | some xs ys hkeys h =>
      rw [Option.bind_some, Option.bind_some]
      cases hx : xs.get? k with
      | none =>
          rw [OrdMap.get?_eq_none_iff, hkeys, ← OrdMap.get?_eq_none_iff] at hx
          rw [hx]
          exact .null
      | some x =>
          obtain ⟨y, hy⟩ := OrdMap.exists_of_keys_eq hkeys hx
          rw [hy]
          exact h k x y hx hy

theorem mapM_entries_shuffled {β : Type} {f : String × Value → Except TypedError β}
    (hf : ∀ k x y, Shuffled x y → f (k, x) = f (k, y)) {xs ys : Option Fields} (h : ShuffledFields xs ys) :
    (xs.elim [] OrdMap.toList).mapM f = (ys.elim [] OrdMap.toList).mapM f := by
  cases h with
  | none => rfl
  | some xs ys hkeys h =>
      obtain ⟨keys, sorted, x⟩ := xs
      obtain ⟨keys', sorted', y⟩ := ys
      obtain rfl : keys = keys' := hkeys
      change (OrdMap.toList ⟨keys, sorted, x⟩).mapM f = (OrdMap.toList ⟨keys, sorted', y⟩).mapM f
      rw [OrdMap.toList, OrdMap.toList, List.ofFn_eq_map, List.ofFn_eq_map, List.mapM_map, List.mapM_map]
      apply congrArg (fun g => (List.finRange keys.length).mapM g)
      funext i
      exact hf _ _ _ (h _ _ _ (OrdMap.val_mem ⟨keys, sorted, x⟩ i) (OrdMap.val_mem ⟨keys, sorted', y⟩ i))

theorem fill_shuffled {α : Type} (shape : Shape α) (hshape : shape.readsSequences = false) (h : Shuffled v w) :
    shape.fill v = shape.fill w := by
  induction shape using Shape.rec (motive_2 := fun _ fields => fieldsReadSequences fields = false →
      ∀ xs ys, ShuffledFields xs ys → fillStruct fields xs = fillStruct fields ys) generalizing v w with
  | scalar kind => exact setScalar_shuffled kind h
  | list | set => cases hshape
  | other identifier => rfl
  | formatProxy shape ih => exact ih hshape h
  | option t ih =>
      have hfill := ih hshape h
      cases h <;> first | rfl | exact congrArg (some <$> ·) hfill
  | tfValue known ih =>
      have hfill := ih hshape h
      cases h <;> first | rfl | exact congrArg (TfValue.known <$> ·) hfill
  | proxy proxied convertIn convertOut ih =>
      rw [fill, fill, ih hshape h]
  | map key val collection _ ih =>
      rw [fill, fill, mapM_entries_shuffled _ (shuffledFields_mapping h)]
      intro k x y hxy
      rw [ih hshape hxy]
  | struct fields ih => exact ih hshape _ _ (shuffledFields_mapping h)
  | nil => rfl
  | cons field shape rest ih ihs =>
      rename_i hread xs ys hxs
      obtain ⟨hshape, hrest⟩ := Bool.or_eq_false_iff.mp hread
      rw [fillStruct, fillStruct, ih hshape (hxs.getD field.key), ihs hrest _ _ hxs]

def FieldsHaveNoSets (fields : Fields) : Prop := ∀ k v, fields.get? k = some v → hasNoSets v = true

theorem FieldsHaveNoSets.insert {fields : Fields} (h : FieldsHaveNoSets fields) (k : String) (hv : hasNoSets v = true) :
    FieldsHaveNoSets (fields.insert k v) := by
  intro k' v' hget
  rw [OrdMap.get?_insert] at hget
  split_ifs at hget
  · exact Option.some.inj hget ▸ hv
  · exact h k' v' hget

theorem hasNoSets_scalarToValue {α : Type} {scalar : ScalarType α} {a : α} (h : scalarToValue scalar a = .ok v) :
    hasNoSets v = true := by
  cases scalar with
  | i128 =>
      cases h
      rw [wideIntToValue]
      split_ifs <;> rfl
  | u128 =>
      cases h
      split_ifs <;> rfl
  | char | unit => cases h
  | _ =>
      cases h
      rfl

theorem hasNoSets_peekToValue {α : Type} (shape : Shape α) (hshape : shape.readsSequences = false) {a : α}
    (h : shape.peekToValue a = .ok v) : hasNoSets v = true := by
  induction shape using Shape.rec (motive_2 := fun _ fields => fieldsReadSequences fields = false →
      ∀ as acc out, FieldsHaveNoSets acc → peekFields fields as acc = .ok out → FieldsHaveNoSets out)
      generalizing v with
  | scalar kind => exact hasNoSets_scalarToValue h
  | list | set => cases hshape
  | other identifier => cases h
  | formatProxy shape ih => exact ih hshape h
  | option t ih =>
      cases a with
      | none =>
          cases h
          rfl
      | some a => exact ih hshape h
  | tfValue known ih =>
      cases a with
      | known a => exact ih hshape h
      | unknown | null =>
          cases h
          rfl
  | proxy proxied convertIn convertOut ih =>
      obtain ⟨p, -, hp⟩ := Outcome.bind_eq_ok.mp h
      exact ih hshape hp
  | map key val collection _ ih =>
      obtain ⟨entries, hentries, rfl⟩ := Outcome.map_eq_ok.mp h
      refine everywhere_map.mpr ⟨rfl, ?_⟩
      have hstep : ∀ (items : List (_ × _)) (acc : Fields), FieldsHaveNoSets acc → items.foldlM (fun entries entry => do
          let k ← (key.asStr entry.1).elim (.error .nonStringKey) .ok
          let v ← peekToValue val entry.2
          pure (OrdMap.insert entries k v)) acc = Except.ok entries → FieldsHaveNoSets entries := by
        intro items
        induction items with
        | nil =>
            intro acc hacc hfold
            cases hfold
            exact hacc
        | cons entry items ihs =>
            intro acc hacc hfold
            rw [List.foldlM_cons] at hfold
            obtain ⟨next, hnext, hfold⟩ := Outcome.bind_eq_ok.mp hfold
            obtain ⟨k, -, hnext⟩ := Outcome.bind_eq_ok.mp hnext
            obtain ⟨x, hx, hnext⟩ := Outcome.bind_eq_ok.mp hnext
            cases hnext
            exact ihs _ (hacc.insert k (ih hshape hx)) hfold
      exact hstep _ _ (fun k v hget => by cases hget) hentries
  | struct fields ih =>
      obtain ⟨out, hout, rfl⟩ := Outcome.map_eq_ok.mp h
      exact everywhere_object.mpr ⟨rfl, ih hshape a OrdMap.empty out (fun k v hget => by cases hget) hout⟩
  | nil =>
      rename_i acc out hacc hout
      cases hout
      exact hacc
  | cons field shape rest ih ihs =>
      rename_i hread as acc out hacc hout
      obtain ⟨hshape, hrest⟩ := Bool.or_eq_false_iff.mp hread
      obtain ⟨x, hx, hout⟩ := Outcome.bind_eq_ok.mp hout
      exact ihs hrest as.2 _ out (hacc.insert field.key (ih hshape hx)) hout

end

end Shape

end TofuSdk
