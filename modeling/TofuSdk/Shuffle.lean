import TofuSdk.Value
import Mathlib.Data.List.Perm.Basic

namespace TofuSdk

namespace Value

open ValueOf

/-- Values that differ in the order of the elements of their sets, at any depth. -/
inductive Shuffled : Value → Value → Prop
  | null : Shuffled .null .null
  | unknown : Shuffled .unknown .unknown
  | bool (b : Bool) : Shuffled (.bool b) (.bool b)
  | number (n : Number) : Shuffled (.number n) (.number n)
  | string (s : String) : Shuffled (.string s) (.string s)
  | list (xs ys : List Value) : List.Forall₂ Shuffled xs ys → Shuffled (.list xs) (.list ys)
  | set (xs ys zs : List Value) : List.Forall₂ Shuffled xs ys → ys.Perm zs → Shuffled (.set xs) (.set zs)
  | map (xs ys : Fields) : xs.keys = ys.keys →
      (∀ k x y, xs.get? k = some x → ys.get? k = some y → Shuffled x y) → Shuffled (.map xs) (.map ys)
  | object (xs ys : Fields) : xs.keys = ys.keys →
      (∀ k x y, xs.get? k = some x → ys.get? k = some y → Shuffled x y) → Shuffled (.object xs) (.object ys)
  | tuple (xs ys : List Value) : List.Forall₂ Shuffled xs ys → Shuffled (.tuple xs) (.tuple ys)

/-- Values that are the same when the order of the elements of a set is not looked at. -/
def SameSets (v w : Value) : Prop := ∃ v' w', Shuffled v v' ∧ Shuffled w w' ∧ eq v' w' = true

def isOrderless (v : Value) : Bool := v.everywhere fun
  | .set items => items.all fun x => items.all fun y => eq x y
  | _ => true

theorem eq_trans {u v w : Value} (huv : eq u v = true) (hvw : eq v w = true) : eq u w = true := by
  have hu := isNaNFree_of_eq huv
  have hv := isNaNFree_of_eq hvw
  have hw : w.isNaNFree = true := isNaNFree_of_eq (eq_comm v w ▸ hvw)
  rw [eq_iff_exact hu hw, (eq_iff_exact hu hv).mp huv, (eq_iff_exact hv hw).mp hvw]

theorem Shuffled.refl (v : Value) : Shuffled v v := by
  induction v using ValueOf.induct with
  | null => exact .null
  | unknown => exact .unknown
  | bool b => exact .bool b
  | number n => exact .number n
  | string s => exact .string s
  | list items ih => exact .list _ _ (List.forall₂_same.mpr ih)
  | set items ih => exact .set _ _ _ (List.forall₂_same.mpr ih) (List.Perm.refl _)
  | tuple items ih => exact .tuple _ _ (List.forall₂_same.mpr ih)
  | map fields ih =>
      refine .map _ _ rfl fun k x y hx hy => ?_
      obtain rfl := Option.some.inj (hx.symm.trans hy)
      exact ih k x hx
  | object fields ih =>
      refine .object _ _ rfl fun k x y hx hy => ?_
      obtain rfl := Option.some.inj (hx.symm.trans hy)
      exact ih k x hx

theorem Shuffled.symm {v w : Value} (h : Shuffled v w) : Shuffled w v := by
  have hitems : ∀ {xs ys : List Value}, List.Forall₂ Shuffled xs ys → (∀ x ∈ xs, ∀ y, Shuffled x y → Shuffled y x) →
      List.Forall₂ Shuffled ys xs := by
    intro xs ys hxs hall
    apply List.Forall₂.flip
    exact ((List.forall₂_and_left xs ys).mpr ⟨hall, hxs⟩).imp fun _ y h => h.1 y h.2
  induction v using ValueOf.induct generalizing w with
  | null | unknown | bool b | number n | string s =>
      cases h
      exact .refl _
  | list items ih =>
      cases h with
      | list _ ys h => exact .list _ _ (hitems h fun x hx y => ih x hx)
  | tuple items ih =>
      cases h with
      | tuple _ ys h => exact .tuple _ _ (hitems h fun x hx y => ih x hx)
  | set items ih =>
      cases h with
      | set _ ys zs h hperm =>
          obtain ⟨ws, hws, hxs⟩ := List.perm_comp_forall₂ hperm.symm (hitems h fun x hx y => ih x hx)
          exact .set _ _ _ hws hxs
  | map fields ih =>
      cases h with
      | map _ ys hkeys h =>
          refine .map _ _ hkeys.symm fun k y x hy hx => ?_
          exact ih k x hx (h k x y hx hy)
  | object fields ih =>
      cases h with
      | object _ ys hkeys h =>
          refine .object _ _ hkeys.symm fun k y x hy hx => ?_
          exact ih k x hx (h k x y hx hy)

section

variable {xs ys zs s t : List Value} {fields : Fields} {k : String} {v w x y : Value}

theorem forall₂_eq_of_shuffled (h : List.Forall₂ Shuffled xs ys)
    (heq : ∀ x ∈ xs, ∀ w, Shuffled x w → eq x w = true) : List.Forall₂ (fun x y => eq x y = true) xs ys :=
  ((List.forall₂_and_left xs ys).mpr ⟨heq, h⟩).imp fun _ y h => h.1 y h.2

theorem exists_of_forall₂ {R : Value → Value → Prop} (h : List.Forall₂ R xs ys) :
    (∀ x ∈ xs, ∃ y ∈ ys, R x y) ∧ ∀ y ∈ ys, ∃ x ∈ xs, R x y := by
  induction h with
  | nil => exact ⟨List.forall_mem_nil _, List.forall_mem_nil _⟩
  | @cons x y xs ys hxy _ ih =>
      refine ⟨List.forall_mem_cons.mpr ⟨⟨y, List.mem_cons_self, hxy⟩, ?_⟩,
        List.forall_mem_cons.mpr ⟨⟨x, List.mem_cons_self, hxy⟩, ?_⟩⟩
      · intro x hx
        obtain ⟨y, hy, h⟩ := ih.1 x hx
        exact ⟨y, List.mem_cons_of_mem _ hy, h⟩
      · intro y hy
        obtain ⟨x, hx, h⟩ := ih.2 y hy
        exact ⟨x, List.mem_cons_of_mem _ hx, h⟩

theorem eqAll_of_perm (hall : ∀ x ∈ xs, ∀ y ∈ xs, eq x y = true)
    (h : List.Forall₂ (fun x y => eq x y = true) xs ys) (hperm : ys.Perm zs) : eqAll xs zs = true := by
  rw [eqAll_iff, List.forall₂_iff_get]
  refine ⟨h.length_eq.trans hperm.length_eq, ?_⟩
  intro i hi hi'
  obtain ⟨x, hx, hxz⟩ := (exists_of_forall₂ h).2 _ (hperm.mem_iff.mpr (List.get_mem zs ⟨i, hi'⟩))
  exact eq_trans (hall _ (List.get_mem xs ⟨i, hi⟩) x hx) hxz

theorem Shuffled.eq (h : Shuffled v w) (hv : v.isOrderless = true) (hn : v.isNaNFree = true) :
    Value.eq v w = true := by
  rw [isOrderless] at hv
  rw [isNaNFree, everyNumber] at hn
  induction v using ValueOf.induct generalizing w with
  | null | unknown | bool b | number n | string s =>
      cases h
      exact eq_self_iff.mpr hn
  | list items ih =>
      cases h with
      | list _ ys h =>
          rw [everywhere_list] at hv hn
          exact eqAll_iff.mpr (forall₂_eq_of_shuffled h fun x hx w hw => ih x hx hw (hv.2 x hx) (hn.2 x hx))
  | tuple items ih =>
      cases h with
      | tuple _ ys h =>
          rw [everywhere_tuple] at hv hn
          exact eqAll_iff.mpr (forall₂_eq_of_shuffled h fun x hx w hw => ih x hx hw (hv.2 x hx) (hn.2 x hx))
  | set items ih =>
      cases h with
      | set _ ys zs h hperm =>
          rw [everywhere_set] at hv hn
          have hall : ∀ x ∈ items, ∀ y ∈ items, Value.eq x y = true := by
            simpa only [List.all_eq_true] using hv.1
          exact eqAll_of_perm hall (forall₂_eq_of_shuffled h fun x hx w hw => ih x hx hw (hv.2 x hx) (hn.2 x hx)) hperm
  | map fields ih =>
      cases h with
      | map _ ys hkeys h =>
          rw [everywhere_map] at hv hn
          refine eqFields_iff.mpr ⟨hkeys, fun k x hx y hy => ?_⟩
          exact ih k x hx (h k x y hx hy) (hv.2 k x hx) (hn.2 k x hx)
  | object fields ih =>
      cases h with
      | object _ ys hkeys h =>
          rw [everywhere_object] at hv hn
          refine eqFields_iff.mpr ⟨hkeys, fun k x hx y hy => ?_⟩
          exact ih k x hx (h k x y hx hy) (hv.2 k x hx) (hn.2 k x hx)

theorem Shuffled.isNaNFree (h : Shuffled v w) (hw : w.isNaNFree = true) : v.isNaNFree = true := by
  rw [Value.isNaNFree, everyNumber] at hw ⊢
  induction v using ValueOf.induct generalizing w with
  | null | unknown | bool b | number n | string s =>
      cases h
      exact hw
  | list items ih =>
      cases h with
      | list _ ys h =>
          rw [everywhere_list] at hw ⊢
          refine ⟨rfl, fun x hx => ?_⟩
          obtain ⟨y, hy, hxy⟩ := (exists_of_forall₂ h).1 x hx
          exact ih x hx hxy (hw.2 y hy)
  | tuple items ih =>
      cases h with
      | tuple _ ys h =>
          rw [everywhere_tuple] at hw ⊢
          refine ⟨rfl, fun x hx => ?_⟩
          obtain ⟨y, hy, hxy⟩ := (exists_of_forall₂ h).1 x hx
          exact ih x hx hxy (hw.2 y hy)
  | set items ih =>
      cases h with
      | set _ ys zs h hperm =>
          rw [everywhere_set] at hw ⊢
          refine ⟨rfl, fun x hx => ?_⟩
          obtain ⟨y, hy, hxy⟩ := (exists_of_forall₂ h).1 x hx
          exact ih x hx hxy (hw.2 y (hperm.mem_iff.mp hy))
  | map fields ih =>
      cases h with
      | map _ ys hkeys h =>
          rw [everywhere_map] at hw ⊢
          refine ⟨rfl, fun k x hx => ?_⟩
          obtain ⟨y, hy⟩ := OrdMap.exists_of_keys_eq hkeys hx
          exact ih k x hx (h k x y hx hy) (hw.2 k y hy)
  | object fields ih =>
      cases h with
      | object _ ys hkeys h =>
          rw [everywhere_object] at hw ⊢
          refine ⟨rfl, fun k x hx => ?_⟩
          obtain ⟨y, hy⟩ := OrdMap.exists_of_keys_eq hkeys hx
          exact ih k x hx (h k x y hx hy) (hw.2 k y hy)

theorem forall₂_replace (h : Shuffled x w) : List.Forall₂ Shuffled (s ++ x :: t) (s ++ w :: t) := by
  induction s with
  | nil => exact .cons h (List.forall₂_same.mpr fun y _ => .refl y)
  | cons y s ih => exact .cons (.refl y) ih

theorem eq_of_eqAll_replace (h : eqAll (s ++ x :: t) (s ++ w :: t) = true) : eq x w = true := by
  induction s with
  | nil => exact (Bool.and_eq_true_iff.mp h).1
  | cons y s ih => exact ih (Bool.and_eq_true_iff.mp h).2

theorem keys_insert (hx : (fields.get? k).isSome) (w : Value) : fields.keys = (fields.insert k w).keys := by
  apply OrdMap.keys_eq
  intro k'
  rw [OrdMap.get?_insert]
  split_ifs with hk
  · rw [hk, hx]
    rfl
  · rfl

theorem shuffled_insert (hx : fields.get? k = some x) (h : Shuffled x w) :
    fields.keys = (fields.insert k w).keys ∧
      ∀ k' x' y, fields.get? k' = some x' → (fields.insert k w).get? k' = some y → Shuffled x' y := by
  refine ⟨keys_insert (by rw [hx]; rfl) w, fun k' x' y hx' hy => ?_⟩
  rw [OrdMap.get?_insert] at hy
  split_ifs at hy with hk
  · subst hk
    obtain rfl := Option.some.inj (hx.symm.trans hx')
    obtain rfl := Option.some.inj hy
    exact h
  · obtain rfl := Option.some.inj (hx'.symm.trans hy)
    exact .refl _

theorem eq_of_eqFields_insert (hx : fields.get? k = some x) (h : eqFields fields (fields.insert k w) = true) :
    eq x w = true := (eqFields_iff.mp h).2 k x hx w (OrdMap.get?_insert_self fields k w)

theorem eq_of_forall_perm (h : ∀ ys, xs.Perm ys → eqAll xs ys = true) : ∀ x ∈ xs, ∀ y ∈ xs, eq x y = true := by
  cases xs with
  | nil => exact List.forall_mem_nil _
  | cons a xs =>
      have hhead : ∀ x ∈ a :: xs, eq a x = true := by
        intro x hx
        obtain ⟨s, t, hst⟩ := List.append_of_mem hx
        have hperm : (a :: xs).Perm (x :: (s ++ t)) := hst ▸ List.perm_middle
        exact (Bool.and_eq_true_iff.mp (h _ hperm)).1
      intro x hx y hy
      exact eq_trans (eq_comm x a ▸ hhead x hx) (hhead y hy)

theorem isOrderless_of_eq (h : ∀ w, Shuffled v w → eq v w = true) : v.isOrderless = true := by
  rw [isOrderless]
  induction v using ValueOf.induct with
  | null | unknown | bool b | number n | string s => rfl
  | list items ih =>
      refine everywhere_list.mpr ⟨rfl, fun x hx => ih x hx fun w hw => ?_⟩
      obtain ⟨s, t, rfl⟩ := List.append_of_mem hx
      exact eq_of_eqAll_replace (h _ (.list _ _ (forall₂_replace hw)))
  | tuple items ih =>
      refine everywhere_tuple.mpr ⟨rfl, fun x hx => ih x hx fun w hw => ?_⟩
      obtain ⟨s, t, rfl⟩ := List.append_of_mem hx
      exact eq_of_eqAll_replace (h _ (.tuple _ _ (forall₂_replace hw)))
  | set items ih =>
      refine everywhere_set.mpr ⟨?_, fun x hx => ih x hx fun w hw => ?_⟩
      · simp only [List.all_eq_true]
        apply eq_of_forall_perm
        exact fun ys hperm => h (.set ys) (.set _ _ _ (List.forall₂_same.mpr fun x _ => .refl x) hperm)
      · obtain ⟨s, t, rfl⟩ := List.append_of_mem hx
        exact eq_of_eqAll_replace (h _ (.set _ _ _ (forall₂_replace hw) (List.Perm.refl _)))
  | map fields ih =>
      refine everywhere_map.mpr ⟨rfl, fun k x hx => ih k x hx fun w hw => ?_⟩
      obtain ⟨hkeys, hfields⟩ := shuffled_insert hx hw
      exact eq_of_eqFields_insert hx (h _ (.map _ _ hkeys hfields))
  | object fields ih =>
      refine everywhere_object.mpr ⟨rfl, fun k x hx => ih k x hx fun w hw => ?_⟩
      obtain ⟨hkeys, hfields⟩ := shuffled_insert hx hw
      exact eq_of_eqFields_insert hx (h _ (.object _ _ hkeys hfields))

end

/-- The order of two values' sets plays no part in their comparison exactly when
they differ in every order, or no order can be told from another. -/
theorem eq_shuffled_iff {v w : Value} :
    (∀ v' w', Shuffled v v' → Shuffled w w' → eq v' w' = eq v w) ↔
      (SameSets v w → v.isOrderless = true ∧ w.isOrderless = true) := by
  constructor
  · rintro h ⟨v', w', hv', hw', heq⟩
    have hvw : eq v w = true := (h v' w' hv' hw').symm.trans heq
    constructor
    · apply isOrderless_of_eq
      intro x hx
      have hxw : eq x w = true := (h x w hx (.refl w)).trans hvw
      exact eq_trans hvw (eq_comm x w ▸ hxw)
    · apply isOrderless_of_eq
      intro x hx
      have hvx : eq v x = true := (h v x (.refl v) hx).trans hvw
      exact eq_trans (eq_comm v w ▸ hvw) hvx
  · intro h
    by_cases hsame : SameSets v w
    · obtain ⟨hv, hw⟩ := h hsame
      obtain ⟨v', w', hv', hw', heq⟩ := hsame
      have hvn : v.isNaNFree = true := hv'.isNaNFree (isNaNFree_of_eq heq)
      have hwn : w.isNaNFree = true := hw'.isNaNFree (isNaNFree_of_eq (eq_comm v' w' ▸ heq))
      have hvw : eq v w = true := eq_trans (hv'.eq hv hvn) (eq_trans heq (eq_comm w w' ▸ hw'.eq hw hwn))
      intro x y hx hy
      rw [hvw]
      exact eq_trans (eq_comm v x ▸ hx.eq hv hvn) (eq_trans hvw (hy.eq hw hwn))
    · intro x y hx hy
      have hno : ∀ x y, Shuffled v x → Shuffled w y → eq x y = false := by
        intro x y hx hy
        rw [← Bool.not_eq_true]
        exact fun heq => hsame ⟨x, y, hx, hy, heq⟩
      rw [hno x y hx hy, hno v w (.refl v) (.refl w)]

end Value

end TofuSdk
