import Mathlib.Data.List.Sort
import Mathlib.Data.List.Nodup
import Mathlib.Data.List.OfFn
import Mathlib.Data.List.Induction

namespace TofuSdk

/-- A finite map listing each key once, in increasing order. Values are
indexed by key position, so that the type may occur inside an inductive type
whose values it stores. -/
structure OrdMap (κ : Type) [LinearOrder κ] (α : Type*) where
  keys : List κ
  sorted : keys.Pairwise (· < ·)
  val : Fin keys.length → α

namespace OrdMap

variable {κ : Type} {α β γ : Type*} [LinearOrder κ]

def toList (m : OrdMap κ α) : List (κ × α) := List.ofFn fun i => (m.keys.get i, m.val i)

def get? (m : OrdMap κ α) (k : κ) : Option α :=
  if h : k ∈ m.keys then some (m.val ⟨m.keys.idxOf k, List.idxOf_lt_length_iff.mpr h⟩) else none

def map (f : α → β) (m : OrdMap κ α) : OrdMap κ β := ⟨m.keys, m.sorted, fun i => f (m.val i)⟩

def mapWithKey (f : κ → α → β) (m : OrdMap κ α) : OrdMap κ β :=
  ⟨m.keys, m.sorted, fun i => f (m.keys.get i) (m.val i)⟩

def modify (m : OrdMap κ α) (k : κ) (f : α → α) : OrdMap κ α :=
  m.mapWithKey fun k' a => if k' = k then f a else a

def ofSorted (l : List (κ × α)) (h : (l.map Prod.fst).Pairwise (· < ·)) : OrdMap κ α :=
  ⟨l.map Prod.fst, h, fun i => (l.get (i.cast (List.length_map _))).2⟩

def empty : OrdMap κ α := ofSorted [] List.Pairwise.nil

def insertEntry (k : κ) (a : α) : List (κ × α) → List (κ × α)
  | [] => [(k, a)]
  | p :: l => if k < p.1 then (k, a) :: p :: l
      else if k = p.1 then (k, a) :: l
      else p :: insertEntry k a l

theorem keys_nodup (m : OrdMap κ α) : m.keys.Nodup := m.sorted.imp ne_of_lt

theorem map_fst_toList (m : OrdMap κ α) : m.toList.map Prod.fst = m.keys := by
  simp [toList, List.map_ofFn, Function.comp_def]

theorem toList_map (f : α → β) (m : OrdMap κ α) : (m.map f).toList = m.toList.map fun p => (p.1, f p.2) := by
  simp [toList, map, List.map_ofFn, Function.comp_def]

theorem toList_mapWithKey (f : κ → α → β) (m : OrdMap κ α) :
    (m.mapWithKey f).toList = m.toList.map fun p => (p.1, f p.1 p.2) := by
  simp [toList, mapWithKey, List.map_ofFn, Function.comp_def]

theorem mem_insertEntry_fst {k : κ} {a : α} {l : List (κ × α)} {x : κ}
    (h : x ∈ (insertEntry k a l).map Prod.fst) : x = k ∨ x ∈ l.map Prod.fst := by
  induction l with
  | nil => simpa [insertEntry] using h
  | cons p l ih =>
      simp only [insertEntry] at h
      split_ifs at h with h₁ h₂
      · simpa using h
      · simp only [List.map_cons, List.mem_cons] at h ⊢
        tauto
      · simp only [List.map_cons, List.mem_cons] at h ⊢
        rcases h with h | h
        · exact Or.inr (Or.inl h)
        · exact (ih h).imp_right Or.inr

theorem insertEntry_sorted (k : κ) (a : α) (l : List (κ × α))
    (h : (l.map Prod.fst).Pairwise (· < ·)) :
    ((insertEntry k a l).map Prod.fst).Pairwise (· < ·) := by
  induction l with
  | nil => simp [insertEntry]
  | cons p l ih =>
      simp only [List.map_cons, List.pairwise_cons] at h
      simp only [insertEntry]
      split_ifs with h₁ h₂
      · simp only [List.map_cons, List.pairwise_cons, List.mem_cons]
        refine ⟨?_, h⟩
        rintro x (rfl | hx)
        · exact h₁
        · exact h₁.trans (h.1 x hx)
      · subst h₂
        simpa using h
      · simp only [List.map_cons, List.pairwise_cons]
        refine ⟨fun x hx => ?_, ih h.2⟩
        rcases mem_insertEntry_fst hx with rfl | hx
        · exact lt_of_le_of_ne (not_lt.mp h₁) (Ne.symm h₂)
        · exact h.1 x hx

def insert (m : OrdMap κ α) (k : κ) (a : α) : OrdMap κ α :=
  ofSorted (insertEntry k a m.toList)
    (insertEntry_sorted k a m.toList (by rw [map_fst_toList]; exact m.sorted))

def erase (m : OrdMap κ α) (k : κ) : OrdMap κ α :=
  ofSorted (m.toList.filter fun p => p.1 ≠ k)
    (List.Pairwise.sublist ((List.filter_sublist).map _) (by rw [map_fst_toList]; exact m.sorted))

/-- Insert the entries one after another, so that a later one wins. -/
def ofList (l : List (κ × α)) : OrdMap κ α := l.foldl (fun m p => m.insert p.1 p.2) empty

theorem get?_eq_some_iff {m : OrdMap κ α} {k : κ} {a : α} :
    m.get? k = some a ↔ ∃ i : Fin m.keys.length, m.keys.get i = k ∧ m.val i = a := by
  rw [get?]
  constructor
  · intro h
    split_ifs at h with hk
    exact ⟨_, by simp, Option.some.inj h⟩
  · rintro ⟨i, rfl, rfl⟩
    have hi : m.keys.get i ∈ m.keys := List.get_mem _ _
    rw [dif_pos hi]
    congr 2
    exact Fin.ext (by simpa using List.Nodup.idxOf_getElem m.keys_nodup i i.isLt)

theorem get?_isSome {m : OrdMap κ α} {k : κ} : (m.get? k).isSome ↔ k ∈ m.keys := by
  rw [get?]
  split_ifs with h <;> simp [h]

theorem get?_eq_none_iff {m : OrdMap κ α} {k : κ} : m.get? k = none ↔ k ∉ m.keys := by
  rw [← get?_isSome, Option.not_isSome_iff_eq_none]

theorem mem_toList {m : OrdMap κ α} {k : κ} {a : α} : (k, a) ∈ m.toList ↔ m.get? k = some a := by
  rw [get?_eq_some_iff, toList, List.mem_ofFn]
  exact exists_congr fun i => by simp

theorem val_mem (m : OrdMap κ α) (i : Fin m.keys.length) : m.get? (m.keys.get i) = some (m.val i) :=
  get?_eq_some_iff.mpr ⟨i, rfl, rfl⟩

theorem keys_eq {m : OrdMap κ α} {n : OrdMap κ β} (h : ∀ k, (m.get? k).isSome = (n.get? k).isSome) :
    m.keys = n.keys := by
  refine @List.Perm.eq_of_pairwise κ (· < ·) _ _ ?_ m.sorted n.sorted ?_
  · intro a b _ _ hab hba
    exact absurd hab hba.asymm
  · rw [List.perm_ext_iff_of_nodup m.keys_nodup n.keys_nodup]
    intro k
    rw [← get?_isSome, ← get?_isSome, h k]

theorem ext_get? {m n : OrdMap κ α} (h : ∀ k, m.get? k = n.get? k) : m = n := by
  have hk : m.keys = n.keys := keys_eq fun k => by rw [h k]
  obtain ⟨keys, sorted, val⟩ := m
  obtain ⟨keys', sorted', val'⟩ := n
  obtain rfl : keys = keys' := hk
  congr
  funext i
  have hm := val_mem ⟨keys, sorted, val⟩ i
  rw [h] at hm
  have hn := val_mem ⟨keys, sorted', val'⟩ i
  exact Option.some.inj (hm.symm.trans hn)

@[simp] theorem get?_map (f : α → β) (m : OrdMap κ α) (k : κ) :
    (m.map f).get? k = (m.get? k).map f := by
  unfold get? map
  split_ifs <;> rfl

@[simp] theorem get?_mapWithKey (f : κ → α → β) (m : OrdMap κ α) (k : κ) :
    (m.mapWithKey f).get? k = (m.get? k).map (f k) := by
  unfold get? mapWithKey
  split_ifs with h
  · simp
  · rfl

theorem mapWithKey_eq_iff {f g : κ → α → β} {m : OrdMap κ α} :
    m.mapWithKey f = m.mapWithKey g ↔ ∀ k a, m.get? k = some a → f k a = g k a := by
  constructor
  · intro h k a ha
    have hk := congrArg (get? · k) h
    simpa [ha] using hk
  · intro h
    apply ext_get?
    intro k
    rw [get?_mapWithKey, get?_mapWithKey]
    cases ha : m.get? k with
    | none => rfl
    | some a => rw [Option.map_some, Option.map_some, h k a ha]

theorem get?_modify (m : OrdMap κ α) (k k' : κ) (f : α → α) :
    (m.modify k f).get? k' = if k' = k then (m.get? k').map f else m.get? k' := by
  rw [modify, get?_mapWithKey]
  split_ifs with h
  · rfl
  · exact Option.map_id'

@[simp] theorem toList_ofSorted (l : List (κ × α)) (h : (l.map Prod.fst).Pairwise (· < ·)) :
    (ofSorted l h).toList = l := by
  apply List.ext_get
  · simp [toList, ofSorted]
  · intro i hi hi'
    simp [toList, ofSorted]

theorem get?_ofSorted (l : List (κ × α)) (h : (l.map Prod.fst).Pairwise (· < ·)) (k : κ) (a : α) :
    (ofSorted l h).get? k = some a ↔ (k, a) ∈ l := by
  rw [← mem_toList, toList_ofSorted]

theorem mem_insertEntry {k : κ} {a : α} {l : List (κ × α)} (h : (l.map Prod.fst).Pairwise (· < ·))
    (p : κ × α) : p ∈ insertEntry k a l ↔ p = (k, a) ∨ p ∈ l ∧ p.1 ≠ k := by
  induction l with
  | nil => simp [insertEntry]
  | cons q l ih =>
      simp only [List.map_cons, List.pairwise_cons, List.mem_map, forall_exists_index, and_imp] at h
      have hl : ∀ p ∈ l, q.1 < p.1 := fun p hp => h.1 p.1 p hp rfl
      simp only [insertEntry]
      split_ifs with h₁ h₂
      · have hne : ∀ p ∈ q :: l, p.1 ≠ k := by
          intro p hp
          rcases List.mem_cons.mp hp with rfl | hp
          · exact ne_of_gt h₁
          · exact ne_of_gt (h₁.trans (hl p hp))
        rw [List.mem_cons]
        exact or_congr_right ⟨fun hp => ⟨hp, hne p hp⟩, And.left⟩
      · subst h₂
        simp only [List.mem_cons]
        constructor
        · rintro (rfl | hp)
          · exact Or.inl rfl
          · exact Or.inr ⟨Or.inr hp, ne_of_gt (hl p hp)⟩
        · rintro (rfl | ⟨rfl | hp, hne⟩)
          · exact Or.inl rfl
          · exact absurd rfl hne
          · exact Or.inr hp
      · simp only [List.mem_cons, ih h.2]
        constructor
        · rintro (rfl | rfl | ⟨hp, hne⟩)
          · exact Or.inr ⟨Or.inl rfl, Ne.symm h₂⟩
          · exact Or.inl rfl
          · exact Or.inr ⟨Or.inr hp, hne⟩
        · rintro (rfl | ⟨rfl | hp, hne⟩)
          · exact Or.inr (Or.inl rfl)
          · exact Or.inl rfl
          · exact Or.inr (Or.inr ⟨hp, hne⟩)

theorem get?_insert (m : OrdMap κ α) (k k' : κ) (a : α) :
    (m.insert k a).get? k' = if k' = k then some a else m.get? k' := by
  have hm : (m.toList.map Prod.fst).Pairwise (· < ·) := by rw [map_fst_toList]; exact m.sorted
  ext b
  rw [insert, get?_ofSorted, mem_insertEntry hm]
  split_ifs with h
  · simp [h, eq_comm]
  · simp [h, mem_toList]

@[simp] theorem get?_insert_self (m : OrdMap κ α) (k : κ) (a : α) :
    (m.insert k a).get? k = some a := by simp [get?_insert]

theorem get?_insert_of_ne (m : OrdMap κ α) {k k' : κ} (a : α) (h : k' ≠ k) :
    (m.insert k a).get? k' = m.get? k' := by simp [get?_insert, h]

theorem get?_erase (m : OrdMap κ α) (k k' : κ) :
    (m.erase k).get? k' = if k' = k then none else m.get? k' := by
  ext b
  rw [erase, get?_ofSorted, List.mem_filter, mem_toList]
  split_ifs with h <;> simp [h]

@[simp] theorem get?_empty (k : κ) : (empty : OrdMap κ α).get? k = none := rfl

theorem insert_erase (m : OrdMap κ α) {k : κ} {a : α} (h : m.get? k = some a) (f : α → α) :
    (m.erase k).insert k (f a) = m.modify k f := by
  apply ext_get?
  intro k'
  rw [get?_insert, get?_erase, get?_modify]
  split_ifs with hk
  · rw [hk, h, Option.map_some]
  · rfl

theorem insert_eq_modify (m : OrdMap κ α) {k : κ} {a : α} (h : m.get? k = some a) (f : α → α) :
    m.insert k (f a) = m.modify k f := by
  apply ext_get?
  intro k'
  rw [get?_insert, get?_modify]
  split_ifs with hk
  · rw [hk, h, Option.map_some]
  · rfl

theorem modify_of_get?_eq_none (m : OrdMap κ α) {k : κ} (h : m.get? k = none) (f : α → α) :
    m.modify k f = m := by
  apply ext_get?
  intro k'
  rw [get?_modify]
  split_ifs with hk
  · rw [hk, h, Option.map_none]
  · rfl

def alter (m : OrdMap κ α) (k : κ) (f : Option α → Option α) : OrdMap κ α :=
  match f (m.get? k) with
  | some a => m.insert k a
  | none => m.erase k

theorem get?_alter (m : OrdMap κ α) (k k' : κ) (f : Option α → Option α) :
    (m.alter k f).get? k' = if k' = k then f (m.get? k) else m.get? k' := by
  rw [alter]
  cases h : f (m.get? k) with
  | some a => exact get?_insert m k k' a
  | none => exact get?_erase m k k'

theorem modify_congr {m : OrdMap κ α} {k : κ} {f g : α → α} (h : ∀ a, m.get? k = some a → f a = g a) :
    m.modify k f = m.modify k g := by
  apply ext_get?
  intro k'
  rw [get?_modify, get?_modify]
  split_ifs with hk
  · subst hk
    exact Option.map_congr h
  · rfl

theorem modify_eq_self {m : OrdMap κ α} {k : κ} {f : α → α} (h : ∀ a, m.get? k = some a → f a = a) :
    m.modify k f = m := by
  rw [modify_congr h]
  apply ext_get?
  intro k'
  rw [get?_modify]
  split_ifs
  · exact Option.map_id'
  · rfl

theorem modify_modify (m : OrdMap κ α) (k : κ) (f g : α → α) :
    (m.modify k f).modify k g = m.modify k fun a => g (f a) := by
  apply ext_get?
  intro k'
  rw [get?_modify, get?_modify, get?_modify]
  by_cases hk : k' = k
  · simp [hk, Function.comp_def]
  · simp [hk]

theorem map_modify {f : α → β} {g : α → α} (h : ∀ a, f (g a) = f a) (m : OrdMap κ α) (k : κ) :
    (m.modify k g).map f = m.map f := by
  apply ext_get?
  intro k'
  rw [get?_map, get?_map, get?_modify]
  split_ifs
  · rw [Option.map_map]
    exact Option.map_congr fun a _ => h a
  · rfl

theorem modify_comm (m : OrdMap κ α) {k k' : κ} (h : k ≠ k') (f g : α → α) :
    (m.modify k f).modify k' g = (m.modify k' g).modify k f := by
  apply ext_get?
  intro k''
  simp only [get?_modify]
  by_cases hk : k'' = k
  · have hk' : k'' ≠ k' := fun h' => h (hk.symm.trans h')
    simp only [if_neg hk', if_pos hk]
  · rw [if_neg hk, if_neg hk]

theorem alter_map_eq_modify (m : OrdMap κ α) (k : κ) (f : α → α) :
    m.alter k (Option.map f) = m.modify k f := by
  apply ext_get?
  intro k'
  rw [get?_alter, get?_modify]
  split_ifs with h
  · rw [h]
  · rfl

theorem alter_eq_self {m : OrdMap κ α} {k : κ} {f : Option α → Option α} (h : f (m.get? k) = m.get? k) :
    m.alter k f = m := by
  apply ext_get?
  intro k'
  rw [get?_alter]
  split_ifs with hk
  · rw [h, hk]
  · rfl

theorem get?_foldl_alter_of_notMem (key : β → κ) (f : β → Option α → Option α) {l : List β}
    {k : κ} (hk : k ∉ l.map key) (m : OrdMap κ α) :
    (l.foldl (fun m b => m.alter (key b) (f b)) m).get? k = m.get? k := by
  induction l generalizing m with
  | nil => rfl
  | cons b l ih =>
      rw [List.map_cons, List.mem_cons, not_or] at hk
      rw [List.foldl_cons, ih hk.2, get?_alter, if_neg hk.1]

theorem get?_foldl_alter_filter (key : β → κ) (f : β → Option α → Option α) (l : List β) (m : OrdMap κ α) (k : κ) :
    (l.foldl (fun m b => m.alter (key b) (f b)) m).get? k =
      (l.filter fun b => key b = k).foldl (fun a b => f b a) (m.get? k) := by
  induction l generalizing m with
  | nil => rfl
  | cons b l ih =>
      rw [List.foldl_cons, ih, get?_alter]
      by_cases h : key b = k
      · rw [List.filter_cons_of_pos (by simpa using h), List.foldl_cons, if_pos h.symm, h]
      · rw [List.filter_cons_of_neg (by simpa using h), if_neg fun hk => h hk.symm]

theorem get?_foldl_alter (key : β → κ) (f : β → Option α → Option α) {l : List β}
    (hl : (l.map key).Nodup) {b : β} (hb : b ∈ l) (m : OrdMap κ α) :
    (l.foldl (fun m b => m.alter (key b) (f b)) m).get? (key b) = f b (m.get? (key b)) := by
  induction l generalizing m with
  | nil => cases hb
  | cons b' l ih =>
      rw [List.map_cons, List.nodup_cons] at hl
      rw [List.foldl_cons]
      rcases List.mem_cons.mp hb with rfl | hb
      · rw [get?_foldl_alter_of_notMem key f hl.1, get?_alter, if_pos rfl]
      · have hne : key b ≠ key b' := fun h => hl.1 (h ▸ List.mem_map_of_mem hb)
        rw [ih hl.2 hb, get?_alter, if_neg hne]

theorem get?_foldl_toList (entries : OrdMap κ β) (f : κ → β → Option α → Option α) (m : OrdMap κ α) (k : κ) :
    (entries.toList.foldl (fun m entry => m.alter entry.1 (f entry.1 entry.2)) m).get? k =
      (entries.get? k).elim (m.get? k) fun b => f k b (m.get? k) := by
  cases hb : entries.get? k with
  | some b =>
      exact get?_foldl_alter (β := κ × β) Prod.fst (fun entry => f entry.1 entry.2)
        (entries.map_fst_toList ▸ entries.keys_nodup) (mem_toList.mpr hb) m
  | none =>
      apply get?_foldl_alter_of_notMem (β := κ × β) Prod.fst (fun entry => f entry.1 entry.2)
      rw [entries.map_fst_toList]
      exact get?_eq_none_iff.mp hb

theorem forall_val {m : OrdMap κ α} {P : κ → α → Prop} :
    (∀ i, P (m.keys.get i) (m.val i)) ↔ ∀ k a, m.get? k = some a → P k a := by
  constructor
  · intro h k a ha
    obtain ⟨i, rfl, rfl⟩ := get?_eq_some_iff.mp ha
    exact h i
  · exact fun h i => h _ _ (m.val_mem i)

/-- Maps that one function does not tell apart are not told apart by another
that sees no more. -/
theorem map_eq_map_of {γ : Type*} {f : α → β} {g : α → γ} {m n : OrdMap κ α} (h : m.map f = n.map f)
    (hg : ∀ k b, n.get? k = some b → ∀ a, f a = f b → g a = g b) : m.map g = n.map g := by
  apply ext_get?
  intro k
  have hk := congrArg (get? · k) h
  simp only [get?_map] at hk ⊢
  cases hn : n.get? k with
  | none =>
      rw [hn, Option.map_none, Option.map_eq_none_iff] at hk
      rw [hk]
  | some b =>
      rw [hn, Option.map_some, Option.map_eq_some_iff] at hk
      obtain ⟨a, ha, hab⟩ := hk
      rw [ha, Option.map_some, Option.map_some, hg k b hn a hab]

theorem exists_of_keys_eq {m : OrdMap κ α} {n : OrdMap κ β} (h : m.keys = n.keys) {k : κ} {a : α}
    (ha : m.get? k = some a) : ∃ b, n.get? k = some b := by
  rw [← Option.isSome_iff_exists, get?_isSome, ← h, ← get?_isSome, ha]
  rfl

theorem toList_injective : Function.Injective (toList : OrdMap κ α → List (κ × α)) := by
  intro m n h
  apply ext_get?
  intro k
  ext a
  rw [← mem_toList, ← mem_toList, h]

theorem get?_ofList (l : List (κ × α)) (k : κ) :
    (ofList l).get? k = (l.reverse.find? fun p => p.1 = k).map Prod.snd := by
  induction l using List.reverseRecOn with
  | nil => rfl
  | append_singleton l p ih =>
      rw [ofList, List.foldl_concat, get?_insert, List.reverse_append, List.reverse_singleton,
        List.singleton_append, List.find?_cons]
      by_cases h : p.1 = k
      · simp [h]
      · simpa [h, Ne.symm h, ofList] using ih

theorem get?_ofList_of_nodup {l : List (κ × α)} (hl : (l.map Prod.fst).Nodup) (k : κ) (a : α) :
    (ofList l).get? k = some a ↔ (k, a) ∈ l := by
  have huniq : ∀ p ∈ l, ∀ q ∈ l, p.1 = q.1 → p = q := fun p hp q hq h =>
    List.inj_on_of_nodup_map hl hp hq h
  rw [get?_ofList, Option.map_eq_some_iff]
  constructor
  · rintro ⟨⟨k', a'⟩, hp, rfl⟩
    have hk : k' = k := by simpa using List.find?_some hp
    exact hk ▸ List.mem_reverse.mp (List.mem_of_find?_eq_some hp)
  · intro hmem
    obtain ⟨p, hp⟩ := Option.isSome_iff_exists.mp (List.find?_isSome.mpr
      ⟨(k, a), List.mem_reverse.mpr hmem, by simp⟩ : (l.reverse.find? fun p => p.1 = k).isSome)
    have hk : p.1 = k := by simpa using List.find?_some hp
    refine ⟨p, hp, ?_⟩
    rw [huniq p (List.mem_reverse.mp (List.mem_of_find?_eq_some hp)) (k, a) hmem hk]

theorem ofList_eq_of_mem {l l' : List (κ × α)} (hl : (l.map Prod.fst).Nodup) (hl' : (l'.map Prod.fst).Nodup)
    (h : ∀ p, p ∈ l ↔ p ∈ l') : ofList l = ofList l' := by
  apply ext_get?
  intro k
  ext a
  rw [get?_ofList_of_nodup hl, get?_ofList_of_nodup hl', h]

theorem mem_of_get?_ofList {l : List (κ × α)} {k : κ} {a : α} (h : (ofList l).get? k = some a) : (k, a) ∈ l := by
  rw [get?_ofList] at h
  obtain ⟨p, hp, rfl⟩ := Option.map_eq_some_iff.mp h
  have hk : p.1 = k := by simpa using List.find?_some hp
  exact hk ▸ List.mem_reverse.mp (List.mem_of_find?_eq_some hp)

theorem mem_keys_ofList {l : List (κ × α)} {k : κ} :
    k ∈ (ofList l).keys ↔ k ∈ l.map Prod.fst := by
  rw [← get?_isSome, get?_ofList, Option.isSome_map, List.find?_isSome]
  simp

@[simp] theorem ofList_toList (m : OrdMap κ α) : ofList m.toList = m := by
  apply ext_get?
  intro k
  ext a
  rw [get?_ofList_of_nodup (by rw [map_fst_toList]; exact m.keys_nodup), mem_toList]

theorem toList_ofList_perm {l : List (κ × α)} (hl : (l.map Prod.fst).Nodup) : (ofList l).toList.Perm l := by
  rw [List.perm_ext_iff_of_nodup]
  · rintro ⟨k, a⟩
    rw [mem_toList, get?_ofList_of_nodup hl]
  · exact List.Nodup.of_map Prod.fst (by rw [map_fst_toList]; exact keys_nodup _)
  · exact List.Nodup.of_map Prod.fst hl

theorem ofList_map_toList (f : κ → α → β) (m : OrdMap κ α) :
    ofList (m.toList.map fun p => (p.1, f p.1 p.2)) = m.mapWithKey f := by
  rw [← toList_mapWithKey, ofList_toList]

theorem map_insert (f : α → β) (m : OrdMap κ α) (k : κ) (a : α) :
    (m.insert k a).map f = (m.map f).insert k (f a) := by
  apply ext_get?
  intro k'
  rw [get?_map, get?_insert, get?_insert, get?_map]
  split_ifs <;> rfl

theorem map_ofList (f : α → β) (l : List (κ × α)) :
    (ofList l).map f = ofList (l.map fun p => (p.1, f p.2)) := by
  induction l using List.reverseRecOn with
  | nil => exact ext_get? fun k => by rw [get?_map]; rfl
  | append_singleton l p ih =>
      simp only [ofList, List.map_append, List.map_cons, List.map_nil, List.foldl_concat] at ih ⊢
      rw [map_insert, ih]

theorem ofList_map_eq_iff {ι : Type*} {key : ι → κ} {f g : ι → α} {l : List ι} (hl : (l.map key).Nodup) :
    ofList (l.map fun i => (key i, f i)) = ofList (l.map fun i => (key i, g i)) ↔ ∀ i ∈ l, f i = g i := by
  have hnodup : ∀ h : ι → α, ((l.map fun i => (key i, h i)).map Prod.fst).Nodup := by
    intro h
    rwa [List.map_map]
  constructor
  · intro h i hi
    have hf : (ofList (l.map fun i => (key i, f i))).get? (key i) = some (f i) :=
      (get?_ofList_of_nodup (hnodup f) _ _).mpr (List.mem_map_of_mem hi)
    obtain ⟨i', hi', hp⟩ := List.mem_map.mp ((get?_ofList_of_nodup (hnodup g) _ _).mp (h ▸ hf))
    obtain ⟨hkey, hval⟩ := Prod.mk.inj hp
    rw [← hval, List.inj_on_of_nodup_map hl hi' hi hkey]
  · intro h
    congr 1
    apply List.map_congr_left
    intro i hi
    rw [h i hi]

theorem get?_ofList_map {ι : Type*} {key : ι → κ} {l : List ι} (hl : (l.map key).Nodup) (f : ι → α) {i : ι}
    (hi : i ∈ l) : (ofList (l.map fun i => (key i, f i))).get? (key i) = some (f i) := by
  rw [get?_ofList_of_nodup (by rwa [List.map_map])]
  exact List.mem_map_of_mem hi

theorem ofList_getD {ι : Type*} {key : ι → κ} {l : List ι} (hl : (l.map key).Nodup) {m : OrdMap κ α}
    (hkeys : ∀ k, k ∈ m.keys ↔ k ∈ l.map key) (d : α) :
    ofList (l.map fun i => (key i, (m.get? (key i)).getD d)) = m := by
  apply ext_get?
  intro k
  by_cases hk : k ∈ l.map key
  · obtain ⟨i, hi, rfl⟩ := List.mem_map.mp hk
    obtain ⟨a, ha⟩ := Option.isSome_iff_exists.mp (get?_isSome.mpr ((hkeys (key i)).mpr hk))
    rw [get?_ofList_map hl _ hi, ha, Option.getD_some]
  · rw [get?_eq_none_iff.mpr (fun h => hk ((hkeys k).mp h)), get?_eq_none_iff, mem_keys_ofList, List.map_map]
    exact hk

theorem find?_of_nodup {l : List (κ × α)} (hl : (l.map Prod.fst).Nodup) {p : κ × α} (hp : p ∈ l) :
    (l.find? fun q => q.1 = p.1) = some p := by
  obtain ⟨q, hq⟩ := Option.isSome_iff_exists.mp
    (List.find?_isSome.mpr ⟨p, hp, by simp⟩ : (l.find? fun q => q.1 = p.1).isSome)
  have hk : q.1 = p.1 := by simpa using List.find?_some hq
  rw [hq, List.inj_on_of_nodup_map hl (List.mem_of_find?_eq_some hq) hp hk]

instance [DecidableEq α] : DecidableEq (OrdMap κ α) := fun _ _ =>
  decidable_of_iff _ toList_injective.eq_iff

end OrdMap

end TofuSdk
