import TofuSdk.Outcome
import Mathlib.Data.String.Basic

namespace TofuSdk

/-- The own properties of an object, in their order. Values are indexed by key
position, so that the type may occur inside an inductive type. -/
structure Entries (α : Type*) where
  keys : List String
  nodup : keys.Nodup
  val : Fin keys.length → α

namespace Entries

variable {α β : Type*}

def toList (e : Entries α) : List (String × α) := List.ofFn fun i => (e.keys.get i, e.val i)

def map (f : α → β) (e : Entries α) : Entries β := ⟨e.keys, e.nodup, fun i => f (e.val i)⟩

def ofList (l : List (String × α)) (h : (l.map Prod.fst).Nodup) : Entries α :=
  ⟨l.map Prod.fst, h, fun i => (l.get (i.cast (List.length_map _))).2⟩

def mapWithKey (f : String → α → β) (e : Entries α) : Entries β :=
  ⟨e.keys, e.nodup, fun i => f (e.keys.get i) (e.val i)⟩

def filterMap (f : String → α → Option β) (e : Entries α) : Entries β :=
  ofList (e.toList.filterMap fun p => (f p.1 p.2).map (p.1, ·)) (by
    refine List.Nodup.sublist ?_ (show (e.toList.map Prod.fst).Nodup from ?_)
    · induction e.toList with
      | nil => exact .slnil
      | cons p l ih =>
          rw [List.filterMap_cons]
          cases f p.1 p.2 with
          | none => exact ih.cons _
          | some b => exact ih.cons_cons _
    · simpa [toList, List.map_ofFn, Function.comp_def] using e.nodup)

def sequenceFin {ε γ : Type} : {n : Nat} → (Fin n → Except ε γ) → Except ε (Fin n → γ)
  | 0, _ => .ok Fin.elim0
  | _ + 1, f => do
      let a ← f 0
      let rest ← sequenceFin fun i => f i.succ
      pure (Fin.cons a rest)

def sequence {ε γ : Type} (e : Entries (Except ε γ)) : Except ε (Entries γ) :=
  (fun val => ⟨e.keys, e.nodup, val⟩) <$> sequenceFin e.val

def get? (e : Entries α) (k : String) : Option α := (e.toList.find? (·.1 = k)).map Prod.snd

def empty : Entries α := ofList [] List.nodup_nil

theorem nodup_append_single {e : Entries α} {k : String} (h : k ∉ e.keys) (a : α) :
    ((e.toList ++ [(k, a)]).map Prod.fst).Nodup := by
  have hkeys : e.toList.map Prod.fst = e.keys := by simp [toList, List.map_ofFn, Function.comp_def]
  rw [List.map_append, hkeys, List.map_singleton, List.nodup_append]
  refine ⟨e.nodup, List.nodup_singleton k, fun k' hl k'' hr heq => h ?_⟩
  obtain rfl : k'' = k := List.mem_singleton.mp hr
  rwa [← heq]

def insert (e : Entries α) (k : String) (a : α) : Entries α :=
  if h : k ∈ e.keys then e.mapWithKey fun k' a' => if k' = k then a else a'
  else ofList (e.toList ++ [(k, a)]) (nodup_append_single h a)

def ofMembers (l : List (String × α)) : Entries α := l.foldl (fun e p => e.insert p.1 p.2) empty

@[simp] theorem keys_map (f : α → β) (e : Entries α) : (e.map f).keys = e.keys := rfl

theorem map_fst_toList (e : Entries α) : e.toList.map Prod.fst = e.keys := by
  simp [toList, List.map_ofFn, Function.comp_def]

theorem nodup_toList (e : Entries α) : (e.toList.map Prod.fst).Nodup := by
  rw [map_fst_toList]
  exact e.nodup

theorem toList_map (f : α → β) (e : Entries α) : (e.map f).toList = e.toList.map fun p => (p.1, f p.2) := by
  simp [toList, map, List.map_ofFn, Function.comp_def]

theorem toList_mapWithKey (f : String → α → β) (e : Entries α) :
    (e.mapWithKey f).toList = e.toList.map fun p => (p.1, f p.1 p.2) := by
  simp [toList, mapWithKey, List.map_ofFn, Function.comp_def]

theorem sequenceFin_eq_ok {ε γ : Type} {n : Nat} {f : Fin n → Except ε γ} {g : Fin n → γ} (h : ∀ i, f i = .ok (g i)) :
    sequenceFin f = .ok g := by
  induction n with
  | zero =>
      rw [sequenceFin]
      congr
      funext i
      exact i.elim0
  | succ n ih =>
      rw [sequenceFin, h 0, Outcome.ok_bind, ih fun i => h i.succ]
      exact congrArg Except.ok (Fin.cons_self_tail g)

theorem ofFn_sequenceFin {ε γ : Type} {n : Nat} (f : Fin n → Except ε γ) :
    List.ofFn <$> sequenceFin f = (List.ofFn f).mapM id := by
  induction n with
  | zero => rfl
  | succ n ih =>
      rw [sequenceFin, List.ofFn_succ, List.mapM_cons, ← ih]
      cases f 0 with
      | error e => rfl
      | ok a =>
          cases sequenceFin fun i => f i.succ with
          | error e => rfl
          | ok rest => exact congrArg Except.ok (by rw [List.ofFn_succ]; rfl)

theorem sequence_eq_error {ε γ : Type} {e : Entries (Except ε γ)} {err : ε} :
    e.sequence = .error err ↔ e.toList.mapM Prod.snd = .error err := by
  have hlist : List.ofFn <$> sequenceFin e.val = e.toList.mapM Prod.snd := by
    have hvals : List.ofFn e.val = e.toList.map Prod.snd := by
      rw [toList, List.map_ofFn]
      rfl
    rw [ofFn_sequenceFin, hvals, List.mapM_map]
    rfl
  rw [sequence, ← hlist]
  cases sequenceFin e.val <;> simp

theorem of_sequenceFin {ε γ : Type} {n : Nat} {f : Fin n → Except ε γ} {g : Fin n → γ}
    (h : sequenceFin f = .ok g) (i : Fin n) : f i = .ok (g i) := by
  induction n with
  | zero => exact i.elim0
  | succ n ih =>
      rw [sequenceFin] at h
      obtain ⟨a, ha, h⟩ := Outcome.bind_eq_ok.mp h
      obtain ⟨rest, hrest, h⟩ := Outcome.bind_eq_ok.mp h
      obtain rfl := Except.ok.inj h
      refine Fin.cases ha (fun j => ?_) i
      exact ih hrest j

@[simp] theorem toList_ofList (l : List (String × α)) (h : (l.map Prod.fst).Nodup) : (ofList l h).toList = l := by
  apply List.ext_get
  · simp [toList, ofList]
  · intro i hi hi'
    simp [toList, ofList]

theorem ext_toList {e e' : Entries α} (h : e.toList = e'.toList) : e = e' := by
  obtain ⟨keys, nodup, val⟩ := e
  obtain ⟨keys', nodup', val'⟩ := e'
  have hkeys := congrArg (List.map Prod.fst) h
  rw [map_fst_toList, map_fst_toList] at hkeys
  obtain rfl : keys = keys' := hkeys
  congr
  funext i
  exact congrArg Prod.snd (congrFun (List.ofFn_injective h) i)

theorem forall_val {e : Entries α} {P : α → Prop} : (∀ i, P (e.val i)) ↔ ∀ p ∈ e.toList, P p.2 := by
  simp [toList, List.mem_ofFn]

theorem get?_eq_some {e : Entries α} {k : String} {a : α} : e.get? k = some a ↔ (k, a) ∈ e.toList := by
  rw [get?, Option.map_eq_some_iff]
  constructor
  · rintro ⟨⟨k', a'⟩, hp, rfl⟩
    obtain rfl : k' = k := by simpa using List.find?_some hp
    exact List.mem_of_find?_eq_some hp
  · intro hmem
    exact ⟨(k, a), OrdMap.find?_of_nodup e.nodup_toList hmem, rfl⟩

theorem get?_eq_none {e : Entries α} {k : String} : e.get? k = none ↔ k ∉ e.keys := by
  rw [get?, Option.map_eq_none_iff, List.find?_eq_none, ← map_fst_toList]
  simp only [decide_eq_true_eq, List.mem_map, not_exists, not_and]

theorem toList_filterMap (f : String → α → Option β) (e : Entries α) :
    (e.filterMap f).toList = e.toList.filterMap fun p => (f p.1 p.2).map (p.1, ·) := toList_ofList _ _

theorem mem_keys_filterMap {f : String → α → Option β} {e : Entries α} {k : String} (h : k ∈ (e.filterMap f).keys) :
    ∃ p ∈ e.toList, p.1 = k ∧ ∃ b, f p.1 p.2 = some b := by
  rw [← map_fst_toList, toList_filterMap] at h
  obtain ⟨q, hq, rfl⟩ := List.mem_map.mp h
  obtain ⟨p, hp, heq⟩ := List.mem_filterMap.mp hq
  obtain ⟨b, hb, rfl⟩ := Option.map_eq_some_iff.mp heq
  exact ⟨p, hp, rfl, b, hb⟩

theorem filterMap_eq_map {f : String → α → Option β} {g : α → β} {e : Entries α}
    (h : ∀ p ∈ e.toList, f p.1 p.2 = some (g p.2)) : e.filterMap f = e.map g := by
  apply ext_toList
  rw [toList_filterMap, toList_map, List.filterMap_congr fun p hp => by rw [h p hp]]
  exact congrFun (List.filterMap_eq_map (f := fun p : String × α => (p.1, g p.2))) e.toList

theorem map_mapWithKey_eq_iff {f : String → α → α} {g : α → β} {e : Entries α} :
    (e.mapWithKey f).map g = e.map g ↔ ∀ p ∈ e.toList, g (f p.1 p.2) = g p.2 := by
  constructor
  · intro h
    have hlist := congrArg toList h
    rw [toList_map, toList_map, toList_mapWithKey, List.map_map, List.map_inj_left] at hlist
    exact fun p hp => (Prod.mk.inj (hlist p hp)).2
  · intro h
    apply ext_toList
    rw [toList_map, toList_map, toList_mapWithKey, List.map_map, List.map_inj_left]
    exact fun p hp => congrArg (Prod.mk p.1) (h p hp)

theorem sequence_eq_ok {ε γ : Type} {e : Entries α} {f : α → Except ε γ} {g : α → γ}
    (h : ∀ p ∈ e.toList, f p.2 = .ok (g p.2)) : (e.map f).sequence = .ok (e.map g) := by
  have hval : ∀ i, f (e.val i) = .ok (g (e.val i)) :=
    (forall_val (P := fun a => f a = .ok (g a))).mpr h
  rw [sequence]
  exact Outcome.map_eq_ok.mpr ⟨_, sequenceFin_eq_ok hval, rfl⟩

@[simp] theorem get?_mapWithKey (f : String → α → β) (e : Entries α) (k : String) :
    (e.mapWithKey f).get? k = (e.get? k).map (f k) := by
  cases h : e.get? k with
  | none =>
      rw [get?_eq_none] at h
      exact get?_eq_none.mpr h
  | some a =>
      rw [get?_eq_some] at h
      rw [Option.map_some, get?_eq_some, toList_mapWithKey]
      exact List.mem_map.mpr ⟨(k, a), h, rfl⟩

theorem get?_insert (e : Entries α) (k k' : String) (a : α) :
    (e.insert k a).get? k' = if k' = k then some a else e.get? k' := by
  rw [insert]
  by_cases h : k ∈ e.keys
  · rw [dif_pos h, get?_mapWithKey]
    split_ifs with heq
    · subst heq
      cases hget : e.get? k' with
      | none => exact absurd h (get?_eq_none.mp hget)
      | some a' => rfl
    · exact Option.map_id_fun' ▸ rfl
  · rw [dif_neg h, get?, toList_ofList, List.find?_append, List.find?_singleton]
    by_cases heq : k' = k
    · subst heq
      rw [Option.map_eq_none_iff.mp (get?_eq_none.mpr h)]
      simp
    · simp [get?, heq, Ne.symm heq]

theorem get?_ofMembers (l : List (String × α)) (k : String) : (ofMembers l).get? k = (OrdMap.ofList l).get? k := by
  have hfold : ∀ (e : Entries α) (m : OrdMap String α), (∀ k, e.get? k = m.get? k) →
      ∀ k, (l.foldl (fun e p => e.insert p.1 p.2) e).get? k =
        (l.foldl (fun m p => m.insert p.1 p.2) m).get? k := by
    induction l with
    | nil => exact fun e m h => h
    | cons p l ih =>
        intro e m h
        apply ih
        intro k
        rw [get?_insert, OrdMap.get?_insert, h]
  exact hfold empty OrdMap.empty (fun _ => rfl) k

theorem toList_ofMembers {l : List (String × α)} (h : (l.map Prod.fst).Nodup) : (ofMembers l).toList = l := by
  have hfold : ∀ e : Entries α, ((e.toList ++ l).map Prod.fst).Nodup →
      (l.foldl (fun e p => e.insert p.1 p.2) e).toList = e.toList ++ l := by
    clear h
    induction l with
    | nil => exact fun e _ => (List.append_nil _).symm
    | cons p l ih =>
        intro e h
        have hnew : p.1 ∉ e.keys := by
          rw [← map_fst_toList]
          rw [List.map_append, List.nodup_append] at h
          exact fun hp => h.2.2 p.1 hp p.1 (List.mem_map_of_mem List.mem_cons_self) rfl
        have hinsert : (e.insert p.1 p.2).toList = e.toList ++ [p] := by
          rw [insert, dif_neg hnew, toList_ofList]
        have happ : e.toList ++ p :: l = e.toList ++ [p] ++ l := by simp
        rw [List.foldl_cons, ih _ (by rwa [hinsert, ← happ]), hinsert, happ]
  exact hfold empty h

theorem get?_ofList_toList (e : Entries α) (k : String) : (OrdMap.ofList e.toList).get? k = e.get? k := by
  apply Option.ext
  intro a
  rw [OrdMap.get?_ofList_of_nodup e.nodup_toList, get?_eq_some]

@[simp] theorem get?_map (f : α → β) (e : Entries α) (k : String) : (e.map f).get? k = (e.get? k).map f := by
  rw [get?, get?, toList_map, List.find?_map, Option.map_map, Option.map_map]
  rfl

theorem get?_of_sequence {ε γ : Type} {e : Entries α} {f : α → Except ε γ} {out : Entries γ}
    (h : (e.map f).sequence = .ok out) (k : String) :
    (out.get? k).map Except.ok = (e.get? k).map f := by
  obtain ⟨g, hg, rfl⟩ := Outcome.map_eq_ok.mp h
  have hval := of_sequenceFin hg
  have hlist : ((⟨e.keys, e.nodup, g⟩ : Entries γ).map Except.ok : Entries (Except ε γ)).toList = (e.map f).toList := by
    rw [toList, toList]
    refine congrArg List.ofFn (funext fun i => ?_)
    exact congrArg (Prod.mk _) (hval i).symm
  have hmap : ((⟨e.keys, e.nodup, g⟩ : Entries γ).map Except.ok : Entries (Except ε γ)).get? k = (e.map f).get? k := by
    rw [get?, get?, hlist]
  rw [get?_map, get?_map] at hmap
  exact hmap

end Entries

end TofuSdk
