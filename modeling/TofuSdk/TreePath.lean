import Mathlib.Data.List.Infix

namespace TofuSdk

structure TreePath (V S : Type*) where
  child : V → S → Option V
  update : V → S → (V → V) → V
  child_update_self : ∀ v s f, child (update v s f) s = (child v s).map f
  child_update_of_ne : ∀ v s f s', s' ≠ s → child (update v s f) s' = child v s'
  update_eq_self : ∀ v s f, (∀ c, child v s = some c → f c = c) → update v s f = v

namespace TreePath

variable {V S β : Type*} (tree : TreePath V S)

def get (v : V) : List S → Option V
  | [] => some v
  | s :: p => (tree.child v s).bind fun c => get c p

def set (v : V) (path : List S) (leaf : V) : V :=
  match path with
  | [] => leaf
  | s :: p => tree.update v s fun c => set c p leaf

theorem get_cons (v : V) (s : S) (p : List S) : tree.get v (s :: p) = (tree.child v s).bind fun c => tree.get c p := rfl

theorem set_cons (v : V) (s : S) (p : List S) (leaf : V) :
    tree.set v (s :: p) leaf = tree.update v s fun c => tree.set c p leaf := rfl

section

variable {tree} {v leaf : V} {k p r : List S}

theorem get_append (v : V) (k r : List S) : tree.get v (k ++ r) = (tree.get v k).bind fun c => tree.get c r := by
  induction k generalizing v with
  | nil => rfl
  | cons s k ih =>
      rw [List.cons_append, get_cons, get_cons, Option.bind_assoc]
      apply congrArg
      funext c
      exact ih c

theorem get_eq_none_of_mem {s : S} (hs : ∀ c, tree.child c s = none) (hmem : s ∈ p) (v : V) : tree.get v p = none := by
  induction p generalizing v with
  | nil => cases hmem
  | cons t p ih =>
      rw [get_cons]
      rcases List.mem_cons.mp hmem with rfl | hmem
      · rw [hs, Option.bind_none]
      · rw [Option.bind_eq_none_iff]
        intro c _
        exact ih hmem c

theorem set_of_get_eq_none (h : tree.get v k = none) : tree.set v k leaf = v := by
  induction k generalizing v with
  | nil => cases h
  | cons s k ih =>
      apply tree.update_eq_self
      intro c hc
      rw [get_cons, hc, Option.bind_some] at h
      exact ih h

theorem set_of_get_eq_self (h : tree.get v k = some leaf) : tree.set v k leaf = v := by
  induction k generalizing v with
  | nil => exact (Option.some.inj h).symm
  | cons s k ih =>
      apply tree.update_eq_self
      intro c hc
      rw [get_cons, hc, Option.bind_some] at h
      exact ih h

theorem get_set_append (h : (tree.get v k).isSome) : tree.get (tree.set v k leaf) (k ++ r) = tree.get leaf r := by
  induction k generalizing v with
  | nil => rfl
  | cons s k ih =>
      rw [get_cons] at h
      rw [List.cons_append, get_cons, set_cons, tree.child_update_self]
      cases hc : tree.child v s with
      | none =>
          rw [hc] at h
          cases h
      | some c =>
          rw [hc, Option.bind_some] at h
          rw [Option.map_some, Option.bind_some]
          exact ih h

theorem get_set_of_apart (hk : ¬k <+: p) (hp : ¬p <+: k) : tree.get (tree.set v k leaf) p = tree.get v p := by
  induction k generalizing v p with
  | nil => exact absurd List.nil_prefix hk
  | cons s k ih =>
      cases p with
      | nil => exact absurd List.nil_prefix hp
      | cons t p =>
          rw [get_cons, get_cons, set_cons]
          by_cases hst : t = s
          · subst hst
            rw [List.cons_prefix_cons, not_and] at hk hp
            rw [tree.child_update_self, Option.bind_map]
            apply congrArg
            funext c
            exact ih (hk rfl) (hp rfl)
          · rw [tree.child_update_of_ne _ _ _ _ hst]

/-- What an update does not change of a node, setting a longer path does not
change there. -/
theorem tag_get_set {tag : V → β} (htag : ∀ v s f, tag (tree.update v s f) = tag v) (hk : ¬k <+: p) :
    (tree.get (tree.set v k leaf) p).map tag = (tree.get v p).map tag := by
  induction k generalizing v p with
  | nil => exact absurd List.nil_prefix hk
  | cons s k ih =>
      cases p with
      | nil => exact congrArg some (htag v s _)
      | cons t p =>
          rw [get_cons, get_cons, set_cons]
          by_cases hst : t = s
          · subst hst
            rw [List.cons_prefix_cons, not_and] at hk
            rw [tree.child_update_self, Option.bind_map, Option.map_bind, Option.map_bind]
            apply congrArg
            funext c
            exact ih (hk rfl)
          · rw [tree.child_update_of_ne _ _ _ _ hst]

end

/-- Reading and writing at paths as a lens for each path: what is written is
read back, writing what is there changes nothing, a later write replaces an
earlier one, writes at paths of which neither leads on to the other are apart,
and a path that leads nowhere is not written. -/
structure Lens (get : V → List S → Option V) (set : V → List S → V → V) : Prop where
  get_set : ∀ v p leaf, (get v p).isSome → get (set v p leaf) p = some leaf
  set_get : ∀ v p leaf, get v p = some leaf → set v p leaf = v
  set_set : ∀ v p leaf leaf', (get v p).isSome → set (set v p leaf) p leaf' = set v p leaf'
  set_comm : ∀ v p q leaf leaf', ¬p <+: q → ¬q <+: p →
    set (set v p leaf) q leaf' = set (set v q leaf') p leaf
  get_set_apart : ∀ v p q leaf, ¬p <+: q → ¬q <+: p → get (set v p leaf) q = get v q
  set_nowhere : ∀ v p leaf, get v p = none → set v p leaf = v

structure Composes : Prop where
  update_update : ∀ v s f g, tree.update (tree.update v s f) s g = tree.update v s fun c => g (f c)
  update_comm : ∀ v s t f g, s ≠ t → tree.update (tree.update v s f) t g = tree.update (tree.update v t g) s f

namespace Composes

variable {tree} (h : tree.Composes)

include h

theorem set_set (v : V) (p : List S) (leaf leaf' : V) : tree.set (tree.set v p leaf) p leaf' = tree.set v p leaf' := by
  induction p generalizing v with
  | nil => rfl
  | cons s p ih =>
      rw [set_cons, set_cons, set_cons, h.update_update]
      congr 1
      funext c
      exact ih c

theorem set_comm {v : V} {p q : List S} {leaf leaf' : V} (hp : ¬p <+: q) (hq : ¬q <+: p) :
    tree.set (tree.set v p leaf) q leaf' = tree.set (tree.set v q leaf') p leaf := by
  induction p generalizing v q with
  | nil => exact absurd List.nil_prefix hp
  | cons s p ih =>
      cases q with
      | nil => exact absurd List.nil_prefix hq
      | cons t q =>
          rw [set_cons, set_cons, set_cons, set_cons]
          by_cases hst : s = t
          · subst hst
            rw [List.cons_prefix_cons, not_and] at hp hq
            rw [h.update_update, h.update_update]
            congr 1
            funext c
            exact ih (hp rfl) (hq rfl)
          · exact h.update_comm _ _ _ _ _ hst

theorem lens : Lens tree.get tree.set where
  get_set v p leaf hv := by
    have hread : tree.get (tree.set v p leaf) (p ++ []) = tree.get leaf [] := get_set_append hv
    rwa [List.append_nil] at hread
  set_get v p leaf := set_of_get_eq_self
  set_set v p leaf leaf' _ := h.set_set v p leaf leaf'
  set_comm v p q leaf leaf' := h.set_comm
  get_set_apart v p q leaf := get_set_of_apart
  set_nowhere v p leaf := set_of_get_eq_none

end Composes

def overwrite (leaf : List S → Option V) (v : V) (k : List S) : V :=
  match leaf k with
  | some l => tree.set v k l
  | none => v

def overlay (leaf : List S → Option V) (v : V) (paths : List (List S)) : V := paths.foldl (tree.overwrite leaf) v

def Coherent (leaf : List S → Option V) : Prop :=
  ∀ k r l x, leaf k = some l → tree.get l r = some x → ∀ y, leaf (k ++ r) = some y → y = x

def Written (leaf : List S → Option V) (v : V) (paths : List (List S)) (k : List S) : Prop :=
  k ∈ paths ∧ (leaf k).isSome ∧ (tree.get v k).isSome

def Outermost (leaf : List S → Option V) (v : V) (paths : List (List S)) (k p : List S) : Prop :=
  tree.Written leaf v paths k ∧ k <+: p ∧ ∀ k', tree.Written leaf v paths k' → k' <+: k → k' = k

section

variable {tree} {leaf : List S → Option V} {v : V} {paths : List (List S)} {k p : List S}

theorem overlay_append (k : List S) :
    tree.overlay leaf v (paths ++ [k]) = tree.overwrite leaf (tree.overlay leaf v paths) k :=
  List.foldl_append

theorem overwrite_of_some {l : V} (h : leaf k = some l) : tree.overwrite leaf v k = tree.set v k l := by
  rw [overwrite, h]

theorem overwrite_of_none (h : leaf k = none) : tree.overwrite leaf v k = v := by
  rw [overwrite, h]

theorem written_append {k' : List S} : tree.Written leaf v (paths ++ [k]) k' ↔
    tree.Written leaf v paths k' ∨ k' = k ∧ (leaf k).isSome ∧ (tree.get v k).isSome := by
  rw [Written, Written, List.mem_append, List.mem_singleton, or_and_right]
  apply or_congr_right
  apply and_congr_right
  rintro rfl
  rfl

theorem exists_outermost (hk : tree.Written leaf v paths k) (hp : k <+: p) :
    ∃ k₀, tree.Outermost leaf v paths k₀ p ∧ k₀ <+: k := by
  induction hn : k.length using Nat.strong_induction_on generalizing k with
  | h n ih =>
      by_cases hmin : ∀ k', tree.Written leaf v paths k' → k' <+: k → k' = k
      · exact ⟨k, ⟨hk, hp, hmin⟩, List.prefix_rfl⟩
      · push Not at hmin
        obtain ⟨k', hk', hpre, hne⟩ := hmin
        have hlt : k'.length < n := hn ▸ lt_of_le_of_ne hpre.length_le fun h => hne (hpre.eq_of_length h)
        obtain ⟨k₀, hout, hpre'⟩ := ih _ hlt hk' (hpre.trans hp) rfl
        exact ⟨k₀, hout, hpre'.trans hpre⟩

structure OverlaySpec (tree : TreePath V S) (tag : V → β) (leaf : List S → Option V) (v : V)
    (paths : List (List S)) (w : V) : Prop where
  inside : ∀ k r, tree.Outermost leaf v paths k (k ++ r) →
    tree.get w (k ++ r) = (leaf k).bind fun l => tree.get l r
  outside : ∀ p, (∀ k, tree.Written leaf v paths k → ¬k <+: p) → (tree.get w p).map tag = (tree.get v p).map tag

theorem OverlaySpec.of_covered {tag : V → β} {w : V} (h : OverlaySpec tree tag leaf v paths w) {k₀ : List S}
    (hout : tree.Outermost leaf v paths k₀ k) : OverlaySpec tree tag leaf v (paths ++ [k]) w := by
  have hwritten : ∀ k', tree.Written leaf v (paths ++ [k]) k' → ∃ k'', tree.Written leaf v paths k'' ∧ k'' <+: k' := by
    intro k' hk'
    obtain hk' | ⟨rfl, -, -⟩ := written_append.mp hk'
    · exact ⟨k', hk', List.prefix_rfl⟩
    · exact ⟨k₀, hout.1, hout.2.1⟩
  constructor
  · rintro k' r ⟨hk', hpre, hmin⟩
    obtain ⟨k'', hk'', hpre''⟩ := hwritten k' hk'
    obtain rfl := hmin k'' (written_append.mpr (.inl hk'')) hpre''
    exact h.inside _ r ⟨hk'', hpre, fun q hq => hmin q (written_append.mpr (.inl hq))⟩
  · intro p hp
    apply h.outside
    exact fun k' hk' => hp k' (written_append.mpr (.inl hk'))

theorem OverlaySpec.of_unresolved {tag : V → β} {w : V} (h : OverlaySpec tree tag leaf v paths w)
    (hk : ¬((leaf k).isSome ∧ (tree.get v k).isSome)) : OverlaySpec tree tag leaf v (paths ++ [k]) w := by
  have hiff : ∀ k', tree.Written leaf v (paths ++ [k]) k' ↔ tree.Written leaf v paths k' := by
    intro k'
    rw [written_append]
    exact or_iff_left fun hk' => hk hk'.2
  constructor
  · rintro k' r ⟨hk', hpre, hmin⟩
    exact h.inside k' r ⟨(hiff k').mp hk', hpre, fun q hq => hmin q ((hiff q).mpr hq)⟩
  · intro p hp
    apply h.outside
    exact fun k' hk' => hp k' ((hiff k').mpr hk')

theorem OverlaySpec.of_set {tag : V → β} (htag : ∀ v s f, tag (tree.update v s f) = tag v) {w : V}
    (h : OverlaySpec tree tag leaf v paths w) (hfree : ∀ k', tree.Written leaf v paths k' → ¬k' <+: k) {l : V}
    (hl : leaf k = some l) (hv : (tree.get v k).isSome) (hw : (tree.get w k).isSome) :
    OverlaySpec tree tag leaf v (paths ++ [k]) (tree.set w k l) := by
  have hself : tree.Written leaf v (paths ++ [k]) k := written_append.mpr (.inr ⟨rfl, hl ▸ rfl, hv⟩)
  constructor
  · rintro k' r ⟨hk', hpre, hmin⟩
    obtain hk' | ⟨rfl, -, -⟩ := written_append.mp hk'
    · have hkp : ¬k <+: k' ++ r := by
        intro hkp
        obtain hk | hk := List.prefix_or_prefix_of_prefix hkp hpre
        · exact hfree k' hk' (hmin k hself hk ▸ List.prefix_rfl)
        · exact hfree k' hk' hk
      have hpk : ¬k' ++ r <+: k := fun hpk => hfree k' hk' (hpre.trans hpk)
      rw [get_set_of_apart hkp hpk]
      exact h.inside k' r ⟨hk', hpre, fun q hq => hmin q (written_append.mpr (.inl hq))⟩
    · rw [get_set_append hw, hl, Option.bind_some]
  · intro p hp
    rw [tag_get_set htag (hp k hself)]
    apply h.outside
    exact fun k' hk' => hp k' (written_append.mpr (.inl hk'))

/-- Induction on the paths: a path below an earlier one writes what is there, by
coherence, and any other is met as the overlay began. -/
theorem overlay_spec {tag : V → β} (htag : ∀ v s f, tag (tree.update v s f) = tag v) (hleaf : tree.Coherent leaf)
    (v : V) (paths : List (List S)) : OverlaySpec tree tag leaf v paths (tree.overlay leaf v paths) := by
  induction paths using List.reverseRecOn with
  | nil => exact ⟨fun k r hk => absurd hk.1.1 List.not_mem_nil, fun p hp => rfl⟩
  | append_singleton paths k ih =>
      rw [overlay_append]
      cases hl : leaf k with
      | none =>
          rw [overwrite_of_none hl]
          exact ih.of_unresolved fun h => by simp [hl] at h
      | some l =>
          rw [overwrite_of_some hl]
          by_cases hcovered : ∃ k', tree.Written leaf v paths k' ∧ k' <+: k
          · obtain ⟨k', hk', hpre⟩ := hcovered
            obtain ⟨k₀, hout, -⟩ := exists_outermost hk' hpre
            have hsame : tree.set (tree.overlay leaf v paths) k l = tree.overlay leaf v paths := by
              obtain ⟨hk₀, ⟨r, rfl⟩, hmin⟩ := hout
              have hget := ih.inside k₀ r ⟨hk₀, List.prefix_append _ _, hmin⟩
              cases hcur : tree.get (tree.overlay leaf v paths) (k₀ ++ r) with
              | none => exact set_of_get_eq_none hcur
              | some x =>
                  obtain ⟨l₀, hl₀, hx⟩ := Option.bind_eq_some_iff.mp (hget.symm.trans hcur)
                  obtain rfl := hleaf k₀ r l₀ x hl₀ hx l hl
                  exact set_of_get_eq_self hcur
            rw [hsame]
            exact ih.of_covered hout
          · push Not at hcovered
            have htags := ih.outside k hcovered
            cases hv : tree.get v k with
            | none =>
                rw [hv, Option.map_none, Option.map_eq_none_iff] at htags
                rw [set_of_get_eq_none htags]
                exact ih.of_unresolved fun h => by simp [hv] at h
            | some x =>
                have hw : (tree.get (tree.overlay leaf v paths) k).isSome := by
                  rw [← Option.isSome_map (f := tag), htags, hv]
                  rfl
                exact ih.of_set htag hcovered hl (by rw [hv]; rfl) hw

end

end TreePath

end TofuSdk
