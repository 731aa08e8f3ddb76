import TofuSdk.OrdMap
import Mathlib.Data.List.Forall2

namespace TofuSdk

namespace Outcome

variable {ε α β γ : Type}

@[simp] theorem pure_eq_ok (a : α) : (pure a : Except ε α) = .ok a := rfl

@[simp] theorem ok_bind (a : α) (f : α → Except ε β) : (Except.ok a >>= f) = f a := rfl

@[simp] theorem error_bind (e : ε) (f : α → Except ε β) : (Except.error e >>= f) = .error e := rfl

@[simp] theorem map_ok (f : α → β) (a : α) : f <$> (Except.ok a : Except ε α) = .ok (f a) := rfl

@[simp] theorem map_error (f : α → β) (e : ε) : f <$> (Except.error e : Except ε α) = .error e := rfl

theorem bind_eq_ok {x : Except ε α} {f : α → Except ε β} {b : β} :
    (x >>= f) = .ok b ↔ ∃ a, x = .ok a ∧ f a = .ok b := by
  cases x <;> simp

theorem map_eq_ok {x : Except ε α} {f : α → β} {b : β} :
    f <$> x = .ok b ↔ ∃ a, x = .ok a ∧ f a = b := by
  cases x <;> simp

theorem exists_map_eq_ok {x : Except ε α} {f : α → β} : (∃ b, f <$> x = .ok b) ↔ ∃ a, x = .ok a := by
  cases x <;> simp

theorem exists_bind_eq_ok {x : Except ε α} {f : α → Except ε β} {P : Prop}
    (h : ∀ a, x = .ok a → ((∃ b, f a = .ok b) ↔ P)) : (∃ b, x >>= f = .ok b) ↔ (∃ a, x = .ok a) ∧ P := by
  constructor
  · rintro ⟨b, hb⟩
    obtain ⟨a, ha, hfa⟩ := bind_eq_ok.mp hb
    exact ⟨⟨a, ha⟩, (h a ha).mp ⟨b, hfa⟩⟩
  · rintro ⟨⟨a, ha⟩, hP⟩
    obtain ⟨b, hb⟩ := (h a ha).mpr hP
    exact ⟨b, bind_eq_ok.mpr ⟨a, ha, hb⟩⟩

theorem map_ok_mono {x y : Except ε α} {f : α → β} {b : β} (h : ∀ a, x = .ok a → y = .ok a)
    (hx : f <$> x = .ok b) : f <$> y = .ok b := by
  obtain ⟨a, ha, rfl⟩ := map_eq_ok.mp hx
  rw [h a ha, map_ok]

theorem mapError_eq_ok {ε' : Type} {x : Except ε α} {f : ε → ε'} {a : α} :
    x.mapError f = .ok a ↔ x = .ok a := by
  cases x <;> simp [Except.mapError]

theorem toOption_eq_some {x : Except ε α} {a : α} : x.toOption = some a ↔ x = .ok a := by
  cases x <;> simp [Except.toOption]

theorem mapM_eq_ok {f : α → Except ε β} {xs : List α} {ys : List β} :
    xs.mapM f = .ok ys ↔ List.Forall₂ (fun x y => f x = .ok y) xs ys := by
  induction xs generalizing ys with
  | nil => cases ys <;> simp
  | cons x xs ih =>
      rw [List.mapM_cons, bind_eq_ok]
      simp only [bind_eq_ok, ih, pure_eq_ok, Except.ok.injEq]
      constructor
      · rintro ⟨y, hy, ys, hys, rfl⟩
        exact List.Forall₂.cons hy hys
      · intro h
        cases h with
        | cons hy hys => exact ⟨_, hy, _, hys, rfl⟩

theorem mapM_eq_ok_map {f : α → Except ε β} {g : α → β} {xs : List α}
    (h : ∀ x ∈ xs, f x = .ok (g x)) : xs.mapM f = .ok (xs.map g) := by
  rw [mapM_eq_ok, List.forall₂_map_right_iff, List.forall₂_same]
  exact h

theorem mapM_congr {f g : α → Except ε β} {xs : List α} (h : ∀ x ∈ xs, f x = g x) : xs.mapM f = xs.mapM g := by
  induction xs with
  | nil => rfl
  | cons x xs ih => rw [List.mapM_cons, List.mapM_cons, h x (by simp), ih fun x' hx' => h x' (by simp [hx'])]

theorem mapM_ok_of_map_eq {κ : Type} {key : α → κ} {key' : β → κ} {f : α → Except ε γ} {g : β → Except ε γ}
    {xs : List α} {ys : List β} {zs : List γ} (hkeys : xs.map key = ys.map key')
    (h : ∀ x ∈ xs, ∀ y ∈ ys, key x = key' y → ∀ z, f x = .ok z → g y = .ok z) (hf : xs.mapM f = .ok zs) :
    ys.mapM g = .ok zs := by
  rw [mapM_eq_ok] at hf ⊢
  induction hf generalizing ys with
  | nil =>
      obtain rfl := List.map_eq_nil_iff.mp hkeys.symm
      exact .nil
  | cons hz _ ih =>
      cases ys with
      | nil => cases hkeys
      | cons y ys =>
          obtain ⟨hkey, hkeys⟩ := List.cons.inj hkeys
          exact .cons (h _ (by simp) y (by simp) hkey _ hz)
            (ih hkeys fun x hx y' hy' => h x (List.mem_cons_of_mem _ hx) y' (List.mem_cons_of_mem _ hy'))

theorem mapM_ok_mono {f g : α → Except ε β} {xs : List α} {ys : List β}
    (h : ∀ x ∈ xs, ∀ y, f x = .ok y → g x = .ok y) (hf : xs.mapM f = .ok ys) : xs.mapM g = .ok ys := by
  refine mapM_ok_of_map_eq (rfl : xs.map id = xs.map id) ?_ hf
  rintro x hx _ _ rfl y hy
  exact h x hx y hy

theorem mapM_agree {f g : α → Except ε β} {xs xs' : List α} {ys : List β} (h : xs.mapM f = .ok ys)
    (h' : xs'.mapM g = .ok ys) : List.Forall₂ (fun x x' => ∃ y, f x = .ok y ∧ g x' = .ok y) xs xs' := by
  rw [mapM_eq_ok] at h h'
  induction h generalizing xs' with
  | nil =>
      cases h'
      exact .nil
  | cons hy _ ih =>
      cases h' with
      | cons hy' h' => exact .cons ⟨_, hy, hy'⟩ (ih h')

theorem ok_of_mem {f : α → Except ε β} {xs : List α} {ys : List β} (h : xs.mapM f = .ok ys) :
    ∀ x ∈ xs, ∃ y, f x = .ok y := by
  rw [mapM_eq_ok] at h
  induction h with
  | nil => simp
  | cons hy _ ih =>
      intro x hx
      rcases List.mem_cons.mp hx with rfl | hx
      · exact ⟨_, hy⟩
      · exact ih x hx

theorem exists_of_mem_results {f : α → Except ε β} {xs : List α} {ys : List β} (h : xs.mapM f = .ok ys) :
    ∀ y ∈ ys, ∃ x ∈ xs, f x = .ok y := by
  rw [mapM_eq_ok] at h
  induction h with
  | nil => simp
  | cons hy _ ih =>
      rw [List.forall_mem_cons]
      refine ⟨⟨_, List.mem_cons_self, hy⟩, fun y' hy' => ?_⟩
      obtain ⟨x, hx, hfx⟩ := ih y' hy'
      exact ⟨x, List.mem_cons_of_mem _ hx, hfx⟩

theorem mapM_keyed {κ : Type} [Nonempty β] {key : α → κ} {f : α → Except ε β} {xs : List α} {ps : List (κ × β)}
    (h : (xs.mapM fun x => (fun b => (key x, b)) <$> f x) = .ok ps) :
    ∃ g : α → β, (∀ x ∈ xs, f x = .ok (g x)) ∧ ps = xs.map fun x => (key x, g x) := by
  have hf : ∀ x ∈ xs, ∃ b, f x = .ok b := by
    intro x hx
    obtain ⟨_, hp⟩ := ok_of_mem h x hx
    obtain ⟨b, hb, -⟩ := map_eq_ok.mp hp
    exact ⟨b, hb⟩
  choose! g hg using hf
  refine ⟨g, hg, ?_⟩
  have hmap : (xs.mapM fun x => (fun b => (key x, b)) <$> f x) = .ok (xs.map fun x => (key x, g x)) :=
    mapM_eq_ok_map fun x hx => by rw [hg x hx, map_ok]
  exact Except.ok.inj (h.symm.trans hmap)

theorem mapM_eq_map [Nonempty β] {f : α → Except ε β} {xs : List α} {ys : List β} (h : xs.mapM f = .ok ys) :
    ∃ g : α → β, (∀ x ∈ xs, f x = .ok (g x)) ∧ ys = xs.map g := by
  have hf := ok_of_mem h
  choose! g hg using hf
  exact ⟨g, hg, Except.ok.inj (h.symm.trans (mapM_eq_ok_map hg))⟩

theorem mapM_exists {f : α → Except ε β} {xs : List α} (h : ∀ x ∈ xs, ∃ y, f x = .ok y) :
    ∃ ys, xs.mapM f = .ok ys := by
  induction xs with
  | nil => exact ⟨[], rfl⟩
  | cons x xs ih =>
      obtain ⟨y, hy⟩ := h x (by simp)
      obtain ⟨ys, hys⟩ := ih fun x' hx' => h x' (by simp [hx'])
      exact ⟨y :: ys, by rw [List.mapM_cons, hy, hys]; rfl⟩

theorem foldlM_exists {step : β → α → Except ε β} {xs : List α} (h : ∀ b, ∀ x ∈ xs, ∃ b', step b x = .ok b') (b : β) :
    ∃ out, xs.foldlM step b = .ok out := by
  induction xs generalizing b with
  | nil => exact ⟨b, rfl⟩
  | cons x xs ih =>
      obtain ⟨b', hb⟩ := h b x List.mem_cons_self
      rw [List.foldlM_cons, hb]
      exact ih (fun b x hx => h b x (List.mem_cons_of_mem _ hx)) b'

theorem ok_of_mem_foldlM {step : β → α → Except ε β} {xs : List α} {b out : β} (h : xs.foldlM step b = .ok out) :
    ∀ x ∈ xs, ∃ b b', step b x = .ok b' := by
  induction xs generalizing b with
  | nil => simp
  | cons x xs ih =>
      rw [List.foldlM_cons] at h
      obtain ⟨b', hb, h⟩ := bind_eq_ok.mp h
      rw [List.forall_mem_cons]
      exact ⟨⟨b, b', hb⟩, ih h⟩

theorem foldlM_invariant {step : β → α → Except ε β} {P : β → Prop} {xs : List α}
    (hstep : ∀ b, ∀ x ∈ xs, P b → ∀ b', step b x = .ok b' → P b') {b out : β} (hb : P b)
    (h : xs.foldlM step b = .ok out) : P out := by
  induction xs generalizing b with
  | nil =>
      cases h
      exact hb
  | cons x xs ih =>
      rw [List.foldlM_cons] at h
      obtain ⟨b', hb', h⟩ := bind_eq_ok.mp h
      exact ih (fun b x hx => hstep b x (List.mem_cons_of_mem _ hx)) (hstep b x List.mem_cons_self hb b' hb') h

/-- Inserting the results of a fallible step one after another is building the
map from the traversal. -/
theorem foldlM_insert {κ : Type} [LinearOrder κ] (key : α → κ) (f : α → Except ε β) (xs : List α)
    (m : OrdMap κ β) :
    xs.foldlM (fun m x => (fun b => m.insert (key x) b) <$> f x) m =
      List.foldl (fun m p => m.insert p.1 p.2) m <$> xs.mapM fun x => (fun b => (key x, b)) <$> f x := by
  induction xs generalizing m with
  | nil => rfl
  | cons x xs ih =>
      rw [List.foldlM_cons, List.mapM_cons]
      cases hx : f x with
      | error e => rfl
      | ok y =>
          simp only [map_ok, ok_bind, ih]
          cases xs.mapM fun x => (fun b => (key x, b)) <$> f x <;> rfl

theorem get?_of_foldlM_insert {κ : Type} [LinearOrder κ] {key : α → κ} {f : α → Except ε β} {xs : List α}
    {out : OrdMap κ β} (h : xs.foldlM (fun m x => (fun b => m.insert (key x) b) <$> f x) OrdMap.empty = .ok out) :
    (∀ k b, out.get? k = some b → ∃ x ∈ xs, key x = k ∧ f x = .ok b) ∧ ∀ x ∈ xs, key x ∈ out.keys := by
  rw [foldlM_insert] at h
  obtain ⟨ps, hps, rfl⟩ := map_eq_ok.mp h
  constructor
  · intro k b hget
    obtain ⟨x, hx, hstep⟩ := exists_of_mem_results hps (k, b) (OrdMap.mem_of_get?_ofList hget)
    obtain ⟨b', hb, heq⟩ := map_eq_ok.mp hstep
    obtain ⟨rfl, rfl⟩ := Prod.mk.inj heq
    exact ⟨x, hx, rfl, hb⟩
  · intro x hx
    obtain ⟨_, hstep⟩ := ok_of_mem hps x hx
    obtain ⟨b, -, -⟩ := map_eq_ok.mp hstep
    have : Nonempty β := ⟨b⟩
    obtain ⟨g, -, rfl⟩ := mapM_keyed hps
    rw [← OrdMap.ofList, OrdMap.mem_keys_ofList, List.map_map]
    exact List.mem_map_of_mem hx

end Outcome

end TofuSdk
