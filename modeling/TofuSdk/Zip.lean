import TofuSdk.Outcome

namespace TofuSdk

section

variable {ε α β γ : Type} {l : List α} {l' : List β}

theorem forall_mem_zip_fst (hlen : l.length = l'.length) {P : α → Prop} :
    (∀ p ∈ l.zip l', P p.1) ↔ ∀ a ∈ l, P a := by
  conv_rhs => rw [← List.map_fst_zip hlen.le]
  rw [List.forall_mem_map]

theorem forall_mem_zip_and (hlen : l.length = l'.length) {P : α → Prop} {Q : β → Prop} :
    ((∀ a ∈ l, P a) ∧ ∀ b ∈ l', Q b) ↔ ∀ p ∈ l.zip l', P p.1 ∧ Q p.2 := by
  have hsnd : (∀ b ∈ l', Q b) ↔ ∀ p ∈ l.zip l', Q p.2 := by
    conv_lhs => rw [← List.map_snd_zip hlen.ge]
    rw [List.forall_mem_map]
  rw [← forall_mem_zip_fst hlen, hsnd, ← forall₂_and]

theorem map_zip_eq_map_iff (hlen : l.length = l'.length) {f : α × β → γ} {g : α → γ} :
    (l.zip l').map f = l.map g ↔ ∀ p ∈ l.zip l', f p = g p.1 := by
  conv_lhs =>
    rhs
    rw [← List.map_fst_zip hlen.le]
  rw [List.map_map, List.map_inj_left]
  rfl

theorem mapM_zip_snd (hlen : l.length = l'.length) {f : β → Except ε γ} {u : α × β → γ}
    (h : ∀ p ∈ l.zip l', f p.2 = .ok (u p)) : l'.mapM f = .ok ((l.zip l').map u) := by
  conv_lhs => rw [← List.map_snd_zip hlen.ge]
  rw [List.mapM_map]
  exact Outcome.mapM_eq_ok_map h

theorem zip_zip_fst (hlen : l.length = l'.length) (ts : List γ) :
    l.zip ts = ((l.zip l').zip ts).map fun p => (p.1.1, p.2) := by
  conv_lhs => rw [← List.map_fst_zip hlen.le, List.zip_map_left]
  rfl

theorem zip_zip_snd (hlen : l.length = l'.length) (ts : List γ) :
    l'.zip ts = ((l.zip l').zip ts).map fun p => (p.1.2, p.2) := by
  conv_lhs => rw [← List.map_snd_zip hlen.ge, List.zip_map_left]
  rfl

/-- Lists that one function does not tell apart are not told apart by another
that sees no more. -/
theorem map_eq_map_of {f : α → β} {g : α → γ} {xs ys : List α} (h : xs.map f = ys.map f)
    (hg : ∀ y ∈ ys, ∀ x, f x = f y → g x = g y) : xs.map g = ys.map g := by
  induction ys generalizing xs with
  | nil => rw [List.map_eq_nil_iff.mp h]
  | cons y ys ih =>
      cases xs with
      | nil => cases h
      | cons x xs =>
          obtain ⟨hx, hxs⟩ := List.cons.inj h
          rw [List.map_cons, List.map_cons, hg y (by simp) x hx, ih hxs fun y hy => hg y (by simp [hy])]

end

theorem zip_map_zip {α β γ : Type} (f : α × β → γ) (xs : List α) (ys : List β) :
    ((xs.zip ys).map f).zip ys = (xs.zip ys).map fun p => (f p, p.2) := by
  induction xs generalizing ys with
  | nil => rfl
  | cons x xs ih =>
      cases ys with
      | nil => rfl
      | cons y ys => simp [ih]

theorem zip_map_self {α β : Type} (f : α → β) (l : List α) : l.zip (l.map f) = l.map fun a => (a, f a) := by
  induction l with
  | nil => rfl
  | cons a l ih => rw [List.map_cons, List.zip_cons_cons, ih, List.map_cons]

end TofuSdk
